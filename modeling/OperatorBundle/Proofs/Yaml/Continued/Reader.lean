import OperatorBundle.Proofs.Yaml.Continued.Cursor

/-!
# Readers of texts that go on

A reader that looks ahead no further than the end of its line reads from the longer text what it
reads from the shorter one: `Reads` says so of one reader, and is kept when readers are put one
behind the other.
-/

namespace OperatorBundle.Yaml

/-! ## Readers -/

/-- What a reader yields: some values, and last the place where it stops. -/
class Placed (α : Type) where
  place : α → Cursor
  extend : α → List Char → α

instance : Placed Cursor := ⟨id, Cursor.extend⟩

instance {α β : Type} [Placed β] : Placed (α × β) :=
  ⟨fun a => Placed.place a.2, fun a more => (a.1, Placed.extend a.2 more)⟩

/-- What a reader yields in a text, does it yield it in the longer text as well, and at a place that
steps of a kind lead to? -/
def Reads {α : Type} [Placed α] (Step : Cursor → Cursor → Prop) (more : List Char) (c : Cursor)
    (read read' : Except Defect α) : Prop :=
  ∀ a, read = .ok a →
    read' = .ok (Placed.extend a more) ∧ Relation.ReflTransGen Step c (Placed.place a)

namespace Reads

variable {α β : Type} [Placed α] [Placed β] {Step : Cursor → Cursor → Prop} {more : List Char}
  {c c' : Cursor}

theorem ok {a : α} (h : Relation.ReflTransGen Step c (Placed.place a)) :
    Reads Step more c (.ok a) (.ok (Placed.extend a more)) := by
  intro b hb
  cases hb
  exact ⟨rfl, h⟩

theorem error (defect : Defect) (read' : Except Defect α) :
    Reads Step more c (.error defect) read' := by
  intro a ha
  cases ha

theorem trans {read read' : Except Defect α} (hreaches : Relation.ReflTransGen Step c c')
    (h : Reads Step more c' read read') : Reads Step more c read read' := by
  intro a ha
  obtain ⟨hread, hplace⟩ := h a ha
  exact ⟨hread, hreaches.trans hplace⟩

/-- What is read of a line is read of the text. -/
theorem reaches {read read' : Except Defect α} (h : Reads Cursor.PassesChar more c read read') :
    Reads Cursor.Passes more c read read' := by
  intro a ha
  obtain ⟨hread, hplace⟩ := h a ha
  exact ⟨hread, Cursor.Along.reaches hplace⟩

/-- Readers are put one behind the other. -/
theorem bind {read read' : Except Defect α} {next next' : α → Except Defect β}
    (h : Reads Step more c read read')
    (hnext : ∀ a, read = .ok a → Relation.ReflTransGen Step c (Placed.place a) →
      Reads Step more (Placed.place a) (next a) (next' (Placed.extend a more))) :
    Reads Step more c (read >>= next) (read' >>= next') := by
  intro b hb
  obtain ⟨a, ha, hb⟩ := bind_eq_ok_iff.mp hb
  obtain ⟨hread, hreaches⟩ := h a ha
  obtain ⟨hyields, hplace⟩ := hnext a ha hreaches b hb
  rw [hread, ok_bind]
  exact ⟨hyields, hreaches.trans hplace⟩

/-- A choice that is the same in both texts. -/
theorem ite {p : Prop} [Decidable p] {yes yes' no no' : Except Defect α}
    (hyes : p → Reads Step more c yes yes') (hno : ¬ p → Reads Step more c no no') :
    Reads Step more c (if p then yes else no) (if p then yes' else no') := by
  by_cases hp : p
  · rw [if_pos hp, if_pos hp]
    exact hyes hp
  · rw [if_neg hp, if_neg hp]
    exact hno hp

end Reads

/-! ## Space between words -/

theorem stops_extend {more : List Char} (hmore : IsDocumentLine more) {c : Cursor}
    (hrest : c.rest = []) : Stops (c.extend more).rest := by
  obtain ⟨r, rfl⟩ := hmore
  rw [Cursor.rest_extend, hrest]
  exact Stops.cons rfl

/-- A gap is read alike, however many steps more than there are characters may be taken. -/
theorem Gap.read?_extend {more : List Char} (hmore : IsDocumentLine more) {indent : Nat}
    {broken : Bool} {gap gap' : Gap} {c c' : Cursor} (hc : c.EndsLine) {n n' : Nat}
    (hn : c.rest.length ≤ n) (hn' : c.rest.length ≤ n')
    (h : read? indent n broken gap c = some (gap', c')) :
    read? indent n' broken gap (c.extend more) = some (gap', c'.extend more) ∧ c.Reaches c' := by
  induction n generalizing n' broken gap c with
  | zero =>
      have hrest : c.rest = [] := List.eq_nil_of_length_eq_zero (Nat.le_zero.mp hn)
      cases h
      exact ⟨read?_stop (stops_extend hmore hrest) indent n' broken _, .refl⟩
  | succ n ih =>
      cases hrest : c.rest with
      | nil =>
          rw [read?_stop (by rw [hrest]; exact Stops.nil)] at h
          cases h
          exact ⟨read?_stop (stops_extend hmore hrest) indent n' broken _, .refl⟩
      | cons x r =>
          rw [hrest, List.length_cons] at hn hn'
          obtain ⟨n', rfl⟩ := Nat.exists_eq_add_one.mpr (Nat.lt_of_lt_of_le (Nat.succ_pos _) hn')
          have hne : c.rest ≠ [] := by
            rw [hrest]
            exact List.cons_ne_nil x r
          have hadvance : (c.extend more).advance 1 = (c.advance 1).extend more :=
            Cursor.advance_one_extend hrest more
          -- whatever is passed next, it is read on alike behind it
          have hgo : ∀ {broken : Bool} {gap : Gap} {next : Cursor}, Cursor.Passes c next →
              read? indent n broken gap next = some (gap', c') →
              read? indent n' broken gap (next.extend more) = some (gap', c'.extend more) ∧
                c.Reaches c' := by
            intro broken gap next hpass hread
            have hless := hpass.length_lt
            rw [hrest, List.length_cons] at hless
            have hn := Nat.le_of_lt_succ (Nat.lt_of_lt_of_le hless hn)
            have hn' := Nat.le_of_lt_succ (Nat.lt_of_lt_of_le hless hn')
            obtain ⟨hsame, hreaches⟩ := ih (hc.passes hpass) hn hn' hread
            exact ⟨hsame, .head hpass hreaches⟩
          unfold read? at h ⊢
          simp only [Cursor.rest_extend, hrest, List.cons_append, hadvance,
            Cursor.breakText_extend hne, Cursor.newline_extend hc hne] at h ⊢
          by_cases hblank : isBlank x = true
          · have hbreak : isBreak x = false := by
              refine Bool.eq_false_iff.mpr fun hbreak => ?_
              rw [isBlank_eq_false_of_isBreak hbreak] at hblank
              cases hblank
            have hpass := Cursor.Passes.char hrest hbreak
            rw [if_pos hblank] at h ⊢
            by_cases hfirst : (!broken) = true
            · rw [if_pos hfirst] at h ⊢
              exact hgo hpass h
            · rw [if_neg hfirst] at h ⊢
              by_cases htab : (x == '\t' && decide (c.column < indent)) = true
              · rw [if_pos htab] at h
                cases h
              · rw [if_neg htab] at h
                rw [Cursor.column_extend, if_neg htab]
                exact hgo hpass h
          · rw [if_neg hblank] at h ⊢
            by_cases hbreak : isBreak x = true
            · rw [if_pos hbreak] at h ⊢
              exact hgo (.line hrest hbreak) h
            · rw [if_neg hbreak] at h ⊢
              cases h
              exact ⟨rfl, .refl⟩

end OperatorBundle.Yaml
