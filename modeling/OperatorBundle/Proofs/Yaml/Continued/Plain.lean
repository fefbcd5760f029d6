import OperatorBundle.Proofs.Yaml.Continued.Reader
import OperatorBundle.Yaml.Token.Scalar

/-!
# Plain scalars in texts that go on

The line `---` ends a plain scalar where the end of the text does.
-/

namespace OperatorBundle.Yaml.Scalar

variable {more : List Char} {c : Cursor}

theorem plainWord?_extend {inFlow : Bool} {text : List Char} (hlast : text.getLast? = some '\n')
    (more : List Char) : plainWord? inFlow (text ++ more) = plainWord? inFlow text := by
  induction text with
  | nil => cases hlast
  | cons x r ih =>
      rw [List.cons_append, plainWord?, plainWord?]
      by_cases hx : isSpacing x = true
      · rw [if_pos hx, if_pos hx]
      · have hne : r ≠ [] := by
          rintro rfl
          cases hlast
          exact hx rfl
        rw [List.getLast?_cons_of_ne_nil hne] at hlast
        obtain ⟨y, s, rfl⟩ := List.exists_cons_of_ne_nil hne
        rw [ih hlast]
        rfl

theorem plainWord?_split {inFlow : Bool} {text word : List Char}
    (h : plainWord? inFlow text = some word) :
    ∃ r, text = word ++ r ∧ ∀ x ∈ word, isSpacing x = false := by
  induction text generalizing word with
  | nil =>
      cases h
      exact ⟨[], rfl, nofun⟩
  | cons x text ih =>
      rw [plainWord?] at h
      split at h
      · cases h
        exact ⟨x :: text, rfl, nofun⟩
      · rename_i hx
        split at h
        · cases h
        · split at h
          · cases h
            exact ⟨x :: text, rfl, nofun⟩
          · obtain ⟨rest, hrest, rfl⟩ := Option.map_eq_some_iff.mp h
            obtain ⟨r, rfl, hink⟩ := ih hrest
            refine ⟨r, rfl, ?_⟩
            exact List.forall_mem_cons.mpr ⟨Bool.eq_false_iff.mpr hx, hink⟩

/-- Nothing more is read of a plain scalar at the end of a text, and at the mark behind it. -/
theorem plainWords_end (hmore : IsDocumentLine more) {inFlow : Bool} {indent : Nat}
    {text : List Char} {gap : Gap} (hc : c.EndsLine) (hrest : c.rest = []) (n n' : Nat) :
    plainWords inFlow indent n text gap c = .ok (text, !gap.breaks.isEmpty, c) ∧
      plainWords inFlow indent n' text gap (c.extend more) =
        .ok (text, !gap.breaks.isEmpty, c.extend more) := by
  constructor
  · cases n with
    | zero => rfl
    | succ n =>
        have hhash : c.headIs '#' = false := by
          unfold Cursor.headIs
          rw [hrest]
          rfl
        unfold plainWords
        rw [Cursor.atDocumentMarker_nil hrest, hhash, hrest]
        rfl
  · cases n' with
    | zero => rfl
    | succ n =>
        -- in the longer text the line of a document follows, which ends the scalar as the end of
        -- the text does
        have hmarker : (c.extend more).atDocumentMarker = true := by
          unfold Cursor.atDocumentMarker
          rw [Cursor.atMarker_extend_end hmore hc hrest]
          rfl
        unfold plainWords
        rw [hmarker]
        rfl

/-- How a plain scalar goes on behind a word. -/
def plainBehind (inFlow : Bool) (indent n : Nat) (text : List Char) (c : Cursor) :
    Except Defect (List Char × Bool × Cursor) :=
  if !(c.rest.head?.any isSpacing) then .ok (text, false, c)
  else
    match Gap.read? indent c.steps false {} c with
    | none => .error .token
    | some (gap, c) =>
        if !inFlow && c.column < indent then .ok (text, !gap.breaks.isEmpty, c)
        else plainWords inFlow indent n text gap c

theorem plainWords_succ (inFlow : Bool) (indent n : Nat) (text : List Char) (gap : Gap)
    (c : Cursor) :
    plainWords inFlow indent (n + 1) text gap c =
      if c.atDocumentMarker || c.headIs '#' then .ok (text, !gap.breaks.isEmpty, c)
      else
        match plainWord? inFlow c.rest with
        | none => .error .token
        | some word =>
            if word.isEmpty then .ok (text, !gap.breaks.isEmpty, c)
            else
              plainBehind inFlow indent n (text ++ gap.folded ++ word) (c.advance word.length) := by
  rw [plainWords]
  unfold plainBehind
  cases plainWord? inFlow c.rest with
  | none => rfl
  | some word =>
      dsimp only
      cases Gap.read? indent (c.advance word.length).steps false {} (c.advance word.length) with
      | none => rfl
      | some read => rfl

/-- A word that is read is passed, and a line break is left behind it. -/
theorem plainWord?_passed {inFlow : Bool} {word : List Char} (hc : c.EndsLine) (hne : c.rest ≠ [])
    (h : plainWord? inFlow c.rest = some word) :
    c.Along (c.advance word.length) ∧ (c.advance word.length).rest ≠ [] ∧
      c.rest.length = word.length + (c.advance word.length).rest.length := by
  obtain ⟨r, hsplit, hink⟩ := plainWord?_split h
  have halong := Cursor.along_word hsplit fun x hx => isBreak_eq_false (hink x hx)
  refine ⟨halong, (hc.along hne halong).2, ?_⟩
  rw [Cursor.rest_advance hsplit, hsplit, List.length_append]

theorem reads_plainBehind (hmore : IsDocumentLine more) {inFlow : Bool} {indent : Nat}
    {text : List Char} (hc : c.EndsLine) (hne : c.rest ≠ []) {n n' : Nat}
    (hwords : ∀ gap next, Cursor.Reaches c next →
      Reads Cursor.Passes more next (plainWords inFlow indent n text gap next)
        (plainWords inFlow indent n' text gap (next.extend more))) :
    Reads Cursor.Passes more c (plainBehind inFlow indent n text c)
      (plainBehind inFlow indent n' text (c.extend more)) := by
  unfold plainBehind
  rw [Cursor.head?_any_extend hmore fun h => absurd h hne]
  refine Reads.ite (fun _ => .ok .refl) fun _ => ?_
  cases hgap : Gap.read? indent c.steps false {} c with
  | none => exact Reads.error _ _
  | some read =>
      obtain ⟨gap, last⟩ := read
      obtain ⟨hsame, hreaches⟩ := Gap.read?_extend hmore hc hc.length_le_steps
        (hc.length_le_steps_extend more) hgap
      rw [hsame]
      refine Reads.trans hreaches (Reads.ite (fun _ => .ok .refl) fun _ => ?_)
      exact hwords gap last hreaches

/-- Words are read alike, however many steps more than there are characters may be taken. -/
theorem reads_plainWords (hmore : IsDocumentLine more) {inFlow : Bool} {indent : Nat}
    {text : List Char} {gap : Gap} (hc : c.EndsLine) {n n' : Nat} (hn : c.rest.length ≤ n)
    (hn' : c.rest.length ≤ n') :
    Reads Cursor.Passes more c (plainWords inFlow indent n text gap c)
      (plainWords inFlow indent n' text gap (c.extend more)) := by
  -- by induction on the steps that are left, of which each word takes one
  induction n generalizing n' text gap c with
  | zero =>
      have hrest : c.rest = [] := List.eq_nil_of_length_eq_zero (Nat.le_zero.mp hn)
      obtain ⟨hends, hends'⟩ := plainWords_end hmore hc hrest 0 n'
      rw [hends, hends']
      exact .ok .refl
  | succ n ih =>
      by_cases hrest : c.rest = []
      · obtain ⟨hends, hends'⟩ := plainWords_end hmore hc hrest (n + 1) n'
        rw [hends, hends']
        exact .ok .refl
      · have hpos := List.length_pos_iff.mpr hrest
        obtain ⟨n', rfl⟩ := Nat.exists_eq_add_one.mpr (Nat.lt_of_lt_of_le hpos hn')
        rw [plainWords_succ, plainWords_succ, Cursor.atDocumentMarker_extend hc hrest,
          Cursor.headIs_extend hmore fun h => absurd h hrest, Cursor.rest_extend,
          plainWord?_extend (hc.last hrest)]
        refine Reads.ite (fun _ => .ok .refl) fun _ => ?_
        cases hword : plainWord? inFlow c.rest with
        | none => exact Reads.error _ _
        | some word =>
            refine Reads.ite (fun _ => .ok .refl) fun hword' => ?_
            obtain ⟨halong, hleft, hlength⟩ := plainWord?_passed hc hrest hword
            have hreaches := halong.reaches
            have hpos : 0 < word.length := List.length_pos_iff.mpr fun h => hword' (by rw [h]; rfl)
            rw [Cursor.advance_extend (by omega)]
            refine Reads.trans hreaches (reads_plainBehind hmore (hc.reaches hreaches) hleft ?_)
            intro gap next hnext
            have hshorter := hnext.length_le
            exact ih ((hc.reaches hreaches).reaches hnext) (by omega) (by omega)

/-- The first word of a plain scalar is passed. -/
theorem moves_plain {inFlow broken : Bool} {indent : Nat} {text : List Char} {c' : Cursor}
    (hc : c.EndsLine) (hmark : c.atDocumentMarker = false) (hhash : c.headIs '#' = false)
    (hne : plainWord? inFlow c.rest ≠ some [])
    (h : plain inFlow indent c = .ok (text, broken, c')) : c.Moves c' := by
  -- what is read alike in a longer text has also moved on, so that any longer text will do
  obtain ⟨more, hmore⟩ : ∃ more, IsDocumentLine more := ⟨_, [], rfl⟩
  have hrest : c.rest ≠ [] := by
    intro hrest
    rw [hrest] at hne
    exact hne rfl
  unfold plain at h
  rw [hc.sound.steps_eq, plainWords_succ, hmark, hhash] at h
  cases hword : plainWord? inFlow c.rest with
  | none =>
      rw [hword] at h
      cases h
  | some word =>
      have hempty : word ≠ [] := by
        rintro rfl
        exact hne hword
      obtain ⟨r, hsplit, hink⟩ := plainWord?_split hword
      obtain ⟨halong, hleft, _⟩ := plainWord?_passed hc hrest hword
      have hmoves := Cursor.moves_word hsplit hempty fun x hx => isBreak_eq_false (hink x hx)
      have hnext := hc.reaches halong.reaches
      rw [hword] at h
      simp only [Bool.or_self, Bool.false_eq_true, if_false,
        List.isEmpty_eq_false_iff.mpr hempty] at h
      have hwords : ∀ gap next, (c.advance word.length).Reaches next →
          Reads Cursor.Passes more next
            (plainWords inFlow indent c.rest.length ([] ++ ({} : Gap).folded ++ word) gap next)
            (plainWords inFlow indent c.rest.length ([] ++ ({} : Gap).folded ++ word) gap
              (next.extend more)) := by
        intro gap next hreaches
        have hshorter := Nat.le_trans hreaches.length_le halong.reaches.length_le
        exact reads_plainWords hmore (hnext.reaches hreaches) hshorter hshorter
      exact hmoves.trans_left (reads_plainBehind hmore hnext hleft hwords _ h).2

theorem reads_plain (hmore : IsDocumentLine more) {inFlow : Bool} {indent : Nat} {x : Char}
    {r : List Char} (hc : c.EndsLine) (hrest : c.rest = x :: r) (hx : isBreak x = false)
    (hmark : c.atDocumentMarker = false) (hhash : x ≠ '#')
    (hne : plainWord? inFlow (x :: r) ≠ some []) :
    Reads Cursor.Passes more (c.advance 1) (plain inFlow indent c)
      (plain inFlow indent (c.extend more)) := by
  intro a ha
  have hwords : Reads Cursor.Passes more c (plain inFlow indent c)
      (plain inFlow indent (c.extend more)) :=
    reads_plainWords hmore hc hc.length_le_steps (hc.length_le_steps_extend more)
  refine ⟨(hwords a ha).1, ?_⟩
  exact (moves_plain hc hmark (Cursor.headIs_eq_false hrest hhash) (hrest ▸ hne) ha).reaches_advance
    hrest hx

end OperatorBundle.Yaml.Scalar
