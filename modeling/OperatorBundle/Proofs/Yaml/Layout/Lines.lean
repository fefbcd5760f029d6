import OperatorBundle.Proofs.Yaml.Layout.Key

/-!
# Whole lines

All that is written can stand in a stream, and every value is written up to the end of a line.
-/

namespace OperatorBundle.Yaml.Layout

open Scalar (singleChar)
open Scanner (IsPair Written)

/-! ## Characters -/

/-- What the printer writes in a line, the reader admits. -/
theorem isAdmissible_of_isPrintable {x : Char} (h : isPrintable x = true) :
    isAdmissible x = true := by
  unfold isPrintable at h
  unfold isAdmissible
  simp only [Bool.or_eq_true, Bool.and_eq_true, beq_iff_eq, decide_eq_true_eq] at h ⊢
  omega

theorem isPrintable_of_mem_spaces {n : Nat} {x : Char} (h : x ∈ spaces n) : isPrintable x = true := by
  rw [eq_space_of_mem h]
  rfl

/-- What is written for the lines of a text is printable if what is written for its characters
is. -/
theorem isPrintable_of_mem_indentLines {indent : Nat} {encode : Char → List Char} {text : List Char}
    (htext : ∀ x ∈ text, isPrintable x = true)
    (hencode : ∀ c ∈ text, ∀ x ∈ encode c, isPrintable x = true) {broken : Bool} {x : Char}
    (h : x ∈ indentLines indent encode broken text) : isPrintable x = true := by
  induction text generalizing broken with
  | nil => exact absurd h List.not_mem_nil
  | cons c text ih =>
      have htail : ∀ broken, x ∈ indentLines indent encode broken text → isPrintable x = true :=
        fun _ => ih (fun y hy => htext y (List.mem_cons_of_mem c hy))
          fun d hd => hencode d (List.mem_cons_of_mem c hd)
      rw [indentLines] at h
      split at h
      · rcases List.mem_cons.mp h with rfl | h
        · exact htext x List.mem_cons_self
        · exact htail _ h
      · rcases List.mem_append.mp h with h | h
        · rcases List.mem_append.mp h with h | h
          · split at h
            · exact isPrintable_of_mem_spaces h
            · exact absurd h List.not_mem_nil
          · exact hencode c List.mem_cons_self x h
        · exact htail _ h

/-- An escaped character is written in printable characters. -/
theorem isPrintable_of_mem_doubleChar {c x : Char} (h : x ∈ doubleChar c) :
    isPrintable x = true := by
  unfold doubleChar at h
  split at h
  · rename_i hplain
    rw [List.mem_singleton.mp h]
    simp only [Bool.and_eq_true] at hplain
    exact hplain.1.1.1
  · exact isPrintable_of_isInk (isInk_of_mem_escape h)

theorem isPrintable_of_mem_literalHeader {text : List Char} {x : Char}
    (h : x ∈ literalHeader text) : isPrintable x = true := by
  have hall : ∀ (hint : Bool) chomping, ∀ y ∈ '|' :: ((if hint then ['2'] else []) ++
      Scalar.Chomping.mark chomping), isPrintable y = true := by
    intro hint chomping
    cases hint <;> cases chomping <;> decide
  rw [Scalar.literalHeader_eq] at h
  exact hall _ _ x h

/-- A leaf is printable. -/
theorem isPrintable_of_written {indent : Nat} {text : List Char} {tokens : List Token}
    (h : Written indent text tokens) : ∀ x ∈ text, isPrintable x = true := by
  cases h with
  | plain h hne =>
      unfold isPlain at h
      rw [Bool.not_eq_true', Bool.or_eq_false_iff, Bool.or_eq_false_iff, Bool.or_eq_false_iff,
        Bool.or_eq_false_iff] at h
      exact isPrintable_of_needsEscape h.1.1.1.1
  | @single text hescape hspace hfeed =>
      have hprint := isPrintable_of_needsEscape hescape
      have hlines : ∀ x ∈ indentLines indent singleChar false text, isPrintable x = true :=
        fun _ => isPrintable_of_mem_indentLines hprint
          fun c hc _ hy => Scalar.eq_of_mem_singleChar hy ▸ hprint c hc
      have htail : ∀ x ∈ if text.getLast?.any isBreak then spaces indent else [],
          isPrintable x = true := by
        intro x hx
        split at hx
        · exact isPrintable_of_mem_spaces hx
        · exact absurd hx List.not_mem_nil
      have hopened : ∀ x ∈ '\'' :: indentLines indent singleChar false text, isPrintable x = true :=
        List.forall_mem_cons.mpr ⟨rfl, hlines⟩
      exact List.forall_mem_append.mpr ⟨List.forall_mem_append.mpr ⟨hopened, htail⟩, by decide⟩
  | double text =>
      have hchars : ∀ x ∈ text.flatMap doubleChar, isPrintable x = true := by
        intro x hx
        rcases List.mem_flatMap.mp hx with ⟨c, _, hx⟩
        exact isPrintable_of_mem_doubleChar hx
      exact List.forall_mem_append.mpr ⟨List.forall_mem_cons.mpr ⟨rfl, hchars⟩, by decide⟩
  | @literal text hprint hne =>
      have hlines : ∀ x ∈ indentLines indent (fun c => [c]) true text, isPrintable x = true :=
        fun _ => isPrintable_of_mem_indentLines hprint
          fun c hc _ hy => List.mem_singleton.mp hy ▸ hprint c hc
      exact List.forall_mem_append.mpr ⟨fun _ => isPrintable_of_mem_literalHeader,
        List.forall_mem_cons.mpr ⟨rfl, hlines⟩⟩
  | pair hpair => cases hpair <;> decide

/-! ## Blocks -/

/-- Is this printable text up to the end of a line? -/
structure IsLines (text : List Char) : Prop where
  printable : ∀ x ∈ text, isPrintable x = true
  ended : text.getLast?.any isBreak = true

theorem IsLines.ne_nil {text : List Char} (h : IsLines text) : text ≠ [] := by
  rintro rfl
  have hended := h.ended
  cases hended

/-- Printable characters before complete lines belong to the first of them. -/
theorem IsLines.prepend {s text : List Char} (hs : ∀ x ∈ s, isPrintable x = true)
    (h : IsLines text) : IsLines (s ++ text) where
  printable x hx := by
    rcases List.mem_append.mp hx with hx | hx
    · exact hs x hx
    · exact h.printable x hx
  ended := by
    rw [List.getLast?_append_of_ne_nil s h.ne_nil]
    exact h.ended

/-- Printable characters and a line end are a line. -/
theorem isLines_line {text : List Char} (h : ∀ x ∈ text, isPrintable x = true) :
    IsLines (line text) := by
  unfold line
  split
  · rename_i hended
    exact ⟨h, hended⟩
  · have hfeed : IsLines ['\n'] := ⟨by decide, rfl⟩
    exact hfeed.prepend h

/-- A key on one line is printed in printable characters. -/
theorem isPrintable_of_mem_inlineKey {k : Value} (h : IsInline k) (column : Nat) :
    ∀ x ∈ inlineKey column k, isPrintable x = true := by
  have hleaf : ∀ {v : Value}, v.IsLeaf → ∀ x ∈ inlineKey column v, isPrintable x = true := by
    intro v hv
    rw [inlineKey_leaf hv]
    exact isPrintable_of_written (written_leaf hv (column + 2) .root false)
  cases h with
  | leaf h => exact hleaf h
  | tagged h =>
      intro x hx
      rw [inlineKey] at hx
      rcases List.mem_append.mp hx with hx | hx
      · exact isPrintable_of_isInk (Property.isInk_of_mem_tag hx)
      · rcases List.mem_cons.mp hx with rfl | hx
        · rfl
        · exact hleaf h x hx

/-- A leaf and a line end are complete lines. -/
theorem isLines_leaf {v : Value} (h : v.IsLeaf) (indent : Nat) : IsLines (line (leaf indent v)) :=
  isLines_line (isPrintable_of_written (written_leaf h indent .root false))

/-- Is a value written in whole lines wherever it stands? -/
def IsWrittenInLines (v : Value) : Prop :=
  ∀ column place, IsLines (node column place v) ∧ IsLines (underTag column place v)

/-- A sequence whose items are written in lines is written in lines. -/
theorem isLines_sequence {vs : List Value} (hne : vs ≠ []) (h : ∀ v ∈ vs, IsWrittenInLines v)
    (column : Nat) : IsLines (sequence column vs) := by
  induction vs with
  | nil => exact absurd rfl hne
  | cons v vs ih =>
      have hnode := (h v List.mem_cons_self column .item).1
      have hitem : IsLines ('-' :: node column .item v) := hnode.prepend (s := ['-']) (by decide)
      cases vs with
      | nil =>
          rw [sequence]
          simp only [List.isEmpty_nil, if_true, List.append_nil]
          exact hitem
      | cons w vs =>
          have htail := ih (List.cons_ne_nil w vs) fun u hu => h u (List.mem_cons_of_mem v hu)
          rw [sequence]
          exact (htail.prepend fun x hx => isPrintable_of_mem_spaces hx).prepend hitem.printable

/-- An entry of a mapping. -/
def entry (column : Nat) (k v : Value) : List Char :=
  if isInlineKey k then inlineKey column k ++ ':' :: node column .afterKey v
  else '?' :: node column .entry k ++ spaces column ++ ':' :: node column .entry v

/-- An entry whose key and value are written in lines is written in lines. -/
theorem isLines_entry {k v : Value} (hproper : k.IsProper) (hk : IsWrittenInLines k)
    (hv : IsWrittenInLines v) (column : Nat) : IsLines (entry column k v) := by
  have hvalue : ∀ place, IsLines (':' :: node column place v) := fun place =>
    (hv column place).1.prepend (s := [':']) (by decide)
  unfold entry
  split
  · rename_i hinline
    exact (hvalue .afterKey).prepend
      (isPrintable_of_mem_inlineKey (isInline_of_isInlineKey hinline hproper) column)
  · have hkey : IsLines ('?' :: node column .entry k) :=
      (hk column .entry).1.prepend (s := ['?']) (by decide)
    refine (hvalue .entry).prepend fun x hx => ?_
    rcases List.mem_append.mp hx with hx | hx
    · exact hkey.printable x hx
    · exact isPrintable_of_mem_spaces hx

/-- A mapping whose keys and values are written in lines is written in lines. -/
theorem isLines_mapping {es : Entries} (hne : es ≠ []) (hproper : ∀ e ∈ es, e.1.IsProper)
    (hkeys : ∀ e ∈ es, IsWrittenInLines e.1) (hvalues : ∀ e ∈ es, IsWrittenInLines e.2)
    (column : Nat) : IsLines (mapping column es) := by
  induction es with
  | nil => exact absurd rfl hne
  | cons e es ih =>
      rcases e with ⟨k, v⟩
      have hentry := isLines_entry (hproper (k, v) List.mem_cons_self) (hkeys (k, v) List.mem_cons_self)
        (hvalues (k, v) List.mem_cons_self) column
      cases es with
      | nil =>
          rw [mapping]
          simp only [List.isEmpty_nil, if_true, List.append_nil]
          exact hentry
      | cons f es =>
          have htail := ih (List.cons_ne_nil f es)
            (fun g hg => hproper g (List.mem_cons_of_mem (k, v) hg))
            (fun g hg => hkeys g (List.mem_cons_of_mem (k, v) hg))
            (fun g hg => hvalues g (List.mem_cons_of_mem (k, v) hg))
          rw [mapping]
          exact (htail.prepend fun x hx => isPrintable_of_mem_spaces hx).prepend hentry.printable

theorem isPrintable_of_mem_separator (place : Place) : ∀ x ∈ place.separator, isPrintable x = true := by
  cases place <;> decide

theorem isWrittenInLines_leaf {v : Value} (h : v.IsLeaf) : IsWrittenInLines v := by
  intro column place
  have hleaf := isLines_leaf h (column + 2)
  rw [node_leaf h, underTag_leaf h]
  exact ⟨hleaf.prepend (isPrintable_of_mem_separator place),
    hleaf.prepend (s := [' ']) (by decide)⟩

/-- Every proper value is written in whole lines. -/
theorem isWrittenInLines {v : Value} (h : v.IsProper) : IsWrittenInLines v := by
  have hspaces : ∀ n, ∀ x ∈ '\n' :: spaces n, isPrintable x = true := by
    intro n x hx
    rcases List.mem_cons.mp hx with rfl | hx
    · rfl
    · exact isPrintable_of_mem_spaces hx
  have hspace : ∀ x ∈ [' '], isPrintable x = true := by
    decide
  induction h with
  | null => exact isWrittenInLines_leaf .null
  | bool b => exact isWrittenInLines_leaf (.bool b)
  | number => exact isWrittenInLines_leaf (.number _)
  | string s => exact isWrittenInLines_leaf (.string s)
  | @sequence vs _ ih =>
      cases vs with
      | nil => exact isWrittenInLines_leaf .noItems
      | cons v vs =>
          have hitems := isLines_sequence (List.cons_ne_nil v vs) ih
          intro column place
          -- only the place decides where the first item stands; the items are the same lines
          refine ⟨?_, (hitems _).prepend (hspaces _)⟩
          cases place with
          | root => exact hitems 0
          | afterKey => exact (hitems column).prepend (hspaces column)
          | item => exact (hitems (column + 2)).prepend hspace
          | entry => exact (hitems (column + 2)).prepend hspace
  | @mapping es _ hkeys _ ihkeys ihvalues =>
      cases es with
      | nil => exact isWrittenInLines_leaf .noEntries
      | cons e es =>
          have hentries := isLines_mapping (List.cons_ne_nil e es) hkeys ihkeys ihvalues
          intro column place
          refine ⟨?_, (hentries _).prepend (hspaces _)⟩
          cases place with
          | root => exact hentries 0
          | afterKey => exact (hentries (column + 2)).prepend (hspaces (column + 2))
          | item => exact (hentries (column + 2)).prepend hspace
          | entry => exact (hentries (column + 2)).prepend hspace
  | @tagged name v hname hfree hproper ih =>
      intro column place
      have hunder : underTag column place (.tagged name v) = ' ' :: line [] := rfl
      refine ⟨?_, ?_⟩
      · rw [node]
        refine (ih column place).2.prepend fun x hx => ?_
        rcases List.mem_append.mp hx with hx | hx
        · exact isPrintable_of_mem_separator place x hx
        · exact isPrintable_of_isInk (Property.isInk_of_mem_tag hx)
      · rw [hunder]
        exact (isLines_line (by decide)).prepend hspace

end OperatorBundle.Yaml.Layout
