import OperatorBundle.Proofs.Yaml.Restorable
import OperatorBundle.Proofs.Yaml.Scan.Leaf

/-!
# What written values spell

The tokens of a value, and what is known of the texts of the parts that have no lines of their own.
-/

namespace OperatorBundle.Yaml

open Layout (Place spaces)

/-! ## Tokens -/

/-- Does a sequence here have its dashes in the column of the collection around it? -/
def Layout.Place.isBare (tagged : Bool) : Place → Bool
  | afterKey => true
  | entry => tagged
  | root | item => false

namespace Value

/-- The tokens of a block collection whose members have these tokens. -/
def enclosed (opening : Token) (members : List Token) : List Token :=
  opening :: members ++ [.blockEnd]

/-- Has this value no members and no tag? -/
inductive IsLeaf : Value → Prop where
  | null : IsLeaf null
  | bool (b : Bool) : IsLeaf (bool b)
  | number (n : Number) : IsLeaf (number n)
  | string (s : String) : IsLeaf (string s)
  | noItems : IsLeaf (sequence [])
  | noEntries : IsLeaf (mapping [])

mutual

/-- The tokens of a value; `tagged` says that it stands behind a tag. -/
def tokens (place : Place) (tagged : Bool) : Value → List Token
  | null => [.scalar "null".toList true]
  | bool b => [.scalar (if b then "true" else "false").toList true]
  | number n => [.scalar n.text.toList true]
  | string s => [.scalar s.toList (Layout.style s.toList == .plain)]
  | sequence vs =>
      if vs.isEmpty then [.flowSequenceStart, .flowSequenceEnd]
      else if place.isBare tagged then itemTokens vs
      else enclosed .blockSequenceStart (itemTokens vs)
  | mapping es =>
      if es.isEmpty then [.flowMappingStart, .flowMappingEnd]
      else enclosed .blockMappingStart (entryTokens es)
  | .tagged name v => Property.tagToken name :: v.tokens place true
termination_by structural v => v

/-- The tokens of the items of a sequence. -/
def itemTokens : List Value → List Token
  | [] => []
  | v :: vs => .blockEntry :: v.tokens .item false ++ itemTokens vs
termination_by structural vs => vs

/-- The tokens of the entries of a mapping. -/
def entryTokens : List (Value × Value) → List Token
  | [] => []
  | (k, v) :: es =>
      .key :: k.tokens .entry false ++
        (.value :: v.tokens (if Layout.isInlineKey k then .afterKey else .entry) false ++
          entryTokens es)
termination_by structural es => es

end

end Value

/-! ## Leaves -/

namespace Layout

/-- What is written of a leaf. -/
def leaf (indent : Nat) (v : Value) : List Char := (leaf? indent v).getD []

theorem node_leaf {v : Value} (h : v.IsLeaf) (column : Nat) (place : Place) :
    node column place v = place.separator ++ line (leaf (column + 2) v) := by
  cases h <;> rfl

theorem underTag_leaf {v : Value} (h : v.IsLeaf) (column : Nat) (place : Place) :
    underTag column place v = ' ' :: line (leaf (column + 2) v) := by
  cases h <;> rfl

/-! ## Numbers are plain -/

theorem hasInnerIndicator_eq_false {text : List Char} (h : ∀ x ∈ text, x ≠ ':' ∧ x ≠ '#') :
    hasInnerIndicator text = false := by
  induction text with
  | nil => rfl
  | cons a text ih =>
      cases text with
      | nil => rfl
      | cons b text =>
          rcases h b (by simp) with ⟨hcolon, hhash⟩
          rw [hasInnerIndicator, beq_eq_false_iff_ne.mpr hcolon, beq_eq_false_iff_ne.mpr hhash,
            ih fun x hx => h x (List.mem_cons_of_mem a hx)]
          rfl

theorem mem_of_isDigit {c : Char} (h : isDigit c = true) :
    c ∈ ['0', '1', '2', '3', '4', '5', '6', '7', '8', '9'] := by
  have hall : ∀ d < 10, Char.ofNat (48 + d) ∈
      ['0', '1', '2', '3', '4', '5', '6', '7', '8', '9'] := by
    decide
  unfold isDigit at h
  rw [Bool.and_eq_true, decide_eq_true_eq, decide_eq_true_eq] at h
  have hlow : 48 ≤ c.toNat := h.1
  have hhigh : c.toNat ≤ 57 := h.2
  have hmem := hall (c.toNat - 48) (by omega)
  rw [Nat.add_sub_cancel' hlow, Char.ofNat_toNat] at hmem
  exact hmem

/-- The characters of numbers are printable, and neither spacing nor indicators within a text. -/
theorem isPrintable_of_isNumberChar {c : Char} (h : Number.isNumberChar c = true) :
    isPrintable c = true ∧ isSpacing c = false ∧ c ≠ ':' ∧ c ≠ '#' := by
  have hmem : c ∈ ['0', '1', '2', '3', '4', '5', '6', '7', '8', '9', '.', '-', 'e'] := by
    simp only [Number.isNumberChar, Bool.or_eq_true, beq_iff_eq] at h
    rcases h with ((h | rfl) | rfl) | rfl
    · exact List.mem_append_left ['.', '-', 'e'] (mem_of_isDigit h)
    · decide
    · decide
    · decide
  have hall : ∀ d ∈ ['0', '1', '2', '3', '4', '5', '6', '7', '8', '9', '.', '-', 'e'],
      isPrintable d = true ∧ isSpacing d = false ∧ d ≠ ':' ∧ d ≠ '#' := by
    decide
  exact hall c hmem

/-- A text of such characters is plain if it does not begin like something else. -/
theorem isPlain_of_isNumberChar {text : List Char}
    (hchars : ∀ c ∈ text, Number.isNumberChar c = true)
    (hstart : startsWithIndicator text = false) : isPlain text = true := by
  have hspacing : ∀ c ∈ text, isSpacing c = false := fun c hc =>
    (isPrintable_of_isNumberChar (hchars c hc)).2.1
  have hspace : ∀ c ∈ text, (c == ' ') = false := fun c hc => beq_eq_false_iff_ne.mpr fun heq => by
    have hc' := hspacing c hc
    rw [heq] at hc'
    cases hc'
  have hescape : needsEscape text = false := by
    rw [needsEscape, hasSpaceBreak, hasNeighbours_eq_false fun a ha b _ => by
      rw [hspace a ha, Bool.false_and], List.all_eq_true.mpr fun c hc =>
      (isPrintable_of_isNumberChar (hchars c hc)).1]
    rfl
  have hbreak : text.any isBreak = false := List.any_eq_false.mpr fun c hc =>
    Bool.eq_false_iff.mp (isBreak_eq_false (hspacing c hc))
  have hends : hasAtEnds (· == ' ') text = false := by
    rw [hasAtEnds, Bool.or_eq_false_iff]
    constructor
    · cases hhead : text.head? with
      | none => rfl
      | some c => exact hspace c (List.mem_of_head? hhead)
    · cases hlast : text.getLast? with
      | none => rfl
      | some c => exact hspace c (List.mem_of_getLast? hlast)
  have hinner := hasInnerIndicator_eq_false fun c hc =>
    (isPrintable_of_isNumberChar (hchars c hc)).2.2
  rw [isPlain, hescape, hbreak, hends, hstart, hinner]
  rfl

/-- A number is written plain. -/
theorem isPlain_number (n : Number) : isPlain n.text.toList = true := by
  rcases Number.text_shape n with hword | ⟨sign, c, r, htext, hsign, hc, hchars⟩
  · have hall : ∀ w ∈ [".inf", "-.inf", ".nan"], isPlain w.toList = true := by
      decide
    exact hall _ hword
  · have hdigit : ∀ d ∈ ['0', '1', '2', '3', '4', '5', '6', '7', '8', '9'],
        isLeadingIndicator d = false ∧ isSpacing d = false ∧ (['?', ':', '-'].contains d) = false ∧
          d ≠ '-' ∧ d ≠ '.' := by
      decide
    rcases hdigit c (mem_of_isDigit hc) with ⟨hlead, hspacing, hmark, hminus, hpoint⟩
    rw [htext]
    rcases hsign with rfl | rfl
    · refine isPlain_of_isNumberChar hchars ?_
      have hfirst : startsWithIndicator (c :: r) =
          ('-' == c && ['-', '-'].isPrefixOf r || '.' == c && ['.', '.'].isPrefixOf r ||
            (isLeadingIndicator c || (['?', ':', '-'].contains c && atWordEnd r))) := rfl
      rw [List.nil_append, hfirst, hlead, hmark, beq_eq_false_iff_ne.mpr hminus.symm,
        beq_eq_false_iff_ne.mpr hpoint.symm]
      rfl
    · refine isPlain_of_isNumberChar (fun d hd => ?_) ?_
      · rcases List.mem_cons.mp hd with rfl | hd
        · rfl
        · exact hchars d hd
      · have hfirst : startsWithIndicator ('-' :: c :: r) =
            ('-' == c && ['-'].isPrefixOf r || false || isSpacing c) := rfl
        rw [List.singleton_append, hfirst, hspacing, beq_eq_false_iff_ne.mpr hminus.symm]
        rfl

theorem number_ne_nil (n : Number) : n.text.toList ≠ [] := by
  rcases Number.text_shape n with hword | ⟨sign, c, r, htext, _⟩
  · have hall : ∀ w ∈ [".inf", "-.inf", ".nan"], w.toList ≠ [] := by
      decide
    exact hall _ hword
  · rw [htext]
    exact List.append_ne_nil_of_right_ne_nil sign (List.cons_ne_nil c r)

/-! ## Leaves are written -/

open Scanner (Written)

theorem isPrintable_of_needsEscape {text : List Char} (h : needsEscape text = false) :
    ∀ c ∈ text, isPrintable c = true := by
  rw [needsEscape, Bool.or_eq_false_iff, Bool.not_eq_false'] at h
  exact List.all_eq_true.mp h.1

/-- A string has its style. -/
theorem written_string (indent : Nat) (text : List Char) :
    Written indent (string indent text) [.scalar text (style text == .plain)] := by
  -- the cases are those of the style: with line feeds, then plain, then the quotes
  unfold string style
  cases hfeed : text.contains '\n' with
  | true =>
      have hmem : '\n' ∈ text := List.contains_iff_mem.mp hfeed
      cases hescape : needsEscape text || text.getLast? == some ' ' with
      | true => exact .double text
      | false =>
          exact .literal (isPrintable_of_needsEscape (Bool.or_eq_false_iff.mp hescape).1)
            (List.ne_nil_of_mem hmem)
  | false =>
      cases hplain : isPlain text && !Value.isAmbiguous text with
      | true =>
          rw [Bool.and_eq_true] at hplain
          refine .plain hplain.1 ?_
          rintro rfl
          exact absurd hplain.2 (by decide)
      | false =>
          cases hescape : needsEscape text || hasBreakSpace text with
          | true => exact .double text
          | false =>
              have hparts := Bool.or_eq_false_iff.mp hescape
              refine .single hparts.1 hparts.2 fun hmem => ?_
              rw [List.contains_iff_mem.mpr hmem] at hfeed
              cases hfeed

/-- A leaf is written in a form that spells its tokens. -/
theorem written_leaf {v : Value} (h : v.IsLeaf) (indent : Nat) (place : Place) (tagged : Bool) :
    Written indent (leaf indent v) (v.tokens place tagged) := by
  cases h with
  | null =>
      have hplain : isPlain "null".toList = true ∧ "null".toList ≠ [] := by
        decide
      exact .plain hplain.1 hplain.2
  | bool b =>
      have hplain : ∀ b : Bool, isPlain (if b then "true" else "false").toList = true ∧
          (if b then "true" else "false").toList ≠ [] := by
        decide
      exact .plain (hplain b).1 (hplain b).2
  | number n => exact .plain (isPlain_number n) (number_ne_nil n)
  | string s => exact written_string indent s.toList
  | noItems => exact .pair .sequence
  | noEntries => exact .pair .mapping

end Layout

end OperatorBundle.Yaml
