import OperatorBundle.Proofs.Yaml.Spelling

/-!
# Keys in front of their colons

What is written in front of a colon stands on one line, and is short enough to be taken for a key:
with all escapes it has no more than seven characters to an octet that is counted for it, and two.
-/

namespace OperatorBundle.Yaml.Layout

open Scalar (singleChar)

/-! ## Lengths -/

theorem utf8ByteSize_cons (c : Char) (text : List Char) :
    (String.ofList (c :: text)).utf8ByteSize =
      c.utf8Size + (String.ofList text).utf8ByteSize := by
  have hcut : String.ofList (c :: text) = String.ofList [c] ++ String.ofList text := by
    rw [← String.ofList_append]
    rfl
  rw [hcut, String.utf8ByteSize_append, ← String.singleton_eq_ofList, String.utf8ByteSize_singleton]

/-- Characters are written in no more than so many characters to an octet. -/
theorem length_flatMap_le {write : Char → List Char} {k : Nat}
    (h : ∀ c, (write c).length ≤ k * c.utf8Size) (text : List Char) :
    (text.flatMap write).length ≤ k * (String.ofList text).utf8ByteSize := by
  induction text with
  | nil => exact Nat.zero_le _
  | cons c text ih =>
      have hc := h c
      rw [List.flatMap_cons, List.length_append, utf8ByteSize_cons, Nat.mul_add]
      omega

/-- A text has at least as many bytes as characters. -/
theorem length_le_utf8ByteSize (text : List Char) :
    text.length ≤ (String.ofList text).utf8ByteSize := by
  have h := @length_flatMap_le (fun c => [c]) 1
    (fun c => by
      have hpos := Char.utf8Size_pos c
      rw [List.length_singleton]
      omega) text
  rw [Nat.one_mul, List.flatMap_singleton'] at h
  exact h

/-- A character past ASCII takes two bytes or more. -/
theorem two_le_utf8Size {c : Char} (h : 0x7F < c.toNat) : 2 ≤ c.utf8Size := by
  have hone : c.utf8Size ≠ 1 := fun heq => by
    have hle : c.toNat ≤ 127 := UInt32.le_iff_toNat_le.mp (Char.utf8Size_eq_one_iff.mp heq)
    omega
  have hpos := Char.utf8Size_pos c
  omega

/-- A character past the two-byte range takes three bytes or more. -/
theorem three_le_utf8Size {c : Char} (h : 0x7FF < c.toNat) : 3 ≤ c.utf8Size := by
  have htwo : c.utf8Size ≠ 2 := fun heq => by
    have hle : c.toNat ≤ 2047 := UInt32.le_iff_toNat_le.mp (Char.utf8Size_eq_two_iff.mp heq).2
    omega
  have hle := two_le_utf8Size (c := c) (by omega)
  omega

/-- An escape is at most four characters for each byte of the character it stands for. -/
theorem length_escape_le (c : Char) : (escape c).length ≤ 4 * c.utf8Size := by
  have hpos := Char.utf8Size_pos c
  unfold escape
  split
  · simp only [List.length_cons, List.length_nil]
    omega
  simp only
  split
  · simp only [List.length_append, length_hexDigits, List.length_cons, List.length_nil]
    omega
  split
  · have hsize := two_le_utf8Size (c := c) (by omega)
    simp only [List.length_append, length_hexDigits, List.length_cons, List.length_nil]
    omega
  · have hsize := three_le_utf8Size (c := c) (by omega)
    simp only [List.length_append, length_hexDigits, List.length_cons, List.length_nil]
    omega

theorem length_doubleChar_le (c : Char) : (doubleChar c).length ≤ 4 * c.utf8Size := by
  have hpos := Char.utf8Size_pos c
  unfold doubleChar
  split
  · rw [List.length_singleton]
    omega
  · exact length_escape_le c

theorem length_singleChar_le (c : Char) : (singleChar c).length ≤ 4 * c.utf8Size := by
  have hpos := Char.utf8Size_pos c
  unfold singleChar
  split
  · rw [List.length_cons, List.length_singleton]
    omega
  · rw [List.length_singleton]
    omega

theorem length_tagChar_le (c : Char) : (tagChar c).length ≤ 3 * c.utf8Size := by
  have hpos := Char.utf8Size_pos c
  rw [tagChar_eq]
  split
  · rw [List.length_singleton]
    omega
  · rw [Property.length_octetText, Property.octets, List.length_map, String.length_utf8EncodeChar]

/-- A printed tag is at most seven characters for each byte of the name. -/
theorem length_tag_le (name : String) : (tag name).length + 1 ≤ 7 * tagSize name := by
  unfold tag tagSize
  cases hbody : tagBody name with
  | nil =>
      have hmark := length_tagChar_le '!'
      have hsize : '!'.utf8Size = 1 := rfl
      simp only [List.length_append, List.length_cons, List.length_nil]
      omega
  | cons c body =>
      have hle := length_flatMap_le length_tagChar_le (c :: body)
      simp only [List.length_cons]
      omega

/-! ## Leaves on one line -/

/-- On a text of one line, indenting does nothing but encode each character. -/
theorem indentLines_eq {text : List Char} (h : ∀ c ∈ text, isBreak c = false) (indent : Nat)
    (encode : Char → List Char) : indentLines indent encode false text = text.flatMap encode := by
  induction text with
  | nil => rfl
  | cons c text ih =>
      rw [indentLines, h c List.mem_cons_self, ih fun d hd => h d (List.mem_cons_of_mem c hd)]
      rfl

/-- A text in quotes stands on one line if what is written for its characters does. -/
theorem quoted_one_line {text : List Char} {write : Char → List Char} {mark : Char}
    (hmark : isBreak mark = false) (hwrite : ∀ c ∈ text, ∀ x ∈ write c, isBreak x = false)
    (hlength : ∀ c, (write c).length ≤ 4 * c.utf8Size) :
    (∀ x ∈ mark :: text.flatMap write ++ [mark], isBreak x = false) ∧
      (mark :: text.flatMap write ++ [mark]).length ≤
        4 * (String.ofList text).utf8ByteSize + 2 := by
  have hbound := length_flatMap_le hlength text
  constructor
  · intro x hx
    rcases List.mem_append.mp hx with hx | hx
    · rcases List.mem_cons.mp hx with rfl | hx
      · exact hmark
      · rcases List.mem_flatMap.mp hx with ⟨c, hc, hx⟩
        exact hwrite c hc x hx
    · rw [List.mem_singleton.mp hx]
      exact hmark
  · simp only [List.length_append, List.length_cons, List.length_nil]
    omega

/-- A single-quoted text of one line is its characters between two quotes. -/
theorem single_one_line {text : List Char} (h : ∀ c ∈ text, isBreak c = false) (indent : Nat) :
    single indent text = '\'' :: text.flatMap singleChar ++ ['\''] := by
  have htail : (if text.getLast?.any isBreak then spaces indent else []) = [] := by
    cases hlast : text.getLast? with
    | none => rfl
    | some c =>
        rw [Option.any_some, h c (List.mem_of_getLast? hlast)]
        rfl
  simp only [single, htail, indentLines_eq h, List.append_nil]
  rfl

theorem not_break_of_mem_doubleChar {c x : Char} (hc : isBreak c = false) (h : x ∈ doubleChar c) :
    isBreak x = false := by
  unfold doubleChar at h
  split at h
  · rw [List.mem_singleton.mp h]
    exact hc
  · exact isBreak_of_isInk (isInk_of_mem_escape h)

/-- A string without line breaks is written on one line. -/
theorem string_one_line {text : List Char} (h : ∀ c ∈ text, isBreak c = false) (indent : Nat) :
    (∀ x ∈ string indent text, isBreak x = false) ∧
      (string indent text).length ≤ 4 * (String.ofList text).utf8ByteSize + 2 := by
  unfold string
  cases hstyle : style text with
  | plain =>
      have hlength := length_le_utf8ByteSize text
      refine ⟨h, ?_⟩
      simp only
      omega
  | single =>
      simp only [single_one_line h]
      exact quoted_one_line rfl (fun c hc _ hx => Scalar.eq_of_mem_singleChar hx ▸ h c hc)
        length_singleChar_le
  | double =>
      exact quoted_one_line rfl (fun c hc _ hx => not_break_of_mem_doubleChar (h c hc) hx)
        length_doubleChar_le
  | literal =>
      -- only a text with a line break is written as a block
      unfold style at hstyle
      have hfeed : text.contains '\n' = false := Bool.eq_false_iff.mpr fun hmem => by
        have hbreak := h '\n' (List.contains_iff_mem.mp hmem)
        cases hbreak
      rw [hfeed, if_neg Bool.false_ne_true] at hstyle
      split at hstyle
      · cases hstyle
      · split at hstyle <;> cases hstyle

/-- A number is written on one line. -/
theorem number_one_line (n : Number) :
    (∀ x ∈ n.text.toList, isBreak x = false) ∧ n.text.toList.length ≤ 4 * n.text.utf8ByteSize + 2 := by
  have hspacing := (isRun_of_isPlain (isPlain_number n) (number_ne_nil n)).spacing
  have hlength := length_le_utf8ByteSize n.text.toList
  rw [String.ofList_toList] at hlength
  refine ⟨fun x hx => Bool.eq_false_iff.mpr fun hbreak => ?_, by omega⟩
  rw [hspacing x hx (by rw [isSpacing, hbreak, Bool.or_true])] at hbreak
  cases hbreak

/-- What is counted for a leaf in the length of a key bounds what is written of it. -/
theorem leaf_one_line {v : Value} (h : v.IsLeaf) {n : Nat} (hsize : keySize? v = some n)
    (indent : Nat) :
    (∀ x ∈ leaf indent v, isBreak x = false) ∧ (leaf indent v).length ≤ 4 * n + 2 := by
  cases h with
  | null =>
      cases hsize
      have hnull : (∀ x ∈ "null".toList, isBreak x = false) ∧
          "null".toList.length ≤ 4 * 4 + 2 := by
        decide
      exact hnull
  | bool b =>
      cases hsize
      have hbool : ∀ b : Bool, (∀ x ∈ (if b then "true" else "false").toList, isBreak x = false) ∧
          (if b then "true" else "false").toList.length ≤ 4 * (if b then 4 else 5) + 2 := by
        decide
      exact hbool b
  | number m =>
      cases hsize
      exact number_one_line m
  | string s =>
      unfold keySize? at hsize
      split at hsize
      · cases hsize
      · rename_i hbreak
        cases hsize
        -- a string with a line end has no size as a key
        have hline := @string_one_line s.toList (fun x hx => Bool.eq_false_iff.mpr fun hx' =>
          hbreak (List.any_eq_true.mpr ⟨x, hx, hx'⟩)) indent
        rw [String.ofList_toList] at hline
        exact hline
  | noItems =>
      cases hsize
      have hpair : (∀ x ∈ ['[', ']'], isBreak x = false) ∧ ['[', ']'].length ≤ 4 * 0 + 2 := by
        decide
      exact hpair
  | noEntries =>
      cases hsize
      have hpair : (∀ x ∈ ['{', '}'], isBreak x = false) ∧ ['{', '}'].length ≤ 4 * 0 + 2 := by
        decide
      exact hpair

/-! ## Keys -/

/-- What fits in front of a colon without a tag is a leaf. -/
theorem isLeaf_of_keySize? {v : Value} {n : Nat} (h : keySize? v = some n)
    (hfree : v.isTagged = false) : v.IsLeaf := by
  cases v with
  | null => exact .null
  | bool b => exact .bool b
  | number m => exact .number m
  | string s => exact .string s
  | sequence vs =>
      cases vs with
      | nil => exact .noItems
      | cons v vs => cases h
  | mapping es =>
      cases es with
      | nil => exact .noEntries
      | cons e es => cases h
  | tagged name v => cases hfree

/-- A key in front of its colon. -/
inductive IsInline : Value → Prop where
  | leaf {k : Value} {n : Nat} (h : k.IsLeaf) (hsize : keySize? k = some n) (hn : n ≤ 128) :
      IsInline k
  | tagged {name : String} {v : Value} {n : Nat} (h : v.IsLeaf) (hsize : keySize? v = some n)
      (hn : tagSize name + n ≤ 128) : IsInline (.tagged name v)

/-- A key that the printer holds short enough for one line is printed on one line. -/
theorem isInline_of_isInlineKey {k : Value} (h : isInlineKey k = true) (hproper : k.IsProper) :
    IsInline k := by
  rcases (Option.any_eq_true _ _).mp h with ⟨n, hsize, hn⟩
  have hn' : n ≤ 128 := of_decide_eq_true hn
  cases htagged : k.isTagged with
  | false => exact .leaf (isLeaf_of_keySize? hsize htagged) hsize hn'
  | true =>
      cases hproper with
      | @tagged name v hname hfree hproper =>
          rcases Option.map_eq_some_iff.mp hsize with ⟨m, hm, rfl⟩
          exact .tagged (isLeaf_of_keySize? hm hfree) hm hn'
      | _ => cases htagged

/-- A leaf as a key is printed as it is printed elsewhere. -/
theorem inlineKey_leaf {k : Value} (h : k.IsLeaf) (column : Nat) :
    inlineKey column k = leaf (column + 2) k := by
  cases h <;> rfl

/-- A key in front of its colon stands on one line, and is not too long. -/
theorem IsInline.one_line {k : Value} (h : IsInline k) (column : Nat) :
    (∀ x ∈ inlineKey column k, isBreak x = false) ∧ (inlineKey column k).length < 1024 := by
  cases h with
  | leaf h hsize hn =>
      have hleaf := leaf_one_line h hsize (column + 2)
      rw [inlineKey_leaf h]
      exact ⟨hleaf.1, by omega⟩
  | @tagged name v n h hsize hn =>
      have hleaf := leaf_one_line h hsize (column + 2)
      have htag := length_tag_le name
      rw [inlineKey, inlineKey_leaf h]
      constructor
      · intro x hx
        rcases List.mem_append.mp hx with hx | hx
        · exact isBreak_of_isInk (Property.isInk_of_mem_tag hx)
        · rcases List.mem_cons.mp hx with rfl | hx
          · rfl
          · exact hleaf.1 x hx
      · rw [List.length_append, List.length_cons]
        omega

end OperatorBundle.Yaml.Layout
