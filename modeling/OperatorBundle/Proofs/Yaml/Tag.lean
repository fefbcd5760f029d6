import OperatorBundle.Proofs.Yaml.Cursor
import OperatorBundle.Proofs.Yaml.Scalar.Escape
import OperatorBundle.Yaml.Token.Property

/-!
# Tags are read as they were written

The octets of a character behind percent signs stand for that character, and the reader takes apart
what is written for a tag into the exclamation mark and the characters behind it.
-/

namespace OperatorBundle.Yaml

open Layout (hexDigits)

/-! ## Octets -/

namespace Property

/-- An octet is read as it is written. -/
theorem octet?_eq {o : Nat} (ho : o < 256) (r : List Char) :
    octet? ('%' :: hexDigits 2 o ++ r) = some o := by
  have hdigits : hexDigits 2 o = [Layout.hexDigit (o / 16 % 16), Layout.hexDigit (o % 16)] := rfl
  have hfits : o % 16 ^ 2 = o := Nat.mod_eq_of_lt ho
  have hnumber := Layout.hexNumber?_hexDigits 2 o
  rw [hfits] at hnumber
  rw [hdigits] at hnumber ⊢
  exact hnumber

/-- Each further octet gives six bits of a code. -/
theorem groupCode?_cons {o : Nat} (hlow : 0x80 ≤ o) (hhigh : o < 0xC0) (n code : Nat)
    (r : List Char) :
    groupCode? (n + 1) code ('%' :: hexDigits 2 o ++ r) =
      groupCode? n (64 * code + (o - 0x80)) r := by
  have hoctet := octet?_eq (by omega : o < 256) r
  have hdrop : ('%' :: hexDigits 2 o ++ r).drop 3 = r := rfl
  rw [groupCode?, hoctet]
  simp only [Option.bind_eq_bind, Option.bind_some, decide_eq_true hlow, decide_eq_true hhigh,
    Bool.and_self, if_true, hdrop]

/-- The octets of a character as it is encoded. -/
def octets (c : Char) : List Nat := (String.utf8EncodeChar c).map (·.toNat)

/-- Octets behind percent signs. -/
def octetText (os : List Nat) : List Char := os.flatMap fun o => '%' :: hexDigits 2 o

/-- The octets of a character are its bytes in UTF-8. -/
theorem octets_eq (c : Char) :
    octets c =
      if c.toNat ≤ 0x7F then [c.toNat]
      else if c.toNat ≤ 0x7FF then [c.toNat / 64 + 0xC0, c.toNat % 64 + 0x80]
      else if c.toNat ≤ 0xFFFF then
        [c.toNat / 4096 + 0xE0, c.toNat / 64 % 64 + 0x80, c.toNat % 64 + 0x80]
      else [c.toNat / 262144 + 0xF0, c.toNat / 4096 % 64 + 0x80, c.toNat / 64 % 64 + 0x80,
        c.toNat % 64 + 0x80] := by
  have hlt := toNat_lt c
  have hval : c.val.toNat = c.toNat := rfl
  unfold octets String.utf8EncodeChar
  simp only [hval]
  split
  · simp only [List.map_cons, List.map_nil, UInt8.toNat_ofNat', List.cons.injEq, and_true]
    omega
  split
  · simp only [List.map_cons, List.map_nil, UInt8.toNat_ofNat', List.cons.injEq, and_true]
    constructor <;> omega
  split
  · simp only [List.map_cons, List.map_nil, UInt8.toNat_ofNat', List.cons.injEq, and_true]
    refine ⟨?_, ?_, ?_⟩ <;> omega
  · simp only [List.map_cons, List.map_nil, UInt8.toNat_ofNat', List.cons.injEq, and_true]
    refine ⟨?_, ?_, ?_, ?_⟩ <;> omega

/-- A group by its first octet, which tells the size, and the code that all octets make up. -/
theorem escapedGroup?_eq {lead size : Nat} {c : Char} {t : List Char}
    (hgroup : groupCode? (size - 1)
      (match size with | 1 => lead | 2 => lead - 0xC0 | 3 => lead - 0xE0 | _ => lead - 0xF0) t =
        some c.toNat)
    (hlead : lead < 256) (hsize : groupSize? lead = some size)
    (hleast : leastCode size ≤ c.toNat) :
    escapedGroup? ('%' :: hexDigits 2 lead ++ t) = some (some c, size) := by
  have hdrop : ('%' :: hexDigits 2 lead ++ t).drop 3 = t := rfl
  have hcode := congrArg (fun found => found.bind fun code =>
    some (if leastCode size ≤ code then charOfCode? code else none, size)) hgroup
  simp only [Option.bind_some, hleast, if_true, charOfCode?_toNat] at hcode
  unfold escapedGroup?
  simp only [octet?_eq hlead, hsize, hdrop, Option.bind_eq_bind, Option.bind_some]
  exact hcode

/-- The first octet of two says so. -/
theorem groupSize?_two {lead : Nat} (hlow : 0xC0 ≤ lead) (hhigh : lead < 0xE0) :
    groupSize? lead = some 2 := by
  unfold groupSize?
  rw [if_neg (by omega), if_pos (by simp; omega)]

/-- The first octet of three says so. -/
theorem groupSize?_three {lead : Nat} (hlow : 0xE0 ≤ lead) (hhigh : lead < 0xF0) :
    groupSize? lead = some 3 := by
  unfold groupSize?
  rw [if_neg (by omega), if_neg (by simp; omega), if_pos (by simp; omega)]

/-- The first octet of four says so. -/
theorem groupSize?_four {lead : Nat} (hlow : 0xF0 ≤ lead) (hhigh : lead < 0xF8) :
    groupSize? lead = some 4 := by
  unfold groupSize?
  rw [if_neg (by omega), if_neg (by simp; omega), if_neg (by simp; omega),
    if_pos (by simp; omega)]

theorem octetText_cons (o : Nat) (os : List Nat) (r : List Char) :
    octetText (o :: os) ++ r = '%' :: hexDigits 2 o ++ (octetText os ++ r) := by
  simp [octetText]

/-- What is written for a character in octets stands for that character. -/
theorem escapedGroup?_octetText (c : Char) (r : List Char) :
    escapedGroup? (octetText (octets c) ++ r) = some (some c, (octets c).length) := by
  have hlt := toNat_lt c
  -- one case for each number of octets, of which the first one tells the number
  rw [octets_eq]
  split
  · rw [octetText_cons]
    change escapedGroup? _ = some (some c, 1)
    refine escapedGroup?_eq rfl (by omega) ?_ (Nat.zero_le _)
    rw [groupSize?, if_pos (by omega)]
  split
  · rw [octetText_cons]
    change escapedGroup? _ = some (some c, 2)
    refine escapedGroup?_eq ?_ (by omega) (groupSize?_two (by omega) (by omega)) ?_
    · rw [octetText_cons, groupCode?_cons (by omega) (by omega), groupCode?]
      exact congrArg some (by simp only; omega)
    · rw [leastCode]
      omega
  split
  · rw [octetText_cons]
    change escapedGroup? _ = some (some c, 3)
    refine escapedGroup?_eq ?_ (by omega) (groupSize?_three (by omega) (by omega)) ?_
    · rw [octetText_cons, groupCode?_cons (by omega) (by omega), octetText_cons,
        groupCode?_cons (by omega) (by omega), groupCode?]
      exact congrArg some (by simp only; omega)
    · rw [leastCode]
      omega
  · rw [octetText_cons]
    change escapedGroup? _ = some (some c, 4)
    refine escapedGroup?_eq ?_ (by omega) (groupSize?_four (by omega) (by omega)) ?_
    · rw [octetText_cons, groupCode?_cons (by omega) (by omega), octetText_cons,
        groupCode?_cons (by omega) (by omega), octetText_cons,
        groupCode?_cons (by omega) (by omega), groupCode?]
      exact congrArg some (by simp only; omega)
    · rw [leastCode]
      omega

/-- A character has one octet at least. -/
theorem exists_octets_eq (c : Char) : ∃ o os, octets c = o :: os := by
  rw [octets_eq]
  split
  · exact ⟨_, _, rfl⟩
  split
  · exact ⟨_, _, rfl⟩
  split
  · exact ⟨_, _, rfl⟩
  · exact ⟨_, _, rfl⟩

/-- Each octet is written with three characters. -/
theorem length_octetText (os : List Nat) : (octetText os).length = 3 * os.length := by
  induction os with
  | nil => rfl
  | cons o os ih =>
      have hcons := octetText_cons o os []
      rw [List.append_nil, List.append_nil] at hcons
      rw [hcons, List.length_append, List.length_cons, Layout.length_hexDigits, ih,
        List.length_cons]
      omega

/-- Octets are written in ink. -/
theorem isInk_of_mem_octetText {os : List Nat} {x : Char} (h : x ∈ octetText os) :
    isInk x = true := by
  rcases List.mem_flatMap.mp h with ⟨o, _, hx⟩
  rcases List.mem_cons.mp hx with rfl | hx
  · rfl
  · exact Layout.isInk_of_mem_hexDigits hx

end Property

/-! ## The characters of tags -/

namespace Layout

/-- A character of a tag is written as it is or by its octets. -/
theorem tagChar_eq (c : Char) :
    tagChar c = if isPlainTagChar c then [c] else Property.octetText (Property.octets c) := by
  unfold tagChar Property.octetText Property.octets
  rw [List.flatMap_map]

/-- Plain characters of tags are ink. -/
theorem isInk_of_isPlainTagChar {x : Char} (h : isPlainTagChar x = true) : isInk x = true := by
  have hzero : '0'.toNat = 48 := rfl
  have hnine : '9'.toNat = 57 := rfl
  have hletters : 'a'.toNat = 97 ∧ 'z'.toNat = 122 ∧ 'A'.toNat = 65 ∧ 'Z'.toNat = 90 :=
    ⟨rfl, rfl, rfl, rfl⟩
  have hle : ∀ {a b : Char}, a ≤ b → a.toNat ≤ b.toNat := fun h => h
  have hlisted : ∀ x ∈ [';', '/', '?', ':', '@', '&', '=', '+', '$', ',', '.', '~', '*', '\'', '(',
      ')', '[', ']'], isInk x = true := by
    decide
  -- letters and digits lie in ranges, the other characters are listed
  rcases Bool.or_eq_true_iff.mp h with h | h
  · simp only [isNameChar, isDigit, Bool.or_eq_true, Bool.and_eq_true, beq_iff_eq,
      decide_eq_true_eq] at h
    rcases h with (((h | h) | h) | rfl) | rfl
    · have hlow := hle h.1
      have hhigh := hle h.2
      exact isInk_iff.mpr (by omega)
    · have hlow := hle h.1
      have hhigh := hle h.2
      exact isInk_iff.mpr (by omega)
    · have hlow := hle h.1
      have hhigh := hle h.2
      exact isInk_iff.mpr (by omega)
    · rfl
    · rfl
  · exact hlisted x (List.contains_iff_mem.mp h)

/-- Characters of tags are written in ink. -/
theorem isInk_of_mem_tagChar {c x : Char} (h : x ∈ tagChar c) : isInk x = true := by
  rw [tagChar_eq] at h
  split at h
  · rename_i hplain
    rw [List.mem_singleton.mp h]
    exact isInk_of_isPlainTagChar hplain
  · exact Property.isInk_of_mem_octetText h

/-- What is written for a character of a tag begins with that character, or with a percent sign. -/
theorem tagChar_head (c : Char) :
    ∃ x r, tagChar c = x :: r ∧ (x = c ∧ isPlainTagChar c = true ∨ x = '%') := by
  rw [tagChar_eq]
  split
  · rename_i hplain
    exact ⟨c, [], rfl, .inl ⟨rfl, hplain⟩⟩
  · obtain ⟨o, os, hoctets⟩ := Property.exists_octets_eq c
    rw [hoctets]
    exact ⟨'%', hexDigits 2 o ++ Property.octetText os, rfl, .inr rfl⟩

end Layout

namespace Property

/-- A percent sign is not written as it is. -/
theorem ne_percent_of_isPlainTagChar {x : Char} (h : Layout.isPlainTagChar x = true) :
    x ≠ '%' := by
  rintro rfl
  cases h

/-- A character of a tag is read: it stands for itself, or its bytes are escaped one by one. -/
theorem tagChars_tagChar {wide : Bool} {x : Char} {r : List Char}
    (hx : Layout.isPlainTagChar x = true → isTagChar wide x = true) {c : Cursor}
    (hrest : c.rest = Layout.tagChar x ++ r) (n : Nat) (lead : TagText) :
    tagChars wide (n + 1) lead c =
      tagChars wide n (lead ++ [some x]) (c.after (Layout.tagChar x)) := by
  have hbreak : ∀ y ∈ Layout.tagChar x, isBreak y = false :=
    fun y hy => isBreak_of_isInk (Layout.isInk_of_mem_tagChar hy)
  rw [Cursor.after_eq_advance hbreak c, tagChars, hrest]
  rw [Layout.tagChar_eq] at hrest ⊢
  split at hrest
  · rename_i hplain
    have hpercent := ne_percent_of_isPlainTagChar hplain
    rw [if_pos hplain]
    simp [hx hplain, hpercent]
  · rename_i hplain
    rw [if_neg hplain, length_octetText]
    have hpercent : isTagChar wide '%' = true := by
      cases wide <;> rfl
    have hgroup := escapedGroup?_octetText x r
    obtain ⟨o, os, hoctets⟩ := exists_octets_eq x
    rw [hoctets, octetText_cons] at hgroup ⊢
    simp only [List.cons_append, hpercent] at hgroup ⊢
    simp [hgroup]

/-- The characters of a tag are read one after the other. -/
theorem tagChars_eq {wide : Bool} {body r : List Char}
    (hbody : ∀ x ∈ body, Layout.isPlainTagChar x = true → isTagChar wide x = true)
    (hr : r.head?.any (isTagChar wide) = false) {c : Cursor}
    (hrest : c.rest = body.flatMap Layout.tagChar ++ r) {n : Nat} (hn : body.length ≤ n)
    (lead : TagText) :
    tagChars wide n lead c =
      .ok (lead ++ body.map some, c.after (body.flatMap Layout.tagChar)) := by
  -- by induction on the name: each of its characters is read in one step, with its escapes
  induction body generalizing c n lead with
  | nil =>
      rw [List.map_nil, List.append_nil]
      cases n with
      | zero => rfl
      | succ n =>
          rw [tagChars, hrest]
          cases r with
          | nil => rfl
          | cons x r =>
              have hx : isTagChar wide x = false := hr
              simp [hx]
  | cons x body ih =>
      cases n with
      | zero => exact absurd hn (Nat.not_succ_le_zero _)
      | succ n =>
          rw [List.flatMap_cons, List.append_assoc] at hrest
          rw [tagChars_tagChar (hbody x List.mem_cons_self) hrest,
            ih (fun y hy => hbody y (List.mem_cons_of_mem x hy)) (Cursor.rest_after hrest)
              (Nat.le_of_succ_le_succ hn), List.flatMap_cons, Cursor.after_append]
          simp

/-- No character of a tag is written with nothing. -/
theorem length_le_tagText (body : List Char) :
    body.length ≤ (body.flatMap Layout.tagChar).length := by
  induction body with
  | nil => exact Nat.le_refl _
  | cons x body ih =>
      rcases Layout.tagChar_head x with ⟨y, r, hy, _⟩
      rw [List.flatMap_cons, List.length_append, hy, List.length_cons, List.length_cons]
      omega

/-- Tag characters up to where they end. -/
theorem tagText_eq (wide : Bool) (body : List Char) {r : List Char}
    (hbody : ∀ x ∈ body, Layout.isPlainTagChar x = true → isTagChar wide x = true)
    (hr : r.head?.any (isTagChar wide) = false) {c : Cursor} (hc : c.IsSound)
    (hrest : c.rest = body.flatMap Layout.tagChar ++ r) (lead : TagText) :
    tagText wide lead c =
      .ok (lead ++ body.map some, c.after (body.flatMap Layout.tagChar)) := by
  refine tagChars_eq hbody hr hrest ?_ lead
  have hlength := length_le_tagText body
  rw [hc.steps_eq, hrest, List.length_append]
  omega

theorem isNameChar_of_isSpacing {x : Char} (h : isSpacing x = true) : isNameChar x = false := by
  refine Bool.eq_false_iff.mpr fun hname => ?_
  have hplain : Layout.isPlainTagChar x = true := by
    rw [Layout.isPlainTagChar, hname, Bool.true_or]
  rw [isSpacing_of_isInk (Layout.isInk_of_isPlainTagChar hplain)] at h
  cases h

/-- Spacing ends a tag. -/
theorem isTagChar_of_isSpacing {x : Char} (h : isSpacing x = true) (wide : Bool) :
    isTagChar wide x = false := by
  simp only [isSpacing, isBlank, isBreak, isLineSeparator, Bool.or_eq_true, beq_iff_eq] at h
  revert wide
  rcases h with (rfl | rfl) | ((rfl | rfl) | rfl) | rfl | rfl <;> decide

/-- Nothing of a tag stands before spacing. -/
theorem head?_any_of_atWordEnd {p : Char → Bool} (hp : ∀ x, isSpacing x = true → p x = false)
    {r : List Char} (hr : atWordEnd r = true) : r.head?.any p = false := by
  cases r with
  | nil => rfl
  | cons x r => exact hp x hr

/-- The tag token for a name. -/
def tagToken (name : String) : Token :=
  match Layout.tagBody name with
  | [] => .tag [] [some '!']
  | body => .tag ['!'] (body.map some)

/-- A tag that can be read back has none of the characters that end a tag. -/
def isReadableTag (name : String) : Bool :=
  (Layout.tagBody name).all fun c => c != ',' && c != '[' && c != ']'

/-- A plain character that can stand in a flow collection is read as one of a tag. -/
theorem isTagChar_of_isPlainTagChar {x : Char} (hx : Layout.isPlainTagChar x = true)
    (hread : (x != ',' && x != '[' && x != ']') = true) : isTagChar false x = true := by
  unfold Layout.isPlainTagChar at hx
  unfold isTagChar
  rcases Bool.or_eq_true_iff.mp hx with hx | hx
  · rw [hx, Bool.true_or, Bool.true_or]
  · have hlisted : ∀ x ∈ [';', '/', '?', ':', '@', '&', '=', '+', '$', ',', '.', '~', '*', '\'', '(',
        ')', '[', ']'], (x != ',' && x != '[' && x != ']') = true →
        [';', '/', '?', ':', '@', '&', '=', '+', '$', '.', '%', '!', '~', '*', '\'', '(',
          ')'].contains x = true := by
      decide
    rw [hlisted x (List.contains_iff_mem.mp hx) hread, Bool.or_true, Bool.true_or]

/-- Tags are written in ink. -/
theorem isInk_of_mem_tag {name : String} {x : Char} (h : x ∈ Layout.tag name) :
    isInk x = true := by
  unfold Layout.tag at h
  split at h
  · revert h
    revert x
    decide
  · rcases List.mem_cons.mp h with rfl | h
    · rfl
    · rcases List.mem_flatMap.mp h with ⟨y, _, hx⟩
      exact Layout.isInk_of_mem_tagChar hx

/-- The exclamation mark alone is written between angle brackets. -/
theorem tagParts_mark {r : List Char} {c : Cursor} (hc : c.IsSound)
    (hrest : c.rest = ['!', '<'] ++ Layout.tagChar '!' ++ ['>'] ++ r) :
    tagParts c = .ok ([], [some '!'], c.after (['!', '<'] ++ Layout.tagChar '!' ++ ['>'])) := by
  have hopen : c.rest = ['!', '<'] ++ (['!'].flatMap Layout.tagChar ++ ('>' :: r)) := by
    rw [hrest]
    rfl
  have hfirst : c.advance 2 = c.after ['!', '<'] := by
    rw [Cursor.after_eq_advance (by decide)]
    rfl
  have htext := tagText_eq true ['!'] (by decide) (by rfl) (hc.after hopen)
    (Cursor.rest_after hopen) []
  have hrest' := Cursor.rest_after (Cursor.rest_after hopen)
  have hlast : ((c.after ['!', '<']).after (['!'].flatMap Layout.tagChar)).advance 1 =
      c.after (['!', '<'] ++ Layout.tagChar '!' ++ ['>']) := by
    rw [Cursor.after_append, Cursor.after_append]
    exact Cursor.advance_one rfl _
  have hangle : (c.rest.drop 1).head? == some '<' := by
    rw [hopen]
    rfl
  rw [tagParts, if_pos hangle, hfirst, htext]
  simp only [ok_bind, Cursor.headIs_eq_true hrest', hlast]
  rfl

/-- Names are written as they are. -/
theorem flatMap_tagChar_word {w : List Char} (hw : ∀ x ∈ w, isNameChar x = true) :
    w.flatMap Layout.tagChar = w := by
  induction w with
  | nil => rfl
  | cons x w ih =>
      have hx : Layout.tagChar x = [x] := by
        rw [Layout.tagChar, Layout.isPlainTagChar, hw x List.mem_cons_self, Bool.true_or,
          if_pos rfl]
      rw [List.flatMap_cons, hx, ih fun y hy => hw y (List.mem_cons_of_mem x hy)]
      rfl

/-- What is written for some characters begins with the first of them, or with a percent sign. -/
theorem head?_any_tagText {p : Char → Bool} (hspacing : ∀ x, isSpacing x = true → p x = false)
    (hpercent : p '%' = false) {body r : List Char}
    (hhead : ∀ y, body.head? = some y → Layout.isPlainTagChar y = true → p y = false)
    (hr : atWordEnd r = true) : (body.flatMap Layout.tagChar ++ r).head?.any p = false := by
  cases body with
  | nil => exact head?_any_of_atWordEnd hspacing hr
  | cons y body =>
      rcases Layout.tagChar_head y with ⟨z, s, hz, hcase⟩
      rw [List.flatMap_cons, hz]
      rcases hcase with ⟨rfl, hplain⟩ | rfl
      · exact hhead z rfl hplain
      · exact hpercent

/-- It does not begin with a mark that means something else there. -/
theorem head?_tagText_ne {z : Char} (hspacing : isSpacing z = false) (hpercent : z ≠ '%')
    (hplain : Layout.isPlainTagChar z = false) {r : List Char} (hr : atWordEnd r = true)
    (body : List Char) : (body.flatMap Layout.tagChar ++ r).head? ≠ some z := by
  intro hhead
  have hnone : (body.flatMap Layout.tagChar ++ r).head?.any (· == z) = false := by
    refine head?_any_tagText (fun x hx => ?_) ?_ (fun y _ hy => ?_) hr
    · refine beq_false_of_ne ?_
      rintro rfl
      rw [hspacing] at hx
      cases hx
    · exact beq_false_of_ne hpercent.symm
    · refine beq_false_of_ne ?_
      rintro rfl
      rw [hplain] at hy
      cases hy
  rw [hhead, Option.any_some, beq_self_eq_true] at hnone
  cases hnone

/-- An exclamation mark with a name behind it is no closed handle. -/
theorem isClosedHandle_name {w : List Char} (hw : ∀ x ∈ w, isNameChar x = true) :
    isClosedHandle ('!' :: w) = false := by
  rcases List.eq_nil_or_concat w with rfl | ⟨v, x, rfl⟩
  · rfl
  · rw [List.concat_eq_append] at hw ⊢
    have hx : x ≠ '!' := by
      rintro rfl
      have hchar := hw '!' (by simp)
      cases hchar
    rw [isClosedHandle, ← List.cons_append, List.getLast?_append, List.getLast?_singleton,
      Option.some_or, beq_eq_false_iff_ne.mpr (fun heq => hx (Option.some.inj heq)),
      Bool.and_false]

/-- An exclamation mark and a name are taken for a handle that may be closed or not. -/
theorem tagHandle_name {w s : List Char} (hw : ∀ x ∈ w, isNameChar x = true)
    (hname : s.head?.any isNameChar = false) (hmark : s.head? ≠ some '!') {c : Cursor}
    (hrest : c.rest = ['!'] ++ (w ++ s)) :
    tagHandle c = .ok ('!' :: w, (c.after ['!']).after w) := by
  have hbreak : ∀ x ∈ w, isBreak x = false := by
    intro x hx
    refine isBreak_eq_false (Bool.eq_false_iff.mpr fun hspacing => ?_)
    have hchar := hw x hx
    rw [isNameChar_of_isSpacing hspacing] at hchar
    cases hchar
  have hspan : (c.after ['!']).span isNameChar = (w, (c.after ['!']).after w) :=
    Cursor.span_eq_after (Cursor.rest_after hrest) hw hbreak hname
  have hopen : ((c.after ['!']).after w).headIs '!' = false := by
    rw [Cursor.headIs, Cursor.rest_after (Cursor.rest_after hrest)]
    exact beq_eq_false_iff_ne.mpr hmark
  have hfirst : c.advance 1 = c.after ['!'] := Cursor.advance_one rfl c
  rw [tagHandle, Cursor.headIs_eq_true hrest, hfirst, hspan]
  simp only [Bool.not_true, Bool.false_eq_true, if_false, hopen]

/-- Another tag is an exclamation mark and the characters of its name. -/
theorem tagParts_name {body r : List Char} (hne : body ≠ [])
    (hbody : ∀ x ∈ body, (x != ',' && x != '[' && x != ']') = true) (hr : atWordEnd r = true)
    {c : Cursor} (hc : c.IsSound) (hrest : c.rest = '!' :: body.flatMap Layout.tagChar ++ r) :
    tagParts c =
      .ok (['!'], body.map some, c.after ('!' :: body.flatMap Layout.tagChar)) := by
  have hangle : ((c.rest.drop 1).head? == some '<') = false := by
    rw [hrest]
    exact beq_false_of_ne (head?_tagText_ne rfl (by decide) rfl hr body)
  -- the handle takes the name as far as it is letters; the suffix takes up from there
  rcases exists_word isNameChar body with ⟨w, t, rfl, hw, ht⟩
  have hopen : c.rest = ['!'] ++ (w ++ (t.flatMap Layout.tagChar ++ r)) := by
    rw [hrest, List.flatMap_append, flatMap_tagChar_word hw]
    simp
  have hname : (t.flatMap Layout.tagChar ++ r).head?.any isNameChar = false :=
    head?_any_tagText (fun x hx => isNameChar_of_isSpacing hx) rfl
      (fun y hy _ => by rw [hy] at ht; exact ht) hr
  have hhandle := tagHandle_name hw hname (head?_tagText_ne rfl (by decide) rfl hr t) hopen
  have hsound := (hc.after hopen).after (Cursor.rest_after hopen)
  have htext := tagText_eq false t
    (fun x hx hplain => isTagChar_of_isPlainTagChar hplain (hbody x (List.mem_append_right w hx)))
    (head?_any_of_atWordEnd (fun x hx => isTagChar_of_isSpacing hx false) hr) hsound
    (Cursor.rest_after (Cursor.rest_after hopen)) (w.map some)
  have hsuffix : (w.map some ++ t.map some).isEmpty = false := by
    rw [← List.map_append]
    cases hbody' : w ++ t with
    | nil => exact absurd hbody' hne
    | cons x s => rfl
  rw [tagParts, if_neg (by rw [hangle]; decide), hhandle]
  simp only [ok_bind, isClosedHandle_name hw, Bool.false_eq_true, if_false, List.drop_succ_cons,
    List.drop_zero, htext, hsuffix]
  have hplace : c.after ('!' :: (w ++ t.flatMap Layout.tagChar)) =
      ((c.after ['!']).after w).after (t.flatMap Layout.tagChar) :=
    Cursor.after_append (c.after ['!']) w _
  rw [List.map_append, List.flatMap_append, flatMap_tagChar_word hw, hplace]
  rfl

/-- What is written for a tag is read as that tag. -/
theorem tag_eq {name : String} (hname : isReadableTag name = true) {r : List Char}
    (hr : atWordEnd r = true) {c : Cursor} (hc : c.IsSound)
    (hrest : c.rest = Layout.tag name ++ r) :
    tag false c = .ok (tagToken name, c.after (Layout.tag name)) := by
  have hafter : (c.after (Layout.tag name)).rest = r := Cursor.rest_after hrest
  have hparts : ∃ handle suffix, tagParts c = .ok (handle, suffix, c.after (Layout.tag name)) ∧
      tagToken name = .tag handle suffix := by
    unfold isReadableTag at hname
    unfold Layout.tag tagToken at *
    cases hbody : Layout.tagBody name with
    | nil =>
        rw [hbody] at hrest
        exact ⟨[], [some '!'], tagParts_mark hc hrest, rfl⟩
    | cons x body =>
        rw [hbody] at hrest hname
        exact ⟨['!'], _, tagParts_name (List.cons_ne_nil x body) (List.all_eq_true.mp hname) hr hc
          hrest, rfl⟩
  rcases hparts with ⟨handle, suffix, hparts, htoken⟩
  rw [tag, hparts, htoken]
  simp only [ok_bind, hafter, hr]
  rfl

end Property

end OperatorBundle.Yaml
