import OperatorBundle.Proofs.Outcome
import OperatorBundle.Proofs.Text.Classes
import OperatorBundle.Yaml.Cursor
import OperatorBundle.Yaml.Layout.Scalar

/-!
# Moving through a text

`Cursor.after` is the place behind a piece of text, found character by character.  The steps that
readers take are shown to end there.
-/

namespace OperatorBundle.Yaml

open Layout (spaces)

/-! ## Characters -/

/-- The line breaks that read as themselves. -/
def isOwnBreak (x : Char) : Bool := x == '\n' || isLineSeparator x

/-- A line break that reads as itself is a line break. -/
theorem isBreak_of_isOwnBreak {x : Char} (h : isOwnBreak x = true) : isBreak x = true := by
  unfold isOwnBreak at h
  unfold isBreak
  rcases Bool.or_eq_true_iff.mp h with h | h
  · rw [h, Bool.true_or, Bool.true_or, Bool.true_or]
  · rw [h, Bool.or_true]

/-- A carriage return does not read as itself. -/
theorem ne_return_of_isOwnBreak {x : Char} (h : isOwnBreak x = true) : x ≠ '\r' := by
  rintro rfl
  cases h

/-- A line break is no blank. -/
theorem isBlank_eq_false_of_isBreak {x : Char} (h : isBreak x = true) : isBlank x = false := by
  refine Bool.eq_false_iff.mpr fun hblank => ?_
  rcases Bool.or_eq_true_iff.mp hblank with hx | hx
  · rw [beq_iff_eq.mp hx] at h
    cases h
  · rw [beq_iff_eq.mp hx] at h
    cases h

theorem isBlank_eq_false {x : Char} (h : isSpacing x = false) : isBlank x = false :=
  (Bool.or_eq_false_iff.mp h).1

theorem isBreak_eq_false {x : Char} (h : isSpacing x = false) : isBreak x = false :=
  (Bool.or_eq_false_iff.mp h).2

/-- Does this character show, and is it one of the first 128? -/
def isInk (x : Char) : Bool := 0x21 ≤ x.toNat && x.toNat ≤ 0x7E

/-- The characters of ink are those of printable ASCII without the space. -/
theorem isInk_iff {x : Char} : isInk x = true ↔ 0x21 ≤ x.toNat ∧ x.toNat ≤ 0x7E := by
  rw [isInk, Bool.and_eq_true, decide_eq_true_eq, decide_eq_true_eq]

/-- Ink is no spacing. -/
theorem isSpacing_of_isInk {x : Char} (h : isInk x = true) : isSpacing x = false := by
  refine Bool.eq_false_iff.mpr fun hx => ?_
  simp only [isSpacing, isBlank, isBreak, isLineSeparator, Bool.or_eq_true, beq_iff_eq] at hx
  rcases hx with (rfl | rfl) | ((rfl | rfl) | rfl) | rfl | rfl <;> cases h

/-- Ink is no line break. -/
theorem isBreak_of_isInk {x : Char} (h : isInk x = true) : isBreak x = false :=
  isBreak_eq_false (isSpacing_of_isInk h)

/-- Ink is printed as it is. -/
theorem Layout.isPrintable_of_isInk {x : Char} (h : isInk x = true) :
    Layout.isPrintable x = true := by
  have hrange := isInk_iff.mp h
  unfold Layout.isPrintable
  simp only [Bool.or_eq_true, Bool.and_eq_true, beq_iff_eq, decide_eq_true_eq]
  omega

/-- Does a text go on with something other than spacing, if it goes on? -/
def Stops (r : List Char) : Prop := r.head?.any isSpacing = false

theorem Stops.nil : Stops [] := rfl

theorem Stops.cons {x : Char} {r : List Char} (h : isSpacing x = false) : Stops (x :: r) := h

/-- The only spacing within a line that needs no escape is the space. -/
theorem Layout.isSpacing_of_isPrintable {x : Char} (hx : Layout.isPrintable x = true)
    (hbreak : isBreak x = false) (h : isSpacing x = true) : x = ' ' := by
  rw [isSpacing, hbreak, Bool.or_false, isBlank, Bool.or_eq_true, beq_iff_eq, beq_iff_eq] at h
  rcases h with rfl | rfl
  · rfl
  · cases hx

/-- A line break that is printed as it is reads as itself. -/
theorem Layout.isOwnBreak_of_isPrintable {x : Char} (hx : Layout.isPrintable x = true)
    (h : isBreak x = true) : isOwnBreak x = true := by
  simp only [isBreak, Bool.or_eq_true, beq_iff_eq] at h
  rcases h with ((rfl | rfl) | rfl) | h
  · rfl
  · cases hx
  · cases hx
  · rw [isOwnBreak, h, Bool.or_true]

/-! ## Cutting texts -/

/-- A text is a word, and what begins with the first character that is in no word. -/
theorem exists_word (p : Char → Bool) (t : List Char) :
    ∃ w s, t = w ++ s ∧ (∀ x ∈ w, p x = true) ∧ s.head?.any p = false := by
  induction t with
  | nil => exact ⟨[], [], rfl, fun x hx => absurd hx List.not_mem_nil, rfl⟩
  | cons a t ih =>
      cases ha : p a with
      | false => exact ⟨[], a :: t, rfl, fun x hx => absurd hx List.not_mem_nil, ha⟩
      | true =>
          rcases ih with ⟨w, s, rfl, hw, hs⟩
          refine ⟨a :: w, s, rfl, fun x hx => ?_, hs⟩
          rcases List.mem_cons.mp hx with rfl | hx
          · exact ha
          · exact hw x hx

/-- Spaces are all alike. -/
theorem eq_space_of_mem {n : Nat} {x : Char} (h : x ∈ spaces n) : x = ' ' :=
  (List.mem_replicate.mp h).2

theorem length_spaces (n : Nat) : (spaces n).length = n := List.length_replicate

theorem spaces_succ (n : Nat) : spaces (n + 1) = ' ' :: spaces n := List.replicate_succ

/-- No line ends among spaces. -/
theorem not_break_of_mem_spaces {n : Nat} {x : Char} (h : x ∈ spaces n) : isBreak x = false := by
  rw [eq_space_of_mem h]
  rfl

/-- A text is some spaces, and what begins with another character. -/
theorem exists_spaces (t : List Char) :
    ∃ k s, t = spaces k ++ s ∧ s.head? ≠ some ' ' := by
  rcases exists_word (· == ' ') t with ⟨w, s, rfl, hw, hs⟩
  refine ⟨w.length, s, ?_, ?_⟩
  · rw [Layout.spaces, ← List.eq_replicate_iff.mpr ⟨rfl, fun x hx => beq_iff_eq.mp (hw x hx)⟩]
  · intro hhead
    rw [hhead] at hs
    cases hs

namespace Cursor

/-! ## The place behind a piece of text -/

/-- The place behind one character. -/
def pass (c : Cursor) (x : Char) : Cursor :=
  if isBreak x then
    { c with rest := c.rest.drop 1, index := c.index + 1, line := c.line + 1, column := 0 }
  else c.advance 1

/-- The place behind a piece of text. -/
def after (c : Cursor) (text : List Char) : Cursor := text.foldl pass c

/-- Does a cursor know how much text is left? -/
def IsSound (c : Cursor) : Prop := c.index + c.rest.length = c.total

@[simp] theorem after_nil (c : Cursor) : c.after [] = c := rfl

/-- A piece of text is passed character by character. -/
theorem after_cons (c : Cursor) (x : Char) (t : List Char) :
    c.after (x :: t) = (c.pass x).after t := rfl

/-- One piece of text is passed after the other. -/
theorem after_append (c : Cursor) (s t : List Char) : c.after (s ++ t) = (c.after s).after t :=
  List.foldl_append

theorem rest_pass (c : Cursor) (x : Char) : (c.pass x).rest = c.rest.drop 1 := by
  unfold pass
  split <;> rfl

theorem index_pass (c : Cursor) (x : Char) : (c.pass x).index = c.index + 1 := by
  unfold pass
  split <;> rfl

theorem total_pass (c : Cursor) (x : Char) : (c.pass x).total = c.total := by
  unfold pass
  split <;> rfl

/-- Behind a piece of text stands what follows it. -/
theorem rest_after {c : Cursor} {t r : List Char} (h : c.rest = t ++ r) :
    (c.after t).rest = r := by
  induction t generalizing c with
  | nil => exact h
  | cons x t ih =>
      refine ih ?_
      rw [rest_pass, h]
      rfl

/-- Every character of a piece of text is counted. -/
theorem index_after (c : Cursor) (t : List Char) : (c.after t).index = c.index + t.length := by
  induction t generalizing c with
  | nil => rfl
  | cons x t ih =>
      rw [after_cons, ih, index_pass, List.length_cons]
      omega

/-- The length of the whole text stays. -/
theorem total_after (c : Cursor) (t : List Char) : (c.after t).total = c.total := by
  induction t generalizing c with
  | nil => rfl
  | cons x t ih => rw [after_cons, ih, total_pass]

/-- A cursor is sound behind a piece of text. -/
theorem IsSound.after {c : Cursor} (hc : c.IsSound) {t r : List Char} (h : c.rest = t ++ r) :
    (c.after t).IsSound := by
  unfold IsSound at hc ⊢
  rw [h, List.length_append] at hc
  rw [index_after, total_after, rest_after h]
  omega

/-- A sound cursor has a step for each character that is left, and one more. -/
theorem IsSound.steps_eq {c : Cursor} (hc : c.IsSound) : c.steps = c.rest.length + 1 := by
  unfold IsSound at hc
  unfold steps
  omega

/-- A cursor in front of a text is sound. -/
theorem isSound_ofText (text : List Char) : (ofText text).IsSound := Nat.zero_add _

/-- Two advances are one. -/
theorem advance_advance (c : Cursor) (m n : Nat) : (c.advance m).advance n = c.advance (m + n) := by
  unfold advance
  simp only [List.drop_drop, Nat.add_assoc]

theorem advance_zero (c : Cursor) : c.advance 0 = c := rfl

/-! ## Pieces of a line -/

/-- Text without line breaks stays on its line. -/
theorem after_eq_advance {t : List Char} (h : ∀ x ∈ t, isBreak x = false) (c : Cursor) :
    c.after t = c.advance t.length := by
  induction t generalizing c with
  | nil => rfl
  | cons x t ih =>
      have hx : c.pass x = c.advance 1 := by
        unfold pass
        rw [h x List.mem_cons_self, if_neg Bool.false_ne_true]
      rw [after_cons, hx, ih fun y hy => h y (List.mem_cons_of_mem x hy), advance_advance,
        List.length_cons, Nat.add_comm]

/-- To pass one character that does not end the line is to advance by one. -/
theorem advance_one {x : Char} (hx : isBreak x = false) (c : Cursor) :
    c.advance 1 = c.after [x] := by
  rw [after_eq_advance fun y hy => by rw [List.mem_singleton.mp hy]; exact hx]
  rfl

/-- On one line the column grows with the text. -/
theorem column_after {t : List Char} (h : ∀ x ∈ t, isBreak x = false) (c : Cursor) :
    (c.after t).column = c.column + t.length := by
  rw [after_eq_advance h]
  rfl

theorem column_after_char {x : Char} (hx : isBreak x = false) (c : Cursor) :
    (c.after [x]).column = c.column + 1 :=
  column_after (fun _ hy => List.mem_singleton.mp hy ▸ hx) c

/-- To pass spaces is to advance by their number. -/
theorem advance_spaces (c : Cursor) (k : Nat) : c.advance k = c.after (spaces k) := by
  rw [after_eq_advance fun x hx => not_break_of_mem_spaces hx, length_spaces]

/-- Spaces move the column by their number. -/
theorem column_after_spaces (c : Cursor) (k : Nat) : (c.after (spaces k)).column = c.column + k := by
  rw [column_after fun x hx => not_break_of_mem_spaces hx, length_spaces]

/-- Text without a line break stays on its line. -/
theorem line_after {t : List Char} (h : ∀ x ∈ t, isBreak x = false) (c : Cursor) :
    (c.after t).line = c.line := by
  rw [after_eq_advance h]
  rfl

/-! ## Line breaks -/

/-- Behind a line break the column is zero. -/
theorem column_after_break (c : Cursor) (t : List Char) {x : Char} (hx : isBreak x = true) :
    (c.after (t ++ [x])).column = 0 := by
  rw [after_append, after_cons, after_nil, pass, if_pos hx]

/-- Text that ends in a line break leads to the start of a line. -/
theorem column_after_lines (c : Cursor) {t : List Char} (ht : t.getLast?.any isBreak = true) :
    (c.after t).column = 0 := by
  rcases List.eq_nil_or_concat t with rfl | ⟨s, x, rfl⟩
  · cases ht
  · rw [List.concat_eq_append] at ht ⊢
    rw [List.getLast?_append, List.getLast?_singleton, Option.some_or, Option.any_some] at ht
    exact column_after_break c s ht

/-- Behind lines, a column is the number of the spaces up to it. -/
theorem column_after_lines_spaces (c : Cursor) {t : List Char}
    (ht : t.getLast?.any isBreak = true) (k : Nat) : (c.after (t ++ spaces k)).column = k := by
  rw [after_append, column_after_spaces, column_after_lines c ht, Nat.zero_add]

/-- The line does not go back. -/
theorem line_le_after (c : Cursor) (t : List Char) : c.line ≤ (c.after t).line := by
  induction t generalizing c with
  | nil => exact Nat.le_refl _
  | cons x t ih =>
      refine Nat.le_trans ?_ (ih (c.pass x))
      unfold pass
      split
      · exact Nat.le_succ _
      · exact Nat.le_refl _

/-- A line break leads to another line. -/
theorem line_lt_after {t : List Char} {x : Char} (hmem : x ∈ t) (hx : isBreak x = true)
    (c : Cursor) : c.line < (c.after t).line := by
  induction t generalizing c with
  | nil => exact absurd hmem List.not_mem_nil
  | cons y t ih =>
      rcases List.mem_cons.mp hmem with rfl | hmem
      · refine Nat.lt_of_lt_of_le ?_ (line_le_after (c.pass x) t)
        rw [pass, if_pos hx]
        exact Nat.lt_succ_self _
      · exact Nat.lt_of_le_of_lt (line_le_after c [y]) (ih hmem (c.pass y))

/-- A line break that reads as itself is passed like any character. -/
theorem newline_eq {c : Cursor} {x : Char} {r : List Char} (h : c.rest = x :: r)
    (hx : isOwnBreak x = true) : c.newline = c.after [x] := by
  have hreturn := ne_return_of_isOwnBreak hx
  rw [after_cons, after_nil, pass, if_pos (isBreak_of_isOwnBreak hx), newline, h]
  split
  · rename_i heq
    cases heq
    exact absurd rfl hreturn
  · rename_i heq
    cases heq
    rfl
  · rename_i heq
    cases heq

/-- A line break that reads as itself does so. -/
theorem breakText_eq {c : Cursor} {x : Char} {r : List Char} (h : c.rest = x :: r)
    (hx : isOwnBreak x = true) : c.breakText = [x] := by
  rw [breakText, h]
  rcases Bool.or_eq_true_iff.mp hx with hx | hx
  · rw [beq_iff_eq.mp hx]
    rfl
  · simp only [hx, if_true]

/-! ## Marks of documents -/

/-- The mark of a document stands at the beginning of a line. -/
theorem atDocumentMarker_of_column {c : Cursor} (h : 0 < c.column) :
    c.atDocumentMarker = false := by
  have hcolumn : (c.column == 0) = false := beq_eq_false_iff_ne.mpr (by omega)
  rw [atDocumentMarker, atMarker, atMarker, hcolumn, Bool.false_and, Bool.false_and]
  rfl

/-- There is no mark at the end of a text. -/
theorem atDocumentMarker_nil {c : Cursor} (h : c.rest = []) : c.atDocumentMarker = false := by
  rw [atDocumentMarker, atMarker, atMarker, h, Bool.and_false]
  rfl

/-- The marks of documents begin with a hyphen or a point. -/
theorem atDocumentMarker_of_head {c : Cursor} {x : Char} {r : List Char} (h : c.rest = x :: r)
    (hdash : x ≠ '-') (hpoint : x ≠ '.') : c.atDocumentMarker = false := by
  have hmarker : ∀ mark, x ≠ mark → c.atMarker mark = false := by
    intro mark hmark
    rw [atMarker, h]
    split
    · rename_i heq
      cases heq
      rw [beq_eq_false_iff_ne.mpr hmark, Bool.false_and, Bool.false_and, Bool.false_and,
        Bool.and_false]
    · exact Bool.and_false _
  rw [atDocumentMarker, hmarker '-' hdash, hmarker '.' hpoint]
  rfl

/-- A character that stands alone is no such mark. -/
theorem atDocumentMarker_of_wordEnd {c : Cursor} {x : Char} {r : List Char} (h : c.rest = x :: r)
    (hr : atWordEnd r = true) : c.atDocumentMarker = false := by
  have hmarker : ∀ mark, isSpacing mark = false → c.atMarker mark = false := by
    intro mark hmark
    rw [atMarker, h]
    split
    · rename_i y z s heq
      cases heq
      have hy : isSpacing y = true := hr
      have hne : y ≠ mark := by
        rintro rfl
        rw [hmark] at hy
        cases hy
      rw [beq_eq_false_iff_ne.mpr hne, Bool.and_false, Bool.false_and, Bool.false_and,
        Bool.and_false]
    · exact Bool.and_false _
  rw [atDocumentMarker, hmarker '-' rfl, hmarker '.' rfl]
  rfl

theorem headIs_eq_false {c : Cursor} {x y : Char} {r : List Char} (h : c.rest = x :: r)
    (hne : x ≠ y) : c.headIs y = false := by
  rw [headIs, h, List.head?_cons]
  exact beq_eq_false_iff_ne.mpr fun heq => hne (Option.some.inj heq)

/-- A cursor sees the character that it stands in front of. -/
theorem headIs_eq_true {c : Cursor} {x : Char} {r : List Char} (h : c.rest = x :: r) :
    c.headIs x = true := by
  rw [headIs, h, List.head?_cons]
  exact beq_self_eq_true _

/-! ## Spans -/

/-- A span takes the characters of a class up to the first of another. -/
theorem span_eq {c : Cursor} {p : Char → Bool} {t r : List Char} (h : c.rest = t ++ r)
    (ht : ∀ x ∈ t, p x = true) (hr : r.head?.any p = false) :
    c.span p = (t, c.advance t.length) := by
  have htake : c.rest.takeWhile p = t := by
    rw [h, List.takeWhile_append_of_pos ht]
    cases r with
    | nil => rw [List.takeWhile_nil, List.append_nil]
    | cons x r =>
        have hx : p x = false := hr
        rw [List.takeWhile_cons, hx, if_neg Bool.false_ne_true, List.append_nil]
  unfold span
  rw [htake]

/-- A span within a line ends behind what it takes. -/
theorem span_eq_after {c : Cursor} {p : Char → Bool} {t r : List Char} (h : c.rest = t ++ r)
    (ht : ∀ x ∈ t, p x = true) (hline : ∀ x ∈ t, isBreak x = false)
    (hr : r.head?.any p = false) : c.span p = (t, c.after t) := by
  rw [span_eq h ht hr, after_eq_advance hline]

end Cursor

/-! ## Space between words -/

namespace Gap

/-- Nothing is read where no spacing is. -/
theorem read?_stop {c : Cursor} (hr : Stops c.rest) (indent n : Nat) (broken : Bool) (g : Gap) :
    read? indent n broken g c = some (g, c) := by
  cases n with
  | zero => rfl
  | succ n =>
      unfold read?
      split
      · rfl
      · rename_i x r hrest
        have hx : isSpacing x = false := by
          unfold Stops at hr
          rw [hrest] at hr
          exact hr
        rw [isBlank_eq_false hx, isBreak_eq_false hx]
        rfl

/-- Spaces between words on one line. -/
theorem read?_blanks {c : Cursor} {k : Nat} {r : List Char} (h : c.rest = spaces k ++ r)
    (hr : Stops r) (indent : Nat) {n : Nat} (hn : k ≤ n) (g : Gap) :
    read? indent n false g c =
      some ({ g with blanks := g.blanks ++ spaces k }, c.after (spaces k)) := by
  induction k generalizing c n g with
  | zero =>
      rw [read?_stop (by rw [h]; exact hr)]
      simp [spaces]
  | succ k ih =>
      cases n with
      | zero => omega
      | succ n =>
          rw [spaces_succ, List.cons_append] at h
          have hnext : (c.advance 1).rest = spaces k ++ r := by
            unfold Cursor.advance
            rw [h]
            rfl
          rw [read?, h]
          simp only [show isBlank ' ' = true from rfl, if_true, Bool.not_false]
          rw [ih hnext (by omega)]
          simp only [List.append_assoc, List.singleton_append, spaces_succ]
          rfl

/-- Of line breaks other than a line feed none is lost. -/
theorem folded_of_ne {b : Char} {bs : List Char} (hb : b ≠ '\n') :
    folded { breaks := b :: bs } = b :: bs := by
  unfold folded
  split
  · rename_i heq
    cases heq
  · rename_i heq
    cases heq
    exact absurd rfl hb
  · rename_i heq
    cases heq
    exact absurd rfl hb
  · rfl

/-- Spaces at the beginning of a line. -/
theorem read?_indent {c : Cursor} {k : Nat} {r : List Char} (h : c.rest = spaces k ++ r)
    (hr : Stops r) (indent : Nat) {n : Nat} (hn : k ≤ n) (g : Gap) :
    read? indent n true g c = some (g, c.after (spaces k)) := by
  induction k generalizing c n with
  | zero => rw [read?_stop (by rw [h]; exact hr)]; rfl
  | succ k ih =>
      cases n with
      | zero => omega
      | succ n =>
          rw [spaces_succ, List.cons_append] at h
          have hnext : (c.advance 1).rest = spaces k ++ r := by
            unfold Cursor.advance
            rw [h]
            rfl
          rw [read?, h]
          simp only [show isBlank ' ' = true from rfl, show (' ' == '\t') = false from rfl,
            if_true, Bool.not_true, Bool.false_eq_true, if_false, Bool.false_and]
          rw [ih hnext (by omega)]
          rfl

/-- Line breaks, and spaces at the beginning of the line that follows. -/
theorem read?_breaks {c : Cursor} {x : Char} {bs : List Char} {k : Nat} {r : List Char}
    (h : c.rest = x :: bs ++ (spaces k ++ r)) (hbs : ∀ y ∈ x :: bs, isOwnBreak y = true)
    (hr : Stops r) (indent : Nat) {n : Nat} (hn : bs.length + 1 + k ≤ n) (broken : Bool) (g : Gap) :
    read? indent n broken g c =
      some ({ g with breaks := g.breaks ++ x :: bs }, c.after (x :: bs ++ spaces k)) := by
  -- one break at a time; the spaces are read behind the last
  induction bs generalizing c x n broken g with
  | nil =>
      cases n with
      | zero => omega
      | succ n =>
          have hx := hbs x List.mem_cons_self
          have hnewline := Cursor.newline_eq h hx
          have hnext : c.newline.rest = spaces k ++ r := by
            rw [hnewline]
            exact Cursor.rest_after h
          rw [read?, h]
          simp only [List.cons_append, List.nil_append]
          rw [isBlank_eq_false_of_isBreak (isBreak_of_isOwnBreak hx), isBreak_of_isOwnBreak hx,
            if_neg Bool.false_ne_true, if_pos rfl, Cursor.breakText_eq h hx,
            read?_indent hnext hr indent (by simp at hn; omega), hnewline]
          rfl
  | cons y bs ih =>
      cases n with
      | zero => omega
      | succ n =>
          have hx := hbs x List.mem_cons_self
          have hnewline := Cursor.newline_eq h hx
          have hnext : c.newline.rest = y :: bs ++ (spaces k ++ r) := by
            rw [hnewline]
            exact Cursor.rest_after (t := [x]) h
          rw [List.length_cons] at hn
          rw [read?, h]
          simp only [List.cons_append]
          rw [isBlank_eq_false_of_isBreak (isBreak_of_isOwnBreak hx), isBreak_of_isOwnBreak hx,
            if_neg Bool.false_ne_true, if_pos rfl, Cursor.breakText_eq h hx,
            ih hnext (fun z hz => hbs z (List.mem_cons_of_mem x hz)) (by omega), hnewline]
          simp only [List.append_assoc, List.singleton_append]
          rfl

end Gap

end OperatorBundle.Yaml
