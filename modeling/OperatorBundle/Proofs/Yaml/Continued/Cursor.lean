import Mathlib.Data.List.TakeWhile
import Mathlib.Logic.Relation
import OperatorBundle.Proofs.Yaml.Cursor

/-!
# Texts that go on

A text of whole lines may go on with a line `---` and whatever follows.  What is passed of the text,
and what is asked of the characters next to be read, is the same in the longer text up to the end of
the first.
-/

namespace OperatorBundle.Yaml

/-- Does a text begin with a line `---`? -/
def IsDocumentLine (more : List Char) : Prop := ∃ r, more = '-' :: '-' :: '-' :: '\n' :: r

/-- There are five line breaks to look at. -/
theorem isBreak_eq_false_of {p : Char → Bool}
    (h : p '\n' = false ∧ p '\r' = false ∧ p '\x85' = false ∧ p '\u2028' = false ∧
      p '\u2029' = false)
    {x : Char} (hx : p x = true) : isBreak x = false := by
  refine Bool.eq_false_iff.mpr fun hbreak => ?_
  simp only [isBreak, isLineSeparator, Bool.or_eq_true, beq_iff_eq] at hbreak
  obtain ⟨h₁, h₂, h₃, h₄, h₅⟩ := h
  rcases hbreak with ((rfl | rfl) | rfl) | rfl | rfl <;> simp_all

/-- No line ends among hexadecimal digits. -/
theorem isBreak_eq_false_of_hexNumber? {digits : List Char} {n : Nat}
    (h : hexNumber? digits = some n) : ∀ x ∈ digits, isBreak x = false := by
  unfold hexNumber? at h
  generalize 0 = start at h
  induction digits generalizing start with
  | nil => exact nofun
  | cons x digits ih =>
      rw [List.foldlM_cons] at h
      obtain ⟨next, hnext, hrest⟩ := Option.bind_eq_some_iff.mp h
      have hx : (hexDigit? x).isSome = true := by
        cases hdigit : hexDigit? x with
        | none =>
            rw [hdigit] at hnext
            cases hnext
        | some d => rfl
      refine List.forall_mem_cons.mpr ⟨?_, ih _ hrest⟩
      exact isBreak_eq_false_of (p := fun x => (hexDigit? x).isSome) (by decide) hx

namespace Cursor

variable {c c' : Cursor} {more : List Char}

/-- The same place where more text follows. -/
def extend (c : Cursor) (more : List Char) : Cursor :=
  { c with rest := c.rest ++ more, total := c.total + more.length }

/-- A cursor in a longer text sees the text that follows. -/
@[simp] theorem rest_extend : (c.extend more).rest = c.rest ++ more := rfl

@[simp] theorem column_extend : (c.extend more).column = c.column := rfl

/-- One character or line break is passed. -/
inductive Passes : Cursor → Cursor → Prop where
  | char {c : Cursor} {x : Char} {r : List Char} (hrest : c.rest = x :: r)
      (hx : isBreak x = false) : Passes c (c.advance 1)
  | line {c : Cursor} {x : Char} {r : List Char} (hrest : c.rest = x :: r)
      (hx : isBreak x = true) : Passes c c.newline

/-- One character of a line is passed. -/
inductive PassesChar : Cursor → Cursor → Prop where
  | char {c : Cursor} {x : Char} {r : List Char} (hrest : c.rest = x :: r)
      (hx : isBreak x = false) : PassesChar c (c.advance 1)

/-- Some text of a line is passed, if any. -/
abbrev Along : Cursor → Cursor → Prop := Relation.ReflTransGen PassesChar

/-- Some text is passed, if any. -/
abbrev Reaches : Cursor → Cursor → Prop := Relation.ReflTransGen Passes

/-- Some text is passed. -/
abbrev Moves : Cursor → Cursor → Prop := Relation.TransGen Passes

/-- Are whole lines left of a text?  At its end a line begins. -/
structure EndsLine (c : Cursor) : Prop where
  sound : c.IsSound
  last : c.rest ≠ [] → c.rest.getLast? = some '\n'
  column : c.rest = [] → c.column = 0

/-! ## Passing text -/

/-- To pass a character is to pass something. -/
theorem PassesChar.passes (h : PassesChar c c') : Passes c c' := by
  cases h with
  | char hrest hx => exact .char hrest hx

/-- What lies along a line is reached. -/
theorem Along.reaches (h : Along c c') : Reaches c c' := by
  induction h with
  | refl => exact .refl
  | tail _ hpass ih => exact .tail ih hpass.passes

/-- A line break takes one character or two and ends the line. -/
theorem newline_cons {x : Char} {r : List Char} (hrest : c.rest = x :: r) :
    ∃ n s, x :: r = (x :: r).take n ++ s ∧ 0 < n ∧ n ≤ (x :: r).length ∧
      c.newline = ⟨s, c.index + n, c.line + 1, 0, c.total⟩ := by
  -- a carriage return takes a line feed behind it with it
  by_cases hpair : x = '\r' ∧ ∃ s, r = '\n' :: s
  · obtain ⟨rfl, s, rfl⟩ := hpair
    refine ⟨2, s, rfl, by decide, ?_, ?_⟩
    · rw [List.length_cons, List.length_cons]
      omega
    · unfold newline
      simp only [hrest]
  · refine ⟨1, r, rfl, by decide, ?_, ?_⟩
    · rw [List.length_cons]
      omega
    · unfold newline
      rw [hrest]
      split
      · rename_i heq
        cases heq
        exact absurd ⟨rfl, _, rfl⟩ hpair
      · rename_i heq
        cases heq
        rfl
      · rename_i heq
        cases heq

/-- A cursor is sound behind a line break. -/
theorem IsSound.newline (h : c.IsSound) : c.newline.IsSound := by
  cases hrest : c.rest with
  | nil =>
      have hsame : c.newline = c := by
        unfold Cursor.newline
        rw [hrest]
      rwa [hsame]
  | cons x r =>
      obtain ⟨n, s, hsplit, _, hn, hline⟩ := newline_cons hrest
      have hlength := congrArg List.length hsplit
      rw [List.length_append, List.length_take, Nat.min_eq_left hn] at hlength
      unfold IsSound at h ⊢
      rw [hrest] at h
      rw [hline]
      simp only
      omega

/-- A text that ends with a line break still does when something has been passed. -/
theorem EndsLine.passes (h : c.EndsLine) (hpass : Passes c c') : c'.EndsLine := by
  obtain ⟨hsound, hlast, _⟩ := h
  cases hpass with
  | @char x r hrest hx =>
      have hlast := hlast (by rw [hrest]; exact List.cons_ne_nil x r)
      have hnext : (c.advance 1).rest = r := by
        unfold advance
        rw [hrest]
        rfl
      -- the last character is a break, and this one is none
      have hne : r ≠ [] := by
        rintro rfl
        rw [hrest] at hlast
        cases hlast
        cases hx
      rw [hrest, List.getLast?_cons_of_ne_nil hne] at hlast
      refine ⟨?_, fun _ => by rw [hnext]; exact hlast, fun h => absurd (hnext ▸ h) hne⟩
      unfold IsSound at hsound ⊢
      rw [hrest, List.length_cons] at hsound
      rw [hnext]
      show c.index + 1 + r.length = c.total
      omega
  | @line x r hrest hx =>
      have hlast := hlast (by rw [hrest]; exact List.cons_ne_nil x r)
      obtain ⟨n, s, hsplit, _, _, hline⟩ := newline_cons hrest
      refine ⟨hsound.newline, ?_, ?_⟩
      · rw [hline]
        intro hne
        rw [hrest, hsplit, List.getLast?_append, List.getLast?_eq_some_getLast hne] at hlast
        rw [List.getLast?_eq_some_getLast hne]
        exact hlast
      · intro _
        rw [hline]

/-- A text that ends with a line break still does wherever a reader has come. -/
theorem EndsLine.reaches (h : c.EndsLine) (hreaches : Reaches c c') : c'.EndsLine := by
  induction hreaches with
  | refl => exact h
  | tail _ hpass ih => exact ih.passes hpass

/-- The last character of a line is its break, and so something is left behind all others. -/
theorem EndsLine.along (hc : c.EndsLine) (hne : c.rest ≠ []) (h : Along c c') :
    c'.EndsLine ∧ c'.rest ≠ [] := by
  induction h with
  | refl => exact ⟨hc, hne⟩
  | tail _ hpass ih =>
      obtain ⟨hline, hleft⟩ := ih
      refine ⟨hline.passes hpass.passes, ?_⟩
      cases hpass with
      | @char x r hrest hx =>
          have hlast := hline.last hleft
          unfold advance
          rw [hrest] at hlast ⊢
          rintro rfl
          cases hlast
          cases hx

/-- The first character of a line is passed, and something is left behind it. -/
theorem EndsLine.first {x : Char} {r : List Char} (hc : c.EndsLine) (hrest : c.rest = x :: r)
    (hx : isBreak x = false) :
    Along c (c.advance 1) ∧ (c.advance 1).EndsLine ∧ (c.advance 1).rest ≠ [] := by
  have halong : Along c (c.advance 1) := .single (.char hrest hx)
  exact ⟨halong, hc.along (by rw [hrest]; exact List.cons_ne_nil x r) halong⟩

/-- What has been passed is not left. -/
theorem Passes.length_lt (h : Passes c c') : c'.rest.length < c.rest.length := by
  cases h with
  | @char x r hrest _ =>
      unfold advance
      rw [hrest]
      exact Nat.lt_succ_self _
  | @line x r hrest _ =>
      obtain ⟨n, s, hsplit, hpos, hn, hline⟩ := newline_cons hrest
      have hlength := congrArg List.length hsplit
      rw [List.length_append, List.length_take, Nat.min_eq_left hn] at hlength
      rw [hline, hrest]
      simp only
      omega

/-- No text comes back. -/
theorem Reaches.length_le (h : Reaches c c') : c'.rest.length ≤ c.rest.length := by
  induction h with
  | refl => exact Nat.le_refl _
  | tail _ hpass ih => exact Nat.le_trans (Nat.le_of_lt hpass.length_lt) ih

theorem Moves.length_lt (h : Moves c c') : c'.rest.length < c.rest.length := by
  obtain ⟨next, hpass, hreaches⟩ := Relation.TransGen.head'_iff.mp h
  exact Nat.lt_of_le_of_lt (Reaches.length_le hreaches) hpass.length_lt

/-- Behind the first character of a line all that is passed lies further on. -/
theorem Moves.reaches_advance {x : Char} {r : List Char} (hrest : c.rest = x :: r)
    (hx : isBreak x = false) (h : Moves c c') : Reaches (c.advance 1) c' := by
  obtain ⟨next, hpass, hreaches⟩ := Relation.TransGen.head'_iff.mp h
  cases hpass with
  | char => exact hreaches
  | @line y s hrest' hy =>
      obtain ⟨rfl, rfl⟩ := List.cons.inj (hrest.symm.trans hrest')
      rw [hx] at hy
      cases hy

/-- At the end of a text nothing lies along the line. -/
theorem Along.eq_of_nil (hrest : c.rest = []) (h : Along c c') : c' = c := by
  obtain rfl | ⟨next, hpass, -⟩ := Relation.ReflTransGen.cases_head h
  · rfl
  · cases hpass with
    | char hrest' _ =>
        rw [hrest] at hrest'
        cases hrest'

/-- A place further on is on a later line, or further to the right. -/
theorem Passes.position_lt (h : Passes c c') :
    c.line < c'.line ∨ c.line = c'.line ∧ c.column < c'.column := by
  cases h with
  | char => exact Or.inr ⟨rfl, Nat.lt_succ_self _⟩
  | line hrest _ =>
      obtain ⟨_, _, _, _, _, hline⟩ := newline_cons hrest
      rw [hline]
      exact Or.inl (Nat.lt_succ_self _)

/-! ## The longer text -/

/-- Characters of a line are passed in both texts. -/
theorem advance_extend {n : Nat} (h : n ≤ c.rest.length) :
    (c.extend more).advance n = (c.advance n).extend more := by
  unfold advance extend
  simp only [List.drop_append_of_le_length h]

/-- One character is passed alike in a longer text. -/
theorem advance_one_extend {x : Char} {r : List Char} (hrest : c.rest = x :: r)
    (more : List Char) : (c.extend more).advance 1 = (c.advance 1).extend more :=
  advance_extend (by rw [hrest, List.length_cons]; omega)

/-- Behind a word stands what follows it. -/
theorem rest_advance {w r : List Char} (hrest : c.rest = w ++ r) :
    (c.advance w.length).rest = r := by
  unfold advance
  rw [hrest]
  exact List.drop_left

/-- A word without line breaks lies along the line. -/
theorem along_word {w r : List Char} (hrest : c.rest = w ++ r)
    (hw : ∀ x ∈ w, isBreak x = false) : Along c (c.advance w.length) := by
  induction w generalizing c with
  | nil => exact .refl
  | cons x w ih =>
      have hpass : PassesChar c (c.advance 1) := .char hrest (hw x List.mem_cons_self)
      have hnext : (c.advance 1).rest = w ++ r := rest_advance (w := [x]) hrest
      rw [List.length_cons, Nat.add_comm, ← advance_advance]
      exact .head hpass (ih hnext fun y hy => hw y (List.mem_cons_of_mem x hy))

/-- A word that is not empty moves the cursor. -/
theorem moves_word {w r : List Char} (hrest : c.rest = w ++ r) (hne : w ≠ [])
    (hw : ∀ x ∈ w, isBreak x = false) : Moves c (c.advance w.length) := by
  obtain ⟨x, w, rfl⟩ := List.exists_cons_of_ne_nil hne
  have hpass : PassesChar c (c.advance 1) := .char hrest (hw x List.mem_cons_self)
  have hnext : (c.advance 1).rest = w ++ r := rest_advance (w := [x]) hrest
  have halong := along_word hnext fun y hy => hw y (List.mem_cons_of_mem x hy)
  rw [advance_advance, Nat.add_comm] at halong
  exact .head' hpass.passes halong.reaches

/-- There are steps enough for the text that is left. -/
theorem EndsLine.length_le_steps (hc : c.EndsLine) : c.rest.length ≤ c.steps := by
  rw [hc.sound.steps_eq]
  exact Nat.le_succ _

/-- There are steps enough in a longer text as well. -/
theorem EndsLine.length_le_steps_extend (hc : c.EndsLine) (more : List Char) :
    c.rest.length ≤ (c.extend more).steps := by
  have hsound := hc.sound
  unfold IsSound at hsound
  unfold steps extend
  simp only
  omega

theorem steps_le_extend (c : Cursor) (more : List Char) : c.steps ≤ (c.extend more).steps := by
  unfold steps extend
  simp only
  omega

/-- A line break is passed alike in a longer text. -/
theorem newline_extend (hc : c.EndsLine) (hne : c.rest ≠ []) :
    (c.extend more).newline = c.newline.extend more := by
  have hlast := hc.last hne
  unfold newline extend
  -- a line feed at the end takes nothing with it, so what follows the text does not matter
  match hrest : c.rest with
  | [] => exact absurd hrest hne
  | [x] =>
      rw [hrest] at hlast
      cases hlast
      rfl
  | x :: y :: r =>
      simp only [List.cons_append]
      split
      · rename_i heq
        cases heq
        rfl
      · rename_i hno heq
        cases heq
        split
        · rename_i heq'
          cases heq'
          exact absurd rfl (hno _ rfl)
        · rename_i heq'
          cases heq'
          rfl
        · rename_i heq'
          cases heq'
      · rename_i heq
        cases heq

/-- A line break reads alike in a longer text. -/
theorem breakText_extend (hne : c.rest ≠ []) : (c.extend more).breakText = c.breakText := by
  unfold breakText extend
  cases hrest : c.rest with
  | nil => exact absurd hrest hne
  | cons x r => rfl

/-- A word ends alike in a longer text. -/
theorem atWordEnd_extend {text : List Char} (hne : text ≠ []) :
    atWordEnd (text ++ more) = atWordEnd text := by
  cases text with
  | nil => exact absurd rfl hne
  | cons x r => rfl

/-- What is asked of the next character is answered alike, unless it is asked for a dash. -/
theorem head?_any_extend (hmore : IsDocumentLine more) {p : Char → Bool}
    (hp : c.rest = [] → p '-' = false) :
    (c.extend more).rest.head?.any p = c.rest.head?.any p := by
  obtain ⟨r, rfl⟩ := hmore
  cases hrest : c.rest with
  | nil =>
      rw [rest_extend, hrest]
      exact hp hrest
  | cons x s =>
      rw [rest_extend, hrest]
      rfl

/-- The next character is the same in a longer text, unless a document begins there. -/
theorem headIs_extend (hmore : IsDocumentLine more) {x : Char} (hx : c.rest = [] → x ≠ '-') :
    (c.extend more).headIs x = c.headIs x := by
  have hany : ∀ text : List Char, (text.head? == some x) = text.head?.any (· == x) := by
    intro text
    cases text with
    | nil => rfl
    | cons y r => rfl
  unfold headIs
  rw [hany, hany]
  exact head?_any_extend hmore fun h => beq_eq_false_iff_ne.mpr (hx h).symm

theorem exists_of_headIs {x : Char} (h : c.headIs x = true) : ∃ r, c.rest = x :: r := by
  unfold headIs at h
  exact List.head?_eq_some_iff.mp (beq_iff_eq.mp h)

/-- A character that has been looked at is passed in both texts. -/
theorem headIs_passes {x : Char} (h : c.headIs x = true) (hx : isBreak x = false) :
    Along c (c.advance 1) ∧
      ∀ more, (c.extend more).advance 1 = (c.advance 1).extend more := by
  obtain ⟨r, hrest⟩ := exists_of_headIs h
  exact ⟨.single (.char hrest hx), advance_one_extend hrest⟩

/-- What is taken of a line does not depend on the text behind it. -/
theorem takeWhile_append_line {p : Char → Bool} {text : List Char}
    (hlast : text.getLast? = some '\n') (hbreak : p '\n' = false) (more : List Char) :
    (text ++ more).takeWhile p = text.takeWhile p := by
  induction text with
  | nil => cases hlast
  | cons x text ih =>
      rw [List.cons_append, List.takeWhile_cons, List.takeWhile_cons]
      cases hx : p x with
      | false => rfl
      | true =>
          have hne : text ≠ [] := by
            rintro rfl
            rw [List.getLast?_singleton] at hlast
            rw [Option.some.inj hlast, hbreak] at hx
            cases hx
          rw [List.getLast?_cons_of_ne_nil hne] at hlast
          rw [ih hlast]

/-- The break at the end of a line also ends a span. -/
theorem span_extend (hmore : IsDocumentLine more) {p : Char → Bool} (hc : c.EndsLine)
    (hbreak : p '\n' = false) (hdash : c.rest = [] → p '-' = false) :
    (c.extend more).span p = ((c.span p).1, (c.span p).2.extend more) := by
  have htake : (c.rest ++ more).takeWhile p = c.rest.takeWhile p := by
    by_cases hne : c.rest = []
    · obtain ⟨r, rfl⟩ := hmore
      rw [hne, List.nil_append, List.takeWhile_cons, hdash hne]
      rfl
    · exact takeWhile_append_line (hc.last hne) hbreak more
  unfold span
  simp only [rest_extend, htake]
  rw [advance_extend (List.takeWhile_prefix p).length_le]

/-- A span leaves the text from the first character of another class on. -/
theorem rest_span (c : Cursor) (p : Char → Bool) : (c.span p).2.rest = c.rest.dropWhile p :=
  rest_advance List.takeWhile_append_dropWhile.symm

/-- Characters that do not end a line lie along it. -/
theorem along_span {p : Char → Bool} (hp : ∀ x, p x = true → isBreak x = false) :
    Along c (c.span p).2 :=
  along_word List.takeWhile_append_dropWhile.symm fun x hx => hp x (List.mem_takeWhile_imp hx)

theorem along_skipLine (c : Cursor) : Along c c.skipLine :=
  along_span fun x hx => by simpa using hx

/-- The next line is read on from the break of this one. -/
theorem passes_skipLine (h : c.skipLine.rest ≠ []) : Passes c.skipLine c.skipLine.newline := by
  obtain ⟨x, r, hrest⟩ := List.exists_cons_of_ne_nil h
  refine .line hrest ?_
  have hdrop : c.rest.dropWhile (!isBreak ·) = x :: r := (rest_span c _).symm.trans hrest
  have hne : c.rest.dropWhile (!isBreak ·) ≠ [] := by
    rw [hdrop]
    exact List.cons_ne_nil x r
  have hhead := List.head_dropWhile_not (!isBreak ·) hne
  simpa [hdrop] using hhead

/-- A comment lies along its line. -/
theorem along_skipComment (c : Cursor) : Along c c.skipComment := by
  unfold skipComment
  split
  · exact along_skipLine c
  · exact .refl

/-- What may stand behind the last word of a line. -/
theorem along_lineRest (c : Cursor) : Along c c.skipBlanks.skipComment := by
  refine Relation.ReflTransGen.trans (along_span fun x hx => ?_) (along_skipComment _)
  exact isBreak_eq_false_of (p := isBlank) (by decide) hx

/-- Blanks are skipped alike in a longer text. -/
theorem skipBlanks_extend (hmore : IsDocumentLine more) (hc : c.EndsLine) :
    (c.extend more).skipBlanks = c.skipBlanks.extend more := by
  unfold skipBlanks
  rw [span_extend hmore hc rfl fun _ => rfl]

/-- A comment is skipped alike in a longer text. -/
theorem skipComment_extend (hmore : IsDocumentLine more) (hc : c.EndsLine) :
    (c.extend more).skipComment = c.skipComment.extend more := by
  unfold skipComment
  rw [headIs_extend hmore fun _ => by decide]
  split
  · rename_i hhash
    obtain ⟨r, hrest⟩ := exists_of_headIs hhash
    unfold skipLine
    rw [span_extend hmore hc rfl fun h => absurd (hrest.symm.trans h) (List.cons_ne_nil _ r)]
  · rfl

/-- The rest of a line is skipped alike in a longer text. -/
theorem lineRest_extend (hmore : IsDocumentLine more) (hc : c.EndsLine) :
    (c.extend more).skipBlanks.skipComment = c.skipBlanks.skipComment.extend more := by
  have hblanks : Along c c.skipBlanks :=
    along_span fun x hx => isBreak_eq_false_of (p := isBlank) (by decide) hx
  rw [skipBlanks_extend hmore hc, skipComment_extend hmore (hc.reaches hblanks.reaches)]

/-- A line ends alike in a longer text. -/
theorem atLineEnd_extend (hne : c.rest ≠ []) : (c.extend more).atLineEnd = c.atLineEnd := by
  unfold atLineEnd
  obtain ⟨x, r, hrest⟩ := List.exists_cons_of_ne_nil hne
  rw [rest_extend, hrest]
  rfl

/-- To go to the next line is to pass something. -/
theorem passes_break (h : c.rest.head?.any isBreak = true) : Passes c c.newline := by
  cases hrest : c.rest with
  | nil =>
      rw [hrest] at h
      cases h
  | cons x r =>
      rw [hrest] at h
      exact .line hrest h

theorem passes_newline (hne : c.rest ≠ []) (h : c.atLineEnd = true) : Passes c c.newline := by
  obtain ⟨x, r, hrest⟩ := List.exists_cons_of_ne_nil hne
  unfold atLineEnd at h
  rw [hrest] at h
  exact .line hrest h

/-! ## Marks of documents -/

/-- The longer text goes on with a mark. -/
theorem atMarker_extend_end (hmore : IsDocumentLine more) (hc : c.EndsLine) (hrest : c.rest = []) :
    (c.extend more).atMarker '-' = true := by
  obtain ⟨r, rfl⟩ := hmore
  have hcolumn : (c.extend ('-' :: '-' :: '-' :: '\n' :: r)).column = 0 := hc.column hrest
  unfold atMarker
  rw [hcolumn, rest_extend, hrest]
  rfl

/-- A mark stands at the beginning of a line, three times, and a word ends behind it. -/
theorem atMarker_iff {mark : Char} :
    c.atMarker mark = true ↔
      c.column = 0 ∧ ∃ r, c.rest = mark :: mark :: mark :: r ∧ atWordEnd r = true := by
  unfold atMarker
  rw [Bool.and_eq_true, beq_iff_eq]
  refine and_congr_right fun _ => ?_
  constructor
  · intro h
    split at h
    · rename_i x y z r hrest
      simp only [Bool.and_eq_true, beq_iff_eq] at h
      obtain ⟨⟨⟨rfl, rfl⟩, rfl⟩, hend⟩ := h
      exact ⟨r, hrest, hend⟩
    · cases h
  · rintro ⟨r, hrest, hend⟩
    simp only [hrest, beq_self_eq_true, Bool.true_and, hend]

/-- A mark ends with its line, so that it can be seen what it is. -/
theorem atMarker_extend (hc : c.EndsLine) (hne : c.rest ≠ []) {mark : Char} (hmark : mark ≠ '\n') :
    (c.extend more).atMarker mark = c.atMarker mark := by
  have hlast := hc.last hne
  refine Bool.eq_iff_iff.mpr ?_
  rw [atMarker_iff, atMarker_iff, column_extend, rest_extend]
  refine and_congr_right fun _ => ?_
  constructor
  · rintro ⟨r, heq, hend⟩
    -- a shorter text would end within the mark, and that is in a break
    match hrest : c.rest with
    | [] => exact absurd hrest hne
    | [x] =>
        rw [hrest] at heq hlast
        cases heq
        cases hlast
        exact absurd rfl hmark
    | [x, y] =>
        rw [hrest] at heq hlast
        cases heq
        cases hlast
        exact absurd rfl hmark
    | [x, y, z] =>
        rw [hrest] at heq hlast
        cases heq
        cases hlast
        exact absurd rfl hmark
    | x :: y :: z :: w :: s =>
        rw [hrest] at heq
        cases heq
        exact ⟨w :: s, rfl, hend⟩
  · rintro ⟨r, hrest, hend⟩
    refine ⟨r ++ more, by rw [hrest]; rfl, ?_⟩
    have hr : r ≠ [] := by
      rintro rfl
      rw [hrest] at hlast
      cases hlast
      exact absurd rfl hmark
    rw [atWordEnd_extend hr, hend]

/-- The mark of a document is seen alike in a longer text. -/
theorem atDocumentMarker_extend (hc : c.EndsLine) (hne : c.rest ≠ []) :
    (c.extend more).atDocumentMarker = c.atDocumentMarker := by
  unfold atDocumentMarker
  rw [atMarker_extend hc hne (by decide), atMarker_extend hc hne (by decide)]

end Cursor

end OperatorBundle.Yaml
