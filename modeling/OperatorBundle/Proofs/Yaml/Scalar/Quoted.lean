import OperatorBundle.Proofs.Yaml.Cursor
import OperatorBundle.Proofs.Yaml.Scalar.Escape

/-!
# Quoted scalars are read as they were written

Between quotes a text is words, and the spaces or line breaks between them.  The two kinds of quotes
differ in how a character of a word is written and in which characters break lines; `Quoting` says
what the reader relies on, and `quotedWords_eq` is about both.
-/

namespace OperatorBundle.Yaml

open Layout (spaces)

/-! ## What stands between quotes -/

namespace Layout

/-- The characters of a text, with indentation behind the line breaks. -/
def quotedLines (breaks : Char → Bool) (indent : Nat) (encode : Char → List Char) :
    Bool → List Char → List Char
  | broken, [] => if broken then spaces indent else []
  | broken, c :: r =>
      if breaks c then c :: quotedLines breaks indent encode true r
      else (if broken then spaces indent else []) ++ encode c ++
        quotedLines breaks indent encode false r

/-- A word is written character by character. -/
theorem quotedLines_word {breaks : Char → Bool} {w : List Char} (hw : ∀ x ∈ w, breaks x = false)
    (indent : Nat) (encode : Char → List Char) (t : List Char) :
    quotedLines breaks indent encode false (w ++ t) =
      w.flatMap encode ++ quotedLines breaks indent encode false t := by
  induction w with
  | nil => rfl
  | cons x w ih =>
      rw [List.cons_append, quotedLines, hw x List.mem_cons_self,
        ih fun y hy => hw y (List.mem_cons_of_mem x hy), List.flatMap_cons]
      simp only [Bool.false_eq_true, if_false, List.nil_append, List.append_assoc]

/-- Behind line breaks stands the indentation. -/
theorem quotedLines_broken {breaks : Char → Bool} {t : List Char} (ht : t.head?.any breaks = false)
    (indent : Nat) (encode : Char → List Char) :
    quotedLines breaks indent encode true t =
      spaces indent ++ quotedLines breaks indent encode false t := by
  cases t with
  | nil => simp [quotedLines]
  | cons x t =>
      have hx : breaks x = false := ht
      simp [quotedLines, hx]

/-- Line breaks are written as they are, with the indentation behind them. -/
theorem quotedLines_breaks {breaks : Char → Bool} {x : Char} {bs : List Char}
    (hbs : ∀ y ∈ x :: bs, breaks y = true) {t : List Char} (ht : t.head?.any breaks = false)
    (indent : Nat) (encode : Char → List Char) (broken : Bool) :
    quotedLines breaks indent encode broken (x :: bs ++ t) =
      x :: bs ++ (spaces indent ++ quotedLines breaks indent encode false t) := by
  induction bs generalizing x broken with
  | nil =>
      rw [List.singleton_append, quotedLines, hbs x List.mem_cons_self, if_pos rfl,
        quotedLines_broken ht]
      rfl
  | cons y bs ih =>
      rw [List.cons_append, quotedLines, hbs x List.mem_cons_self, if_pos rfl,
        ih fun z hz => hbs z (List.mem_cons_of_mem x hz)]
      rfl

/-- Where no two such characters are neighbours, none stand side by side. -/
theorem hasNeighbours_split {p q : Char → Bool} {before behind : List Char} {a b : Char}
    (h : hasNeighbours p q (before ++ a :: b :: behind) = false) : (p a && q b) = false := by
  induction before with
  | nil =>
      rw [List.nil_append, hasNeighbours, Bool.or_eq_false_iff] at h
      exact h.1
  | cons x before ih =>
      refine ih ?_
      cases before with
      | nil =>
          rw [List.singleton_append, hasNeighbours, Bool.or_eq_false_iff] at h
          exact h.2
      | cons y before =>
          rw [List.cons_append, List.cons_append, hasNeighbours, Bool.or_eq_false_iff] at h
          exact h.2

/-- What holds of all neighbours in a text holds of those in its end. -/
theorem hasNeighbours_suffix {p q : Char → Bool} {before behind : List Char}
    (h : hasNeighbours p q (before ++ behind) = false) : hasNeighbours p q behind = false := by
  induction before with
  | nil => exact h
  | cons x before ih =>
      refine ih ?_
      cases hrest : before ++ behind with
      | nil => rfl
      | cons y rest =>
          rw [List.cons_append, hrest, hasNeighbours, Bool.or_eq_false_iff] at h
          exact h.2

theorem hasNeighbours_eq_false {p q : Char → Bool} {text : List Char}
    (h : ∀ a ∈ text, ∀ b ∈ text, (p a && q b) = false) : hasNeighbours p q text = false := by
  induction text with
  | nil => rfl
  | cons x text ih =>
      cases text with
      | nil => rfl
      | cons y text =>
          rw [hasNeighbours, h x (by simp) y (by simp),
            ih fun a ha b hb => h a (List.mem_cons_of_mem x ha) b (List.mem_cons_of_mem x hb),
            Bool.or_false]

end Layout

/-! ## Words -/

namespace Scalar

/-- Is this character of a word read from this code? -/
structure IsUnit (double : Bool) (c : Char) (code : List Char) : Prop where
  first : ∃ x r, code = x :: r ∧ isSpacing x = false
  inline : ∀ x ∈ code, isBreak x = false
  read : ∀ n word (cursor : Cursor) r, cursor.rest = code ++ r →
    quotedWord double (n + 1) word cursor = quotedWord double n (word ++ [c]) (cursor.after code)

/-- The quote that closes a scalar. -/
def closing (double : Bool) : Char := if double then '"' else '\''

/-- Does a word inside quotes end here? -/
def EndsQuoted (double : Bool) (r : List Char) : Prop :=
  ∃ x s, r = x :: s ∧
    (isSpacing x = true ∨ x = closing double ∧ (double = false → s.head? ≠ some '\''))

/-- Where a word ends, nothing more of it is read. -/
theorem quotedWord_stop {double : Bool} {c : Cursor} (h : EndsQuoted double c.rest) (n : Nat)
    (word : List Char) : quotedWord double n word c = .ok (word, false, c) := by
  cases n with
  | zero => rfl
  | succ n =>
      rcases h with ⟨x, s, hrest, hspacing | ⟨rfl, hs⟩⟩
      · rw [quotedWord, hrest]
        simp only [hspacing, if_true]
      · rw [quotedWord, hrest]
        cases double with
        | true => rfl
        | false =>
            simp only [closing, show isSpacing '\'' = false from rfl, Bool.not_false,
              Bool.false_eq_true, if_false, if_true]
            split
            · rename_i heq
              cases heq
              exact absurd rfl (hs rfl)
            · rfl
            · rename_i hne _
              exact (hne rfl).elim

/-- The characters of a word are read as they are written, up to its end. -/
theorem quotedWord_eq {double : Bool} {encode : Char → List Char} {w r : List Char}
    (hw : ∀ x ∈ w, IsUnit double x (encode x)) (hr : EndsQuoted double r) {c : Cursor}
    (hrest : c.rest = w.flatMap encode ++ r) {n : Nat} (hn : w.length ≤ n) (word : List Char) :
    quotedWord double n word c = .ok (word ++ w, false, c.after (w.flatMap encode)) := by
  induction w generalizing c n word with
  | nil =>
      rw [quotedWord_stop (by rw [hrest]; exact hr), List.append_nil]
      rfl
  | cons x w ih =>
      cases n with
      | zero => exact absurd hn (Nat.not_succ_le_zero _)
      | succ n =>
          rw [List.flatMap_cons, List.append_assoc] at hrest
          rw [(hw x List.mem_cons_self).read n word c _ hrest,
            ih (fun y hy => hw y (List.mem_cons_of_mem x hy)) (Cursor.rest_after hrest)
              (Nat.le_of_succ_le_succ hn), List.flatMap_cons, Cursor.after_append]
          simp only [List.append_assoc, List.singleton_append]

/-! ## Words and what lies between them -/

/-- What the reader relies on in a text between quotes: its words are read character by character,
line breaks are kept as they are, and no space stands beside one. -/
structure Quoting (double : Bool) (breaks : Char → Bool) (encode : Char → List Char)
    (text : List Char) : Prop where
  unit : ∀ x ∈ text, breaks x = false → x ≠ ' ' → IsUnit double x (encode x)
  own : ∀ x ∈ text, breaks x = true → isLineSeparator x = true
  before : Layout.hasNeighbours (· == ' ') breaks text = false
  behind : Layout.hasNeighbours breaks (· == ' ') text = false

/-- What can be quoted can be quoted from any place on. -/
theorem Quoting.suffix {double : Bool} {breaks : Char → Bool} {encode : Char → List Char}
    {s t : List Char} (h : Quoting double breaks encode (s ++ t)) :
    Quoting double breaks encode t where
  unit x hx := h.unit x (List.mem_append_right s hx)
  own x hx := h.own x (List.mem_append_right s hx)
  before := Layout.hasNeighbours_suffix h.before
  behind := Layout.hasNeighbours_suffix h.behind

section

variable {double : Bool} {breaks : Char → Bool} {encode : Char → List Char} {indent : Nat}

/-- No quote is spacing. -/
theorem closing_not_spacing (double : Bool) : isSpacing (closing double) = false := by
  cases double <;> rfl

/-- A text is a word, and nothing, spaces before another word, or line breaks before another. -/
theorem Quoting.cut {text : List Char} (h : Quoting double breaks encode text) :
    ∃ w s, text = w ++ s ∧ (∀ x ∈ w, breaks x = false ∧ x ≠ ' ') ∧
      (s = [] ∨
        (∃ k t, s = spaces (k + 1) ++ t ∧ t.head? ≠ some ' ' ∧ t.head?.any breaks = false) ∨
        ∃ b bs t, s = b :: bs ++ t ∧ (∀ x ∈ b :: bs, breaks x = true) ∧
          t.head? ≠ some ' ' ∧ t.head?.any breaks = false) := by
  rcases exists_word (fun x => !breaks x && x != ' ') text with ⟨w, s, rfl, hw, hs⟩
  refine ⟨w, s, rfl, fun x hx => by simpa using hw x hx, ?_⟩
  cases s with
  | nil => exact .inl rfl
  | cons a s =>
      right
      cases ha : breaks a with
      | true =>
          right
          rcases exists_word breaks s with ⟨bs, t, rfl, hbs, ht⟩
          have hall : ∀ x ∈ a :: bs, breaks x = true := by
            intro x hx
            rcases List.mem_cons.mp hx with rfl | hx
            · exact ha
            · exact hbs x hx
          -- a space behind the last of the breaks would be a neighbour that is excluded
          refine ⟨a, bs, t, rfl, hall, fun hhead => ?_, ht⟩
          rcases List.eq_nil_or_concat (a :: bs) with hnil | ⟨front, last, hlast⟩
          · cases hnil
          rw [List.concat_eq_append] at hlast
          cases t with
          | nil => cases hhead
          | cons y t =>
              have hbehind := h.behind
              rw [← List.cons_append, hlast, List.append_assoc, ← List.append_assoc w,
                List.singleton_append] at hbehind
              have hpair := Layout.hasNeighbours_split hbehind
              rw [hall last (by rw [hlast]; simp), Option.some.inj hhead] at hpair
              cases hpair
      | false =>
          left
          have hblank : a = ' ' := by
            have hstop : (!breaks a && a != ' ') = false := hs
            simpa [ha] using hstop
          rcases exists_spaces s with ⟨k, t, rfl, ht⟩
          -- nor does a line break follow the last of the spaces
          refine ⟨k, t, by rw [hblank, spaces_succ]; rfl, ht, ?_⟩
          cases t with
          | nil => rfl
          | cons y t =>
              have hbefore := h.before
              have hall : w ++ a :: (spaces k ++ y :: t) = w ++ spaces k ++ ' ' :: y :: t := by
                rw [hblank, ← List.cons_append, ← spaces_succ, spaces, List.replicate_succ']
                simp [spaces]
              rw [hall] at hbefore
              exact Layout.hasNeighbours_split hbefore

/-- No character is written with nothing. -/
theorem length_le_flatMap {w : List Char} (hw : ∀ x ∈ w, IsUnit double x (encode x)) :
    w.length ≤ (w.flatMap encode).length := by
  induction w with
  | nil => exact Nat.le_refl _
  | cons x w ih =>
      rcases (hw x List.mem_cons_self).first with ⟨y, code, hcode, _⟩
      have htail := ih fun z hz => hw z (List.mem_cons_of_mem x hz)
      rw [List.flatMap_cons, List.length_append, List.length_cons, hcode, List.length_cons]
      omega

/-- A word fits into the steps that are left. -/
theorem length_le_steps {w r : List Char} (hw : ∀ x ∈ w, IsUnit double x (encode x)) {c : Cursor}
    (hc : c.IsSound) (hrest : c.rest = w.flatMap encode ++ r) : w.length ≤ c.steps := by
  have hlength := length_le_flatMap hw
  rw [hc.steps_eq, hrest, List.length_append]
  omega

/-- Spaces are written as they are. -/
theorem flatMap_spaces {encode : Char → List Char} (hcode : encode ' ' = [' ']) (n : Nat) :
    (spaces n).flatMap encode = spaces n := by
  induction n with
  | zero => rfl
  | succ n ih => rw [spaces_succ, List.flatMap_cons, hcode, ih]; rfl

/-- One word, and the quote that closes the scalar behind it. -/
theorem quotedWords_last {w r : List Char} (hw : ∀ x ∈ w, IsUnit double x (encode x))
    (hr : double = false → r.head? ≠ some '\'') {c : Cursor} (hc : c.IsSound)
    (hcolumn : 0 < c.column) (hrest : c.rest = w.flatMap encode ++ closing double :: r) (n : Nat)
    (read : List Char) :
    quotedWords double (n + 1) read c =
      .ok (read ++ w, c.after (w.flatMap encode ++ [closing double])) := by
  have hends : EndsQuoted double (closing double :: r) := ⟨_, r, rfl, .inr ⟨rfl, hr⟩⟩
  have hword := quotedWord_eq hw hends hrest (length_le_steps hw hc hrest) []
  have hempty : c.rest.isEmpty = false := by
    rw [hrest]
    simp
  have hclose : (c.after (w.flatMap encode)).headIs (if double = true then '"' else '\'') = true :=
    Cursor.headIs_eq_true (Cursor.rest_after hrest)
  have hnext : (c.after (w.flatMap encode)).after [closing double] =
      (c.after (w.flatMap encode)).advance 1 :=
    Cursor.after_eq_advance (fun x hx => by
      rw [List.mem_singleton.mp hx]
      exact isBreak_eq_false (closing_not_spacing double)) _
  rw [quotedWords, Cursor.atDocumentMarker_of_column hcolumn, hempty, hword, Cursor.after_append,
    hnext]
  simp only [Bool.or_false, Bool.false_eq_true, if_false, ok_bind, hclose, if_true,
    List.nil_append]
  rfl

/-- One word, and a gap before the next. -/
theorem quotedWords_next {w r : List Char} (hw : ∀ x ∈ w, IsUnit double x (encode x))
    (hr : r.head?.any isSpacing = true) {c : Cursor} (hc : c.IsSound)
    (hcolumn : 0 < c.column) (hrest : c.rest = w.flatMap encode ++ r) {gap : Gap} {c' : Cursor}
    (hgap : Gap.read? 0 (c.after (w.flatMap encode)).steps false {} (c.after (w.flatMap encode)) =
      some (gap, c')) (n : Nat) (read : List Char) :
    quotedWords double (n + 1) read c = quotedWords double n (read ++ w ++ gap.folded) c' := by
  cases r with
  | nil => cases hr
  | cons x r =>
      have hx : isSpacing x = true := hr
      have hword := quotedWord_eq hw ⟨x, r, rfl, .inl hx⟩ hrest (length_le_steps hw hc hrest) []
      have hempty : c.rest.isEmpty = false := by
        rw [hrest]
        simp
      have hclose : (c.after (w.flatMap encode)).headIs (if double = true then '"' else '\'') =
          false := by
        refine Cursor.headIs_eq_false (Cursor.rest_after hrest) ?_
        rintro rfl
        have hquote := closing_not_spacing double
        rw [closing, hx] at hquote
        cases hquote
      rw [quotedWords, Cursor.atDocumentMarker_of_column hcolumn, hempty, hword]
      simp only [Bool.or_false, Bool.false_eq_true, if_false, ok_bind, hclose, hgap,
        List.nil_append]

/-- One word, and spaces before the next. -/
theorem quotedWords_spaces {w r : List Char} (hw : ∀ x ∈ w, IsUnit double x (encode x))
    (hr : Stops r) {c : Cursor} (hc : c.IsSound) (hcolumn : 0 < c.column) {k : Nat}
    (hrest : c.rest = w.flatMap encode ++ (spaces (k + 1) ++ r)) (n : Nat) (read : List Char) :
    quotedWords double (n + 1) read c =
      quotedWords double n (read ++ w ++ spaces (k + 1))
        (c.after (w.flatMap encode ++ spaces (k + 1))) := by
  have hafter := Cursor.rest_after hrest
  have hgap := Gap.read?_blanks hafter hr 0 (n := (c.after (w.flatMap encode)).steps)
    (by rw [(hc.after hrest).steps_eq, hafter, List.length_append, length_spaces]; omega) {}
  rw [quotedWords_next hw (by rw [spaces_succ]; rfl) hc hcolumn hrest hgap, Cursor.after_append]
  rfl

/-- One word, and line breaks before the next. -/
theorem quotedWords_breaks {w bs r : List Char} {b : Char}
    (hw : ∀ x ∈ w, IsUnit double x (encode x)) (hbs : ∀ x ∈ b :: bs, isOwnBreak x = true)
    (hb : b ≠ '\n') (hr : Stops r) {c : Cursor} (hc : c.IsSound) (hcolumn : 0 < c.column)
    (hrest : c.rest = w.flatMap encode ++ (b :: bs ++ (spaces indent ++ r))) (n : Nat)
    (read : List Char) :
    quotedWords double (n + 1) read c =
      quotedWords double n (read ++ w ++ b :: bs)
        (c.after (w.flatMap encode ++ (b :: bs ++ spaces indent))) := by
  have hafter := Cursor.rest_after hrest
  have hgap := Gap.read?_breaks hafter hbs hr 0 (n := (c.after (w.flatMap encode)).steps)
    (by rw [(hc.after hrest).steps_eq, hafter]; simp [length_spaces]; omega) false {}
  have hspaced : (b :: bs ++ (spaces indent ++ r)).head?.any isSpacing = true := by
    have hbreak := isBreak_of_isOwnBreak (hbs b List.mem_cons_self)
    simp [isSpacing, hbreak]
  rw [quotedWords_next hw hspaced hc hcolumn hrest hgap]
  simp only [List.nil_append]
  rw [Gap.folded_of_ne hb]
  simp only [Cursor.after_append]

/-- Is a gap in front of the rest `t` of a text written so, and read as it is behind every word? -/
structure IsGap (double : Bool) (breaks : Char → Bool) (encode : Char → List Char) (indent : Nat)
    (gap written t : List Char) : Prop where
  ne_nil : gap ≠ []
  lines : Layout.quotedLines breaks indent encode false (gap ++ t) =
    written ++ Layout.quotedLines breaks indent encode false t
  column_pos : ∀ c : Cursor, 0 < (c.after written).column
  read : ∀ {w r : List Char} {c : Cursor}, (∀ x ∈ w, IsUnit double x (encode x)) → Stops r →
    c.IsSound → 0 < c.column → c.rest = w.flatMap encode ++ (written ++ r) → ∀ n read,
      quotedWords double (n + 1) read c =
        quotedWords double n (read ++ w ++ gap) (c.after (w.flatMap encode ++ written))

/-- Spaces between words are a gap. -/
theorem isGap_spaces (hspace : breaks ' ' = false) (hcode : encode ' ' = [' ']) (k : Nat)
    (t : List Char) : IsGap double breaks encode indent (spaces (k + 1)) (spaces (k + 1)) t where
  ne_nil := by
    rw [spaces_succ]
    exact List.cons_ne_nil _ _
  lines := by
    rw [Layout.quotedLines_word (fun x hx => by rw [eq_space_of_mem hx]; exact hspace),
      flatMap_spaces hcode]
  column_pos c := by
    rw [Cursor.column_after_spaces]
    omega
  read hw hr hc hcolumn hrest := quotedWords_spaces hw hr hc hcolumn hrest

/-- Line breaks between words are a gap. -/
theorem isGap_breaks (hindent : 0 < indent) {b : Char} {bs t : List Char}
    (hbs : ∀ x ∈ b :: bs, breaks x = true) (hown : ∀ x ∈ b :: bs, isLineSeparator x = true)
    (ht : t.head?.any breaks = false) :
    IsGap double breaks encode indent (b :: bs) (b :: bs ++ spaces indent) t where
  ne_nil := List.cons_ne_nil b bs
  lines := by
    rw [Layout.quotedLines_breaks hbs ht, List.append_assoc]
  column_pos c := by
    rw [Cursor.after_append, Cursor.column_after_spaces]
    omega
  read {w r c} hw hr hc hcolumn hrest := by
    have hbreaks : ∀ x ∈ b :: bs, isOwnBreak x = true := by
      intro x hx
      rw [isOwnBreak, hown x hx, Bool.or_true]
    -- a line feed would be folded into a space; no break that is written here is one
    have hfirst : b ≠ '\n' := by
      rintro rfl
      cases hown '\n' List.mem_cons_self
    rw [List.append_assoc (b :: bs)] at hrest
    exact quotedWords_breaks hw hbreaks hfirst hr hc hcolumn hrest

/-- Behind a word stands nothing, or a gap before what does not begin with one. -/
theorem Quoting.cut_gap {text : List Char} (h : Quoting double breaks encode text)
    (hspace : breaks ' ' = false) (hcode : encode ' ' = [' ']) (hindent : 0 < indent) :
    ∃ w s, text = w ++ s ∧ (∀ x ∈ w, breaks x = false ∧ IsUnit double x (encode x)) ∧
      (s = [] ∨ ∃ gap written t, s = gap ++ t ∧ IsGap double breaks encode indent gap written t ∧
        t.head? ≠ some ' ' ∧ t.head?.any breaks = false) := by
  rcases h.cut with ⟨w, s, rfl, hw, hs⟩
  refine ⟨w, s, rfl, fun x hx => ?_, ?_⟩
  · obtain ⟨hbreak, hblank⟩ := hw x hx
    exact ⟨hbreak, h.unit x (List.mem_append_left s hx) hbreak hblank⟩
  · rcases hs with rfl | ⟨k, t, rfl, hblank, hbreak⟩ | ⟨b, bs, t, rfl, hbs, hblank, hbreak⟩
    · exact .inl rfl
    · exact .inr ⟨_, _, t, rfl, isGap_spaces hspace hcode k t, hblank, hbreak⟩
    · have hown : ∀ x ∈ b :: bs, isLineSeparator x = true := fun x hx =>
        h.own x (List.mem_append_right w (List.mem_append_left t hx)) (hbs x hx)
      exact .inr ⟨_, _, t, rfl, isGap_breaks hindent hbs hown hbreak, hblank, hbreak⟩

/-- A text that does not begin with a space or a line break does not begin with them between quotes
either. -/
theorem Quoting.stops {t : List Char} (h : Quoting double breaks encode t)
    (hblank : t.head? ≠ some ' ') (hbreak : t.head?.any breaks = false) (r : List Char) :
    Stops (Layout.quotedLines breaks indent encode false t ++ closing double :: r) := by
  cases t with
  | nil => exact closing_not_spacing double
  | cons y t =>
      have hy : breaks y = false := hbreak
      rcases (h.unit y List.mem_cons_self hy fun heq => hblank (by rw [heq]; rfl)).first
        with ⟨z, code, hz, hspacing⟩
      rw [Layout.quotedLines, hy, hz]
      exact hspacing

/-- Between quotes all words, spaces and line breaks are read. -/
theorem quotedWords_eq {text r : List Char} (h : Quoting double breaks encode text)
    (hspace : breaks ' ' = false) (hcode : encode ' ' = [' ']) (hindent : 0 < indent)
    (hr : double = false → r.head? ≠ some '\'') {c : Cursor} (hc : c.IsSound)
    (hcolumn : 0 < c.column)
    (hrest : c.rest = Layout.quotedLines breaks indent encode false text ++ closing double :: r)
    {n : Nat} (hn : text.length < n) (read : List Char) :
    quotedWords double n read c =
      .ok (read ++ text,
        c.after (Layout.quotedLines breaks indent encode false text ++ [closing double])) := by
  -- one word and the gap behind it are read at a time; what is behind the gap is shorter
  induction hlength : text.length using Nat.strongRecOn generalizing text c n read with
  | ind length ih =>
      cases n with
      | zero => exact absurd hn (Nat.not_lt_zero _)
      | succ n =>
          rcases h.cut_gap hspace hcode hindent with ⟨w, s, rfl, hw, hs⟩
          have hunits : ∀ x ∈ w, IsUnit double x (encode x) := fun x hx => (hw x hx).2
          rw [Layout.quotedLines_word fun x hx => (hw x hx).1] at hrest ⊢
          rcases hs with rfl | ⟨gap, written, t, rfl, hgap, hblank, hbreak⟩
          · rw [Layout.quotedLines, List.append_assoc] at hrest
            rw [quotedWords_last hunits hr hc hcolumn hrest]
            simp [Layout.quotedLines]
          · have ht := h.suffix.suffix
            rw [hgap.lines] at hrest ⊢
            have hwords := hrest
            rw [List.append_assoc, List.append_assoc] at hwords
            rw [← List.append_assoc, List.append_assoc _ _ (closing double :: r)] at hrest
            have hcolumn' : 0 < (c.after (w.flatMap encode ++ written)).column := by
              rw [Cursor.after_append]
              exact hgap.column_pos _
            have hshorter := List.length_pos_iff.mpr hgap.ne_nil
            rw [List.length_append, List.length_append] at hlength hn
            rw [hgap.read hunits (ht.stops hblank hbreak r) hc hcolumn hwords,
              ih t.length (by omega) ht (hc.after hrest) hcolumn' (Cursor.rest_after hrest)
                (by omega) _ rfl]
            simp only [List.append_assoc, Cursor.after_append]

/-- A quoted text is no longer than what is written for it. -/
theorem length_le_quotedLines {text : List Char}
    (h : ∀ x ∈ text, breaks x = false → encode x ≠ []) (broken : Bool) :
    text.length ≤ (Layout.quotedLines breaks indent encode broken text).length := by
  induction text generalizing broken with
  | nil => exact Nat.zero_le _
  | cons x text ih =>
      have htail := fun broken => ih (fun y hy => h y (List.mem_cons_of_mem x hy)) broken
      rw [Layout.quotedLines]
      split
      · have hlength := htail true
        rw [List.length_cons, List.length_cons]
        omega
      · rename_i hx
        have hlength := htail false
        have hpositive := List.length_pos_iff.mpr
          (h x List.mem_cons_self (Bool.eq_false_iff.mpr hx))
        rw [List.length_append, List.length_append, List.length_cons]
        omega

/-- A scalar from its opening quote to its closing one. -/
theorem quoted_eq {text r : List Char} (h : Quoting double breaks encode text)
    (hspace : breaks ' ' = false) (hcode : encode ' ' = [' ']) (hindent : 0 < indent)
    (hr : double = false → r.head? ≠ some '\'') {c : Cursor} (hc : c.IsSound)
    (hrest : c.rest = closing double :: Layout.quotedLines breaks indent encode false text ++
      closing double :: r) :
    quoted double c = .ok (text, c.after (closing double ::
      Layout.quotedLines breaks indent encode false text ++ [closing double])) := by
  have hopen : c.rest = [closing double] ++ (Layout.quotedLines breaks indent encode false text ++
      closing double :: r) := hrest
  have hbreak : ∀ x ∈ [closing double], isBreak x = false := fun x hx => by
    rw [List.mem_singleton.mp hx]
    exact isBreak_eq_false (closing_not_spacing double)
  have hfirst : c.advance 1 = c.after [closing double] := (Cursor.after_eq_advance hbreak c).symm
  have hrest' := Cursor.rest_after hopen
  have hsound := hc.after hopen
  have hcolumn : 0 < (c.after [closing double]).column := by
    rw [Cursor.column_after hbreak]
    exact Nat.succ_pos _
  have hcodes : ∀ x ∈ text, breaks x = false → encode x ≠ [] := by
    intro x hx hxb
    by_cases hblank : x = ' '
    · rw [hblank, hcode]
      exact List.cons_ne_nil _ _
    · rcases (h.unit x hx hxb hblank).first with ⟨y, code, hy, _⟩
      rw [hy]
      exact List.cons_ne_nil _ _
  have hlength : text.length < (c.after [closing double]).steps := by
    have hle : text.length ≤ (Layout.quotedLines breaks indent encode false text).length :=
      length_le_quotedLines hcodes false
    rw [hsound.steps_eq, hrest', List.length_append]
    omega
  rw [quoted, hfirst, quotedWords_eq h hspace hcode hindent hr hsound hcolumn hrest' hlength [],
    ← Cursor.after_append]
  rfl

end

/-! ## Double quotes -/

/-- Between double quotes every character is read from what is written for it. -/
theorem isUnit_double {x : Char} (hx : x ≠ ' ') : IsUnit true x (Layout.doubleChar x) := by
  unfold Layout.doubleChar
  split
  · rename_i hplain
    simp only [Bool.and_eq_true, Bool.not_eq_true', bne_iff_ne] at hplain
    rcases hplain with ⟨⟨⟨hprint, hbreak⟩, hquote⟩, hslash⟩
    have hspacing : isSpacing x = false :=
      Bool.eq_false_iff.mpr fun h => hx (Layout.isSpacing_of_isPrintable hprint hbreak h)
    refine ⟨⟨x, [], rfl, hspacing⟩, fun y hy => ?_, fun n word c r hrest => ?_⟩
    · rw [List.mem_singleton.mp hy]
      exact hbreak
    · have hafter : c.after [x] = c.advance 1 :=
        Cursor.after_eq_advance (fun y hy => by rw [List.mem_singleton.mp hy]; exact hbreak) c
      rw [quotedWord, hrest, hafter]
      simp [hspacing, hquote, hslash]
  · have hspacing : ∀ y ∈ Layout.escape x, isSpacing y = false :=
      fun y hy => isSpacing_of_isInk (Layout.isInk_of_mem_escape hy)
    have hbreak : ∀ y ∈ Layout.escape x, isBreak y = false :=
      fun y hy => isBreak_eq_false (hspacing y hy)
    refine ⟨?_, hbreak, fun n word c r hrest => ?_⟩
    · rcases escape_shape x with ⟨letter, hescape, _⟩ | ⟨mark, width, hescape, _⟩
      · exact ⟨'\\', [letter], hescape, rfl⟩
      · exact ⟨'\\', _, hescape, rfl⟩
    · rw [Cursor.after_eq_advance hbreak]
      rcases escape_shape x with ⟨letter, hescape, hletter, hword⟩ |
        ⟨mark, width, hescape, hnone, hwidth, hword, hlt⟩
      · rw [hescape] at hrest ⊢
        rw [quotedWord, hrest]
        simp only [List.cons_append, List.nil_append, isBreak_of_isInk hword, hletter]
        rfl
      · have hcode := escapedCode?_hexDigits hlt r
        rw [hescape] at hrest ⊢
        rw [quotedWord, hrest]
        simp only [List.cons_append, isBreak_of_isInk hword, hnone, hwidth, hcode,
          List.length_cons, Layout.length_hexDigits]
        rw [Nat.add_comm 2 width]
        rfl

/-- Between double quotes all is written on one line. -/
theorem quotedLines_double (text : List Char) :
    Layout.quotedLines (fun _ => false) 1 Layout.doubleChar false text =
      text.flatMap Layout.doubleChar := by
  have hnone : ∀ x ∈ text, (fun _ : Char => false) x = false := fun _ _ => rfl
  have hlines := Layout.quotedLines_word hnone 1 Layout.doubleChar []
  rw [List.append_nil] at hlines
  rw [hlines, Layout.quotedLines]
  simp

/-- What is written in double quotes is read back, whatever it is. -/
theorem quoted_double {text r : List Char} {c : Cursor} (hc : c.IsSound)
    (hrest : c.rest = Layout.double text ++ r) :
    quoted true c = .ok (text, c.after (Layout.double text)) := by
  have hquoting : Quoting true (fun _ => false) Layout.doubleChar text :=
    ⟨fun x _ _ hx => isUnit_double hx, fun x _ hx => absurd hx Bool.false_ne_true,
      Layout.hasNeighbours_eq_false fun a _ b _ => Bool.and_false _,
      Layout.hasNeighbours_eq_false fun a _ b _ => Bool.false_and _⟩
  have hwritten : Layout.double text = closing true ::
      Layout.quotedLines (fun _ => false) 1 Layout.doubleChar false text ++ [closing true] := by
    rw [quotedLines_double]
    rfl
  rw [hwritten]
  refine quoted_eq hquoting rfl rfl Nat.one_pos (fun h => absurd h (by decide)) hc ?_ (r := r)
  rw [hrest, hwritten, List.append_assoc]
  rfl

/-! ## Single quotes -/

/-- A quote is written twice between single quotes. -/
def singleChar (c : Char) : List Char := if c == '\'' then [c, c] else [c]

theorem eq_of_mem_singleChar {c x : Char} (h : x ∈ singleChar c) : x = c := by
  unfold singleChar at h
  split at h
  · simpa using h
  · exact List.mem_singleton.mp h

/-- Between single quotes what is no spacing stands for itself. -/
theorem isUnit_single {x : Char} (hx : isSpacing x = false) : IsUnit false x (singleChar x) := by
  unfold singleChar
  split
  · rename_i hquote
    rw [beq_iff_eq.mp hquote]
    refine ⟨⟨_, _, rfl, rfl⟩, by decide, fun n word c r hrest => ?_⟩
    rw [quotedWord, hrest, Cursor.after_eq_advance (by decide)]
    rfl
  · rename_i hquote
    have hbreak : ∀ y ∈ [x], isBreak y = false := fun y hy => by
      rw [List.mem_singleton.mp hy]
      exact isBreak_eq_false hx
    refine ⟨⟨_, _, rfl, hx⟩, hbreak, fun n word c r hrest => ?_⟩
    rw [quotedWord, hrest, Cursor.after_eq_advance hbreak]
    simp only [List.singleton_append, hx, Bool.false_eq_true, if_false, Bool.not_false, if_true]
    split
    · exact absurd rfl hquote
    · exact absurd rfl hquote
    · rfl

/-- Between single quotes lines are written as in an indented text. -/
theorem quotedLines_single (indent : Nat) (encode : Char → List Char) (broken : Bool)
    (text : List Char) :
    Layout.quotedLines isBreak indent encode broken text =
      Layout.indentLines indent encode broken text ++
        if text.getLast?.any isBreak || (text.isEmpty && broken) then spaces indent else [] := by
  induction text generalizing broken with
  | nil => cases broken <;> rfl
  | cons x r ih =>
      have hlast : ((x :: r).getLast?.any isBreak || ((x :: r).isEmpty && broken)) =
          (r.getLast?.any isBreak || (r.isEmpty && isBreak x)) := by
        cases r with
        | nil => simp
        | cons y r => simp [List.getLast?_cons_cons]
      rw [hlast, Layout.quotedLines, Layout.indentLines]
      cases hx : isBreak x with
      | true => simp [ih]
      | false => simp [ih]

/-- What is written in single quotes is read back, if no part of it needs an escape and no line
begins with a space. -/
theorem quoted_single {text r : List Char} (hescape : Layout.needsEscape text = false)
    (hspace : Layout.hasBreakSpace text = false) (hfeed : '\n' ∉ text) {indent : Nat}
    (hindent : 0 < indent) (hr : r.head? ≠ some '\'') {c : Cursor} (hc : c.IsSound)
    (hrest : c.rest = Layout.single indent text ++ r) :
    quoted false c = .ok (text, c.after (Layout.single indent text)) := by
  rw [Layout.needsEscape, Bool.or_eq_false_iff, Bool.not_eq_false', List.all_eq_true] at hescape
  have hown : ∀ x ∈ text, isBreak x = true → isLineSeparator x = true := by
    intro x hx hbreak
    rcases Bool.or_eq_true_iff.mp (Layout.isOwnBreak_of_isPrintable (hescape.1 x hx) hbreak) with
      hline | hline
    · exact absurd (beq_iff_eq.mp hline ▸ hx) hfeed
    · exact hline
  have hquoting : Quoting false isBreak singleChar text :=
    ⟨fun x hx hbreak hblank => isUnit_single (Bool.eq_false_iff.mpr fun hx' =>
        hblank (Layout.isSpacing_of_isPrintable (hescape.1 x hx) hbreak hx')),
      hown, hescape.2, hspace⟩
  have hwritten : Layout.single indent text = closing false ::
      Layout.quotedLines isBreak indent singleChar false text ++ [closing false] := by
    rw [quotedLines_single, Bool.and_false, Bool.or_false]
    rfl
  rw [hwritten]
  refine quoted_eq hquoting rfl rfl hindent (fun _ => hr) hc ?_
  rw [hrest, hwritten, List.append_assoc]
  rfl

end Scalar

end OperatorBundle.Yaml
