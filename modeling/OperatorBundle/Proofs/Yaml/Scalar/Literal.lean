import OperatorBundle.Proofs.Yaml.Cursor
import OperatorBundle.Yaml.Layout.Block
import OperatorBundle.Yaml.Token.Scalar

/-!
# Literal blocks are read as they were written

A block is lines at one column, with empty lines between them that have no indentation.  Its header
says how wide the indentation is where the first line does not tell, and what becomes of the line
breaks at the end.
-/

namespace OperatorBundle.Yaml

open Layout (spaces)

/-! ## Indented lines -/

namespace Layout

/-- A text as lines at column `indent`. -/
abbrev blockText (indent : Nat) : Bool → List Char → List Char := indentLines indent ([·])

/-- A line is written as it is. -/
theorem blockText_line {l : List Char} (hl : ∀ x ∈ l, isBreak x = false) (indent : Nat)
    (t : List Char) : blockText indent false (l ++ t) = l ++ blockText indent false t := by
  induction l with
  | nil => rfl
  | cons x l ih =>
      have htail := ih fun y hy => hl y (List.mem_cons_of_mem x hy)
      simp only [blockText] at htail ⊢
      rw [List.cons_append, indentLines, hl x List.mem_cons_self, htail]
      rfl

/-- Line breaks are written without indentation. -/
theorem blockText_breaks {bs : List Char} (hbs : ∀ x ∈ bs, isBreak x = true) (indent : Nat)
    (t : List Char) : blockText indent true (bs ++ t) = bs ++ blockText indent true t := by
  induction bs with
  | nil => rfl
  | cons x bs ih =>
      have htail := ih fun y hy => hbs y (List.mem_cons_of_mem x hy)
      simp only [blockText] at htail ⊢
      rw [List.cons_append, indentLines, hbs x List.mem_cons_self, if_pos rfl, htail]
      rfl

/-- Behind a line break a new line begins. -/
theorem blockText_break {x : Char} (hx : isBreak x = true) (indent : Nat) (t : List Char) :
    blockText indent false (x :: t) = x :: blockText indent true t := by
  simp only [blockText]
  rw [indentLines, hx, if_pos rfl]

/-- Within a line characters are written as they are. -/
theorem blockText_cons {x : Char} (hx : isBreak x = false) (indent : Nat) (t : List Char) :
    blockText indent false (x :: t) = x :: blockText indent false t :=
  blockText_line (l := [x]) (fun y hy => by rw [List.mem_singleton.mp hy]; exact hx) indent t

/-- A block is no shorter than its text. -/
theorem length_le_blockText (text : List Char) (indent : Nat) (broken : Bool) :
    text.length ≤ (blockText indent broken text).length := by
  induction text generalizing broken with
  | nil => exact Nat.zero_le _
  | cons x text ih =>
      simp only [blockText] at ih ⊢
      rw [indentLines]
      split
      · exact Nat.succ_le_succ (ih true)
      · have hlength := ih false
        simp only [List.length_append, List.length_cons, List.length_nil]
        omega

/-- A line begins with its indentation. -/
theorem blockText_indent {x : Char} (hx : isBreak x = false) (indent : Nat) (t : List Char) :
    blockText indent true (x :: t) = spaces indent ++ blockText indent false (x :: t) := by
  simp only [blockText]
  rw [indentLines, indentLines, hx]
  simp

/-- The line break that is written at the end of a text that does not end in one. -/
def lastBreak (trailing : List Char) : List Char := if trailing.isEmpty then ['\n'] else []

end Layout

namespace Scalar

/-! ## Empty lines -/

/-- A line break is no other character. -/
theorem ne_of_isOwnBreak {x y : Char} (hx : isOwnBreak x = true) (hy : isBreak y = false) :
    x ≠ y := by
  rintro rfl
  rw [isBreak_of_isOwnBreak hx] at hy
  cases hy

/-- Indentation is taken up to the column of the block. -/
theorem min_takeWhile_spaces {r : List Char} {k indent : Nat}
    (hk : k = indent ∨ k ≤ indent ∧ Stops r) :
    min ((spaces k ++ r).takeWhile (· == ' ')).length indent = k := by
  have htake : (spaces k ++ r).takeWhile (· == ' ') = spaces k ++ r.takeWhile (· == ' ') :=
    List.takeWhile_append_of_pos fun x hx => by rw [eq_space_of_mem hx]; rfl
  rw [htake, List.length_append, length_spaces]
  rcases hk with rfl | ⟨hk, hr⟩
  · omega
  · have hstop : r.takeWhile (· == ' ') = [] := by
      cases r with
      | nil => rfl
      | cons x r =>
          have hx : (x == ' ') = false := by
            refine beq_eq_false_iff_ne.mpr ?_
            rintro rfl
            cases hr
          rw [List.takeWhile_cons, hx]
          rfl
    rw [hstop, List.length_nil]
    omega

/-- The indentation of a line that is not empty: all of it where this line belongs to the block, and
what there is where it does not. -/
theorem blockBreaks_indent {r : List Char} {k indent : Nat} {c : Cursor} (hcolumn : c.column = 0)
    (hrest : c.rest = spaces k ++ r)
    (hk : k = indent ∧ r.head?.any isBreak = false ∨ k ≤ indent ∧ Stops r) (n widest : Nat)
    (read : List Char) :
    blockBreaks (some indent) (n + 1) widest read c =
      .ok (max widest k, read, c.after (spaces k)) := by
  have hcount := min_takeWhile_spaces (hk.imp And.left id)
  have hafter : (c.after (spaces k)).rest = r := Cursor.rest_after hrest
  have hcolumn' : (c.after (spaces k)).column = k := by
    rw [Cursor.column_after_spaces, hcolumn, Nat.zero_add]
  -- a tab is refused only where the indentation is too short, and nothing is indented there
  have hstops : (decide (k < indent) && (c.after (spaces k)).headIs '\t') = false ∧
      r.head?.any isBreak = false := by
    rcases hk with ⟨rfl, hbreak⟩ | ⟨_, hr⟩
    · exact ⟨by rw [decide_eq_false (Nat.lt_irrefl k), Bool.false_and], hbreak⟩
    · rw [Cursor.headIs, hafter]
      cases r with
      | nil => exact ⟨Bool.and_false _, rfl⟩
      | cons x r =>
          have hx : (some x == some '\t') = false := by
            refine beq_eq_false_iff_ne.mpr fun heq => ?_
            rw [Option.some.inj heq] at hr
            cases hr
          exact ⟨by rw [List.head?_cons, hx, Bool.and_false], isBreak_eq_false hr⟩
  rw [blockBreaks, hrest]
  simp only [hcolumn, Nat.sub_zero, hcount, Cursor.advance_spaces, hcolumn', hafter,
    Option.all_some, hstops.1, hstops.2, Bool.false_eq_true, if_false]

/-- An empty line. -/
theorem blockBreaks_cons {x : Char} {r : List Char} (hx : isOwnBreak x = true) (indent : Nat)
    {c : Cursor} (hrest : c.rest = x :: r) (n widest : Nat) (read : List Char) :
    blockBreaks (some indent) (n + 1) widest read c =
      blockBreaks (some indent) n (max widest c.column) (read ++ [x]) (c.after [x]) := by
  have hcount : (c.rest.takeWhile (· == ' ')).length = 0 := by
    rw [hrest, List.takeWhile_cons, beq_eq_false_iff_ne.mpr (ne_of_isOwnBreak hx rfl)]
    rfl
  have htab : c.headIs '\t' = false := Cursor.headIs_eq_false hrest (ne_of_isOwnBreak hx rfl)
  have hbreak : c.rest.head?.any isBreak = true := by
    rw [hrest]
    exact isBreak_of_isOwnBreak hx
  rw [blockBreaks, hcount]
  simp only [Nat.zero_min, Cursor.advance_zero, htab, Bool.and_false, Bool.false_eq_true, if_false,
    hbreak, if_true, Cursor.breakText_eq hrest hx, Cursor.newline_eq hrest hx]

/-- Empty lines, and the indentation of the line that follows. -/
theorem blockBreaks_eq {bs r : List Char} {k indent : Nat} (hbs : ∀ x ∈ bs, isOwnBreak x = true)
    {c : Cursor} (hcolumn : c.column = 0) (hrest : c.rest = bs ++ (spaces k ++ r))
    (hk : k = indent ∧ r.head?.any isBreak = false ∨ k ≤ indent ∧ Stops r) {n : Nat}
    (hn : bs.length < n) (widest : Nat) (read : List Char) :
    ∃ widest', blockBreaks (some indent) n widest read c =
      .ok (widest', read ++ bs, c.after (bs ++ spaces k)) := by
  induction bs generalizing c n widest read with
  | nil =>
      cases n with
      | zero => exact absurd hn (Nat.not_lt_zero _)
      | succ n =>
          rw [List.append_nil]
          exact ⟨_, blockBreaks_indent hcolumn hrest hk n widest read⟩
  | cons x bs ih =>
      cases n with
      | zero => exact absurd hn (Nat.not_lt_zero _)
      | succ n =>
          have hx := hbs x List.mem_cons_self
          have hcolumn' : (c.after [x]).column = 0 :=
            Cursor.column_after_break c [] (isBreak_of_isOwnBreak hx)
          have hrest' : (c.after [x]).rest = bs ++ (spaces k ++ r) := Cursor.rest_after hrest
          rcases ih (fun y hy => hbs y (List.mem_cons_of_mem x hy)) hcolumn' hrest'
            (Nat.lt_of_succ_lt_succ hn) (max widest c.column) (read ++ [x]) with ⟨widest', htail⟩
          refine ⟨widest', ?_⟩
          rw [blockBreaks_cons hx indent hrest, htail, List.append_assoc]
          rfl

/-! ## Lines -/

/-- A block ends before a line that does not begin in its column. -/
theorem blockLines_stop {folds : Bool} {indent : Nat} {c : Cursor} (h : c.column ≠ indent) (n : Nat)
    (read last breaks : List Char) (lead : Bool) :
    blockLines folds indent n read last breaks lead c = .ok (read, last, breaks, c) := by
  cases n with
  | zero => rfl
  | succ n =>
      have hcolumn : (c.column != indent) = true := bne_iff_ne.mpr h
      rw [blockLines, hcolumn]
      rfl

/-- One line of a block, the empty lines behind it, and the indentation of the next. -/
theorem blockLines_line {l bs r : List Char} {b : Char} {k indent : Nat}
    (hl : ∀ x ∈ l, isBreak x = false) (hbs : ∀ x ∈ b :: bs, isOwnBreak x = true) {c : Cursor}
    (hc : c.IsSound) (hcolumn : c.column = indent)
    (hrest : c.rest = l ++ b :: (bs ++ (spaces k ++ r)))
    (hk : k = indent ∧ r.head?.any isBreak = false ∨ k ≤ indent ∧ Stops r) (n : Nat)
    (read last breaks : List Char) (lead : Bool) :
    ∃ lead', blockLines false indent (n + 1) read last breaks lead c =
      blockLines false indent n (read ++ last ++ breaks ++ l) [b] bs lead'
        (c.after (l ++ b :: bs ++ spaces k)) := by
  have hb := hbs b List.mem_cons_self
  have hspan : c.span (!isBreak ·) = (l, c.after l) := by
    refine Cursor.span_eq_after hrest (fun x hx => by rw [hl x hx]; rfl) hl ?_
    rw [List.head?_cons, Option.any_some, isBreak_of_isOwnBreak hb]
    rfl
  have hrest' : (c.after l).rest = [b] ++ (bs ++ (spaces k ++ r)) := Cursor.rest_after hrest
  have hnewline := Cursor.newline_eq hrest' hb
  have hbreak := Cursor.breakText_eq hrest' hb
  have hsound := (hc.after hrest).after hrest'
  have hrest'' : ((c.after l).after [b]).rest = bs ++ (spaces k ++ r) := Cursor.rest_after hrest'
  have hfuel : bs.length < ((c.after l).after [b]).steps := by
    rw [hsound.steps_eq, hrest'', List.length_append]
    omega
  have hcolumn' : ((c.after l).after [b]).column = 0 :=
    Cursor.column_after_break (c.after l) [] (isBreak_of_isOwnBreak hb)
  rcases blockBreaks_eq (fun x hx => hbs x (List.mem_cons_of_mem b hx)) hcolumn' hrest'' hk hfuel 0
    [] with ⟨widest, hbreaks⟩
  have hplace : c.after (l ++ b :: bs ++ spaces k) =
      ((c.after l).after [b]).after (bs ++ spaces k) := by
    rw [List.append_assoc, Cursor.after_append, ← Cursor.after_append (c.after l)]
    rfl
  have hempty : c.rest.isEmpty = false := by
    rw [hrest]
    simp
  refine ⟨c.rest.head?.any isBlank, ?_⟩
  rw [blockLines, hcolumn, hempty, hplace]
  simp only [bne_self_eq_false, Bool.or_self, Bool.false_eq_true, if_false, Bool.false_and, hspan,
    hbreak, hnewline, hbreaks, ok_bind, List.nil_append]

/-- The line breaks behind the last line of a block, taken apart as the reader does: the one that
ends the line, and those of empty lines. -/
def ending : List Char → List Char × List Char
  | [] => (['\n'], [])
  | b :: bs => ([b], bs)

/-- The last character is that of the last part. -/
theorem getLast?_append_of_ne_nil {t : List Char} (ht : t ≠ []) (s : List Char) :
    (s ++ t).getLast? = t.getLast? := by
  rw [List.getLast?_append, List.getLast?_eq_some_getLast ht, Option.some_or]

/-- Line breaks end with a line break. -/
theorem getLast?_of_breaks {bs : List Char} (hne : bs ≠ []) (hbs : ∀ x ∈ bs, isBreak x = true) :
    bs.getLast?.any isBreak = true := by
  rw [List.getLast?_eq_some_getLast hne, Option.any_some]
  exact hbs _ (List.getLast_mem hne)

/-- A text that ends with line breaks has one last. -/
theorem getLast?_breaks {l bs : List Char} {b : Char} (hbs : ∀ x ∈ b :: bs, isBreak x = true) :
    (l ++ b :: bs).getLast?.any isBreak = true := by
  rw [getLast?_append_of_ne_nil (List.cons_ne_nil b bs)]
  exact getLast?_of_breaks (List.cons_ne_nil b bs) hbs

/-- A block ends with a line break behind its last line. -/
theorem exists_ending {l trailing : List Char} (htrailing : ∀ x ∈ trailing, isOwnBreak x = true)
    (hl : ∀ x ∈ l, isBreak x = false) (indent : Nat) :
    ∃ b bs, ending trailing = ([b], bs) ∧ (∀ x ∈ b :: bs, isOwnBreak x = true) ∧
      Layout.blockText indent false (l ++ trailing) ++ Layout.lastBreak trailing = l ++ b :: bs := by
  cases trailing with
  | nil =>
      refine ⟨'\n', [], rfl, by decide, ?_⟩
      rw [Layout.blockText_line hl]
      simp [Layout.blockText, Layout.indentLines, Layout.lastBreak]
  | cons b bs =>
      have hbreaks : ∀ x ∈ bs, isBreak x = true :=
        fun x hx => isBreak_of_isOwnBreak (htrailing x (List.mem_cons_of_mem b hx))
      have hempty := Layout.blockText_breaks hbreaks indent []
      rw [List.append_nil] at hempty
      refine ⟨b, bs, rfl, htrailing, ?_⟩
      rw [Layout.blockText_line hl, Layout.blockText_break
        (isBreak_of_isOwnBreak (htrailing b List.mem_cons_self)), hempty]
      simp [Layout.blockText, Layout.indentLines, Layout.lastBreak]

/-- The last line of a block, behind which the block ends. -/
theorem blockLines_last {l trailing r : List Char} {k indent : Nat}
    (hl : ∀ x ∈ l, isBreak x = false) (htrailing : ∀ x ∈ trailing, isOwnBreak x = true)
    (hk : k < indent) (hr : Stops r) {c : Cursor} (hc : c.IsSound) (hcolumn : c.column = indent)
    (hrest : c.rest = Layout.blockText indent false (l ++ trailing) ++
      Layout.lastBreak trailing ++ (spaces k ++ r)) (n : Nat)
    (read last breaks : List Char) (lead : Bool) :
    blockLines false indent (n + 1) read last breaks lead c =
      .ok (read ++ last ++ breaks ++ l, (ending trailing).1, (ending trailing).2,
        c.after (Layout.blockText indent false (l ++ trailing) ++ Layout.lastBreak trailing ++
          spaces k)) := by
  rcases exists_ending htrailing hl indent with ⟨b, bs, hending, hown, hwritten⟩
  rw [hwritten, List.append_assoc] at hrest
  rcases blockLines_line hl hown hc hcolumn hrest (.inr ⟨Nat.le_of_lt hk, hr⟩) n read last breaks
    lead with ⟨lead', hstep⟩
  have hstop : (c.after (l ++ b :: bs ++ spaces k)).column ≠ indent := by
    rw [Cursor.column_after_lines_spaces c
      (getLast?_breaks fun x hx => isBreak_of_isOwnBreak (hown x hx))]
    exact Nat.ne_of_lt hk
  rw [hstep, blockLines_stop hstop, hending, hwritten]

/-- A text that does not end in a line break is one line, or a line, line breaks, and a text that
neither begins with one nor ends in one. -/
theorem exists_line {core : List Char} (hlast : core.getLast?.any isBreak = false) :
    ∃ l, (∀ x ∈ l, isBreak x = false) ∧ (core = l ∨ ∃ b bs y u, core = l ++ b :: bs ++ y :: u ∧
      (∀ x ∈ b :: bs, isBreak x = true) ∧ isBreak y = false ∧
      (y :: u).getLast?.any isBreak = false) := by
  rcases exists_word (fun x => !isBreak x) core with ⟨l, t, rfl, hl, ht⟩
  refine ⟨l, fun x hx => by simpa using hl x hx, ?_⟩
  cases t with
  | nil => exact .inl (List.append_nil l)
  | cons b t =>
      right
      have hb : isBreak b = true := by simpa using ht
      rcases exists_word isBreak t with ⟨bs, u, rfl, hbs, hu⟩
      have hbreaks : ∀ x ∈ b :: bs, isBreak x = true := List.forall_mem_cons.mpr ⟨hb, hbs⟩
      cases u with
      | nil =>
          rw [List.append_nil, getLast?_breaks hbreaks] at hlast
          cases hlast
      | cons y u =>
          rw [← List.cons_append, ← List.append_assoc,
            getLast?_append_of_ne_nil (List.cons_ne_nil y u)] at hlast
          exact ⟨b, bs, y, u, by simp, hbreaks, hu, hlast⟩

/-- A line, line breaks and the lines behind them, as they are written. -/
theorem blockText_next {l bs : List Char} {b y : Char} (hl : ∀ x ∈ l, isBreak x = false)
    (hbs : ∀ x ∈ b :: bs, isBreak x = true) (hy : isBreak y = false) (indent : Nat)
    (u : List Char) :
    Layout.blockText indent false (l ++ b :: bs ++ y :: u) =
      l ++ b :: (bs ++ (spaces indent ++ Layout.blockText indent false (y :: u))) := by
  have hrest : ∀ x ∈ bs, isBreak x = true := fun x hx => hbs x (List.mem_cons_of_mem b hx)
  rw [List.append_assoc, Layout.blockText_line hl, List.cons_append,
    Layout.blockText_break (hbs b List.mem_cons_self), Layout.blockText_breaks hrest,
    Layout.blockText_indent hy]

/-- The lines of a block, of which the first has been indented. -/
theorem blockLines_eq {core trailing r : List Char} {k indent : Nat}
    (hfirst : ∃ x s, core = x :: s ∧ isBreak x = false) (hlast : core.getLast?.any isBreak = false)
    (hcore : ∀ x ∈ core, isBreak x = true → isOwnBreak x = true)
    (htrailing : ∀ x ∈ trailing, isOwnBreak x = true) (hk : k < indent) (hr : Stops r) {c : Cursor}
    (hc : c.IsSound) (hcolumn : c.column = indent)
    (hrest : c.rest = Layout.blockText indent false (core ++ trailing) ++
      Layout.lastBreak trailing ++ (spaces k ++ r)) {n : Nat} (hn : core.length ≤ n)
    (read last breaks : List Char) (lead : Bool) :
    blockLines false indent n read last breaks lead c =
      .ok (read ++ last ++ breaks ++ core, (ending trailing).1, (ending trailing).2,
        c.after (Layout.blockText indent false (core ++ trailing) ++ Layout.lastBreak trailing ++
          spaces k)) := by
  -- a line and the breaks behind it are taken at a time; the rest begins with a line again
  induction hlength : core.length using Nat.strongRecOn
      generalizing core c n read last breaks lead with
  | ind length ih =>
      cases n with
      | zero =>
          rcases hfirst with ⟨x, s, rfl, _⟩
          exact absurd hn (Nat.not_succ_le_zero _)
      | succ n =>
          rcases exists_line hlast with
            ⟨l, hline, rfl | ⟨b, bs, y, u, rfl, hbreaks, hy, hlast'⟩⟩
          · exact blockLines_last hline htrailing hk hr hc hcolumn hrest n read last breaks lead
          · have hown : ∀ x ∈ b :: bs, isOwnBreak x = true := fun x hx =>
              hcore x (List.mem_append_left _ (List.mem_append_right l hx)) (hbreaks x hx)
            have hwritten := blockText_next hline hbreaks hy indent (u ++ trailing)
            rw [← List.cons_append, ← List.append_assoc] at hwritten
            rw [hwritten] at hrest ⊢
            have hnext : c.rest = l ++ b :: (bs ++ (spaces indent ++
                (Layout.blockText indent false (y :: u ++ trailing) ++
                  Layout.lastBreak trailing ++ (spaces k ++ r)))) := by
              rw [hrest]
              simp only [List.append_assoc, List.cons_append]
            have hreach : c.rest = (l ++ b :: bs ++ spaces indent) ++
                (Layout.blockText indent false (y :: u ++ trailing) ++
                  Layout.lastBreak trailing ++ (spaces k ++ r)) := by
              rw [hnext]
              simp only [List.append_assoc, List.cons_append]
            have hhead : (Layout.blockText indent false (y :: u ++ trailing) ++
                Layout.lastBreak trailing ++ (spaces k ++ r)).head?.any isBreak = false := by
              rw [List.cons_append, Layout.blockText_cons hy]
              exact hy
            have hcolumn' : (c.after (l ++ b :: bs ++ spaces indent)).column = indent :=
              Cursor.column_after_lines_spaces c (getLast?_breaks hbreaks) indent
            rw [List.length_append, List.length_append, List.length_cons] at hlength hn
            rcases blockLines_line hline hown hc hcolumn hnext (.inl ⟨rfl, hhead⟩) n read last
              breaks lead with ⟨lead', hstep⟩
            rw [hstep, ih (y :: u).length (by omega) ⟨y, u, rfl, hy⟩ hlast'
              (fun x hx => hcore x (List.mem_append_right _ hx)) (hc.after hreach) hcolumn'
              (Cursor.rest_after hreach) (by omega) (read ++ last ++ breaks ++ l) [b] bs lead' rfl,
              ← Cursor.after_append]
            simp only [List.append_assoc, List.cons_append, List.nil_append]

/-! ## Headers -/

/-- What is written for what becomes of the line breaks at the end. -/
def Chomping.mark : Chomping → List Char
  | strip => ['-']
  | clip => []
  | keep => ['+']

/-- What becomes of the line breaks at the end of a text. -/
def chompingFor (text : List Char) : Chomping :=
  match text.reverse with
  | last :: before =>
      if !isBreak last then .strip else if before.head?.all isBreak then .keep else .clip
  | [] => .strip

/-- Does the first line of a text not tell the indentation? -/
def needsHint (text : List Char) : Bool := text.head?.any fun c => c == ' ' || isBreak c

/-- The header of a literal says how far it is indented, where this must be said, and how it ends. -/
theorem literalHeader_eq (text : List Char) :
    Layout.literalHeader text =
      '|' :: ((if needsHint text then ['2'] else []) ++ (chompingFor text).mark) := by
  unfold Layout.literalHeader chompingFor needsHint
  generalize text.head?.any (fun c => c == ' ' || isBreak c) = hint
  cases text.reverse with
  | nil => cases hint <;> rfl
  | cons last before =>
      simp only
      cases isBreak last with
      | false => cases hint <;> rfl
      | true => cases before.head?.all isBreak <;> cases hint <;> rfl

/-- The header of a block is read as it is written. -/
theorem blockHeader_eq {hint : Bool} {chomping : Chomping} {r : List Char} {c : Cursor}
    (hrest : c.rest = (if hint then ['2'] else []) ++ chomping.mark ++ '\n' :: r) :
    blockHeader c = .ok (chomping, if hint then some 2 else none,
      c.after ((if hint then ['2'] else []) ++ chomping.mark)) := by
  rcases c with ⟨rest, index, line, column, total⟩
  have hrest' : rest = (if hint then ['2'] else []) ++ chomping.mark ++ '\n' :: r := hrest
  subst hrest'
  cases hint <;> cases chomping <;> rfl

/-- A block of line breaks keeps them. -/
theorem chompingFor_breaks {bs : List Char} (hne : bs ≠ []) (hbs : ∀ x ∈ bs, isBreak x = true) :
    chompingFor bs = .keep := by
  unfold chompingFor
  split
  · rename_i last before hreverse
    have hmem : ∀ x ∈ last :: before, isBreak x = true := fun x hx =>
      hbs x (List.mem_reverse.mp (hreverse ▸ hx))
    rw [hmem last List.mem_cons_self]
    cases before with
    | nil => rfl
    | cons x before =>
        rw [List.head?_cons, Option.all_some, hmem x (by simp)]
        rfl
  · rename_i hreverse
    exact absurd (List.reverse_eq_nil_iff.mp hreverse) hne

/-- The line breaks at the end come back as the header says. -/
theorem chomped (bs : List Char) {core trailing : List Char} (hne : core ≠ [])
    (hcore : core.getLast?.any isBreak = false) (htrailing : ∀ x ∈ trailing, isBreak x = true) :
    (match chompingFor (bs ++ core ++ trailing) with
      | .strip => bs ++ core
      | .clip => bs ++ core ++ (ending trailing).1
      | .keep => bs ++ core ++ (ending trailing).1 ++ (ending trailing).2) =
      bs ++ core ++ trailing := by
  rcases List.eq_nil_or_concat core with rfl | ⟨core, x, rfl⟩
  · exact absurd rfl hne
  rw [List.concat_eq_append] at hcore ⊢
  have hx : isBreak x = false := by
    rw [List.getLast?_append, List.getLast?_singleton, Option.some_or, Option.any_some] at hcore
    exact hcore
  -- no break at the end, one, or more: each has a header of its own
  rcases List.eq_nil_or_concat trailing with rfl | ⟨trailing, b, rfl⟩
  · have hstrip : chompingFor (bs ++ (core ++ [x]) ++ []) = .strip := by
      simp [chompingFor, hx]
    rw [hstrip, List.append_nil]
  rw [List.concat_eq_append] at htrailing ⊢
  have hb : isBreak b = true := htrailing b (by simp)
  rcases List.eq_nil_or_concat trailing with rfl | ⟨trailing, b', rfl⟩
  · have hclip : chompingFor (bs ++ (core ++ [x]) ++ ([] ++ [b])) = .clip := by
      simp [chompingFor, hx, hb]
    rw [hclip]
    rfl
  · rw [List.concat_eq_append] at htrailing ⊢
    have hb' : isBreak b' = true := htrailing b' (by simp)
    have hkeep : chompingFor (bs ++ (core ++ [x]) ++ (trailing ++ [b'] ++ [b])) = .keep := by
      simp [chompingFor, hb, hb']
    rw [hkeep]
    cases trailing with
    | nil => simp [ending]
    | cons y trailing => simp [ending]

/-! ## Blocks -/

/-- The indentation of a first line that is not empty. -/
theorem blockBreaks_first {x : Char} {s : List Char} {k : Nat} (hx : isSpacing x = false)
    {c : Cursor} (hcolumn : c.column = 0) (hrest : c.rest = spaces k ++ x :: s)
    {n : Nat} (hn : 0 < n) :
    blockBreaks none n 0 [] c = .ok (k, [], c.after (spaces k)) := by
  cases n with
  | zero => exact absurd hn (Nat.lt_irrefl 0)
  | succ n =>
      have hcount : (c.rest.takeWhile (· == ' ')).length = k := by
        have hblank : x ≠ ' ' := by
          rintro rfl
          cases hx
        rw [hrest, List.takeWhile_append_of_pos fun y hy => by rw [eq_space_of_mem hy]; rfl,
          List.takeWhile_cons, beq_eq_false_iff_ne.mpr hblank]
        simp [length_spaces]
      have hafter : (c.after (spaces k)).rest = x :: s := Cursor.rest_after hrest
      have hcolumn' : (c.after (spaces k)).column = k := by
        rw [Cursor.column_after_spaces, hcolumn, Nat.zero_add]
      have htab : (c.after (spaces k)).headIs '\t' = false := by
        refine Cursor.headIs_eq_false hafter ?_
        rintro rfl
        cases hx
      rw [blockBreaks, hcount]
      simp only [Cursor.advance_spaces, hcolumn', Option.all_none, htab, Bool.and_false, hafter,
        List.head?_cons, Option.any_some, isBreak_eq_false hx, Bool.false_eq_true, if_false,
        Nat.zero_max]

/-- A text is empty lines, lines from the first that is not empty to the last, and line breaks
behind them. -/
theorem exists_core (text : List Char) :
    ∃ bs core trailing, text = bs ++ core ++ trailing ∧ (∀ x ∈ bs, isBreak x = true) ∧
      (∀ x ∈ trailing, isBreak x = true) ∧
      (core = [] ∧ trailing = [] ∨
        (∃ x s, core = x :: s ∧ isBreak x = false) ∧ core.getLast?.any isBreak = false) := by
  rcases exists_word isBreak text with ⟨bs, t, rfl, hbs, ht⟩
  cases t with
  | nil => exact ⟨bs, [], [], by simp, hbs, by simp, .inl ⟨rfl, rfl⟩⟩
  | cons x t =>
      have hx : isBreak x = false := ht
      -- the breaks at the end are found from behind
      rcases exists_word isBreak (x :: t).reverse with ⟨w, s, hcut, hw, hs⟩
      have hall : x :: t = s.reverse ++ w.reverse := by
        rw [← List.reverse_append, ← hcut, List.reverse_reverse]
      refine ⟨bs, s.reverse, w.reverse, ?_, hbs, fun y hy => hw y (List.mem_reverse.mp hy), ?_⟩
      · rw [hall, List.append_assoc]
      right
      cases s with
      | nil =>
          have hmem : x ∈ w := by
            have hself : x ∈ x :: t := List.mem_cons_self
            rw [hall] at hself
            simpa using hself
          rw [hw x hmem] at hx
          cases hx
      | cons y s =>
          have hy : isBreak y = false := hs
          constructor
          · cases hcore : (y :: s).reverse with
            | nil => exact absurd (List.reverse_eq_nil_iff.mp hcore) (List.cons_ne_nil y s)
            | cons z core =>
                rw [hcore] at hall
                have hz : x = z := (List.cons.inj hall).1
                exact ⟨z, core, rfl, hz ▸ hx⟩
          · rw [List.getLast?_reverse, List.head?_cons, Option.any_some, hy]

/-- Something is written for every text that is not empty. -/
theorem blockText_ne_nil {text : List Char} (hne : text ≠ []) (indent : Nat) (broken : Bool) :
    Layout.blockText indent broken text ≠ [] := by
  cases text with
  | nil => exact absurd rfl hne
  | cons x text =>
      simp only [Layout.blockText, Layout.indentLines]
      split <;> simp

/-- A block ends as its text does. -/
theorem getLast?_blockText (text : List Char) (indent : Nat) (broken : Bool) :
    (Layout.blockText indent broken text).getLast? = text.getLast? := by
  induction text generalizing broken with
  | nil => rfl
  | cons x text ih =>
      cases text with
      | nil =>
          simp only [Layout.blockText, Layout.indentLines]
          split <;> simp
      | cons y text =>
          have hne := fun broken => blockText_ne_nil (List.cons_ne_nil y text) indent broken
          simp only [Layout.blockText] at ih hne ⊢
          rw [Layout.indentLines, List.getLast?_cons_cons]
          split
          · rw [← List.singleton_append, getLast?_append_of_ne_nil (hne true), ih]
          · rw [getLast?_append_of_ne_nil (hne false), ih]

/-- A block as it is written: its header, its lines, and the break that ends the last. -/
theorem line_literal {text : List Char} (hne : text ≠ []) (indent : Nat) :
    Layout.line (Layout.literal indent text) =
      Layout.literalHeader text ++ '\n' :: (Layout.blockText indent true text ++
        if text.getLast?.any isBreak then [] else ['\n']) := by
  have hlast : (Layout.literal indent text).getLast? = text.getLast? := by
    rw [← getLast?_blockText text indent true, Layout.literal,
      getLast?_append_of_ne_nil (List.cons_ne_nil _ _), ← List.singleton_append,
      getLast?_append_of_ne_nil (blockText_ne_nil hne indent true)]
  rw [Layout.line, hlast]
  split <;> simp [Layout.literal, Layout.blockText]

/-- The column of a block, where its header tells it. -/
def declared (level : Nat) (text : List Char) : Option Nat :=
  if needsHint text then some (level - 1 + 2) else none

/-- At the end of the line of a header there is nothing but the break. -/
theorem header_end {r : List Char} {c : Cursor} (hrest : c.rest = ['\n'] ++ r) :
    c.skipBlanks.skipComment = c ∧ c.atLineEnd = true ∧ c.newline = c.after ['\n'] := by
  have hspan : c.skipBlanks = c := by
    rw [Cursor.skipBlanks, Cursor.span_eq (t := []) hrest (by simp) rfl]
    rfl
  refine ⟨?_, ?_, Cursor.newline_eq hrest rfl⟩
  · rw [hspan, Cursor.skipComment, Cursor.headIs_eq_false hrest (by decide)]
    rfl
  · rw [Cursor.atLineEnd, hrest]
    rfl

/-- A block by its parts: the header, the empty lines at the beginning, and the other lines. -/
theorem block_eq {text r : List Char} {level widest indent : Nat} {c c₂ c₃ : Cursor}
    {read last breaks breaks' : List Char}
    (hrest : c.rest = Layout.literalHeader text ++ '\n' :: r)
    (hbreaks : blockBreaks (declared level text) (c.after (Layout.literalHeader text ++ ['\n'])).steps
      0 [] (c.after (Layout.literalHeader text ++ ['\n'])) = .ok (widest, breaks, c₂))
    (hindent : (declared level text).getD (max widest (max level 1)) = indent)
    (hlines : blockLines false indent c₂.steps [] [] breaks false c₂ =
      .ok (read, last, breaks', c₃)) :
    block false level c =
      .ok ((match chompingFor text with
        | .strip => read
        | .clip => read ++ last
        | .keep => read ++ last ++ breaks'), c₃) := by
  have hopen : c.rest = ['|'] ++ ((if needsHint text then ['2'] else []) ++
      (chompingFor text).mark ++ '\n' :: r) := by
    rw [hrest, literalHeader_eq]
    simp
  have hrest₁ := Cursor.rest_after hopen
  have hfirst : c.advance 1 = c.after ['|'] := by
    rw [Cursor.after_eq_advance (by decide)]
    rfl
  have hheader := blockHeader_eq hrest₁
  have hrest₂ : ((c.after ['|']).after ((if needsHint text then ['2'] else []) ++
      (chompingFor text).mark)).rest = ['\n'] ++ r := Cursor.rest_after hrest₁
  rcases header_end hrest₂ with ⟨hskip, hend, hnewline⟩
  have hplace : c.after (Layout.literalHeader text ++ ['\n']) =
      ((c.after ['|']).after ((if needsHint text then ['2'] else []) ++
        (chompingFor text).mark)).after ['\n'] := by
    rw [literalHeader_eq, ← Cursor.after_append, ← Cursor.after_append]
    simp
  have hdeclared : (if needsHint text then some 2 else none).map (level - 1 + ·) =
      declared level text := by
    unfold declared
    split <;> rfl
  rw [hplace] at hbreaks
  rw [block, hfirst, hheader]
  simp only [ok_bind, hskip, hend, hnewline, hdeclared, hbreaks, hindent, hlines]
  cases chompingFor text <;> rfl

/-- The beginning of a block up to its first line that is not empty: the header tells the column
where this line or an empty one before it does not. -/
theorem blockBreaks_start (level : Nat) {bs s r : List Char} {x : Char}
    (hprint : ∀ y ∈ bs ++ x :: s, Layout.isPrintable y = true) (hbs : ∀ y ∈ bs, isBreak y = true)
    (hx : isBreak x = false) {c : Cursor} (hc : c.IsSound) (hcolumn : c.column = 0)
    (hrest : c.rest = bs ++ (spaces (level - 1 + 2) ++ x :: r)) :
    ∃ widest, blockBreaks (declared level (bs ++ x :: s)) c.steps 0 [] c =
        .ok (widest, bs, c.after (bs ++ spaces (level - 1 + 2))) ∧
      (declared level (bs ++ x :: s)).getD (max widest (max level 1)) = level - 1 + 2 := by
  have hown : ∀ y ∈ bs, isOwnBreak y = true := fun y hy =>
    Layout.isOwnBreak_of_isPrintable (hprint y (List.mem_append_left _ hy)) (hbs y hy)
  have hfuel : bs.length < c.steps := by
    rw [hc.steps_eq, hrest, List.length_append]
    omega
  cases hhint : needsHint (bs ++ x :: s) with
  | true =>
      rcases blockBreaks_eq hown hcolumn hrest (.inl ⟨rfl, hx⟩) hfuel 0 [] with ⟨widest, hbreaks⟩
      refine ⟨widest, ?_, ?_⟩
      · rw [declared, hhint, if_pos rfl, hbreaks, List.nil_append]
      · rw [declared, hhint, if_pos rfl, Option.getD_some]
  | false =>
      -- without a hint the first line is not empty and tells the column itself
      have hnil : bs = [] := by
        cases bs with
        | nil => rfl
        | cons b bs =>
            rw [needsHint, List.cons_append, List.head?_cons, Option.any_some,
              hbs b List.mem_cons_self, Bool.or_true] at hhint
            cases hhint
      subst hnil
      have hblank : x ≠ ' ' := by
        rintro rfl
        cases hhint
      have hspacing : isSpacing x = false := Bool.eq_false_iff.mpr fun h =>
        hblank (Layout.isSpacing_of_isPrintable (hprint x (by simp)) hx h)
      have hbreaks := blockBreaks_first hspacing hcolumn hrest (Nat.zero_lt_of_lt hfuel)
      refine ⟨level - 1 + 2, ?_, ?_⟩
      · rw [declared, hhint, if_neg Bool.false_ne_true, hbreaks, List.nil_append]
      · rw [declared, hhint, if_neg Bool.false_ne_true, Option.getD_none]
        omega

/-- Behind the header a line begins. -/
theorem header_read {text r : List Char} {c : Cursor} (hc : c.IsSound)
    (hrest : c.rest = Layout.literalHeader text ++ '\n' :: r) :
    (c.after (Layout.literalHeader text ++ ['\n'])).IsSound ∧
      (c.after (Layout.literalHeader text ++ ['\n'])).rest = r ∧
      (c.after (Layout.literalHeader text ++ ['\n'])).column = 0 := by
  have hopen : c.rest = Layout.literalHeader text ++ ['\n'] ++ r := by
    rw [hrest]
    simp
  exact ⟨hc.after hopen, Cursor.rest_after hopen, Cursor.column_after_break c _ rfl⟩

/-- A block of nothing but empty lines. -/
theorem block_empty {text r : List Char} {k level : Nat} (hne : text ≠ [])
    (hbreaks : ∀ x ∈ text, isBreak x = true) (hown : ∀ x ∈ text, isOwnBreak x = true)
    (hk : k < level - 1 + 2) (hr : Stops r) {c : Cursor} (hc : c.IsSound)
    (hrest : c.rest = Layout.literalHeader text ++ '\n' :: (text ++ (spaces k ++ r))) :
    block false level c =
      .ok (text, c.after (Layout.literalHeader text ++ ['\n'] ++ (text ++ spaces k))) := by
  have hdeclared : declared level text = some (level - 1 + 2) := by
    cases text with
    | nil => exact absurd rfl hne
    | cons b bs =>
        have hb := hbreaks b List.mem_cons_self
        unfold declared needsHint
        simp [hb]
  have hlast := getLast?_of_breaks hne hbreaks
  rcases header_read hc hrest with ⟨hsound, hrest', hcolumn⟩
  have hfuel : text.length < (c.after (Layout.literalHeader text ++ ['\n'])).steps := by
    rw [hsound.steps_eq, hrest', List.length_append]
    omega
  rcases blockBreaks_eq hown hcolumn hrest' (.inr ⟨Nat.le_of_lt hk, hr⟩) hfuel 0 [] with
    ⟨widest, hread⟩
  have hstop : ((c.after (Layout.literalHeader text ++ ['\n'])).after (text ++ spaces k)).column ≠
      (declared level text).getD (max widest (max level 1)) := by
    rw [Cursor.column_after_lines_spaces _ hlast, hdeclared, Option.getD_some]
    exact Nat.ne_of_lt hk
  rw [← hdeclared] at hread
  rw [block_eq hrest hread rfl (blockLines_stop hstop _ _ _ _ _), chompingFor_breaks hne hbreaks,
    ← Cursor.after_append]
  simp

/-- The lines of a block of which one is not empty. -/
theorem blockBody_eq {bs core trailing r : List Char} {k level : Nat}
    (hbs : ∀ x ∈ bs, isBreak x = true) (htrailing : ∀ x ∈ trailing, isBreak x = true)
    (hfirst : ∃ x s, core = x :: s ∧ isBreak x = false) (hlast : core.getLast?.any isBreak = false)
    {text : List Char} (htext : text = bs ++ (core ++ trailing))
    (hprint : ∀ x ∈ text, Layout.isPrintable x = true) (hk : k < level - 1 + 2) (hr : Stops r)
    {c : Cursor} (hc : c.IsSound) (hcolumn : c.column = 0)
    (hrest : c.rest = Layout.blockText (level - 1 + 2) true text ++ Layout.lastBreak trailing ++
      (spaces k ++ r)) :
    ∃ widest c', blockBreaks (declared level text) c.steps 0 [] c = .ok (widest, bs, c') ∧
      (declared level text).getD (max widest (max level 1)) = level - 1 + 2 ∧
      blockLines false (level - 1 + 2) c'.steps [] [] bs false c' =
        .ok (bs ++ core, (ending trailing).1, (ending trailing).2,
          c.after (Layout.blockText (level - 1 + 2) true text ++ Layout.lastBreak trailing ++
            spaces k)) := by
  have hown : ∀ x ∈ core ++ trailing, isBreak x = true → isOwnBreak x = true := fun x hx =>
    Layout.isOwnBreak_of_isPrintable (hprint x (htext ▸ List.mem_append_right bs hx))
  have hblock : Layout.blockText (level - 1 + 2) true text = bs ++ spaces (level - 1 + 2) ++
      Layout.blockText (level - 1 + 2) false (core ++ trailing) := by
    rcases hfirst with ⟨x, s, rfl, hx⟩
    rw [htext, Layout.blockText_breaks hbs, List.cons_append, Layout.blockText_indent hx,
      List.append_assoc]
  have hreach : c.rest = (bs ++ spaces (level - 1 + 2)) ++
      (Layout.blockText (level - 1 + 2) false (core ++ trailing) ++ Layout.lastBreak trailing ++
        (spaces k ++ r)) := by
    rw [hrest, hblock]
    simp only [List.append_assoc]
  have hrest' := Cursor.rest_after hreach
  have hsound := hc.after hreach
  have hstart : ∃ widest, blockBreaks (declared level text) c.steps 0 [] c = .ok (widest, bs,
        c.after (bs ++ spaces (level - 1 + 2))) ∧
      (declared level text).getD (max widest (max level 1)) = level - 1 + 2 := by
    rcases hfirst with ⟨x, s, rfl, hx⟩
    rw [List.cons_append, Layout.blockText_cons hx, List.append_assoc bs] at hreach
    rw [List.cons_append] at htext
    rw [htext] at hprint ⊢
    exact blockBreaks_start level hprint hbs hx hc hcolumn hreach
  have hcolumn' : (c.after (bs ++ spaces (level - 1 + 2))).column = level - 1 + 2 := by
    cases bs with
    | nil => rw [List.nil_append, Cursor.column_after_spaces, hcolumn, Nat.zero_add]
    | cons b bs => exact Cursor.column_after_lines_spaces c (getLast?_breaks (l := []) hbs) _
  have hfuel : core.length ≤ (c.after (bs ++ spaces (level - 1 + 2))).steps := by
    have hlength := Layout.length_le_blockText (core ++ trailing) (level - 1 + 2) false
    rw [List.length_append] at hlength
    rw [hsound.steps_eq, hrest', List.length_append, List.length_append]
    omega
  rcases hstart with ⟨widest, hread, hindent⟩
  refine ⟨widest, _, hread, hindent, ?_⟩
  rw [blockLines_eq hfirst hlast (fun x hx => hown x (List.mem_append_left _ hx))
    (fun x hx => hown x (List.mem_append_right _ hx) (htrailing x hx)) hk hr hsound hcolumn' hrest'
    hfuel [] [] bs false, ← Cursor.after_append, hblock]
  simp only [List.nil_append, List.append_assoc]

/-- A block with a line that is not empty. -/
theorem block_filled {bs core trailing r : List Char} {k level : Nat}
    (hbs : ∀ x ∈ bs, isBreak x = true) (htrailing : ∀ x ∈ trailing, isBreak x = true)
    (hfirst : ∃ x s, core = x :: s ∧ isBreak x = false)
    (hlast : core.getLast?.any isBreak = false) {text : List Char}
    (htext : text = bs ++ (core ++ trailing)) (hprint : ∀ x ∈ text, Layout.isPrintable x = true)
    (hk : k < level - 1 + 2) (hr : Stops r) {c : Cursor} (hc : c.IsSound)
    (hrest : c.rest = Layout.literalHeader text ++ '\n' ::
      (Layout.blockText (level - 1 + 2) true text ++ Layout.lastBreak trailing ++
        (spaces k ++ r))) :
    block false level c =
      .ok (text, c.after (Layout.literalHeader text ++ ['\n'] ++
        (Layout.blockText (level - 1 + 2) true text ++ Layout.lastBreak trailing ++
          spaces k))) := by
  rcases header_read hc hrest with ⟨hsound, hrest', hcolumn⟩
  rcases blockBody_eq hbs htrailing hfirst hlast htext hprint hk hr hsound hcolumn hrest' with
    ⟨widest, c', hread, hindent, hlines⟩
  have hne : core ≠ [] := by
    rcases hfirst with ⟨x, s, rfl, _⟩
    exact List.cons_ne_nil x s
  have hchomped := chomped bs hne hlast htrailing
  rw [List.append_assoc, ← htext] at hchomped
  rw [block_eq hrest hread hindent hlines, hchomped, ← Cursor.after_append]

/-- What stands in a block, up to the line behind it. -/
theorem block_literal {text r : List Char} {k level : Nat} (hne : text ≠ [])
    (hprint : ∀ x ∈ text, Layout.isPrintable x = true) (hk : k < level - 1 + 2) (hr : Stops r)
    {c : Cursor} (hc : c.IsSound)
    (hrest : c.rest = Layout.line (Layout.literal (level - 1 + 2) text) ++ (spaces k ++ r)) :
    block false level c =
      .ok (text, c.after (Layout.line (Layout.literal (level - 1 + 2) text) ++ spaces k)) := by
  rcases exists_core text with ⟨bs, core, trailing, htext, hbs, htrailing, hcore⟩
  rw [line_literal hne, List.append_assoc, List.cons_append] at hrest
  have hplace : ∀ u : List Char, Layout.literalHeader text ++ '\n' :: u =
      Layout.literalHeader text ++ ['\n'] ++ u := fun u => by simp
  rw [line_literal hne, hplace, List.append_assoc (Layout.literalHeader text ++ ['\n'])]
  -- a text of nothing but breaks has no last line, and so no break is added to it
  rcases hcore with ⟨rfl, rfl⟩ | ⟨hfirst, hlast⟩
  · rw [List.append_nil, List.append_nil] at htext
    subst htext
    have hblock : Layout.blockText (level - 1 + 2) true text = text := by
      have hlines := Layout.blockText_breaks hbs (level - 1 + 2) []
      rw [List.append_nil] at hlines
      exact hlines.trans (List.append_nil _)
    rw [hblock, getLast?_of_breaks hne hbs, if_pos rfl, List.append_nil] at hrest ⊢
    exact block_empty hne hbs (fun x hx => Layout.isOwnBreak_of_isPrintable (hprint x hx)
      (hbs x hx)) hk hr hc hrest
  · have htail : (if text.getLast?.any isBreak then [] else ['\n']) =
        Layout.lastBreak trailing := by
      cases trailing with
      | nil =>
          rcases hfirst with ⟨x, s, rfl, _⟩
          rw [htext, List.append_nil, getLast?_append_of_ne_nil (List.cons_ne_nil x s), hlast]
          rfl
      | cons b trailing =>
          rw [htext, getLast?_breaks htrailing]
          rfl
    rw [htail] at hrest ⊢
    rw [List.append_assoc] at htext
    exact block_filled hbs htrailing hfirst hlast htext hprint hk hr hc hrest

end Scalar

end OperatorBundle.Yaml
