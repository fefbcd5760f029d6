import OperatorBundle.Proofs.Yaml.Continued.Reader
import OperatorBundle.Proofs.Yaml.Scalar.Literal

/-!
# Block scalars in texts that go on

The lines of a block are indented, and so the line `---` is none of them.
-/

namespace OperatorBundle.Yaml.Scalar

variable {more : List Char} {c : Cursor} {n n' : Nat}

/-! ## Indicators -/

/-- An indentation indicator is read in the longer text as well. -/
theorem reads_indentation? (hne : c.rest ≠ []) :
    Reads Cursor.PassesChar more c (indentation? c) (indentation? (c.extend more)) := by
  obtain ⟨x, r, hrest⟩ := List.exists_cons_of_ne_nil hne
  unfold indentation?
  rw [Cursor.rest_extend, hrest, List.cons_append, List.head?_cons, List.head?_cons]
  dsimp only
  refine .ite (fun _ => .ok .refl) fun hdigit => .ite (fun _ => .error _ _) fun _ => ?_
  have hx : isBreak x = false :=
    isBreak_eq_false_of (p := isDigit) (by decide) (by simpa using hdigit)
  rw [Cursor.advance_one_extend hrest]
  exact .ok (.single (.char hrest hx))

/-- A chomping indicator is not affected by lines behind it. -/
theorem chomping?_extend (hmore : IsDocumentLine more) (hne : c.rest ≠ []) :
    chomping? (c.extend more) = (chomping? c).map fun read => (read.1, read.2.extend more) := by
  have hpos := List.length_pos_iff.mpr hne
  unfold chomping?
  rw [Cursor.headIs_extend hmore fun h => absurd h hne,
    Cursor.headIs_extend hmore fun h => absurd h hne, Cursor.advance_extend hpos]
  split
  · rfl
  · split
    · rfl
    · rfl

theorem along_chomping? {chomping : Chomping} {c' : Cursor}
    (h : chomping? c = some (chomping, c')) : c.Along c' := by
  have hsign : ∀ x, (x = '+' ∨ x = '-') → c.headIs x = true → c.Along (c.advance 1) := by
    rintro x hx hhead
    obtain ⟨r, hrest⟩ := Cursor.exists_of_headIs hhead
    refine .single (.char hrest ?_)
    rcases hx with rfl | rfl <;> rfl
  unfold chomping? at h
  split at h
  · rename_i hplus
    cases h
    exact hsign '+' (.inl rfl) hplus
  · split at h
    · rename_i hminus
      cases h
      exact hsign '-' (.inr rfl) hminus
    · cases h

/-- The indicators of a block stand on its first line. -/
theorem reads_blockHeader (hmore : IsDocumentLine more) (hc : c.EndsLine) (hne : c.rest ≠ []) :
    Reads Cursor.PassesChar more c (blockHeader c) (blockHeader (c.extend more)) := by
  unfold blockHeader
  rw [chomping?_extend hmore hne]
  -- the two indicators stand in either order
  cases hchomping : chomping? c with
  | some read =>
      obtain ⟨chomping, next⟩ := read
      have halong := along_chomping? hchomping
      obtain ⟨hnext, hleft⟩ := hc.along hne halong
      exact .trans halong (.bind (reads_indentation? hleft) fun _ _ _ => .ok .refl)
  | none =>
      refine .bind (reads_indentation? hne) ?_
      rintro ⟨indentation, next⟩ - (halong : c.Along next)
      obtain ⟨hnext, hleft⟩ := hc.along hne halong
      dsimp only [Placed.extend, Placed.place]
      rw [chomping?_extend hmore hleft]
      cases indentation with
      | none => exact .ok .refl
      | some width =>
          cases hchomping' : chomping? next with
          | none => exact .ok .refl
          | some read => exact .ok (along_chomping? hchomping')

/-- An indentation indicator is not zero. -/
theorem indentation?_pos {width : Nat} {c' : Cursor}
    (h : indentation? c = .ok (some width, c')) : 0 < width := by
  unfold indentation? at h
  split at h
  · rename_i x _
    split at h
    · cases h
    · rename_i hdigit
      split at h
      · cases h
      · rename_i hzero
        cases h
        have hdigit : isDigit x = true := by simpa using hdigit
        unfold isDigit at hdigit
        rw [Bool.and_eq_true, decide_eq_true_iff, decide_eq_true_iff] at hdigit
        have hle : '0'.toNat ≤ x.toNat := hdigit.1
        have hne : x.toNat ≠ '0'.toNat := fun heq => hzero (beq_iff_eq.mpr (Char.toNat_inj.mp heq))
        omega
  · cases h

/-- The header of a block scalar indicates no indentation of zero. -/
theorem blockHeader_pos {chomping : Chomping} {width : Nat} {c' : Cursor}
    (h : blockHeader c = .ok (chomping, some width, c')) : 0 < width := by
  unfold blockHeader at h
  split at h
  · obtain ⟨⟨indentation, next⟩, hread, h⟩ := bind_eq_ok_iff.mp h
    cases h
    exact indentation?_pos hread
  · obtain ⟨⟨indentation, next⟩, hread, h⟩ := bind_eq_ok_iff.mp h
    dsimp only at h
    split at h
    · cases h
      exact indentation?_pos hread
    · cases h
      exact indentation?_pos hread

/-- How many of the spaces at a place are indentation. -/
def indentWidth (indent : Option Nat) (c : Cursor) : Nat :=
  match indent with
  | none => (c.rest.takeWhile (· == ' ')).length
  | some i => min (c.rest.takeWhile (· == ' ')).length (i - c.column)

/-- Indentation is made of spaces. -/
theorem indentWidth_le (indent : Option Nat) (c : Cursor) :
    indentWidth indent c ≤ (c.rest.takeWhile (· == ' ')).length := by
  cases indent with
  | none => exact Nat.le_refl _
  | some i => exact Nat.min_le_left _ _

/-- The indentation of a line is not affected by lines behind it. -/
theorem indentWidth_extend (hc : c.EndsLine) (hne : c.rest ≠ []) (indent : Option Nat) :
    indentWidth indent (c.extend more) = indentWidth indent c := by
  unfold indentWidth
  rw [Cursor.rest_extend, Cursor.column_extend,
    Cursor.takeWhile_append_line (p := (· == ' ')) (hc.last hne) rfl]

theorem along_indentWidth (indent : Option Nat) (c : Cursor) :
    c.Along (c.advance (indentWidth indent c)) := by
  have hle := indentWidth_le indent c
  have hlength := Nat.le_trans hle (List.takeWhile_prefix _).length_le
  have hspaces : ∀ x ∈ c.rest.take (indentWidth indent c), isBreak x = false := by
    intro x hx
    have hinside := List.prefix_of_prefix_length_le (List.take_prefix (indentWidth indent c) c.rest)
      (List.takeWhile_prefix (· == ' ')) (by rw [List.length_take]; omega)
    have hspace := List.mem_takeWhile_imp (hinside.subset hx)
    rw [beq_iff_eq.mp hspace]
    rfl
  have halong := Cursor.along_word (List.take_append_drop _ c.rest).symm hspaces
  rwa [List.length_take, Nat.min_eq_left hlength] at halong

/-- Empty lines in front of a block scalar's text are read one at a time. -/
theorem blockBreaks_succ {indent : Option Nat} {next : Cursor}
    (hnext : c.advance (indentWidth indent c) = next) (n widest : Nat) (breaks : List Char) :
    blockBreaks indent (n + 1) widest breaks c =
      if indent.all (next.column < ·) && next.headIs '\t' then .error .token
      else if next.rest.head?.any isBreak then
        blockBreaks indent n (max widest next.column) (breaks ++ next.breakText) next.newline
      else .ok (max widest next.column, breaks, next) := by
  subst hnext
  cases indent <;> rfl

/-- Nothing is read where a line begins with a word. -/
theorem blockBreaks_stop (hcolumn : c.column = 0) (hstops : Stops c.rest) (indent : Option Nat)
    (n widest : Nat) (breaks : List Char) :
    blockBreaks indent n widest breaks c = .ok (widest, breaks, c) := by
  cases n with
  | zero => rfl
  | succ n =>
      have hhead : ∀ x, isSpacing x = true → c.headIs x = false := by
        intro x hx
        refine Bool.eq_false_iff.mpr fun hhead => ?_
        obtain ⟨r, hrest⟩ := Cursor.exists_of_headIs hhead
        rw [hrest] at hstops
        exact Bool.false_ne_true (hstops.symm.trans hx)
      have hbreak : c.rest.head?.any isBreak = false := by
        cases hrest : c.rest with
        | nil => rfl
        | cons x r =>
            rw [hrest] at hstops
            exact isBreak_eq_false hstops
      have hspaces : c.rest.takeWhile (· == ' ') = [] := by
        cases hrest : c.rest with
        | nil => rfl
        | cons x r =>
            have hx : x ≠ ' ' := by
              rintro rfl
              rw [hrest] at hstops
              cases hstops
            rw [List.takeWhile_cons, beq_eq_false_iff_ne.mpr hx]
            rfl
      have hwidth : indentWidth indent c = 0 := by
        have hle := indentWidth_le indent c
        rw [hspaces] at hle
        exact Nat.le_zero.mp hle
      have hnext : c.advance (indentWidth indent c) = c := by rw [hwidth, Cursor.advance_zero]
      rw [blockBreaks_succ hnext, hhead '\t' rfl, hbreak, hcolumn, Bool.and_false, Nat.max_zero]
      rfl

/-- Empty lines are read alike, however many steps more than there are characters may be taken. -/
theorem reads_blockBreaks (hmore : IsDocumentLine more) {indent : Option Nat} {widest : Nat}
    {breaks : List Char} (hc : c.EndsLine) (hn : c.rest.length ≤ n) (hn' : c.rest.length ≤ n') :
    Reads Cursor.Passes more c (blockBreaks indent n widest breaks c)
      (blockBreaks indent n' widest breaks (c.extend more)) := by
  induction n generalizing n' widest breaks c with
  | zero =>
      have hrest : c.rest = [] := List.eq_nil_of_length_eq_zero (Nat.le_zero.mp hn)
      rw [blockBreaks_stop (c := c.extend more) (hc.column hrest) (stops_extend hmore hrest)]
      exact .ok .refl
  | succ n ih =>
      by_cases hrest : c.rest = []
      · rw [blockBreaks_stop (hc.column hrest) (by rw [hrest]; exact Stops.nil),
          blockBreaks_stop (c := c.extend more) (hc.column hrest) (stops_extend hmore hrest)]
        exact .ok .refl
      · have hpos := List.length_pos_iff.mpr hrest
        obtain ⟨n', rfl⟩ := Nat.exists_eq_add_one.mpr (Nat.lt_of_lt_of_le hpos hn')
        -- past the spaces a break is passed, and fewer characters are left for the other lines
        have halong := along_indentWidth indent c
        have hwidth := Nat.le_trans (indentWidth_le indent c) (List.takeWhile_prefix _).length_le
        have hsame : (c.extend more).advance (indentWidth indent (c.extend more)) =
            (c.advance (indentWidth indent c)).extend more := by
          rw [indentWidth_extend hc hrest, Cursor.advance_extend hwidth]
        rw [blockBreaks_succ rfl, blockBreaks_succ hsame]
        generalize c.advance (indentWidth indent c) = next at halong
        obtain ⟨hnext, hleft⟩ := hc.along hrest halong
        have hshorter := halong.reaches.length_le
        rw [Cursor.column_extend, Cursor.headIs_extend hmore fun h => absurd h hleft,
          Cursor.head?_any_extend hmore fun h => absurd h hleft, Cursor.breakText_extend hleft,
          Cursor.newline_extend hnext hleft]
        refine .ite (fun _ => .error _ _) fun _ => .ite (fun hbreak => ?_) fun _ =>
          .ok halong.reaches
        have hpass := Cursor.passes_break hbreak
        have hless := hpass.length_lt
        exact .trans (halong.reaches.tail hpass) (ih (hnext.passes hpass) (by omega) (by omega))

/-- Empty lines in front of the text are read in the longer text as well. -/
theorem reads_emptyLines (hmore : IsDocumentLine more) {indent : Option Nat} {widest : Nat}
    {breaks : List Char} (hc : c.EndsLine) :
    Reads Cursor.Passes more c (blockBreaks indent c.steps widest breaks c)
      (blockBreaks indent (c.extend more).steps widest breaks (c.extend more)) :=
  reads_blockBreaks hmore hc hc.length_le_steps (hc.length_le_steps_extend more)

/-- The lines of a block end with the text, where a line to their left begins. -/
theorem reads_blockLines (hmore : IsDocumentLine more) {folds lead : Bool} {indent : Nat}
    {text last breaks : List Char} (hindent : 0 < indent) (hc : c.EndsLine)
    (hn : c.rest.length ≤ n) (hn' : c.rest.length ≤ n') :
    Reads Cursor.Passes more c (blockLines folds indent n text last breaks lead c)
      (blockLines folds indent n' text last breaks lead (c.extend more)) := by
  induction n generalizing n' text last breaks lead c with
  | zero =>
      have hrest : c.rest = [] := List.eq_nil_of_length_eq_zero (Nat.le_zero.mp hn)
      have hcolumn : (c.extend more).column ≠ indent := by
        rw [Cursor.column_extend, hc.column hrest]
        exact Nat.ne_of_lt hindent
      rw [blockLines_stop hcolumn]
      exact .ok .refl
  | succ n ih =>
      by_cases hrest : c.rest = []
      · have hcolumn : c.column ≠ indent := by
          rw [hc.column hrest]
          exact Nat.ne_of_lt hindent
        rw [blockLines_stop hcolumn, blockLines_stop (c := c.extend more) hcolumn]
        exact .ok .refl
      · have hpos := List.length_pos_iff.mpr hrest
        obtain ⟨n', rfl⟩ := Nat.exists_eq_add_one.mpr (Nat.lt_of_lt_of_le hpos hn')
        have hempty : c.rest.isEmpty = false ∧ (c.rest ++ more).isEmpty = false := by
          obtain ⟨x, r, hx⟩ := List.exists_cons_of_ne_nil hrest
          rw [hx]
          exact ⟨rfl, rfl⟩
        -- a line is passed with its break, and then the empty lines behind it
        have halong := Cursor.along_skipLine c
        obtain ⟨hnext, hleft⟩ := hc.along hrest halong
        have hpass := Cursor.passes_skipLine hleft
        have hreaches := halong.reaches.tail hpass
        have hline := hc.reaches hreaches
        have hless := Nat.lt_of_lt_of_le hpass.length_lt halong.reaches.length_le
        have hskip : (c.span (!isBreak ·)).2 = c.skipLine := rfl
        unfold blockLines
        rw [Cursor.column_extend, Cursor.head?_any_extend hmore fun h => absurd h hrest,
          Cursor.span_extend hmore hc rfl fun h => absurd h hrest, Cursor.rest_extend, hempty.1,
          hempty.2]
        dsimp only
        rw [hskip, Cursor.breakText_extend hleft, Cursor.newline_extend hnext hleft]
        refine .ite (fun _ => .ok .refl) fun _ =>
          .trans hreaches (.bind (reads_emptyLines hmore hline) ?_)
        rintro ⟨widest, breaks, behind⟩ - (hbehind : Cursor.Reaches _ behind)
        have hshorter := hbehind.length_le
        have hn : behind.rest.length ≤ n := by omega
        have hn' : behind.rest.length ≤ n' := by omega
        exact ih (hline.reaches hbehind) hn hn'

/-- A block without declared indentation is indented by one column at least. -/
theorem blockIndent_pos {chomping : Chomping} {increment : Option Nat} {c' : Cursor}
    (h : blockHeader c = .ok (chomping, increment, c')) (level widest : Nat) :
    0 < (increment.map (level - 1 + ·)).getD (max widest (max level 1)) := by
  cases increment with
  | none =>
      rw [Option.map_none, Option.getD_none]
      omega
  | some width =>
      have hpos := blockHeader_pos h
      rw [Option.map_some, Option.getD_some]
      omega

/-- A block scalar is read in the longer text as well. -/
theorem reads_block (hmore : IsDocumentLine more) {folds : Bool} {level : Nat} {x : Char}
    {r : List Char} (hc : c.EndsLine) (hrest : c.rest = x :: r) (hx : isBreak x = false) :
    Reads Cursor.Passes more (c.advance 1) (block folds level c)
      (block folds level (c.extend more)) := by
  obtain ⟨-, hfirst, hleft⟩ := hc.first hrest hx
  unfold block
  rw [Cursor.advance_one_extend hrest]
  refine .bind (reads_blockHeader hmore hfirst hleft).reaches ?_
  rintro ⟨chomping, increment, behind⟩ hheader -
  obtain ⟨-, hheaded⟩ := reads_blockHeader hmore hfirst hleft _ hheader
  obtain ⟨hbehind, hmark⟩ : behind.EndsLine ∧ behind.rest ≠ [] := hfirst.along hleft hheaded
  have halong := Cursor.along_lineRest behind
  obtain ⟨hlast, hbreak⟩ := hbehind.along hmark halong
  dsimp only [Placed.extend, Placed.place]
  rw [Cursor.lineRest_extend hmore hbehind, Cursor.atLineEnd_extend hbreak,
    Cursor.newline_extend hlast hbreak]
  refine .trans halong.reaches (.ite (fun _ => .error _ _) fun hend => ?_)
  have hpass := Cursor.passes_newline hbreak (by simpa using hend)
  have hline := hlast.passes hpass
  refine .trans (.single hpass) (.bind (reads_emptyLines hmore hline) ?_)
  rintro ⟨widest, breaks, inside⟩ - (hinside : Cursor.Reaches _ inside)
  have hinside : inside.EndsLine := hline.reaches hinside
  refine .bind (reads_blockLines hmore (blockIndent_pos hheader level widest) hinside
    hinside.length_le_steps (hinside.length_le_steps_extend more)) ?_
  rintro ⟨text, last, breaks, behind⟩ - -
  cases chomping <;> exact .ok .refl

end OperatorBundle.Yaml.Scalar
