import OperatorBundle.Yaml.Character

/-!
# A place in a text

A `Cursor` is what is left of a text together with the line and column where it starts.  All
reading of tokens goes through the few steps defined here.
-/

namespace OperatorBundle.Yaml

/-- A place in a text.  Lines, columns and characters are counted from zero. -/
structure Cursor where
  /-- What is still to be read. -/
  rest : List Char
  /-- How many characters stand before. -/
  index : Nat
  line : Nat
  column : Nat
  /-- The length of the whole text. -/
  total : Nat
deriving Repr, Inhabited

namespace Cursor

/-- The start of a text. -/
def ofText (text : List Char) : Cursor :=
  ⟨text, 0, 0, 0, text.length⟩

/-- More steps than can be taken from here when each reads a character. -/
def steps (c : Cursor) : Nat := c.total - c.index + 1

/-- The place `n` characters further on the same line. -/
def advance (c : Cursor) (n : Nat) : Cursor :=
  { c with rest := c.rest.drop n, index := c.index + n, column := c.column + n }

/-- The start of the next line, for a cursor at a line break.  A carriage return and the line feed
after it are one break. -/
def newline (c : Cursor) : Cursor :=
  match c.rest with
  | '\r' :: '\n' :: r => { c with rest := r, index := c.index + 2, line := c.line + 1, column := 0 }
  | _ :: r => { c with rest := r, index := c.index + 1, line := c.line + 1, column := 0 }
  | [] => c

/-- What the line break at a cursor reads as; nothing at the end of the text. -/
def breakText (c : Cursor) : List Char :=
  match c.rest with
  | [] => []
  | x :: _ => if isLineSeparator x then [x] else ['\n']

/-- Is `x` the next character? -/
def headIs (c : Cursor) (x : Char) : Bool := c.rest.head? == some x

/-- Does the text end here, or a line break follow? -/
def atLineEnd (c : Cursor) : Bool :=
  match c.rest with
  | [] => true
  | x :: _ => isBreak x

/-- Does a line start here with the three characters `mark`, as a word of its own? -/
def atMarker (c : Cursor) (mark : Char) : Bool :=
  c.column == 0 &&
    match c.rest with
    | x :: y :: z :: r => x == mark && y == mark && z == mark && atWordEnd r
    | _ => false

/-- Does one of the lines `---` and `...` start here, which end a document? -/
def atDocumentMarker (c : Cursor) : Bool :=
  c.atMarker '-' || c.atMarker '.'

/-- The characters up to the first that fails `p`, and the place behind them.  No line break may
pass `p`. -/
def span (c : Cursor) (p : Char → Bool) : List Char × Cursor :=
  let word := c.rest.takeWhile p
  (word, c.advance word.length)

/-- The place behind the blanks that follow. -/
def skipBlanks (c : Cursor) : Cursor := (c.span isBlank).2

/-- The place behind the rest of the line, its break excluded. -/
def skipLine (c : Cursor) : Cursor := (c.span (!isBreak ·)).2

/-- The place behind a comment, if one starts here. -/
def skipComment (c : Cursor) : Cursor :=
  if c.headIs '#' then c.skipLine else c

end Cursor

/-! ## Space between words -/

/-- The blanks and line breaks between two words of a scalar. -/
structure Gap where
  /-- The blanks before the first line break. -/
  blanks : List Char := []
  /-- What each line break reads as. -/
  breaks : List Char := []
deriving Repr, Inhabited

namespace Gap

/-- What a gap contributes to a scalar: blanks as they are, a single line feed as a space, and of
several line breaks all but a leading line feed. -/
def folded (g : Gap) : List Char :=
  match g.breaks with
  | [] => g.blanks
  | ['\n'] => [' ']
  | '\n' :: more => more
  | breaks => breaks

/-- Reads a gap.  `broken` says that a line break went before, so that blanks are indentation; a tab
in the indentation of a line to the left of column `indent` is refused by `none`. -/
def read? (indent : Nat) : Nat → Bool → Gap → Cursor → Option (Gap × Cursor)
  | 0, _, gap, c => some (gap, c)
  | n + 1, broken, gap, c =>
      match c.rest with
      | [] => some (gap, c)
      | x :: _ =>
          if isBlank x then
            if !broken then
              read? indent n false { gap with blanks := gap.blanks ++ [x] } (c.advance 1)
            else if x == '\t' && c.column < indent then none
            else read? indent n true gap (c.advance 1)
          else if isBreak x then
            read? indent n true { gap with breaks := gap.breaks ++ c.breakText } c.newline
          else some (gap, c)

end Gap

end OperatorBundle.Yaml
