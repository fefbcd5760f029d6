import OperatorBundle.Yaml.Cursor
import OperatorBundle.Yaml.Defect

/-!
# Scalars

The three ways to write a scalar: plain words, quoted text, and blocks of indented lines.  Each
reader yields the contents, with line breaks folded and escapes replaced, and the place behind.
-/

namespace OperatorBundle.Yaml.Scalar

/-! ## Plain -/

/-- The longest word of a plain scalar at the head of a text.  A colon before spacing ends it, and
in a flow collection so does a flow indicator; a colon directly before a flow indicator or a
question mark is refused there. -/
def plainWord? (inFlow : Bool) : List Char → Option (List Char)
  | [] => some []
  | c :: r =>
      if isSpacing c then some []
      else if inFlow && c == ':' &&
          (r.head?.any fun d => isFlowIndicator d || d == '?') then none
      else if (c == ':' && atWordEnd r) || (inFlow && isFlowIndicator c) then some []
      else (plainWord? inFlow r).map (c :: ·)

/-- Reads words and the gaps between them.  `gap` lies between `text` and the cursor and is dropped
if no word follows.  Outside of flow collections a line to the left of column `indent` ends the
scalar.  The flag of the result says that a line break was read behind the last word. -/
def plainWords (inFlow : Bool) (indent : Nat) :
    Nat → List Char → Gap → Cursor → Except Defect (List Char × Bool × Cursor)
  | 0, text, gap, c => .ok (text, !gap.breaks.isEmpty, c)
  | n + 1, text, gap, c => do
      if c.atDocumentMarker || c.headIs '#' then
        return (text, !gap.breaks.isEmpty, c)
      let some word := plainWord? inFlow c.rest | throw .token
      if word.isEmpty then
        return (text, !gap.breaks.isEmpty, c)
      let c := c.advance word.length
      let text := text ++ gap.folded ++ word
      if !(c.rest.head?.any isSpacing) then
        return (text, false, c)
      let some (gap, c) := Gap.read? indent c.steps false {} c | throw .token
      if !inFlow && c.column < indent then
        return (text, !gap.breaks.isEmpty, c)
      plainWords inFlow indent n text gap c

/-- The plain scalar at a cursor. -/
def plain (inFlow : Bool) (indent : Nat) (c : Cursor) :
    Except Defect (List Char × Bool × Cursor) :=
  plainWords inFlow indent c.steps [] {} c

/-! ## Quoted -/

/-- What a backslash and one character stand for. -/
def escape? : Char → Option Char
  | '0' => some '\x00'
  | 'a' => some '\x07'
  | 'b' => some '\x08'
  | 't' | '\t' => some '\t'
  | 'n' => some '\n'
  | 'v' => some '\x0B'
  | 'f' => some '\x0C'
  | 'r' => some '\r'
  | 'e' => some '\x1B'
  | ' ' => some ' '
  | '"' => some '"'
  | '/' => some '/'
  | '\\' => some '\\'
  | 'N' => some '\x85'
  | '_' => some '\xA0'
  | 'L' => some '\u2028'
  | 'P' => some '\u2029'
  | _ => none

/-- How many hexadecimal digits follow a backslash and this character. -/
def escapeWidth? : Char → Option Nat
  | 'x' => some 2
  | 'u' => some 4
  | 'U' => some 8
  | _ => none

/-- The character that `width` hexadecimal digits at the head of a text stand for. -/
def escapedCode? (width : Nat) (text : List Char) : Option Char :=
  let digits := text.take width
  if digits.length == width then hexNumber? digits >>= charOfCode? else none

/-- Reads a word inside quotes, up to spacing or the closing quote.  The flag of the result says
that the word ended in an escaped line break, which is then already read. -/
def quotedWord (double : Bool) :
    Nat → List Char → Cursor → Except Defect (List Char × Bool × Cursor)
  | 0, word, c => .ok (word, false, c)
  | n + 1, word, c =>
      match c.rest with
      | [] => .ok (word, false, c)
      | x :: r =>
          if isSpacing x then .ok (word, false, c)
          else if !double then
            match x, r with
            | '\'', '\'' :: _ => quotedWord double n (word ++ ['\'']) (c.advance 2)
            | '\'', _ => .ok (word, false, c)
            | _, _ => quotedWord double n (word ++ [x]) (c.advance 1)
          else if x == '"' then .ok (word, false, c)
          else if x != '\\' then quotedWord double n (word ++ [x]) (c.advance 1)
          else
            match r with
            | [] => .error .token
            | y :: s =>
                if isBreak y then .ok (word, true, (c.advance 1).newline)
                else
                  match escape? y, escapeWidth? y with
                  | some z, _ => quotedWord double n (word ++ [z]) (c.advance 2)
                  | none, none => .error .token
                  | none, some width =>
                      match escapedCode? width s with
                      | some z => quotedWord double n (word ++ [z]) (c.advance (2 + width))
                      | none => .error .token

/-- Reads words and the gaps between them up to the closing quote. -/
def quotedWords (double : Bool) : Nat → List Char → Cursor → Except Defect (List Char × Cursor)
  | 0, _, _ => .error .token
  | n + 1, text, c => do
      if c.atDocumentMarker || c.rest.isEmpty then
        throw .token
      let (word, joined, c) ← quotedWord double c.steps [] c
      if c.headIs (if double then '"' else '\'') then
        return (text ++ word, c.advance 1)
      let some (gap, c) := Gap.read? 0 c.steps joined {} c | throw .token
      quotedWords double n (text ++ word ++ if joined then gap.breaks else gap.folded) c

/-- The quoted scalar at a cursor. -/
def quoted (double : Bool) (c : Cursor) : Except Defect (List Char × Cursor) :=
  let c := c.advance 1
  quotedWords double c.steps [] c

/-! ## Blocks -/

/-- What happens to the line breaks at the end of a block. -/
inductive Chomping where
  | strip
  | clip
  | keep
deriving DecidableEq, Repr

/-- Reads one chomping indicator. -/
def chomping? (c : Cursor) : Option (Chomping × Cursor) :=
  if c.headIs '+' then some (.keep, c.advance 1)
  else if c.headIs '-' then some (.strip, c.advance 1)
  else none

/-- Reads one indentation indicator, a digit other than zero. -/
def indentation? (c : Cursor) : Except Defect (Option Nat × Cursor) :=
  match c.rest.head? with
  | some x =>
      if !isDigit x then .ok (none, c)
      else if x == '0' then .error .token
      else .ok (some (x.toNat - '0'.toNat), c.advance 1)
  | none => .ok (none, c)

/-- Reads the indicators of a block, which stand in either order. -/
def blockHeader (c : Cursor) : Except Defect (Chomping × Option Nat × Cursor) := do
  match chomping? c with
  | some (chomping, c) =>
      let (indentation, c) ← indentation? c
      return (chomping, indentation, c)
  | none =>
      let (indentation, c) ← indentation? c
      match indentation, chomping? c with
      | some _, some (chomping, c) => return (chomping, indentation, c)
      | _, _ => return (.clip, indentation, c)

/-- Reads the indentation of lines and the breaks of those that hold nothing else.  While the column
of the block is not known every space counts as indentation, and `widest` is the greatest column
reached.  A tab in the indentation is refused. -/
def blockBreaks (indent : Option Nat) :
    Nat → Nat → List Char → Cursor → Except Defect (Nat × List Char × Cursor)
  | 0, widest, breaks, c => .ok (widest, breaks, c)
  | n + 1, widest, breaks, c =>
      let spaces := (c.rest.takeWhile (· == ' ')).length
      let c := c.advance (match indent with | none => spaces | some i => min spaces (i - c.column))
      let widest := max widest c.column
      if (indent.all (c.column < ·)) && c.headIs '\t' then .error .token
      else if c.rest.head?.any isBreak then
        blockBreaks indent n widest (breaks ++ c.breakText) c.newline
      else .ok (widest, breaks, c)

/-- Reads the lines of a block at column `indent`.  `last` is the break that ended the line before,
`breaks` those of the empty lines since, and `lead` says that the line before began with a blank.
A folded block joins two lines that begin with no blank. -/
def blockLines (folds : Bool) (indent : Nat) :
    Nat → List Char → List Char → List Char → Bool → Cursor →
      Except Defect (List Char × List Char × List Char × Cursor)
  | 0, text, last, breaks, _, c => .ok (text, last, breaks, c)
  | n + 1, text, last, breaks, lead, c => do
      if c.column != indent || c.rest.isEmpty then
        return (text, last, breaks, c)
      let blank := c.rest.head?.any isBlank
      let text :=
        if folds && last == ['\n'] && !lead && !blank then
          if breaks.isEmpty then text ++ [' '] else text ++ breaks
        else text ++ last ++ breaks
      let (line, c) := c.span (!isBreak ·)
      let last := c.breakText
      let c := c.newline
      let (_, breaks, c) ← blockBreaks (some indent) c.steps 0 [] c
      blockLines folds indent n (text ++ line) last breaks blank c

/-- The block scalar at a cursor, inside block collections whose columns are all less than
`level`. -/
def block (folds : Bool) (level : Nat) (c : Cursor) : Except Defect (List Char × Cursor) := do
  let (chomping, increment, c) ← blockHeader (c.advance 1)
  let c := c.skipBlanks.skipComment
  if !c.atLineEnd then
    throw .token
  let c := c.newline
  let declared := increment.map (level - 1 + ·)
  let (widest, breaks, c) ← blockBreaks declared c.steps 0 [] c
  let indent := declared.getD (max widest (max level 1))
  let (text, last, breaks, c) ← blockLines folds indent c.steps [] [] breaks false c
  match chomping with
  | .strip => return (text, c)
  | .clip => return (text ++ last, c)
  | .keep => return (text ++ last ++ breaks, c)

end OperatorBundle.Yaml.Scalar
