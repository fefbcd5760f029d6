import OperatorBundle.Yaml.Value.Scalar

/-!
# How scalars are written

A string is written plain where it can be, in single quotes where its spelling would give it another
type or its characters would be taken for indicators, as a block if it has several lines, and in
double quotes where some character needs an escape.
-/

namespace OperatorBundle.Yaml.Layout

/-- The ways to write a string. -/
inductive Style where
  | plain
  | single
  | double
  | literal
deriving DecidableEq, Repr

/-! ## What a text is made of -/

/-- Can this character be written as it is? -/
def isPrintable (c : Char) : Bool :=
  let n := c.toNat
  n == 0x0A || (0x20 ≤ n && n ≤ 0x7E) ||
    (0xA0 ≤ n && n ≤ 0xFFFD && c != byteOrderMark) || 0x10000 ≤ n

/-- Do two neighbours pass `p` and `q`? -/
def hasNeighbours (p q : Char → Bool) : List Char → Bool
  | a :: b :: r => (p a && q b) || hasNeighbours p q (b :: r)
  | _ => false

/-- Does a space follow a line break? -/
def hasBreakSpace : List Char → Bool := hasNeighbours isBreak (· == ' ')

/-- Does a line break follow a space? -/
def hasSpaceBreak : List Char → Bool := hasNeighbours (· == ' ') isBreak

/-- Does this character at the beginning of a text always make it something else than a plain
scalar? -/
def isLeadingIndicator (c : Char) : Bool :=
  ['#', ',', '[', ']', '{', '}', '&', '*', '!', '|', '>', '\'', '"', '%', '@', '`'].contains c

/-- Does a text begin with something that is no plain scalar? -/
def startsWithIndicator (text : List Char) : Bool :=
  ['-', '-', '-'].isPrefixOf text || ['.', '.', '.'].isPrefixOf text ||
    match text with
    | [] => false
    | c :: r => isLeadingIndicator c || (['?', ':', '-'].contains c && atWordEnd r)

/-- Is there a colon before spacing, or a number sign behind it, after the first character? -/
def hasInnerIndicator : List Char → Bool
  | a :: b :: r =>
      (b == ':' && atWordEnd r) || (b == '#' && isSpacing a) || hasInnerIndicator (b :: r)
  | _ => false

/-- Does a text begin or end with a character that passes `p`? -/
def hasAtEnds (p : Char → Bool) (text : List Char) : Bool :=
  text.head?.any p || text.getLast?.any p

/-- Does some part of this text need an escape? -/
def needsEscape (text : List Char) : Bool :=
  !text.all isPrintable || hasSpaceBreak text

/-- Can this text be written without quotes on one line? -/
def isPlain (text : List Char) : Bool :=
  !(needsEscape text || text.any isBreak || hasAtEnds (· == ' ') text ||
    startsWithIndicator text || hasInnerIndicator text)

/-- The style of a string. -/
def style (text : List Char) : Style :=
  if text.contains '\n' then
    if needsEscape text || text.getLast? == some ' ' then .double else .literal
  else if isPlain text && !Value.isAmbiguous text then .plain
  else if needsEscape text || hasBreakSpace text then .double
  else .single

/-! ## The written forms -/

/-- `n` spaces. -/
def spaces (n : Nat) : List Char := List.replicate n ' '

/-- The characters of a text, with indentation in front of those that follow a line break. -/
def indentLines (indent : Nat) (encode : Char → List Char) : Bool → List Char → List Char
  | _, [] => []
  | broken, c :: r =>
      if isBreak c then c :: indentLines indent encode true r
      else (if broken then spaces indent else []) ++ encode c ++ indentLines indent encode false r

/-- In single quotes, where a quote is written twice. -/
def single (indent : Nat) (text : List Char) : List Char :=
  let encode (c : Char) := if c == '\'' then [c, c] else [c]
  let tail := if text.getLast?.any isBreak then spaces indent else []
  '\'' :: indentLines indent encode false text ++ tail ++ ['\'']

/-- A hexadecimal digit. -/
def hexDigit (n : Nat) : Char :=
  if n < 10 then Char.ofNat ('0'.toNat + n) else Char.ofNat ('A'.toNat + (n - 10))

/-- The lowest `width` hexadecimal digits of a number. -/
def hexDigits : Nat → Nat → List Char
  | 0, _ => []
  | width + 1, n => hexDigits width (n / 16) ++ [hexDigit (n % 16)]

/-- The letter that names a character behind a backslash. -/
def escapeLetter? : Char → Option Char
  | '\x00' => some '0'
  | '\x07' => some 'a'
  | '\x08' => some 'b'
  | '\t' => some 't'
  | '\n' => some 'n'
  | '\x0B' => some 'v'
  | '\x0C' => some 'f'
  | '\r' => some 'r'
  | '\x1B' => some 'e'
  | '"' => some '"'
  | '\\' => some '\\'
  | '\x85' => some 'N'
  | '\xA0' => some '_'
  | '\u2028' => some 'L'
  | '\u2029' => some 'P'
  | _ => none

/-- A character that needs an escape. -/
def escape (c : Char) : List Char :=
  match escapeLetter? c with
  | some letter => ['\\', letter]
  | none =>
      let n := c.toNat
      if n ≤ 0xFF then ['\\', 'x'] ++ hexDigits 2 n
      else if n ≤ 0xFFFF then ['\\', 'u'] ++ hexDigits 4 n
      else ['\\', 'U'] ++ hexDigits 8 n

/-- A character between double quotes. -/
def doubleChar (c : Char) : List Char :=
  if isPrintable c && !isBreak c && c != '"' && c != '\\' then [c] else escape c

/-- In double quotes. -/
def double (text : List Char) : List Char :=
  '"' :: text.flatMap doubleChar ++ ['"']

/-- The indicators of a block: two columns of indentation if the text begins with spacing, and what
becomes of the line breaks at its end. -/
def literalHeader (text : List Char) : List Char :=
  let hint := if text.head?.any fun c => c == ' ' || isBreak c then ['2'] else []
  let chomping :=
    match text.reverse with
    | last :: before => 
        if !isBreak last then ['-'] else if before.head?.all isBreak then ['+'] else []
    | [] => ['-']
  '|' :: hint ++ chomping

/-- As a block of lines at column `indent`. -/
def literal (indent : Nat) (text : List Char) : List Char :=
  literalHeader text ++ '\n' :: indentLines indent ([·]) true text

/-- A string, whose further lines begin at column `indent`. -/
def string (indent : Nat) (text : List Char) : List Char :=
  match style text with
  | .plain => text
  | .single => single indent text
  | .double => double text
  | .literal => literal indent text

/-! ## Tags -/

/-- The characters that a written tag holds as they are. -/
def isPlainTagChar (c : Char) : Bool :=
  isNameChar c ||
    [';', '/', '?', ':', '@', '&', '=', '+', '$', ',', '.', '~', '*', '\'', '(', ')', '[',
      ']'].contains c

/-- A character of a tag, or its octets behind percent signs. -/
def tagChar (c : Char) : List Char :=
  if isPlainTagChar c then [c]
  else (String.utf8EncodeChar c).flatMap fun octet => '%' :: hexDigits 2 octet.toNat

/-- The characters of a tag behind its exclamation mark; a mark in the name counts as that one. -/
def tagBody (name : String) : List Char :=
  match name.toList with
  | '!' :: r => r
  | text => text

/-- A tag of the document's own.  The exclamation mark alone is written out in full, since it would
else say something different. -/
def tag (name : String) : List Char :=
  match tagBody name with
  | [] => ['!', '<'] ++ tagChar '!' ++ ['>']
  | body => '!' :: body.flatMap tagChar

/-- The number of octets that a tag counts for in the length of a key. -/
def tagSize (name : String) : Nat :=
  1 + (String.ofList (tagBody name)).utf8ByteSize

end OperatorBundle.Yaml.Layout
