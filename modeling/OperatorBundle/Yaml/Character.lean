/-!
# The characters of a YAML stream

Which characters a stream may hold, which of them break lines or separate words, and which make up
names.
-/

namespace OperatorBundle.Yaml

/-- May a stream hold this character?  Of the control characters only tab, line feed, carriage
return and next line are admitted. -/
def isAdmissible (c : Char) : Bool :=
  let n := c.toNat
  n == 0x09 || n == 0x0A || n == 0x0D || (0x20 ≤ n && n ≤ 0x7E) || n == 0x85 ||
    (0xA0 ≤ n && n ≤ 0xFFFD) || 0x10000 ≤ n

/-- The mark that may open a line and says nothing. -/
def byteOrderMark : Char := '\uFEFF'

/-- The line breaks that are kept as they are; all others read as a line feed. -/
def isLineSeparator (c : Char) : Bool :=
  c == '\u2028' || c == '\u2029'

/-- Does this character break a line? -/
def isBreak (c : Char) : Bool :=
  c == '\n' || c == '\r' || c == '\x85' || isLineSeparator c

/-- Space or tab. -/
def isBlank (c : Char) : Bool :=
  c == ' ' || c == '\t'

/-- Blank or line break: what separates words. -/
def isSpacing (c : Char) : Bool :=
  isBlank c || isBreak c

/-- Does a word end here, at spacing or at the end of the text? -/
def atWordEnd : List Char → Bool
  | [] => true
  | c :: _ => isSpacing c

/-- A decimal digit. -/
def isDigit (c : Char) : Bool :=
  '0' ≤ c && c ≤ '9'

/-- The characters of anchors and tag handles. -/
def isNameChar (c : Char) : Bool :=
  isDigit c || ('a' ≤ c && c ≤ 'z') || ('A' ≤ c && c ≤ 'Z') || c == '_' || c == '-'

/-- The brackets and the comma that delimit flow collections. -/
def isFlowIndicator (c : Char) : Bool :=
  c == ',' || c == '[' || c == ']' || c == '{' || c == '}'

/-- The value of a hexadecimal digit. -/
def hexDigit? (c : Char) : Option Nat :=
  if isDigit c then some (c.toNat - '0'.toNat)
  else if 'a' ≤ c && c ≤ 'f' then some (c.toNat - 'a'.toNat + 10)
  else if 'A' ≤ c && c ≤ 'F' then some (c.toNat - 'A'.toNat + 10)
  else none

/-- The number written by hexadecimal digits, most significant first. -/
def hexNumber? (digits : List Char) : Option Nat :=
  digits.foldlM (fun n c => (16 * n + ·) <$> hexDigit? c) 0

/-- The character with a code point, if there is one. -/
def charOfCode? (code : Nat) : Option Char :=
  if h : code.isValidChar then some (Char.ofNatAux code h) else none

end OperatorBundle.Yaml
