/-!
# The texts of a TOML document

Blanks, line ends and comments, and the four ways to write a string.  A reader takes the characters
in front of it and yields what they say and those that are left; `none` means that they say nothing.
-/

namespace OperatorBundle.Toml

/-- Space or tab. -/
def isBlank (c : Char) : Bool := c == ' ' || c == '\t'

/-- A character that comments and quoted texts can hold as it is: all but control characters, of
which the tab alone is admitted. -/
def isText (c : Char) : Bool :=
  c == '\t' || (0x20 ≤ c.toNat && c.toNat ≤ 0x7E) || 0x80 ≤ c.toNat

/-- A decimal digit. -/
def isDigit (c : Char) : Bool := '0' ≤ c && c ≤ '9'

/-- A character of a key without quotes. -/
def isKeyChar (c : Char) : Bool :=
  isDigit c || ('a' ≤ c && c ≤ 'z') || ('A' ≤ c && c ≤ 'Z') || c == '-' || c == '_'

/-- The value of a digit in a base up to sixteen. -/
def digit? (base : Nat) (c : Char) : Option Nat :=
  let n :=
    if isDigit c then c.toNat - '0'.toNat
    else if 'a' ≤ c && c ≤ 'f' then c.toNat - 'a'.toNat + 10
    else if 'A' ≤ c && c ≤ 'F' then c.toNat - 'A'.toNat + 10
    else 16
  if n < base then some n else none

/-! ## Between words -/

/-- What follows the blanks. -/
def skipBlanks (text : List Char) : List Char := text.dropWhile isBlank

/-- What follows a line feed, in front of which a carriage return may stand. -/
def newline? : List Char → Option (List Char)
  | '\n' :: r => some r
  | '\r' :: '\n' :: r => some r
  | _ => none

/-- What follows a comment, if one starts here. -/
def skipComment : List Char → List Char
  | '#' :: r => r.dropWhile isText
  | text => text

/-- What follows the end of the line, or of the text, behind blanks and a comment. -/
def lineEnd? (text : List Char) : Option (List Char) :=
  match skipComment (skipBlanks text) with
  | [] => some []
  | r => newline? r

/-- What follows blanks, comments and line ends.  A comment that no line end follows is left. -/
def skipLines : Nat → List Char → List Char
  | 0, text => text
  | n + 1, text =>
      let text := skipBlanks text
      match newline? (skipComment text) with
      | some r => skipLines n r
      | none => text

/-- What follows blanks and line ends. -/
def skipSpace : List Char → List Char
  | [] => []
  | '\r' :: '\n' :: r => skipSpace r
  | c :: r => if isBlank c || c == '\n' then skipSpace r else c :: r

/-! ## Strings -/

/-- What a backslash and one character stand for. -/
def escapeChar? : Char → Option Char
  | 'b' => some '\x08'
  | 't' => some '\t'
  | 'n' => some '\n'
  | 'f' => some '\x0C'
  | 'r' => some '\r'
  | '"' => some '"'
  | '\\' => some '\\'
  | _ => none

/-- The character whose code `width` hexadecimal digits give. -/
def escapeCode? (width : Nat) (text : List Char) : Option (Char × List Char) := do
  let digits := text.take width
  guard (digits.length == width)
  let code ← digits.foldlM (fun n c => (16 * n + ·) <$> digit? 16 c) 0
  if h : code.isValidChar then some (Char.ofNatAux code h, text.drop width) else none

/-- The character that an escape stands for, behind its backslash. -/
def escape? : List Char → Option (Char × List Char)
  | 'u' :: r => escapeCode? 4 r
  | 'U' :: r => escapeCode? 8 r
  | c :: r => (escapeChar? c).map (·, r)
  | [] => none

/-- A string on one line, behind its opening quote. -/
def basic? : Nat → List Char → List Char → Option (List Char × List Char)
  | 0, _, _ => none
  | n + 1, said, text =>
      match text with
      | '"' :: r => some (said, r)
      | '\\' :: r => do
          let (c, r) ← escape? r
          basic? n (said ++ [c]) r
      | c :: r => if isText c then basic? n (said ++ [c]) r else none
      | [] => none

/-- A string on one line without escapes, behind its opening quote. -/
def literal? (text : List Char) : Option (List Char × List Char) :=
  let said := text.takeWhile fun c => isText c && c != '\''
  match text.drop said.length with
  | '\'' :: r => some (said, r)
  | _ => none

/-- Three to five quotes close a string of several lines; those before the last three belong to it.
Fewer belong to it altogether. -/
def closing (quotes : List Char) : Bool × Nat × Nat :=
  if quotes.length < 3 then (false, quotes.length, quotes.length)
  else
    let taken := min quotes.length 5
    (true, taken - 3, taken)

/-- A string of several lines, behind its opening quotes and the line end that may follow them.
Every line end reads as a line feed.  Where `quote` is double there are escapes, and a backslash
at the end of a line joins it to the next word. -/
def multiline? (quote : Char) : Nat → List Char → List Char → Option (List Char × List Char)
  | 0, _, _ => none
  | n + 1, said, text =>
      match text, newline? text with
      | [], _ => none
      | _, some r => multiline? quote n (said ++ ['\n']) r
      | c :: r, none =>
          if c == quote then
            let (done, kept, taken) := closing (text.takeWhile (· == quote))
            let said := said ++ List.replicate kept quote
            if done then some (said, text.drop taken) else multiline? quote n said (text.drop taken)
          else if quote == '"' && c == '\\' then
            if (newline? (skipBlanks r)).isSome then
              multiline? quote n said (skipSpace r)
            else do
              let (d, r) ← escape? r
              multiline? quote n (said ++ [d]) r
          else if isText c then multiline? quote n (said ++ [c]) r
          else none

/-- A string of either kind of quotes. -/
def string? (text : List Char) : Option (List Char × List Char) :=
  let many (quote : Char) (r : List Char) :=
    multiline? quote (r.length + 1) [] ((newline? r).getD r)
  match text with
  | '"' :: '"' :: '"' :: r => many '"' r
  | '\'' :: '\'' :: '\'' :: r => many '\'' r
  | '"' :: r => basic? (r.length + 1) [] r
  | '\'' :: r => literal? r
  | _ => none

/-! ## Keys -/

/-- One part of a dotted key. -/
def keyPart? (text : List Char) : Option (String × List Char) := do
  let (said, r) ←
    match text with
    | '"' :: r => basic? (r.length + 1) [] r
    | '\'' :: r => literal? r
    | _ =>
        let said := text.takeWhile isKeyChar
        if said.isEmpty then none else some (said, text.drop said.length)
  return (String.ofList said, r)

/-- The parts of a dotted key with the blanks around and between them. -/
def keyParts? : Nat → List Char → Option (List String × List Char)
  | 0, _ => none
  | n + 1, text => do
      let (part, r) ← keyPart? (skipBlanks text)
      match skipBlanks r with
      | '.' :: r =>
          let (parts, r) ← keyParts? n r
          return (part :: parts, r)
      | r => return ([part], r)

/-- A dotted key of at most `limit` parts. -/
def key? (limit : Nat) (text : List Char) : Option (List String × List Char) := do
  let (parts, r) ← keyParts? (text.length + 1) text
  guard (parts.length ≤ limit)
  return (parts, r)

end OperatorBundle.Toml
