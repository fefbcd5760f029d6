import OperatorBundle.Yaml.Cursor
import OperatorBundle.Yaml.Token.Basic

/-!
# Anchors, tags and directives

Readers for what is written beside a node or before a document.  Octets that a tag writes as
`%` and two hexadecimal digits are decoded in groups, each of which stands for one character.
-/

namespace OperatorBundle.Yaml.Property

/-! ## Anchors and aliases -/

/-- May the name of an anchor end before this text? -/
def atNameEnd (text : List Char) : Bool :=
  atWordEnd text || text.head?.any (['?', ':', ',', ']', '}', '%', '@', '`'].contains ·)

/-- The name behind `&` or `*`. -/
def anchorName (c : Cursor) : Except Defect (List Char × Cursor) :=
  let (name, c) := (c.advance 1).span isNameChar
  if name.isEmpty || !atNameEnd c.rest then .error .token else .ok (name, c)

/-! ## Escaped octets -/

/-- How many octets encode a character whose encoding begins with this one. -/
def groupSize? (lead : Nat) : Option Nat :=
  if lead < 0x80 then some 1
  else if 0xC0 ≤ lead && lead < 0xE0 then some 2
  else if 0xE0 ≤ lead && lead < 0xF0 then some 3
  else if 0xF0 ≤ lead && lead < 0xF8 then some 4
  else none

/-- The least code point that needs this many octets. -/
def leastCode : Nat → Nat
  | 2 => 0x80
  | 3 => 0x800
  | 4 => 0x10000
  | _ => 0

/-- The octet written at the head of a text. -/
def octet? : List Char → Option Nat
  | '%' :: a :: b :: _ => hexNumber? [a, b]
  | _ => none

/-- The octets of a group behind its first, each of which adds six bits to the code. -/
def groupCode? : Nat → Nat → List Char → Option Nat
  | 0, code, _ => some code
  | n + 1, code, text => do
      let octet ← octet? text
      if 0x80 ≤ octet && octet < 0xC0 then
        groupCode? n (64 * code + (octet - 0x80)) (text.drop 3)
      else none

/-- The character that a group of escaped octets at the head of a text stands for, if it stands for
one, and the number of octets; `none` if the group is broken off. -/
def escapedGroup? (text : List Char) : Option (Option Char × Nat) := do
  let lead ← octet? text
  let size ← groupSize? lead
  let bits := match size with | 1 => lead | 2 => lead - 0xC0 | 3 => lead - 0xE0 | _ => lead - 0xF0
  let code ← groupCode? (size - 1) bits (text.drop 3)
  return (if leastCode size ≤ code then charOfCode? code else none, size)

/-! ## Tags -/

/-- The characters of a tag.  The comma and the brackets belong to it only where `wide` says so. -/
def isTagChar (wide : Bool) (c : Char) : Bool :=
  isNameChar c ||
    [';', '/', '?', ':', '@', '&', '=', '+', '$', '.', '%', '!', '~', '*', '\'', '(',
      ')'].contains c ||
    (wide && [',', '[', ']'].contains c)

/-- Reads the characters of a tag as far as they go. -/
def tagChars (wide : Bool) : Nat → TagText → Cursor → Except Defect (TagText × Cursor)
  | 0, tag, c => .ok (tag, c)
  | n + 1, tag, c =>
      match c.rest with
      | [] => .ok (tag, c)
      | x :: _ =>
          if !isTagChar wide x then .ok (tag, c)
          else if x != '%' then tagChars wide n (tag ++ [some x]) (c.advance 1)
          else
            match escapedGroup? c.rest with
            | some (y, size) => tagChars wide n (tag ++ [y]) (c.advance (3 * size))
            | none => .error .token

/-- Reads a tag or the rest of one; `lead` is what has been read of it. -/
def tagText (wide : Bool) (lead : TagText) (c : Cursor) : Except Defect (TagText × Cursor) :=
  tagChars wide c.steps lead c

/-- Reads an exclamation mark, the name behind it, and the mark that may close a handle. -/
def tagHandle (c : Cursor) : Except Defect (List Char × Cursor) :=
  if !c.headIs '!' then .error .token
  else
    let (name, c) := (c.advance 1).span isNameChar
    if c.headIs '!' then .ok ('!' :: name ++ ['!'], c.advance 1) else .ok ('!' :: name, c)

/-- Does this text open and close with an exclamation mark? -/
def isClosedHandle (handle : List Char) : Bool :=
  2 ≤ handle.length && handle.getLast? == some '!'

/-- The handle and suffix of the tag at a cursor. -/
def tagParts (c : Cursor) : Except Defect (List Char × TagText × Cursor) := do
  if (c.rest.drop 1).head? == some '<' then
    let (tag, c) ← tagText true [] (c.advance 2)
    if tag.isEmpty || !c.headIs '>' then
      throw .token
    return ([], tag, c.advance 1)
  let (handle, c) ← tagHandle c
  if isClosedHandle handle then
    let (suffix, c) ← tagText false [] c
    if suffix.isEmpty then
      throw .token
    return (handle, suffix, c)
  let (suffix, c) ← tagText false ((handle.drop 1).map some) c
  if suffix.isEmpty then
    return ([], [some '!'], c)
  return (['!'], suffix, c)

/-- The tag at a cursor. -/
def tag (inFlow : Bool) (c : Cursor) : Except Defect (Token × Cursor) := do
  let (handle, suffix, c) ← tagParts c
  if atWordEnd c.rest || (inFlow && c.headIs ',') then
    return (.tag handle suffix, c)
  throw .token

/-! ## Directives -/

/-- A number of at most nine digits. -/
def versionNumber (c : Cursor) : Except Defect (Nat × Cursor) :=
  let (digits, c) := c.span isDigit
  if digits.isEmpty || 9 < digits.length then .error .token
  else .ok (digits.foldl (fun n d => 10 * n + (d.toNat - '0'.toNat)) 0, c)

/-- The two numbers of a version. -/
def versionParts (c : Cursor) : Except Defect (Token × Cursor) := do
  let (major, c) ← versionNumber c.skipBlanks
  if !c.headIs '.' then
    throw .token
  let (minor, c) ← versionNumber (c.advance 1)
  return (.versionDirective major minor, c)

/-- A handle and the beginning of a tag that it stands for. -/
def handleParts (c : Cursor) : Except Defect (Token × Cursor) := do
  let (handle, c) ← tagHandle c.skipBlanks
  if (handle != ['!'] && !isClosedHandle handle) || !c.rest.head?.any isBlank then
    throw .token
  let (stem, c) ← tagText true [] c.skipBlanks
  if stem.isEmpty || !atWordEnd c.rest then
    throw .token
  return (.tagDirective handle stem, c)

/-- The directive at a cursor, its line break included. -/
def directive (c : Cursor) : Except Defect (Token × Cursor) := do
  let (name, c) := (c.advance 1).span isNameChar
  if !atWordEnd c.rest then
    throw .token
  let (token, c) ←
    if name == ['Y', 'A', 'M', 'L'] then versionParts c
    else if name == ['T', 'A', 'G'] then handleParts c
    else throw .token
  let c := c.skipBlanks.skipComment
  if !c.atLineEnd then
    throw .token
  return (token, c.newline)

end OperatorBundle.Yaml.Property
