import OperatorBundle.Yaml.Token.Property
import OperatorBundle.Yaml.Token.Scalar

/-!
# From text to tokens

Indentation and the keys of mappings are not written as tokens, and a key is known to be one only
when its colon is met.  A `Scanner` keeps the columns of the open block collections and, for each
level of flow collections, the token that may turn out to begin a key; when the colon comes, the
missing tokens are put before it.

`Token.scan` yields the whole sequence.  Of a text with a defect it yields the tokens before which
nothing can be put any more.
-/

namespace OperatorBundle.Yaml

/-- A token that may be the first of a key. -/
structure PendingKey where
  /-- How many tokens stand before it. -/
  before : Nat
  /-- Only a key can stand here. -/
  required : Bool
  index : Nat
  line : Nat
  column : Nat
deriving Repr, Inhabited

/-- A key must end on the line where it begins, and within 1024 characters. -/
def PendingKey.isStale (key : PendingKey) (c : Cursor) : Bool :=
  key.line < c.line || key.index + 1024 < c.index

/-- What is known between two tokens. -/
structure Scanner where
  cursor : Cursor
  /-- The tokens so far, the last first. -/
  emitted : List Token := []
  /-- How many tokens there are so far. -/
  count : Nat := 0
  /-- The columns of the open block collections, the innermost first. -/
  blocks : List Nat := []
  /-- What may be a key at the present level of flow collections. -/
  key : Option PendingKey := none
  /-- The same for the levels around it, the nearest first. -/
  outerKeys : List (Option PendingKey) := []
  /-- May a key begin here? -/
  keyAllowed : Bool := true
deriving Repr, Inhabited

namespace Scanner

/-- Is the scanner inside a flow collection? -/
def inFlow (s : Scanner) : Bool := !s.outerKeys.isEmpty

/-- The least column at which the contents of the innermost block collection may stand. -/
def level (s : Scanner) : Nat :=
  match s.blocks with
  | [] => 0
  | column :: _ => column + 1

/-- Adds a token. -/
def emit (s : Scanner) (t : Token) : Scanner :=
  { s with emitted := t :: s.emitted, count := s.count + 1 }

/-- Puts a token in front of all but the first `n` tokens. -/
def emitAt (s : Scanner) (n : Nat) (t : Token) : Scanner :=
  let behind := s.count - n
  { s with
    emitted := s.emitted.take behind ++ t :: s.emitted.drop behind
    count := s.count + 1 }

/-- Adds a token made of the next `n` characters. -/
def take (s : Scanner) (n : Nat) (t : Token) : Scanner :=
  { s.emit t with cursor := s.cursor.advance n }

/-! ## Keys -/

/-- Gives up a pending key. -/
def dropKey : Option PendingKey → Except Defect (Option PendingKey)
  | some key => if key.required then .error .missingColon else .ok none
  | none => .ok none

/-- Gives up the pending keys that end too late. -/
def dropStaleKeys (s : Scanner) : Except Defect Scanner := do
  let drop (key : Option PendingKey) :=
    if key.any (PendingKey.isStale · s.cursor) then dropKey key else .ok key
  return { s with key := ← drop s.key, outerKeys := ← s.outerKeys.mapM drop }

/-- Gives up the pending key of the present level. -/
def forgetKey (s : Scanner) : Except Defect Scanner := do
  return { s with key := ← dropKey s.key }

/-- Notes that the next token may begin a key. -/
def noteKey (s : Scanner) : Except Defect Scanner := do
  if !s.keyAllowed then
    return s
  let s ← s.forgetKey
  let c := s.cursor
  let required := !s.inFlow && s.blocks.head? == some c.column
  return { s with key := some ⟨s.count, required, c.index, c.line, c.column⟩ }

/-! ## Indentation -/

/-- Closes the block collections whose columns pass `closes`, the innermost first. -/
def closeBlocks (closes : Nat → Bool) : List Nat → Scanner → Scanner
  | [], s => { s with blocks := [] }
  | column :: outer, s =>
      if closes column then closeBlocks closes outer (s.emit .blockEnd)
      else { s with blocks := column :: outer }

/-- Closes the block collections to the right of the next token. -/
def unindent (s : Scanner) : Scanner :=
  if s.inFlow then s else closeBlocks (s.cursor.column < ·) s.blocks s

/-- Closes all block collections. -/
def closeAll (s : Scanner) : Scanner :=
  if s.inFlow then s else closeBlocks (fun _ => true) s.blocks s

/-- Opens a block collection at `column` if that is further to the right than the open ones; its
token `t` goes in front of all but the first `n` tokens. -/
def indent (s : Scanner) (column n : Nat) (t : Token) : Scanner :=
  if s.inFlow || column < s.level then s
  else { s.emitAt n t with blocks := column :: s.blocks }

/-! ## Tokens -/

/-- Moves to the next token, past spacing and comments.  A tab cannot indent the beginning of a
key. -/
def toToken : Nat → Scanner → Scanner
  | 0, s => s
  | n + 1, s =>
      let c := s.cursor
      let c := if c.column == 0 && c.headIs byteOrderMark then c.advance 1 else c
      let (_, c) := c.span fun x => x == ' ' || ((s.inFlow || !s.keyAllowed) && x == '\t')
      let c := c.skipComment
      if c.rest.head?.any isBreak then
        toToken n { s with cursor := c.newline, keyAllowed := s.keyAllowed || !s.inFlow }
      else { s with cursor := c }

/-- The end of the stream, which counts as the start of a line. -/
def streamEnd (s : Scanner) : Except Defect Scanner := do
  let s ← s.closeAll.forgetKey
  return { s with keyAllowed := false }.emit .streamEnd

/-- A directive. -/
def directive (s : Scanner) : Except Defect Scanner := do
  let s ← s.closeAll.forgetKey
  let (t, c) ← Property.directive s.cursor
  return { s.emit t with cursor := c, keyAllowed := false }

/-- A line that begins or ends a document. -/
def documentMarker (s : Scanner) (t : Token) : Except Defect Scanner := do
  let s ← s.closeAll.forgetKey
  return { s with keyAllowed := false }.take 3 t

/-- An opening bracket. -/
def openFlow (s : Scanner) (t : Token) : Except Defect Scanner := do
  let s ← s.noteKey
  return { s with key := none, outerKeys := s.key :: s.outerKeys, keyAllowed := true }.take 1 t

/-- A closing bracket. -/
def closeFlow (s : Scanner) (t : Token) : Except Defect Scanner := do
  let s ← s.forgetKey
  let s :=
    match s.outerKeys with
    | [] => s
    | key :: outer => { s with key := key, outerKeys := outer }
  return { s with keyAllowed := false }.take 1 t

/-- A comma. -/
def flowEntry (s : Scanner) : Except Defect Scanner := do
  let s ← s.forgetKey
  return { s with keyAllowed := true }.take 1 .flowEntry

/-- A dash. -/
def blockEntry (s : Scanner) : Except Defect Scanner := do
  if !s.inFlow && !s.keyAllowed then
    throw .token
  let s ← (s.indent s.cursor.column s.count .blockSequenceStart).forgetKey
  return { s with keyAllowed := true }.take 1 .blockEntry

/-- A question mark. -/
def explicitKey (s : Scanner) : Except Defect Scanner := do
  if !s.inFlow && !s.keyAllowed then
    throw .token
  let s ← (s.indent s.cursor.column s.count .blockMappingStart).forgetKey
  return { s with keyAllowed := !s.inFlow }.take 1 .key

/-- A colon.  If a key is pending, the tokens that open it are put in front of it. -/
def mappingValue (s : Scanner) : Except Defect Scanner := do
  match s.key with
  | some key =>
      let s := s.emitAt key.before .key
      let s := s.indent key.column key.before .blockMappingStart
      return { s with key := none, keyAllowed := false }.take 1 .value
  | none =>
      if !s.inFlow && !s.keyAllowed then
        throw .token
      let s := s.indent s.cursor.column s.count .blockMappingStart
      return { s with keyAllowed := !s.inFlow }.take 1 .value

/-- An anchor or alias; `make` turns its name into a token. -/
def anchor (s : Scanner) (make : List Char → Token) : Except Defect Scanner := do
  let s ← s.noteKey
  let (name, c) ← Property.anchorName s.cursor
  return { s.emit (make name) with cursor := c, keyAllowed := false }

/-- A tag. -/
def tag (s : Scanner) : Except Defect Scanner := do
  let s ← s.noteKey
  let (t, c) ← Property.tag s.inFlow s.cursor
  return { s.emit t with cursor := c, keyAllowed := false }

/-- A block scalar. -/
def blockScalar (s : Scanner) (folds : Bool) : Except Defect Scanner := do
  let s ← s.forgetKey
  let (text, c) ← Scalar.block folds s.level s.cursor
  return { s.emit (.scalar text false) with cursor := c, keyAllowed := true }

/-- A quoted scalar. -/
def quotedScalar (s : Scanner) (double : Bool) : Except Defect Scanner := do
  let s ← s.noteKey
  let (text, c) ← Scalar.quoted double s.cursor
  return { s.emit (.scalar text false) with cursor := c, keyAllowed := false }

/-- A plain scalar.  If a line break was read behind it, a key may follow. -/
def plainScalar (s : Scanner) : Except Defect Scanner := do
  let s ← s.noteKey
  let (text, broken, c) ← Scalar.plain s.inFlow s.level s.cursor
  return { s.emit (.scalar text true) with cursor := c, keyAllowed := broken }

/-- May a plain scalar begin with `x` before `r`? -/
def startsPlain (inFlow : Bool) (x : Char) (r : List Char) : Bool :=
  match x with
  | '-' => !r.head?.any isBlank
  | '?' | ':' => !inFlow && !atWordEnd r
  | ',' | '[' | ']' | '{' | '}' | '#' | '&' | '*' | '!' | '|' | '>' | '\'' | '"' | '%' | '@'
  | '`' =>
      false
  | _ => !isSpacing x

/-- Reads the token at the cursor. -/
def fetch (s : Scanner) : Except Defect Scanner :=
  let s := s.unindent
  let c := s.cursor
  match c.rest with
  | [] => s.streamEnd
  | x :: r =>
      if c.column == 0 && x == '%' then s.directive
      else if c.atMarker '-' then s.documentMarker .documentStart
      else if c.atMarker '.' then s.documentMarker .documentEnd
      else
        match x with
        | '[' => s.openFlow .flowSequenceStart
        | '{' => s.openFlow .flowMappingStart
        | ']' => s.closeFlow .flowSequenceEnd
        | '}' => s.closeFlow .flowMappingEnd
        | ',' => s.flowEntry
        | '*' => s.anchor .reference
        | '&' => s.anchor .anchor
        | '!' => s.tag
        | '\'' => s.quotedScalar false
        | '"' => s.quotedScalar true
        | _ =>
            if x == '-' && atWordEnd r then s.blockEntry
            else if x == '?' && (s.inFlow || atWordEnd r) then s.explicitKey
            else if x == ':' && (s.inFlow || atWordEnd r) then s.mappingValue
            else if x == '|' && !s.inFlow then s.blockScalar false
            else if x == '>' && !s.inFlow then s.blockScalar true
            else if startsPlain s.inFlow x r then s.plainScalar
            else .error .token

/-- The next token and those that it brings with it. -/
def step (s : Scanner) : Except Defect Scanner := do
  let s ← s.dropStaleKeys
  let s ← (toToken s.cursor.steps s).dropStaleKeys
  s.fetch

/-- How many tokens are certain to have nothing put in front of them any more. -/
def certain (s : Scanner) : Nat :=
  (s.key :: s.outerKeys).foldl (fun n key => (key.map (min n ·.before)).getD n) s.count

/-- Reads tokens up to the end of the stream or the first defect. -/
def run : Nat → Scanner → TokenStream
  | 0, s => ⟨s.emitted.reverse, none⟩
  | n + 1, s =>
      match s.step with
      | .ok s' =>
          if s'.emitted.head? == some .streamEnd then ⟨s'.emitted.reverse, none⟩ else run n s'
      | .error defect =>
          let known := (s.dropStaleKeys.toOption.getD s).certain
          ⟨s.emitted.reverse.take known, some defect⟩

end Scanner

/-- The tokens of a text.  No token is read from a text with a character that no stream may hold. -/
def TokenStream.ofText (text : List Char) : TokenStream :=
  if text.all isAdmissible then
    let c := Cursor.ofText text
    Scanner.run (c.steps + 1) { cursor := c }
  else ⟨[], some .character⟩

end OperatorBundle.Yaml
