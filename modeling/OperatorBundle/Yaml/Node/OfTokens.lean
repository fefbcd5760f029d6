import OperatorBundle.Yaml.Node.Basic

/-!
# From tokens to nodes

The grammar of documents.  Each reader takes tokens from the front of a `TokenStream` and yields the
node that they spell.  A node that is left out, as in a key without value, is an empty scalar.

`Node.ofStream` reads a stream that holds one document, `Node.ofStreamStart` the first document of a
stream, whatever comes after it.
-/

namespace OperatorBundle.Yaml

/-- The name of an anchor as it is written. -/
abbrev AnchorName := List Char

/-- Which beginnings of tags the handles stand for. -/
abbrev Handles := List (List Char × TagText)

/-- The handles that need no directive. -/
def Handles.standard : Handles :=
  [(['!'], [some '!']), (['!', '!'], "tag:yaml.org,2002:".toList.map some)]

/-- A reader of tokens. -/
abbrev TokenReader := StateT TokenStream (Except Defect)

namespace TokenReader

/-- The next token, which stays where it is.  Where no further token is known the defect of the
stream comes to light. -/
def peek : TokenReader Token := do
  let stream ← get
  match stream.tokens with
  | t :: _ => return t
  | [] => throw (stream.defect.getD .arrangement)

/-- Leaves the next token behind. -/
def advance : TokenReader Unit :=
  modify fun stream => { stream with tokens := stream.tokens.drop 1 }

/-- Leaves the next token behind if it is `t`, and says whether it was. -/
def takes (t : Token) : TokenReader Bool := do
  if (← peek) == t then
    advance
    return true
  return false

/-- Leaves the next token behind, which must be `t`. -/
def expect (t : Token) : TokenReader Unit := do
  if !(← takes t) then
    throw .arrangement

/-! ## Properties -/

/-- The tag that a handle and suffix stand for. -/
def fullTag (handles : Handles) (handle : List Char) (suffix : TagText) : TokenReader TagText :=
  if handle.isEmpty then pure suffix
  else
    match handles.lookup handle with
    | some stem => pure (stem ++ suffix)
    | none => throw .tagHandle

/-- An anchor, if one is next. -/
def anchor : TokenReader (Option AnchorName) := do
  match ← peek with
  | .anchor name =>
      advance
      return some name
  | _ => return none

/-- A tag, if one is next. -/
def tag (handles : Handles) : TokenReader (Option TagText) := do
  match ← peek with
  | .tag handle suffix =>
      advance
      return some (← fullTag handles handle suffix)
  | _ => return none

/-- An anchor and a tag, either of which may be missing, in either order. -/
def properties (handles : Handles) : TokenReader (Properties AnchorName) := do
  match ← anchor with
  | some name => return { anchor := some name, tag := ← tag handles }
  | none =>
      match ← tag handles with
      | some tag => return { anchor := ← anchor, tag := some tag }
      | none => return {}

/-! ## Nodes

The first argument bounds the number of nested calls; each of them but every second at most takes a
token. -/

mutual

/-- A node.  `block` allows block collections, and `bare` also a sequence whose dashes are not
indented. -/
def node (handles : Handles) (block bare : Bool) : Nat → TokenReader (Node AnchorName)
  | 0 => throw .arrangement
  | n + 1 => do
      if let .reference name ← peek then
        advance
        return .reference name
      let properties ← properties handles
      match ← peek with
      | .scalar text plain =>
          advance
          return .scalar properties text plain
      | .flowSequenceStart =>
          advance
          return .sequence properties (← flowItems handles true n)
      | .flowMappingStart =>
          advance
          return .mapping properties (← flowEntries handles true n)
      | t =>
          if bare && t == .blockEntry then
            return .sequence properties (← bareItems handles n)
          if block && t == .blockSequenceStart then
            advance
            return .sequence properties (← blockItems handles n)
          if block && t == .blockMappingStart then
            advance
            return .mapping properties (← blockEntries handles n)
          if properties.anchor.isSome || properties.tag.isSome then
            return .empty properties
          throw .arrangement

/-- A node, or nothing if one of the tokens `ends` is next. -/
def nodeBefore (handles : Handles) (block bare : Bool) (ends : List Token) :
    Nat → TokenReader (Node AnchorName)
  | 0 => throw .arrangement
  | n + 1 => do
      if ends.contains (← peek) then return .empty
      node handles block bare n

/-- The items of a block sequence. -/
def blockItems (handles : Handles) : Nat → TokenReader (List (Node AnchorName))
  | 0 => throw .arrangement
  | n + 1 => do
      if ← takes .blockEnd then
        return []
      expect .blockEntry
      let item ← nodeBefore handles true false [.blockEntry, .blockEnd] n
      return item :: (← blockItems handles n)

/-- The items of a sequence whose dashes stand in the column of the mapping around it. -/
def bareItems (handles : Handles) : Nat → TokenReader (List (Node AnchorName))
  | 0 => throw .arrangement
  | n + 1 => do
      if !(← takes .blockEntry) then
        return []
      let item ← nodeBefore handles true false [.blockEntry, .key, .value, .blockEnd] n
      return item :: (← bareItems handles n)

/-- The entries of a block mapping. -/
def blockEntries (handles : Handles) : Nat → TokenReader (List (Node AnchorName × Node AnchorName))
  | 0 => throw .arrangement
  | n + 1 => do
      if ← takes .blockEnd then
        return []
      expect .key
      let ends : List Token := [.key, .value, .blockEnd]
      let key ← nodeBefore handles true true ends n
      let value ← if ← takes .value then nodeBefore handles true true ends n else pure .empty
      return (key, value) :: (← blockEntries handles n)

/-- The items of a flow sequence; all but the first follow a comma.  A key among them begins a
mapping of one entry. -/
def flowItems (handles : Handles) (first : Bool) : Nat → TokenReader (List (Node AnchorName))
  | 0 => throw .arrangement
  | n + 1 => do
      if ← takes .flowSequenceEnd then
        return []
      if !first then
        expect .flowEntry
      if ← takes .flowSequenceEnd then
        return []
      let item ←
        if ← takes .key then flowPair handles n
        else node handles false false n
      return item :: (← flowItems handles false n)

/-- The one entry of a mapping inside a flow sequence.  A question mark without a key takes the
token that follows it along. -/
def flowPair (handles : Handles) : Nat → TokenReader (Node AnchorName)
  | 0 => throw .arrangement
  | n + 1 => do
      let key ←
        if [Token.value, .flowEntry, .flowSequenceEnd].contains (← peek) then
          advance
          pure .empty
        else node handles false false n
      let value ←
        if ← takes .value then nodeBefore handles false false [.flowEntry, .flowSequenceEnd] n
        else pure .empty
      return .mapping {} [(key, value)]

/-- The entries of a flow mapping; all but the first follow a comma. -/
def flowEntries (handles : Handles) (first : Bool) :
    Nat → TokenReader (List (Node AnchorName × Node AnchorName))
  | 0 => throw .arrangement
  | n + 1 => do
      if ← takes .flowMappingEnd then
        return []
      if !first then
        expect .flowEntry
      if ← takes .flowMappingEnd then
        return []
      let entry ←
        if ← takes .key then
          let key ← nodeBefore handles false false [.value, .flowEntry, .flowMappingEnd] n
          let value ←
            if ← takes .value then nodeBefore handles false false [.flowEntry, .flowMappingEnd] n
            else pure .empty
          pure (key, value)
        else
          pure (← node handles false false n, .empty)
      return entry :: (← flowEntries handles false n)

end

/-! ## Documents -/

/-- The directives in front of a document: whether a version has been named, and the handles. -/
def directives : Nat → Bool → Handles → TokenReader Handles
  | 0, _, _ => throw .arrangement
  | n + 1, versioned, handles => do
      match ← peek with
      | .versionDirective major minor =>
          if versioned || major != 1 || (minor != 1 && minor != 2) then
            throw .directive
          advance
          directives n true handles
      | .tagDirective handle stem =>
          if (handles.lookup handle).isSome then
            throw .directive
          advance
          directives n versioned (handles ++ [(handle, stem)])
      | _ => return handles

/-- Does this token stand outside of all documents? -/
def isOutside : Token → Bool
  | .versionDirective .. | .tagDirective .. | .documentStart | .documentEnd | .streamEnd => true
  | _ => false

/-- The next document of a stream, up to and including its end; `none` at the end of the stream. -/
def document (steps : Nat) : TokenReader (Option (Node AnchorName)) := do
  let content ←
    match ← peek with
    | .streamEnd => return none
    | .versionDirective .. | .tagDirective .. | .documentStart =>
        let handles ← directives steps false []
        expect .documentStart
        if isOutside (← peek) then pure .empty
        else node (handles ++ Handles.standard) true false steps
    | _ => node Handles.standard true false steps
  discard (takes .documentEnd)
  return some content

/-- Leaves the lines behind that end a document once more. -/
def skipDocumentEnds : Nat → TokenReader Unit
  | 0 => return
  | n + 1 => do
      if ← takes .documentEnd then
        skipDocumentEnds n

end TokenReader

/-- More nested calls than the tokens of a stream can ask for. -/
def TokenStream.steps (stream : TokenStream) : Nat := 3 * stream.tokens.length + 4

/-- The first document of a stream, if it has one. -/
def Node.ofStreamStart (stream : TokenStream) : Except Defect (Option (Node AnchorName)) :=
  (TokenReader.document stream.steps).run' stream

/-- Reads the end of a stream. -/
def TokenReader.streamEnd (steps : Nat) : TokenReader Unit := do
  skipDocumentEnds steps
  if (← peek) != .streamEnd then
    throw .surplus

/-- The document of a stream that must hold no other, if it has one. -/
def Node.ofStream (stream : TokenStream) : Except Defect (Option (Node AnchorName)) := do
  let (content, rest) ← (TokenReader.document stream.steps).run stream
  (TokenReader.streamEnd stream.steps).run' rest
  return content

end OperatorBundle.Yaml
