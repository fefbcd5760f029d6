import OperatorBundle.Yaml.Layout.Scalar

/-!
# How documents are written

Mappings and sequences are written in block style, two columns to a level.  A sequence under a key
is not indented, and empty collections are written as a pair of brackets.  A key on a line of its
own, behind a question mark, is written if it would not fit in front of a colon: a collection that
is not empty, a text of several lines, or more than 128 octets.
-/

namespace OperatorBundle.Yaml.Layout

/-! ## Parts without lines of their own -/

/-- The text of a value that is no collection with members and has no tag. -/
def leaf? (indent : Nat) : Value → Option (List Char)
  | .null => some "null".toList
  | .bool b => some (if b then "true" else "false").toList
  | .number n => some n.text.toList
  | .string s => some (string indent s.toList)
  | .sequence [] => some ['[', ']']
  | .mapping [] => some ['{', '}']
  | _ => none

/-- The number of octets that a value counts for in the length of a key; `none` if it does not fit
in front of a colon. -/
def keySize? : Value → Option Nat
  | .null => some 4
  | .bool b => some (if b then 4 else 5)
  | .number n => some n.text.utf8ByteSize
  | .string s => if s.toList.any isBreak then none else some s.utf8ByteSize
  | .sequence [] | .mapping [] => some 0
  | .tagged name v => (keySize? v).map (tagSize name + ·)
  | _ => none

/-- The greatest number of octets in front of a colon. -/
def keyLimit : Nat := 128

/-- Can this key be written in front of its colon? -/
def isInlineKey (v : Value) : Bool :=
  (keySize? v).any (· ≤ keyLimit)

/-- Ends the line, unless the text has done so. -/
def line (text : List Char) : List Char :=
  if text.getLast?.any isBreak then text else text ++ ['\n']

/-! ## Blocks -/

/-- Where a value stands in the collection around it. -/
inductive Place where
  /-- It is the document. -/
  | root
  /-- Behind a dash. -/
  | item
  /-- Behind a key and its colon on one line. -/
  | afterKey
  /-- Behind a question mark, or behind a colon on a line of its own. -/
  | entry
deriving DecidableEq, Repr

namespace Place

/-- What separates a value from the mark before it on the same line. -/
def separator : Place → List Char
  | root => []
  | _ => [' ']

/-- The column of a sequence below its tag or key, in a collection at `column`. -/
def sequenceColumn (column : Nat) : Place → Nat
  | root => 0
  | item => column + 2
  | afterKey | entry => column

/-- The column of a mapping below its tag or key, in a collection at `column`. -/
def mappingColumn (column : Nat) : Place → Nat
  | root => 0
  | _ => column + 2

end Place

/-- A key in front of its colon. -/
def inlineKey (column : Nat) : Value → List Char
  | .tagged name v => tag name ++ ' ' :: inlineKey column v
  | v => (leaf? (column + 2) v).getD []

mutual

/-- A value in a collection at `column`, with all that separates it from the mark before it, up to
the end of its last line. -/
def node (column : Nat) (place : Place) : Value → List Char
  | .sequence vs =>
      if vs.isEmpty then place.separator ++ line ['[', ']']
      else
        match place with
        | .root => sequence 0 vs
        | .afterKey => '\n' :: spaces column ++ sequence column vs
        | .item | .entry => ' ' :: sequence (column + 2) vs
  | .mapping es =>
      if es.isEmpty then place.separator ++ line ['{', '}']
      else
        match place with
        | .root => mapping 0 es
        | .afterKey => '\n' :: spaces (column + 2) ++ mapping (column + 2) es
        | .item | .entry => ' ' :: mapping (column + 2) es
  | .tagged name v => place.separator ++ tag name ++ underTag column place v
  | v => place.separator ++ line ((leaf? (column + 2) v).getD [])
termination_by structural v => v

/-- A value behind its tag. -/
def underTag (column : Nat) (place : Place) : Value → List Char
  | .sequence vs =>
      if vs.isEmpty then ' ' :: line ['[', ']']
      else
        let column := place.sequenceColumn column
        '\n' :: spaces column ++ sequence column vs
  | .mapping es =>
      if es.isEmpty then ' ' :: line ['{', '}']
      else
        let column := place.mappingColumn column
        '\n' :: spaces column ++ mapping column es
  | v => ' ' :: line ((leaf? (column + 2) v).getD [])
termination_by structural v => v

/-- The items of a sequence at `column`, the first on the line that is already begun. -/
def sequence (column : Nat) : List Value → List Char
  | [] => []
  | v :: vs =>
      '-' :: node column .item v ++ if vs.isEmpty then [] else spaces column ++ sequence column vs
termination_by structural vs => vs

/-- The entries of a mapping at `column`, the first on the line that is already begun. -/
def mapping (column : Nat) : List (Value × Value) → List Char
  | [] => []
  | (k, v) :: es =>
      (if isInlineKey k then inlineKey column k ++ ':' :: node column .afterKey v
        else '?' :: node column .entry k ++ spaces column ++ ':' :: node column .entry v) ++
      if es.isEmpty then [] else spaces column ++ mapping column es
termination_by structural es => es

end

/-! ## What can be written -/

mutual

/-- Can this value be written?  Of a tag directly on another there is no written form, and none is
made for a mapping of one entry whose key is again a mapping of one entry or has a tag.  `free` says
that no tag stands on the value itself. -/
def isWritable (free : Bool) : Value → Bool
  | .sequence vs => areWritable vs
  | .mapping es => entriesAreWritable (free && es.length == 1) es
  | .tagged _ v => free && isWritable false v
  | _ => true
termination_by structural v => v

/-- Can all these values be written? -/
def areWritable : List Value → Bool
  | [] => true
  | v :: vs => isWritable true v && areWritable vs
termination_by structural vs => vs

/-- Can all these entries be written?  `single` says that they are the one entry of a mapping
without tag. -/
def entriesAreWritable (single : Bool) : List (Value × Value) → Bool
  | [] => true
  | (k, v) :: es =>
      (match k with
        | .tagged .. => !single
        | .mapping [_] => !single
        | _ => true) &&
      isWritable true k && isWritable true v && entriesAreWritable single es
termination_by structural es => es

end

end OperatorBundle.Yaml.Layout

namespace OperatorBundle.Yaml

/-- The characters of a written document; `none` if the value cannot be written. -/
def writeChars (v : Value) : Option (List Char) :=
  if Layout.isWritable true v then some (Layout.node 0 .root v) else none

/-- Writes a document. -/
def write (v : Value) : Option String :=
  (writeChars v).map String.ofList

end OperatorBundle.Yaml
