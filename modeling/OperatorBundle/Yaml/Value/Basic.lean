import OperatorBundle.Yaml.Number

/-!
# Values

The contents of a document with all scalars typed.  A mapping is the list of its entries in the
order of the document; no two of its keys are equal in values that were read.
-/

namespace OperatorBundle.Yaml

/-- The contents of a document or of a part of it. -/
inductive Value where
  | null
  | bool (value : Bool)
  | number (value : Number)
  | string (value : String)
  | sequence (items : List Value)
  | mapping (entries : List (Value × Value))
  /-- A value with a tag of the document's own.  `name` is the tag without the exclamation mark that
  all such tags begin with. -/
  | tagged (name : String) (value : Value)
deriving Inhabited, Repr

/-- The entries of a mapping. -/
abbrev Entries := List (Value × Value)

namespace Value

/-! ## Equality -/

mutual

/-- Do two values count as one key?  The order of the entries of a mapping does not matter. -/
def same : Value → Value → Bool
  | null, null => true
  | bool a, bool b => a == b
  | number a, number b => a.same b
  | string a, string b => a == b
  | sequence a, sequence b => sameItems a b
  | mapping a, mapping b => a.length == b.length && sameEntries a b
  | tagged s a, tagged t b => s == t && a.same b
  | _, _ => false
termination_by structural a => a

/-- Are two sequences the same, item by item? -/
def sameItems : List Value → List Value → Bool
  | [], [] => true
  | a :: as, b :: bs => a.same b && sameItems as bs
  | _, _ => false
termination_by structural as => as

/-- Is each entry of the first mapping one of the second? -/
def sameEntries : List (Value × Value) → List (Value × Value) → Bool
  | [], _ => true
  | (k, v) :: es, fs => fs.any (fun f => k.same f.1 && v.same f.2) && sameEntries es fs
termination_by structural es => es

end

/-! ## Looking through tags -/

/-- The value without its tags. -/
def untagged : Value → Value
  | tagged _ v => v.untagged
  | v => v

/-- Is this null, with tags or without? -/
def isNull (v : Value) : Bool :=
  match v.untagged with
  | null => true
  | _ => false

/-- The truth value that this is, with tags or without. -/
def asBool? (v : Value) : Option Bool :=
  match v.untagged with
  | bool b => some b
  | _ => none

/-- The items, if this is a sequence with tags or without. -/
def asSequence? (v : Value) : Option (List Value) :=
  match v.untagged with
  | sequence items => some items
  | _ => none

/-- The entries, if this is a mapping with tags or without. -/
def asMapping? (v : Value) : Option Entries :=
  match v.untagged with
  | mapping entries => some entries
  | _ => none

/-- Puts a new value in the place of the value under all tags. -/
def underTags (v new : Value) : Value :=
  match v with
  | tagged name w => tagged name (w.underTags new)
  | _ => new

/-! ## Scalars as text -/

/-- The text of a string, a number or a truth value.  A tagged value has none. -/
def scalarText? : Value → Option String
  | string s => some s
  | number n => some n.text
  | bool b => some (if b then "true" else "false")
  | _ => none

end Value

/-! ## Mappings -/

namespace Entries

/-- Is this the key `key`?  A tagged string is not. -/
def isKey (key : String) : Value → Bool
  | .string s => s == key
  | _ => false

/-- The value under a key. -/
def get? (entries : Entries) (key : String) : Option Value :=
  (entries.find? (isKey key ·.1)).map (·.2)

/-- Puts a value under a key: in the place of the old value if there is one, else at the end. -/
def set (entries : Entries) (key : String) (value : Value) : Entries :=
  match entries with
  | [] => [(.string key, value)]
  | (k, v) :: rest => if isKey key k then (k, value) :: rest else (k, v) :: set rest key value

end Entries

end OperatorBundle.Yaml
