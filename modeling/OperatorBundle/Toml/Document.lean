import OperatorBundle.Toml.Statement

/-!
# Documents

Puts the statements of a document together into one table.  A table is defined once: by its
heading, by a value, or by dotted keys under one heading.  A heading also makes the tables around
its own, and these can still be given a heading of their own.
-/

namespace OperatorBundle.Toml

/-- How a table came about. -/
inductive Origin where
  /-- It has a heading, or is the document, or an element of an array of tables. -/
  | heading
  /-- The heading of a table inside it made it. -/
  | implied
  /-- A dotted key made it. -/
  | dotted
deriving DecidableEq, Repr

/-- What a name stands for while a document is put together. -/
inductive Item where
  | value (v : Value)
  | table (origin : Origin) (items : List (String × Item))
  /-- An array of tables, the last element first. -/
  | elements (last : List (String × Item)) (before : List (List (String × Item)))
deriving Inhabited

namespace Item

/-- Names and what they stand for. -/
abbrev Items := List (String × Item)

/-- Lets a name stand for something else; a new name goes to the end. -/
def set (items : Items) (name : String) (item : Item) : Items :=
  if (items.lookup name).isSome then items.map fun e => if e.1 == name then (name, item) else e
  else items ++ [(name, item)]

/-- Changes the table at the end of a path by `change`.  Tables that are missing on the way are made
with the given origin; a dotted key does not pass through tables with a heading.  Of an array of
tables the last element is meant. -/
def changeAt (made : Origin) (change : Origin → Items → Option Items) :
    Key → Origin → Items → Option Items
  | [], origin, items => change origin items
  | name :: path, _, items =>
      match items.lookup name with
      | none => do
          let inner ← changeAt made change path made []
          return set items name (.table made inner)
      | some (.value _) => none
      | some (.elements last before) => do
          let last ← changeAt made change path .heading last
          return set items name (.elements last before)
      | some (.table origin inner) =>
          if made == .dotted && origin == .heading then none
          else do
            let inner ← changeAt made change path origin inner
            return set items name (.table origin inner)

/-- Gives a table its heading. -/
def openTable (name : String) (_ : Origin) (items : Items) : Option Items :=
  match items.lookup name with
  | none => some (set items name (.table .heading []))
  | some (.table .implied inner) => some (set items name (.table .heading inner))
  | some _ => none

/-- Begins a further element of an array of tables. -/
def openElement (name : String) (_ : Origin) (items : Items) : Option Items :=
  match items.lookup name with
  | none => some (set items name (.elements [] []))
  | some (.elements last before) => some (set items name (.elements [] (last :: before)))
  | some _ => none

/-- Gives a new name a value.  A dotted key can do so in tables that dotted keys made, and other
keys only in others. -/
def assign (isDotted : Bool) (name : String) (v : Value) (origin : Origin) (items : Items) :
    Option Items :=
  if (origin == .dotted) != isDotted || (items.lookup name).isSome then none
  else some (set items name (.value v))

mutual

/-- The value that a name stands for in the end. -/
def toValue : Item → Value
  | value v => v
  | table _ items => .table (toTable items)
  | elements last before => .array ((.table (toTable last) :: toTables before).reverse)
termination_by structural item => item

/-- The table that names make up in the end. -/
def toTable : List (String × Item) → Table
  | [] => []
  | (name, item) :: items => (name, item.toValue) :: toTable items
termination_by structural items => items

/-- `toTable` for each of several tables. -/
def toTables : List (List (String × Item)) → List Value
  | [] => []
  | items :: more => .table (toTable items) :: toTables more
termination_by structural tables => tables

end

/-- Changes the table in front of the last part of a key; `change` is told that part. -/
def changeParent (made : Origin) (change : String → Origin → Items → Option Items) (key : Key)
    (origin : Origin) (items : Items) : Option Items := do
  let name ← key.getLast?
  changeAt made (change name) key.dropLast origin items

/-- Follows the statements one after the other; `path` is the last heading. -/
def follow? : List Statement → Key → Items → Option Items
  | [], _, items => some items
  | .table key :: more, _, items => do
      let items ← changeParent .implied openTable key .heading items
      follow? more key items
  | .element key :: more, _, items => do
      let items ← changeParent .implied openElement key .heading items
      follow? more key items
  | .assignment key v :: more, path, items => do
      let put (name : String) := assign (1 < key.length) name v
      let items ← changeAt .implied (changeParent .dotted put key) path .heading items
      follow? more path items

end Item

/-- The characters of a document behind the mark that may stand in front of it. -/
def skipMark : List Char → List Char
  | '\uFEFF' :: r => r
  | text => text

/-- Reads a document. -/
def read? (text : String) : Option Table := do
  let chars := skipMark text.toList
  let statements ← statements? nestingLimit (chars.length + 1) chars
  let items ← Item.follow? statements [] []
  return Item.toTable items

end OperatorBundle.Toml
