/-!
# What a TOML document holds

Values, and tables of them.  Of numbers and dates only the kind is kept, since no setting is one.
-/

namespace OperatorBundle.Toml

/-- The contents of a document or of a part of it. -/
inductive Value where
  | string (text : String)
  | integer (value : Int)
  | float
  | boolean (value : Bool)
  | dateTime
  | array (items : List Value)
  | table (entries : List (String × Value))
deriving Inhabited, Repr

/-- Names with what they stand for, each name once. -/
abbrev Table := List (String × Value)

/-- A dotted key. -/
abbrev Key := List String

namespace Value

/-- The text of a string. -/
def string? : Value → Option String
  | string text => some text
  | _ => none

/-- Pairs the strings of a section with the names that they are given under.  A table must hold
strings only, under some of the given names.  An array gives them in the order of the names; it may
stop early, and what it holds beyond the last name does not count. -/
def settings? (names : List String) : Value → Option (List (String × String))
  | table entries => entries.mapM fun (name, v) =>
      if names.contains name then v.string?.map (name, ·) else none
  | array items => (names.zip items).mapM fun (name, v) => v.string?.map (name, ·)
  | _ => none

end Value

end OperatorBundle.Toml
