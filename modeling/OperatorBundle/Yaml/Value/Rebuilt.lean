import OperatorBundle.Yaml.Value.Basic

/-!
# Values made anew

A value that becomes part of a record is made anew from what it shows: a tag is named as it is shown,
and a mapping is put together entry by entry.
-/

namespace OperatorBundle.Yaml

/-- Puts a value under a key: in the place of the old value if there is one, else at the end. -/
def Entries.insert (entries : Entries) (key value : Value) : Entries :=
  match entries with
  | [] => [(key, value)]
  | (k, v) :: rest => if k.same key then (k, value) :: rest else (k, v) :: insert rest key value

namespace Value

/-- The name that a tag is shown with: an exclamation mark in front of more counts as the one that
all tags begin with. -/
def shownTag (name : String) : String :=
  match name.toList with
  | '!' :: c :: r => String.ofList (c :: r)
  | _ => name

mutual

/-- The value made anew. -/
def rebuilt : Value → Value
  | tagged name v => tagged (shownTag name) v.rebuilt
  | sequence items => sequence (rebuiltItems items)
  | mapping entries => mapping (rebuiltEntries [] entries)
  | v => v
termination_by structural v => v

/-- The items of a sequence made anew. -/
def rebuiltItems : List Value → List Value
  | [] => []
  | v :: vs => v.rebuilt :: rebuiltItems vs
termination_by structural vs => vs

/-- The entries of a mapping made anew, behind those that have been made. -/
def rebuiltEntries (made : Entries) : List (Value × Value) → Entries
  | [] => made
  | (k, v) :: es => rebuiltEntries (made.insert k.rebuilt v.rebuilt) es
termination_by structural es => es

end

end Value

end OperatorBundle.Yaml
