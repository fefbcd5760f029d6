import OperatorBundle.Yaml.Token.Basic
import OperatorBundle.Yaml.Value.Basic

/-!
# The types of scalars

A scalar without quotes or tag is null, a truth value or a number if its text is spelled like one,
and a string otherwise.  One of the four tags of the core types demands the type instead.
-/

namespace OperatorBundle.Yaml

/-- The types that a tag can demand of a scalar. -/
inductive CoreType where
  | null
  | bool
  | integer
  | fraction
deriving DecidableEq, Repr

namespace CoreType

/-- The tag that demands a type. -/
def tag : CoreType → String
  | null => "tag:yaml.org,2002:null"
  | bool => "tag:yaml.org,2002:bool"
  | integer => "tag:yaml.org,2002:int"
  | fraction => "tag:yaml.org,2002:float"

/-- All types that a tag can demand. -/
def all : List CoreType := [null, bool, integer, fraction]

/-- The type that a tag demands. -/
def ofTag? (tag : String) : Option CoreType :=
  all.find? (·.tag == tag)

end CoreType

namespace Value

/-- The spellings of null. -/
def nulls : List String := ["null", "Null", "NULL", "~"]

/-- The spellings of the truth values. -/
def bools : List (String × Bool) :=
  [("true", true), ("True", true), ("TRUE", true), ("false", false), ("False", false),
   ("FALSE", false)]

/-- What a text is when nothing but its spelling tells: `none` for a string.  An integer that is
recognised but too great is refused. -/
def spelled? (text : List Char) : Except Defect (Option Value) :=
  let written := String.ofList text
  if text.isEmpty || nulls.contains written then .ok (some null)
  else
    match bools.lookup written, Number.anyInteger? text with
    | some b, _ => .ok (some (bool b))
    | none, some n =>
        match Number.fit n with
        | .fits => .ok (some (number (.integer n)))
        | .tooGreat => .error .scalar
        | .unknown => .ok ((Number.fraction? text).map fun x => number (.fraction x))
    | none, none =>
        if Number.hasLeadingZero text then .ok none
        else .ok ((Number.fraction? text).map fun x => number (.fraction x))

/-- Would this text be taken for something else than a string if nothing but its spelling told?
Digits with a zero in front count as well, which some readers take for a number. -/
def isAmbiguous (text : List Char) : Bool :=
  match spelled? text with
  | .ok none => Number.hasLeadingZero text
  | _ => true

/-- What a text is when its spelling tells. -/
def ofPlain (text : List Char) : Except Defect Value := do
  return (← spelled? text).getD (string (String.ofList text))

/-- What a text is under a tag that demands a type. -/
def ofCore (type : CoreType) (text : List Char) : Except Defect Value :=
  let written := String.ofList text
  let found :=
    match type with
    | .null => if nulls.contains written then some null else none
    | .bool => (bools.lookup written).map bool
    | .integer => (Number.anyInteger? text).filter (Number.fit · == .fits)
        |>.map fun n => number (.integer n)
    | .fraction => (Number.fraction? text).map fun x => number (.fraction x)
  match found with
  | some v => .ok v
  | none => .error .scalar

/-- The tag of the document's own that a tag text names, without the exclamation mark in front; a
second one in front is dropped as well.  `none` for tags of other kinds, and for those whose escaped
octets encode no characters. -/
def ownTag? (tag : TagText) : Option String := do
  let text ← tag.mapM id
  match text with
  | ['!'] => some "!"
  | '!' :: '!' :: c :: r => some (String.ofList (c :: r))
  | '!' :: r => some (String.ofList r)
  | _ => none

/-- What a scalar without a tag of the document's own is; `plain` says that it is written without
quotes or block indicator. -/
def ofScalar (tag : Option TagText) (text : List Char) (plain : Bool) : Except Defect Value :=
  match tag with
  | none => if plain then ofPlain text else .ok (string (String.ofList text))
  | some tag =>
      match (tag.mapM id).bind (CoreType.ofTag? ∘ String.ofList) with
      | some type => ofCore type text
      | none =>
          if plain && tag.head? == some (some '!') then ofPlain text
          else .ok (string (String.ofList text))

end Value

end OperatorBundle.Yaml
