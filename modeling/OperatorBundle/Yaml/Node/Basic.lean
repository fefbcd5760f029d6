import OperatorBundle.Yaml.Token.Basic

/-!
# Nodes

The tree that the tokens of a document spell out.  Scalars are still texts without a type, and
aliases still point at anchors.  `Node α` names anchors by values of `α`: by their written names in
what is read, and by numbers once it is settled which node an alias means.
-/

namespace OperatorBundle.Yaml

/-- What may be written in front of a node. -/
structure Properties (α : Type) where
  anchor : Option α := none
  tag : Option TagText := none
deriving Repr, Inhabited

/-- The node of a document, or one inside another. -/
inductive Node (α : Type) where
  /-- Another node, once more. -/
  | reference (anchor : α)
  /-- A text; `plain` if it is written without quotes or block indicator. -/
  | scalar (properties : Properties α) (text : List Char) (plain : Bool)
  | sequence (properties : Properties α) (items : List (Node α))
  | mapping (properties : Properties α) (entries : List (Node α × Node α))
deriving Inhabited

namespace Node

variable {α : Type}

/-- What stands where nothing is written. -/
def empty (properties : Properties α := {}) : Node α :=
  .scalar properties [] true

/-- What is written in front of a node; nothing can stand before an alias. -/
def properties : Node α → Properties α
  | reference _ => {}
  | scalar p _ _ | sequence p _ | mapping p _ => p

mutual

/-- The number of steps in which a reader of events sees a node: one for a scalar or an alias, and
two for a collection besides those of its members. -/
def events : Node α → Nat
  | reference _ | scalar .. => 1
  | sequence _ items => eventsOfItems items + 2
  | mapping _ entries => eventsOfEntries entries + 2
termination_by structural node => node

/-- The steps of the members of a sequence. -/
def eventsOfItems : List (Node α) → Nat
  | [] => 0
  | item :: items => item.events + eventsOfItems items
termination_by structural items => items

/-- The steps of the members of a mapping. -/
def eventsOfEntries : List (Node α × Node α) → Nat
  | [] => 0
  | (key, value) :: entries => key.events + value.events + eventsOfEntries entries
termination_by structural entries => entries

end

end Node

end OperatorBundle.Yaml
