import OperatorBundle.Yaml.Node.Link
import OperatorBundle.Yaml.Value.Scalar

/-!
# From nodes to values

Types the scalars of a document and puts nodes in the place of aliases.  A document is refused if
collections are nested more than `Value.depthLimit` deep, if a mapping has two equal keys, or if
aliases are followed more than a hundred times as often as the document has events.
-/

namespace OperatorBundle.Yaml

/-- How many collections may be nested. -/
def Value.depthLimit : Nat := 128

/-- What types a document: it counts down how many aliases may still be followed. -/
abbrev Composer := StateT Nat (Except Defect)

namespace LinkedDocument

/-- How often aliases may be followed. -/
def aliasLimit (document : LinkedDocument) : Nat := 100 * document.root.events

/-- The node that a node stands for: itself unless it is an alias. -/
def target (document : LinkedDocument) : Node Nat → Composer (Node Nat)
  | .reference number => do
      match ← get with
      | 0 => throw .repetition
      | n + 1 => set n
      match document.targets.lookup number with
      | some node => return node
      | none => throw .anchor
  | node => return node

end LinkedDocument

namespace Value

/-- Puts the tag of a node around its value. -/
def withTag (tag : Option TagText) (v : Value) : Value :=
  match tag.bind ownTag? with
  | some name => tagged name v
  | none => v

/-- A mapping with the given entries, unless two of their keys are equal. -/
def ofEntries (read : List (Value × Value)) : Except Defect Value :=
  let rec distinct : List Value → Bool
    | [] => true
    | key :: keys => !keys.any (key.same ·) && distinct keys
  if distinct (read.map (·.1)) then .ok (mapping read) else .error .duplicateKey

/-- The value of a node that is nested in collections; `depth` further ones may be nested in one
another. -/
def ofNode (document : LinkedDocument) : Nat → Node Nat → Composer Value
  | depth, node => do
      match ← document.target node with
      | .reference _ => throw .anchor
      | .scalar p text plain => return withTag p.tag (← ofScalar p.tag text plain)
      | .sequence p items =>
          match depth with
          | 0 => throw .depth
          | depth + 1 => return withTag p.tag (sequence (← items.mapM (ofNode document depth)))
      | .mapping p entries =>
          match depth with
          | 0 => throw .depth
          | depth + 1 =>
              let read ← entries.mapM fun (key, value) =>
                return (← ofNode document depth key, ← ofNode document depth value)
              return withTag p.tag (← ofEntries read)
termination_by structural depth => depth

/-- The value of a document. -/
def ofDocument (document : LinkedDocument) : Except Defect Value :=
  (ofNode document depthLimit document.root).run' document.aliasLimit

end Value

end OperatorBundle.Yaml
