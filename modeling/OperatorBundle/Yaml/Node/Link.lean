import OperatorBundle.Yaml.Node.OfTokens

/-!
# What aliases mean

An anchor gets as its number how many different names were anchored before it, and an alias the
number of the last anchor of its name before it.  A name that is anchored again takes a number that
the next new name then shares: of all nodes with one number, aliases mean the last in the document.
-/

namespace OperatorBundle.Yaml

/-- The number of each name anchored so far; a name stands once. -/
abbrev AnchorNumbers := List (AnchorName × Nat)

/-- What settles aliases: it keeps the numbers, and fails at an alias without anchor. -/
abbrev Linker := StateT AnchorNumbers (Except Defect)

namespace Node

/-- Gives an anchor its number. -/
def linkProperties (p : Properties AnchorName) : Linker (Properties Nat) := do
  match p.anchor with
  | none => return { tag := p.tag }
  | some name =>
      let numbers ← get
      let number := numbers.length
      set ((name, number) :: numbers.filter (·.1 != name))
      return { anchor := some number, tag := p.tag }

mutual

/-- Replaces the names of anchors by their numbers, in the order of the document. -/
def link : Node AnchorName → Linker (Node Nat)
  | reference name => do
      match (← get).lookup name with
      | some number => return .reference number
      | none => throw .anchor
  | scalar p text plain => return .scalar (← linkProperties p) text plain
  | sequence p items => return .sequence (← linkProperties p) (← linkItems items)
  | mapping p entries => return .mapping (← linkProperties p) (← linkEntries entries)
termination_by structural node => node

/-- `link` for the members of a sequence. -/
def linkItems : List (Node AnchorName) → Linker (List (Node Nat))
  | [] => return []
  | item :: items => return (← item.link) :: (← linkItems items)
termination_by structural items => items

/-- `link` for the members of a mapping. -/
def linkEntries : List (Node AnchorName × Node AnchorName) → Linker (List (Node Nat × Node Nat))
  | [] => return []
  | (key, value) :: entries => return (← key.link, ← value.link) :: (← linkEntries entries)
termination_by structural entries => entries

end

/-- The number in front of a node, and the node. -/
def numbered (node : Node Nat) : List (Nat × Node Nat) :=
  (node.properties.anchor.map (·, node)).toList

mutual

/-- All nodes with a number, in the order of the document. -/
def anchored : Node Nat → List (Nat × Node Nat)
  | reference _ => []
  | scalar p text plain => numbered (.scalar p text plain)
  | sequence p items => numbered (.sequence p items) ++ anchoredItems items
  | mapping p entries => numbered (.mapping p entries) ++ anchoredEntries entries
termination_by structural node => node

/-- `anchored` for the members of a sequence. -/
def anchoredItems : List (Node Nat) → List (Nat × Node Nat)
  | [] => []
  | item :: items => item.anchored ++ anchoredItems items
termination_by structural items => items

/-- `anchored` for the members of a mapping. -/
def anchoredEntries : List (Node Nat × Node Nat) → List (Nat × Node Nat)
  | [] => []
  | (key, value) :: entries => key.anchored ++ value.anchored ++ anchoredEntries entries
termination_by structural entries => entries

end

end Node

/-- A document whose aliases are settled. -/
structure LinkedDocument where
  root : Node Nat
  /-- The nodes that aliases mean, by their numbers; the first of a number counts. -/
  targets : List (Nat × Node Nat)
deriving Inhabited

/-- Settles the aliases of a document. -/
def LinkedDocument.ofNode (node : Node AnchorName) : Except Defect LinkedDocument := do
  let root ← (node.link).run' []
  return { root, targets := root.anchored.reverse }

end OperatorBundle.Yaml
