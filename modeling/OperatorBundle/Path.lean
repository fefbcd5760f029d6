import OperatorBundle.Text.Split

/-!
# Paths to files

A path is kept as it was written.  Two paths lead to the same place of a store when their components
are equal: repeated and trailing slashes and periods that stand alone further inside do not count.
-/

namespace OperatorBundle

/-- A path as it was written. -/
structure Path where
  text : String
deriving DecidableEq, Repr, Inhabited

namespace Path

instance : ToString Path := ⟨text⟩

/-! ## Components -/

/-- A step of a path. -/
inductive Component where
  /-- The slash that a path begins with. -/
  | root
  /-- The period that a path begins with. -/
  | here
  /-- Two periods. -/
  | up
  | name (text : String)
deriving DecidableEq, Repr, Inhabited

/-- Does a path begin at the root? -/
def isAbsolute (p : Path) : Bool := p.text.toList.head? == some '/'

/-- What the components of a path begin with: a slash, a period that stands alone, or nothing. -/
def lead (s : List Char) : List Char :=
  if s.head? == some '/' then ['/']
  else if s == ['.'] || ['.', '/'].isPrefixOf s then ['.']
  else []

/-- The parts between slashes behind the lead. -/
def parts (s : List Char) : List (List Char) :=
  Text.split '/' (s.drop (lead s).length)

/-- A part that is no component: there is nothing in it, or a period that stands alone. -/
def isIdle (part : List Char) : Bool := part.isEmpty || part == ['.']

/-- The component that a part is. -/
def component (part : List Char) : Component :=
  if part == ['.', '.'] then .up else .name (String.ofList part)

/-- The component that a lead is. -/
def leadComponents (lead : List Char) : List Component :=
  match lead with
  | [] => []
  | c :: _ => if c == '/' then [.root] else [.here]

/-- The components of a path. -/
def components (p : Path) : List Component :=
  let s := p.text.toList
  leadComponents (lead s) ++ ((parts s).filter fun part => !isIdle part).map component

/-- The last component if it is a name. -/
def fileName? (p : Path) : Option String :=
  match p.components.getLast? with
  | some (.name text) => some text
  | _ => none

/-! ## Going up and down -/

/-- The paths above one whose parts, the last part first, stand behind a lead.  Each is the path
below it without its last component and all that only looked like one before it. -/
def above (lead : List Char) : List (List Char) → List Path
  | [] => if lead == ['.'] then [⟨""⟩] else []
  | part :: parts =>
      if isIdle part then above lead parts
      else
        ⟨String.ofList (lead ++ Text.join '/' (parts.dropWhile isIdle).reverse)⟩ :: above lead parts

/-- The paths above a path, the nearest first. -/
def parents (p : Path) : List Path :=
  above (lead p.text.toList) (parts p.text.toList).reverse

/-- The path one component up. -/
def parent? (p : Path) : Option Path := p.parents.head?

/-- A path and the paths above it. -/
def ancestors (p : Path) : List Path := p :: p.parents

/-- The path `q` taken from `p` on.  An absolute path leaves `p` behind. -/
def join (p q : Path) : Path :=
  if q.isAbsolute then q
  else if p.text.isEmpty || p.text.toList.getLast? == some '/' then ⟨p.text ++ q.text⟩
  else ⟨p.text ++ "/" ++ q.text⟩

/-! ## Examples -/

example : (Path.mk "./a//b/./../c/").components =
    [.here, .name "a", .name "b", .up, .name "c"] := by decide
example : (Path.mk "//a/./b").components = [.root, .name "a", .name "b"] := by decide
example : (Path.mk "g/./h/").ancestors = [⟨"g/./h/"⟩, ⟨"g"⟩, ⟨""⟩] := by decide
example : (Path.mk "./a").ancestors = [⟨"./a"⟩, ⟨"."⟩, ⟨""⟩] := by decide
example : (Path.mk "//a/.").ancestors = [⟨"//a/."⟩, ⟨"/"⟩] := by decide
example : (Path.mk "a").join ⟨"b"⟩ = ⟨"a/b"⟩ ∧ (Path.mk "a").join ⟨"/b"⟩ = ⟨"/b"⟩ := by decide

end Path

end OperatorBundle
