import OperatorBundle.Toml.Number

/-!
# Values and statements

A document is a list of statements, one to a line: a dotted key with a value, or the heading of a
table or of an element of an array of tables.
-/

namespace OperatorBundle.Toml

/-- How deeply arrays and inline tables may be nested, and how many parts a key may have. -/
def nestingLimit : Nat := 79

/-! ## Inline tables -/

/-- What an inline table holds while it is read.  A table made by a dotted key can still grow. -/
inductive InlineEntry where
  | value (v : Value)
  | dotted (entries : List (String × InlineEntry))
deriving Inhabited

/-- Puts a value under a dotted key, unless it is there already. -/
def InlineEntry.insert : Key → Value → List (String × InlineEntry) →
    Option (List (String × InlineEntry))
  | [], _, _ => none
  | [name], v, entries =>
      if (entries.lookup name).isSome then none else some (entries ++ [(name, .value v)])
  | name :: key, v, entries =>
      match entries.lookup name with
      | none => do
          let inner ← insert key v []
          return entries ++ [(name, .dotted inner)]
      | some (.dotted inner) => do
          let inner ← insert key v inner
          return entries.map fun e => if e.1 == name then (name, .dotted inner) else e
      | some (.value _) => none

mutual

/-- The value that an entry has become. -/
def InlineEntry.toValue : InlineEntry → Value
  | .value v => v
  | .dotted entries => .table (InlineEntry.toTable entries)
termination_by structural e => e

/-- The table that entries have become. -/
def InlineEntry.toTable : List (String × InlineEntry) → Table
  | [] => []
  | (name, e) :: es => (name, e.toValue) :: InlineEntry.toTable es
termination_by structural es => es

end

/-! ## Values

Of the numbers in front of a text the first bounds the parts of a key, the second the nested calls and
the third the depth of nesting. -/

mutual

/-- A value. -/
def value? (limit : Nat) : Nat → Nat → List Char → Option (Value × List Char)
  | 0, _, _ => none
  | n + 1, depth, text =>
      match text with
      | '"' :: _ | '\'' :: _ =>
          (string? text).map fun (said, r) => (.string (String.ofList said), r)
      | '[' :: r =>
          match depth with
          | 0 => none
          | depth + 1 => do
              let (items, r) ← items? limit n depth r
              return (.array items, r)
      | '{' :: r =>
          match depth with
          | 0 => none
          | depth + 1 => do
              let (entries, r) ← entries? limit n depth [] (skipBlanks r)
              return (.table (InlineEntry.toTable entries), r)
      | 't' :: 'r' :: 'u' :: 'e' :: r => some (.boolean true, r)
      | 'f' :: 'a' :: 'l' :: 's' :: 'e' :: r => some (.boolean false, r)
      | _ => numeric? text

/-- The items of an array behind its bracket or a comma. -/
def items? (limit : Nat) : Nat → Nat → List Char → Option (List Value × List Char)
  | 0, _, _ => none
  | n + 1, depth, text =>
      let text := skipLines text.length text
      match text with
      | ']' :: r => some ([], r)
      | _ => do
          let (v, r) ← value? limit n depth text
          match skipLines r.length r with
          | ',' :: r =>
              let (items, r) ← items? limit n depth r
              return (v :: items, r)
          | ']' :: r => return ([v], r)
          | _ => none

/-- The entries of an inline table behind its brace or a comma; a brace that closes it can stand
only behind its opening brace or an entry. -/
def entries? (limit : Nat) : Nat → Nat → List (String × InlineEntry) → List Char →
    Option (List (String × InlineEntry) × List Char)
  | 0, _, _, _ => none
  | n + 1, depth, read, text =>
      match read, text with
      | [], '}' :: r => some ([], r)
      | _, _ => do
          let (key, r) ← key? limit text
          match r with
          | '=' :: r =>
              let (v, r) ← value? limit n depth (skipBlanks r)
              let read ← InlineEntry.insert key v read
              match skipBlanks r with
              | ',' :: r => entries? limit n depth read r
              | '}' :: r => return (read, r)
              | _ => none
          | _ => none

end

/-! ## Statements -/

/-- A line that says something. -/
inductive Statement where
  /-- A value under a dotted key of the table that the last heading names. -/
  | assignment (key : Key) (value : Value)
  /-- The heading of a table. -/
  | table (key : Key)
  /-- The heading of a further element of an array of tables. -/
  | element (key : Key)
deriving Inhabited

/-- The heading of a table behind its bracket. -/
def heading? (limit : Nat) (text : List Char) : Option (Statement × List Char) := do
  match text with
  | '[' :: r =>
      match ← key? limit r with
      | (key, ']' :: ']' :: r) => return (.element key, r)
      | _ => none
  | _ =>
      match ← key? limit text with
      | (key, ']' :: r) => return (.table key, r)
      | _ => none

/-- An assignment. -/
def assignment? (limit : Nat) (text : List Char) : Option (Statement × List Char) := do
  match ← key? limit text with
  | (key, '=' :: r) =>
      let (v, r) ← value? limit (2 * text.length + 2) limit (skipBlanks r)
      return (.assignment key v, r)
  | _ => none

/-- The statements of a text, in which nothing exceeds a limit. -/
def statements? (limit : Nat) : Nat → List Char → Option (List Statement)
  | 0, _ => none
  | n + 1, text =>
      match skipBlanks text with
      | [] => some []
      | '#' :: r => lineEnd? ('#' :: r) >>= statements? limit n
      | '[' :: r => do
          let (s, r) ← heading? limit r
          let more ← lineEnd? r >>= statements? limit n
          return s :: more
      | c :: r =>
          match newline? (c :: r) with
          | some r => statements? limit n r
          | none => do
              let (s, r) ← assignment? limit (c :: r)
              let more ← lineEnd? r >>= statements? limit n
              return s :: more

end OperatorBundle.Toml
