import OperatorBundle.Yaml.Defect

/-!
# Tokens

The words of a YAML stream: indicators, the brackets that indentation stands for, and scalars with
their contents already unfolded.
-/

namespace OperatorBundle.Yaml

/-- The characters of a tag.  `none` stands for a group of escaped octets that encodes no
character. -/
abbrev TagText := List (Option Char)

/-- A word of a stream. -/
inductive Token where
  | streamEnd
  /-- The directive that names the version of the language. -/
  | versionDirective (major minor : Nat)
  /-- The directive that lets `handle` abbreviate the tags that begin with `stem`. -/
  | tagDirective (handle : List Char) (stem : TagText)
  | documentStart
  | documentEnd
  | blockSequenceStart
  | blockMappingStart
  /-- Closes the innermost block collection. -/
  | blockEnd
  | flowSequenceStart
  | flowSequenceEnd
  | flowMappingStart
  | flowMappingEnd
  | blockEntry
  | flowEntry
  | key
  | value
  | reference (name : List Char)
  | anchor (name : List Char)
  /-- A tag in two parts; an empty handle stands for no abbreviation. -/
  | tag (handle : List Char) (suffix : TagText)
  /-- A scalar; `plain` if it is written without quotes or block indicator. -/
  | scalar (text : List Char) (plain : Bool)
deriving DecidableEq, Repr, Inhabited

/-- What splitting a text yields: the tokens that are known for certain before the first defect, and
that defect if there is one. -/
structure TokenStream where
  tokens : List Token
  defect : Option Defect
deriving Repr, Inhabited

end OperatorBundle.Yaml
