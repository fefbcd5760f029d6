/-!
# What can be wrong with a YAML text

One constructor for each reason that a text is no document, and the wording of each.
-/

namespace OperatorBundle.Yaml

/-- Why a text cannot be read. -/
inductive Defect where
  /-- The text holds a character that no stream may hold. -/
  | character
  /-- No token stands here, or a token is broken off. -/
  | token
  /-- A key that must be followed by a colon is not. -/
  | missingColon
  /-- The tokens stand in an order that no document has. -/
  | arrangement
  /-- A directive is repeated, or asks for a version that is not understood. -/
  | directive
  /-- A tag uses a handle that no directive declares. -/
  | tagHandle
  /-- An alias names no anchor before it. -/
  | anchor
  /-- Collections are nested too deeply. -/
  | depth
  /-- Aliases are followed too often. -/
  | repetition
  /-- A scalar has a type that its text does not fit. -/
  | scalar
  /-- A mapping has two equal keys. -/
  | duplicateKey
  /-- The stream goes on after its only document. -/
  | surplus
deriving DecidableEq, Repr, Inhabited

/-- What the user reads about a defect. -/
def Defect.message : Defect → String
  | character => "control characters are not allowed"
  | token => "found a character that cannot start or end a token here"
  | missingColon => "could not find expected ':'"
  | arrangement => "did not find the expected token"
  | directive => "found an unusable directive"
  | tagHandle => "found an undefined tag handle"
  | anchor => "unknown anchor"
  | depth => "recursion limit exceeded"
  | repetition => "repetition limit exceeded"
  | scalar => "a scalar does not fit its type"
  | duplicateKey => "duplicate entry in a mapping"
  | surplus => "the stream holds more than one document"

end OperatorBundle.Yaml
