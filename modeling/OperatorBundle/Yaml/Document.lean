import OperatorBundle.Yaml.Token.Scan
import OperatorBundle.Yaml.Value.OfDocument

/-!
# Documents

The two ways to read a text: as a stream that holds one document, or as a stream of which only the
first document counts.
-/

namespace OperatorBundle.Yaml

/-- The value of a document that may be missing; one that is missing is null. -/
def Value.ofContent (content : Option (Node AnchorName)) : Except Defect Value := do
  match content with
  | some node => Value.ofDocument (← LinkedDocument.ofNode node)
  | none => return .null

/-- Reads the characters of a stream of one document. -/
def readChars (text : List Char) : Except Defect Value := do
  Value.ofContent (← Node.ofStream (TokenStream.ofText text))

/-- Reads the first document of the characters of a stream. -/
def readFirstChars (text : List Char) : Except Defect Value := do
  Value.ofContent (← Node.ofStreamStart (TokenStream.ofText text))

/-- Reads a stream of one document.  A stream without documents reads as null. -/
def read (text : String) : Except Defect Value :=
  readChars text.toList

/-- Reads the first document of a stream; `none` if there is none, or it is null. -/
def readFirst (text : String) : Except Defect (Option Value) := do
  let value ← readFirstChars text.toList
  return if value.isNull then none else some value

end OperatorBundle.Yaml
