import OperatorBundle.Text.Ranges

/-!
# White space

The characters with the Unicode property White_Space, and texts made of nothing else.
-/

namespace OperatorBundle.Text

/-- The ranges of code points with the property White_Space, in ascending order. -/
def blankRanges : List (Nat × Nat) :=
  [(0x09, 0x0D), (0x20, 0x20), (0x85, 0x85), (0xA0, 0xA0), (0x1680, 0x1680), (0x2000, 0x200A),
   (0x2028, 0x2029), (0x202F, 0x202F), (0x205F, 0x205F), (0x3000, 0x3000)]

/-- Is this character white space? -/
def isBlank (c : Char) : Bool := isAmong blankRanges c.toNat

/-- Does this text hold white space at most? -/
def allBlank (s : String) : Bool :=
  s.toList.all isBlank

/-- The property has twenty-five characters. -/
example : (blankRanges.map fun (first, last) => last + 1 - first).sum = 25 := by decide

end OperatorBundle.Text
