/-!
# Ranges of code points

Properties of characters are kept as ranges of the code points that have them.
-/

namespace OperatorBundle.Text

/-- Is a code point in one of the ranges, each given by its first and its last code point? -/
def isAmong (ranges : List (Nat × Nat)) (n : Nat) : Bool :=
  ranges.any fun (first, last) => first ≤ n && n ≤ last

end OperatorBundle.Text
