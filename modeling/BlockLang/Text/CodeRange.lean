/-!
# Sets of code points

A Unicode property is given by the ascending list of its ranges of code points,
both ends included.
-/

namespace BlockLang.Text

/-- Whether one of the ranges holds a code point. -/
def inRanges (ranges : List (Nat × Nat)) (n : Nat) : Bool :=
  ranges.any fun (low, high) => low ≤ n && n ≤ high

end BlockLang.Text
