/-!
# Sets of characters as code point ranges

* `CodeRanges`: closed ranges of code points, in increasing order.
* `CodeRanges.contains`: membership of a character.
-/

namespace Idl.Text

/-- Closed ranges of code points. -/
abbrev CodeRanges := List (Nat × Nat)

/-- Some range holds the code point of `c`. -/
def CodeRanges.contains (ranges : CodeRanges) (c : Char) : Bool :=
  ranges.any fun r => r.1 ≤ c.toNat && c.toNat ≤ r.2

end Idl.Text
