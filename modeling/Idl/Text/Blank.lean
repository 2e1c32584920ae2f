import Idl.Text.CodeRanges

/-!
# Blanks

The characters with the `White_Space` property.

* `isBlank`: the test.
-/

namespace Idl.Text

/-- The ranges of the `White_Space` property. -/
def blankRanges : CodeRanges :=
  [(0x9, 0xd), (0x20, 0x20), (0x85, 0x85), (0xa0, 0xa0), (0x1680, 0x1680), (0x2000, 0x200a),
   (0x2028, 0x2029), (0x202f, 0x202f), (0x205f, 0x205f), (0x3000, 0x3000)]

/-- White space of any script. -/
def isBlank (c : Char) : Bool :=
  blankRanges.contains c

end Idl.Text
