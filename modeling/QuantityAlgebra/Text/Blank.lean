/-!
# Blank characters

`isBlank` is the Unicode property White_Space: twenty-five code points in ten ranges. Expression
text may hold any of them anywhere, so `strip` drops them before anything else looks at the text.

Results: `strip_strip`, stripping is idempotent.
-/

namespace QuantityAlgebra.Text

/-- The ranges of code points with the property White_Space, ascending, both ends included. -/
def blankRanges : List (Nat × Nat) :=
  [(0x09, 0x0D), (0x20, 0x20), (0x85, 0x85), (0xA0, 0xA0), (0x1680, 0x1680), (0x2000, 0x200A),
    (0x2028, 0x2029), (0x202F, 0x202F), (0x205F, 0x205F), (0x3000, 0x3000)]

/-- Whether a character has the property White_Space (`is_whitespace`). -/
def isBlank (c : Char) : Bool :=
  blankRanges.any fun range => range.1 ≤ c.toNat && c.toNat ≤ range.2

/-- The text without its blank characters. -/
def strip (text : List Char) : List Char := text.filter fun c => !isBlank c

@[simp] theorem strip_strip (text : List Char) : strip (strip text) = strip text := by
  simp [strip, List.filter_filter]

end QuantityAlgebra.Text
