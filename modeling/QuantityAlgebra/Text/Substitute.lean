/-!
# Substitution in texts

`substitute pattern value text` puts `value` in the place of every occurrence of `pattern`, found
from left to right without overlap. What is put in is not looked at again. The pattern is not empty.
-/

namespace QuantityAlgebra.Text

/-- Passes over `skip` characters, then substitutes in the rest. -/
def substituteFrom (pattern value : List Char) : Nat → List Char → List Char
  | _, [] => []
  | skip + 1, _ :: rest => substituteFrom pattern value skip rest
  | 0, c :: rest =>
    if pattern.isPrefixOf (c :: rest) then
      value ++ substituteFrom pattern value (pattern.length - 1) rest
    else c :: substituteFrom pattern value 0 rest

/-- The text with every occurrence of `pattern` replaced by `value` (`replace`). -/
def substitute (pattern value text : List Char) : List Char := substituteFrom pattern value 0 text

end QuantityAlgebra.Text
