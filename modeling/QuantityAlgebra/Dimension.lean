/-!
# Dimensions

The dimension of a vector quantity is its number of components, a 32-bit word. Nothing is ever
computed with dimensions: they are compared, ordered and written down.
-/

namespace QuantityAlgebra

/-- The number of components of a vector quantity. -/
abbrev Dimension := UInt32

/-- The one dimension a cross product is defined for (`CROSS_DIMENSION`). -/
def crossDimension : Dimension := 3

end QuantityAlgebra
