import QuantityAlgebra.Quantity
import QuantityAlgebra.Dimension.Map
import QuantityAlgebra.Dimension.Set

/-!
# Classifications

How a quantity takes part in a derivation: as a scalar, as a vector of one dimension, or as a group,
a family of vectors with one member for each of its dimensions. A member of a group is a vector of
its own dimension, told apart from a stand-alone vector only by its classification.

A `Classifier` is any function from quantities to classifications. Resolution asks nothing else of
the population it works in.
-/

namespace QuantityAlgebra

/-- How a quantity takes part in a derivation. -/
inductive Classification
  | scalar
  /-- A stand-alone vector quantity. -/
  | fixedVector (dimension : Dimension)
  /-- The member of a group for one dimension. -/
  | groupMember (dimension : Dimension)
  /-- A family of vectors, with its member for each dimension. -/
  | group (members : DimensionMap Quantity)
  deriving DecidableEq, Inhabited

/-- What every quantity is classified as: an `OperandClassifier` is its function `classify`. -/
abbrev Classifier := Quantity → Classification

namespace Classification

/-- The dimensions a target so classified accepts; nothing for a scalar (`vector_dimensions`). -/
def vectorDimensions? : Classification → Option DimensionSet
  | .scalar => none
  | .fixedVector d => some (.single d)
  | .groupMember d => some (.single d)
  | .group members => some (.ofList members.keys)

end Classification

end QuantityAlgebra
