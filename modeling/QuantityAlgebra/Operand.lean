import QuantityAlgebra.Classification

/-!
# Operands

An operand is a classified slot: a scalar, a vector of known dimension, or a group with the
candidates that are still open for it. Members of a group and stand-alone vectors are alike here.
Candidates can only be taken away (`restrict`), and only a group has any.
-/

namespace QuantityAlgebra

/-- What a slot holds in a partial resolution (`OperandLeaf`). -/
inductive Operand
  | scalar (quantity : Quantity)
  | vector (quantity : Quantity) (dimension : Dimension)
  /-- A group, its member for each dimension, and the dimensions it may still take. -/
  | group (quantity : Quantity) (members : DimensionMap Quantity) (candidates : DimensionSet)
  deriving DecidableEq, Inhabited

namespace Operand

/-- The operand a quantity is; a group starts with every dimension it has a member for
(`classify`). -/
def classify (classifier : Classifier) (q : Quantity) : Operand :=
  match classifier q with
  | .scalar => .scalar q
  | .fixedVector d => .vector q d
  | .groupMember d => .vector q d
  | .group members => .group q members (.ofList members.keys)

/-- Whether the operand is a group (`is_group`). -/
def isGroup : Operand → Bool
  | .group .. => true
  | _ => false

/-- The quantity the slot was declared with. -/
def declared : Operand → Quantity
  | .scalar q => q
  | .vector q _ => q
  | .group q _ _ => q

/-- The dimensions a group may still take. -/
def candidates : Operand → DimensionSet
  | .group _ _ candidates => candidates
  | _ => ∅

/-- The dimensions the operand may have as a vector: what `infer_dimensions` says of a leaf. -/
def dimensions : Operand → DimensionSet
  | .scalar _ => ∅
  | .vector _ d => .single d
  | .group _ _ candidates => candidates

/-- The one quantity bound to the slot; for a group the member for its only candidate
(`concrete_type`). -/
def concrete? : Operand → Option Quantity
  | .scalar q => some q
  | .vector q _ => some q
  | .group _ members candidates => candidates.single?.bind members.get?

/-- Keeps of a group's candidates those in `dimensions`, as `OperandTable.restrict` does. -/
def restrict (operand : Operand) (dimensions : DimensionSet) : Operand :=
  match operand with
  | .group q members candidates => .group q members (candidates ∩ dimensions)
  | other => other

@[simp] theorem declared_classify (classifier : Classifier) (q : Quantity) :
    (classify classifier q).declared = q := by
  unfold classify
  cases classifier q <;> rfl

end Operand

end QuantityAlgebra
