import QuantityAlgebra.Expr
import QuantityAlgebra.Operand

/-!
# Operand tables

A table holds the operand of each slot of a signature. All that changes in a resolution is in it,
the candidates of its groups, so every occurrence of a slot in a tree sees the same choice.

A group slot that the tree never refers to stays open for ever. In the concrete signature
(`concreteSignature?`) it keeps the quantity it was declared with; every other slot has to be down
to one quantity.

Results: `get?_classify`, what the slots of a signature hold; `get?_restrict`, what narrowing a slot
changes.
-/

namespace QuantityAlgebra

/-- The operand of each slot. -/
structure OperandTable where
  operands : List Operand
  deriving DecidableEq, Inhabited

namespace OperandTable

/-- The table of a signature (`classify`). -/
def classify (classifier : Classifier) (signature : Signature) : OperandTable :=
  ⟨signature.map (Operand.classify classifier)⟩

/-- The operand of a slot (`get`). -/
def get? (t : OperandTable) (slot : Nat) : Option Operand := t.operands[slot]?

/-- The slots that hold a group, in order (`group_slots`). -/
def groupSlots (t : OperandTable) : List Nat :=
  (List.range t.operands.length).filter fun slot => (t.get? slot).any Operand.isGroup

/-- The group slots a tree refers to, in order (`referenced_group_slots`). -/
def referencedGroupSlots (t : OperandTable) (e : Expr) : List Nat :=
  t.groupSlots.filter e.references

/-- The dimensions a group slot may still take. -/
def candidates (t : OperandTable) (slot : Nat) : DimensionSet :=
  ((t.get? slot).map Operand.candidates).getD ∅

/-- Keeps of the candidates of a group slot those in `dimensions` (`restrict`). -/
def restrict (t : OperandTable) (slot : Nat) (dimensions : DimensionSet) : OperandTable :=
  ⟨t.operands.modify slot fun operand => operand.restrict dimensions⟩

/-- Keeps of the candidates of a group slot `d` alone (`fix`). -/
def fix (t : OperandTable) (slot : Nat) (d : Dimension) : OperandTable :=
  t.restrict slot (.single d)

/-- The quantity a slot contributes to the concrete signature. -/
def concreteAt? (e : Expr) (slot : Nat) : Operand → Option Quantity
  | .group q members candidates =>
    if e.references slot then (Operand.group q members candidates).concrete? else some q
  | operand => operand.concrete?

/-- The quantities of all slots as the tree sees them, once none it refers to holds a choice
(`concrete_signature`). -/
def concreteSignature? (t : OperandTable) (e : Expr) : Option Signature :=
  t.operands.zipIdx.mapM fun (operand, slot) => concreteAt? e slot operand

theorem get?_classify (classifier : Classifier) (signature : Signature) (slot : Nat) :
    (classify classifier signature).get? slot =
      signature[slot]?.map (Operand.classify classifier) :=
  List.getElem?_map

/-! ## Narrowing a slot -/

theorem get?_restrict (t : OperandTable) (slot other : Nat) (s : DimensionSet) :
    (t.restrict slot s).get? other =
      if slot = other then (t.get? other).map (·.restrict s) else t.get? other := by
  simp only [get?, restrict, List.getElem?_modify]
  split
  · rfl
  · simp

end OperandTable

end QuantityAlgebra
