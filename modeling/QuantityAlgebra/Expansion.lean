import QuantityAlgebra.Typing.Verification

/-!
# Expansion

Every way to fix each group slot that a tree refers to at one of its candidates, as far as the
result is consistent. Slots are taken in the order of the signature and candidates in the order they
are held, so the tables come in lexicographic order of the choices. Groups the tree never refers to
are left open.
-/

namespace QuantityAlgebra

namespace OperandTable

/-- The tables in which each of the slots is fixed at one of its candidates, in the order in which
`recurse` comes to them. -/
def branches : List Nat → OperandTable → List OperandTable
  | [], t => [t]
  | slot :: slots, t =>
    (t.candidates slot).toList.flatMap fun d => branches slots (t.fix slot d)

/-- The consistent tables in which no referenced group holds a choice (`expand`). -/
def expand (t : OperandTable) (e : Expr) : List OperandTable :=
  (branches (t.referencedGroupSlots e) t).filter fun branch => e.verifies branch

end OperandTable

end QuantityAlgebra
