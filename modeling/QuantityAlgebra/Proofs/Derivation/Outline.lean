import QuantityAlgebra.Proofs.Derivation.Agreement
import QuantityAlgebra.Proofs.Resolution.Comparison

/-!
# Tables of one outline

The outline of a table is what it says before any dimension is chosen: which slots hold a group, and
the type of those that do not. Two tables may have the same outline on a tree and yet offer
different members, or hold further slots that the tree does not refer to. Such tables have the same
group slots to choose for, the tree has the same kind and under every choice the same type, and what
both select is derived alike, up to the signature it is derived of.

Results:
* `SameOutline.agrees`, `SameOutline.referencedGroupSlots`, `SameOutline.kind`: what is the same.
* **`SameOutline.derivation_fixAll`**: a selection is derived alike.
-/

namespace QuantityAlgebra

namespace Operand

variable {o p : Operand}

/-- The type of what is no group; a group has none before its dimension is chosen. -/
def type? : Operand → Option ExprType
  | .scalar _ => some .scalar
  | .vector _ d => some (.vector d)
  | .group .. => none

theorem isGroup_congr (h : o.type? = p.type?) : o.isGroup = p.isGroup := by
  cases o <;> cases p <;> simp_all [type?, isGroup]

theorem kind_congr (h : o.type? = p.type?) : o.kind = p.kind := by
  cases o <;> cases p <;> simp_all [type?, kind]

theorem typeAt_congr (h : o.type? = p.type?) (d : Dimension) : o.typeAt d = p.typeAt d := by
  cases o <;> cases p <;> simp_all [type?, typeAt]

end Operand

namespace OperandTable

variable {t u : OperandTable} {e : Expr} {choice : Choice} {dims : List Dimension} {τ : ExprType}

/-- In every slot that the tree refers to both tables hold a group, or something of one type. -/
def SameOutline (t u : OperandTable) (e : Expr) : Prop :=
  ∀ slot, e.references slot = true →
    (t.get? slot).map Operand.type? = (u.get? slot).map Operand.type?

namespace SameOutline

/-- What the type of an operand settles is the same in each slot. -/
theorem map_eq {α : Type} (h : t.SameOutline u e) {slot : Nat}
    (referenced : e.references slot = true) {view : Operand → α}
    (settled : ∀ o p : Operand, o.type? = p.type? → view o = view p) :
    (t.get? slot).map view = (u.get? slot).map view := by
  have same := h slot referenced
  revert same
  cases t.get? slot <;> cases u.get? slot <;> intro same
  case none.none => rfl
  case some.some o p => exact congrArg some (settled o p (Option.some.inj same))
  all_goals contradiction

theorem agrees (h : t.SameOutline u e) (choice : Choice) : t.Agrees choice u choice e :=
  fun slot referenced => h.map_eq referenced fun _ _ same => Operand.typeAt_congr same (choice slot)

theorem hasType_iff (h : t.SameOutline u e) : HasType t choice e τ ↔ HasType u choice e τ :=
  HasType.iff_of_agrees (h.agrees choice)

/-- The kind of a tree is settled by the outline. -/
theorem kind (h : t.SameOutline u e) : e.kind t = e.kind u :=
  Expr.kind_congr fun _ referenced => h.map_eq referenced fun _ _ => Operand.kind_congr

theorem referencedGroupSlots (h : t.SameOutline u e) :
    t.referencedGroupSlots e = u.referencedGroupSlots e := by
  refine referencedGroupSlots_congr fun slot => ?_
  rw [mem_referencedGroupSlots, mem_referencedGroupSlots, mem_groupSlots, mem_groupSlots]
  refine and_congr_left fun referenced => ?_
  have same := h.map_eq referenced fun _ _ => Operand.isGroup_congr
  cases ht : t.get? slot <;> cases hu : u.get? slot <;> simp_all

theorem choiceOf (h : t.SameOutline u e) (dims : List Dimension) :
    t.choiceOf e dims = u.choiceOf e dims := by
  rw [OperandTable.choiceOf, OperandTable.choiceOf, h.referencedGroupSlots]

/-- **What both tables select is derived alike** of any signature. -/
theorem derivation_fixAll (h : t.SameOutline u e) (config : Config) (signature : Signature)
    (types : t.Types e dims τ) (types' : u.Types e dims τ) :
    e.derivation config (fixAll (t.referencedGroupSlots e) dims t) signature =
      e.derivation config (fixAll (u.referencedGroupSlots e) dims u) signature := by
  have narrowed := narrows_fixAll (t.referencedGroupSlots e) dims t
  have narrowed' := narrows_fixAll (u.referencedGroupSlots e) dims u
  have agrees := ((narrowed.agrees (t.choiceOf e dims) e).trans (h.agrees _)).trans
    (narrowed'.agrees (t.choiceOf e dims) e).symm
  exact derivation_of_agrees config signature (settled_fixAll types.1)
    (h.choiceOf dims ▸ settled_fixAll types'.1) agrees (narrowed.hasType_iff.mpr types.2)

end SameOutline

end OperandTable

end QuantityAlgebra
