import QuantityAlgebra.Proofs.Derivation.Materialized
import QuantityAlgebra.Proofs.Expansion.Narrowed

/-!
# Tables that narrowing reaches

The table of a signature starts with every dimension a group has a member for, in ascending order.
From there it is narrowed, by the tree or by a restriction, any number of times. Each step takes
candidates away and does nothing else, so whatever the steps and their order, two things stay true
that later stages rely on: the candidates of a group ascend, and each is the dimension of a member.
The order in which a restriction lists its dimensions shows nowhere, as an intersection keeps that
of the candidates.

Results:
* `Reached.narrows`, `Reached.membered`: what is true of whatever steps reach.
* **`run_shrinks`**: what a run of steps leaves of a classified signature.
-/

namespace QuantityAlgebra

namespace OperandTable

/-- The tables that steps reach from the table of a signature, each step by a tree of its own. -/
inductive Reached (classifier : Classifier) (signature : Signature) : OperandTable → Prop
  | classified : Reached classifier signature (classify classifier signature)
  | step {t : OperandTable} (e : Expr) (step : NarrowingStep)
      (reached : Reached classifier signature t) : Reached classifier signature (step.apply e t)

theorem Reached.narrows {classifier : Classifier} {signature : Signature} {t : OperandTable}
    (reached : Reached classifier signature t) : t.Narrows (classify classifier signature) := by
  induction reached with
  | classified => exact Narrows.refl _
  | step e step _ ih => exact (narrows_apply e _ step).trans ih

theorem Reached.membered {classifier : Classifier} {signature : Signature} {t : OperandTable}
    (reached : Reached classifier signature t) : t.Membered :=
  reached.narrows.membered (membered_classify classifier signature)

/-- **Narrowing takes candidates away, keeps their order and does nothing else.** Between two points
of a run of steps over a classified signature the slots stay as many; a group stays the same group,
with the same members, and has some of its candidates left, ascending, each the dimension of a
member; what is no group stays what it is; narrowing by the tree leaves a slot alone that the tree
does not refer to; and the kind of no expression changes. -/
theorem run_shrinks (classifier : Classifier) (signature : Signature) (e : Expr)
    (before steps : List NarrowingStep) :
    let t := (classify classifier signature).run e before
    let u := t.run e steps
    u.operands.length = signature.length ∧
      (∀ slot q members candidates, t.get? slot = some (.group q members candidates) →
        ∃ kept, u.get? slot = some (.group q members kept) ∧
          kept.toList.Sublist candidates.toList ∧ kept.toList.Pairwise (· < ·) ∧
          ∀ d ∈ kept, d ∈ members.keys) ∧
      (∀ slot operand, t.get? slot = some operand → operand.isGroup = false →
        u.get? slot = some operand) ∧
      (∀ slot, e.references slot = false → (e.narrow u).get? slot = u.get? slot) ∧
      ∀ f : Expr, f.kind u = f.kind t := by
  intro t u
  have narrowed : u.Narrows t := narrows_run e t steps
  have whole : u.Narrows (classify classifier signature) := narrowed.trans (narrows_run e _ before)
  refine ⟨?_, ?_, fun slot operand found => narrowed.get?_of_isGroup_eq_false found,
    fun slot absent => get?_narrow_of_not_references absent u, narrowed.kind⟩
  · rw [whole.length, classify, List.length_map]
  · intro slot q members candidates found
    obtain ⟨kept, held, sublist⟩ := narrowed.get?_group found
    have ascending := whole.ascending (ascending_classify classifier signature) slot
    rw [candidates_of_get? held] at ascending
    exact ⟨kept, held, sublist, ascending,
      whole.membered (membered_classify classifier signature) slot _ held⟩

/-- A group limited to dimensions listed in descending order, then by a sum with a vector, beside a
group that the sum does not refer to. -/
theorem run_shrinks_descending :
    let position : Quantity := ⟨"m", "Position"⟩
    let offset : Quantity := ⟨"m", "Offset"⟩
    let members : DimensionMap Quantity :=
      .ofList [(4, ⟨"m", "Position4"⟩), (2, ⟨"m", "Position2"⟩), (3, ⟨"m", "Position3"⟩)]
    let classifier : Classifier := fun q =>
      if q = position then .group members else if q = offset then .fixedVector 3 else .scalar
    let t := classify classifier [position, offset, position]
    let e : Expr := .binary .add (.slot 0) (.slot 1)
    t.candidates 0 = .ofList [2, 3, 4] ∧
      (t.run e [.restrict 0 (.ofList [4, 3])]).candidates 0 = .ofList [3, 4] ∧
      (t.run e [.restrict 0 (.ofList [4, 3]), .narrow]).candidates 0 = .single 3 ∧
      ∃ kept, (t.run e [.restrict 0 (.ofList [4, 3]), .narrow]).get? 2 =
          some (.group position members kept) ∧
        kept.toList.Sublist [2, 3, 4] ∧ kept.toList.Pairwise (· < ·) ∧
        ∀ d ∈ kept, d ∈ members.keys := by
  intro position offset members classifier t e
  obtain ⟨-, groups, -⟩ := run_shrinks classifier [position, offset, position] e []
    [.restrict 0 (.ofList [4, 3]), .narrow]
  exact ⟨by decide, by decide, by decide, groups 2 position members (.ofList [2, 3, 4]) (by decide)⟩

end OperandTable

end QuantityAlgebra
