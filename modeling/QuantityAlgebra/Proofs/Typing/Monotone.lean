import QuantityAlgebra.Proofs.Typing.Verified

/-!
# Fewer candidates, fewer dimensions

Inference works on whatever candidates a table still has, so what it says of a tree before groups
are resolved bounds what it says later only if it is monotone: over a table with some candidates
taken away it infers nothing new. Unions, intersections and the collapse of a dot product are
monotone in their sides, so the tree is. The union at a product adds the dimensions of both factors;
it does no harm because one of them is a scalar, and for a scalar nothing is inferred.

Results:
* `Narrows.included`: narrowing a table leaves candidates it had.
* `mem_combineDimensions_of_subset`: each operator is monotone in its sides.
* **`mem_dimensions_of_included`**: inference is monotone in the candidates.
* **`dimensions_monotone_and_silent`**: that, and that a scalar has no dimension.
-/

namespace QuantityAlgebra

/-- The operands are the same, but for the candidates of a group: those of the first are among those
of the second. -/
inductive Operand.Included : Operand → Operand → Prop
  | scalar (q : Quantity) : Included (.scalar q) (.scalar q)
  | vector (q : Quantity) (d : Dimension) : Included (.vector q d) (.vector q d)
  | group {q : Quantity} {members : DimensionMap Quantity} {kept candidates : DimensionSet} :
      (∀ d ∈ kept, d ∈ candidates) →
      Included (.group q members kept) (.group q members candidates)

theorem Operand.Included.dimensions {o p : Operand} (h : o.Included p) :
    ∀ d ∈ o.dimensions, d ∈ p.dimensions := by
  cases h with
  | scalar q => exact fun _ inferred => inferred
  | vector q d => exact fun _ inferred => inferred
  | group among => exact among

theorem Operand.Narrows.included {o p : Operand} (h : o.Narrows p) : o.Included p := by
  cases h with
  | scalar q => exact .scalar q
  | vector q d => exact .vector q d
  | group sublist => exact .group fun _ held => sublist.subset held

namespace OperandTable

/-- Slot by slot the operands are the same, but for candidates: those in `t` are among those in
`u`. -/
def Included (t u : OperandTable) : Prop :=
  ∀ slot, Option.Rel Operand.Included (t.get? slot) (u.get? slot)

/-- **Narrowing leaves candidates that were there.** -/
theorem Narrows.included {t u : OperandTable} (h : t.Narrows u) : t.Included u := fun slot => by
  have rel := h slot
  generalize t.get? slot = o, u.get? slot = p at rel ⊢
  cases rel with
  | some narrowed => exact .some narrowed.included
  | none => exact .none

end OperandTable

/-- Each operator is monotone in the dimensions of its sides. -/
theorem mem_combineDimensions_of_subset {left right wider wider' : DimensionSet}
    (hl : ∀ d ∈ left, d ∈ wider) (hr : ∀ d ∈ right, d ∈ wider') (op : BinaryOp) :
    ∀ d ∈ Expr.combineDimensions op left right, d ∈ Expr.combineDimensions op wider wider' := by
  intro d inferred
  cases op with
  | add | sub =>
    obtain ⟨l, r⟩ := DimensionSet.mem_inter.mp inferred
    exact DimensionSet.mem_inter.mpr ⟨hl d l, hr d r⟩
  | mul => exact DimensionSet.mem_union.mpr ((DimensionSet.mem_union.mp inferred).imp (hl d) (hr d))
  | div => exact hl d inferred
  | dot => exact inferred
  | cross =>
    obtain ⟨l, r⟩ := DimensionSet.mem_inter.mp inferred
    obtain ⟨three, l⟩ := DimensionSet.mem_inter.mp l
    exact DimensionSet.mem_inter.mpr ⟨DimensionSet.mem_inter.mpr ⟨three, hl d l⟩, hr d r⟩

variable {t u : OperandTable} {e : Expr}

/-- **Inference is monotone in the candidates.** -/
theorem mem_dimensions_of_included (included : t.Included u) :
    ∀ d ∈ e.dimensions t, d ∈ e.dimensions u := by
  induction e with
  | slot index =>
    rw [Expr.dimensions, Expr.dimensions]
    have rel := included index
    generalize t.get? index = o, u.get? index = p at rel ⊢
    cases rel with
    | some among => exact among.dimensions
    | none => exact fun _ inferred => inferred
  | one => exact fun _ inferred => inferred
  | binary op lhs rhs ihl ihr =>
    rw [Expr.dimensions_binary, Expr.dimensions_binary]
    exact mem_combineDimensions_of_subset ihl ihr op

/-- **Inference is monotone, and silent on scalars.** Over two tables that are the same but for
candidates of groups, those in the first being among those in the second, every dimension inferred
over the first is inferred over the second; and over any table no dimension is inferred for a tree
of the kind of scalars. -/
theorem dimensions_monotone_and_silent (e : Expr) :
    (∀ t u : OperandTable, t.Included u → ∀ d ∈ e.dimensions t, d ∈ e.dimensions u) ∧
      ∀ t : OperandTable, e.kind t = .scalar → e.dimensions t = ∅ :=
  ⟨fun _ _ => mem_dimensions_of_included, fun _ => dimensions_eq_empty_of_kind⟩

/-- A vector scaled by a dot product of groups, over a table that leaves both groups a choice and
one that limits the second; the factor is a scalar, though its operands still have three
dimensions. -/
theorem dimensions_monotone_and_silent_scaled :
    let members (name : String) : DimensionMap Quantity :=
      .ofList ([2, 3, 4].map fun d => (d, ⟨"m", name ++ toString d⟩))
    let u : OperandTable :=
      ⟨[.group ⟨"m", "Position"⟩ (members "Position") (.ofList [2, 3, 4]),
        .group ⟨"m", "Velocity"⟩ (members "Velocity") (.ofList [2, 3, 4])]⟩
    let t := u.restrict 1 (.ofList [4, 3])
    let factor : Expr := .binary .dot (.slot 0) (.slot 0)
    let e : Expr := .binary .mul factor (.slot 1)
    t.Included u ∧ e.dimensions t = .ofList [3, 4] ∧ (∀ d ∈ e.dimensions t, d ∈ e.dimensions u) ∧
      factor.kind u = .scalar ∧ factor.dimensions u = ∅ := by
  intro members u t factor e
  have included : t.Included u := (OperandTable.narrows_restrict u 1 _).included
  have scalar : factor.kind u = .scalar := by decide
  exact ⟨included, by decide, (dimensions_monotone_and_silent e).1 t u included, scalar,
    (dimensions_monotone_and_silent factor).2 u scalar⟩

end QuantityAlgebra
