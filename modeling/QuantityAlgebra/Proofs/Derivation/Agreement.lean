import QuantityAlgebra.Derivation.Materialize
import QuantityAlgebra.Proofs.Typing.Consistency

/-!
# Derivations of tables that agree

Two tables, each under a choice of its own, agree on a tree if every slot the tree refers to has the
same type in both. The tree then has the same types in both. If the tables are settled, every
inferred dimension is that of a type, so the tree is also rendered the same, and whatever else the
tables hold, the same derivation comes out.

Results:
* `render_of_agrees`: settled tables that agree on a tree give the same rendered text.
* **`derivation_of_agrees`**: and so the same derivation of any signature.
-/

namespace QuantityAlgebra

variable {t u : OperandTable} {choice other : Choice} {e : Expr} {τ : ExprType} (config : Config)

/-- What a dot product is named for is the dimension of its left operand's type. -/
theorem render_of_agrees (settled : t.Settled choice e) (settled' : u.Settled other e)
    (agrees : t.Agrees choice u other e) (typed : HasType t choice e τ) :
    e.render config t = e.render config u := by
  induction e generalizing τ with
  | slot | one => rfl
  | binary op lhs rhs ihl ihr =>
    obtain ⟨σ, ρ, l, r, -⟩ := hasType_binary_iff.mp typed
    have left := ihl settled.left settled'.left agrees.left l
    have right := ihr settled.right settled'.right agrees.right r
    -- The rendered text looks at the table in one place only, the name of a dot product.
    have dimensions : lhs.dimensions t = lhs.dimensions u := by
      rw [dimensions_eq_of_hasType settled.left l,
        dimensions_eq_of_hasType settled'.left (l.of_agrees agrees.left)]
    cases op <;> simp only [Expr.render, left, right, dimensions]

theorem renderOuter_of_agrees (settled : t.Settled choice e) (settled' : u.Settled other e)
    (agrees : t.Agrees choice u other e) (typed : HasType t choice e τ) :
    e.renderOuter config t = e.renderOuter config u := by
  have same := render_of_agrees config settled settled' agrees typed
  cases e with
  | slot | one => rfl
  | binary op lhs rhs => cases op <;> simp only [Expr.renderOuter, same]

/-- **Settled tables that agree on a tree give the same derivation of it.** -/
theorem derivation_of_agrees (signature : Signature) (settled : t.Settled choice e)
    (settled' : u.Settled other e) (agrees : t.Agrees choice u other e)
    (typed : HasType t choice e τ) :
    e.derivation config t signature = e.derivation config u signature := by
  have typed' := typed.of_agrees agrees
  have kind : e.kind t = e.kind u :=
    (kind_eq_of_hasType typed).trans (kind_eq_of_hasType typed').symm
  have dimensions : e.dimensions t = e.dimensions u :=
    (dimensions_eq_of_hasType settled typed).trans (dimensions_eq_of_hasType settled' typed').symm
  rw [Expr.derivation, Expr.derivation, Expr.resultDimension?, Expr.resultDimension?, kind,
    dimensions, renderOuter_of_agrees config settled settled' agrees typed]

end QuantityAlgebra
