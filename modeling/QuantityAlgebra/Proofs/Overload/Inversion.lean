import QuantityAlgebra.Proofs.Overload.Proposals
import QuantityAlgebra.Proofs.Resolution.Closed

/-!
# Types of rearranged operations

An operation whose types combine still combines rearranged, if the kinds of the rearranged operation
are right. So an overload is right about dimensions if its derivation has the type of the quantity
it is bound to. And this is needed: types that combine rearranged determine what the operation
results in, so an overload for a target that does not take the type of the derivation is wrong
about dimensions (`Overload.Fits`), even if all kinds agree.

Results:
* **`Rearranged.combine?`**, **`Rearranged.result_eq`**: types of a rearranged operation.
* **`typed_of_mem_proposals`**: with a result of the type that comes out, what is proposed is
  typed.
* **`takes_of_fits`**: without, it does not fit.
-/

namespace QuantityAlgebra

/-! ## Types of arithmetic operations -/

namespace ExprType

variable {σ ρ τ : ExprType}

theorem combine?_add : combine? .add σ ρ = some τ ↔ σ = τ ∧ ρ = τ := by
  by_cases same : σ = ρ
  · simp [combine?, same]
  · simp only [combine?, if_neg same, false_iff, reduceCtorEq]
    rintro ⟨rfl, rfl⟩
    exact same rfl

theorem combine?_sub : combine? .sub σ ρ = some τ ↔ σ = τ ∧ ρ = τ := combine?_add

/-- A product has the type of the one factor, the other being a scalar. -/
theorem combine?_mul : combine? .mul σ ρ = some τ ↔
    (σ = .scalar ∧ ρ = τ) ∨ (σ = τ ∧ ρ = .scalar) := by
  cases σ <;> cases ρ <;> simp [combine?, eq_comm]

theorem combine?_div : combine? .div σ ρ = some τ ↔ σ = τ ∧ ρ = .scalar := by
  cases σ <;> cases ρ <;> simp [combine?]

/-- A type divided by itself is of the right kind for scalars alone. -/
theorem eq_scalar_of_kind_div (h : Kind.combine .div τ.kind τ.kind = .scalar) : τ = .scalar := by
  cases τ with
  | scalar => rfl
  | vector => contradiction

end ExprType

/-! ## Types of rearranged operations -/

namespace Rearranged

open ExprType

variable {op op' : ArithmeticOp} {σ ρ τ υ σ' ρ' τ' : ExprType}

/-- **Rearranged types combine**, if the kinds do. -/
theorem combine? (h : Rearranged op σ ρ τ op' σ' ρ' τ')
    (fits : ExprType.combine? op.toBinary σ ρ = some τ)
    (kinds : Kind.combine op'.toBinary σ'.kind ρ'.kind = τ'.kind) :
    ExprType.combine? op'.toBinary σ' ρ' = some τ' := by
  cases h with
  | self => exact fits
  | left =>
    cases op with
    | add =>
      obtain ⟨rfl, rfl⟩ := combine?_add.mp fits
      exact combine?_sub.mpr ⟨rfl, rfl⟩
    | sub =>
      obtain ⟨rfl, rfl⟩ := combine?_sub.mp fits
      exact combine?_add.mpr ⟨rfl, rfl⟩
    | mul =>
      rcases combine?_mul.mp fits with ⟨rfl, rfl⟩ | ⟨rfl, rfl⟩
      -- A scalar factor is isolated by dividing the product by a factor of the same type. For
      -- vectors that is no operation, but then the kinds are not right either.
      · obtain rfl := eq_scalar_of_kind_div kinds
        rfl
      · exact combine?_div.mpr ⟨rfl, rfl⟩
    | div =>
      obtain ⟨rfl, rfl⟩ := combine?_div.mp fits
      exact combine?_mul.mpr (Or.inr ⟨rfl, rfl⟩)
  | right commutes =>
    rcases commutes with rfl | rfl
    · obtain ⟨rfl, rfl⟩ := combine?_add.mp fits
      exact combine?_sub.mpr ⟨rfl, rfl⟩
    · rcases combine?_mul.mp fits with ⟨rfl, rfl⟩ | ⟨rfl, rfl⟩
      · exact combine?_div.mpr ⟨rfl, rfl⟩
      · obtain rfl := eq_scalar_of_kind_div kinds
        rfl
  | swapped keeps =>
    rcases keeps with rfl | rfl
    · obtain ⟨rfl, rfl⟩ := combine?_sub.mp fits
      exact combine?_sub.mpr ⟨rfl, rfl⟩
    · obtain ⟨rfl, rfl⟩ := combine?_div.mp fits
      -- The dividend over the quotient, which has the dividend's type.
      obtain rfl := eq_scalar_of_kind_div kinds
      rfl

/-- **Rearranged types that combine determine the result.** -/
theorem result_eq (h : Rearranged op σ ρ υ op' σ' ρ' τ')
    (fits : ExprType.combine? op.toBinary σ ρ = some τ)
    (fits' : ExprType.combine? op'.toBinary σ' ρ' = some τ') : υ = τ := by
  -- `υ` is what the operands were given as the result, `τ` what they do result in: both operations
  -- put them in the same equations.
  cases h with
  | self => exact Option.some.inj (fits'.symm.trans fits)
  | left =>
    cases op with
    | add => exact (combine?_sub.mp fits').1.trans (combine?_add.mp fits).1
    | sub => exact (combine?_add.mp fits').1.trans (combine?_sub.mp fits).1
    | mul =>
      obtain ⟨rfl, rfl⟩ := combine?_div.mp fits'
      rcases combine?_mul.mp fits with ⟨same, rfl⟩ | ⟨same, -⟩
      · exact same
      · exact same
    | div =>
      obtain ⟨rfl, rfl⟩ := combine?_div.mp fits
      rcases combine?_mul.mp fits' with ⟨rfl, same⟩ | ⟨same, -⟩
      · exact same
      · exact same
  | right commutes =>
    rcases commutes with rfl | rfl
    · exact (combine?_sub.mp fits').1.trans (combine?_add.mp fits).2
    · obtain ⟨rfl, rfl⟩ := combine?_div.mp fits'
      rcases combine?_mul.mp fits with ⟨-, same⟩ | ⟨rfl, same⟩
      · exact same
      · exact same
  | swapped keeps =>
    rcases keeps with rfl | rfl
    · exact (combine?_sub.mp fits').2.trans (combine?_sub.mp fits).2
    · obtain ⟨rfl, rfl⟩ := combine?_div.mp fits
      obtain ⟨rfl, rfl⟩ := combine?_div.mp fits'
      rfl

end Rearranged

/-! ## Types of overloads -/

namespace OverloadOperand

/-- The type of an operand, if it has one without a choice. -/
def type? (classifier : Classifier) : OverloadOperand → Option ExprType
  | .quantity q => (classifier q).type?
  | .dimensionless => some .scalar

/-- Whether the operand has the type, for some choice if it is a group. -/
def Takes (classifier : Classifier) : OverloadOperand → ExprType → Prop
  | .quantity q, τ => (classifier q).Takes τ
  | .dimensionless, τ => τ = .scalar

theorem takes_iff_of_type? {classifier : Classifier} {operand : OverloadOperand} {τ σ : ExprType}
    (h : operand.type? classifier = some τ) : operand.Takes classifier σ ↔ σ = τ := by
  cases operand with
  | quantity q => exact Classification.takes_iff_of_type? h
  | dimensionless =>
    obtain rfl := Option.some.inj h
    rfl

end OverloadOperand

namespace Overload

/-- All quantities of the overload have a type, and the operands combine to that of the result. -/
structure Typed (o : Overload) (classifier : Classifier) (σ ρ τ : ExprType) : Prop where
  lhs : o.lhs.type? classifier = some σ
  rhs : o.rhs.type? classifier = some ρ
  result : (classifier o.result).type? = some τ
  fits : ExprType.combine? o.operator.toBinary σ ρ = some τ

/-- For some choice of dimensions the operands combine to a type that the result takes. -/
def Fits (o : Overload) (classifier : Classifier) : Prop :=
  ∃ σ ρ τ, o.lhs.Takes classifier σ ∧ o.rhs.Takes classifier ρ ∧
    (classifier o.result).Takes τ ∧ ExprType.combine? o.operator.toBinary σ ρ = some τ

end Overload

/-- The operand is of the type, and of its kind. -/
structure BoundOperand.Typed (b : BoundOperand) (classifier : Classifier) (τ : ExprType) :
    Prop where
  type : b.operand.type? classifier = some τ
  kind : b.kind = τ.kind

section

variable {classifier : Classifier} {policy : OverloadPolicy} {target : Quantity}
  {op : ArithmeticOp} {lhs rhs result : BoundOperand} {o : Overload} {σ ρ τ : ExprType}

/-- **What is proposed is typed**, if the result has the type that comes out. -/
theorem typed_of_mem_proposals (left : lhs.Typed classifier σ) (right : rhs.Typed classifier ρ)
    (product : result.Typed classifier τ)
    (fits : ExprType.combine? op.toBinary σ ρ = some τ)
    (held : o ∈ proposals policy target op lhs rhs result) :
    ∃ σ' ρ' τ', o.Typed classifier σ' ρ' τ' := by
  obtain ⟨op', a, b, c, rearranged, proposed⟩ := exists_rearranged_of_mem_proposals held
  obtain ⟨rfl, lhs, rhs, bound, kinds⟩ := propose?_eq_some.mp proposed
  obtain ⟨σ', ρ', τ', ha, hb, hc, types⟩ :=
    rearranged.lift (R := fun b τ => b.Typed classifier τ) left right product
  rw [ha.kind, hb.kind, hc.kind] at kinds
  refine ⟨σ', ρ', τ', lhs ▸ ha.type, rhs ▸ hb.type, ?_, types.combine? fits kinds⟩
  have type := hc.type
  rwa [bound] at type

/-- **What is proposed fits only if the result takes the type that comes out.** -/
theorem takes_of_fits (left : lhs.Typed classifier σ) (right : rhs.Typed classifier ρ)
    (fits : ExprType.combine? op.toBinary σ ρ = some τ)
    (held : o ∈ proposals policy target op lhs rhs result) (works : o.Fits classifier) :
    result.operand.Takes classifier τ := by
  obtain ⟨op', a, b, c, rearranged, proposed⟩ := exists_rearranged_of_mem_proposals held
  obtain ⟨rfl, lhs, rhs, bound, -⟩ := propose?_eq_some.mp proposed
  obtain ⟨σ', ρ', τ', ha, hb, hc, fits'⟩ := works
  have taken : c.operand.Takes classifier τ' := bound ▸ hc
  -- The types the overload works with, brought back to the operation it comes from. Both operands
  -- of that one have a type, so only the result's is left open.
  obtain ⟨σ₀, ρ₀, υ, hx, hy, hz, types⟩ := rearranged.lower
    (R := fun b τ => b.operand.Takes classifier τ) (lhs ▸ ha) (rhs ▸ hb) taken
  obtain rfl := (OverloadOperand.takes_iff_of_type? left.type).mp hx
  obtain rfl := (OverloadOperand.takes_iff_of_type? right.type).mp hy
  exact types.result_eq fits fits' ▸ hz

end

end QuantityAlgebra
