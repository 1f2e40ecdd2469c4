import QuantityAlgebra.Overload.Search
import QuantityAlgebra.Proofs.Derivation.ReadsBack

/-!
# What is proposed for a derivation

The overloads of a derivation come from the one operation its expression is. Each of them is that
operation rearranged: the operation itself, or one that isolates an operand. Of these a policy asks
for some, and proposed are those that result in a quantity and are right about kinds.

`Rearranged` says it of whatever an operation is between, so it applies to the operands and to what
they stand for alike (`Rearranged.lift`, `Rearranged.lower`).

Results:
* **`invertible_eq_ok_iff`**: the operation that an expression is.
* **`exists_operation_of_proposes`**: whatever is proposed comes from the operation.
* `mem_proposals`, **`exists_rearranged_of_mem_proposals`**: and is that operation rearranged.
-/

namespace QuantityAlgebra

/-! ## The operation of an expression -/

theorem ArithmeticOp.ofBinary?_eq_some {b : BinaryOp} {op : ArithmeticOp} :
    ofBinary? b = some op ↔ b = op.toBinary := by
  refine ⟨fun h => ?_, fun h => h ▸ ofBinary?_toBinary op⟩
  cases b <;> simp [ofBinary?] at h <;> subst h <;> rfl

namespace Side

/-- The tree a side is. -/
def expr : Side → Expr
  | .slot index => .slot index
  | .one => .one

theorem ofExpr?_eq_some {e : Expr} {side : Side} : ofExpr? e = some side ↔ e = side.expr := by
  cases e <;> cases side <;> simp [ofExpr?, expr]

end Side

namespace Operation

/-- The tree an operation is. -/
def expr (operation : Operation) : Expr :=
  .binary operation.operator.toBinary operation.lhs.expr operation.rhs.expr

theorem ofExpr?_eq_some {e : Expr} {operation : Operation} :
    ofExpr? e = some operation ↔ e = operation.expr := by
  cases e with
  | slot | one => simp [ofExpr?, expr]
  | binary op lhs rhs =>
    obtain ⟨operator, left, right⟩ := operation
    simp only [ofExpr?, expr, Option.bind_eq_bind, Option.bind_eq_some_iff, Option.pure_def,
      Option.some.injEq, Operation.mk.injEq, Expr.binary.injEq,
      ArithmeticOp.ofBinary?_eq_some, Side.ofExpr?_eq_some]
    constructor
    · rintro ⟨_, rfl, _, rfl, _, rfl, rfl, rfl, rfl⟩
      exact ⟨rfl, rfl, rfl⟩
    · rintro ⟨rfl, rfl, rfl⟩
      exact ⟨_, rfl, _, rfl, _, rfl, rfl, rfl, rfl⟩

/-- Only one or two operands are covered. -/
theorem operands_of_coversOperands {operation : Operation} {operands : Nat}
    (covers : operation.coversOperands operands = true) : operands = 1 ∨ operands = 2 := by
  unfold coversOperands at covers
  split at covers
  · exact Or.inr rfl
  · exact Or.inl rfl
  · exact Or.inl rfl
  · contradiction

end Operation

/-- **An expression can be inverted if it reads as an operation that covers its operands.** -/
theorem invertible_eq_ok_iff {expression : String} {operands : Nat} {operation : Operation} :
    invertible expression operands = .ok operation ↔
      Expr.parse expression.toList operands = .ok operation.expr ∧
        operation.coversOperands operands = true := by
  unfold invertible
  constructor
  · intro found
    split at found
    · contradiction
    · split at found
      · contradiction
      · rename_i e read
        split at found
        · rename_i operation' isOperation
          split at found
          · rename_i covers
            obtain rfl := Except.ok.inj found
            exact ⟨Operation.ofExpr?_eq_some.mp isOperation ▸ read, covers⟩
          · contradiction
        · contradiction
  · rintro ⟨read, covers⟩
    -- The number of operands is tested first, before the text is read; what covers them is few.
    have few : ¬(operands = 0 ∨ 2 < operands) := by
      have := Operation.operands_of_coversOperands covers
      omega
    rw [if_neg few, read]
    simp only [Operation.ofExpr?_eq_some.mpr rfl, covers, if_true]

/-! ## Overloads of a derivation -/

/-- The result of a derivation for a target, as an operand of its overloads. -/
def Derivation.product (x : Derivation) (classifier : Classifier) (target : Quantity) :
    BoundOperand :=
  ⟨.quantity (resultQuantity classifier target x), x.kind⟩

/-- The overload is one of those proposed for the derivation. -/
def Derivation.Proposes (x : Derivation) (classifier : Classifier) (target : Quantity)
    (policy : OverloadPolicy) (o : Overload) : Prop :=
  ∃ found, x.overloads classifier target policy = .ok found ∧ o ∈ found

/-- What is found for a derivation whose expression is an operation. -/
theorem Derivation.overloads_of_operation {x : Derivation} {classifier : Classifier}
    {policy : OverloadPolicy} {operation : Operation} {lhs rhs : BoundOperand}
    (active : policy ≠ .none)
    (inverted : invertible x.expression x.signature.length = .ok operation)
    (left : BoundOperand.ofSide? classifier x.signature operation.lhs = some lhs)
    (right : BoundOperand.ofSide? classifier x.signature operation.rhs = some rhs)
    (target : Quantity) :
    x.overloads classifier target policy =
      .ok (proposals policy target operation.operator lhs rhs (x.product classifier target)) := by
  rw [overloads, if_neg active, inverted]
  simp only [bind, Except.bind, left, right]
  rfl

/-- **Whatever is proposed for a derivation comes from the operation it is.** -/
theorem Derivation.exists_operation_of_proposes {x : Derivation} {classifier : Classifier}
    {target : Quantity} {policy : OverloadPolicy} {o : Overload}
    (proposed : x.Proposes classifier target policy o) :
    ∃ (operation : Operation) (lhs rhs : BoundOperand), x.read = .ok operation.expr ∧
      BoundOperand.ofSide? classifier x.signature operation.lhs = some lhs ∧
      BoundOperand.ofSide? classifier x.signature operation.rhs = some rhs ∧
      o ∈ proposals policy target operation.operator lhs rhs (x.product classifier target) := by
  obtain ⟨found, overloads, held⟩ := proposed
  unfold Derivation.overloads at overloads
  split at overloads
  · obtain rfl := Except.ok.inj overloads
    contradiction
  · obtain ⟨operation, inverted, overloads⟩ := Expr.bind_eq_ok.mp overloads
    split at overloads
    · rename_i lhs rhs left right
      obtain rfl := Except.ok.inj overloads
      exact ⟨operation, lhs, rhs, (invertible_eq_ok_iff.mp inverted).1, left, right, held⟩
    · contradiction

/-! ## Rearranged operations -/

/-- The operations that say the same as `result = lhs op rhs`: that one itself, and those that
isolate one of its operands. -/
inductive Rearranged {α : Type} (op : ArithmeticOp) (lhs rhs result : α) :
    ArithmeticOp → α → α → α → Prop
  | self : Rearranged op lhs rhs result op lhs rhs result
  | left : Rearranged op lhs rhs result op.inverse result rhs lhs
  /-- Where the operator commutes, both operands are isolated alike. -/
  | right : op = .add ∨ op = .mul → Rearranged op lhs rhs result op.inverse result lhs rhs
  /-- Where it does not, the right operand trades places with the result. -/
  | swapped : op = .sub ∨ op = .div → Rearranged op lhs rhs result op lhs result rhs

namespace Rearranged

variable {α β : Type} {R : α → β → Prop} {op op' : ArithmeticOp} {x y z a b c : α} {σ ρ τ : β}

/-- What is assigned to an operation, rearranged as the operation is. -/
theorem lift (h : Rearranged op x y z op' a b c) (hx : R x σ) (hy : R y ρ) (hz : R z τ) :
    ∃ σ' ρ' τ', R a σ' ∧ R b ρ' ∧ R c τ' ∧ Rearranged op σ ρ τ op' σ' ρ' τ' := by
  cases h with
  | self => exact ⟨σ, ρ, τ, hx, hy, hz, .self⟩
  | left => exact ⟨τ, ρ, σ, hz, hy, hx, .left⟩
  | right commutes => exact ⟨τ, σ, ρ, hz, hx, hy, .right commutes⟩
  | swapped keeps => exact ⟨σ, τ, ρ, hx, hz, hy, .swapped keeps⟩

/-- And what is assigned to a rearranged operation, brought back. -/
theorem lower (h : Rearranged op x y z op' a b c) (ha : R a σ) (hb : R b ρ) (hc : R c τ) :
    ∃ σ' ρ' τ', R x σ' ∧ R y ρ' ∧ R z τ' ∧ Rearranged op σ' ρ' τ' op' σ ρ τ := by
  cases h with
  | self => exact ⟨σ, ρ, τ, ha, hb, hc, .self⟩
  | left => exact ⟨τ, ρ, σ, hc, hb, ha, .left⟩
  | right commutes => exact ⟨ρ, τ, σ, hb, hc, ha, .right commutes⟩
  | swapped keeps => exact ⟨σ, τ, ρ, ha, hc, hb, .swapped keeps⟩

end Rearranged

variable {op : ArithmeticOp} {lhs rhs result : BoundOperand} {o : Overload}
  {policy : OverloadPolicy} {target : Quantity}

/-- Proposed is what results in a quantity and is right about kinds. -/
theorem propose?_eq_some : propose? op lhs rhs result = some o ↔
    o.operator = op ∧ o.lhs = lhs.operand ∧ o.rhs = rhs.operand ∧
      result.operand = .quantity o.result ∧
      Kind.combine op.toBinary lhs.kind rhs.kind = result.kind := by
  obtain ⟨resultQuantity, operator, left, right⟩ := o
  unfold propose?
  cases bound : result.operand with
  | dimensionless => simp [OverloadOperand.quantity?]
  | quantity q =>
    simp only [OverloadOperand.quantity?]
    by_cases kinds : Kind.combine op.toBinary lhs.kind rhs.kind = result.kind
    · simp only [kinds, if_true, Option.some.injEq, Overload.mk.injEq, and_true,
        OverloadOperand.quantity.injEq]
      constructor
      · rintro ⟨rfl, rfl, rfl, rfl⟩
        exact ⟨rfl, rfl, rfl, rfl⟩
      · rintro ⟨rfl, rfl, rfl, rfl⟩
        exact ⟨rfl, rfl, rfl, rfl⟩
    · simp [kinds]

/-- The operation itself is proposed, and what the policy asks for. -/
theorem mem_proposals : o ∈ proposals policy target op lhs rhs result ↔
    propose? op lhs rhs result = some o ∨
      (policy.isolatesLeft lhs target = true ∧ isolateLeft? op lhs rhs result = some o) ∨
      (policy.isolatesRight rhs target = true ∧ isolateRight? op lhs rhs result = some o) := by
  rw [proposals, mem_distinct, List.mem_append, List.mem_append, or_assoc]
  refine or_congr Option.mem_toList (or_congr ?_ ?_)
  · split <;> simp [*]
  · split <;> simp [*]

/-- **What is proposed is the operation rearranged.** -/
theorem exists_rearranged_of_mem_proposals (held : o ∈ proposals policy target op lhs rhs result) :
    ∃ op' a b c, Rearranged op lhs rhs result op' a b c ∧ propose? op' a b c = some o := by
  rcases mem_proposals.mp held with proposed | ⟨-, proposed⟩ | ⟨-, proposed⟩
  · exact ⟨op, lhs, rhs, result, .self, proposed⟩
  · exact ⟨op.inverse, result, rhs, lhs, .left, proposed⟩
  -- Isolating on the right is the one proposal whose form depends on the operator.
  · cases op with
    | add | mul => exact ⟨_, result, lhs, rhs, .right (by simp), proposed⟩
    | sub | div => exact ⟨_, lhs, result, rhs, .swapped (by simp), proposed⟩

end QuantityAlgebra
