import Mathlib.Algebra.Field.Rat
import QuantityAlgebra.Proofs.Overload.Forward

/-!
# Overloads as equations

An overload says that its result equals its operation, and a derivation with its result quantity
says the same of the operation it is. With a nonzero number for every quantity, and one for the
constant, such an equation holds or does not. The overloads of a derivation are its own equation
rearranged, so they hold wherever it does.

Under the policy that asks for all overloads nothing else is left out than has to be: of the
equations that isolate an operand, one for each, those that result in the constant and those that
divide by a vector. That needs the quantity a derivation is bound to to be of its kind, which a
resolution sees to: a target takes one kind alone, and the members of a group are vectors.

Results:
* `Rearranged.eval`, `Rearranged.kind_combine`: what rearranging keeps, of values and of kinds.
* **`mem_proposals_all_iff`**: which equations are proposed under that policy.
* **`overloads_valid_and_complete`**: overloads hold where their derivation does, and none that
  could be given is missing.
-/

namespace QuantityAlgebra

/-! ## Equations -/

/-- What an operator makes of two numbers. -/
def ArithmeticOp.eval : ArithmeticOp → ℚ → ℚ → ℚ
  | .add, a, b => a + b
  | .sub, a, b => a - b
  | .mul, a, b => a * b
  | .div, a, b => a / b

/-- The number of an operand. -/
def OverloadOperand.value (v : Quantity → ℚ) : OverloadOperand → ℚ
  | .quantity q => v q
  | .dimensionless => 1

/-- The statement `result = lhs op rhs`; each of the three may be the constant. -/
structure Equation where
  result : OverloadOperand
  operator : ArithmeticOp
  lhs : OverloadOperand
  rhs : OverloadOperand
  deriving DecidableEq

namespace Equation

/-- Whether both sides have the same number. -/
def Holds (E : Equation) (v : Quantity → ℚ) : Prop :=
  E.result.value v = E.operator.eval (E.lhs.value v) (E.rhs.value v)

instance (E : Equation) (v : Quantity → ℚ) : Decidable (E.Holds v) :=
  inferInstanceAs (Decidable (E.result.value v = _))

/-- The equation solved for its left operand. -/
def isolateLeft : Equation → Equation
  | ⟨r, .add, a, b⟩ => ⟨a, .sub, r, b⟩
  | ⟨r, .sub, a, b⟩ => ⟨a, .add, r, b⟩
  | ⟨r, .mul, a, b⟩ => ⟨a, .div, r, b⟩
  | ⟨r, .div, a, b⟩ => ⟨a, .mul, r, b⟩

/-- The equation solved for its right operand. -/
def isolateRight : Equation → Equation
  | ⟨r, .add, a, b⟩ => ⟨b, .sub, r, a⟩
  | ⟨r, .sub, a, b⟩ => ⟨b, .sub, a, r⟩
  | ⟨r, .mul, a, b⟩ => ⟨b, .div, r, a⟩
  | ⟨r, .div, a, b⟩ => ⟨b, .div, a, r⟩

/-- Whether the divisor is a vector. -/
def DividesByVector (E : Equation) (classifier : Classifier) : Prop :=
  E.operator = .div ∧ E.rhs.kind classifier = .vector

instance (E : Equation) (classifier : Classifier) : Decidable (E.DividesByVector classifier) :=
  inferInstanceAs (Decidable (E.operator = _ ∧ E.rhs.kind classifier = _))

end Equation

/-- What an overload says. -/
def Overload.equation (o : Overload) : Equation := ⟨.quantity o.result, o.operator, o.lhs, o.rhs⟩

variable {op op' : ArithmeticOp} {classifier : Classifier} {policy : OverloadPolicy}
  {target : Quantity} {o : Overload} {v : Quantity → ℚ}

/-! ## Values -/

theorem OverloadOperand.value_ne_zero (nonzero : ∀ q, v q ≠ 0) (operand : OverloadOperand) :
    operand.value v ≠ 0 := by
  cases operand with
  | quantity q => exact nonzero q
  | dimensionless => exact one_ne_zero

/-- **An operation on nonzero numbers holds rearranged.** -/
theorem Rearranged.eval {a b c a' b' c' : ℚ} (h : Rearranged op a b c op' a' b' c') (ha : a ≠ 0)
    (hb : b ≠ 0) (hc : c ≠ 0) (equal : c = op.eval a b) : c' = op'.eval a' b' := by
  cases h with
  | self => exact equal
  | left =>
    cases op with
    | add => exact eq_sub_of_add_eq equal.symm
    | sub => exact eq_add_of_sub_eq equal.symm
    | mul => exact (eq_div_iff hb).mpr equal.symm
    | div => exact ((eq_div_iff hb).mp equal).symm
  | right commutes =>
    rcases commutes with rfl | rfl
    · exact eq_sub_of_add_eq' equal.symm
    · exact (eq_div_iff ha).mpr ((mul_comm b a).trans equal.symm)
  | swapped keeps =>
    rcases keeps with rfl | rfl
    · exact (sub_eq_of_eq_add' (eq_add_of_sub_eq equal.symm)).symm
    · exact (eq_div_iff hc).mpr ((mul_comm b c).trans ((eq_div_iff hb).mp equal))

/-- **What is proposed holds where the operation does.** -/
theorem holds_of_mem_proposals {lhs rhs result : BoundOperand} (nonzero : ∀ q, v q ≠ 0)
    (holds : (Equation.mk result.operand op lhs.operand rhs.operand).Holds v)
    (held : o ∈ proposals policy target op lhs rhs result) : o.equation.Holds v := by
  obtain ⟨op', x, y, z, rearranged, proposed⟩ := exists_rearranged_of_mem_proposals held
  obtain ⟨rfl, left, right, quantity, -⟩ := propose?_eq_some.mp proposed
  obtain ⟨_, _, _, rfl, rfl, rfl, values⟩ :=
    rearranged.lift (R := fun b n => b.operand.value v = n) rfl rfl rfl
  have solved := values.eval (lhs.operand.value_ne_zero nonzero) (rhs.operand.value_ne_zero nonzero)
    (result.operand.value_ne_zero nonzero) holds
  rwa [← left, ← right, quantity] at solved

/-! ## Kinds -/

theorem OverloadOperand.kind_ne_invalid (classifier : Classifier) (operand : OverloadOperand) :
    operand.kind classifier ≠ .invalid := by
  cases operand with
  | quantity q =>
    rw [kind]
    cases classifier q <;> simp [Kind.ofClassification]
  | dimensionless => simp [kind]

namespace Kind

variable {k l m : Kind}

theorem combine_add (valid : m ≠ .invalid) : combine .add k l = m ↔ k = m ∧ l = m := by
  cases k <;> cases l <;> cases m <;> simp_all [combine]

theorem combine_sub (valid : m ≠ .invalid) : combine .sub k l = m ↔ k = m ∧ l = m := by
  cases k <;> cases l <;> cases m <;> simp_all [combine]

theorem combine_mul (valid : m ≠ .invalid) :
    combine .mul k l = m ↔ (k = .scalar ∧ l = m) ∨ (k = m ∧ l = .scalar) := by
  cases k <;> cases l <;> cases m <;> simp_all [combine]

theorem combine_div (valid : m ≠ .invalid) : combine .div k l = m ↔ k = m ∧ l = .scalar := by
  cases k <;> cases l <;> cases m <;> simp_all [combine]

theorem eq_scalar (valid : k ≠ .invalid) (notVector : k ≠ .vector) : k = .scalar := by
  cases k with
  | scalar => rfl
  | vector => exact absurd rfl notVector
  | invalid => exact absurd rfl valid

end Kind

/-- **Right kinds stay right rearranged**, as long as nothing is divided by a vector. -/
theorem Rearranged.kind_combine {k l m k' l' m' : Kind} (h : Rearranged op k l m op' k' l' m')
    (valid : m ≠ .invalid) (fits : Kind.combine op.toBinary k l = m)
    (divisor : op' = .div → l' ≠ .vector) : Kind.combine op'.toBinary k' l' = m' := by
  cases h with
  | self => exact fits
  | left =>
    cases op with
    | add =>
      obtain ⟨rfl, rfl⟩ := (Kind.combine_add valid).mp fits
      exact (Kind.combine_sub valid).mpr ⟨rfl, rfl⟩
    | sub =>
      obtain ⟨rfl, rfl⟩ := (Kind.combine_sub valid).mp fits
      exact (Kind.combine_add valid).mpr ⟨rfl, rfl⟩
    | mul =>
      rcases (Kind.combine_mul valid).mp fits with ⟨rfl, rfl⟩ | ⟨rfl, rfl⟩
      · obtain rfl := Kind.eq_scalar valid (divisor rfl)
        rfl
      · exact (Kind.combine_div valid).mpr ⟨rfl, rfl⟩
    | div =>
      obtain ⟨rfl, rfl⟩ := (Kind.combine_div valid).mp fits
      exact (Kind.combine_mul valid).mpr (.inr ⟨rfl, rfl⟩)
  | right commutes =>
    rcases commutes with rfl | rfl
    · obtain ⟨rfl, rfl⟩ := (Kind.combine_add valid).mp fits
      exact (Kind.combine_sub valid).mpr ⟨rfl, rfl⟩
    · rcases (Kind.combine_mul valid).mp fits with ⟨rfl, rfl⟩ | ⟨rfl, rfl⟩
      · exact (Kind.combine_div valid).mpr ⟨rfl, rfl⟩
      · obtain rfl := Kind.eq_scalar valid (divisor rfl)
        rfl
  | swapped keeps =>
    rcases keeps with rfl | rfl
    · obtain ⟨rfl, rfl⟩ := (Kind.combine_sub valid).mp fits
      exact (Kind.combine_sub valid).mpr ⟨rfl, rfl⟩
    · obtain ⟨rfl, rfl⟩ := (Kind.combine_div valid).mp fits
      -- The dividend over the quotient, which is of the dividend's kind.
      obtain rfl := Kind.eq_scalar valid (divisor rfl)
      rfl

/-! ## All overloads -/

section

variable {a b r : OverloadOperand}

/-- **Which equations are proposed where all are asked for**: the operation rearranged, if it
results in a quantity and does not divide by a vector. -/
theorem mem_proposals_all_iff
    (fits : Kind.combine op.toBinary (a.kind classifier) (b.kind classifier) = r.kind classifier) :
    o ∈ proposals .all target op (a.bound classifier) (b.bound classifier) (r.bound classifier) ↔
      Rearranged op a b r o.operator o.lhs o.rhs (.quantity o.result) ∧
        ¬o.equation.DividesByVector classifier := by
  constructor
  · intro held
    obtain ⟨op', x, y, z, rearranged, proposed⟩ := exists_rearranged_of_mem_proposals held
    obtain ⟨rfl, left, right, quantity, kinds⟩ := propose?_eq_some.mp proposed
    obtain ⟨σ, ρ, τ, rfl, rfl, rfl, operands⟩ :=
      rearranged.lift (R := fun x (y : OverloadOperand) => x = y.bound classifier) rfl rfl rfl
    obtain rfl : o.lhs = σ := left
    obtain rfl : o.rhs = ρ := right
    obtain rfl : τ = .quantity o.result := quantity
    refine ⟨operands, fun ⟨divides, vector⟩ => ?_⟩
    have valid := OverloadOperand.kind_ne_invalid classifier (.quantity o.result)
    rw [show o.operator = .div from divides] at kinds
    have both : Kind.vector = .scalar := vector.symm.trans ((Kind.combine_div valid).mp kinds).2
    contradiction
  · rintro ⟨rearranged, divisor⟩
    obtain ⟨_, _, _, rfl, rfl, rfl, kinds⟩ :=
      rearranged.lift (R := fun y k => y.kind classifier = k) rfl rfl rfl
    have right := kinds.kind_combine (r.kind_ne_invalid classifier) fits
      fun divides vector => divisor ⟨divides, vector⟩
    have proposed : propose? o.operator (o.lhs.bound classifier) (o.rhs.bound classifier)
        ((OverloadOperand.quantity o.result).bound classifier) = some o :=
      propose?_eq_some.mpr ⟨rfl, rfl, rfl, rfl, right⟩
    obtain ⟨q, op', x, y⟩ := o
    refine mem_proposals.mpr ?_
    cases rearranged with
    | self => exact .inl proposed
    | left => exact .inr (.inl ⟨rfl, proposed⟩)
    | right commutes =>
      refine .inr (.inr ⟨rfl, ?_⟩)
      rcases commutes with rfl | rfl <;> exact proposed
    | swapped keeps =>
      refine .inr (.inr ⟨rfl, ?_⟩)
      rcases keeps with rfl | rfl <;> exact proposed

/-- An equation that says the same is proposed if it results in a quantity and does not divide by a
vector. -/
theorem exists_mem_proposals_all_iff {E : Equation}
    (fits : Kind.combine op.toBinary (a.kind classifier) (b.kind classifier) = r.kind classifier)
    (rearranged : Rearranged op a b r E.operator E.lhs E.rhs E.result) :
    (∃ o ∈ proposals .all target op (a.bound classifier) (b.bound classifier) (r.bound classifier),
        o.equation = E) ↔
      (∃ q, E.result = .quantity q) ∧ ¬E.DividesByVector classifier := by
  constructor
  · rintro ⟨o, held, rfl⟩
    exact ⟨⟨o.result, rfl⟩, ((mem_proposals_all_iff fits).mp held).2⟩
  · rintro ⟨⟨q, quantity⟩, divisor⟩
    obtain ⟨result, op', x, y⟩ := E
    obtain rfl : result = .quantity q := quantity
    exact ⟨⟨q, op', x, y⟩, (mem_proposals_all_iff fits).mpr ⟨rearranged, divisor⟩, rfl⟩

namespace Equation

@[simp] theorem result_isolateLeft (E : Equation) : E.isolateLeft.result = E.lhs := by
  obtain ⟨r, op, a, b⟩ := E
  cases op <;> rfl

@[simp] theorem result_isolateRight (E : Equation) : E.isolateRight.result = E.rhs := by
  obtain ⟨r, op, a, b⟩ := E
  cases op <;> rfl

/-- An equation solved for its left operand is the operation rearranged. -/
theorem rearranged_isolateLeft (E : Equation) :
    Rearranged E.operator E.lhs E.rhs E.result E.isolateLeft.operator E.isolateLeft.lhs
      E.isolateLeft.rhs E.isolateLeft.result := by
  obtain ⟨r, op, a, b⟩ := E
  cases op <;> exact .left

theorem rearranged_isolateRight (E : Equation) :
    Rearranged E.operator E.lhs E.rhs E.result E.isolateRight.operator E.isolateRight.lhs
      E.isolateRight.rhs E.isolateRight.result := by
  obtain ⟨r, op, a, b⟩ := E
  cases op with
  | add | mul => exact .right (by simp)
  | sub | div => exact .swapped (by simp)

end Equation

end

/-! ## Results of a resolution -/

/-- What a derivation is bound to is the target, or a member of the group that the target is. -/
theorem resultQuantity_cases (classifier : Classifier) (target : Quantity) (x : Derivation) :
    resultQuantity classifier target x = target ∨
      ∃ members d, classifier target = .group members ∧
        members.get? d = some (resultQuantity classifier target x) := by
  unfold resultQuantity
  split
  · rename_i members d classified dimension
    cases bound : members.get? d with
    | none => exact .inl rfl
    | some member => exact .inr ⟨members, d, classified, bound⟩
  · exact .inl rfl

/-- What accepts dimensions is of the kind of vectors. -/
theorem Classification.kind_of_vectorDimensions? {c : Classification} {accepted : DimensionSet}
    (takes : c.vectorDimensions? = some accepted) : Kind.ofClassification c = .vector := by
  cases c with
  | scalar => contradiction
  | fixedVector | groupMember | group => rfl

namespace Resolver

variable {State : Type} {report : State → ResolutionError → Option Diagnostic × State}
  {resolver : Resolver} {definition : Definition} {state : State} {e : Expr} {r : Resolution}
  {x : Derivation} {operation : Operation}

/-- **A derivation is bound to a quantity of its kind.** -/
theorem Succeeds.kind_resultQuantity (vectors : resolver.classifier.VectorMembers)
    (succeeds : resolver.Succeeds target definition e r) (held : x ∈ r.derivations) :
    Kind.ofClassification (resolver.classifier (resultQuantity resolver.classifier target x)) =
      x.kind := by
  rw [succeeds.wellFormed.kind_eq x held]
  have valid := succeeds.kind_ne_invalid
  rcases targetFault?_eq_none succeeds.faultless with
    ⟨scalar, notVector⟩ | ⟨accepted, takes, notScalar, -⟩
  · have kind := Kind.eq_scalar valid notVector
    rcases resultQuantity_cases resolver.classifier target x with same | ⟨_, _, group, -⟩
    · rw [same, scalar, kind]
      rfl
    · rw [scalar] at group
      contradiction
  · have kind : e.kind (resolver.operands definition.signature e) = .vector := by
      cases is : e.kind (resolver.operands definition.signature e) with
      | scalar => exact absurd is notScalar
      | vector => rfl
      | invalid => exact absurd is valid
    rw [kind]
    rcases resultQuantity_cases resolver.classifier target x with same | ⟨_, _, group, bound⟩
    · rw [same]
      exact Classification.kind_of_vectorDimensions? takes
    · exact vectors target _ _ _ group bound

/-- What is proposed for a derivation of an operation where all overloads are asked for. -/
theorem Succeeds.exists_proposals_all (vectors : resolver.classifier.VectorMembers)
    (inverted : invertible definition.expression definition.signature.length = .ok operation)
    (succeeds : resolver.Succeeds target definition e r) (held : x ∈ r.derivations) :
    ∃ a b found, operation.Binds x.signature a b ∧
      x.overloads resolver.classifier target .all = .ok found ∧
      ∀ E : Equation,
        Rearranged operation.operator a b
          (.quantity (resultQuantity resolver.classifier target x)) E.operator E.lhs E.rhs
          E.result →
        ((∃ o ∈ found, o.equation = E) ↔
          (∃ q, E.result = .quantity q) ∧ ¬E.DividesByVector resolver.classifier) := by
  obtain ⟨read, -⟩ := invertible_eq_ok_iff.mp inverted
  obtain rfl : operation.expr = e := Except.ok.inj (read.symm.trans succeeds.read)
  have derived := succeeds.mem_derivations.mp held
  have active : OverloadPolicy.all ≠ .none := by decide
  obtain ⟨a, b, binds, proposed⟩ := overloads_of_mem inverted derived target active
  have kind := succeeds.kind_resultQuantity vectors held
  have fits := (combine_of_mem vectors read derived binds).trans kind.symm
  -- The product was proposed for with the kind of the derivation, which is that of its quantity.
  have bound : x.product resolver.classifier target =
      (OverloadOperand.quantity (resultQuantity resolver.classifier target x)).bound
        resolver.classifier := by
    rw [Derivation.product, ← kind]
    rfl
  rw [bound] at proposed
  exact ⟨a, b, _, binds, proposed, fun E rearranged => exists_mem_proposals_all_iff fits rearranged⟩

end Resolver

/-! ## Valid and complete -/

/-- What a derivation says: the quantity it is bound to is the operation of what it binds. -/
def Derivation.equation (x : Derivation) (classifier : Classifier) (target : Quantity)
    (op : ArithmeticOp) (lhs rhs : OverloadOperand) : Equation :=
  ⟨.quantity (resultQuantity classifier target x), op, lhs, rhs⟩

/-- **The overloads of a derivation hold where the derivation does.** -/
theorem Derivation.holds_of_overloads {x : Derivation} {found : List Overload}
    {operation : Operation} {a b : OverloadOperand}
    (overloads : x.overloads classifier target policy = .ok found)
    (inverted : invertible x.expression x.signature.length = .ok operation)
    (binds : operation.Binds x.signature a b) (nonzero : ∀ q, v q ≠ 0)
    (holds : (x.equation classifier target operation.operator a b).Holds v) :
    ∀ o ∈ found, o.equation.Holds v := by
  intro o held
  by_cases inactive : policy = .none
  · rw [Derivation.overloads, if_pos inactive] at overloads
    obtain rfl := Except.ok.inj overloads
    contradiction
  · have proposed := overloads_of_binds inactive inverted binds classifier target
    obtain rfl := Except.ok.inj (proposed.symm.trans overloads)
    exact holds_of_mem_proposals nonzero holds held

/-- **Overloads are valid, and none that could be given is missing.** Whatever is proposed for a
derivation holds under each assignment of nonzero numbers under which the derivation does. Of the
derivations of a resolution, in a population after any run of edits, isolating an operand is
proposed where all overloads are asked for, unless the operand is the constant or the divisor would
be a vector. -/
theorem overloads_valid_and_complete :
    (∀ (classifier : Classifier) (target : Quantity) (policy : OverloadPolicy) (x : Derivation)
        (found : List Overload) (operation : Operation) (a b : OverloadOperand)
        (v : Quantity → ℚ), x.overloads classifier target policy = .ok found →
      invertible x.expression x.signature.length = .ok operation →
      operation.Binds x.signature a b → (∀ q, v q ≠ 0) →
      (x.equation classifier target operation.operator a b).Holds v →
      ∀ o ∈ found, o.equation.Holds v) ∧
    (∀ (State : Type) (report : State → ResolutionError → Option Diagnostic × State)
        (edits : List Population.Edit) (config : Config) (target : Quantity)
        (definition : Definition) (state : State) (r : Resolution) (operation : Operation),
      ((Resolver.mk (Population.run {} edits).classify config).resolveWith report target definition
        state).1 = .ok r →
      invertible definition.expression definition.signature.length = .ok operation →
      ∀ x ∈ r.derivations, ∃ a b found, operation.Binds x.signature a b ∧
        x.overloads (Population.run {} edits).classify target .all = .ok found ∧
        let E := x.equation (Population.run {} edits).classify target operation.operator a b
        ((∃ o ∈ found, o.equation = E.isolateLeft) ↔
          (∃ q, a = .quantity q) ∧
            ¬E.isolateLeft.DividesByVector (Population.run {} edits).classify) ∧
        ((∃ o ∈ found, o.equation = E.isolateRight) ↔
          (∃ q, b = .quantity q) ∧
            ¬E.isolateRight.DividesByVector (Population.run {} edits).classify)) := by
  constructor
  · intro classifier target policy x found operation a b v overloads inverted binds nonzero holds
    exact Derivation.holds_of_overloads overloads inverted binds nonzero holds
  · intro State report edits config target definition state r operation success inverted x held
    obtain ⟨e, succeeds⟩ := Resolver.succeeds_of_outcome (Resolver.resolveWith_eq_ok_iff.mp success)
    obtain ⟨a, b, found, binds, proposed, listed⟩ :=
      succeeds.exists_proposals_all (Population.vectorMembers_run edits) inverted held
    let E := x.equation (Population.run {} edits).classify target operation.operator a b
    have onLeft := listed E.isolateLeft E.rearranged_isolateLeft
    have onRight := listed E.isolateRight E.rearranged_isolateRight
    rw [Equation.result_isolateLeft] at onLeft
    rw [Equation.result_isolateRight] at onRight
    exact ⟨a, b, found, binds, proposed, onLeft, onRight⟩

/-- A product with the vector on the right, its placeholders swapped: isolating the scalar factor
would divide by the vector. -/
theorem overloads_valid_and_complete_product :
    let members (name : String) : DimensionMap Quantity :=
      .ofList [(2, ⟨"m", name ++ "2"⟩), (3, ⟨"m", name ++ "3"⟩)]
    let edits : List Population.Edit := [.addScalar ⟨"m", "Mass"⟩,
      .addGroup ⟨"m", "Position"⟩ (members "Position"),
      .addGroup ⟨"m", "Moment"⟩ (members "Moment")]
    let resolver : Resolver := ⟨(Population.run {} edits).classify, {}⟩
    let target : Quantity := ⟨"m", "Moment"⟩
    let definition : Definition := ⟨"{1} * {0}", [⟨"m", "Position"⟩, ⟨"m", "Mass"⟩], .all, false⟩
    let operation : Operation := ⟨.mul, .slot 1, .slot 0⟩
    let x : Derivation :=
      ⟨"{1} * {0}", "{1} * {0}", [⟨"m", "Position3"⟩, ⟨"m", "Mass"⟩], .vector, some 3⟩
    let mass : OverloadOperand := .quantity ⟨"m", "Mass"⟩
    let position : OverloadOperand := .quantity ⟨"m", "Position3"⟩
    let found : List Overload := [⟨⟨"m", "Moment3"⟩, .mul, mass, position⟩,
      ⟨⟨"m", "Position3"⟩, .div, .quantity ⟨"m", "Moment3"⟩, mass⟩]
    let v : Quantity → ℚ := fun q =>
      if q.name = "Mass" then 2 else if q.name = "Position3" then 3 else 6
    (x.overloads resolver.classifier target .all = .ok found ∧
        invertible x.expression x.signature.length = .ok operation ∧
        operation.Binds x.signature mass position ∧ (∀ q, v q ≠ 0) ∧
        (x.equation resolver.classifier target operation.operator mass position).Holds v ∧
        ∀ o ∈ found, o.equation.Holds v) ∧
      invertible definition.expression definition.signature.length = .ok operation ∧
      ∃ r, (resolver.resolveWith Sink.report target definition .silent).1 = .ok r ∧
        x ∈ r.derivations ∧ ∃ a b found, operation.Binds x.signature a b ∧
          x.overloads resolver.classifier target .all = .ok found ∧
          let E := x.equation resolver.classifier target operation.operator a b
          ((∃ o ∈ found, o.equation = E.isolateLeft) ↔
            (∃ q, a = .quantity q) ∧ ¬E.isolateLeft.DividesByVector resolver.classifier) ∧
          ((∃ o ∈ found, o.equation = E.isolateRight) ↔
            (∃ q, b = .quantity q) ∧ ¬E.isolateRight.DividesByVector resolver.classifier) := by
  intro members edits resolver target definition operation x mass position found v
  obtain ⟨valid, complete⟩ := overloads_valid_and_complete
  have read : Expr.parse "{1} * {0}".toList 2 = .ok operation.expr :=
    Expr.parse_of_eq_displayOuter (by decide) (by decide)
  have inverted : invertible "{1} * {0}" 2 = .ok operation :=
    invertible_eq_ok_iff.mpr ⟨read, rfl⟩
  have binds : operation.Binds x.signature mass position := ⟨rfl, rfl⟩
  have overloads : x.overloads resolver.classifier target .all = .ok found :=
    (Derivation.overloads_of_binds (by decide) inverted binds _ target).trans (by decide)
  have nonzero : ∀ q, v q ≠ 0 := by
    intro q
    simp only [v]
    split
    · decide
    · split <;> decide
  have holds : (x.equation resolver.classifier target .mul mass position).Holds v := by
    decide +kernel
  have succeeds : resolver.Succeeds target definition operation.expr _ :=
    ⟨read, by decide, by decide, by decide, rfl⟩
  have resolved : (resolver.resolveWith Sink.report target definition .silent).1 = .ok _ :=
    Resolver.resolveWith_eq_ok_iff.mpr succeeds.outcome
  have derived : x ∈ Resolution.derivations _ := succeeds.mem_derivations.mpr (by decide)
  exact ⟨⟨overloads, inverted, binds, nonzero, holds,
      valid _ _ _ _ _ _ _ _ v overloads inverted binds nonzero holds⟩, inverted, _, resolved,
    derived, complete _ _ edits _ _ definition _ _ operation resolved inverted x derived⟩

end QuantityAlgebra
