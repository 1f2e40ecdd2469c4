import QuantityAlgebra.Proofs.Overload.Resolvable
import QuantityAlgebra.Proofs.Population.Members

/-!
# The operation among its overloads

Overloads are searched for each derivation on its own: its text is read again, and what its
signature binds is classified again. Whether a definition may have overloads at all was decided
before, on the declared text and signature. The two agree. The text of a derivation reads as the
declared tree, so it is the same operation. What it binds need not be classified as it was declared,
but it is of the same kind: a member of a group is a vector, whatever else it is registered as. So
the kinds of the operation come out as they did when the definition was resolved, and the operation
itself is always among the overloads.

Results:
* `OperandTable.kind_signatureOf`: the kind of a tree over the concrete signature.
* `Resolver.invertible_of_mem`, `Resolver.combine_of_mem`: what holds of each derivation.
* **`policy_decides_overloads`**: an invalid policy is all that stands in the way of overloads, and
  the operation itself is among them.
-/

namespace QuantityAlgebra

/-! ## Kinds of operands -/

/-- What a side stands for in a signature. -/
def Side.operand? (signature : Signature) : Side → Option OverloadOperand
  | .slot index => signature[index]?.map .quantity
  | .one => some .dimensionless

/-- The operands that the sides of an operation stand for in a signature. -/
structure Operation.Binds (operation : Operation) (signature : Signature)
    (lhs rhs : OverloadOperand) : Prop where
  left : operation.lhs.operand? signature = some lhs
  right : operation.rhs.operand? signature = some rhs

namespace OverloadOperand

/-- The kind of an operand, as its quantity is classified. -/
def kind (classifier : Classifier) : OverloadOperand → Kind
  | .quantity q => .ofClassification (classifier q)
  | .dimensionless => .scalar

/-- An operand together with its kind. -/
def bound (classifier : Classifier) (operand : OverloadOperand) : BoundOperand :=
  ⟨operand, operand.kind classifier⟩

end OverloadOperand

variable {classifier : Classifier} {signature : Signature} {side : Side} {a b : OverloadOperand}
  {operation : Operation} {target : Quantity} {x : Derivation}

theorem BoundOperand.ofSide?_of_operand? (h : side.operand? signature = some a) :
    ofSide? classifier signature side = some (a.bound classifier) := by
  cases side with
  | one =>
    obtain rfl := Option.some.inj h
    rfl
  | slot index =>
    obtain ⟨q, declared, rfl⟩ := Option.map_eq_some_iff.mp h
    rw [ofSide?, declared]
    rfl

theorem Operand.kind_classify (classifier : Classifier) (q : Quantity) :
    (classify classifier q).kind = .ofClassification (classifier q) := by
  unfold classify
  cases classifier q <;> rfl

/-- The kind of a side is that of what it stands for. -/
theorem Side.kind_expr (h : side.operand? signature = some a) :
    side.expr.kind (.classify classifier signature) = a.kind classifier := by
  cases side with
  | one =>
    obtain rfl := Option.some.inj h
    rfl
  | slot index =>
    obtain ⟨q, declared, rfl⟩ := Option.map_eq_some_iff.mp h
    rw [Side.expr, Expr.kind, OperandTable.get?_classify, declared]
    exact Operand.kind_classify classifier q

/-! ## Kinds over concrete signatures -/

/-- **What an operand is bound to is of its kind**, even where it is classified as something else: a
member of a group is a vector. -/
theorem Operand.kind_boundAt (vectors : classifier.VectorMembers) (q : Quantity) (d : Dimension) :
    (classify classifier ((classify classifier q).boundAt d)).kind =
      (classify classifier q).kind := by
  cases isGroup : (classify classifier q).isGroup with
  | false => rw [boundAt_of_isGroup_eq_false isGroup, declared_classify]
  | true =>
    obtain ⟨members, classified, operand⟩ := exists_members_of_isGroup isGroup
    rw [operand]
    cases bound : members.get? d with
    | none => rw [boundAt, bound, Option.getD_none, operand]
    | some member =>
      rw [boundAt, bound, Option.getD_some, kind_classify]
      exact vectors q members d member classified bound

/-- **The concrete signature gives the tree the kind it was declared with.** -/
theorem OperandTable.kind_signatureOf (vectors : classifier.VectorMembers) (signature : Signature)
    (e : Expr) (dims : List Dimension) :
    e.kind (classify classifier ((classify classifier signature).signatureOf e dims)) =
      e.kind (classify classifier signature) := by
  refine Expr.kind_congr fun slot referenced => ?_
  rw [get?_signatureOf referenced]
  cases found : (classify classifier signature).get? slot with
  | none => rfl
  | some operand =>
    obtain ⟨q, rfl⟩ := exists_of_get?_classify found
    exact congrArg some (Operand.kind_boundAt vectors q _)

/-! ## Derivations of an operation -/

/-- An operation whose kinds are right is among its overloads under every policy. -/
theorem self_mem_proposals {policy : OverloadPolicy} {op : ArithmeticOp}
    {lhs rhs result : BoundOperand} {q : Quantity} (quantity : result.operand = .quantity q)
    (kinds : Kind.combine op.toBinary lhs.kind rhs.kind = result.kind) :
    ⟨q, op, lhs.operand, rhs.operand⟩ ∈ proposals policy target op lhs rhs result :=
  mem_proposals.mpr (.inl (propose?_eq_some.mpr ⟨rfl, rfl, rfl, quantity, kinds⟩))

/-- Both sides of an operation that can be inverted stand for something. -/
theorem exists_binds_of_invertible {expression : String}
    (inverted : invertible expression signature.length = .ok operation) :
    ∃ a b, operation.Binds signature a b := by
  have below := Expr.below_of_parse (invertible_eq_ok_iff.mp inverted).1
  have stands (side : Side)
      (inside : ∀ slot, side.expr.references slot = true → slot < signature.length) :
      ∃ a, side.operand? signature = some a := by
    cases side with
    | one => exact ⟨_, rfl⟩
    | slot index =>
      have held : index < signature.length := inside index (by simp [Side.expr, Expr.references])
      exact ⟨.quantity signature[index], by simp [Side.operand?, held]⟩
  obtain ⟨a, left⟩ := stands operation.lhs fun slot found =>
    below slot (by simp [Operation.expr, Expr.references, found])
  obtain ⟨b, right⟩ := stands operation.rhs fun slot found =>
    below slot (by simp [Operation.expr, Expr.references, found])
  exact ⟨a, b, left, right⟩

/-- **What is proposed for a derivation** are overloads of the operation it is, over what it
binds. -/
theorem Derivation.overloads_of_binds {policy : OverloadPolicy} (active : policy ≠ .none)
    (inverted : invertible x.expression x.signature.length = .ok operation)
    (binds : operation.Binds x.signature a b) (classifier : Classifier) (target : Quantity) :
    x.overloads classifier target policy =
      .ok (proposals policy target operation.operator (a.bound classifier) (b.bound classifier)
        (x.product classifier target)) :=
  overloads_of_operation active inverted (BoundOperand.ofSide?_of_operand? binds.left)
    (BoundOperand.ofSide?_of_operand? binds.right) target

namespace Resolver

variable {resolver : Resolver} {text : String}

/-- A derivation is the same operation as the definition. -/
theorem invertible_of_mem (inverted : invertible text signature.length = .ok operation)
    (derived : x ∈ resolver.derivations signature operation.expr) :
    invertible x.expression x.signature.length = .ok operation := by
  obtain ⟨read, covers⟩ := invertible_eq_ok_iff.mp inverted
  have length := length_signature_of_mem derived
  exact invertible_eq_ok_iff.mpr ⟨read_of_mem_derivations read derived, length ▸ covers⟩

/-- **The kinds of what a derivation binds combine to its own.** -/
theorem combine_of_mem (vectors : resolver.classifier.VectorMembers)
    (read : Expr.parse text.toList signature.length = .ok operation.expr)
    (derived : x ∈ resolver.derivations signature operation.expr)
    (binds : operation.Binds x.signature a b) :
    Kind.combine operation.operator.toBinary (a.kind resolver.classifier)
      (b.kind resolver.classifier) = x.kind := by
  obtain ⟨dims, τ, types, rfl⟩ := exists_types_of_mem read derived
  have kind := (OperandTable.labelled_derivationOf resolver.config types).kind
  rw [← Side.kind_expr binds.left, ← Side.kind_expr binds.right, ← Expr.kind_binary, kind,
    ← OperandTable.kind_of_types types]
  exact OperandTable.kind_signatureOf vectors signature operation.expr dims

/-- What is proposed for a derivation of a definition, over what it binds. -/
theorem overloads_of_mem (inverted : invertible text signature.length = .ok operation)
    (derived : x ∈ resolver.derivations signature operation.expr) (target : Quantity)
    {policy : OverloadPolicy} (active : policy ≠ .none) :
    ∃ a b, operation.Binds x.signature a b ∧
      x.overloads resolver.classifier target policy =
        .ok (proposals policy target operation.operator (a.bound resolver.classifier)
          (b.bound resolver.classifier) (x.product resolver.classifier target)) := by
  have inverted' := invertible_of_mem inverted derived
  obtain ⟨a, b, binds⟩ := exists_binds_of_invertible inverted'
  exact ⟨a, b, binds, Derivation.overloads_of_binds active inverted' binds _ target⟩

end Resolver

/-! ## Overloads of a resolution -/

/-- A policy that asks for overloads is valid if the definition is an operation. -/
theorem Definition.validatePolicy_of_active {definition : Definition}
    (active : definition.policy ≠ .none) :
    definition.validatePolicy =
      (invertible definition.expression definition.signature.length).map fun _ => () := by
  unfold validatePolicy
  cases policy : definition.policy with
  | none => exact absurd policy active
  | leftHandSide | rightHandSide | all | suitable => rfl

/-- The overloads hold the operation itself, for each of the derivations. -/
def Operation.ListedFor (operation : Operation) (classifier : Classifier) (target : Quantity)
    (derivations : List Derivation) (overloads : List Overload) : Prop :=
  ∀ x ∈ derivations, ∃ a b, operation.Binds x.signature a b ∧
    ⟨resultQuantity classifier target x, operation.operator, a, b⟩ ∈ overloads

namespace Resolver

variable {State : Type} {report : State → ResolutionError → Option Diagnostic × State}
  {resolver : Resolver} {definition : Definition} {state : State} {e : Expr} {r : Resolution}

/-- **A definition that is an operation has overloads**, and that operation for each derivation. -/
theorem Succeeds.exists_overloads (vectors : resolver.classifier.VectorMembers)
    (active : definition.policy ≠ .none)
    (inverted : invertible definition.expression definition.signature.length = .ok operation)
    (succeeds : resolver.Succeeds target definition e r) :
    ∃ found, resolver.overloads target r = .ok found ∧ found.Nodup ∧
      operation.ListedFor resolver.classifier target r.derivations found := by
  have valid : definition.validatePolicy = .ok () := by
    rw [Definition.validatePolicy_of_active active, inverted]
    rfl
  obtain ⟨read, -⟩ := invertible_eq_ok_iff.mp inverted
  obtain rfl : operation.expr = e := Except.ok.inj (read.symm.trans succeeds.read)
  have proposed := fun x (held : x ∈ r.derivations) =>
    overloads_of_mem inverted (succeeds.mem_derivations.mp held) target active
  have each : ∀ x ∈ r.derivations, ∃ list,
      x.overloads resolver.classifier target definition.policy = .ok list := fun x held => by
    obtain ⟨a, b, -, found⟩ := proposed x held
    exact ⟨_, found⟩
  obtain ⟨lists, searched, kept⟩ := exists_mapM_eq_ok each
  refine ⟨distinct lists.flatten, ?_, nodup_distinct _, fun x held => ?_⟩
  · rw [overloads, succeeds.definition_eq, valid, searched]
    rfl
  · obtain ⟨a, b, binds, found⟩ := proposed x held
    obtain ⟨list, listed, same⟩ := kept x held
    obtain rfl := Except.ok.inj (found.symm.trans same)
    have kinds := combine_of_mem vectors read (succeeds.mem_derivations.mp held) binds
    exact ⟨a, b, binds,
      mem_distinct.mpr (List.mem_flatten.mpr ⟨_, listed, self_mem_proposals rfl kinds⟩)⟩

/-- **Whether the policy is valid decides whether there are overloads**, and the operation itself is
among them. In a population after any run of edits, the overloads of a resolution fail if and only
if its definition is no operation, and as validation says. Else none is listed twice, and for each
derivation the operation between the quantities it binds is listed, whatever they are registered
as. -/
theorem policy_decides_overloads {edits : List Population.Edit} {config : Config}
    (active : definition.policy ≠ .none)
    (success : ((Resolver.mk (Population.run {} edits).classify config).resolveWith report target
      definition state).1 = .ok r) :
    let resolver : Resolver := ⟨(Population.run {} edits).classify, config⟩
    (∀ error, resolver.overloads target r = .error error ↔
      definition.validatePolicy = .error error) ∧
    ∀ found, resolver.overloads target r = .ok found → found.Nodup ∧
      ∃ operation : Operation,
        Expr.parse definition.expression.toList definition.signature.length =
          .ok operation.expr ∧
        operation.ListedFor resolver.classifier target r.derivations found := by
  intro resolver
  obtain ⟨e, succeeds⟩ := succeeds_of_outcome (resolveWith_eq_ok_iff.mp success)
  have vectors : resolver.classifier.VectorMembers := Population.vectorMembers_run edits
  have validated := Definition.validatePolicy_of_active active
  cases inverted : invertible definition.expression definition.signature.length with
  | error error =>
    have invalid : definition.validatePolicy = .error error := by
      rw [validated, inverted]
      rfl
    have failed : resolver.overloads target r = .error error := by
      rw [overloads, succeeds.definition_eq, invalid]
      rfl
    refine ⟨fun error' => by simp [failed, invalid], fun found listed => ?_⟩
    rw [failed] at listed
    contradiction
  | ok operation =>
    have valid : definition.validatePolicy = .ok () := by
      rw [validated, inverted]
      rfl
    obtain ⟨found, listed, nodup, own⟩ := succeeds.exists_overloads vectors active inverted
    refine ⟨fun error => by simp [listed, valid], fun found' listed' => ?_⟩
    obtain rfl := Except.ok.inj (listed.symm.trans listed')
    exact ⟨nodup, operation, (invertible_eq_ok_iff.mp inverted).1, own⟩

/-- A group of which one member is registered as a scalar too, and the other as a vector and, for
another dimension, as a member of a later group; and the last group taken off the list again. -/
theorem policy_decides_overloads_overlapping :
    let members (name : String) : DimensionMap Quantity :=
      .ofList [(2, ⟨"m", name ++ "2"⟩), (3, ⟨"m", name ++ "3"⟩)]
    let edits : List Population.Edit := [.addScalar ⟨"m", "Position2"⟩,
      .addGroup ⟨"m", "Position"⟩ (members "Position"), .addVector ⟨"m", "Position3"⟩ 7,
      .addGroup ⟨"m", "Moment"⟩ (members "Moment"),
      .addGroup ⟨"m", "Place"⟩ (.ofList [(5, ⟨"m", "Position3"⟩)]), .popGroup]
    let resolver : Resolver := ⟨(Population.run {} edits).classify, {}⟩
    let target : Quantity := ⟨"m", "Moment"⟩
    let definition : Definition := ⟨"{1} * {0}", [⟨"m", "Position"⟩, ⟨"m", "Mass"⟩], .all, false⟩
    resolver.classifier ⟨"m", "Position3"⟩ = .groupMember 5 ∧ definition.policy ≠ .none ∧
      ∃ r, (resolver.resolveWith Sink.report target definition .silent).1 = .ok r ∧ r.size = 2 ∧
        (∀ error, resolver.overloads target r = .error error ↔
          definition.validatePolicy = .error error) ∧
        ∃ found, resolver.overloads target r = .ok found ∧ found.Nodup ∧
          ∃ operation : Operation,
            Expr.parse definition.expression.toList definition.signature.length =
              .ok operation.expr ∧
            operation.ListedFor resolver.classifier target r.derivations found := by
  intro members edits resolver target definition
  let operation : Operation := ⟨.mul, .slot 1, .slot 0⟩
  have read : Expr.parse definition.expression.toList definition.signature.length =
      .ok operation.expr := Expr.parse_of_eq_displayOuter (by decide) (by decide)
  have inverted : invertible definition.expression definition.signature.length = .ok operation :=
    invertible_eq_ok_iff.mpr ⟨read, rfl⟩
  have active : definition.policy ≠ .none := by decide
  have succeeds : resolver.Succeeds target definition operation.expr _ :=
    ⟨read, by decide, by decide, by decide, rfl⟩
  have resolved : (resolver.resolveWith Sink.report target definition .silent).1 = .ok _ :=
    resolveWith_eq_ok_iff.mpr succeeds.outcome
  obtain ⟨found, listed, -⟩ :=
    succeeds.exists_overloads (Population.vectorMembers_run edits) active inverted
  obtain ⟨failures, holds⟩ := policy_decides_overloads active resolved
  exact ⟨by decide, active, _, resolved, by decide, failures, found, listed, holds found listed⟩

end Resolver

end QuantityAlgebra
