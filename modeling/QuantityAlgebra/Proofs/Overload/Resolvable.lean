import QuantityAlgebra.Proofs.Overload.Inversion
import QuantityAlgebra.Proofs.Resolution.Reresolution

/-!
# Overloads that resolve

An overload is an operation on its own and can be declared as a definition on the quantity it
results in, `{0} op {1}` over its operands. It then resolves if its derivation has a type that the
target takes, and only then. A resolution may also hold derivations of dimensions that the target
does not accept. Their overloads are proposed as well, for only kinds are looked at, with the target
in the place of a result that the target is not; none of them resolves.

Results:
* **`succeeds_of_typed`**, **`fits_of_succeeds`**: which overloads resolve.
* **`Stands.typed_of_proposes`**, **`Stands.takes_of_proposes`**: what is proposed for a derivation.
* **`overloads_resolve`**: the overloads of derivations that suit the target resolve, no others do.
* `overloads_resolve_not_accepted`: an overload that does not resolve.
-/

namespace QuantityAlgebra

/-! ## Overloads as definitions -/

/-- The operand as a tree, a quantity being the slot. -/
def OverloadOperand.expr (slot : Nat) : OverloadOperand → Expr
  | .quantity _ => .slot slot
  | .dimensionless => .one

namespace Overload

/-- The quantities among the operands, from left to right. -/
def signature (o : Overload) : Signature := o.lhs.quantity?.toList ++ o.rhs.quantity?.toList

/-- The slot of the right operand. -/
def rightSlot (o : Overload) : Nat := o.lhs.quantity?.toList.length

/-- The operation as a tree over its quantities. -/
def expr (o : Overload) : Expr :=
  .binary o.operator.toBinary (o.lhs.expr 0) (o.rhs.expr o.rightSlot)

/-- The overload as a definition, `{0} op {1}` or the form with the constant. -/
def definition (o : Overload) : Definition :=
  { expression := String.ofList o.expr.displayOuter, signature := o.signature }

theorem below_expr (o : Overload) : o.expr.Below o.signature.length := by
  obtain ⟨result, operator, lhs, rhs⟩ := o
  intro slot found
  cases lhs <;> cases rhs <;>
    simp [expr, signature, rightSlot, OverloadOperand.expr, OverloadOperand.quantity?,
      Expr.references] at found ⊢ <;> omega

/-- **The definition of an overload reads as its operation.** -/
theorem read_definition (o : Overload) :
    Expr.parse o.definition.expression.toList o.definition.signature.length = .ok o.expr := by
  rw [definition, String.toList_ofList]
  exact Expr.parse_displayOuter o.below_expr

/-- The reciprocal of a quantity has one slot, on the right. -/
example : definition ⟨⟨"m", "Frequency"⟩, .div, .dimensionless, .quantity ⟨"m", "Time"⟩⟩ =
    { expression := "1 / {0}", signature := [⟨"m", "Time"⟩] } := by decide

theorem mem_signature {o : Overload} {q : Quantity} :
    q ∈ o.signature ↔ o.lhs = .quantity q ∨ o.rhs = .quantity q := by
  obtain ⟨result, operator, lhs, rhs⟩ := o
  cases lhs <;> cases rhs <;> simp [signature, OverloadOperand.quantity?, eq_comm]

theorem get?_lhs {classifier : Classifier} {o : Overload} {q : Quantity}
    (h : o.lhs = .quantity q) :
    (OperandTable.classify classifier o.signature).get? 0 =
      some (Operand.classify classifier q) := by
  simp [OperandTable.get?, OperandTable.classify, signature, h, OverloadOperand.quantity?]

theorem get?_rhs {classifier : Classifier} {o : Overload} {q : Quantity}
    (h : o.rhs = .quantity q) :
    (OperandTable.classify classifier o.signature).get? o.rightSlot =
      some (Operand.classify classifier q) := by
  simp [OperandTable.get?, OperandTable.classify, signature, rightSlot, h,
    OverloadOperand.quantity?]

end Overload

/-! ## Types of operands -/

namespace OverloadOperand

variable {classifier : Classifier} {t : OperandTable} {choice : Choice} {slot : Nat}
  {operand : OverloadOperand} {τ : ExprType}

theorem hasType_of_type?
    (bound : ∀ q, operand = .quantity q → t.get? slot = some (Operand.classify classifier q))
    (h : operand.type? classifier = some τ) : HasType t choice (operand.expr slot) τ := by
  cases operand with
  | quantity q =>
    obtain ⟨-, type⟩ := Operand.typeAt_of_type? h (choice slot)
    exact type ▸ .slot (bound q rfl)
  | dimensionless =>
    obtain rfl := Option.some.inj h
    exact .one

theorem takes_of_hasType
    (bound : ∀ q, operand = .quantity q → t.get? slot = some (Operand.classify classifier q))
    (chosen : ∀ q, operand = .quantity q → (Operand.classify classifier q).isGroup = true →
      choice slot ∈ (Operand.classify classifier q).candidates)
    (typed : HasType t choice (operand.expr slot) τ) : operand.Takes classifier τ := by
  cases operand with
  | quantity q =>
    cases typed with
    | slot found =>
      obtain rfl := Option.some.inj ((bound q rfl).symm.trans found)
      exact Operand.takes_typeAt (chosen q rfl)
  | dimensionless =>
    cases typed
    rfl

end OverloadOperand

/-! ## Which overloads resolve -/

namespace Resolver

variable {resolver : Resolver} {o : Overload} {e : Expr} {r : Resolution} {σ ρ τ : ExprType}

/-- **A typed overload resolves**, to one derivation of the type. -/
theorem succeeds_of_typed (typed : o.Typed resolver.classifier σ ρ τ) :
    ∃ y : Derivation, y.Labelled τ ∧
      resolver.Succeeds o.result o.definition o.expr (.ofDerivations o.definition [y]) := by
  have closed : (OperandTable.classify resolver.classifier o.signature).Closed o.expr := by
    refine OperandTable.closed_iff.mpr fun slot operand _ found => ?_
    obtain ⟨q, held, rfl⟩ := List.mem_map.mp (List.mem_of_getElem? found)
    rcases Overload.mem_signature.mp held with isLeft | isRight
    · have type := typed.lhs
      rw [isLeft] at type
      exact (Operand.typeAt_of_type? type 0).1
    · have type := typed.rhs
      rw [isRight] at type
      exact (Operand.typeAt_of_type? type 0).1
  have hasType : HasType (.classify resolver.classifier o.signature) (fun _ => 0) o.expr τ :=
    hasType_binary_iff.mpr ⟨σ, ρ,
      OverloadOperand.hasType_of_type? (fun _ => Overload.get?_lhs) typed.lhs,
      OverloadOperand.hasType_of_type? (fun _ => Overload.get?_rhs) typed.rhs, typed.fits⟩
  have takes : (resolver.classifier o.result).Takes τ :=
    (Classification.takes_iff_of_type? typed.result).mpr rfl
  have resolves : resolver.Succeeds o.result o.definition o.expr _ :=
    succeeds_of_closed o.read_definition closed hasType takes
  exact ⟨_, OperandTable.labelled_derivation resolver.config o.signature (closed.settled _) hasType,
    resolves⟩

/-- **An overload that resolves fits.** -/
theorem fits_of_succeeds (h : resolver.Succeeds o.result o.definition e r) :
    o.Fits resolver.classifier := by
  obtain rfl : e = o.expr := Except.ok.inj (h.read.symm.trans o.read_definition)
  obtain ⟨dims, τ, ⟨selected, typed⟩, takes⟩ := h.exists_takes
  obtain ⟨σ, ρ, left, right, fits⟩ := hasType_binary_iff.mp typed
  refine ⟨σ, ρ, τ, ?_, ?_, takes, fits⟩
  · refine OverloadOperand.takes_of_hasType (fun _ => Overload.get?_lhs) (fun q isLeft => ?_) left
    refine OperandTable.mem_candidates_choiceOf selected ?_ (Overload.get?_lhs isLeft)
    simp [Overload.expr, isLeft, OverloadOperand.expr, Expr.references]
  · refine OverloadOperand.takes_of_hasType (fun _ => Overload.get?_rhs) (fun q isRight => ?_) right
    refine OperandTable.mem_candidates_choiceOf selected ?_ (Overload.get?_rhs isRight)
    simp [Overload.expr, isRight, OverloadOperand.expr, Expr.references]

end Resolver

/-! ## Overloads of a derivation -/

/-- What a side is bound to has the type of the side. -/
theorem BoundOperand.typed_of_hasType {classifier : Classifier} {signature : Signature}
    {choice : Choice} {side : Side} {b : BoundOperand} {τ : ExprType}
    (closed : (OperandTable.classify classifier signature).Closed side.expr)
    (typed : HasType (.classify classifier signature) choice side.expr τ)
    (bound : ofSide? classifier signature side = some b) : b.Typed classifier τ := by
  cases side with
  | one =>
    obtain rfl := Option.some.inj bound
    cases typed
    exact ⟨rfl, rfl⟩
  | slot index =>
    obtain ⟨q, declared, rfl⟩ := Option.map_eq_some_iff.mp bound
    have held : (OperandTable.classify classifier signature).get? index =
        some (Operand.classify classifier q) := by
      rw [OperandTable.get?, OperandTable.classify, List.getElem?_map, declared, Option.map_some]
    cases typed with
    | slot found =>
      obtain rfl := Option.some.inj (held.symm.trans found)
      have fixed := OperandTable.closed_iff.mp closed index _ (by simp [Side.expr, Expr.references])
        held
      have type := Operand.type?_of_isGroup_eq_false fixed (choice index)
      exact ⟨type, Classification.kind_of_type? type⟩

namespace Derivation

variable {classifier : Classifier} {target : Quantity} {x : Derivation} {τ : ExprType}

/-- A derivation that a target takes is bound to a quantity of its type. -/
theorem typed_product (coherent : classifier.Coherent) (labelled : x.Labelled τ)
    (takes : (classifier target).Takes τ) : (x.product classifier target).Typed classifier τ := by
  refine ⟨?_, labelled.kind⟩
  show (classifier (resultQuantity classifier target x)).type? = some τ
  unfold resultQuantity
  cases classified : classifier target with
  | scalar | fixedVector | groupMember =>
    rw [classified] at takes
    obtain rfl := takes
    simp only [classified]
    rfl
  | group members =>
    rw [classified] at takes
    obtain ⟨d, key, rfl⟩ := takes
    obtain ⟨member, bound⟩ := DimensionMap.get?_of_mem_keys key
    simp only [labelled.dimension, ExprType.dimension?, bound, Option.getD_some,
      coherent target members d member classified bound, Classification.type?]

/-- The quantity a derivation is bound to takes its type only if the target does. -/
theorem takes_of_takes_product (labelled : x.Labelled τ)
    (h : (x.product classifier target).operand.Takes classifier τ) :
    (classifier target).Takes τ := by
  have held : (classifier (resultQuantity classifier target x)).Takes τ := h
  unfold resultQuantity at held
  split at held
  · rename_i members d classified dimension
    cases bound : members.get? d with
    | none =>
      -- The group has no member for the dimension and stands in for it itself.
      rw [bound] at held
      exact held
    | some member =>
      -- What the member is classified as does not matter: that there is one suffices.
      rw [classified]
      refine ⟨d, DimensionMap.mem_keys_of_get? bound, ?_⟩
      rw [labelled.dimension] at dimension
      cases τ with
      | scalar => contradiction
      | vector => exact congrArg ExprType.vector (Option.some.inj dimension)
  · exact held

end Derivation

namespace Resolver

variable {State : Type} {report : State → ResolutionError → Option Diagnostic × State}
  {resolver : Resolver} {target : Quantity} {definition : Definition} {state : State} {e : Expr}
  {policy : OverloadPolicy} {x : Derivation} {o : Overload} {τ : ExprType} {r : Resolution}

/-- What is proposed for a derivation comes from an operation whose operands are typed. -/
theorem Stands.exists_typed_of_proposes (stands : resolver.Stands x e τ)
    (proposed : x.Proposes resolver.classifier target policy o) :
    ∃ (op : ArithmeticOp) (lhs rhs : BoundOperand) (σ ρ : ExprType),
      lhs.Typed resolver.classifier σ ∧ rhs.Typed resolver.classifier ρ ∧
        ExprType.combine? op.toBinary σ ρ = some τ ∧
        o ∈ proposals policy target op lhs rhs (x.product resolver.classifier target) := by
  obtain ⟨operation, lhs, rhs, read, left, right, held⟩ :=
    Derivation.exists_operation_of_proposes proposed
  obtain rfl : e = operation.expr := Except.ok.inj (stands.read.symm.trans read)
  obtain ⟨σ, ρ, hl, hr, fits⟩ := hasType_binary_iff.mp stands.typed
  exact ⟨operation.operator, lhs, rhs, σ, ρ,
    BoundOperand.typed_of_hasType stands.closed.left hl left,
    BoundOperand.typed_of_hasType stands.closed.right hr right, fits, held⟩

/-- **What is proposed for a derivation of a type that the target takes is typed.** -/
theorem Stands.typed_of_proposes (coherent : resolver.classifier.Coherent)
    (stands : resolver.Stands x e τ)
    (proposed : x.Proposes resolver.classifier target policy o)
    (takes : (resolver.classifier target).Takes τ) :
    ∃ σ' ρ' τ', o.Typed resolver.classifier σ' ρ' τ' := by
  obtain ⟨op, lhs, rhs, σ, ρ, left, right, fits, held⟩ := stands.exists_typed_of_proposes proposed
  exact typed_of_mem_proposals left right
    (Derivation.typed_product coherent stands.labelled takes) fits held

/-- **What is proposed for a derivation fits only if the target takes its type.** -/
theorem Stands.takes_of_proposes (stands : resolver.Stands x e τ)
    (proposed : x.Proposes resolver.classifier target policy o)
    (works : o.Fits resolver.classifier) : (resolver.classifier target).Takes τ := by
  obtain ⟨op, lhs, rhs, σ, ρ, left, right, fits, held⟩ := stands.exists_typed_of_proposes proposed
  exact Derivation.takes_of_takes_product stands.labelled
    (takes_of_fits left right fits held works)

end Resolver

/-! ## Overloads of a resolution -/

theorem exists_of_mem_mapM {ε α β : Type} {f : α → Except ε β} {xs : List α} {ys : List β} {y : β}
    (h : xs.mapM f = .ok ys) (held : y ∈ ys) : ∃ x ∈ xs, f x = .ok y := by
  induction xs generalizing ys with
  | nil =>
    obtain rfl : [] = ys := Except.ok.inj h
    contradiction
  | cons x xs ih =>
    rw [List.mapM_cons] at h
    obtain ⟨z, first, h⟩ := Expr.bind_eq_ok.mp h
    obtain ⟨zs, rest, h⟩ := Expr.bind_eq_ok.mp h
    obtain rfl := Except.ok.inj h
    rcases List.mem_cons.mp held with rfl | held
    · exact ⟨x, List.mem_cons_self, first⟩
    · obtain ⟨x', found, same⟩ := ih rest held
      exact ⟨x', List.mem_cons_of_mem x found, same⟩

/-- Where each element has a value the list has, and none of the values is left out. -/
theorem exists_mapM_eq_ok {ε α β : Type} {f : α → Except ε β} {xs : List α}
    (each : ∀ x ∈ xs, ∃ y, f x = .ok y) :
    ∃ ys, xs.mapM f = .ok ys ∧ ∀ x ∈ xs, ∃ y ∈ ys, f x = .ok y := by
  induction xs with
  | nil => exact ⟨[], rfl, by simp⟩
  | cons x xs ih =>
    obtain ⟨first, later⟩ := List.forall_mem_cons.mp each
    obtain ⟨y, value⟩ := first
    obtain ⟨ys, values, kept⟩ := ih later
    refine ⟨y :: ys, by rw [List.mapM_cons, value, values]; rfl, ?_⟩
    refine List.forall_mem_cons.mpr ⟨⟨y, List.mem_cons_self, value⟩, fun x' found => ?_⟩
    obtain ⟨y', held, same⟩ := kept x' found
    exact ⟨y', List.mem_cons_of_mem y held, same⟩

namespace Resolver

variable {State : Type} {report : State → ResolutionError → Option Diagnostic × State}
  {resolver : Resolver} {target : Quantity} {definition : Definition} {state : State}
  {o : Overload} {r : Resolution}

/-- An overload of a resolution is proposed for one of its derivations. -/
theorem exists_proposes_of_mem {found : List Overload} (h : resolver.overloads target r = .ok found)
    (held : o ∈ found) :
    ∃ x ∈ r.derivations, x.Proposes resolver.classifier target r.definition.policy o := by
  obtain ⟨-, -, h⟩ := Expr.bind_eq_ok.mp h
  obtain ⟨lists, each, h⟩ := Expr.bind_eq_ok.mp h
  obtain rfl := Except.ok.inj h
  obtain ⟨list, listed, inside⟩ := List.mem_flatten.mp (mem_distinct.mp held)
  obtain ⟨x, derived, same⟩ := exists_of_mem_mapM each listed
  exact ⟨x, derived, list, same, inside⟩

/-- **The overloads of derivations that suit the target resolve, and no others do.** Each overload
of a resolution is proposed for one of its derivations. If the derivation suits the target, the
overload results in a quantity that has a type, and resolves on it to one derivation of that type,
whatever failures are reported to. If it does not, the overload does not resolve. -/
theorem overloads_resolve {p : Population} (coherent : p.Coherent) {config : Config}
    (success : ((Resolver.mk p.classify config).resolveWith report target definition state).1 =
      .ok r)
    {found : List Overload}
    (overloads : (Resolver.mk p.classify config).overloads target r = .ok found)
    (held : o ∈ found) :
    (∃ x ∈ r.derivations, x.Proposes p.classify target r.definition.policy o) ∧
      ∀ x ∈ r.derivations, x.Proposes p.classify target r.definition.policy o →
        (x.Suits (p.classify target) →
          ∃ τ y, (p.classify o.result).type? = some τ ∧ y.Labelled τ ∧
            ∀ {State' : Type} (report' : State' → ResolutionError → Option Diagnostic × State')
              (state' : State'),
              ∃ r', ((Resolver.mk p.classify config).resolveWith report' o.result o.definition
                  state').1 = .ok r' ∧ r'.derivations = [y]) ∧
        (¬x.Suits (p.classify target) →
          ∀ {State' : Type} (report' : State' → ResolutionError → Option Diagnostic × State')
            (state' : State'),
            ∃ failure, ((Resolver.mk p.classify config).resolveWith report' o.result o.definition
              state').1 = .error failure) := by
  obtain ⟨e, succeeds⟩ := succeeds_of_outcome (resolveWith_eq_ok_iff.mp success)
  refine ⟨exists_proposes_of_mem overloads held, fun x derived proposed => ?_⟩
  -- Whether the derivation suits the target is whether the target takes its type, and that is what
  -- both directions need of an overload.
  obtain ⟨τ, stands, takes⟩ := succeeds.stands coherent.classify derived
  constructor
  · intro suits
    obtain ⟨σ', ρ', τ', typed⟩ :=
      stands.typed_of_proposes coherent.classify proposed (takes.mpr suits)
    obtain ⟨y, labelled, resolves⟩ : ∃ y : Derivation, y.Labelled τ' ∧
        (Resolver.mk p.classify config).Succeeds o.result o.definition o.expr
          (.ofDerivations o.definition [y]) := succeeds_of_typed typed
    refine ⟨τ', y, typed.result, labelled, fun {_} report' state' => ?_⟩
    exact ⟨_, resolveWith_eq_ok_iff.mpr resolves.outcome,
      Resolution.derivations_ofDerivations_singleton _ y⟩
  · intro unsuited State' report' state'
    cases out : ((Resolver.mk p.classify config).resolveWith report' o.result o.definition
        state').1 with
    | error failure => exact ⟨failure, rfl⟩
    | ok r' =>
      obtain ⟨e', resolves⟩ := succeeds_of_outcome (resolveWith_eq_ok_iff.mp out)
      exact absurd (takes.mp (stands.takes_of_proposes proposed (fits_of_succeeds resolves)))
        unsuited

end Resolver

/-! ## A vector target and the quotient of a group -/

namespace Motion

/-- A group of two dimensions, a scalar, and a vector of one of the two dimensions. -/
def population : Population := .ofRoster
  { scalars := [⟨"m", "Time"⟩]
    vectors := [⟨⟨"m", "Velocity3"⟩, 3⟩]
    groups := [⟨⟨"m", "Position"⟩, .ofList [(2, ⟨"m", "Position2"⟩), (3, ⟨"m", "Position3"⟩)]⟩] }

def resolver : Resolver := ⟨population.classify, {}⟩

def velocity : Quantity := ⟨"m", "Velocity3"⟩

/-- The quotient of the group and the scalar, with the overloads that isolate the dividend. -/
def quotient : Definition :=
  { expression := "{0} / {1}"
    signature := [⟨"m", "Position"⟩, ⟨"m", "Time"⟩]
    policy := .leftHandSide }

/-- The quotient for one member of the group. -/
def derivation (position : String) (d : Dimension) : Derivation :=
  ⟨"{0} / {1}", "{0} / {1}", [⟨"m", position⟩, ⟨"m", "Time"⟩], .vector, some d⟩

/-- Both members have a quotient, and the vector accepts one of the two. -/
def resolution : Resolution :=
  ⟨quotient, [], .ofList [(2, [derivation "Position2" 2]), (3, [derivation "Position3" 3])]⟩

/-- The overloads of the quotient for one member, bound to the vector. -/
def overloads (position : String) : List Overload :=
  [⟨velocity, .div, .quantity ⟨"m", position⟩, .quantity ⟨"m", "Time"⟩⟩,
    ⟨⟨"m", position⟩, .mul, .quantity velocity, .quantity ⟨"m", "Time"⟩⟩]

theorem coherent : population.Coherent := by decide

theorem invertible_quotient : invertible "{0} / {1}" 2 = .ok ⟨.div, .slot 0, .slot 1⟩ := by
  have read : Expr.parse "{0} / {1}".toList 2 = .ok (.binary .div (.slot 0) (.slot 1)) :=
    Expr.parse_of_eq_displayOuter (by decide) (by decide)
  exact invertible_eq_ok_iff.mpr ⟨read, rfl⟩

theorem resolves :
    (resolver.resolveWith Sink.report velocity quotient .silent).1 = .ok resolution := by
  have succeeds : resolver.Succeeds velocity quotient (.binary .div (.slot 0) (.slot 1))
      resolution :=
    ⟨(invertible_eq_ok_iff.mp invertible_quotient).1, by decide, by decide, by decide, by decide⟩
  exact Resolver.resolveWith_eq_ok_iff.mpr succeeds.outcome

theorem overloads_derivation {position : String} {d : Dimension}
    (held : (position, d) ∈ [("Position2", 2), ("Position3", 3)]) :
    (derivation position d).overloads population.classify velocity .leftHandSide =
      .ok (overloads position) := by
  have found : (derivation position d).overloads population.classify velocity .leftHandSide = _ :=
    Derivation.overloads_of_operation (by decide) invertible_quotient rfl rfl velocity
  simp only [List.mem_cons, Prod.mk.injEq, List.not_mem_nil, or_false] at held
  rcases held with ⟨rfl, rfl⟩ | ⟨rfl, rfl⟩
  · exact found.trans (by decide)
  · exact found.trans (by decide)

/-- Nothing is left out for the dimension that is not accepted. -/
theorem overloads_resolution :
    resolver.overloads velocity resolution =
      .ok (overloads "Position2" ++ overloads "Position3") := by
  have valid : quotient.validatePolicy = .ok () := by
    show (invertible "{0} / {1}" 2).map _ = _
    rw [invertible_quotient]
    rfl
  have derived : resolution.derivations =
      [derivation "Position2" 2, derivation "Position3" 3] := by decide
  have first : (derivation "Position2" 2).overloads population.classify velocity .leftHandSide =
      .ok (overloads "Position2") := overloads_derivation (by simp)
  have second : (derivation "Position3" 3).overloads population.classify velocity .leftHandSide =
      .ok (overloads "Position3") := overloads_derivation (by simp)
  rw [Resolver.overloads, show resolution.definition = quotient from rfl, valid, derived]
  simp only [List.mapM_cons, List.mapM_nil, resolver, quotient, first, second]
  decide

end Motion

namespace Resolver

/-- Isolating the dividend of the accepted quotient. -/
theorem overloads_resolve_quotient :
    let o : Overload :=
      ⟨⟨"m", "Position3"⟩, .mul, .quantity Motion.velocity, .quantity ⟨"m", "Time"⟩⟩
    let x := Motion.derivation "Position3" 3
    let resolver : Resolver := ⟨Motion.population.classify, {}⟩
    Motion.population.Coherent ∧
      (resolver.resolveWith Sink.report Motion.velocity Motion.quotient .silent).1 =
        .ok Motion.resolution ∧
      (∃ found, resolver.overloads Motion.velocity Motion.resolution = .ok found ∧ o ∈ found) ∧
      x ∈ Motion.resolution.derivations ∧
      x.Proposes Motion.population.classify Motion.velocity .leftHandSide o ∧
      x.Suits (Motion.population.classify Motion.velocity) ∧
      ∃ τ y, (Motion.population.classify o.result).type? = some τ ∧ y.Labelled τ ∧
        ∀ {State : Type} (report : State → ResolutionError → Option Diagnostic × State)
          (state : State),
          ∃ r, (resolver.resolveWith report o.result o.definition state).1 = .ok r ∧
            r.derivations = [y] := by
  intro o x resolver
  have held : o ∈ Motion.overloads "Position2" ++ Motion.overloads "Position3" := by decide
  have derived : x ∈ Motion.resolution.derivations := by decide
  have proposed : x.Proposes Motion.population.classify Motion.velocity .leftHandSide o :=
    ⟨_, Motion.overloads_derivation (by simp), by decide⟩
  have suits : x.Suits (Motion.population.classify Motion.velocity) :=
    Or.inr ⟨.single 3, 3, by decide⟩
  obtain ⟨-, each⟩ :=
    overloads_resolve Motion.coherent Motion.resolves Motion.overloads_resolution held
  exact ⟨Motion.coherent, Motion.resolves, ⟨_, Motion.overloads_resolution, held⟩, derived,
    proposed, suits, (each x derived proposed).1 suits⟩

/-- **Not every overload resolves.** The quotient of dimension two is kept along with that of
dimension three, and its overload is bound to the vector of dimension three. -/
theorem overloads_resolve_not_accepted :
    let o : Overload :=
      ⟨Motion.velocity, .div, .quantity ⟨"m", "Position2"⟩, .quantity ⟨"m", "Time"⟩⟩
    let resolver : Resolver := ⟨Motion.population.classify, {}⟩
    Motion.population.Coherent ∧
      (resolver.resolveWith Sink.report Motion.velocity Motion.quotient .silent).1 =
        .ok Motion.resolution ∧
      (∃ found, resolver.overloads Motion.velocity Motion.resolution = .ok found ∧ o ∈ found) ∧
      ∃ diagnostic, (resolver.resolveWith Sink.report o.result o.definition .silent).1 =
        .error ⟨⟨o.definition.expression, .unexpectedDimension o.result⟩, diagnostic⟩ := by
  intro o resolver
  have held : o ∈ Motion.overloads "Position2" ++ Motion.overloads "Position3" := by decide
  have fault : targetFault? o.result (resolver.classifier o.result)
      (o.expr.kind (resolver.operands o.definition.signature o.expr))
      (resolver.derivations o.definition.signature o.expr) =
        some (.unexpectedDimension o.result) := by decide
  have refused : resolver.outcome o.result o.definition =
      .error (.unexpectedDimension o.result) := by
    rw [outcome, o.read_definition]
    simp only [fault]
    rw [if_neg (by decide), if_neg (by decide)]
  exact ⟨Motion.coherent, Motion.resolves, ⟨_, Motion.overloads_resolution, held⟩,
    resolveWith_of_error Sink.report .silent refused⟩

end Resolver

end QuantityAlgebra
