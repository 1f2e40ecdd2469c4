import QuantityAlgebra.Proofs.Derivation.Agreement
import QuantityAlgebra.Proofs.Derivation.ReadsBack
import QuantityAlgebra.Proofs.Population.Coherent
import QuantityAlgebra.Proofs.Resolution.Closed

/-!
# Derivations resolve to themselves

A derivation has a text and a signature, and so is itself a definition. Its text reads as the tree
it was made from. Its signature has, for each group the tree refers to, the member of the dimension
chosen for it, which in a coherent population is a vector of that dimension. So nothing is left to
choose, the tree has the type it had under the choice, and what is derived is the derivation again.

On a target that does not take its type a derivation does not resolve: a vector target keeps those
of dimensions it does not accept, if there is another one that it does.

Results:
* `Operand.classify_boundAt`: what a group is bound to is a vector of the chosen dimension.
* **`closed_signatureOf`**, **`agrees_signatureOf`**: the table of the concrete signature leaves
  nothing to choose, and gives every slot the type it had.
* **`Succeeds.stands`**: so whatever is derived stands on its own, as a definition.
* **`resolveWith_self`**: a derivation that suits the target resolves to itself.
-/

namespace QuantityAlgebra

/-! ## Concrete signatures -/

theorem Operand.exists_members_of_isGroup {classifier : Classifier} {q : Quantity}
    (h : (classify classifier q).isGroup = true) :
    ∃ members, classifier q = .group members ∧
      classify classifier q = .group q members (.ofList members.keys) := by
  unfold classify at h ⊢
  cases classified : classifier q with
  | scalar | fixedVector | groupMember => simp [classified, isGroup] at h
  | group members => exact ⟨members, rfl, rfl⟩

/-- **What an operand is bound to is no group**, and has the type the operand was chosen to have. -/
theorem Operand.classify_boundAt {classifier : Classifier} (coherent : classifier.Coherent)
    {q : Quantity} {d : Dimension}
    (chosen : (classify classifier q).isGroup = true → d ∈ (classify classifier q).candidates) :
    (classify classifier ((classify classifier q).boundAt d)).isGroup = false ∧
      ∀ d', (classify classifier ((classify classifier q).boundAt d)).typeAt d' =
        (classify classifier q).typeAt d := by
  cases isGroup : (classify classifier q).isGroup with
  | false =>
    rw [boundAt_of_isGroup_eq_false isGroup, declared_classify]
    exact ⟨isGroup, fun d' => typeAt_of_isGroup_eq_false isGroup d' d⟩
  | true =>
    -- Without coherence the member could be anything, another group included.
    obtain ⟨members, classified, operand⟩ := exists_members_of_isGroup isGroup
    rw [operand] at chosen ⊢
    have key : d ∈ members.keys := DimensionSet.mem_ofList.mp (chosen rfl)
    obtain ⟨member, bound⟩ := DimensionMap.get?_of_mem_keys key
    have isMember := coherent q members d member classified bound
    have vector : classify classifier member = .vector member d := by rw [classify, isMember]
    simp only [boundAt, bound, Option.getD_some, vector]
    exact ⟨rfl, fun _ => rfl⟩

namespace OperandTable

variable {classifier : Classifier} {signature : Signature} {e : Expr} {dims : List Dimension}
  {slot : Nat} {q : Quantity}

/-- What the concrete signature has for a slot the tree refers to. -/
theorem get?_signatureOf (referenced : e.references slot = true) :
    (classify classifier ((classify classifier signature).signatureOf e dims)).get? slot =
      ((classify classifier signature).get? slot).map fun operand =>
        Operand.classify classifier
          (operand.boundAt ((classify classifier signature).choiceOf e dims slot)) := by
  simp only [get?, classify, signatureOf, signatureAt, List.getElem?_map, List.getElem?_mapIdx,
    Option.map_map, Function.comp_def, boundIn, if_pos referenced]

theorem exists_of_get?_classify {operand : Operand}
    (found : (classify classifier signature).get? slot = some operand) :
    ∃ q, operand = Operand.classify classifier q := by
  obtain ⟨q, -, rfl⟩ := List.mem_map.mp (List.mem_of_getElem? found)
  exact ⟨q, rfl⟩

/-- A selection chooses for a group slot that the tree refers to one of its candidates. -/
theorem mem_candidates_choiceOf {t : OperandTable} {operand : Operand}
    (selected : t.Selects (t.referencedGroupSlots e) dims)
    (referenced : e.references slot = true) (found : t.get? slot = some operand)
    (isGroup : operand.isGroup = true) : t.choiceOf e dims slot ∈ operand.candidates := by
  have admitted := (selects_iff_admits (Narrows.refl t) selected.length_eq).mp selected
  have group : slot ∈ t.referencedGroupSlots e :=
    mem_referencedGroupSlots.mpr ⟨mem_groupSlots.mpr (by simp [found, isGroup]), referenced⟩
  exact candidates_of_get? found ▸ admitted slot group

/-- **A concrete signature leaves nothing to choose.** -/
theorem closed_signatureOf (coherent : classifier.Coherent)
    (selected : (classify classifier signature).Selects
      ((classify classifier signature).referencedGroupSlots e) dims) :
    (classify classifier ((classify classifier signature).signatureOf e dims)).Closed e := by
  refine closed_iff.mpr fun slot operand referenced found => ?_
  rw [get?_signatureOf referenced, Option.map_eq_some_iff] at found
  obtain ⟨declared, found, rfl⟩ := found
  obtain ⟨q, rfl⟩ := exists_of_get?_classify found
  exact (Operand.classify_boundAt coherent
    (mem_candidates_choiceOf selected referenced found)).1

/-- **A concrete signature gives every slot the type it was chosen to have.** -/
theorem agrees_signatureOf (coherent : classifier.Coherent)
    (selected : (classify classifier signature).Selects
      ((classify classifier signature).referencedGroupSlots e) dims) (other : Choice) :
    (classify classifier signature).Agrees ((classify classifier signature).choiceOf e dims)
      (classify classifier ((classify classifier signature).signatureOf e dims)) other e := by
  intro slot referenced
  rw [get?_signatureOf referenced]
  cases found : (classify classifier signature).get? slot with
  | none => rfl
  | some operand =>
    obtain ⟨q, rfl⟩ := exists_of_get?_classify found
    have bound := Operand.classify_boundAt coherent
      (mem_candidates_choiceOf selected referenced found)
    exact congrArg some (bound.2 (other slot)).symm

/-- **The derivation of a selection is the derivation over its concrete signature.** -/
theorem derivationOf_eq (coherent : classifier.Coherent) (config : Config) {τ : ExprType}
    (types : (classify classifier signature).Types e dims τ) :
    let t := classify classifier signature
    e.derivation config (classify classifier (t.signatureOf e dims)) (t.signatureOf e dims) =
      t.derivationOf config e dims := by
  intro t
  obtain ⟨selected, typed⟩ := types
  -- Three tables give the tree the same types: the one with the selection fixed, the declared one
  -- under the selection as a choice, and that of the concrete signature under any choice.
  have narrowed := narrows_fixAll (t.referencedGroupSlots e) dims t
  have closed := closed_signatureOf coherent selected
  have agrees := (narrowed.agrees (t.choiceOf e dims) e).trans
    (agrees_signatureOf coherent selected (t.choiceOf e dims))
  exact (derivation_of_agrees config (t.signatureOf e dims) (settled_fixAll selected)
    (closed.settled _) agrees (narrowed.hasType_iff.mpr typed)).symm

end OperandTable

/-! ## Derivations that suit the target -/

/-- The derivation is a scalar, or of a dimension that a target so classified accepts. -/
def Derivation.Suits (x : Derivation) (classification : Classification) : Prop :=
  x.kind = .scalar ∨
    ∃ accepted d, classification.vectorDimensions? = some accepted ∧
      x.dimension = some d ∧ d ∈ accepted

/-- **A target that found no fault takes the types of the derivations that suit it**, and no
other. -/
theorem Derivation.Labelled.takes_iff_suits {x : Derivation} {τ : ExprType} {target : Quantity}
    {classification : Classification} {derivations : List Derivation} (labelled : x.Labelled τ)
    (faultless : targetFault? target classification τ.kind derivations = none) :
    classification.Takes τ ↔ x.Suits classification := by
  rw [Derivation.Suits, labelled.kind, labelled.dimension]
  rcases targetFault?_eq_none faultless with ⟨rfl, notVector⟩ | ⟨accepted, vectors, notScalar, -⟩
  · cases τ with
    | scalar => exact ⟨fun _ => Or.inl rfl, fun _ => rfl⟩
    | vector => exact absurd rfl notVector
  · rw [Classification.takes_iff vectors]
    cases τ with
    | scalar => exact absurd rfl notScalar
    | vector d => simp [vectors, ExprType.kind, ExprType.dimension?]

/-! ## Resolution -/

namespace Resolver

variable {State : Type} {report : State → ResolutionError → Option Diagnostic × State}
  {resolver : Resolver} {target : Quantity} {definition : Definition} {state : State} {e : Expr}
  {x : Derivation} {τ : ExprType} {r : Resolution}

/-- The derivation stands on its own: it reads as the tree, which refers to no group over its
signature, has the type there, and is derived as that derivation. -/
structure Stands (resolver : Resolver) (x : Derivation) (e : Expr) (τ : ExprType) : Prop where
  read : x.read = .ok e
  closed : (OperandTable.classify resolver.classifier x.signature).Closed e
  typed : HasType (.classify resolver.classifier x.signature) (fun _ => 0) e τ
  labelled : x.Labelled τ
  eq_derivation :
    e.derivation resolver.config (.classify resolver.classifier x.signature) x.signature = x

/-- Where a definition resolves, the target takes the type of a selection exactly if the derivation
of the selection suits it. -/
theorem Succeeds.takes_iff_suits {dims : List Dimension}
    (h : resolver.Succeeds target definition e r)
    (types : (OperandTable.classify resolver.classifier definition.signature).Types e dims τ) :
    (resolver.classifier target).Takes τ ↔
      ((OperandTable.classify resolver.classifier definition.signature).derivationOf
        resolver.config e dims).Suits (resolver.classifier target) := by
  have kind : e.kind (resolver.operands definition.signature e) = τ.kind :=
    (resolver.kind_operands definition.signature e).trans (OperandTable.kind_of_types types)
  exact (OperandTable.labelled_derivationOf resolver.config types).takes_iff_suits
    (kind ▸ h.faultless)

/-- **What is derived stands on its own**, and suits the target exactly if its type does. -/
theorem Succeeds.stands (coherent : resolver.classifier.Coherent)
    (h : resolver.Succeeds target definition e r) (held : x ∈ r.derivations) :
    ∃ τ, resolver.Stands x e τ ∧
      ((resolver.classifier target).Takes τ ↔ x.Suits (resolver.classifier target)) := by
  have derived := h.mem_derivations.mp held
  have read : x.read = .ok e := read_of_mem_derivations h.read derived
  obtain ⟨dims, τ, types, rfl⟩ := exists_types_of_mem h.read derived
  have typed := types.2.of_agrees (OperandTable.agrees_signatureOf coherent types.1 fun _ => 0)
  refine ⟨τ, ⟨read, OperandTable.closed_signatureOf coherent types.1, typed, ?_, ?_⟩,
    h.takes_iff_suits types⟩
  · exact OperandTable.labelled_derivationOf resolver.config types
  · exact OperandTable.derivationOf_eq coherent resolver.config types

/-- **A success has a type that the target takes.** -/
theorem Succeeds.exists_takes (h : resolver.Succeeds target definition e r) :
    ∃ dims τ, (OperandTable.classify resolver.classifier definition.signature).Types e dims τ ∧
      (resolver.classifier target).Takes τ := by
  -- On a scalar target any derivation suits, on a vector target the one that found no fault does.
  obtain ⟨x, derived, suits⟩ : ∃ x ∈ resolver.derivations definition.signature e,
      x.Suits (resolver.classifier target) := by
    rcases targetFault?_eq_none h.faultless with
      ⟨-, notVector⟩ | ⟨accepted, vectors, -, x, derived, d, dimension, taken⟩
    · obtain ⟨x, derived⟩ := List.exists_mem_of_ne_nil _ h.nonempty
      obtain ⟨τ, labelled, kind⟩ := exists_labelled_of_mem h.read derived
      refine ⟨x, derived, Or.inl ?_⟩
      cases τ with
      | scalar => exact labelled.kind
      | vector => exact absurd kind notVector
    · exact ⟨x, derived, Or.inr ⟨accepted, d, vectors, dimension, taken⟩⟩
  obtain ⟨dims, τ, types, rfl⟩ := exists_types_of_mem h.read derived
  exact ⟨dims, τ, types, (h.takes_iff_suits types).mpr suits⟩

/-- A derivation that stands on its own resolves to itself on a target that takes its type. -/
theorem Stands.succeeds (h : resolver.Stands x e τ) (takes : (resolver.classifier target).Takes τ)
    (policy : OverloadPolicy) (permutations : Bool) :
    resolver.Succeeds target ⟨x.expression, x.signature, policy, permutations⟩ e
      (.ofDerivations ⟨x.expression, x.signature, policy, permutations⟩ [x]) := by
  have once : resolver.Succeeds target ⟨x.expression, x.signature, policy, permutations⟩ e _ :=
    succeeds_of_closed h.read h.closed h.typed takes
  rwa [h.eq_derivation] at once

/-- **A derivation that suits the target resolves to itself.** Its text reads over its signature as
a tree that refers to no group any more, and declared with any policy and resolved on the same
target, whatever failures are reported to, it gives that one derivation. -/
theorem resolveWith_self {p : Population} (coherent : p.Coherent) {config : Config}
    (success : ((Resolver.mk p.classify config).resolveWith report target definition state).1 =
      .ok r)
    (held : x ∈ r.derivations) (suits : x.Suits (p.classify target)) :
    ∃ e, x.read = .ok e ∧ (OperandTable.classify p.classify x.signature).Closed e ∧
      ∀ (policy : OverloadPolicy) (permutations : Bool) {State' : Type}
        (report' : State' → ResolutionError → Option Diagnostic × State') (state' : State'),
        ∃ r', ((Resolver.mk p.classify config).resolveWith report' target
            ⟨x.expression, x.signature, policy, permutations⟩ state').1 = .ok r' ∧
          r'.derivations = [x] := by
  obtain ⟨e, succeeds⟩ := succeeds_of_outcome (resolveWith_eq_ok_iff.mp success)
  obtain ⟨τ, stands, takes⟩ := succeeds.stands coherent.classify held
  refine ⟨e, stands.read, stands.closed, fun policy permutations {_} report' state' => ?_⟩
  have once := stands.succeeds (takes.mpr suits) policy permutations
  exact ⟨_, resolveWith_eq_ok_iff.mpr once.outcome,
    Resolution.derivations_ofDerivations_singleton _ x⟩

/-- One of two derivations, over a signature in which a slot that the tree does not refer to still
holds a group. -/
theorem resolveWith_self_quotient :
    let position : GroupEntry :=
      ⟨⟨"m", "Position"⟩, .ofList [(2, ⟨"m", "Position2"⟩), (3, ⟨"m", "Position3"⟩)]⟩
    let p : Population := .ofRoster
      { scalars := [⟨"m", "Time"⟩], vectors := [⟨⟨"m", "Velocity3"⟩, 3⟩], groups := [position] }
    let resolver : Resolver := ⟨p.classify, {}⟩
    let definition : Definition :=
      ⟨"{0} / {1}", [position.quantity, ⟨"m", "Time"⟩, position.quantity], .none, false⟩
    let x : Derivation := ⟨"{0} / {1}", "{0} / {1}",
      [⟨"m", "Position3"⟩, ⟨"m", "Time"⟩, position.quantity], .vector, some 3⟩
    p.Coherent ∧ x.Suits (p.classify ⟨"m", "Velocity3"⟩) ∧
      (∃ r, (resolver.resolveWith Sink.report ⟨"m", "Velocity3"⟩ definition .silent).1 = .ok r ∧
        r.size = 2 ∧ x ∈ r.derivations) ∧
      ∃ e, x.read = .ok e ∧ (OperandTable.classify p.classify x.signature).Closed e ∧
        ∀ (policy : OverloadPolicy) (permutations : Bool) {State : Type}
          (report : State → ResolutionError → Option Diagnostic × State) (state : State),
          ∃ r', (resolver.resolveWith report ⟨"m", "Velocity3"⟩
              ⟨x.expression, x.signature, policy, permutations⟩ state).1 = .ok r' ∧
            r'.derivations = [x] := by
  intro position p resolver definition x
  let e : Expr := .binary .div (.slot 0) (.slot 1)
  have read : Expr.parse definition.expression.toList definition.signature.length = .ok e :=
    Expr.parse_of_eq_displayOuter (by decide) (by decide)
  have succeeds : resolver.Succeeds ⟨"m", "Velocity3"⟩ definition e _ :=
    ⟨read, by decide, by decide, by decide, rfl⟩
  have resolved : (resolver.resolveWith Sink.report ⟨"m", "Velocity3"⟩ definition .silent).1 =
      .ok _ := resolveWith_eq_ok_iff.mpr succeeds.outcome
  have coherent : p.Coherent := by decide
  have suits : x.Suits (p.classify ⟨"m", "Velocity3"⟩) := .inr ⟨.single 3, 3, by decide⟩
  have held : x ∈ (Resolution.ofDerivations definition
      (resolver.derivations definition.signature e)).derivations := by decide
  exact ⟨coherent, suits, ⟨_, resolved, by decide, held⟩,
    resolveWith_self coherent resolved held suits⟩

end Resolver

end QuantityAlgebra
