import QuantityAlgebra.Proofs.Resolution.Listing

/-!
# Why a resolution fails

Whether a definition resolves, and the cause if not, is a matter of what it means. `verdict` and
`targetVerdict` say it without the pipeline, by typing alone, as a chain of conditions in which the
first that holds counts. The resolver looks for faults in three places: at the kind before anything
is expanded, at the derivations once they are made, and at the target at the end. They agree because
the kind of a tree is that of each type it has, so an invalid kind excludes any type, and the kind
of the tree before expansion is the kind of every derivation.

Results:
* `kept_eq_nil_iff`: nothing is derived exactly if the tree has no type.
* **`kind_eq_iff_exists_types`**: the kind known before expansion, in terms of types.
* **`targetFault?_eq`**: the check of the target, in terms of types.
* **`resolveWith_verdict`**: a resolution fails for the cause the verdict gives, or succeeds with a
  derivation if it gives none, whatever is reported to.
-/

namespace QuantityAlgebra

/-- Whether a target so classified takes a result of the type. -/
def Classification.Takes : Classification → ExprType → Prop
  | .scalar, τ => τ = .scalar
  | .fixedVector d, τ | .groupMember d, τ => τ = .vector d
  | .group members, τ => ∃ d ∈ members.keys, τ = .vector d

open Classical in
/-- What a target so classified expects that the types of a tree do not give. -/
noncomputable def OperandTable.targetVerdict (t : OperandTable) (e : Expr) (target : Quantity)
    (classification : Classification) : Option Cause :=
  if classification = .scalar ∧ ∃ dims d, t.Types e dims (.vector d) then some .unexpectedVector
  else if classification ≠ .scalar ∧ ∃ dims, t.Types e dims .scalar then some .unexpectedScalar
  else if ¬∃ dims τ, t.Keeps e dims τ ∧ classification.Takes τ then
    some (.unexpectedDimension target)
  else none

open Classical in
/-- What is wrong with a definition on a target, by what the definition means. -/
noncomputable def Resolver.verdict (resolver : Resolver) (target : Quantity)
    (definition : Definition) : Option Cause :=
  match Expr.parse definition.expression.toList definition.signature.length with
  | .error source => some (.malformed source)
  | .ok e =>
    let t := OperandTable.classify resolver.classifier definition.signature
    if ∃ dims τ, t.Types e dims τ then t.targetVerdict e target (resolver.classifier target)
    else some .incompatible

namespace OperandTable

variable {t : OperandTable} {e : Expr} {dims : List Dimension} {τ σ : ExprType}

/-- **The kind known before expansion is that of every type.** -/
theorem kind_of_types (types : t.Types e dims τ) : e.kind t = τ.kind :=
  kind_eq_of_hasType types.2

/-- Nothing is kept exactly if the tree has no type. -/
theorem kept_eq_nil_iff (covers : t.Covers e) :
    t.kept e = [] ↔ ¬∃ dims τ, t.Types e dims τ := by
  rw [kept, List.map_eq_nil_iff, distinctBy_eq_nil_iff, List.eq_nil_iff_forall_not_mem, not_exists]
  exact forall_congr' fun dims => not_congr (mem_accepted_iff_types covers)

/-- Of a tree that has a type some selection counts. -/
theorem exists_keeps (ascending : t.Ascending) (covers : t.Covers e)
    (typed : ∃ dims τ, t.Types e dims τ) : ∃ dims τ, t.Keeps e dims τ := by
  have nonempty : t.kept e ≠ [] := fun none => (kept_eq_nil_iff covers).mp none typed
  obtain ⟨⟨dims, τ⟩, held⟩ := List.exists_mem_of_ne_nil _ nonempty
  exact ⟨dims, τ, (mem_kept ascending covers).mp held⟩

/-- **The kind of a tree that has a type is known before expansion**: it is the kind of some type
exactly if it is the kind of the tree. -/
theorem kind_eq_iff_exists_types (typed : ∃ dims τ, t.Types e dims τ) (kind : Kind) :
    e.kind t = kind ↔ ∃ dims τ, t.Types e dims τ ∧ τ.kind = kind := by
  constructor
  · rintro rfl
    obtain ⟨dims, τ, types⟩ := typed
    exact ⟨dims, τ, types, (kind_of_types types).symm⟩
  · rintro ⟨dims, τ, types, rfl⟩
    exact kind_of_types types

theorem kind_eq_vector_iff (typed : ∃ dims τ, t.Types e dims τ) :
    e.kind t = .vector ↔ ∃ dims d, t.Types e dims (.vector d) := by
  rw [kind_eq_iff_exists_types typed]
  refine exists_congr fun dims => ⟨?_, fun ⟨d, types⟩ => ⟨.vector d, types, rfl⟩⟩
  rintro ⟨τ, types, isVector⟩
  cases τ with
  | scalar => contradiction
  | vector d => exact ⟨d, types⟩

theorem kind_eq_scalar_iff (typed : ∃ dims τ, t.Types e dims τ) :
    e.kind t = .scalar ↔ ∃ dims, t.Types e dims .scalar := by
  rw [kind_eq_iff_exists_types typed]
  refine exists_congr fun dims => ⟨?_, fun types => ⟨.scalar, types, rfl⟩⟩
  rintro ⟨τ, types, isScalar⟩
  cases τ with
  | scalar => exact types
  | vector => contradiction

theorem kind_ne_invalid_of_types (types : t.Types e dims τ) : e.kind t ≠ .invalid :=
  fun invalid => τ.kind_ne_invalid ((kind_of_types types).symm.trans invalid)

end OperandTable

/-! ## The check of the target -/

/-- A target that takes vectors takes those of the dimensions it accepts, and no scalars. -/
theorem Classification.takes_iff {classification : Classification} {accepted : DimensionSet}
    (vectors : classification.vectorDimensions? = some accepted) (τ : ExprType) :
    classification.Takes τ ↔ ∃ d ∈ accepted, τ = .vector d := by
  cases classification with
  | scalar => contradiction
  | fixedVector | groupMember | group =>
    obtain rfl := Option.some.inj vectors
    simp [Takes]

theorem Classification.vectorDimensions?_eq_none_iff {classification : Classification} :
    classification.vectorDimensions? = none ↔ classification = .scalar := by
  cases classification <;> simp [vectorDimensions?]

/-- Some derivation has an accepted dimension exactly if the target takes the type of a selection
that counts. -/
theorem any_accepted_iff {t : OperandTable} {e : Expr} (config : Config) (ascending : t.Ascending)
    (covers : t.Covers e) {classification : Classification} {accepted : DimensionSet}
    (vectors : classification.vectorDimensions? = some accepted) :
    (((t.kept e).map fun c => t.derivationOf config e c.1).any fun x =>
        x.dimension.any fun d => d ∈ accepted) = true ↔
      ∃ dims τ, t.Keeps e dims τ ∧ classification.Takes τ := by
  simp only [List.any_map, List.any_eq_true, Function.comp_apply, Prod.exists]
  refine exists₂_congr fun dims τ => ?_
  rw [OperandTable.mem_kept ascending covers]
  refine and_congr_right fun keeps => ?_
  have described : Describes t e (t.derivationOf config e dims) (dims, τ) :=
    OperandTable.describes_derivationOf keeps.1
  rw [described.dimension, Classification.takes_iff vectors]
  cases τ <;> simp [ExprType.dimension?]

/-- **The check of the target goes by typing alone.** -/
theorem targetFault?_eq {t : OperandTable} {e : Expr} (config : Config) (ascending : t.Ascending)
    (covers : t.Covers e) (typed : ∃ dims τ, t.Types e dims τ) (target : Quantity)
    (classification : Classification) :
    targetFault? target classification (e.kind t)
        ((t.kept e).map fun c => t.derivationOf config e c.1) =
      t.targetVerdict e target classification := by
  rw [OperandTable.targetVerdict, ← OperandTable.kind_eq_vector_iff typed,
    ← OperandTable.kind_eq_scalar_iff typed]
  unfold targetFault?
  cases vectors : classification.vectorDimensions? with
  | none =>
    obtain rfl := Classification.vectorDimensions?_eq_none_iff.mp vectors
    by_cases isVector : e.kind t = .vector
    · simp [isVector]
    · obtain ⟨dims, τ, keeps⟩ := OperandTable.exists_keeps ascending covers typed
      have isScalar : τ = .scalar := by
        cases τ with
        | scalar => rfl
        | vector => exact absurd (OperandTable.kind_of_types keeps.1) isVector
      have taken : ∃ dims τ, t.Keeps e dims τ ∧ Classification.scalar.Takes τ :=
        ⟨dims, τ, keeps, isScalar⟩
      simp [isVector, taken]
  | some accepted =>
    have notScalar : classification ≠ .scalar := by
      rintro rfl
      contradiction
    have accepts := any_accepted_iff config ascending covers vectors
    simp only [notScalar, false_and, if_false, ne_eq, not_false_eq_true, true_and]
    by_cases isScalar : e.kind t = .scalar
    · rw [if_pos isScalar, if_pos isScalar]
    · rw [if_neg isScalar, if_neg isScalar]
      by_cases taken : ∃ dims τ, t.Keeps e dims τ ∧ classification.Takes τ
      · rw [if_pos (accepts.mpr taken), if_neg (not_not.mpr taken)]
      · rw [if_neg (mt accepts.mp taken), if_pos taken]

namespace Resolver

variable {State : Type} {resolver : Resolver} {target : Quantity} {definition : Definition}
  {e : Expr}

/-- A tree without a type is incompatible, whether its kind shows it or every branch is rejected. -/
theorem outcome_of_untyped
    (read : Expr.parse definition.expression.toList definition.signature.length = .ok e)
    (untyped : ¬∃ dims τ,
      (OperandTable.classify resolver.classifier definition.signature).Types e dims τ) :
    resolver.outcome target definition = .error .incompatible := by
  have covers := covers_classify resolver.classifier read
  have nothing := (OperandTable.kept_eq_nil_iff covers).mpr untyped
  rw [outcome_of_parse read, nothing, List.map_nil, if_pos rfl, ite_self]

/-- A tree with a type has derivations, and passes the two checks before that of the target. -/
theorem outcome_of_typed (target : Quantity)
    (read : Expr.parse definition.expression.toList definition.signature.length = .ok e)
    (typed : ∃ dims τ,
      (OperandTable.classify resolver.classifier definition.signature).Types e dims τ) :
    let t := OperandTable.classify resolver.classifier definition.signature
    let derivations := (t.kept e).map fun c => t.derivationOf resolver.config e c.1
    derivations ≠ [] ∧
      resolver.outcome target definition =
        match targetFault? target (resolver.classifier target) (e.kind t) derivations with
        | some cause => .error cause
        | none => .ok (.ofDerivations definition derivations) := by
  have covers := covers_classify resolver.classifier read
  have something := mt (OperandTable.kept_eq_nil_iff covers).mp (not_not.mpr typed)
  obtain ⟨dims, τ, types⟩ := typed
  intro t derivations
  have valid : e.kind t ≠ .invalid := OperandTable.kind_ne_invalid_of_types types
  have nonempty : derivations ≠ [] := mt List.map_eq_nil_iff.mp something
  exact ⟨nonempty, (outcome_of_parse read).trans ((if_neg valid).trans (if_neg nonempty))⟩

/-- The outcome is what the verdict says. -/
theorem outcome_verdict (resolver : Resolver) (target : Quantity) (definition : Definition) :
    match resolver.verdict target definition with
    | some cause => resolver.outcome target definition = .error cause
    | none => ∃ r, resolver.outcome target definition = .ok r ∧ r.derivations ≠ [] := by
  unfold verdict
  cases read : Expr.parse definition.expression.toList definition.signature.length with
  | error source =>
    show resolver.outcome target definition = .error (.malformed source)
    rw [outcome, read]
  | ok e =>
    have ascending := OperandTable.ascending_classify resolver.classifier definition.signature
    have covers := covers_classify resolver.classifier read
    by_cases typed : ∃ dims τ,
        (OperandTable.classify resolver.classifier definition.signature).Types e dims τ
    · obtain ⟨nonempty, out⟩ := outcome_of_typed target read typed
      simp only [if_pos typed]
      rw [← targetFault?_eq resolver.config ascending covers typed, out]
      cases targetFault? target (resolver.classifier target) _ _ with
      | some cause => rfl
      | none =>
        exact ⟨_, rfl, Resolution.derivations_ofDerivations_ne_nil nonempty definition⟩
    · simp only [if_neg typed]
      exact outcome_of_untyped read typed

/-- **A resolution fails for the cause that the verdict gives**, and if it gives none succeeds with
at least one derivation; to what failures are reported makes no difference. -/
theorem resolveWith_verdict (resolver : Resolver)
    (report : State → ResolutionError → Option Diagnostic × State) (target : Quantity)
    (definition : Definition) (state : State) :
    match resolver.verdict target definition with
    | some cause => ∃ diagnostic,
        (resolver.resolveWith report target definition state).1 =
          .error ⟨⟨definition.expression, cause⟩, diagnostic⟩
    | none => ∃ r,
        (resolver.resolveWith report target definition state).1 = .ok r ∧ r.derivations ≠ [] := by
  have decided := resolver.outcome_verdict target definition
  cases verdict : resolver.verdict target definition with
  | some cause =>
    rw [verdict] at decided
    exact resolveWith_of_error report state decided
  | none =>
    rw [verdict] at decided
    obtain ⟨r, success, nonempty⟩ := decided
    exact ⟨r, resolveWith_eq_ok_iff.mpr success, nonempty⟩

end Resolver

end QuantityAlgebra
