import QuantityAlgebra.Proofs.Resolution.Verdict

/-!
# What can be relied on in a resolution

`Resolution.WellFormed` gathers what holds of every resolution that succeeds: all derivations are of
the one kind that was known before expansion, each is listed where its kind and dimension say, what
is listed fits the target, and no concrete signature occurs twice.

A derivation that is neither a scalar nor a vector of one dimension would be listed among the
scalars. There is none, for each derivation is labelled with a type of the tree, and a type is one
of the two.

Results:
* `targetFault?_eq_none`: what a target has to find no fault with.
* **`exists_labelled_of_mem`**: each derivation of a tree is labelled with a type of the tree.
* **`resolveWith_wellFormed`**: every resolution that succeeds is well formed.
-/

namespace QuantityAlgebra

/-- What holds of the resolution of an expression of the kind over so many slots, on a target so
classified. -/
structure Resolution.WellFormed (r : Resolution) (classification : Classification) (kind : Kind)
    (slots : Nat) : Prop where
  nonempty : r.derivations ≠ []
  kind_ne_invalid : kind ≠ .invalid
  /-- All derivations are of one kind, that of the expression. -/
  kind_eq : ∀ x ∈ r.derivations, x.kind = kind
  scalar : ∀ x ∈ r.scalar, x.kind = .scalar ∧ x.dimension = none
  /-- What is listed for a dimension is something, and vectors of that dimension alone. -/
  vector : ∀ d bucket, r.vector.get? d = some bucket →
    bucket ≠ [] ∧ ∀ x ∈ bucket, x.kind = .vector ∧ x.dimension = some d
  scalarTarget : classification = .scalar → r.vector = ∅
  vectorTarget : ∀ accepted, classification.vectorDimensions? = some accepted →
    r.scalar = [] ∧ ∃ d ∈ r.vector.keys, d ∈ accepted
  length_signature : ∀ x ∈ r.derivations, x.signature.length = slots
  nodup_signature : (r.derivations.map Derivation.signature).Nodup

/-! ## Where derivations are listed -/

/-- The derivation has the kind and the dimension of the type. -/
structure Derivation.Labelled (x : Derivation) (τ : ExprType) : Prop where
  kind : x.kind = τ.kind
  dimension : x.dimension = τ.dimension?

namespace Derivation

variable {x : Derivation} {τ : ExprType} {d : Dimension}

theorem Labelled.bucket? (h : x.Labelled τ) : x.bucket? = τ.dimension? := by
  rw [Derivation.bucket?, h.kind, h.dimension]
  cases τ <;> rfl

theorem bucket?_eq_some : x.bucket? = some d ↔ x.kind = .vector ∧ x.dimension = some d := by
  obtain ⟨_, _, _, kind, dimension⟩ := x
  cases kind <;> cases dimension <;> simp [Derivation.bucket?]

end Derivation

namespace Resolution

variable {definition : Definition} {derivations : List Derivation} {d : Dimension}

/-- What is listed for a dimension is what belongs there, and is something. -/
theorem get?_ofDerivations {bucket : List Derivation}
    (bound : (ofDerivations definition derivations).vector.get? d = some bucket) :
    bucket ≠ [] ∧ ∀ x ∈ bucket, x ∈ derivations ∧ x.bucket? = some d := by
  have listed := bucket_ofDerivations definition derivations d
  rw [Resolution.bucket, bound, Option.getD_some] at listed
  refine ⟨?_, fun x held => ?_⟩
  · rintro rfl
    exact noEmptyBucket_ofDerivations definition derivations d bound
  · rw [listed, List.mem_filter] at held
    exact ⟨held.1, of_decide_eq_true held.2⟩

/-- A dimension is a key if some derivation belongs there. -/
theorem mem_keys_ofDerivations {x : Derivation} (held : x ∈ derivations)
    (place : x.bucket? = some d) : d ∈ (ofDerivations definition derivations).vector.keys := by
  have listed := bucket_ofDerivations definition derivations d
  have found : x ∈ (ofDerivations definition derivations).bucket d :=
    listed ▸ List.mem_filter.mpr ⟨held, decide_eq_true place⟩
  rw [Resolution.bucket] at found
  cases bound : (ofDerivations definition derivations).vector.get? d with
  | none => simp [bound] at found
  | some bucket => exact DimensionMap.mem_keys_of_get? bound

/-- Scalars alone leave the map of the vectors empty. -/
theorem vector_ofDerivations_eq_empty (scalars : ∀ x ∈ derivations, x.bucket? = none) :
    (ofDerivations definition derivations).vector = ∅ := by
  refine DimensionMap.eq_empty fun d => ?_
  cases bound : (ofDerivations definition derivations).vector.get? d with
  | none => rfl
  | some bucket =>
    obtain ⟨nonempty, belongs⟩ := get?_ofDerivations bound
    obtain ⟨x, held⟩ := List.exists_mem_of_ne_nil bucket nonempty
    obtain ⟨derived, place⟩ := belongs x held
    exact absurd (scalars x derived) (by simp [place])

end Resolution

/-! ## What the target takes -/

/-- A target that finds no fault is a scalar one and the expression no vector, or it takes vectors,
the expression is no scalar, and some derivation has an accepted dimension. -/
theorem targetFault?_eq_none {target : Quantity} {classification : Classification} {kind : Kind}
    {derivations : List Derivation}
    (faultless : targetFault? target classification kind derivations = none) :
    (classification = .scalar ∧ kind ≠ .vector) ∨
      ∃ accepted, classification.vectorDimensions? = some accepted ∧ kind ≠ .scalar ∧
        ∃ x ∈ derivations, ∃ d, x.dimension = some d ∧ d ∈ accepted := by
  unfold targetFault? at faultless
  cases vectors : classification.vectorDimensions? with
  | none =>
    refine Or.inl ⟨Classification.vectorDimensions?_eq_none_iff.mp vectors, fun isVector => ?_⟩
    simp [vectors, isVector] at faultless
  | some accepted =>
    simp only [vectors] at faultless
    split at faultless
    · contradiction
    · rename_i notScalar
      split at faultless
      · rename_i taken
        simp only [List.any_eq_true, Option.any_eq_true, decide_eq_true_eq] at taken
        exact Or.inr ⟨accepted, rfl, notScalar, taken⟩
      · contradiction

/-! ## Derivations of a tree -/

namespace OperandTable

variable {t : OperandTable} {choice : Choice} {e : Expr} {dims : List Dimension} {τ : ExprType}

/-- Over a settled table a derivation is labelled with the type of its tree. -/
theorem labelled_derivation (config : Config) (signature : Signature)
    (settled : t.Settled choice e) (typed : HasType t choice e τ) :
    (e.derivation config t signature).Labelled τ :=
  ⟨derivation_kind config signature typed, derivation_dimension config signature settled typed⟩

theorem labelled_derivationOf (config : Config) (types : t.Types e dims τ) :
    (t.derivationOf config e dims).Labelled τ := by
  have typed := (narrows_fixAll (t.referencedGroupSlots e) dims t).hasType_iff.mpr types.2
  exact labelled_derivation config (t.signatureOf e dims) (settled_fixAll types.1) typed

end OperandTable

namespace Resolver

variable {State : Type} {report : State → ResolutionError → Option Diagnostic × State}
  {resolver : Resolver} {target : Quantity} {definition : Definition} {state : State}
  {signature : Signature} {text : List Char} {e : Expr} {x : Derivation} {r : Resolution}

/-- A derivation of a tree is that of a selection that counts. -/
theorem exists_keeps_of_mem (read : Expr.parse text signature.length = .ok e)
    (derived : x ∈ resolver.derivations signature e) :
    let t := OperandTable.classify resolver.classifier signature
    ∃ dims τ, t.Keeps e dims τ ∧ x = t.derivationOf resolver.config e dims := by
  rw [derivations_eq] at derived
  obtain ⟨⟨dims, τ⟩, kept, rfl⟩ := List.mem_map.mp derived
  have keeps := (OperandTable.mem_kept (OperandTable.ascending_classify _ _)
    (covers_classify resolver.classifier read)).mp kept
  exact ⟨dims, τ, keeps, rfl⟩

/-- Under that selection the tree has a type. -/
theorem exists_types_of_mem (read : Expr.parse text signature.length = .ok e)
    (derived : x ∈ resolver.derivations signature e) :
    let t := OperandTable.classify resolver.classifier signature
    ∃ dims τ, t.Types e dims τ ∧ x = t.derivationOf resolver.config e dims := by
  obtain ⟨dims, τ, keeps, same⟩ := exists_keeps_of_mem read derived
  exact ⟨dims, τ, keeps.1, same⟩

theorem kind_operands (resolver : Resolver) (signature : Signature) (e : Expr) :
    e.kind (resolver.operands signature e) =
      e.kind (OperandTable.classify resolver.classifier signature) :=
  (OperandTable.narrows_narrow e _).kind e

/-- **A derivation is labelled with a type of the tree**, whose kind is known before expansion. -/
theorem exists_labelled_of_mem (read : Expr.parse text signature.length = .ok e)
    (derived : x ∈ resolver.derivations signature e) :
    ∃ τ, x.Labelled τ ∧ e.kind (resolver.operands signature e) = τ.kind := by
  -- The kind was inferred over the narrowed table, the type is one over the declared table.
  -- Narrowing keeps kinds, so it does not matter which.
  obtain ⟨dims, τ, types, rfl⟩ := exists_types_of_mem read derived
  exact ⟨τ, OperandTable.labelled_derivationOf resolver.config types,
    (resolver.kind_operands signature e).trans (OperandTable.kind_of_types types)⟩

theorem length_signature_of_mem (derived : x ∈ resolver.derivations signature e) :
    x.signature.length = signature.length := by
  rw [derivations_eq] at derived
  obtain ⟨c, -, rfl⟩ := List.mem_map.mp derived
  simp [OperandTable.derivationOf, Expr.derivation, OperandTable.signatureOf,
    OperandTable.signatureAt, OperandTable.classify]

/-- No two derivations of a tree share their signature. -/
theorem nodup_signature_derivations (resolver : Resolver) (signature : Signature) (e : Expr) :
    ((resolver.derivations signature e).map Derivation.signature).Nodup := by
  rw [derivations_eq, OperandTable.kept, List.map_map, List.map_map]
  exact nodup_distinctBy _ _

/-! ## Success -/

/-- Of an expression that is no vector every derivation belongs to the scalars. -/
theorem bucket?_of_kind_ne_vector (read : Expr.parse text signature.length = .ok e)
    (notVector : e.kind (resolver.operands signature e) ≠ .vector)
    (derived : x ∈ resolver.derivations signature e) : x.bucket? = none := by
  obtain ⟨τ, labelled, kind⟩ := exists_labelled_of_mem read derived
  rw [labelled.bucket?]
  cases τ with
  | scalar => rfl
  | vector d => exact absurd kind notVector

/-- Of an expression that is no scalar every derivation belongs to its dimension. -/
theorem bucket?_of_kind_ne_scalar (read : Expr.parse text signature.length = .ok e)
    (notScalar : e.kind (resolver.operands signature e) ≠ .scalar)
    (derived : x ∈ resolver.derivations signature e) :
    ∃ d, x.bucket? = some d ∧ x.dimension = some d := by
  obtain ⟨τ, labelled, kind⟩ := exists_labelled_of_mem read derived
  rw [labelled.bucket?, labelled.dimension]
  cases τ with
  | scalar => exact absurd kind notScalar
  | vector d => exact ⟨d, rfl, rfl⟩

/-- Every entry of the scalars is one. -/
theorem kind_of_mem_scalar (read : Expr.parse text signature.length = .ok e)
    (listed : x ∈ (Resolution.ofDerivations definition (resolver.derivations signature e)).scalar) :
    x.kind = .scalar ∧ x.dimension = none := by
  rw [Resolution.scalar_ofDerivations, List.mem_filter, decide_eq_true_eq] at listed
  obtain ⟨derived, place⟩ := listed
  obtain ⟨τ, labelled, -⟩ := exists_labelled_of_mem read derived
  cases τ with
  | scalar => exact ⟨labelled.kind, labelled.dimension⟩
  | vector d => exact absurd (labelled.bucket?.symm.trans place) (by simp [ExprType.dimension?])

/-- **What comes out of every stage is well formed.** -/
theorem Succeeds.wellFormed (h : resolver.Succeeds target definition e r) :
    r.WellFormed (resolver.classifier target)
      (e.kind (resolver.operands definition.signature e)) definition.signature.length := by
  -- What is said of all entries alike is proved of the derivations before they were parted.
  have parted := Resolution.perm_ofDerivations definition
    (resolver.derivations definition.signature e)
  obtain rfl := h.eq_ofDerivations
  refine ⟨?nonempty, h.kind_ne_invalid, ?kind, fun x => kind_of_mem_scalar h.read, ?vector,
    ?scalarTarget, ?vectorTarget, ?length, ?nodup⟩
  case nonempty => exact Resolution.derivations_ofDerivations_ne_nil h.nonempty definition
  case kind =>
    intro x held
    obtain ⟨τ, labelled, kind⟩ := exists_labelled_of_mem h.read (parted.mem_iff.mp held)
    rw [labelled.kind, kind]
  case vector =>
    intro d bucket bound
    obtain ⟨nonempty, belongs⟩ := Resolution.get?_ofDerivations bound
    exact ⟨nonempty, fun x held => Derivation.bucket?_eq_some.mp (belongs x held).2⟩
  case scalarTarget =>
    intro isScalar
    refine Resolution.vector_ofDerivations_eq_empty fun x derived => ?_
    rcases targetFault?_eq_none h.faultless with ⟨-, notVector⟩ | ⟨accepted, vectors, -⟩
    · exact bucket?_of_kind_ne_vector h.read notVector derived
    · rw [isScalar] at vectors
      contradiction
  case vectorTarget =>
    intro accepted vectors
    rcases targetFault?_eq_none h.faultless with
      ⟨isScalar, -⟩ | ⟨accepted', same, notScalar, x, derived, d, dimension, taken⟩
    · rw [isScalar] at vectors
      contradiction
    · obtain rfl : accepted = accepted' := Option.some.inj (vectors.symm.trans same)
      -- The expression is no scalar, so no derivation takes the catch-all into the scalars.
      have placed := fun y => bucket?_of_kind_ne_scalar (x := y) h.read notScalar
      refine ⟨?_, d, ?_, taken⟩
      · rw [Resolution.scalar_ofDerivations, List.filter_eq_nil_iff]
        intro y derived
        obtain ⟨d, place, -⟩ := placed y derived
        simp [place]
      · obtain ⟨d', place, dimension'⟩ := placed x derived
        obtain rfl : d = d' := Option.some.inj (dimension.symm.trans dimension')
        exact Resolution.mem_keys_ofDerivations derived place
  case length => exact fun x held => length_signature_of_mem (parted.mem_iff.mp held)
  case nodup =>
    exact (parted.map Derivation.signature).nodup_iff.mpr
      (resolver.nodup_signature_derivations definition.signature e)

/-- **Every resolution that succeeds is well formed**: of the kind known before expansion, listed
by kind and dimension, fit for the target, and without a repeated signature. -/
theorem resolveWith_wellFormed
    (h : (resolver.resolveWith report target definition state).1 = .ok r) :
    ∃ e, Expr.parse definition.expression.toList definition.signature.length = .ok e ∧
      r.WellFormed (resolver.classifier target)
        (e.kind (resolver.operands definition.signature e)) definition.signature.length := by
  obtain ⟨e, succeeds⟩ := succeeds_of_outcome (resolveWith_eq_ok_iff.mp h)
  exact ⟨e, succeeds.read, succeeds.wellFormed⟩

/-- A group target, which takes two of the three dimensions that come out. -/
theorem resolveWith_wellFormed_group :
    let classifier : Classifier := fun q =>
      if q.name = "Position" then
        .group (.ofList [(2, ⟨"m", "Position2"⟩), (3, ⟨"m", "Position3"⟩), (4, ⟨"m", "Position4"⟩)])
      else if q.name = "Velocity" then
        .group (.ofList [(2, ⟨"m", "Velocity2"⟩), (3, ⟨"m", "Velocity3"⟩)])
      else .scalar
    let resolver : Resolver := ⟨classifier, {}⟩
    let definition : Definition := ⟨"{0} / {1}", [⟨"m", "Position"⟩, ⟨"m", "Time"⟩], .none, false⟩
    ∃ r, (resolver.resolveWith Sink.report ⟨"m", "Velocity"⟩ definition .silent).1 = .ok r ∧
      r.size = 3 ∧
      ∃ e, Expr.parse definition.expression.toList definition.signature.length = .ok e ∧
        r.WellFormed (classifier ⟨"m", "Velocity"⟩)
          (e.kind (resolver.operands definition.signature e)) definition.signature.length := by
  intro classifier resolver definition
  let e : Expr := .binary .div (.slot 0) (.slot 1)
  have read : Expr.parse definition.expression.toList definition.signature.length = .ok e :=
    Expr.parse_of_eq_displayOuter (by decide) (by decide)
  have succeeds : resolver.Succeeds ⟨"m", "Velocity"⟩ definition e _ :=
    ⟨read, by decide, by decide, by decide, rfl⟩
  have resolved : (resolver.resolveWith Sink.report ⟨"m", "Velocity"⟩ definition .silent).1 =
      .ok _ := resolveWith_eq_ok_iff.mpr succeeds.outcome
  exact ⟨_, resolved, by decide, resolveWith_wellFormed resolved⟩

end Resolver

end QuantityAlgebra
