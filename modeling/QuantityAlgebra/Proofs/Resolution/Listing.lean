import QuantityAlgebra.Proofs.Resolution.Meaning

/-!
# What a resolution lists

A resolution lists exactly the selections that count, in lexicographic order, the scalars together
and the vectors by their dimension. Each derivation has the signature of its selection and the kind
and the dimension of the type the tree has under it (`Resolution.Lists`).

Results:
* `foldl_push`, **`perm_ofDerivations`**: what partitioning puts where, and that it only reorders.
* **`lists_ofDerivations`**: partitioning the derivations of the kept selections lists them.
* `Lists.eq_kept`: there is but one list of them.
* **`resolveWith_lists`**: a resolution that succeeds lists the selections that count.
-/

namespace QuantityAlgebra

/-! ## Partitioning derivations -/

/-- The dimension under which a derivation is listed, nothing for one listed among the scalars. -/
def Derivation.bucket? (d : Derivation) : Option Dimension :=
  match d.kind, d.dimension with
  | .vector, some dimension => some dimension
  | _, _ => none

namespace Resolution

/-- The derivations listed for a dimension. -/
def bucket (r : Resolution) (d : Dimension) : List Derivation := (r.vector.get? d).getD []

theorem push_eq (r : Resolution) (x : Derivation) :
    r.push x =
      match x.bucket? with
      | some d => { r with vector := r.vector.upsert d fun bucket => bucket.getD [] ++ [x] }
      | none => { r with scalar := r.scalar ++ [x] } := by
  obtain ⟨_, _, _, kind, dimension⟩ := x
  cases kind <;> cases dimension <;> rfl

/-- **Derivations are listed in their order**, those of each dimension on their own. -/
theorem foldl_push (r : Resolution) (derivations : List Derivation) :
    (derivations.foldl push r).definition = r.definition ∧
      (derivations.foldl push r).scalar =
        r.scalar ++ derivations.filter (fun x => x.bucket? = none) ∧
      ∀ d, (derivations.foldl push r).bucket d =
        r.bucket d ++ derivations.filter (fun x => x.bucket? = some d) := by
  induction derivations generalizing r with
  | nil => simp
  | cons x rest ih =>
    obtain ⟨definition, scalar, buckets⟩ := ih (r.push x)
    rw [List.foldl_cons, definition, scalar]
    rw [push_eq] at buckets ⊢
    cases place : x.bucket? with
    | none =>
      simp only [place] at buckets ⊢
      refine ⟨trivial, by simp [place], fun d => ?_⟩
      rw [buckets d, List.filter_cons_of_neg (by simp [place])]
      rfl
    | some dimension =>
      simp only [place] at buckets ⊢
      refine ⟨trivial, by simp [place], fun d => ?_⟩
      rw [buckets d, bucket, DimensionMap.get?_upsert]
      by_cases same : d = dimension
      · simp [same, place, bucket]
      · simp [same, place, bucket, Ne.symm same]

theorem perm_push (r : Resolution) (x : Derivation) :
    (r.push x).derivations.Perm (x :: r.derivations) := by
  rw [push_eq]
  cases x.bucket? with
  | none =>
    show ((r.scalar ++ [x]) ++ r.vector.values.flatten).Perm _
    rw [List.append_assoc]
    exact List.perm_middle
  | some d =>
    have placed := DimensionMap.perm_flatten_upsertEntry d x r.vector.entries
    exact (placed.append_left r.scalar).trans List.perm_middle

theorem perm_foldl_push (r : Resolution) (derivations : List Derivation) :
    (derivations.foldl push r).derivations.Perm (derivations ++ r.derivations) := by
  induction derivations generalizing r with
  | nil => exact List.Perm.refl _
  | cons x rest ih =>
    exact (ih (r.push x)).trans ((perm_push r x).append_left rest |>.trans List.perm_middle)

/-- **No derivation is lost, and none is made up**: partitioning only reorders them. -/
theorem perm_ofDerivations (definition : Definition) (derivations : List Derivation) :
    (ofDerivations definition derivations).derivations.Perm derivations := by
  have parted := perm_foldl_push (empty definition) derivations
  rwa [show (empty definition).derivations = [] from rfl, List.append_nil] at parted

theorem derivations_ofDerivations_ne_nil {derivations : List Derivation} (h : derivations ≠ [])
    (definition : Definition) : (ofDerivations definition derivations).derivations ≠ [] := by
  intro none
  exact h (List.nil_perm.mp (none ▸ perm_ofDerivations definition derivations))

/-- No dimension is bound to an empty list. -/
def NoEmptyBucket (r : Resolution) : Prop := ∀ d, r.vector.get? d ≠ some []

theorem noEmptyBucket_foldl_push {r : Resolution} (h : r.NoEmptyBucket)
    (derivations : List Derivation) : (derivations.foldl push r).NoEmptyBucket := by
  induction derivations generalizing r with
  | nil => exact h
  | cons x rest ih =>
    refine ih fun d => ?_
    rw [push_eq]
    split
    · rw [DimensionMap.get?_upsert]
      split
      · simp
      · exact h d
    · exact h d

theorem scalar_ofDerivations (definition : Definition) (derivations : List Derivation) :
    (ofDerivations definition derivations).scalar =
      derivations.filter fun x => x.bucket? = none :=
  (foldl_push (empty definition) derivations).2.1

theorem bucket_ofDerivations (definition : Definition) (derivations : List Derivation)
    (d : Dimension) : (ofDerivations definition derivations).bucket d =
      derivations.filter fun x => x.bucket? = some d :=
  (foldl_push (empty definition) derivations).2.2 d

theorem noEmptyBucket_ofDerivations (definition : Definition) (derivations : List Derivation) :
    (ofDerivations definition derivations).NoEmptyBucket := by
  have start : (empty definition).NoEmptyBucket := fun d (h : none = some []) => nomatch h
  exact noEmptyBucket_foldl_push start derivations

end Resolution

/-! ## What a resolution lists -/

/-- The derivation is that of the selection and the type: its signature, its kind and dimension, and
the text of the tree. -/
structure Describes (t : OperandTable) (e : Expr) (x : Derivation)
    (c : List Dimension × ExprType) : Prop where
  signature : x.signature = t.signatureOf e c.1
  kind : x.kind = c.2.kind
  dimension : x.dimension = c.2.dimension?
  expression : x.expression = String.ofList e.displayOuter

/-- The resolution lists the selections that count, in lexicographic order. -/
structure Resolution.Lists (r : Resolution) (t : OperandTable) (e : Expr)
    (kept : List (List Dimension × ExprType)) : Prop where
  ordered : (kept.map Prod.fst).Pairwise (List.Lex (· < ·))
  mem_iff : ∀ dims τ, (dims, τ) ∈ kept ↔ t.Keeps e dims τ
  scalar : List.Forall₂ (Describes t e) r.scalar (kept.filter fun c => c.2 = .scalar)
  vector : ∀ d, List.Forall₂ (Describes t e) (r.bucket d) (kept.filter fun c => c.2 = .vector d)
  noEmptyBucket : r.NoEmptyBucket

/-- What is listed is settled by the table and the tree. -/
theorem Resolution.Lists.eq_kept {r : Resolution} {t : OperandTable} {e : Expr}
    {kept : List (List Dimension × ExprType)} (listed : r.Lists t e kept)
    (ascending : t.Ascending) (covers : t.Covers e) : kept = t.kept e := by
  refine eq_of_lex_of_mem_iff listed.ordered (OperandTable.pairwise_kept ascending)
    fun dims τ => ?_
  rw [listed.mem_iff, OperandTable.mem_kept ascending covers]

namespace OperandTable

variable {t : OperandTable} {e : Expr} {dims : List Dimension} {τ : ExprType} {config : Config}

theorem describes_derivationOf (types : t.Types e dims τ) :
    Describes t e (t.derivationOf config e dims) (dims, τ) := by
  obtain ⟨selected, typed⟩ := types
  have typed' := (narrows_fixAll (t.referencedGroupSlots e) dims t).hasType_iff.mpr typed
  exact ⟨rfl, derivation_kind config _ typed',
    derivation_dimension config _ (settled_fixAll selected) typed', rfl⟩

end OperandTable

variable {t : OperandTable} {e : Expr}

theorem Describes.bucket? {x : Derivation} {c : List Dimension × ExprType}
    (h : Describes t e x c) : x.bucket? = c.2.dimension? := by
  unfold Derivation.bucket?
  rw [h.kind, h.dimension]
  cases c.2 <;> rfl

/-- Derivations that describe the elements of a list, and those of them under one dimension. -/
theorem forall₂_filter {kept : List (List Dimension × ExprType)}
    {f : List Dimension × ExprType → Derivation} (described : ∀ c ∈ kept, Describes t e (f c) c)
    (τ : ExprType) :
    List.Forall₂ (Describes t e) ((kept.map f).filter fun x => x.bucket? = τ.dimension?)
      (kept.filter fun c => c.2 = τ) := by
  have same : kept.filter (fun c => (f c).bucket? = τ.dimension?) =
      kept.filter fun c => c.2 = τ := List.filter_congr fun c found => by
    rw [(described c found).bucket?]
    cases c.2 <;> cases τ <;> simp [ExprType.dimension?]
  rw [List.filter_map, List.forall₂_map_left_iff, Function.comp_def, same, List.forall₂_same]
  exact fun c found => described c (List.mem_of_mem_filter found)

/-- **Partitioning the derivations of the kept selections lists them.** -/
theorem Resolution.lists_ofDerivations (ascending : t.Ascending) (covers : t.Covers e)
    (definition : Definition) (config : Config) :
    (ofDerivations definition ((t.kept e).map fun c => t.derivationOf config e c.1)).Lists t e
      (t.kept e) := by
  have described : ∀ c ∈ t.kept e, Describes t e (t.derivationOf config e c.1) c := fun c found =>
    OperandTable.describes_derivationOf ((OperandTable.mem_kept ascending covers).mp found).1
  refine ⟨OperandTable.pairwise_kept ascending,
    fun dims τ => OperandTable.mem_kept ascending covers, ?_, fun d => ?_, ?_⟩
  · rw [scalar_ofDerivations]
    exact forall₂_filter described .scalar
  · rw [bucket_ofDerivations]
    exact forall₂_filter described (.vector d)
  · exact noEmptyBucket_ofDerivations definition _

namespace Resolver

variable {State : Type} {report : State → ResolutionError → Option Diagnostic × State}
  {resolver : Resolver} {target : Quantity} {definition : Definition} {state : State}
  {r : Resolution}

/-- The definition reads as the tree, every stage lets it through, and this is what comes out. -/
structure Succeeds (resolver : Resolver) (target : Quantity) (definition : Definition) (e : Expr)
    (r : Resolution) : Prop where
  read : Expr.parse definition.expression.toList definition.signature.length = .ok e
  kind_ne_invalid : e.kind (resolver.operands definition.signature e) ≠ .invalid
  nonempty : resolver.derivations definition.signature e ≠ []
  faultless : targetFault? target (resolver.classifier target)
    (e.kind (resolver.operands definition.signature e))
    (resolver.derivations definition.signature e) = none
  eq_ofDerivations :
    r = .ofDerivations definition (resolver.derivations definition.signature e)

/-- **A success is one of every stage.** -/
theorem succeeds_of_outcome (success : resolver.outcome target definition = .ok r) :
    ∃ e, resolver.Succeeds target definition e r := by
  unfold outcome at success
  split at success
  · contradiction
  · rename_i e read
    dsimp only at success
    split at success
    · contradiction
    · rename_i valid
      split at success
      · contradiction
      · rename_i nonempty
        split at success
        · contradiction
        · rename_i faultless
          exact ⟨e, read, valid, nonempty, faultless, (Except.ok.inj success).symm⟩

theorem Succeeds.outcome {e : Expr} (h : resolver.Succeeds target definition e r) :
    resolver.outcome target definition = .ok r := by
  rw [Resolver.outcome, h.read]
  dsimp only
  rw [if_neg h.kind_ne_invalid, if_neg h.nonempty, h.faultless, h.eq_ofDerivations]

theorem Succeeds.definition_eq {e : Expr} (h : resolver.Succeeds target definition e r) :
    r.definition = definition := by
  rw [h.eq_ofDerivations]
  exact (Resolution.foldl_push _ _).1

/-- Partitioning keeps all that is derived. -/
theorem Succeeds.mem_derivations {e : Expr} {x : Derivation}
    (h : resolver.Succeeds target definition e r) :
    x ∈ r.derivations ↔ x ∈ resolver.derivations definition.signature e := by
  rw [h.eq_ofDerivations]
  exact (Resolution.perm_ofDerivations definition _).mem_iff

/-- A success is made of the derivations of the kept selections. -/
theorem eq_ofDerivations_of_outcome {e : Expr}
    (read : Expr.parse definition.expression.toList definition.signature.length = .ok e)
    (success : resolver.outcome target definition = .ok r) :
    let t := OperandTable.classify resolver.classifier definition.signature
    r = .ofDerivations definition
      ((t.kept e).map fun c => t.derivationOf resolver.config e c.1) := by
  obtain ⟨e', succeeds⟩ := succeeds_of_outcome success
  obtain rfl : e = e' := Except.ok.inj (read.symm.trans succeeds.read)
  rw [succeeds.eq_ofDerivations, derivations_eq]

/-- **A resolution that succeeds lists the selections that count**, and no other. -/
theorem resolveWith_lists (h : (resolver.resolveWith report target definition state).1 = .ok r) :
    ∃ e kept,
      Expr.parse definition.expression.toList definition.signature.length = .ok e ∧
      r.definition = definition ∧
      r.Lists (.classify resolver.classifier definition.signature) e kept := by
  have success := resolveWith_eq_ok_iff.mp h
  cases read : Expr.parse definition.expression.toList definition.signature.length with
  | error source =>
    rw [outcome, read] at success
    contradiction
  | ok e =>
    obtain rfl := eq_ofDerivations_of_outcome read success
    have listed := Resolution.lists_ofDerivations
      (OperandTable.ascending_classify resolver.classifier definition.signature)
      (covers_classify resolver.classifier read) definition resolver.config
    exact ⟨e, _, rfl, (Resolution.foldl_push _ _).1, listed⟩

/-- A group over a scalar, on a target that takes vectors of dimension three. Both members have a
quotient, and both quotients are listed, each for its dimension. -/
theorem resolveWith_lists_quotient :
    let classifier : Classifier := fun q =>
      if q.name = "Position" then
        .group (.ofList [(2, ⟨"m", "Position2"⟩), (3, ⟨"m", "Position3"⟩)])
      else if q.name = "Velocity3" then .fixedVector 3
      else .scalar
    let definition : Definition := ⟨"{0} / {1}", [⟨"m", "Position"⟩, ⟨"m", "Time"⟩], .none, false⟩
    let quotient (position : String) (d : Dimension) : Derivation :=
      ⟨"{0} / {1}", "{0} / {1}", [⟨"m", position⟩, ⟨"m", "Time"⟩], .vector, some d⟩
    let r : Resolution :=
      ⟨definition, [], .ofList [(2, [quotient "Position2" 2]), (3, [quotient "Position3" 3])]⟩
    let e : Expr := .binary .div (.slot 0) (.slot 1)
    ((Resolver.mk classifier {}).resolveWith Sink.report ⟨"m", "Velocity3"⟩ definition .silent).1 =
        .ok r ∧
      Expr.parse definition.expression.toList definition.signature.length = .ok e ∧
      r.Lists (.classify classifier definition.signature) e
        [([2], .vector 2), ([3], .vector 3)] := by
  intro classifier definition quotient r e
  have read : Expr.parse definition.expression.toList definition.signature.length = .ok e :=
    Expr.parse_of_eq_displayOuter (by decide) (by decide)
  have succeeds : (Resolver.mk classifier {}).Succeeds ⟨"m", "Velocity3"⟩ definition e r :=
    ⟨read, by decide, by decide, by decide, by decide⟩
  have resolved : ((Resolver.mk classifier {}).resolveWith Sink.report ⟨"m", "Velocity3"⟩ definition
      .silent).1 = .ok r := resolveWith_eq_ok_iff.mpr succeeds.outcome
  obtain ⟨e', kept, read', -, listed⟩ := resolveWith_lists resolved
  obtain rfl : e = e' := Except.ok.inj (read.symm.trans read')
  have same := listed.eq_kept (OperandTable.ascending_classify classifier definition.signature)
    (covers_classify classifier read)
  have computed : (OperandTable.classify classifier definition.signature).kept e =
      [([2], .vector 2), ([3], .vector 3)] := by decide
  exact ⟨resolved, read, computed ▸ same ▸ listed⟩

end Resolver

end QuantityAlgebra
