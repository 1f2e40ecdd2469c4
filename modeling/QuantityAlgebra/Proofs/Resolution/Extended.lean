import QuantityAlgebra.Proofs.Derivation.Outline

/-!
# Operands that nothing refers to

Quantities appended to a signature are operands that the tree does not refer to, whatever they are
classified as: a group among them is never chosen for, not even one without members. Over the slots
that the tree does refer to the two tables are the same, so the same selections count, and each
stands for its signature with the appended quantities behind it, as they were declared. Nothing else
shows: to resolve the extended definition is to resolve the definition and extend the result.

Results:
* `get?_append`, **`kept_append`**: the slots referred to, and the selections that count.
* **`derivations_append`**: the derivations of the extended signature.
* `Resolution.ofDerivations_extend`: extending before or after partitioning.
* **`resolveWith_extend`**: resolving commutes with extending.
-/

namespace QuantityAlgebra

/-! ## Extending by quantities -/

/-- The definition with further quantities in its signature. -/
def Definition.extend (more : Signature) (definition : Definition) : Definition :=
  { definition with signature := definition.signature ++ more }

/-- The derivation with further quantities in its signature, and nothing else changed. -/
def Derivation.extend (more : Signature) (x : Derivation) : Derivation :=
  { x with signature := x.signature ++ more }

/-- The resolution with its definition and every derivation so extended, in place. -/
def Resolution.extend (more : Signature) (r : Resolution) : Resolution where
  definition := r.definition.extend more
  scalar := r.scalar.map (Derivation.extend more)
  vector := r.vector.map (List.map (Derivation.extend more))

namespace Resolution

theorem push_extend (more : Signature) (r : Resolution) (x : Derivation) :
    (r.push x).extend more = (r.extend more).push (x.extend more) := by
  have place : (x.extend more).bucket? = x.bucket? := rfl
  rw [push_eq, push_eq, place]
  cases x.bucket? with
  | none => simp [extend]
  | some d =>
    have written : (r.vector.upsert d fun bucket => bucket.getD [] ++ [x]).map
          (List.map (Derivation.extend more)) =
        (r.vector.map (List.map (Derivation.extend more))).upsert d
          fun bucket => bucket.getD [] ++ [x.extend more] :=
      DimensionMap.map_upsert (fun bound => by cases bound <;> simp) r.vector d
    simp only [extend, written]

/-- **Derivations can be extended before or after partitioning.** -/
theorem ofDerivations_extend (more : Signature) (definition : Definition)
    (derivations : List Derivation) :
    (ofDerivations definition derivations).extend more =
      ofDerivations (definition.extend more) (derivations.map (Derivation.extend more)) := by
  have run (r : Resolution) : (derivations.foldl push r).extend more =
      (derivations.map (Derivation.extend more)).foldl push (r.extend more) := by
    induction derivations generalizing r with
    | nil => rfl
    | cons x rest ih => rw [List.foldl_cons, ih, push_extend, List.map_cons, List.foldl_cons]
  exact run (empty definition)

end Resolution

/-! ## Tables -/

namespace OperandTable

variable {classifier : Classifier} {signature : Signature} {e : Expr} {slot : Nat}
  {dims : List Dimension}

/-- Within the signature the tables are the same. -/
theorem get?_append (below : slot < signature.length) (more : Signature) :
    (classify classifier (signature ++ more)).get? slot =
      (classify classifier signature).get? slot := by
  rw [get?_classify, get?_classify, List.getElem?_append_left below]

theorem sameOutline_append (classifier : Classifier) (below : e.Below signature.length)
    (more : Signature) :
    (classify classifier (signature ++ more)).SameOutline (classify classifier signature) e :=
  fun slot referenced => by rw [get?_append (below slot referenced)]

/-- A selection stands for what it stood for, with the appended quantities as they were
declared. -/
theorem signatureOf_append (below : e.Below signature.length) (more : Signature) :
    (classify classifier (signature ++ more)).signatureOf e dims =
      (classify classifier signature).signatureOf e dims ++ more := by
  have beyond (choice : Choice) (slot : Nat) :
      boundIn e choice (slot + signature.length) = Operand.declared := by
    funext operand
    rw [boundIn, if_neg]
    exact fun referenced => absurd (below _ referenced) (by omega)
  have declared (choice : Choice) :
      (more.map (Operand.classify classifier)).mapIdx
        (fun slot => boundIn e choice (slot + signature.length)) = more := by
    simp only [beyond]
    exact List.ext_getElem? fun slot => by simp [Function.comp_def]
  rw [signatureOf, signatureOf, (sameOutline_append classifier below more).choiceOf, signatureAt,
    signatureAt, classify, classify, List.map_append, List.mapIdx_append, List.length_map, declared]

theorem types_append (below : e.Below signature.length) (more : Signature) {τ : ExprType} :
    (classify classifier (signature ++ more)).Types e dims τ ↔
      (classify classifier signature).Types e dims τ := by
  have outline := sameOutline_append classifier below more
  refine types_congr outline.referencedGroupSlots (fun slot found => ?_) fun _ =>
    outline.hasType_iff
  have referenced := (mem_referencedGroupSlots.mp found).2
  rw [candidates, candidates, get?_append (below slot referenced)]

/-- **The same selections count.** -/
theorem kept_append (below : e.Below signature.length) (more : Signature) :
    (classify classifier (signature ++ more)).kept e = (classify classifier signature).kept e := by
  have below' : e.Below (signature ++ more).length := fun slot referenced =>
    Nat.lt_of_lt_of_le (below slot referenced) (by simp)
  refine kept_congr (ascending_classify _ _) (covers_classify_of_below classifier below')
    (ascending_classify _ _) (covers_classify_of_below classifier below)
    (fun _ _ => types_append below more) fun earlier dims => ?_
  rw [signatureOf_append below, signatureOf_append below, List.append_left_inj]

end OperandTable

/-! ## Resolution -/

namespace Resolver

variable {State : Type} {definition : Definition} {e : Expr} {signature : Signature}

/-- **Every derivation is that of the signature as it was, extended.** -/
theorem derivations_append (resolver : Resolver) (below : e.Below signature.length)
    (more : Signature) :
    resolver.derivations (signature ++ more) e =
      (resolver.derivations signature e).map (Derivation.extend more) := by
  rw [derivations_eq, derivations_eq, OperandTable.kept_append below, List.map_map]
  refine List.map_congr_left fun c kept => ?_
  have types := ((OperandTable.mem_kept (OperandTable.ascending_classify _ _)
    (covers_classify_of_below resolver.classifier below)).mp kept).1
  have outline := OperandTable.sameOutline_append resolver.classifier below more
  rw [OperandTable.derivationOf, OperandTable.signatureOf_append below,
    outline.derivation_fixAll resolver.config _ ((OperandTable.types_append below more).mpr types)
      types]
  rfl

/-- A target looks at no signature. -/
theorem targetFault?_extend (target : Quantity) (classification : Classification) (kind : Kind)
    (derivations : List Derivation) (more : Signature) :
    targetFault? target classification kind (derivations.map (Derivation.extend more)) =
      targetFault? target classification kind derivations := by
  unfold targetFault?
  simp only [List.any_map]
  rfl

theorem outcome_extend (resolver : Resolver) (target : Quantity)
    (read : Expr.parse definition.expression.toList definition.signature.length = .ok e)
    (more : Signature) :
    resolver.outcome target (definition.extend more) =
      (resolver.outcome target definition).map (Resolution.extend more) := by
  have below := Expr.below_of_parse read
  have read' : Expr.parse (definition.extend more).expression.toList
      (definition.extend more).signature.length = .ok e :=
    (Expr.parse_eq_ok_iff_below read).mpr ⟨rfl, fun slot referenced =>
      Nat.lt_of_lt_of_le (below slot referenced) (by simp [Definition.extend])⟩
  have signature : (definition.extend more).signature = definition.signature ++ more := rfl
  have derivations := resolver.derivations_append below more
  rw [derivations_eq, derivations_eq] at derivations
  have outline := OperandTable.sameOutline_append resolver.classifier below more
  rw [outcome_of_parse read, outcome_of_parse read', signature, derivations, outline.kind,
    targetFault?_extend]
  simp only [List.map_eq_nil_iff]
  split
  · rfl
  · split
    · rfl
    · split
      · rfl
      · exact congrArg Except.ok (Resolution.ofDerivations_extend more definition _).symm

/-- **Operands that nothing refers to do not interfere.** -/
theorem resolveWith_extend (resolver : Resolver)
    (report : State → ResolutionError → Option Diagnostic × State) (target : Quantity)
    (state : State)
    (read : Expr.parse definition.expression.toList definition.signature.length = .ok e)
    (more : Signature) :
    resolver.resolveWith report target (definition.extend more) state =
      ((resolver.resolveWith report target definition state).1.map (Resolution.extend more),
        (resolver.resolveWith report target definition state).2) := by
  rw [resolveWith, resolveWith, resolution, resolution, outcome_extend resolver target read]
  cases resolver.outcome target definition <;> rfl

/-- A quotient of a group, with a scalar, a vector, the same group and a group without members
behind it. -/
theorem resolveWith_extend_empty_group :
    let classifier : Classifier := fun q =>
      if q.name = "Position" then
        .group (.ofList [(2, ⟨"m", "Position2"⟩), (3, ⟨"m", "Position3"⟩)])
      else if q.name = "Gravity" then .fixedVector 3
      else if q.name = "Nowhere" then .group ∅
      else .scalar
    let resolver : Resolver := ⟨classifier, {}⟩
    let definition : Definition := ⟨"{0} / {1}", [⟨"m", "Position"⟩, ⟨"m", "Time"⟩], .none, false⟩
    let more : Signature :=
      [⟨"m", "Time"⟩, ⟨"m", "Gravity"⟩, ⟨"m", "Position"⟩, ⟨"m", "Nowhere"⟩]
    (∃ r, (resolver.resolveWith Sink.report ⟨"m", "Position"⟩ definition .silent).1 = .ok r ∧
        r.size = 2) ∧
      resolver.resolveWith Sink.report ⟨"m", "Position"⟩ (definition.extend more) .silent =
        ((resolver.resolveWith Sink.report ⟨"m", "Position"⟩ definition .silent).1.map
            (Resolution.extend more),
          (resolver.resolveWith Sink.report ⟨"m", "Position"⟩ definition .silent).2) := by
  intro classifier resolver definition more
  have read : Expr.parse definition.expression.toList definition.signature.length =
      .ok (.binary .div (.slot 0) (.slot 1)) :=
    Expr.parse_of_eq_displayOuter (by decide) (by decide)
  have succeeds : resolver.Succeeds ⟨"m", "Position"⟩ definition _ _ :=
    ⟨read, by decide, by decide, by decide, rfl⟩
  exact ⟨⟨_, resolveWith_eq_ok_iff.mpr succeeds.outcome, by decide⟩,
    resolver.resolveWith_extend Sink.report _ _ read more⟩

end Resolver

end QuantityAlgebra
