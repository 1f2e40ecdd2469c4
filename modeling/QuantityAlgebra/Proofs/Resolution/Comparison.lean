import QuantityAlgebra.Proofs.Resolution.Verdict

/-!
# Two trees compared

What a resolution lists is settled by the selections that count, and they by two things: under which
selections a tree has a type, and which of these share a signature. So two trees, each over a table
of its own, can be compared without running either. If the selections typed on one side are those
typed on the other that pass some test, and no selection that passes shares its signature with one
that does not, the selections that count are related in the same way, and stand in the same order.

Why a resolution fails is settled by less, the types of the selections that count.

Results:
* **`Restricts.kept_eq`**: the selections that count on one side are those on the other that pass.
* `kept_congr`: without a test, they are the same.
* **`alike_of_resultsIn`**: definitions whose trees result in the same types resolve alike.
-/

namespace QuantityAlgebra

/-- A target that takes a scalar is one. -/
theorem Classification.Takes.kind_eq_scalar_iff {classification : Classification} {τ : ExprType}
    (takes : classification.Takes τ) : τ.kind = .scalar ↔ classification = .scalar := by
  cases classification with
  | scalar => simp [show τ = .scalar from takes, ExprType.kind]
  | fixedVector d | groupMember d => simp [show τ = .vector d from takes, ExprType.kind]
  | group members =>
    obtain ⟨d, -, rfl⟩ := takes
    simp [ExprType.kind]

namespace OperandTable

variable {t u : OperandTable} {e f : Expr} {dims : List Dimension} {τ : ExprType} {slot : Nat}

/-! ## Slots and selections -/

/-- The group slots a tree refers to ascend. -/
theorem referencedGroupSlots_congr
    (same : ∀ slot, slot ∈ t.referencedGroupSlots e ↔ slot ∈ u.referencedGroupSlots f) :
    t.referencedGroupSlots e = u.referencedGroupSlots f :=
  eq_of_pairwise_of_mem_iff (fun _ _ => Nat.lt_asymm) (pairwise_referencedGroupSlots t e)
    (pairwise_referencedGroupSlots u f) same

/-- A selection takes a candidate for each group, and the tree has its type under that choice. -/
theorem types_iff_admits : t.Types e dims τ ↔
    (t.referencedGroupSlots e).length = dims.length ∧
      t.Admits (t.choiceOf e dims) e ∧ HasType t (t.choiceOf e dims) e τ := by
  constructor
  · rintro ⟨selected, typed⟩
    have length := selected.length_eq
    exact ⟨length, (selects_iff_admits (Narrows.refl t) length).mp selected, typed⟩
  · rintro ⟨length, admitted, typed⟩
    exact ⟨(selects_iff_admits (Narrows.refl t) length).mpr admitted, typed⟩

/-- Trees of the same types, with the same candidates to select from, have their types under the
same selections. -/
theorem types_congr (slots : t.referencedGroupSlots e = u.referencedGroupSlots f)
    (candidates : ∀ slot ∈ t.referencedGroupSlots e, t.candidates slot = u.candidates slot)
    (typed : ∀ choice, HasType t choice e τ ↔ HasType u choice f τ) :
    t.Types e dims τ ↔ u.Types f dims τ := by
  rw [Types, Types, ← mem_selections, ← mem_selections, selections_congr candidates, choiceOf,
    choiceOf, slots]
  exact and_congr_right' (typed _)

/-! ## Selections that count -/

/-- The tree `e` over `t` has its types under those selections under which `f` has them over `u` and
that pass, and a selection that passes shares its signature with none that does not. -/
structure Restricts (t : OperandTable) (e : Expr) (u : OperandTable) (f : Expr)
    (passes : List Dimension → Prop) : Prop where
  types : ∀ dims τ, t.Types e dims τ ↔ u.Types f dims τ ∧ passes dims
  signatures : ∀ earlier dims τ, t.Types e dims τ →
    (u.signatureOf f earlier = u.signatureOf f dims ↔
      passes earlier ∧ t.signatureOf e earlier = t.signatureOf e dims)

namespace Restricts

variable {passes : List Dimension → Prop}

/-- What does not pass takes the place of nothing that does. -/
theorem keeps_iff (h : t.Restricts e u f passes) :
    t.Keeps e dims τ ↔ u.Keeps f dims τ ∧ passes dims := by
  constructor
  · rintro ⟨types, first⟩
    obtain ⟨types', passed⟩ := (h.types dims τ).mp types
    refine ⟨⟨types', fun earlier σ typed before same => ?_⟩, passed⟩
    obtain ⟨passed', same'⟩ := (h.signatures earlier dims τ types).mp same
    exact first earlier σ ((h.types earlier σ).mpr ⟨typed, passed'⟩) before same'
  · rintro ⟨⟨types', first⟩, passed⟩
    have types := (h.types dims τ).mpr ⟨types', passed⟩
    refine ⟨types, fun earlier σ typed before same => ?_⟩
    obtain ⟨typed', passed'⟩ := (h.types earlier σ).mp typed
    exact first earlier σ typed' before
      ((h.signatures earlier dims τ types).mpr ⟨passed', same⟩)

/-- **The selections that count on one side are those on the other that pass**, in the same
order. -/
theorem kept_eq [DecidablePred passes] (h : t.Restricts e u f passes) (ascending : t.Ascending)
    (covers : t.Covers e) (ascending' : u.Ascending) (covers' : u.Covers f) :
    t.kept e = (u.kept f).filter fun c => passes c.1 := by
  refine eq_of_lex_of_mem_iff (pairwise_kept ascending)
    ((pairwise_kept ascending').sublist (List.filter_sublist.map _)) fun dims τ => ?_
  rw [mem_kept ascending covers, h.keeps_iff, List.mem_filter, mem_kept ascending' covers',
    decide_eq_true_eq]

end Restricts

/-- **Where the same selections are typed and the same of them share a signature, the same
count.** -/
theorem kept_congr (ascending : t.Ascending) (covers : t.Covers e) (ascending' : u.Ascending)
    (covers' : u.Covers f) (types : ∀ dims τ, t.Types e dims τ ↔ u.Types f dims τ)
    (signatures : ∀ earlier dims, t.signatureOf e earlier = t.signatureOf e dims ↔
      u.signatureOf f earlier = u.signatureOf f dims) :
    t.kept e = u.kept f := by
  have restricts : t.Restricts e u f fun _ => True :=
    ⟨fun dims τ => by rw [types, and_true], fun earlier dims _ _ => by
      rw [signatures, true_and]⟩
  rw [restricts.kept_eq ascending covers ascending' covers']
  simp

/-! ## Types that come out -/

/-- Some selection that counts gives the tree the type. -/
def ResultsIn (t : OperandTable) (e : Expr) (τ : ExprType) : Prop := ∃ dims, t.Keeps e dims τ

theorem resultsIn_iff (ascending : t.Ascending) (covers : t.Covers e) :
    t.ResultsIn e τ ↔ ∃ dims, (dims, τ) ∈ t.kept e :=
  exists_congr fun _ => (mem_kept ascending covers).symm

/-- Of a tree that has a type some type of that kind comes out. -/
theorem exists_resultsIn (ascending : t.Ascending) (covers : t.Covers e)
    (types : t.Types e dims τ) : ∃ σ, t.ResultsIn e σ ∧ σ.kind = τ.kind := by
  obtain ⟨dims', σ, keeps⟩ := exists_keeps ascending covers ⟨dims, τ, types⟩
  exact ⟨σ, ⟨dims', keeps⟩, (kind_of_types keeps.1).symm.trans (kind_of_types types)⟩

theorem exists_types_iff (ascending : t.Ascending) (covers : t.Covers e) :
    (∃ dims τ, t.Types e dims τ) ↔ ∃ τ, t.ResultsIn e τ := by
  constructor
  · rintro ⟨dims, τ, types⟩
    obtain ⟨σ, results, -⟩ := exists_resultsIn ascending covers types
    exact ⟨σ, results⟩
  · rintro ⟨τ, dims, keeps⟩
    exact ⟨dims, τ, keeps.1⟩

theorem exists_types_scalar_iff (ascending : t.Ascending) (covers : t.Covers e) :
    (∃ dims, t.Types e dims .scalar) ↔ t.ResultsIn e .scalar := by
  constructor
  · rintro ⟨dims, types⟩
    obtain ⟨σ, results, kind⟩ := exists_resultsIn ascending covers types
    cases σ with
    | scalar => exact results
    | vector => contradiction
  · rintro ⟨dims, keeps⟩
    exact ⟨dims, keeps.1⟩

theorem exists_types_vector_iff (ascending : t.Ascending) (covers : t.Covers e) :
    (∃ dims d, t.Types e dims (.vector d)) ↔ ∃ d, t.ResultsIn e (.vector d) := by
  constructor
  · rintro ⟨dims, d, types⟩
    obtain ⟨σ, results, kind⟩ := exists_resultsIn ascending covers types
    cases σ with
    | scalar => contradiction
    | vector d => exact ⟨d, results⟩
  · rintro ⟨d, dims, keeps⟩
    exact ⟨dims, d, keeps.1⟩

/-- A target finds no fault with a tree exactly if it takes a type that comes out. -/
theorem targetVerdict_eq_none_iff (target : Quantity) {classification : Classification} :
    t.targetVerdict e target classification = none ↔
      ∃ τ, t.ResultsIn e τ ∧ classification.Takes τ := by
  constructor
  · intro faultless
    unfold targetVerdict at faultless
    split at faultless
    · contradiction
    · split at faultless
      · contradiction
      · split at faultless
        · contradiction
        · rename_i taken
          obtain ⟨dims, τ, keeps, takes⟩ := not_not.mp taken
          exact ⟨τ, ⟨dims, keeps⟩, takes⟩
  · rintro ⟨τ, ⟨dims, keeps⟩, takes⟩
    -- All types are of the kind of the one taken, so neither of the first two faults is found.
    have kind {dims' : List Dimension} {σ : ExprType} (types : t.Types e dims' σ) :
        σ.kind = .scalar ↔ classification = .scalar := by
      rw [← kind_of_types types, kind_of_types keeps.1, takes.kind_eq_scalar_iff]
    unfold targetVerdict
    rw [if_neg, if_neg, if_neg]
    · exact not_not.mpr ⟨dims, τ, keeps, takes⟩
    · rintro ⟨notScalar, dims', types⟩
      exact notScalar ((kind types).mp rfl)
    · rintro ⟨isScalar, dims', d, types⟩
      exact absurd ((kind types).mpr isScalar) (by simp [ExprType.kind])

/-- What the target makes of a tree depends on the types that come out. -/
theorem targetVerdict_congr (ascending : t.Ascending) (covers : t.Covers e)
    (ascending' : u.Ascending) (covers' : u.Covers f)
    (same : ∀ τ, t.ResultsIn e τ ↔ u.ResultsIn f τ) (target : Quantity)
    (classification : Classification) :
    t.targetVerdict e target classification = u.targetVerdict f target classification := by
  have taken (t : OperandTable) (e : Expr) :
      (∃ dims τ, t.Keeps e dims τ ∧ classification.Takes τ) ↔
        ∃ τ, t.ResultsIn e τ ∧ classification.Takes τ := by
    rw [exists_comm]
    exact exists_congr fun τ => exists_and_right
  have results : t.ResultsIn e = u.ResultsIn f := funext fun τ => propext (same τ)
  rw [targetVerdict, targetVerdict, exists_types_vector_iff ascending covers,
    exists_types_vector_iff ascending' covers', exists_types_scalar_iff ascending covers,
    exists_types_scalar_iff ascending' covers', taken, taken, results]

end OperandTable

/-- A tree in range refers to no slot beyond the table. -/
theorem covers_classify_of_below (classifier : Classifier) {signature : Signature} {e : Expr}
    (below : e.Below signature.length) : (OperandTable.classify classifier signature).Covers e := by
  intro slot referenced missing
  rw [OperandTable.get?, List.getElem?_eq_none_iff, OperandTable.classify, List.length_map]
    at missing
  exact absurd (below slot referenced) (Nat.not_lt.mpr missing)

/-! ## Outcomes -/

/-- Both succeed, with resolutions so related, or both fail, with errors of one code. -/
def Alike (R : Resolution → Resolution → Prop) :
    Except Failure Resolution → Except Failure Resolution → Prop
  | .ok r, .ok r' => R r r'
  | .error failure, .error failure' => failure.error.code = failure'.error.code
  | _, _ => False

namespace Resolver

variable {State : Type} {report : State → ResolutionError → Option Diagnostic × State}
  {resolver : Resolver} {target : Quantity} {definition definition' : Definition} {state : State}
  {e f : Expr}

/-- A definition resolves exactly if its tree results in a type that the target takes. -/
theorem exists_outcome_iff (resolver : Resolver) (target : Quantity)
    (read : Expr.parse definition.expression.toList definition.signature.length = .ok e) :
    (∃ r, resolver.outcome target definition = .ok r) ↔
      ∃ τ, (OperandTable.classify resolver.classifier definition.signature).ResultsIn e τ ∧
        (resolver.classifier target).Takes τ := by
  have decided := resolver.outcome_verdict target definition
  have faultless : (∃ r, resolver.outcome target definition = .ok r) ↔
      resolver.verdict target definition = none := by
    cases verdict : resolver.verdict target definition with
    | some cause =>
      rw [verdict] at decided
      simp [show resolver.outcome target definition = .error cause from decided]
    | none =>
      rw [verdict] at decided
      obtain ⟨r, success, -⟩ := decided
      exact ⟨fun _ => rfl, fun _ => ⟨r, success⟩⟩
  rw [faultless, verdict, read, ← OperandTable.targetVerdict_eq_none_iff target]
  dsimp only
  split
  · rfl
  · rename_i untyped
    refine ⟨fun none => by contradiction, fun none => ?_⟩
    obtain ⟨τ, ⟨dims, keeps⟩, -⟩ := (OperandTable.targetVerdict_eq_none_iff target).mp none
    exact absurd ⟨dims, τ, keeps.1⟩ untyped

theorem verdict_congr
    (read : Expr.parse definition.expression.toList definition.signature.length = .ok e)
    (read' : Expr.parse definition'.expression.toList definition'.signature.length = .ok f)
    (same : ∀ τ,
      (OperandTable.classify resolver.classifier definition.signature).ResultsIn e τ ↔
        (OperandTable.classify resolver.classifier definition'.signature).ResultsIn f τ)
    (target : Quantity) :
    resolver.verdict target definition = resolver.verdict target definition' := by
  have ascending := OperandTable.ascending_classify resolver.classifier
  have covers := covers_classify resolver.classifier read
  have covers' := covers_classify resolver.classifier read'
  have typed : (∃ dims τ,
        (OperandTable.classify resolver.classifier definition.signature).Types e dims τ) ↔
      ∃ dims τ,
        (OperandTable.classify resolver.classifier definition'.signature).Types f dims τ := by
    rw [OperandTable.exists_types_iff (ascending _) covers,
      OperandTable.exists_types_iff (ascending _) covers']
    exact exists_congr same
  rw [verdict, verdict, read, read']
  dsimp only
  rw [typed, OperandTable.targetVerdict_congr (ascending _) covers (ascending _) covers' same]

theorem eq_ofDerivations_of_success {r : Resolution}
    (read : Expr.parse definition.expression.toList definition.signature.length = .ok e)
    (success : resolver.outcome target definition = .ok r) :
    r = .ofDerivations definition (resolver.derivations definition.signature e) := by
  rw [derivations_eq]
  exact eq_ofDerivations_of_outcome read success

/-- A text that reads as a tree over some operands, but not over those of the definition, is
malformed. -/
theorem code_of_not_below {operands : Nat}
    (report : State → ResolutionError → Option Diagnostic × State) (state : State)
    (read : Expr.parse definition.expression.toList operands = .ok e)
    (beyond : ¬e.Below definition.signature.length) :
    ∃ failure, (resolver.resolveWith report target definition state).1 = .error failure ∧
      failure.error.code = .malformedExpression := by
  cases refused : Expr.parse definition.expression.toList definition.signature.length with
  | ok f => exact absurd ((Expr.parse_eq_ok_iff_below read).mp refused).2 beyond
  | error source =>
    have failed : resolver.outcome target definition = .error (.malformed source) := by
      rw [outcome, refused]
    obtain ⟨diagnostic, reported⟩ := resolveWith_of_error report state failed
    exact ⟨_, reported, rfl⟩

/-- **Definitions whose trees result in the same types resolve alike**: to what is derived of each,
or with one code. Where the trees refer to slots beyond the signatures, both are malformed. -/
theorem alike_of_resultsIn {R : Resolution → Resolution → Prop} {operands operands' : Nat}
    (report : State → ResolutionError → Option Diagnostic × State) (target : Quantity)
    (state : State)
    (read : Expr.parse definition.expression.toList operands = .ok e)
    (read' : Expr.parse definition'.expression.toList operands' = .ok f)
    (below : e.Below definition.signature.length ↔ f.Below definition'.signature.length)
    (same : e.Below definition.signature.length → ∀ τ,
      (OperandTable.classify resolver.classifier definition.signature).ResultsIn e τ ↔
        (OperandTable.classify resolver.classifier definition'.signature).ResultsIn f τ)
    (related : e.Below definition.signature.length →
      R (.ofDerivations definition (resolver.derivations definition.signature e))
        (.ofDerivations definition' (resolver.derivations definition'.signature f))) :
    Alike R (resolver.resolveWith report target definition state).1
      (resolver.resolveWith report target definition' state).1 := by
  by_cases inRange : e.Below definition.signature.length
  · have here := (Expr.parse_eq_ok_iff_below read).mpr ⟨rfl, inRange⟩
    have there := (Expr.parse_eq_ok_iff_below read').mpr ⟨rfl, below.mp inRange⟩
    have decided := resolver.outcome_verdict target definition
    have decided' := resolver.outcome_verdict target definition'
    rw [← verdict_congr here there (same inRange)] at decided'
    cases verdict : resolver.verdict target definition with
    | some cause =>
      rw [verdict] at decided decided'
      obtain ⟨diagnostic, failed⟩ := resolveWith_of_error report state decided
      obtain ⟨diagnostic', failed'⟩ := resolveWith_of_error report state decided'
      rw [failed, failed']
      rfl
    | none =>
      rw [verdict] at decided decided'
      obtain ⟨r, success, -⟩ := decided
      obtain ⟨r', success', -⟩ := decided'
      rw [resolveWith_eq_ok_iff.mpr success, resolveWith_eq_ok_iff.mpr success',
        eq_ofDerivations_of_success here success, eq_ofDerivations_of_success there success']
      exact related inRange
  · obtain ⟨failure, failed, code⟩ := code_of_not_below report state read inRange
    obtain ⟨failure', failed', code'⟩ := code_of_not_below report state read' (mt below.mpr inRange)
    rw [failed, failed']
    exact code.trans code'.symm

end Resolver

end QuantityAlgebra
