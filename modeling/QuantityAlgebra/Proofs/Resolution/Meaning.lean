import QuantityAlgebra.Proofs.Derivation.Materialized
import QuantityAlgebra.Proofs.Expansion.Narrowed
import QuantityAlgebra.Proofs.Expr.Printing
import QuantityAlgebra.Resolution

/-!
# What a definition means

A definition whose expression reads as a tree means the selections of the referenced group slots
under which the tree has a type, over the signature as it is classified (`Types`). Two selections
may stand for the same concrete signature, where a group has one quantity for two dimensions; of
those only the first counts (`Keeps`). Nothing else is said: no kinds, no sets of dimensions, no
narrowing and no order of checks.

A resolver derives exactly the selections that count, one derivation for each.

Results:
* **`mem_kept`**, `pairwise_kept`: the selections that count, as a list in lexicographic order.
* **`derivations_eq`**: a resolver derives them, from `all_expand_narrow`.
* **`outcome_of_parse`**: the outcome of a definition that is read, in terms of them.
* `resolveWith_eq_ok_iff`, `resolveWith_of_error`: what is reported to changes nothing about the
  outcome.
-/

namespace QuantityAlgebra

/-! ## Lists in one order -/

/-- Lists that hold the same in one strict order are the same. -/
theorem eq_of_pairwise_of_mem_iff {α : Type} {r : α → α → Prop} {xs ys : List α}
    (asymm : ∀ a b, r a b → ¬r b a) (hx : xs.Pairwise r) (hy : ys.Pairwise r)
    (same : ∀ a, a ∈ xs ↔ a ∈ ys) : xs = ys := by
  have nodup {zs : List α} (h : zs.Pairwise r) : zs.Nodup :=
    h.imp fun lt => by
      rintro rfl
      exact asymm _ _ lt lt
  have perm := (List.perm_ext_iff_of_nodup (nodup hx) (nodup hy)).mpr same
  exact perm.eq_of_pairwise (fun a b _ _ lt gt => absurd gt (asymm a b lt)) hx hy

theorem lex_asymm (a b : List Dimension) : List.Lex (· < ·) a b → ¬List.Lex (· < ·) b a :=
  List.lex_asymm fun lt => UInt32.lt_asymm lt

/-- Lists of typed selections in lexicographic order that hold the same are the same. -/
theorem eq_of_lex_of_mem_iff {xs ys : List (List Dimension × ExprType)}
    (hx : (xs.map Prod.fst).Pairwise (List.Lex (· < ·)))
    (hy : (ys.map Prod.fst).Pairwise (List.Lex (· < ·)))
    (same : ∀ dims τ, (dims, τ) ∈ xs ↔ (dims, τ) ∈ ys) : xs = ys :=
  eq_of_pairwise_of_mem_iff (fun a b => lex_asymm a.1 b.1) (List.pairwise_map.mp hx)
    (List.pairwise_map.mp hy) fun c => same c.1 c.2

/-! ## Selections that count -/

namespace OperandTable

variable {t : OperandTable} {e : Expr} {dims : List Dimension} {τ : ExprType}

/-- The tree has the type under a selection of the referenced group slots. -/
def Types (t : OperandTable) (e : Expr) (dims : List Dimension) (τ : ExprType) : Prop :=
  t.Selects (t.referencedGroupSlots e) dims ∧ HasType t (t.choiceOf e dims) e τ

/-- The quantities the slots stand for under a selection. -/
def signatureOf (t : OperandTable) (e : Expr) (dims : List Dimension) : Signature :=
  t.signatureAt e (t.choiceOf e dims)

/-- The selection counts: the tree has the type under it, and under no earlier selection with the
same signature has it any. -/
def Keeps (t : OperandTable) (e : Expr) (dims : List Dimension) (τ : ExprType) : Prop :=
  t.Types e dims τ ∧
    ∀ earlier σ, t.Types e earlier σ → List.Lex (· < ·) earlier dims →
      t.signatureOf e earlier ≠ t.signatureOf e dims

/-- The tree refers to no slot beyond the table. -/
def Covers (t : OperandTable) (e : Expr) : Prop :=
  ∀ slot, e.references slot = true → t.get? slot ≠ none

/-- Of a covered tree the accepted selections are those under which it has a type. -/
theorem mem_accepted_iff_types (covers : t.Covers e) :
    dims ∈ t.accepted e ↔ ∃ τ, t.Types e dims τ := by
  rw [mem_accepted]
  constructor
  · rintro ⟨selected, ⟨τ, typed⟩ | ⟨index, rfl, beyond⟩⟩
    · exact ⟨τ, selected, typed⟩
    · exact absurd beyond (covers index (by simp [Expr.references]))
  · rintro ⟨τ, selected, typed⟩
    exact ⟨selected, Or.inl ⟨τ, typed⟩⟩

/-- The selections that count, each with the type of the tree. -/
def kept (t : OperandTable) (e : Expr) : List (List Dimension × ExprType) :=
  (distinctBy (t.signatureOf e) (t.accepted e)).map fun dims =>
    (dims, (e.typeAt? t (t.choiceOf e dims)).getD .scalar)

theorem typeAt?_of_types (types : t.Types e dims τ) :
    e.typeAt? t (t.choiceOf e dims) = some τ :=
  Expr.typeAt?_eq_some.mpr types.2

/-- Selections come in lexicographic order. -/
theorem pairwise_accepted (ascending : t.Ascending) :
    (t.accepted e).Pairwise (List.Lex (· < ·)) :=
  (pairwise_selections fun slot _ => ascending slot).filter _

/-- **Kept are the selections that count.** -/
theorem mem_kept (ascending : t.Ascending) (covers : t.Covers e) :
    (dims, τ) ∈ t.kept e ↔ t.Keeps e dims τ := by
  have first (x : List Dimension) : x ∈ distinctBy (t.signatureOf e) (t.accepted e) ↔
      x ∈ t.accepted e ∧ ∀ y ∈ t.accepted e, List.Lex (· < ·) y x →
        t.signatureOf e y ≠ t.signatureOf e x :=
    mem_distinctBy_iff lex_asymm (pairwise_accepted ascending)
  rw [kept, List.mem_map]
  constructor
  · rintro ⟨x, held, same⟩
    obtain ⟨rfl, rfl⟩ := Prod.mk.inj same
    obtain ⟨accepted, earlier⟩ := (first x).mp held
    obtain ⟨τ, types⟩ := (mem_accepted_iff_types covers).mp accepted
    rw [typeAt?_of_types types]
    exact ⟨types, fun y σ typed => earlier y ((mem_accepted_iff_types covers).mpr ⟨σ, typed⟩)⟩
  · rintro ⟨types, earlier⟩
    refine ⟨dims, (first dims).mpr ⟨(mem_accepted_iff_types covers).mpr ⟨τ, types⟩, ?_⟩, ?_⟩
    · intro y accepted
      obtain ⟨σ, typed⟩ := (mem_accepted_iff_types covers).mp accepted
      exact earlier y σ typed
    · rw [typeAt?_of_types types]
      rfl

/-- **They come in lexicographic order.** -/
theorem pairwise_kept (ascending : t.Ascending) :
    ((t.kept e).map Prod.fst).Pairwise (List.Lex (· < ·)) := by
  rw [kept, List.map_map]
  simpa [Function.comp_def] using (pairwise_accepted ascending).sublist (distinctBy_sublist _ _)

/-- The derivation of a selection. -/
def derivationOf (config : Config) (t : OperandTable) (e : Expr) (dims : List Dimension) :
    Derivation :=
  e.derivation config (fixAll (t.referencedGroupSlots e) dims t) (t.signatureOf e dims)

/-- The concrete signature of a table in which a selection is fixed is that of the selection. -/
theorem concreteSignature?_fixAll (membered : t.Membered)
    (selected : t.Selects (t.referencedGroupSlots e) dims) :
    (fixAll (t.referencedGroupSlots e) dims t).concreteSignature? e =
      some (t.signatureOf e dims) :=
  (narrows_fixAll _ dims t).concreteSignature?_settled (settled_fixAll selected) membered

/-- **The tables of a tree turn into the kept selections**, one derivation for each; that they are
narrowed by the tree before shows nowhere. -/
theorem all_expand_narrow (repeatFree : t.RepeatFree) (membered : t.Membered) (config : Config) :
    (Materializer.all { expr := e, config } ((e.narrow t).expand e)).1 =
      (t.kept e).map fun c => t.derivationOf config e c.1 := by
  have concrete : ∀ dims ∈ t.accepted e,
      (fixAll (t.referencedGroupSlots e) dims t).concreteSignature? e =
        some (t.signatureOf e dims) := fun dims accepted =>
    concreteSignature?_fixAll membered (mem_accepted.mp accepted).1
  rw [expand_narrow repeatFree, expand_eq, Materializer.all_map _ concrete, kept, List.map_map,
    List.filter_eq_self.mpr fun _ _ => decide_eq_true List.not_mem_nil]
  rfl

end OperandTable

/-- **A resolver derives the kept selections.** -/
theorem Resolver.derivations_eq (resolver : Resolver) (signature : Signature) (e : Expr) :
    let t := OperandTable.classify resolver.classifier signature
    resolver.derivations signature e =
      (t.kept e).map fun c => t.derivationOf resolver.config e c.1 :=
  OperandTable.all_expand_narrow (OperandTable.repeatFree_classify resolver.classifier signature)
    (OperandTable.membered_classify resolver.classifier signature) resolver.config

/-- A tree that is read over a signature refers to no slot beyond it. -/
theorem covers_classify (classifier : Classifier) {text : List Char} {signature : Signature}
    {e : Expr} (read : Expr.parse text signature.length = .ok e) :
    (OperandTable.classify classifier signature).Covers e := by
  intro slot referenced missing
  have below := Expr.below_of_parse read slot referenced
  rw [OperandTable.get?, List.getElem?_eq_none_iff] at missing
  simp only [OperandTable.classify, List.length_map] at missing
  omega

/-! ## Outcomes -/

namespace Resolver

variable {State : Type} {report : State → ResolutionError → Option Diagnostic × State}
  {resolver : Resolver} {target : Quantity} {definition : Definition} {state : State}
  {r : Resolution}

/-- A success is that of the outcome. -/
theorem resolveWith_eq_ok_iff :
    (resolver.resolveWith report target definition state).1 = .ok r ↔
      resolver.outcome target definition = .ok r := by
  rw [resolveWith, resolution]
  cases resolver.outcome target definition <;> simp [Except.mapError]

/-- The error is that of the outcome, whatever the report answers. -/
theorem resolveWith_of_error (report : State → ResolutionError → Option Diagnostic × State)
    (state : State) {cause : Cause} (h : resolver.outcome target definition = .error cause) :
    ∃ diagnostic, (resolver.resolveWith report target definition state).1 =
      .error ⟨⟨definition.expression, cause⟩, diagnostic⟩ := by
  rw [resolveWith, resolution, h]
  exact ⟨_, rfl⟩

/-- The outcome for a definition whose expression is read, in terms of the kept selections. -/
theorem outcome_of_parse {e : Expr}
    (read : Expr.parse definition.expression.toList definition.signature.length = .ok e) :
    let t := OperandTable.classify resolver.classifier definition.signature
    let derivations := (t.kept e).map fun c => t.derivationOf resolver.config e c.1
    resolver.outcome target definition =
      if e.kind t = .invalid then .error .incompatible
      else if derivations = [] then .error .incompatible
      else
        match targetFault? target (resolver.classifier target) (e.kind t) derivations with
        | some cause => .error cause
        | none => .ok (.ofDerivations definition derivations) := by
  intro t derivations
  have kind : e.kind (resolver.operands definition.signature e) = e.kind t :=
    (OperandTable.narrows_narrow e t).kind e
  rw [outcome, read]
  simp only [kind, derivations_eq]
  rfl

end Resolver

end QuantityAlgebra
