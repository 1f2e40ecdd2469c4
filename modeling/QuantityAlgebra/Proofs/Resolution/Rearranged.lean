import Mathlib.Logic.Relation
import QuantityAlgebra.Proofs.Resolution.Comparison

/-!
# Operands in another order

Swapping the operands of an operation other than a quotient, and regrouping a sum or a product of
three, change a tree, its text and the order in which everything is inferred and narrowed. They
change nothing about what the tree means: as a partial operation on types, every operator but the
quotient is commutative, the sum and the product are associative, and the slots referred to are the
same. So the same selections count, and what is derived differs in its text alone.

Results:
* `combine?_comm`, `combine?_assoc`: the laws of the operators on types.
* **`Rearranged.typeAt?`**, `Rearranged.references`: what a rearranged tree keeps, from what one
  step keeps.
* **`kept_of_rearranged`**: so the same selections count.
* **`resolveWith_rearranged`**: rearranged definitions resolve to the same signatures, kinds and
  dimensions, or fail with the same code.
-/

namespace QuantityAlgebra

/-! ## Rearranged trees -/

/-- One operation of the tree is written another way: its operands are swapped, unless it is a
quotient, or a sum or a product of three is regrouped. -/
inductive Expr.Rearranges : Expr → Expr → Prop
  | swap {op : BinaryOp} (lhs rhs : Expr) :
      op ≠ .div → Rearranges (.binary op lhs rhs) (.binary op rhs lhs)
  | regroup {op : BinaryOp} (first second third : Expr) :
      op = .add ∨ op = .mul →
      Rearranges (.binary op (.binary op first second) third)
        (.binary op first (.binary op second third))
  | left (op : BinaryOp) {lhs lhs' : Expr} (rhs : Expr) :
      Rearranges lhs lhs' → Rearranges (.binary op lhs rhs) (.binary op lhs' rhs)
  | right (op : BinaryOp) (lhs : Expr) {rhs rhs' : Expr} :
      Rearranges rhs rhs' → Rearranges (.binary op lhs rhs) (.binary op lhs rhs')

/-- Any number of operations are written another way, there or back. -/
def Expr.Rearranged : Expr → Expr → Prop := Relation.EqvGen Expr.Rearranges

namespace ExprType

/-- Only a quotient tells its operands apart. -/
theorem combine?_comm {op : BinaryOp} (notDiv : op ≠ .div) (σ ρ : ExprType) :
    combine? op σ ρ = combine? op ρ σ := by
  cases op with
  | div => exact absurd rfl notDiv
  | add | sub | dot =>
    cases σ <;> cases ρ <;> simp only [combine?, eq_comm]
    all_goals split <;> simp_all
  | mul => cases σ <;> cases ρ <;> rfl
  | cross => cases σ <;> cases ρ <;> simp only [combine?, and_comm]

theorem combine?_assoc {op : BinaryOp} (associative : op = .add ∨ op = .mul) (σ ρ τ : ExprType) :
    ((combine? op σ ρ).bind fun left => combine? op left τ) =
      (combine? op ρ τ).bind fun right => combine? op σ right := by
  rcases associative with rfl | rfl
  · by_cases left : σ = ρ <;> by_cases right : ρ = τ <;> simp_all [combine?]
  · cases σ <;> cases ρ <;> cases τ <;> rfl

end ExprType

namespace Expr

variable {t : OperandTable} {choice : Choice} {e f : Expr} {slot : Nat}

/-- One step changes no type. -/
theorem Rearranges.typeAt? (h : e.Rearranges f) (t : OperandTable) (choice : Choice) :
    e.typeAt? t choice = f.typeAt? t choice := by
  induction h with
  | swap lhs rhs notDiv =>
    simp only [Expr.typeAt?]
    cases lhs.typeAt? t choice <;> cases rhs.typeAt? t choice <;>
      simp [ExprType.combine?_comm notDiv]
  | @regroup op first second third associative =>
    simp only [Expr.typeAt?]
    cases first.typeAt? t choice <;> cases second.typeAt? t choice <;>
      cases third.typeAt? t choice <;> simp [ExprType.combine?_assoc associative]
  | left op rhs _ ih | right op lhs _ ih => simp only [Expr.typeAt?, ih]

/-- One step changes no slot that is referred to. -/
theorem Rearranges.references (h : e.Rearranges f) (slot : Nat) :
    e.references slot = f.references slot := by
  induction h with
  | swap => exact Bool.or_comm _ _
  | regroup => exact Bool.or_assoc _ _ _
  | left op rhs _ ih | right op lhs _ ih => simp only [Expr.references, ih]

/-- What one step keeps is kept by any number. -/
theorem Rearranged.invariant {α : Type} {view : Expr → α} (h : e.Rearranged f)
    (kept : ∀ e f, e.Rearranges f → view e = view f) : view e = view f := by
  induction h with
  | rel e f step => exact kept e f step
  | refl => rfl
  | symm _ _ _ ih => exact ih.symm
  | trans _ _ _ _ _ first second => exact first.trans second

/-- **Rearranged trees have the same type** under every choice. -/
theorem Rearranged.typeAt? (h : e.Rearranged f) (t : OperandTable) (choice : Choice) :
    e.typeAt? t choice = f.typeAt? t choice :=
  h.invariant fun _ _ step => step.typeAt? t choice

theorem Rearranged.references (h : e.Rearranged f) (slot : Nat) :
    e.references slot = f.references slot :=
  h.invariant fun _ _ step => step.references slot

end Expr

/-! ## What counts -/

namespace OperandTable

variable {t : OperandTable} {e f : Expr} {dims : List Dimension} {τ : ExprType}

theorem referencedGroupSlots_of_rearranged (h : e.Rearranged f) (t : OperandTable) :
    t.referencedGroupSlots e = t.referencedGroupSlots f :=
  referencedGroupSlots_congr fun slot => by
    rw [mem_referencedGroupSlots, mem_referencedGroupSlots, h.references]

theorem types_of_rearranged (h : e.Rearranged f) : t.Types e dims τ ↔ t.Types f dims τ :=
  types_congr (referencedGroupSlots_of_rearranged h t) (fun _ _ => rfl) fun choice => by
    rw [← Expr.typeAt?_eq_some, h.typeAt?, Expr.typeAt?_eq_some]

theorem signatureOf_of_rearranged (h : e.Rearranged f) (t : OperandTable)
    (dims : List Dimension) : t.signatureOf e dims = t.signatureOf f dims := by
  have bound (choice : Choice) : boundIn e choice = boundIn f choice := by
    funext slot operand
    rw [boundIn, boundIn, h.references]
  rw [signatureOf, signatureOf, signatureAt, signatureAt, choiceOf, choiceOf,
    referencedGroupSlots_of_rearranged h, bound]

/-- **The same selections count**, with the same types and in the same order. -/
theorem kept_of_rearranged (h : e.Rearranged f) (ascending : t.Ascending) (covers : t.Covers e)
    (covers' : t.Covers f) : t.kept e = t.kept f :=
  kept_congr ascending covers ascending covers' (fun _ _ => types_of_rearranged h)
    fun earlier dims => by
      rw [signatureOf_of_rearranged h t earlier, signatureOf_of_rearranged h t dims]

end OperandTable

/-! ## What is derived -/

/-- A derivation without its texts. -/
def Derivation.label (x : Derivation) : Signature × Kind × Option Dimension :=
  (x.signature, x.kind, x.dimension)

/-- The two list the same signatures, kinds and dimensions, in the same places and order. -/
structure Resolution.SameLabels (r r' : Resolution) : Prop where
  scalar : r.scalar.map Derivation.label = r'.scalar.map Derivation.label
  vector : ∀ d, (r.bucket d).map Derivation.label = (r'.bucket d).map Derivation.label

/-- The labels of what describes selections are read off the selections. -/
theorem map_label_of_describes {t : OperandTable} {e : Expr} {derivations : List Derivation}
    {kept : List (List Dimension × ExprType)}
    (h : List.Forall₂ (Describes t e) derivations kept) :
    derivations.map Derivation.label =
      kept.map fun c => (t.signatureOf e c.1, c.2.kind, c.2.dimension?) := by
  induction h with
  | nil => rfl
  | cons described _ ih =>
    rw [List.map_cons, List.map_cons, ih, Derivation.label, described.signature, described.kind,
      described.dimension]

/-- **Lists of the same selections carry the same labels.** -/
theorem Resolution.Lists.sameLabels {t : OperandTable} {e f : Expr} {r r' : Resolution}
    {kept kept' : List (List Dimension × ExprType)} (listed : r.Lists t e kept)
    (listed' : r'.Lists t f kept') (same : kept = kept')
    (signature : t.signatureOf e = t.signatureOf f) : r.SameLabels r' := by
  subst same
  refine ⟨?_, fun d => ?_⟩
  · rw [map_label_of_describes listed.scalar, map_label_of_describes listed'.scalar, signature]
  · rw [map_label_of_describes (listed.vector d), map_label_of_describes (listed'.vector d),
      signature]

namespace Resolver

variable {State : Type} {resolver : Resolver} {definition definition' : Definition} {e f : Expr}

/-- **Rearranging operands does not change what is derived.** Two definitions over one signature
whose texts read as rearranged trees both resolve, and then list the same signatures, kinds and
dimensions in the same order, or both fail with one code. -/
theorem resolveWith_rearranged {operands operands' : Nat}
    (report : State → ResolutionError → Option Diagnostic × State) (target : Quantity)
    (state : State) (read : Expr.parse definition.expression.toList operands = .ok e)
    (read' : Expr.parse definition'.expression.toList operands' = .ok f)
    (rearranged : e.Rearranged f) (signature : definition'.signature = definition.signature) :
    Alike Resolution.SameLabels (resolver.resolveWith report target definition state).1
      (resolver.resolveWith report target definition' state).1 := by
  obtain ⟨text', signature', policy', permutations'⟩ := definition'
  obtain rfl : signature' = definition.signature := signature
  have below : e.Below definition.signature.length ↔ f.Below definition.signature.length := by
    simp only [Expr.Below, rearranged.references]
  have ascending := OperandTable.ascending_classify resolver.classifier definition.signature
  have covers {g : Expr} (inRange : g.Below definition.signature.length) :
      (OperandTable.classify resolver.classifier definition.signature).Covers g :=
    covers_classify_of_below resolver.classifier inRange
  have kept (inRange : e.Below definition.signature.length) :=
    OperandTable.kept_of_rearranged rearranged ascending (covers inRange)
      (covers (below.mp inRange))
  refine alike_of_resultsIn report target state read read' below (fun inRange τ => ?_)
    fun inRange => ?_
  · rw [OperandTable.resultsIn_iff ascending (covers inRange),
      OperandTable.resultsIn_iff ascending (covers (below.mp inRange)), kept inRange]
  · have listed := Resolution.lists_ofDerivations ascending (covers inRange) definition
      resolver.config
    have listed' := Resolution.lists_ofDerivations ascending (covers (below.mp inRange))
      ⟨text', definition.signature, policy', permutations'⟩ resolver.config
    rw [derivations_eq, derivations_eq]
    exact listed.sameLabels listed' (kept inRange)
      (funext (OperandTable.signatureOf_of_rearranged rearranged _))

/-- A sum of three groups times a scalar: the product is swapped, and the sum regrouped, swapped and
regrouped again. -/
theorem resolveWith_rearranged_product :
    let classifier : Classifier := fun q =>
      if q.name = "Position" then
        .group (.ofList [(2, ⟨"m", "Position2"⟩), (3, ⟨"m", "Position3"⟩)])
      else if q.name = "Offset" then
        .group (.ofList [(2, ⟨"m", "Offset2"⟩), (3, ⟨"m", "Offset3"⟩), (4, ⟨"m", "Offset4"⟩)])
      else .scalar
    let resolver : Resolver := ⟨classifier, {}⟩
    let signature : Signature :=
      [⟨"m", "Position"⟩, ⟨"m", "Offset"⟩, ⟨"m", "Position"⟩, ⟨"m", "Factor"⟩]
    let definition : Definition := ⟨"(({0} + {1}) + {2}) * {3}", signature, .none, false⟩
    let definition' : Definition := ⟨"{3} * ({1} + ({2} + {0}))", signature, .all, true⟩
    (∃ r, (resolver.resolveWith Sink.report ⟨"m", "Position"⟩ definition .silent).1 = .ok r ∧
        r.size = 2) ∧
      Alike Resolution.SameLabels
        (resolver.resolveWith Sink.report ⟨"m", "Position"⟩ definition .silent).1
        (resolver.resolveWith Sink.report ⟨"m", "Position"⟩ definition' .silent).1 := by
  intro classifier resolver signature definition definition'
  let e : Expr :=
    .binary .mul (.binary .add (.binary .add (.slot 0) (.slot 1)) (.slot 2)) (.slot 3)
  let f : Expr :=
    .binary .mul (.slot 3) (.binary .add (.slot 1) (.binary .add (.slot 2) (.slot 0)))
  have read : Expr.parse definition.expression.toList definition.signature.length = .ok e :=
    Expr.parse_of_eq_displayOuter (by decide) (by decide)
  have read' : Expr.parse definition'.expression.toList definition'.signature.length = .ok f :=
    Expr.parse_of_eq_displayOuter (by decide) (by decide)
  have rearranged : e.Rearranged f := by
    refine .trans _ _ _ (.rel _ _ (.swap _ _ (by decide))) ?_
    refine .trans _ _ _ (.rel _ _ (.right _ _ (.regroup _ _ _ (.inl rfl)))) ?_
    refine .trans _ _ _ (.rel _ _ (.right _ _ (.swap _ _ (by decide)))) ?_
    exact .rel _ _ (.right _ _ (.regroup _ _ _ (.inl rfl)))
  have succeeds : resolver.Succeeds ⟨"m", "Position"⟩ definition e _ :=
    ⟨read, by decide, by decide, by decide, rfl⟩
  exact ⟨⟨_, resolveWith_eq_ok_iff.mpr succeeds.outcome, by decide⟩,
    resolveWith_rearranged Sink.report _ _ read read' rearranged rfl⟩

end Resolver

end QuantityAlgebra
