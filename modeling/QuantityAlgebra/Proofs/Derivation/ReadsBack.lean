import QuantityAlgebra.Proofs.Resolution.WellFormed

/-!
# Derivations read back

The text of a derivation is the canonical text of the tree it was made from, and its signature has a
quantity for every slot of the table. So the text reads, over the signature, as that very tree,
whether a single table was turned into a derivation or a whole definition was resolved.

Results:
* `read_of_step`: of one table.
* `read_of_mem_derivations`: of a definition that resolves.
* **`canonical_texts_read_back`**: the canonical texts of trees and of derivations read back, and
  different trees have different ones.
-/

namespace QuantityAlgebra

/-- What the text of a derivation reads as over its signature. -/
def Derivation.read (x : Derivation) : Except ParseError Expr :=
  Expr.parse x.expression.toList x.signature.length

theorem Expr.read_derivation {config : Config} {t : OperandTable} {signature : Signature} {e : Expr}
    (below : e.Below signature.length) : (e.derivation config t signature).read = .ok e := by
  rw [Derivation.read, derivation, String.toList_ofList]
  exact parse_displayOuter below

theorem OperandTable.length_concreteSignature? {t : OperandTable} {e : Expr} {signature : Signature}
    (h : t.concreteSignature? e = some signature) : signature.length = t.operands.length := by
  rw [← (mapM_eq_some_iff.mp h).length_eq, List.length_zipIdx]

theorem OperandTable.Covers.below {t : OperandTable} {e : Expr} (covers : t.Covers e) :
    e.Below t.operands.length := fun slot found =>
  Nat.lt_of_not_le fun beyond => covers slot found (List.getElem?_eq_none_iff.mpr beyond)

/-- The derivation of one table reads back. -/
theorem Materializer.read_of_step {m : Materializer} {t : OperandTable} {x : Derivation}
    (covers : t.Covers m.expr) (h : (m.step t).1 = some x) : x.read = .ok m.expr := by
  -- A table that is open or was met before makes no derivation.
  obtain ⟨-, stepped⟩ | ⟨s, -, -, stepped⟩ | ⟨s, -, concrete, stepped⟩ := m.step_cases t <;>
    rw [stepped] at h
  · contradiction
  · contradiction
  · obtain rfl := Option.some.inj h
    refine Expr.read_derivation ?_
    rw [OperandTable.length_concreteSignature? concrete]
    exact covers.below

namespace Resolver

variable {State : Type} {report : State → ResolutionError → Option Diagnostic × State}
  {resolver : Resolver} {target : Quantity} {definition : Definition} {state : State} {e : Expr}
  {x : Derivation} {r : Resolution}

/-- A derivation of a definition reads back as the tree of the definition. -/
theorem read_of_mem_derivations {signature : Signature} {text : List Char}
    (read : Expr.parse text signature.length = .ok e)
    (derived : x ∈ resolver.derivations signature e) : x.read = .ok e := by
  have length := length_signature_of_mem derived
  obtain ⟨dims, τ, -, rfl⟩ := exists_types_of_mem read derived
  refine Expr.read_derivation ?_
  rw [show (OperandTable.signatureOf _ e dims).length = signature.length from length]
  exact Expr.below_of_parse read

end Resolver

/-- **Canonical texts read back.** Over any number of operands above its slots, the canonical text
of a tree reads as the tree, with and without its outermost parentheses. So the text of a derivation
reads, over its signature, as the tree the derivation was made from, be it made from one table or by
resolving a definition; and different trees have different texts. -/
theorem canonical_texts_read_back :
    (∀ (e : Expr) (operands : Nat), (∀ slot, e.references slot = true → slot < operands) →
      Expr.parse e.display operands = .ok e ∧ Expr.parse e.displayOuter operands = .ok e) ∧
    (∀ (m : Materializer) (t : OperandTable) (x : Derivation), t.Covers m.expr →
      (m.step t).1 = some x → x.read = .ok m.expr) ∧
    (∀ (State : Type) (report : State → ResolutionError → Option Diagnostic × State)
        (resolver : Resolver) (target : Quantity) (definition : Definition) (state : State)
        (r : Resolution), (resolver.resolveWith report target definition state).1 = .ok r →
      ∃ e, Expr.parse definition.expression.toList definition.signature.length = .ok e ∧
        ∀ x ∈ r.derivations, x.read = .ok e) ∧
    Function.Injective Expr.display ∧ Function.Injective Expr.displayOuter := by
  refine ⟨fun e operands below => ⟨Expr.parse_display below, Expr.parse_displayOuter below⟩,
    fun m t x covers made => Materializer.read_of_step covers made, ?_,
    Expr.display_injective, Expr.displayOuter_injective⟩
  intro State report resolver target definition state r success
  obtain ⟨e, succeeds⟩ := Resolver.succeeds_of_outcome (Resolver.resolveWith_eq_ok_iff.mp success)
  refine ⟨e, succeeds.read, fun x held => ?_⟩
  have derived := (Resolution.perm_ofDerivations definition _).mem_iff.mp
    (succeeds.eq_ofDerivations ▸ held)
  exact Resolver.read_of_mem_derivations succeeds.read derived

/-- A product of two sums, in which one slot occurs twice, over a table and over a population. -/
theorem canonical_texts_read_back_product :
    let e : Expr :=
      .binary .dot (.binary .add (.slot 0) (.slot 1)) (.binary .mul (.slot 2) (.slot 0))
    let classifier : Classifier := fun q =>
      if q.name = "Position" then
        .group (.ofList [(2, ⟨"m", "Position2"⟩), (3, ⟨"m", "Position3"⟩)])
      else if q.name = "Offset3" then .fixedVector 3
      else .scalar
    let resolver : Resolver := ⟨classifier, {}⟩
    let definition : Definition := ⟨"({0} + {1}) . ({2} * {0})",
      [⟨"m", "Position"⟩, ⟨"m", "Offset3"⟩, ⟨"m", "Factor"⟩], .none, false⟩
    let t : OperandTable :=
      ⟨[.vector ⟨"m", "Position3"⟩ 3, .vector ⟨"m", "Offset3"⟩ 3, .scalar ⟨"m", "Factor"⟩]⟩
    Expr.parse e.display 3 = .ok e ∧ Expr.parse e.displayOuter 3 = .ok e ∧
      (∃ x, (Materializer.step { expr := e, config := {} } t).1 = some x ∧ x.read = .ok e) ∧
      Expr.parse definition.expression.toList definition.signature.length = .ok e ∧
      ∃ r, (resolver.resolveWith Sink.report ⟨"m", "Area"⟩ definition .silent).1 = .ok r ∧
        r.size = 1 ∧ ∀ x ∈ r.derivations, x.read = .ok e := by
  intro e classifier resolver definition t
  obtain ⟨trees, tables, definitions, -⟩ := canonical_texts_read_back
  have below : e.Below 3 := by decide
  have covers : t.Covers e := by
    intro slot found missing
    have := below slot found
    rw [OperandTable.get?, List.getElem?_eq_none_iff] at missing
    simp [t] at missing
    omega
  have read : Expr.parse definition.expression.toList definition.signature.length = .ok e :=
    Expr.parse_of_eq_displayOuter (by decide) below
  have succeeds : resolver.Succeeds ⟨"m", "Area"⟩ definition e _ :=
    ⟨read, by decide, by decide, by decide, rfl⟩
  have resolved : (resolver.resolveWith Sink.report ⟨"m", "Area"⟩ definition .silent).1 = .ok _ :=
    Resolver.resolveWith_eq_ok_iff.mpr succeeds.outcome
  obtain ⟨e', read', readsBack⟩ := definitions _ _ _ _ _ _ _ resolved
  obtain rfl : e = e' := Except.ok.inj (read.symm.trans read')
  refine ⟨(trees e 3 below).1, (trees e 3 below).2, ⟨_, rfl, ?_⟩, read, _, resolved, by decide,
    readsBack⟩
  exact tables { expr := e, config := {} } t _ covers rfl

end QuantityAlgebra
