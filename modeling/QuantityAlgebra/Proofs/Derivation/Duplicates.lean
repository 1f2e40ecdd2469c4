import Mathlib.Data.List.Nodup
import QuantityAlgebra.Population
import QuantityAlgebra.Proofs.Derivation.Materialized
import QuantityAlgebra.Proofs.Expansion.Enumerated
import QuantityAlgebra.Proofs.Expr.Printing
import QuantityAlgebra.Resolution

/-!
# What is dropped as a duplicate

Of two tables with one concrete signature the materializer derives the first only. A concrete
signature names members, while the dimension of a derivation and the helpers in its rendered text
come from the chosen dimensions. The second table is the same as the first, so that nothing is lost,
unless a group of the tree binds the two dimensions chosen for it to one member. Then the
derivations still have the same kind, text and signature, but they may differ in everything that
depends on the dimension, and what the second says about it does not come out.

A population can hold such a group: a registration takes any members.

Results:
* **`shares_of_signatureAt_eq`**: choices with one signature differ only where a member is shared.
* `DistinctMembers.eq_of_signatureAt_eq`: where none is, the signature tells the choice.
* **`eq_or_shares_of_concreteSignature?_eq`**: the same for the tables of an expansion.
* **`duplicates_agree`**: what the derivations of duplicates have in common.
* `duplicates_disagree_on_shared_member`: that they can differ.
-/

namespace QuantityAlgebra

/-- Where no value is bound twice, no two dimensions are bound to one. -/
theorem DimensionMap.get?_inj {α : Type} {m : DimensionMap α} {d d' : Dimension} {a : α}
    (distinct : m.values.Nodup) (h : m.get? d = some a) (h' : m.get? d' = some a) : d = d' :=
  congrArg Prod.fst (List.inj_on_of_nodup_map distinct (mem_of_lookup_eq_some h)
    (mem_of_lookup_eq_some h') rfl)

namespace OperandTable

variable {t u v : OperandTable} {e : Expr} {choice other : Choice} {slot : Nat}

/-- The slot holds a group that binds one member to both dimensions. -/
def Shares (t : OperandTable) (slot : Nat) (d d' : Dimension) : Prop :=
  ∃ q members candidates member, t.get? slot = some (.group q members candidates) ∧
    members.get? d = some member ∧ members.get? d' = some member

/-- No group of the tree binds one member to two of its candidates. -/
def OneMemberEach (t : OperandTable) (e : Expr) : Prop :=
  ∀ slot ∈ t.referencedGroupSlots e, ∀ d ∈ t.candidates slot, ∀ d' ∈ t.candidates slot,
    t.Shares slot d d' → d = d'

/-- **Choices with one signature differ only where a member is shared.** -/
theorem shares_of_signatureAt_eq (membered : t.Membered) (admitted : t.Admits choice e)
    (admitted' : t.Admits other e) (same : t.signatureAt e choice = t.signatureAt e other)
    (member : slot ∈ t.referencedGroupSlots e) : t.Shares slot (choice slot) (other slot) := by
  obtain ⟨-, referenced⟩ := mem_referencedGroupSlots.mp member
  obtain ⟨q, members, candidates, found⟩ := exists_group_of_mem member
  have bound := congrArg (fun signature : Signature => signature[slot]?) same
  simp only [getElem?_signatureAt, found, Option.map_some, boundIn, if_pos referenced,
    Option.some.injEq] at bound
  have here := admitted slot member
  have there := admitted' slot member
  rw [candidates_of_get? found] at here there
  obtain ⟨a, chosen⟩ := DimensionMap.get?_of_mem_keys (membered slot _ found _ here)
  obtain ⟨a', chosen'⟩ := DimensionMap.get?_of_mem_keys (membered slot _ found _ there)
  rw [Operand.boundAt, Operand.boundAt, chosen, chosen'] at bound
  obtain rfl : a = a' := bound
  exact ⟨q, members, candidates, a, found, chosen, chosen'⟩

/-! ## Distinct members -/

/-- No group of the table binds two dimensions to one member. -/
def DistinctMembers (t : OperandTable) : Prop :=
  ∀ slot q members candidates, t.get? slot = some (.group q members candidates) →
    members.values.Nodup

theorem distinctMembers_classify {classifier : Classifier}
    (distinct : ∀ q members, classifier q = .group members → members.values.Nodup)
    (signature : Signature) : (classify classifier signature).DistinctMembers := by
  intro slot q members candidates found
  obtain ⟨declared, -, classified⟩ := List.mem_map.mp (List.mem_of_getElem? found)
  unfold Operand.classify at classified
  cases group : classifier declared with
  | group bound =>
    rw [group] at classified
    obtain ⟨-, rfl, -⟩ := Operand.group.inj classified
    exact distinct declared bound group
  | scalar | fixedVector | groupMember => rw [group] at classified; contradiction

namespace DistinctMembers

theorem eq_of_shares (distinct : t.DistinctMembers) {d d' : Dimension}
    (shared : t.Shares slot d d') : d = d' := by
  obtain ⟨q, members, candidates, member, found, bound, bound'⟩ := shared
  exact DimensionMap.get?_inj (distinct slot q members candidates found) bound bound'

/-- With distinct members what a group slot stands for tells what is chosen for it. -/
theorem eq_of_signatureAt_eq (distinct : t.DistinctMembers) (membered : t.Membered)
    (admitted : t.Admits choice e) (admitted' : t.Admits other e)
    (same : t.signatureAt e choice = t.signatureAt e other) :
    ∀ slot ∈ t.referencedGroupSlots e, choice slot = other slot := fun _ member =>
  distinct.eq_of_shares (shares_of_signatureAt_eq membered admitted admitted' same member)

end DistinctMembers

/-- Narrowing leaves members alone. -/
theorem Narrows.shares (h : t.Narrows u) {d d' : Dimension} (shared : t.Shares slot d d') :
    u.Shares slot d d' := by
  obtain ⟨q, members, candidates, member, found, bound⟩ := shared
  obtain ⟨wider, held, narrowed⟩ := h.exists_wider found
  cases narrowed with
  | group => exact ⟨q, members, _, member, held, bound⟩

/-! ## Tables with one signature -/

theorem concreteSignature?_assign (membered : t.Membered) (admitted : t.Admits choice e) :
    (t.assign e choice).concreteSignature? e = some (t.signatureAt e choice) :=
  (narrows_assign admitted).concreteSignature?_settled (settled_assign admitted) membered

/-- **Tables of an expansion with one concrete signature are the same, or a group of the tree is
down to two dimensions in them that it binds to one member.** -/
theorem eq_or_shares_of_concreteSignature?_eq (membered : t.Membered) (hu : u ∈ t.expand e)
    (hv : v ∈ t.expand e) (same : u.concreteSignature? e = v.concreteSignature? e) :
    u = v ∨ ∃ slot ∈ t.referencedGroupSlots e, ∃ d ∈ t.candidates slot, ∃ d' ∈ t.candidates slot,
      d ≠ d' ∧ u.candidates slot = .single d ∧ v.candidates slot = .single d' ∧
        t.Shares slot d d' := by
  obtain ⟨choice, admitted, rfl, -⟩ := mem_expand.mp hu
  obtain ⟨other, admitted', rfl, -⟩ := mem_expand.mp hv
  rw [concreteSignature?_assign membered admitted,
    concreteSignature?_assign membered admitted'] at same
  by_cases equal : ∀ slot ∈ t.referencedGroupSlots e, choice slot = other slot
  · exact Or.inl (assign_congr equal)
  · push Not at equal
    obtain ⟨slot, member, differ⟩ := equal
    exact Or.inr ⟨slot, member, choice slot, admitted slot member, other slot,
      admitted' slot member, differ, candidates_assign choice member,
      candidates_assign other member,
      shares_of_signatureAt_eq membered admitted admitted' (Option.some.inj same) member⟩

theorem eq_of_concreteSignature?_eq (membered : t.Membered) (oneEach : t.OneMemberEach e)
    (hu : u ∈ t.expand e) (hv : v ∈ t.expand e)
    (same : u.concreteSignature? e = v.concreteSignature? e) : u = v := by
  obtain equal | ⟨slot, member, d, held, d', held', differ, -, -, shared⟩ :=
    eq_or_shares_of_concreteSignature?_eq membered hu hv same
  · exact equal
  · exact absurd (oneEach slot member d held d' held' shared) differ

end OperandTable

namespace Resolver

open OperandTable

variable {e : Expr} {u : OperandTable} {signature s : Signature}

theorem membered_operands (resolver : Resolver) (signature : Signature) (e : Expr) :
    (resolver.operands signature e).Membered :=
  (narrows_narrow e _).membered (membered_classify resolver.classifier signature)

theorem oneMemberEach_operands {classifier : Classifier} {config : Config}
    (distinct : ∀ q members, classifier q = .group members → members.values.Nodup)
    (signature : Signature) (e : Expr) :
    (Resolver.operands ⟨classifier, config⟩ signature e).OneMemberEach e :=
  fun _ _ _ _ _ _ shared =>
    (distinctMembers_classify distinct signature).eq_of_shares
      ((narrows_narrow e _).shares shared)

/-- A table that a fresh materializer is given comes to a derivation of its concrete signature. -/
theorem step_of_mem_expand (resolver : Resolver)
    (found : u ∈ (resolver.operands signature e).expand e) :
    ∃ s, u.concreteSignature? e = some s ∧
      (Materializer.step { expr := e, config := resolver.config } u).1 =
        some (e.derivation resolver.config u s) := by
  obtain ⟨choice, admitted, rfl, -⟩ := mem_expand.mp found
  have concrete := concreteSignature?_assign (resolver.membered_operands signature e) admitted
  exact ⟨_, concrete, by rw [Materializer.step_fresh concrete List.not_mem_nil]⟩

/-- Where no member is shared, no table of the expansion is dropped for another one. -/
theorem derivation_mem_derivations (resolver : Resolver)
    (oneEach : (resolver.operands signature e).OneMemberEach e)
    (found : u ∈ (resolver.operands signature e).expand e)
    (concrete : u.concreteSignature? e = some s) :
    e.derivation resolver.config u s ∈ resolver.derivations signature e := by
  obtain ⟨⟨v, s⟩, first, rfl⟩ :
      ∃ c ∈ distinctBy Prod.snd (resolved e ((resolver.operands signature e).expand e)), c.2 = s :=
    exists_mem_distinctBy (mem_resolved.mpr ⟨found, concrete⟩)
  obtain ⟨held, concrete'⟩ := mem_resolved.mp (mem_of_mem_distinctBy first)
  obtain rfl : u = v := eq_of_concreteSignature?_eq (resolver.membered_operands signature e)
    oneEach found held (concrete.trans concrete'.symm)
  rw [derivations, Materializer.all_eq]
  exact List.mem_map.mpr ⟨_, List.mem_filter.mpr ⟨first, decide_eq_true List.not_mem_nil⟩, rfl⟩

/-- **Duplicates differ only where a member is shared.** Two tables of an expansion with one
concrete signature come to derivations of the same kind, text and signature, and to the same
derivation unless a group of the tree is down to two dimensions in them that it binds to one member.
Where no group of the tree does that for two of its candidates, every table of the expansion comes
out. -/
theorem duplicates_agree (resolver : Resolver) (signature : Signature) (e : Expr) :
    let t := resolver.operands signature e
    let fresh : Materializer := { expr := e, config := resolver.config }
    (∀ u ∈ t.expand e, ∀ v ∈ t.expand e, u.concreteSignature? e = v.concreteSignature? e →
        ∃ x y, (fresh.step u).1 = some x ∧ (fresh.step v).1 = some y ∧
          x.kind = y.kind ∧ x.expression = y.expression ∧ x.signature = y.signature ∧
          (x = y ∨ ∃ slot ∈ t.referencedGroupSlots e,
            ∃ d ∈ t.candidates slot, ∃ d' ∈ t.candidates slot, d ≠ d' ∧
              u.candidates slot = .single d ∧ v.candidates slot = .single d' ∧
              t.Shares slot d d')) ∧
      (t.OneMemberEach e → ∀ u ∈ t.expand e,
        ∃ x ∈ resolver.derivations signature e, (fresh.step u).1 = some x) := by
  intro t fresh
  constructor
  · intro u hu v hv same
    obtain ⟨s, concrete, stepped⟩ := resolver.step_of_mem_expand hu
    obtain ⟨s', concrete', stepped'⟩ := resolver.step_of_mem_expand hv
    obtain rfl : s = s' := Option.some.inj (concrete.symm.trans (same.trans concrete'))
    have kind : e.kind u = e.kind v :=
      ((narrows_of_mem_expand hu).kind e).trans ((narrows_of_mem_expand hv).kind e).symm
    refine ⟨_, _, stepped, stepped', kind, rfl, rfl, ?_⟩
    refine (eq_or_shares_of_concreteSignature?_eq (resolver.membered_operands signature e) hu hv
      same).imp_left fun equal => ?_
    rw [equal]
  · intro oneEach u found
    obtain ⟨s, concrete, stepped⟩ := resolver.step_of_mem_expand found
    exact ⟨_, resolver.derivation_mem_derivations oneEach found concrete, stepped⟩

/-- A group of dimensions two and three, once with one member for both and once with two. -/
theorem duplicates_agree_dot_product :
    let position : Quantity := ⟨"m", "Position"⟩
    let plane : Quantity := ⟨"m", "Plane"⟩
    let space : Quantity := ⟨"m", "Space"⟩
    let resolver (third : Quantity) : Resolver :=
      ⟨fun q => if q = position then .group (.ofList [(2, plane), (3, third)]) else .scalar, {}⟩
    let e : Expr := .binary .dot (.slot 0) (.slot 0)
    let fresh : Materializer := { expr := e, config := {} }
    let t := (resolver plane).operands [position] e
    let u := (resolver space).operands [position] e
    t.fix 0 2 ∈ t.expand e ∧ t.fix 0 3 ∈ t.expand e ∧
      (t.fix 0 2).concreteSignature? e = (t.fix 0 3).concreteSignature? e ∧
      (∃ x y, (fresh.step (t.fix 0 2)).1 = some x ∧ (fresh.step (t.fix 0 3)).1 = some y ∧
        x.kind = y.kind ∧ x.expression = y.expression ∧ x.signature = y.signature) ∧
      u.OneMemberEach e ∧ u.fix 0 3 ∈ u.expand e ∧
      ∃ x ∈ (resolver space).derivations [position] e, (fresh.step (u.fix 0 3)).1 = some x := by
  intro position plane space resolver e fresh t u
  have first : t.fix 0 2 ∈ t.expand e := by decide
  have second : t.fix 0 3 ∈ t.expand e := by decide
  have same : (t.fix 0 2).concreteSignature? e = (t.fix 0 3).concreteSignature? e := by decide
  have distinct : (DimensionMap.ofList [(2, plane), (3, space)]).values.Nodup := by decide
  have oneEach : u.OneMemberEach e := by
    refine oneMemberEach_operands (fun q members grouped => ?_) [position] e
    by_cases group : q = position
    · rw [if_pos group] at grouped
      exact Classification.group.inj grouped ▸ distinct
    · rw [if_neg group] at grouped
      cases grouped
  have found : u.fix 0 3 ∈ u.expand e := by decide
  obtain ⟨x, y, hx, hy, kind, text, signature, -⟩ :=
    (duplicates_agree (resolver plane) [position] e).1 _ first _ second same
  exact ⟨first, second, same, ⟨x, y, hx, hy, kind, text, signature⟩, oneEach, found,
    (duplicates_agree (resolver space) [position] e).2 oneEach _ found⟩

/-- A population can hold a group with one member for two dimensions. Over it the two tables of a
product have one concrete signature and are verified, yet the derivations differ in dimension and in
the helper that is called, and the second one is not in the outcome. -/
theorem duplicates_disagree_on_shared_member :
    let position : Quantity := ⟨"m", "Position"⟩
    let place : Quantity := ⟨"m", "Place"⟩
    let population : Population :=
      Population.run {} [.addGroup position (.ofList [(2, place), (3, place)])]
    let resolver : Resolver := { classifier := population.classify }
    let e : Expr := .binary .mul (.binary .dot (.slot 0) (.slot 0)) (.slot 0)
    let fresh : Materializer := { expr := e, config := resolver.config }
    let t := resolver.operands [position] e
    let derivation (d : Dimension) (rendered : String) : Derivation :=
      ⟨"({0} . {0}) * {0}", rendered, [place], .vector, some d⟩
    Expr.parse "({0} . {0}) * {0}".toList 1 = .ok e ∧
      t.expand e = [t.fix 0 2, t.fix 0 3] ∧
      (t.fix 0 2).concreteSignature? e = some [place] ∧
      (t.fix 0 3).concreteSignature? e = some [place] ∧
      (fresh.step (t.fix 0 2)).1 = some (derivation 2 "PureScalarMaths.Dot2({0}, {0}) * {0}") ∧
      (fresh.step (t.fix 0 3)).1 = some (derivation 3 "PureScalarMaths.Dot3({0}, {0}) * {0}") ∧
      resolver.derivations [position] e = [derivation 2 "PureScalarMaths.Dot2({0}, {0}) * {0}"] ∧
      derivation 3 "PureScalarMaths.Dot3({0}, {0}) * {0}" ∉ resolver.derivations [position] e := by
  intro position place population resolver e fresh t derivation
  have read : Expr.parse "({0} . {0}) * {0}".toList 1 = .ok e :=
    Expr.parse_of_eq_displayOuter (by decide) (by decide)
  exact ⟨read, by decide, by decide, by decide, by decide, by decide, by decide, by decide⟩

end Resolver

end QuantityAlgebra
