import QuantityAlgebra.Proofs.Typing.Consistency

/-!
# Narrowing loses no choice

A choice is admitted by a table for a tree if each group slot that the tree refers to still has the
chosen dimension among its candidates. `Expr.narrow` takes candidates away before any choice is
made; here it is shown to take away none that an accepted choice needs.

What carries the argument is that inferred dimensions are bounds. Under an admitted choice the
dimension of a vector is among the dimensions inferred for it (`within_dimensions`), so it is in
every set that a node limits its sides to, and a limit passed down to a slot holds the dimension
chosen there (`spares_limit`). A cross product is limited only by sets without dimension three; no
type fits such a set, so this case does not occur under a choice.

The table changes while the tree is gone through. Types are taken over the table `u` at the start,
which every later one narrows.

Results:
* `spares_narrow`: narrowing keeps every candidate that an accepted, admitted choice takes.
* **`admits_narrow_iff`**: so it admits the same accepted choices as before.
-/

namespace QuantityAlgebra

variable {t u v : OperandTable} {choice : Choice} {e lhs rhs : Expr} {op : BinaryOp} {τ : ExprType}
  {s : DimensionSet}

/-- Something of the type has its dimension, if it has one, in the set. -/
def ExprType.Within (s : DimensionSet) (τ : ExprType) : Prop := ∀ d, τ = .vector d → d ∈ s

theorem ExprType.within_scalar : scalar.Within s := fun _ h => nomatch h

theorem ExprType.within_vector {d : Dimension} : (vector d).Within s ↔ d ∈ s :=
  ⟨fun h => h d rfl, fun h _ same => by cases same; exact h⟩

namespace OperandTable

/-- Each group slot the tree refers to has the chosen dimension among its candidates. -/
def Admits (t : OperandTable) (choice : Choice) (e : Expr) : Prop :=
  ∀ slot ∈ t.referencedGroupSlots e, choice slot ∈ t.candidates slot

namespace Admits

theorem left (h : t.Admits choice (.binary op lhs rhs)) : t.Admits choice lhs :=
  fun slot found => h slot (mem_referencedGroupSlots_left found)

theorem right (h : t.Admits choice (.binary op lhs rhs)) : t.Admits choice rhs :=
  fun slot found => h slot (mem_referencedGroupSlots_right found)

end Admits

/-- Of the chosen dimensions that are candidates in `t`, all are candidates in `v`. -/
def Spares (choice : Choice) (t v : OperandTable) : Prop :=
  ∀ slot, choice slot ∈ t.candidates slot → choice slot ∈ v.candidates slot

theorem Spares.refl (t : OperandTable) : Spares choice t t := fun _ h => h

theorem Spares.trans {w : OperandTable} (h : Spares choice t v) (h' : Spares choice v w) :
    Spares choice t w :=
  fun slot held => h' slot (h slot held)

/-- What spares the choice admits it. -/
theorem Spares.admits (h : Spares choice t v) (narrowed : v.Narrows t)
    (admitted : t.Admits choice e) : v.Admits choice e := fun slot found =>
  h slot (admitted slot (narrowed.referencedGroupSlots e ▸ found))

end OperandTable

open OperandTable

/-- **Inferred dimensions are bounds**: under an admitted choice they hold the dimension of the
tree. -/
theorem within_dimensions (typed : HasType u choice e τ) (narrowed : t.Narrows u)
    (admitted : t.Admits choice e) : τ.Within (e.dimensions t) := by
  induction typed with
  | @slot index operand found =>
    obtain ⟨kept, held, narrower⟩ := narrowed.of_get? found
    simp only [Expr.dimensions, held, Option.map_some, Option.getD_some]
    cases narrower with
    | scalar => exact ExprType.within_scalar
    | vector q d => exact ExprType.within_vector.mpr (DimensionSet.mem_single.mpr rfl)
    | group =>
      have chosen := admitted index (mem_referencedGroupSlots_slot held)
      rw [candidates_of_get? held] at chosen
      exact ExprType.within_vector.mpr chosen
  | one => exact ExprType.within_scalar
  | add _ _ ihl ihr | sub _ _ ihl ihr =>
    exact fun d same =>
      DimensionSet.mem_inter.mpr ⟨ihl admitted.left d same, ihr admitted.right d same⟩
  | scaleRight _ _ _ ihr =>
    exact fun d same => DimensionSet.mem_union.mpr (Or.inr (ihr admitted.right d same))
  | scaleLeft _ _ ihl _ =>
    exact fun d same => DimensionSet.mem_union.mpr (Or.inl (ihl admitted.left d same))
  | div _ _ ihl _ => exact ihl admitted.left
  | dot => exact ExprType.within_scalar
  | cross _ _ ihl ihr =>
    have left := ExprType.within_vector.mp (ihl admitted.left)
    have right := ExprType.within_vector.mp (ihr admitted.right)
    exact ExprType.within_vector.mpr (DimensionSet.mem_inter.mpr
      ⟨DimensionSet.mem_inter.mpr ⟨DimensionSet.mem_single.mpr rfl, left⟩, right⟩)

/-! ## Limits -/

/-- A limit on a slot spares the choice if it holds the dimension chosen there. -/
theorem spares_restrict {index : Nat}
    (held : choice index ∈ t.candidates index → choice index ∈ s) :
    Spares choice t (t.restrict index s) := fun slot h =>
  mem_candidates_restrict.mpr ⟨h, fun same => by subst same; exact held h⟩

theorem spares_limit (typed : HasType u choice e τ) (narrowed : t.Narrows u) (within : τ.Within s) :
    Spares choice t (e.limit s t) := by
  induction typed generalizing t with
  | @slot index operand found =>
    obtain ⟨kept, held, narrower⟩ := narrowed.of_get? found
    refine spares_restrict fun h => ?_
    rw [candidates_of_get? held] at h
    cases narrower with
    | scalar | vector => exact absurd h (DimensionSet.not_mem_empty _)
    | group => exact ExprType.within_vector.mp within
  | one => exact Spares.refl t
  | add _ _ ihl ihr | sub _ _ ihl ihr =>
    exact (ihl narrowed within).trans (ihr ((narrows_limit _ s t).trans narrowed) within)
  | scaleRight _ _ ihl ihr =>
    exact (ihl narrowed ExprType.within_scalar).trans
      (ihr ((narrows_limit _ s t).trans narrowed) within)
  | scaleLeft _ _ ihl ihr =>
    exact (ihl narrowed within).trans
      (ihr ((narrows_limit _ s t).trans narrowed) ExprType.within_scalar)
  | div _ _ ihl _ => exact ihl narrowed within
  | dot => exact Spares.refl t
  | cross =>
    rw [Expr.limit, if_pos (ExprType.within_vector.mp within)]
    exact Spares.refl t

/-- Limiting both sides of a type to what they share spares the choice. -/
theorem spares_common {σ : ExprType} (l : HasType u choice lhs σ) (r : HasType u choice rhs σ)
    (narrowed : t.Narrows u) (left : t.Admits choice lhs) (right : t.Admits choice rhs) :
    Spares choice t (rhs.limit (lhs.dimensions t ∩ rhs.dimensions t)
      (lhs.limit (lhs.dimensions t ∩ rhs.dimensions t) t)) := by
  have within : σ.Within (lhs.dimensions t ∩ rhs.dimensions t) := fun d same =>
    DimensionSet.mem_inter.mpr
      ⟨within_dimensions l narrowed left d same, within_dimensions r narrowed right d same⟩
  exact (spares_limit l narrowed within).trans
    (spares_limit r ((narrows_limit _ _ t).trans narrowed) within)

/-! ## Narrowing -/

/-- What a node does to the table spares every choice under which it has a type. -/
theorem spares_narrowNode (typed : HasType u choice (.binary op lhs rhs) τ) (narrowed : t.Narrows u)
    (admitted : t.Admits choice (.binary op lhs rhs)) :
    Spares choice t (Expr.narrowNode op lhs rhs t) := by
  cases typed with
  | add l r | sub l r | dot l r => exact spares_common l r narrowed admitted.left admitted.right
  | scaleRight | scaleLeft | div | cross => exact Spares.refl t

/-- **Narrowing spares every typed choice** the table admits. -/
theorem spares_narrow_of_hasType (typed : HasType u choice e τ) (narrowed : t.Narrows u)
    (admitted : t.Admits choice e) : Spares choice t (e.narrow t) := by
  induction e generalizing t τ with
  | slot | one => exact Spares.refl t
  | binary op lhs rhs ihl ihr =>
    obtain ⟨σ, ρ, l, r, -⟩ := hasType_binary_iff.mp typed
    have node := spares_narrowNode typed narrowed admitted
    have atNode := narrows_narrowNode op lhs rhs t
    have afterLeft := (narrows_narrow lhs _).trans atNode
    -- Each side is narrowed over a table that has spared the choice so far.
    have left := node.trans (ihl l (atNode.trans narrowed) (node.admits atNode admitted.left))
    exact left.trans (ihr r (afterLeft.trans narrowed) (left.admits afterLeft admitted.right))

theorem spares_narrow (accepted : t.Accepts choice e) (admitted : t.Admits choice e) :
    Spares choice t (e.narrow t) := by
  rcases accepted with ⟨τ, typed⟩ | ⟨index, rfl, -⟩
  · exact spares_narrow_of_hasType typed (Narrows.refl t) admitted
  · exact Spares.refl t

/-- **Narrowing admits the same accepted choices** as before. -/
theorem admits_narrow_iff (accepted : t.Accepts choice e) :
    (e.narrow t).Admits choice e ↔ t.Admits choice e := by
  refine ⟨fun h slot found => ?_, fun h => ?_⟩
  · have narrowed := narrows_narrow e t
    exact (narrowed.candidates slot).subset (h slot (narrowed.referencedGroupSlots e ▸ found))
  · exact (spares_narrow accepted h).admits (narrows_narrow e t) h

end QuantityAlgebra
