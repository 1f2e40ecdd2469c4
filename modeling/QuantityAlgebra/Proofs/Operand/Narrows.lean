import QuantityAlgebra.Typing.Judgment
import QuantityAlgebra.Typing.Kind
import QuantityAlgebra.Typing.Narrowing

/-!
# Tables with fewer candidates

`t.Narrows u` says that `t` is `u` with some candidates of its groups taken away. Everything a
resolution does to a table is of this kind: `restrict` and `fix` by definition, `limit` and `narrow`
because they are made of restrictions. What does not depend on candidates is the same in both
tables: which slots hold a group, the kind of a tree, and its type under a choice.

Results:
* `narrows_restrict`, `narrows_limit`, `narrows_narrow`: each way to narrow a table only takes
  candidates away, and keeps the order of those left.
* `Narrows.referencedGroupSlots`, `Narrows.kind`, `Narrows.hasType_iff`: what stays.
-/

namespace QuantityAlgebra

/-- The first operand is the second with candidates taken away, those left in their order. -/
inductive Operand.Narrows : Operand → Operand → Prop
  | scalar (q : Quantity) : Narrows (.scalar q) (.scalar q)
  | vector (q : Quantity) (d : Dimension) : Narrows (.vector q d) (.vector q d)
  | group {q : Quantity} {members : DimensionMap Quantity} {kept candidates : DimensionSet} :
      kept.toList.Sublist candidates.toList →
      Narrows (.group q members kept) (.group q members candidates)

namespace Operand.Narrows

variable {o p r : Operand}

theorem refl : ∀ o : Operand, o.Narrows o
  | .scalar q => .scalar q
  | .vector q d => .vector q d
  | .group _ _ _ => .group (List.Sublist.refl _)

theorem trans (h : o.Narrows p) (h' : p.Narrows r) : o.Narrows r := by
  cases h with
  | scalar q => exact h'
  | vector q d => exact h'
  | group kept =>
    cases h' with
    | group kept' => exact .group (kept.trans kept')

theorem restrict (o : Operand) (s : DimensionSet) : (o.restrict s).Narrows o := by
  cases o with
  | scalar q => exact .scalar q
  | vector q d => exact .vector q d
  | group q members candidates => exact .group (candidates.inter_sublist s)

theorem isGroup (h : o.Narrows p) : o.isGroup = p.isGroup := by
  cases h <;> rfl

theorem kind (h : o.Narrows p) : o.kind = p.kind := by
  cases h <;> rfl

theorem typeAt (h : o.Narrows p) (d : Dimension) : o.typeAt d = p.typeAt d := by
  cases h <;> rfl

theorem candidates (h : o.Narrows p) : o.candidates.toList.Sublist p.candidates.toList := by
  cases h with
  | scalar q => exact List.Sublist.refl _
  | vector q d => exact List.Sublist.refl _
  | group kept => exact kept

end Operand.Narrows

namespace OperandTable

/-- Slot by slot, `t` is `u` with candidates taken away. -/
def Narrows (t u : OperandTable) : Prop :=
  ∀ slot, Option.Rel Operand.Narrows (t.get? slot) (u.get? slot)

variable {t u v : OperandTable}

theorem mem_groupSlots {slot : Nat} :
    slot ∈ t.groupSlots ↔ (t.get? slot).any Operand.isGroup = true := by
  simp only [groupSlots, List.mem_filter, List.mem_range, and_iff_right_iff_imp]
  intro h
  cases found : t.get? slot with
  | none => simp [found] at h
  | some operand => exact (List.getElem?_eq_some_iff.mp found).1

theorem mem_referencedGroupSlots {slot : Nat} {e : Expr} :
    slot ∈ t.referencedGroupSlots e ↔ slot ∈ t.groupSlots ∧ e.references slot = true := by
  simp [referencedGroupSlots]

theorem exists_group_of_mem {slot : Nat} {e : Expr}
    (member : slot ∈ t.referencedGroupSlots e) :
    ∃ q members candidates, t.get? slot = some (.group q members candidates) := by
  have isGroup := mem_groupSlots.mp (mem_referencedGroupSlots.mp member).1
  cases found : t.get? slot with
  | none =>
    rw [found] at isGroup
    contradiction
  | some operand =>
    rw [found] at isGroup
    cases operand with
    | scalar | vector => contradiction
    | group q members candidates => exact ⟨q, members, candidates, rfl⟩

theorem mem_referencedGroupSlots_of_get? {slot : Nat} {e : Expr} {q : Quantity}
    {members : DimensionMap Quantity} {candidates : DimensionSet}
    (found : t.get? slot = some (.group q members candidates))
    (referenced : e.references slot = true) : slot ∈ t.referencedGroupSlots e := by
  rw [mem_referencedGroupSlots, mem_groupSlots, found]
  exact ⟨rfl, referenced⟩

/-- The group slots a tree refers to ascend. -/
theorem pairwise_referencedGroupSlots (t : OperandTable) (e : Expr) :
    (t.referencedGroupSlots e).Pairwise (· < ·) :=
  (List.pairwise_lt_range.filter _).filter _

theorem nodup_referencedGroupSlots (t : OperandTable) (e : Expr) :
    (t.referencedGroupSlots e).Nodup :=
  (pairwise_referencedGroupSlots t e).imp Nat.ne_of_lt

/-- A table is what it holds in its slots. -/
theorem ext_get? (same : ∀ slot, t.get? slot = u.get? slot) : t = u := by
  obtain ⟨ts⟩ := t
  obtain ⟨us⟩ := u
  exact congrArg OperandTable.mk (List.ext_getElem? same)

namespace Narrows

theorem refl (t : OperandTable) : t.Narrows t := fun slot => by
  cases t.get? slot with
  | none => exact .none
  | some operand => exact .some (Operand.Narrows.refl operand)

/-- Whatever candidates say nothing about is the same in each slot of the two tables. -/
theorem map_eq {α : Type} (h : t.Narrows u) (slot : Nat) {f : Operand → α}
    (stable : ∀ {o p : Operand}, o.Narrows p → f o = f p) :
    (t.get? slot).map f = (u.get? slot).map f := by
  have rel := h slot
  revert rel
  cases t.get? slot <;> cases u.get? slot <;> intro rel
  case none.none => rfl
  case some.some => exact congrArg some (stable (Option.rel_some_some.mp rel))
  all_goals exact absurd rel (by simp)

/-- What `t` holds in a slot narrows what `u` holds there. -/
theorem of_get? (h : t.Narrows u) {slot : Nat} {operand : Operand}
    (found : u.get? slot = some operand) :
    ∃ kept, t.get? slot = some kept ∧ kept.Narrows operand := by
  have rel := h slot
  rw [found] at rel
  cases held : t.get? slot with
  | none => rw [held] at rel; exact absurd rel (by simp)
  | some kept => rw [held] at rel; exact ⟨kept, rfl, Option.rel_some_some.mp rel⟩

/-- And what `u` holds there is narrowed by it. -/
theorem exists_wider (h : t.Narrows u) {slot : Nat} {operand : Operand}
    (found : t.get? slot = some operand) :
    ∃ wider, u.get? slot = some wider ∧ operand.Narrows wider := by
  have rel := h slot
  rw [found] at rel
  cases held : u.get? slot with
  | none => rw [held] at rel; exact absurd rel (by simp)
  | some wider => rw [held] at rel; exact ⟨wider, rfl, Option.rel_some_some.mp rel⟩

/-- A group keeps its quantity and its members, and of its candidates some in their order. -/
theorem get?_group (h : t.Narrows u) {slot : Nat} {q : Quantity} {members : DimensionMap Quantity}
    {candidates : DimensionSet} (found : u.get? slot = some (.group q members candidates)) :
    ∃ kept, t.get? slot = some (.group q members kept) ∧
      kept.toList.Sublist candidates.toList := by
  obtain ⟨operand, held, narrowed⟩ := h.of_get? found
  cases narrowed with
  | group sublist => exact ⟨_, held, sublist⟩

/-- What is no group is left as it is. -/
theorem get?_of_isGroup_eq_false (h : t.Narrows u) {slot : Nat} {operand : Operand}
    (found : u.get? slot = some operand) (notGroup : operand.isGroup = false) :
    t.get? slot = some operand := by
  obtain ⟨kept, held, narrowed⟩ := h.of_get? found
  cases narrowed with
  | scalar | vector => exact held
  | group => contradiction

theorem get?_eq_none_iff (h : t.Narrows u) (slot : Nat) :
    t.get? slot = none ↔ u.get? slot = none := by
  have same := h.map_eq slot (f := fun _ => ()) fun _ => rfl
  rw [← Option.map_eq_none_iff (f := fun _ => ()), same, Option.map_eq_none_iff]

theorem trans (h : t.Narrows u) (h' : u.Narrows v) : t.Narrows v := fun slot => by
  cases found : v.get? slot with
  | none =>
    rw [(h.get?_eq_none_iff slot).mpr ((h'.get?_eq_none_iff slot).mpr found)]
    exact .none
  | some operand =>
    obtain ⟨p, hp, narrowed⟩ := h'.of_get? found
    obtain ⟨o, ho, narrower⟩ := h.of_get? hp
    rw [ho]
    exact .some (narrower.trans narrowed)

theorem length (h : t.Narrows u) : t.operands.length = u.operands.length := by
  have bound (v : OperandTable) (slot : Nat) :
      v.get? slot = none ↔ v.operands.length ≤ slot := List.getElem?_eq_none_iff
  refine Nat.le_antisymm ?_ ?_
  · exact (bound t _).mp ((h.get?_eq_none_iff _).mpr ((bound u _).mpr (Nat.le_refl _)))
  · exact (bound u _).mp ((h.get?_eq_none_iff _).mp ((bound t _).mpr (Nat.le_refl _)))

theorem groupSlots (h : t.Narrows u) : t.groupSlots = u.groupSlots := by
  unfold OperandTable.groupSlots
  rw [h.length]
  refine List.filter_congr fun slot _ => ?_
  have same := h.map_eq slot Operand.Narrows.isGroup
  cases ht : t.get? slot <;> cases hu : u.get? slot <;> simp_all

theorem referencedGroupSlots (h : t.Narrows u) (e : Expr) :
    t.referencedGroupSlots e = u.referencedGroupSlots e := by
  simp only [OperandTable.referencedGroupSlots, h.groupSlots]

theorem candidates (h : t.Narrows u) (slot : Nat) :
    (t.candidates slot).toList.Sublist (u.candidates slot).toList := by
  unfold OperandTable.candidates
  cases found : u.get? slot with
  | none => simp [(h.get?_eq_none_iff slot).mpr found]
  | some operand =>
    obtain ⟨kept, hkept, narrowed⟩ := h.of_get? found
    rw [hkept]
    exact narrowed.candidates

/-- The kind of a tree does not depend on the candidates left. -/
theorem kind (h : t.Narrows u) (e : Expr) : e.kind t = e.kind u :=
  Expr.kind_congr fun slot _ => h.map_eq slot Operand.Narrows.kind

theorem agrees (h : t.Narrows u) (choice : Choice) (e : Expr) : t.Agrees choice u choice e :=
  fun slot _ => h.map_eq slot fun narrowed => narrowed.typeAt (choice slot)

/-- Nor does its type under a choice. -/
theorem hasType_iff (h : t.Narrows u) {choice : Choice} {e : Expr} {τ : ExprType} :
    HasType t choice e τ ↔ HasType u choice e τ :=
  HasType.iff_of_agrees (h.agrees choice e)

end Narrows

/-! ## Ways to narrow a table -/

theorem narrows_restrict (t : OperandTable) (slot : Nat) (s : DimensionSet) :
    (t.restrict slot s).Narrows t := fun other => by
  rw [get?_restrict]
  split
  · cases t.get? other with
    | none => exact .none
    | some operand => exact .some (Operand.Narrows.restrict operand s)
  · exact Narrows.refl t other

theorem narrows_limit (e : Expr) (s : DimensionSet) (t : OperandTable) :
    (e.limit s t).Narrows t := by
  induction e generalizing t with
  | slot index => exact narrows_restrict t index s
  | one => exact Narrows.refl t
  | binary op lhs rhs ihl ihr =>
    have both : (rhs.limit s (lhs.limit s t)).Narrows t := (ihr _).trans (ihl t)
    cases op with
    | add | sub | mul => exact both
    | div => exact ihl t
    | dot => exact Narrows.refl t
    | cross =>
      simp only [Expr.limit]
      split
      · exact Narrows.refl t
      · exact both

theorem narrows_narrowNode (op : BinaryOp) (lhs rhs : Expr) (t : OperandTable) :
    (Expr.narrowNode op lhs rhs t).Narrows t := by
  cases op with
  | add | sub | dot => exact (narrows_limit rhs _ _).trans (narrows_limit lhs _ t)
  | mul | div | cross => exact Narrows.refl t

theorem narrows_narrow (e : Expr) (t : OperandTable) : (e.narrow t).Narrows t := by
  induction e generalizing t with
  | slot | one => exact Narrows.refl t
  | binary op lhs rhs ihl ihr =>
    exact ((ihr _).trans (ihl _)).trans (narrows_narrowNode op lhs rhs t)

/-- A restriction takes from the slot's own candidates those that are not in the set. -/
theorem mem_candidates_restrict {t : OperandTable} {slot other : Nat} {s : DimensionSet}
    {d : Dimension} :
    d ∈ (t.restrict slot s).candidates other ↔
      d ∈ t.candidates other ∧ (slot = other → d ∈ s) := by
  unfold candidates
  rw [get?_restrict]
  by_cases same : slot = other
  · rw [if_pos same]
    cases t.get? other with
    | none => simp
    | some operand => cases operand <;> simp [Operand.restrict, Operand.candidates, same]
  · simp [same]

/-! ## What a tree leaves alone -/

theorem get?_limit_of_not_references {slot : Nat} {e : Expr} (absent : e.references slot = false)
    (s : DimensionSet) (t : OperandTable) : (e.limit s t).get? slot = t.get? slot := by
  induction e generalizing t with
  | slot index =>
    have differ : index ≠ slot := by simpa [Expr.references] using absent
    rw [Expr.limit, get?_restrict, if_neg differ]
  | one => rfl
  | binary op lhs rhs ihl ihr =>
    obtain ⟨left, right⟩ := Bool.or_eq_false_iff.mp absent
    have both : (rhs.limit s (lhs.limit s t)).get? slot = t.get? slot := by rw [ihr right, ihl left]
    cases op with
    | add | sub | mul => exact both
    | div => exact ihl left t
    | dot => rfl
    | cross =>
      simp only [Expr.limit]
      split
      · rfl
      · exact both

/-- **A slot the tree does not refer to is left as it is.** -/
theorem get?_narrow_of_not_references {slot : Nat} {e : Expr} (absent : e.references slot = false)
    (t : OperandTable) : (e.narrow t).get? slot = t.get? slot := by
  induction e generalizing t with
  | slot | one => rfl
  | binary op lhs rhs ihl ihr =>
    obtain ⟨left, right⟩ := Bool.or_eq_false_iff.mp absent
    rw [Expr.narrow, ihr right, ihl left]
    cases op with
    | add | sub | dot =>
      rw [Expr.narrowNode, get?_limit_of_not_references right, get?_limit_of_not_references left]
    | mul | div | cross => rfl

/-- Two ways to narrow one table that leave the same candidates are the same. -/
theorem Narrows.eq_of_candidates (h : t.Narrows v) (h' : u.Narrows v)
    (same : ∀ slot, t.candidates slot = u.candidates slot) : t = u := by
  refine ext_get? fun slot => ?_
  cases found : v.get? slot with
  | none => rw [(h.get?_eq_none_iff slot).mpr found, (h'.get?_eq_none_iff slot).mpr found]
  | some operand =>
    obtain ⟨o, ho, narrowed⟩ := h.of_get? found
    obtain ⟨p, hp, narrowed'⟩ := h'.of_get? found
    have left := same slot
    rw [OperandTable.candidates, OperandTable.candidates, ho, hp] at left
    rw [ho, hp]
    cases narrowed with
    | scalar => cases narrowed'; rfl
    | vector => cases narrowed'; rfl
    | group =>
      cases narrowed' with
      | group => exact congrArg (fun c => some (Operand.group _ _ c)) left

end OperandTable

end QuantityAlgebra
