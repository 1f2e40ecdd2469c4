import QuantityAlgebra.Proofs.Expansion.Narrowed

/-!
# Expansion, choice by choice

What expansion gives can be said without branching. A choice has a dimension for each group slot
that the tree refers to, and a table assigned as it says is down to that dimension in each of them
and is otherwise what it was (`assign`). Expansion gives the tables that are assigned some choice
among the candidates and verified, each once. Of two of them the first is the one that has, in the
first slot where they differ, the candidate that is held first (`Precedes`).

What is in the list and how it is ordered leave room for one list only. So nothing is lost on a
branch, wherever in the recursion it ends, and nothing is met twice.

Results:
* `get?_assign_of_mem`, `get?_assign_of_not_mem`: what a choice changes in a table.
* **`mem_expand`**, `pairwise_expand`, `nodup_expand`: the tables, their order, and each once.
* `expand_of_no_groups`: where there is nothing to choose.
* **`expand_enumerates`**: all of it together.
-/

namespace QuantityAlgebra

/-- A group down to one dimension; what is no group as it is. -/
def Operand.assign (d : Dimension) : Operand → Operand
  | .group q members _ => .group q members (.single d)
  | operand => operand

namespace OperandTable

variable {t u v : OperandTable} {e : Expr} {choice other : Choice} {slot : Nat} {slots : List Nat}
  {dims : List Dimension}

/-- The table in which each group slot that the tree refers to is down to what is chosen for it. -/
def assign (t : OperandTable) (e : Expr) (choice : Choice) : OperandTable :=
  ⟨t.operands.mapIdx fun slot operand =>
    if e.references slot = true then operand.assign (choice slot) else operand⟩

/-- In the first group slot of the tree where the tables differ, `u` is down to a candidate that `t`
holds before the one that `v` is down to. -/
def Precedes (t : OperandTable) (e : Expr) (u v : OperandTable) : Prop :=
  ∃ slot ∈ t.referencedGroupSlots e,
    (∃ d d', u.candidates slot = .single d ∧ v.candidates slot = .single d' ∧
      [d, d'].Sublist (t.candidates slot).toList) ∧
    ∀ earlier ∈ t.referencedGroupSlots e, earlier < slot →
      u.candidates earlier = v.candidates earlier

/-! ## Assigned tables -/

theorem get?_assign (t : OperandTable) (e : Expr) (choice : Choice) (slot : Nat) :
    (t.assign e choice).get? slot = (t.get? slot).map fun operand =>
      if e.references slot = true then operand.assign (choice slot) else operand :=
  List.getElem?_mapIdx

/-- A group slot of the tree keeps its group and is down to the chosen dimension. -/
theorem get?_assign_of_mem (choice : Choice) (member : slot ∈ t.referencedGroupSlots e) :
    ∃ q members candidates, t.get? slot = some (.group q members candidates) ∧
      (t.assign e choice).get? slot = some (.group q members (.single (choice slot))) := by
  obtain ⟨q, members, candidates, found⟩ := exists_group_of_mem member
  refine ⟨q, members, candidates, found, ?_⟩
  rw [get?_assign, found, Option.map_some, if_pos (mem_referencedGroupSlots.mp member).2]
  rfl

/-- **Every other slot is what it was**: what is no group, and a group the tree leaves open. -/
theorem get?_assign_of_not_mem (choice : Choice) (missing : slot ∉ t.referencedGroupSlots e) :
    (t.assign e choice).get? slot = t.get? slot := by
  rw [get?_assign]
  cases found : t.get? slot with
  | none => rfl
  | some operand =>
    rw [Option.map_some]
    split
    · rename_i referenced
      cases operand with
      | scalar | vector => rfl
      | group => exact absurd (mem_referencedGroupSlots_of_get? found referenced) missing
    · rfl

theorem candidates_assign (choice : Choice) (member : slot ∈ t.referencedGroupSlots e) :
    (t.assign e choice).candidates slot = .single (choice slot) := by
  obtain ⟨q, members, candidates, -, assigned⟩ := get?_assign_of_mem choice member
  rw [candidates_of_get? assigned]
  rfl

/-- What is chosen among the candidates narrows the table. -/
theorem narrows_assign (admitted : t.Admits choice e) : (t.assign e choice).Narrows t := by
  intro slot
  by_cases member : slot ∈ t.referencedGroupSlots e
  · obtain ⟨q, members, candidates, found, assigned⟩ := get?_assign_of_mem choice member
    have held := admitted slot member
    rw [candidates_of_get? found] at held
    rw [found, assigned]
    exact .some (.group (List.singleton_sublist.mpr held))
  · rw [get?_assign_of_not_mem choice member]
    exact Narrows.refl t slot

theorem settled_assign (admitted : t.Admits choice e) :
    (t.assign e choice).Settled choice e := by
  intro slot member
  rw [(narrows_assign admitted).referencedGroupSlots e] at member
  exact candidates_assign choice member

/-- Only what is chosen for the group slots of the tree shows. -/
theorem assign_congr (same : ∀ slot ∈ t.referencedGroupSlots e, choice slot = other slot) :
    t.assign e choice = t.assign e other := by
  refine ext_get? fun slot => ?_
  by_cases member : slot ∈ t.referencedGroupSlots e
  · rw [get?_assign, get?_assign, same slot member]
  · rw [get?_assign_of_not_mem choice member, get?_assign_of_not_mem other member]

/-- To fix the slots of a selection one after the other is to assign the choice it makes. -/
theorem fixAll_eq_assign (selected : t.Selects (t.referencedGroupSlots e) dims) :
    fixAll (t.referencedGroupSlots e) dims t = t.assign e (t.choiceOf e dims) := by
  have admitted := (selects_iff_admits (Narrows.refl t) selected.length_eq).mp selected
  refine Narrows.eq_of_candidates (narrows_fixAll _ dims t) (narrows_assign admitted) fun slot => ?_
  by_cases member : slot ∈ t.referencedGroupSlots e
  · rw [candidates_fixAll (t.nodup_referencedGroupSlots e) selected slot member,
      candidates_assign _ member]
    rfl
  · rw [candidates_fixAll_of_not_mem member, candidates, candidates,
      get?_assign_of_not_mem _ member]

/-! ## The tables of an expansion -/

/-- **Expansion gives the verified tables among those assigned a choice of candidates.** -/
theorem mem_expand : u ∈ t.expand e ↔
    ∃ choice, t.Admits choice e ∧ u = t.assign e choice ∧ e.verifies u = true := by
  rw [expand_eq, List.mem_map]
  constructor
  · rintro ⟨dims, accepted, rfl⟩
    obtain ⟨selected, verified⟩ := List.mem_filter.mp accepted
    have selects := mem_selections.mp selected
    exact ⟨t.choiceOf e dims, (selects_iff_admits (Narrows.refl t) selects.length_eq).mp selects,
      fixAll_eq_assign selects, verified⟩
  · rintro ⟨choice, admitted, rfl, verified⟩
    have distinct := t.nodup_referencedGroupSlots e
    have same : ∀ slot ∈ t.referencedGroupSlots e,
        t.choiceOf e ((t.referencedGroupSlots e).map choice) slot = choice slot :=
      ofSelection_map distinct choice
    have selects : t.Selects (t.referencedGroupSlots e) ((t.referencedGroupSlots e).map choice) :=
      List.forall₂_map_right_iff.mpr (List.forall₂_same.mpr admitted)
    have assigned := (fixAll_eq_assign selects).trans (assign_congr same)
    refine ⟨_, List.mem_filter.mpr ⟨mem_selections.mpr selects, ?_⟩, assigned⟩
    rw [assigned]
    exact verified

theorem narrows_of_mem_expand (found : u ∈ t.expand e) : u.Narrows t := by
  obtain ⟨choice, admitted, rfl, -⟩ := mem_expand.mp found
  exact narrows_assign admitted

/-! ## Their order -/

/-- Of two selections of ascending slots, in the order listed, the first has in the first slot where
they differ the candidate that is held first. -/
theorem pairwise_selections_ofSelection (ascending : slots.Pairwise (· < ·)) :
    (selections slots t).Pairwise fun dims dims' => ∃ slot ∈ slots,
      [Choice.ofSelection slots dims slot, Choice.ofSelection slots dims' slot].Sublist
        (t.candidates slot).toList ∧
      ∀ earlier ∈ slots, earlier < slot →
        Choice.ofSelection slots dims earlier = Choice.ofSelection slots dims' earlier := by
  induction slots with
  | nil => exact List.pairwise_singleton _ _
  | cons first slots ih =>
    obtain ⟨least, ascending⟩ := List.pairwise_cons.mp ascending
    have differ : ∀ slot ∈ slots, slot ≠ first :=
      fun slot found => (Nat.ne_of_lt (least slot found)).symm
    rw [selections, List.pairwise_flatMap]
    constructor
    -- The same candidate for the first slot: a later slot decides.
    · intro d _
      refine List.pairwise_map.mpr ((ih ascending).imp fun {dims dims'} before => ?_)
      obtain ⟨slot, found, held, agree⟩ := before
      refine ⟨slot, List.mem_cons_of_mem first found, ?_, fun earlier found' lt => ?_⟩
      · rwa [Choice.ofSelection_tail (differ slot found),
          Choice.ofSelection_tail (differ slot found)]
      · rcases List.mem_cons.mp found' with rfl | found'
        · rw [Choice.ofSelection_head, Choice.ofSelection_head]
        · rw [Choice.ofSelection_tail (differ earlier found'),
            Choice.ofSelection_tail (differ earlier found'), agree earlier found' lt]
    -- Two candidates for it: it decides, and no slot is before it.
    · refine List.pairwise_iff_forall_sublist.mpr fun {d d'} held x hx y hy => ?_
      obtain ⟨rest, -, rfl⟩ := List.mem_map.mp hx
      obtain ⟨rest', -, rfl⟩ := List.mem_map.mp hy
      refine ⟨first, List.mem_cons_self, ?_, fun earlier found lt => ?_⟩
      · rwa [Choice.ofSelection_head, Choice.ofSelection_head]
      · rcases List.mem_cons.mp found with rfl | found
        · exact absurd lt (Nat.lt_irrefl earlier)
        · exact absurd lt (Nat.lt_asymm (least earlier found))

/-- **The tables stand in the order of the choices.** -/
theorem pairwise_expand (t : OperandTable) (e : Expr) : (t.expand e).Pairwise (t.Precedes e) := by
  have distinct := t.nodup_referencedGroupSlots e
  have ordered := (pairwise_selections_ofSelection (t := t)
    (t.pairwise_referencedGroupSlots e)).filter fun dims =>
      e.verifies (fixAll (t.referencedGroupSlots e) dims t)
  rw [expand_eq, List.pairwise_map]
  refine ordered.imp_of_mem fun {dims dims'} accepted accepted' before => ?_
  obtain ⟨slot, member, held, agree⟩ := before
  have fixed := candidates_fixAll distinct (mem_accepted.mp accepted).1
  have fixed' := candidates_fixAll distinct (mem_accepted.mp accepted').1
  refine ⟨slot, member, ⟨_, _, fixed slot member, fixed' slot member, held⟩, ?_⟩
  intro earlier member' lt
  rw [fixed earlier member', fixed' earlier member', agree earlier member' lt]

/-- No table precedes itself where no candidate is held twice. -/
theorem Precedes.ne (repeatFree : t.RepeatFree) (before : t.Precedes e u v) : u ≠ v := by
  rintro rfl
  obtain ⟨slot, -, ⟨d, d', down, down', held⟩, -⟩ := before
  obtain rfl : d = d' := by simpa [DimensionSet.single] using down.symm.trans down'
  exact List.pairwise_iff_forall_sublist.mp (repeatFree.candidates slot) held rfl

theorem nodup_expand (repeatFree : t.RepeatFree) : (t.expand e).Nodup :=
  (pairwise_expand t e).imp (Precedes.ne repeatFree)

/-- Without a group to choose for, there is the table itself. -/
theorem expand_of_no_groups (closed : t.referencedGroupSlots e = []) :
    t.expand e = if e.verifies t = true then [t] else [] := by
  rw [expand, closed, branches, List.filter_singleton, Bool.cond_eq_ite]

/-- **Expansion enumerates the verified choices, once each, in order.** -/
theorem expand_enumerates (e : Expr) (t : OperandTable) (repeatFree : t.RepeatFree) :
    (∀ u, u ∈ t.expand e ↔
        ∃ choice, t.Admits choice e ∧ u = t.assign e choice ∧ e.verifies u = true) ∧
      (t.expand e).Pairwise (t.Precedes e) ∧ (t.expand e).Nodup ∧
      (∀ u ∈ t.expand e, ∀ slot,
        (slot ∈ t.referencedGroupSlots e → ∃ q members candidates, ∃ d ∈ candidates,
          t.get? slot = some (.group q members candidates) ∧
          u.get? slot = some (.group q members (.single d))) ∧
        (slot ∉ t.referencedGroupSlots e → u.get? slot = t.get? slot)) ∧
      (t.referencedGroupSlots e = [] → t.expand e = if e.verifies t = true then [t] else []) := by
  refine ⟨fun u => mem_expand, pairwise_expand t e, nodup_expand repeatFree, ?_,
    expand_of_no_groups⟩
  intro u found slot
  obtain ⟨choice, admitted, rfl, -⟩ := mem_expand.mp found
  refine ⟨fun member => ?_, get?_assign_of_not_mem choice⟩
  obtain ⟨q, members, candidates, held, assigned⟩ := get?_assign_of_mem choice member
  have chosen := admitted slot member
  rw [candidates_of_get? held] at chosen
  exact ⟨q, members, candidates, choice slot, chosen, held, assigned⟩

/-- Two groups that share dimensions two and three, the first with its candidates held in descending
order and the second in two places of the tree, and a third group that the tree leaves open. -/
theorem expand_enumerates_shared_dimensions :
    let members (name : String) : DimensionMap Quantity :=
      .ofList [(2, ⟨"m", name ++ "2"⟩), (3, ⟨"m", name ++ "3"⟩), (4, ⟨"m", name ++ "4"⟩)]
    let t : OperandTable :=
      ⟨[.group ⟨"m", "Position"⟩ (members "Position") (.ofList [3, 2]),
        .group ⟨"m", "Spin"⟩ (members "Spin") (.ofList [2, 3]),
        .group ⟨"m", "Velocity"⟩ (members "Velocity") (.ofList [2, 3, 4])]⟩
    let e : Expr := .binary .dot (.slot 0) (.binary .add (.slot 2) (.slot 2))
    t.RepeatFree ∧ t.expand e = [t.assign e fun _ => 3, t.assign e fun _ => 2] ∧
      (t.expand e).Pairwise (t.Precedes e) ∧ (t.expand e).Nodup ∧
      ∀ u ∈ t.expand e, u.get? 1 = t.get? 1 := by
  intro members t e
  have repeatFree : t.RepeatFree := by decide
  obtain ⟨-, ordered, nodup, frame, -⟩ := expand_enumerates e t repeatFree
  exact ⟨repeatFree, by decide, ordered, nodup, fun u found => (frame u found 1).2 (by decide)⟩

end OperandTable

end QuantityAlgebra
