import QuantityAlgebra.Proofs.Expansion.Selections
import QuantityAlgebra.Proofs.Typing.Propagation

/-!
# Narrowing before expansion

The table of an expression is narrowed in three ways: by the tree itself, by restricting a slot to
some dimensions, and by fixing a slot at one. Any number of them, in any order, filter what
expansion finds and do nothing else: the choices found after them are those found before them that
every restriction permits, in the same order. Narrowing by the tree permits everything, so it is an
optimisation: with it or without, expansion gives the same tables.

That candidates are held without repeats is needed. An intersection drops repeats, so a repeated
candidate is branched on twice before a slot is narrowed, and once after.

Results:
* `admits_run_iff`: which accepted choices a run of such steps still admits.
* `accepted_eq_filter`: a narrower table accepts those selections that it still offers.
* `expand_narrow`: expansion after narrowing by the tree is expansion without.
-/

namespace QuantityAlgebra

/-- One way to narrow the table of an expression. -/
inductive NarrowingStep
  /-- By the tree itself (`reduce_choices`). -/
  | narrow
  /-- At one slot, whatever the tree is. -/
  | restrict (slot : Nat) (dimensions : DimensionSet)
  | fix (slot : Nat) (dimension : Dimension)
  deriving DecidableEq

namespace NarrowingStep

/-- The table after a step. -/
def apply (e : Expr) (t : OperandTable) : NarrowingStep → OperandTable
  | .narrow => e.narrow t
  | .restrict slot s => t.restrict slot s
  | .fix slot d => t.fix slot d

/-- Whether a step says nothing against a dimension for a slot. -/
def permits (slot : Nat) (d : Dimension) : NarrowingStep → Bool
  | .narrow => true
  | .restrict other s => slot ≠ other || d ∈ s
  | .fix other d' => slot ≠ other || d = d'

end NarrowingStep

namespace OperandTable

variable {t u : OperandTable} {choice : Choice} {e : Expr} {slots : List Nat}
  {dims : List Dimension}

/-- The table after a run of steps. -/
def run (e : Expr) (t : OperandTable) (steps : List NarrowingStep) : OperandTable :=
  steps.foldl (NarrowingStep.apply e) t

/-- The dimension each referenced group slot is down to, in the order of the slots. -/
def chosen (e : Expr) (t : OperandTable) : List (Nat × Dimension) :=
  (t.referencedGroupSlots e).filterMap fun slot => (t.candidates slot).single?.map (slot, ·)

/-- No operand holds a candidate twice. -/
def RepeatFree (t : OperandTable) : Prop :=
  ∀ operand ∈ t.operands, operand.candidates.toList.Nodup

instance (t : OperandTable) : Decidable t.RepeatFree :=
  inferInstanceAs (Decidable (∀ operand ∈ t.operands, operand.candidates.toList.Nodup))

theorem RepeatFree.candidates (repeatFree : t.RepeatFree) (slot : Nat) :
    (t.candidates slot).toList.Nodup := by
  cases found : t.get? slot with
  | none =>
    rw [OperandTable.candidates, found]
    exact List.nodup_nil
  | some operand =>
    rw [candidates_of_get? found]
    exact repeatFree operand (List.mem_of_getElem? found)

/-- A classified signature holds no candidate twice. -/
theorem repeatFree_classify (classifier : Classifier) (signature : Signature) :
    (classify classifier signature).RepeatFree := by
  intro operand found
  obtain ⟨q, -, rfl⟩ := List.mem_map.mp found
  unfold Operand.classify
  cases classifier q with
  | scalar | fixedVector | groupMember => exact List.nodup_nil
  | group members => exact DimensionSet.nodup_ofList members.keys

/-- In every slot the candidates ascend. -/
def Ascending (t : OperandTable) : Prop := ∀ slot, (t.candidates slot).toList.Pairwise (· < ·)

theorem ascending_classify (classifier : Classifier) (signature : Signature) :
    (classify classifier signature).Ascending := by
  intro slot
  cases found : (classify classifier signature).get? slot with
  | none =>
    rw [candidates, found]
    exact List.Pairwise.nil
  | some operand =>
    rw [candidates_of_get? found]
    obtain ⟨q, -, rfl⟩ := List.mem_map.mp (List.mem_of_getElem? found)
    unfold Operand.classify
    cases classifier q with
    | scalar | fixedVector | groupMember => exact List.Pairwise.nil
    | group members => exact members.keys_sorted.sublist (distinctBy_sublist id members.keys)

theorem Narrows.ascending (h : t.Narrows u) (ascending : u.Ascending) : t.Ascending :=
  fun slot => (ascending slot).sublist (h.candidates slot)

theorem narrows_apply (e : Expr) (t : OperandTable) (step : NarrowingStep) :
    (step.apply e t).Narrows t := by
  cases step with
  | narrow => exact narrows_narrow e t
  | restrict slot s => exact narrows_restrict t slot s
  | fix slot d => exact narrows_restrict t slot _

theorem narrows_run (e : Expr) (t : OperandTable) (steps : List NarrowingStep) :
    (t.run e steps).Narrows t := by
  induction steps generalizing t with
  | nil => exact Narrows.refl t
  | cons step steps ih => exact (ih _).trans (narrows_apply e t step)

/-! ## What steps admit -/

/-- A step takes away those choices that it does not permit, and no other accepted one. -/
theorem admits_apply_iff (accepted : t.Accepts choice e) (step : NarrowingStep) :
    (step.apply e t).Admits choice e ↔
      t.Admits choice e ∧
        ∀ slot ∈ t.referencedGroupSlots e, step.permits slot (choice slot) = true := by
  have restricted (other : Nat) (s : DimensionSet) :
      (t.restrict other s).Admits choice e ↔ t.Admits choice e ∧
        ∀ slot ∈ t.referencedGroupSlots e, slot ≠ other ∨ choice slot ∈ s := by
    unfold Admits
    rw [(narrows_restrict t other s).referencedGroupSlots e, ← forall₂_and]
    refine forall₂_congr fun slot _ => ?_
    rw [mem_candidates_restrict]
    exact and_congr_right' (by rw [eq_comm, imp_iff_not_or])
  cases step with
  | narrow => simp [NarrowingStep.apply, NarrowingStep.permits, admits_narrow_iff accepted]
  | restrict other s =>
    simpa [NarrowingStep.apply, NarrowingStep.permits] using restricted other s
  | fix other d =>
    simpa [NarrowingStep.apply, NarrowingStep.permits, fix] using restricted other (.single d)

/-- **A run admits the accepted choices that each of its steps permits.** -/
theorem admits_run_iff (accepted : t.Accepts choice e) (steps : List NarrowingStep) :
    (t.run e steps).Admits choice e ↔
      t.Admits choice e ∧
        ∀ step ∈ steps, ∀ slot ∈ t.referencedGroupSlots e,
          step.permits slot (choice slot) = true := by
  induction steps generalizing t with
  | nil => simp [run]
  | cons step steps ih =>
    have narrowed := narrows_apply e t step
    have later := ih (narrowed.accepts_iff.mpr accepted)
    rw [narrowed.referencedGroupSlots e, admits_apply_iff accepted, and_assoc] at later
    rw [List.forall_mem_cons]
    exact later

/-! ## What is left to select -/

theorem selects_iff_admits (narrowed : t.Narrows u)
    (length : (u.referencedGroupSlots e).length = dims.length) :
    t.Selects (u.referencedGroupSlots e) dims ↔ t.Admits (u.choiceOf e dims) e := by
  rw [Selects, forall₂_iff_ofSelection (u.nodup_referencedGroupSlots e) length, Admits,
    narrowed.referencedGroupSlots e]
  rfl

/-- A selection that both tables offer is verified in both or in neither. -/
theorem verifies_fixAll_narrows (narrowed : t.Narrows u)
    (selected : t.Selects (u.referencedGroupSlots e) dims)
    (offered : u.Selects (u.referencedGroupSlots e) dims) :
    e.verifies (fixAll (u.referencedGroupSlots e) dims t) =
      e.verifies (fixAll (u.referencedGroupSlots e) dims u) := by
  have slots := narrowed.referencedGroupSlots e
  have same : t.choiceOf e dims = u.choiceOf e dims := by rw [choiceOf, choiceOf, slots]
  rw [Bool.eq_iff_iff, verifies_fixAll_iff offered]
  rw [← slots] at selected ⊢
  rw [verifies_fixAll_iff selected, narrowed.accepts_iff, same]

/-- **A narrower table accepts those accepted selections that it still offers.** -/
theorem accepted_eq_filter (narrowed : t.Narrows u) (repeatFree : u.RepeatFree) :
    t.accepted e = (u.accepted e).filter (· ∈ selections (u.referencedGroupSlots e) t) := by
  have fewer : (selections (u.referencedGroupSlots e) t).Sublist
      (selections (u.referencedGroupSlots e) u) := selections_sublist narrowed
  have offered := eq_filter_of_sublist fewer
    (nodup_selections fun slot _ => repeatFree.candidates slot)
  rw [accepted, accepted, narrowed.referencedGroupSlots e, List.filter_filter]
  conv_lhs => rw [offered, List.filter_filter]
  refine List.filter_congr fun dims found => ?_
  by_cases left : dims ∈ selections (u.referencedGroupSlots e) t
  · have agree := verifies_fixAll_narrows narrowed (mem_selections.mp left)
      (mem_selections.mp found)
    simp [left, agree]
  · simp [left]

/-! ## Expansion after narrowing -/

/-- What expansion chose is read off its tables. -/
theorem chosen_fixAll (selected : t.Selects (t.referencedGroupSlots e) dims) :
    (fixAll (t.referencedGroupSlots e) dims t).chosen e = (t.referencedGroupSlots e).zip dims := by
  have distinct := t.nodup_referencedGroupSlots e
  rw [chosen, (narrows_fixAll _ dims t).referencedGroupSlots e,
    zip_eq_map_ofSelection distinct selected.length_eq, ← List.filterMap_eq_map]
  refine List.filterMap_congr fun slot found => ?_
  rw [candidates_fixAll distinct selected slot found]
  rfl

/-- The choices expansion finds are its accepted selections. -/
theorem map_chosen_expand (t : OperandTable) (e : Expr) :
    (t.expand e).map (chosen e) = (t.accepted e).map ((t.referencedGroupSlots e).zip ·) := by
  rw [expand_eq, List.map_map]
  exact List.map_congr_left fun dims found => chosen_fixAll (mem_accepted.mp found).1

/-- Expansion leaves no referenced group slot open. -/
theorem map_fst_chosen (found : u ∈ t.expand e) :
    (u.chosen e).map Prod.fst = t.referencedGroupSlots e := by
  rw [expand_eq] at found
  obtain ⟨dims, held, rfl⟩ := List.mem_map.mp found
  have selected := (mem_accepted.mp held).1
  rw [chosen_fixAll selected, List.map_fst_zip (Nat.le_of_eq selected.length_eq)]

/-- A slot without a group has no candidates. -/
theorem candidates_of_not_mem_groupSlots {slot : Nat} (missing : slot ∉ t.groupSlots) :
    t.candidates slot = ∅ := by
  rw [mem_groupSlots] at missing
  cases found : t.get? slot with
  | none => simp [candidates, found]
  | some operand =>
    rw [candidates_of_get? found]
    cases operand with
    | scalar | vector => rfl
    | group => exact absurd (by rw [found]; rfl) missing

/-- Narrowing by the tree shows in no slot outside the referenced groups. -/
theorem candidates_narrow_of_not_mem {slot : Nat} (missing : slot ∉ t.referencedGroupSlots e) :
    (e.narrow t).candidates slot = t.candidates slot := by
  by_cases group : slot ∈ t.groupSlots
  · have absent : e.references slot = false := by
      simpa [mem_referencedGroupSlots, group] using missing
    rw [candidates, candidates, get?_narrow_of_not_references absent]
  · rw [candidates_of_not_mem_groupSlots group,
      candidates_of_not_mem_groupSlots ((narrows_narrow e t).groupSlots ▸ group)]

/-- Once all referenced groups are fixed, it does not show whether the table was narrowed before. -/
theorem fixAll_narrow (selected : t.Selects (t.referencedGroupSlots e) dims)
    (still : (e.narrow t).Selects (t.referencedGroupSlots e) dims) :
    fixAll (t.referencedGroupSlots e) dims (e.narrow t) =
      fixAll (t.referencedGroupSlots e) dims t := by
  have distinct := t.nodup_referencedGroupSlots e
  refine Narrows.eq_of_candidates ((narrows_fixAll _ dims _).trans (narrows_narrow e t))
    (narrows_fixAll _ dims t) fun slot => ?_
  by_cases found : slot ∈ t.referencedGroupSlots e
  · rw [candidates_fixAll distinct selected slot found, candidates_fixAll distinct still slot found]
  · rw [candidates_fixAll_of_not_mem found, candidates_fixAll_of_not_mem found,
      candidates_narrow_of_not_mem found]

/-- An accepted selection is still offered after narrowing by the tree. -/
theorem selects_narrow (found : dims ∈ t.accepted e) :
    (e.narrow t).Selects (t.referencedGroupSlots e) dims := by
  obtain ⟨selected, accepted⟩ := mem_accepted.mp found
  rw [selects_iff_admits (narrows_narrow e t) selected.length_eq, admits_narrow_iff accepted,
    ← selects_iff_admits (Narrows.refl t) selected.length_eq]
  exact selected

/-- **Narrowing by the tree changes nothing in what expansion gives.** -/
theorem expand_narrow (repeatFree : t.RepeatFree) :
    (e.narrow t).expand e = t.expand e := by
  have same : (e.narrow t).accepted e = t.accepted e := by
    rw [accepted_eq_filter (narrows_narrow e t) repeatFree, List.filter_eq_self]
    exact fun dims found => decide_eq_true (mem_selections.mpr (selects_narrow found))
  rw [expand_eq, expand_eq, same, (narrows_narrow e t).referencedGroupSlots e]
  exact List.map_congr_left fun dims found =>
    fixAll_narrow (mem_accepted.mp found).1 (selects_narrow found)

/-- Among the accepted selections, a run of steps leaves those that each step permits. -/
theorem selects_run_iff (found : dims ∈ t.accepted e) (steps : List NarrowingStep) :
    (t.run e steps).Selects (t.referencedGroupSlots e) dims ↔
      ∀ step ∈ steps, ∀ c ∈ (t.referencedGroupSlots e).zip dims, step.permits c.1 c.2 = true := by
  obtain ⟨selected, accepted⟩ := mem_accepted.mp found
  have length := selected.length_eq
  have admitted := (selects_iff_admits (Narrows.refl t) length).mp selected
  rw [selects_iff_admits (narrows_run e t steps) length, admits_run_iff accepted,
    and_iff_right admitted, zip_eq_map_ofSelection (t.nodup_referencedGroupSlots e) length]
  simp [choiceOf]

/-- **Narrowing filters what expansion finds.** After any run of steps the choices found are those
found before that every step permits, in the same order, each of them for all referenced group
slots; and to narrow by the tree alone gives the very tables that are found without. -/
theorem expand_run (e : Expr) (t : OperandTable) (repeatFree : t.RepeatFree)
    (steps : List NarrowingStep) :
    ((t.run e steps).expand e).map (chosen e) =
        ((t.expand e).map (chosen e)).filter
          (fun choices => steps.all fun step => choices.all fun c => step.permits c.1 c.2) ∧
      (∀ u ∈ (t.run e steps).expand e, (u.chosen e).map Prod.fst = t.referencedGroupSlots e) ∧
      (e.narrow t).expand e = t.expand e := by
  have narrowed := narrows_run e t steps
  have whole : ∀ u ∈ (t.run e steps).expand e,
      (u.chosen e).map Prod.fst = t.referencedGroupSlots e := fun u found => by
    rw [map_fst_chosen found, narrowed.referencedGroupSlots e]
  refine ⟨?_, whole, expand_narrow repeatFree⟩
  rw [map_chosen_expand, map_chosen_expand, accepted_eq_filter narrowed repeatFree,
    narrowed.referencedGroupSlots e, List.filter_map]
  refine congrArg _ (List.filter_congr fun dims found => ?_)
  rw [Bool.eq_iff_iff, decide_eq_true_iff, mem_selections, selects_run_iff found]
  simp

/-- Two groups that share dimension three, one of them in two places of the tree. That dimension is
found for both, and every step permits it. -/
theorem expand_run_shared_dimension :
    let t : OperandTable :=
      ⟨[.group ⟨"m", "Position"⟩ (.ofList [(2, ⟨"m", "Position2"⟩), (3, ⟨"m", "Position3"⟩)])
          (.ofList [2, 3]),
        .group ⟨"m", "Velocity"⟩ (.ofList [(3, ⟨"m", "Velocity3"⟩), (4, ⟨"m", "Velocity4"⟩)])
          (.ofList [3, 4])]⟩
    let e : Expr := .binary .dot (.binary .add (.slot 0) (.slot 1)) (.slot 0)
    let steps : List NarrowingStep := [.fix 1 3, .narrow, .restrict 0 (.ofList [3, 4])]
    t.RepeatFree ∧
      (t.expand e).map (chosen e) = [[(0, 3), (1, 3)]] ∧
      ((t.run e steps).expand e).map (chosen e) = [[(0, 3), (1, 3)]] ∧
      (((t.run e steps).expand e).map (chosen e) =
          ((t.expand e).map (chosen e)).filter
            (fun choices => steps.all fun step => choices.all fun c => step.permits c.1 c.2) ∧
        (∀ u ∈ (t.run e steps).expand e, (u.chosen e).map Prod.fst = t.referencedGroupSlots e) ∧
        (e.narrow t).expand e = t.expand e) :=
  ⟨by decide, by decide, by decide, expand_run _ _ (by decide) _⟩

end OperandTable

end QuantityAlgebra
