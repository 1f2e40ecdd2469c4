import Mathlib.Data.List.Flatten
import Mathlib.Data.List.Forall2
import QuantityAlgebra.Expansion
import QuantityAlgebra.Proofs.Typing.Consistency

/-!
# Expansion enumerates the accepted selections

A selection takes one candidate for each of some slots. `selections` lists them, the first slot
varying slowest, and `fixAll` fixes a table as a selection says. Expansion, which fixes one slot
after the other, is an enumeration of selections: its tables are those in which the accepted
selections of the referenced group slots are fixed.

The point that makes this work is that fixing a slot leaves the candidates of every other slot
alone, so the candidates a later slot is branched on are those it had at the start.

Results:
* `mem_selections`, `pairwise_selections`: what is selected, and in which order.
* **`expand_eq`**: expansion is the list of accepted selections, each fixed.
* `mem_accepted`: accepted are the selections under which the tree is accepted as it stands.
-/

namespace QuantityAlgebra

variable {t u : OperandTable} {slot : Nat} {slots : List Nat} {dims : List Dimension} {e : Expr}

/-- The choice that gives each of the slots the dimension at its place; any other slot gets zero. -/
def Choice.ofSelection (slots : List Nat) (dims : List Dimension) : Choice :=
  fun slot => ((slots.zip dims).lookup slot).getD 0

theorem Choice.ofSelection_head (slot : Nat) (slots : List Nat) (d : Dimension)
    (dims : List Dimension) : ofSelection (slot :: slots) (d :: dims) slot = d := by
  simp [ofSelection]

theorem Choice.ofSelection_tail {slot other : Nat} (differ : other ≠ slot) (slots : List Nat)
    (d : Dimension) (dims : List Dimension) :
    ofSelection (slot :: slots) (d :: dims) other = ofSelection slots dims other := by
  simp [ofSelection, List.lookup_cons, beq_eq_false_iff_ne.mpr differ]

namespace OperandTable

/-- One candidate for each of the slots, in every way, the first slot varying slowest. -/
def selections : List Nat → OperandTable → List (List Dimension)
  | [], _ => [[]]
  | slot :: slots, t =>
    (t.candidates slot).toList.flatMap fun d => (selections slots t).map (d :: ·)

/-- The table with each of the slots fixed at the dimension at its place. -/
def fixAll : List Nat → List Dimension → OperandTable → OperandTable
  | slot :: slots, d :: dims, t => fixAll slots dims (t.fix slot d)
  | _, _, t => t

/-- Each dimension is a candidate of the slot at its place. -/
def Selects (t : OperandTable) (slots : List Nat) (dims : List Dimension) : Prop :=
  List.Forall₂ (fun slot d => d ∈ t.candidates slot) slots dims

/-! ## The list of selections -/

theorem mem_selections : dims ∈ selections slots t ↔ t.Selects slots dims := by
  induction slots generalizing dims with
  | nil => simp [selections, Selects]
  | cons slot slots ih =>
    simp only [selections, List.mem_flatMap, List.mem_map, Selects, List.forall₂_cons_left_iff]
    constructor
    · rintro ⟨d, held, rest, selected, rfl⟩
      exact ⟨d, rest, held, ih.mp selected, rfl⟩
    · rintro ⟨d, rest, held, selected, rfl⟩
      exact ⟨d, held, rest, ih.mpr selected, rfl⟩

/-- Selections come in the lexicographic order of the orders in which candidates are held. -/
theorem pairwise_selections {r : Dimension → Dimension → Prop}
    (ordered : ∀ slot ∈ slots, (t.candidates slot).toList.Pairwise r) :
    (selections slots t).Pairwise (List.Lex r) := by
  induction slots with
  | nil => exact List.pairwise_singleton _ _
  | cons slot slots ih =>
    rw [selections, List.pairwise_flatMap]
    constructor
    · intro d _
      have rest := ih fun other h => ordered other (List.mem_cons_of_mem _ h)
      exact List.pairwise_map.mpr (rest.imp List.Lex.cons)
    · refine (ordered slot List.mem_cons_self).imp fun lt x hx y hy => ?_
      obtain ⟨_, -, rfl⟩ := List.mem_map.mp hx
      obtain ⟨_, -, rfl⟩ := List.mem_map.mp hy
      exact List.Lex.rel lt

theorem nodup_selections (repeatFree : ∀ slot ∈ slots, (t.candidates slot).toList.Nodup) :
    (selections slots t).Nodup := by
  refine (pairwise_selections (r := (· ≠ ·)) repeatFree).imp fun {a b} lex same => ?_
  subst same
  exact List.lex_irrefl (fun _ h => h rfl) a lex

theorem selections_congr (same : ∀ slot ∈ slots, t.candidates slot = u.candidates slot) :
    selections slots t = selections slots u := by
  induction slots with
  | nil => rfl
  | cons slot slots ih =>
    rw [selections, selections, same slot List.mem_cons_self,
      ih fun other h => same other (List.mem_cons_of_mem _ h)]

/-- A table with fewer candidates has fewer selections, in the same order. -/
theorem selections_sublist (narrowed : t.Narrows u) :
    (selections slots t).Sublist (selections slots u) := by
  induction slots with
  | nil => exact List.Sublist.refl _
  | cons slot slots ih =>
    exact ((narrowed.candidates slot).flatMap _).trans
      (List.Sublist.flatMap_right _ fun d _ => ih.map _)

/-- A sublist of a list without repeats is what is left when the rest is dropped. -/
theorem eq_filter_of_sublist {α : Type} [DecidableEq α] {xs ys : List α} (h : xs.Sublist ys)
    (nodup : ys.Nodup) : xs = ys.filter (· ∈ xs) := by
  induction h with
  | slnil => rfl
  | @cons xs ys y h ih =>
    obtain ⟨missing, nodup⟩ := List.nodup_cons.mp nodup
    rw [List.filter_cons_of_neg (by simpa using fun found => missing (h.subset found))]
    exact ih nodup
  | @cons_cons xs ys x h ih =>
    obtain ⟨missing, nodup⟩ := List.nodup_cons.mp nodup
    rw [List.filter_cons_of_pos (by simp)]
    refine congrArg (x :: ·) ((ih nodup).trans (List.filter_congr fun y found => ?_))
    simp [ne_of_mem_of_not_mem found missing]

/-- A selection pairs each slot with what its choice gives it. -/
theorem zip_eq_map_ofSelection (distinct : slots.Nodup) (length : slots.length = dims.length) :
    slots.zip dims = slots.map fun slot => (slot, Choice.ofSelection slots dims slot) := by
  induction slots generalizing dims with
  | nil => rfl
  | cons slot slots ih =>
    obtain ⟨d, rest, rfl⟩ := List.exists_cons_of_length_eq_add_one length.symm
    obtain ⟨missing, distinct⟩ := List.nodup_cons.mp distinct
    rw [List.zip_cons_cons, List.map_cons, Choice.ofSelection_head,
      ih distinct (Nat.succ.inj length)]
    refine congrArg ((slot, d) :: ·) (List.map_congr_left fun other found => ?_)
    rw [Choice.ofSelection_tail (ne_of_mem_of_not_mem found missing)]

theorem forall₂_iff_ofSelection {R : Nat → Dimension → Prop} (distinct : slots.Nodup)
    (length : slots.length = dims.length) :
    List.Forall₂ R slots dims ↔ ∀ slot ∈ slots, R slot (Choice.ofSelection slots dims slot) := by
  rw [List.forall₂_iff_zip, and_iff_right length, zip_eq_map_ofSelection distinct length]
  simp

/-- What follows a choice makes that choice. -/
theorem ofSelection_map (distinct : slots.Nodup) (choice : Choice) :
    ∀ slot ∈ slots, Choice.ofSelection slots (slots.map choice) slot = choice slot := by
  induction slots with
  | nil => exact fun _ found => absurd found List.not_mem_nil
  | cons first slots ih =>
    obtain ⟨missing, distinct⟩ := List.nodup_cons.mp distinct
    intro slot found
    rw [List.map_cons]
    rcases List.mem_cons.mp found with rfl | found
    · rw [Choice.ofSelection_head]
    · rw [Choice.ofSelection_tail (ne_of_mem_of_not_mem found missing), ih distinct slot found]

/-! ## Fixing slots -/

theorem candidates_restrict_self (t : OperandTable) (slot : Nat) (s : DimensionSet) :
    (t.restrict slot s).candidates slot = t.candidates slot ∩ s := by
  unfold candidates
  rw [get?_restrict, if_pos rfl]
  cases t.get? slot with
  | none => rfl
  | some operand => cases operand <;> rfl

theorem candidates_restrict_of_ne {other : Nat} (differ : slot ≠ other) (s : DimensionSet) :
    (t.restrict slot s).candidates other = t.candidates other := by
  unfold candidates
  rw [get?_restrict, if_neg differ]

theorem candidates_fix_self {d : Dimension} (held : d ∈ t.candidates slot) :
    (t.fix slot d).candidates slot = .single d := by
  rw [fix, candidates_restrict_self, DimensionSet.inter_single, if_pos held]

theorem narrows_fixAll (slots : List Nat) (dims : List Dimension) (t : OperandTable) :
    (fixAll slots dims t).Narrows t := by
  induction slots generalizing dims t with
  | nil => exact Narrows.refl t
  | cons slot slots ih =>
    cases dims with
    | nil => exact Narrows.refl t
    | cons d dims => exact (ih dims _).trans (narrows_restrict t slot _)

theorem candidates_fixAll_of_not_mem (missing : slot ∉ slots) (dims : List Dimension)
    (t : OperandTable) : (fixAll slots dims t).candidates slot = t.candidates slot := by
  induction slots generalizing dims t with
  | nil => rfl
  | cons other slots ih =>
    cases dims with
    | nil => rfl
    | cons d dims =>
      obtain ⟨differ, missing⟩ := not_or.mp (mt List.mem_cons.mpr missing)
      rw [fixAll, ih missing, fix, candidates_restrict_of_ne (Ne.symm differ)]

/-- Fixing one slot leaves the candidates of the others alone. -/
theorem candidates_fix_of_not_mem {d : Dimension} (missing : slot ∉ slots) :
    ∀ other ∈ slots, (t.fix slot d).candidates other = t.candidates other :=
  fun _ found => candidates_restrict_of_ne (ne_of_mem_of_not_mem found missing).symm _

/-- **A fixed selection is settled**: each slot is down to the dimension selected for it. -/
theorem candidates_fixAll (distinct : slots.Nodup) (selected : t.Selects slots dims) :
    ∀ slot ∈ slots,
      (fixAll slots dims t).candidates slot = .single (Choice.ofSelection slots dims slot) := by
  induction slots generalizing dims t with
  | nil => exact fun _ h => absurd h List.not_mem_nil
  | cons first slots ih =>
    obtain ⟨d, rest, held, later, rfl⟩ := List.forall₂_cons_left_iff.mp selected
    obtain ⟨missing, distinct⟩ := List.nodup_cons.mp distinct
    intro slot found
    rw [fixAll]
    rcases List.mem_cons.mp found with rfl | found
    · rw [candidates_fixAll_of_not_mem missing, candidates_fix_self held, Choice.ofSelection_head]
    · have differ : slot ≠ first := fun same => missing (same ▸ found)
      rw [Choice.ofSelection_tail differ]
      refine ih distinct ?_ slot found
      rw [← mem_selections, selections_congr (candidates_fix_of_not_mem missing), mem_selections]
      exact later

/-! ## Expansion -/

/-- Branching on slots one after the other fixes every selection of them. -/
theorem branches_eq (distinct : slots.Nodup) :
    branches slots t = (selections slots t).map fun dims => fixAll slots dims t := by
  induction slots generalizing t with
  | nil => rfl
  | cons slot slots ih =>
    obtain ⟨missing, distinct⟩ := List.nodup_cons.mp distinct
    rw [branches, selections, List.map_flatMap]
    congr 1
    funext d
    rw [ih distinct, selections_congr (candidates_fix_of_not_mem missing), List.map_map]
    rfl

/-- The selections of the referenced group slots that verification lets through. -/
def accepted (t : OperandTable) (e : Expr) : List (List Dimension) :=
  (selections (t.referencedGroupSlots e) t).filter fun dims =>
    e.verifies (fixAll (t.referencedGroupSlots e) dims t)

/-- **Expansion is the list of accepted selections**, each fixed. -/
theorem expand_eq (t : OperandTable) (e : Expr) :
    t.expand e = (t.accepted e).map fun dims => fixAll (t.referencedGroupSlots e) dims t := by
  rw [expand, branches_eq (t.nodup_referencedGroupSlots e), List.filter_map]
  rfl

/-- The choice a selection of the referenced group slots makes. -/
def choiceOf (t : OperandTable) (e : Expr) (dims : List Dimension) : Choice :=
  .ofSelection (t.referencedGroupSlots e) dims

/-- A selection follows the choice it makes. -/
theorem eq_map_choiceOf (length : (t.referencedGroupSlots e).length = dims.length) :
    dims = (t.referencedGroupSlots e).map (t.choiceOf e dims) := by
  have paired := congrArg (List.map Prod.snd)
    (zip_eq_map_ofSelection (t.nodup_referencedGroupSlots e) length)
  rwa [List.map_snd_zip (Nat.le_of_eq length.symm), List.map_map] at paired

theorem settled_fixAll (selected : t.Selects (t.referencedGroupSlots e) dims) :
    (fixAll (t.referencedGroupSlots e) dims t).Settled (t.choiceOf e dims) e := by
  intro slot found
  rw [(narrows_fixAll _ dims t).referencedGroupSlots e] at found
  exact candidates_fixAll (t.nodup_referencedGroupSlots e) selected slot found

theorem Narrows.accepts_iff (narrowed : t.Narrows u) {choice : Choice} :
    t.Accepts choice e ↔ u.Accepts choice e := by
  unfold Accepts
  simp only [narrowed.hasType_iff, narrowed.get?_eq_none_iff]

/-- A fixed selection is verified if the tree is accepted, over the table as it stands. -/
theorem verifies_fixAll_iff (selected : t.Selects (t.referencedGroupSlots e) dims) :
    e.verifies (fixAll (t.referencedGroupSlots e) dims t) = true ↔
      t.Accepts (t.choiceOf e dims) e := by
  rw [verifies_iff_accepts (settled_fixAll selected), (narrows_fixAll _ dims t).accepts_iff]

theorem mem_accepted :
    dims ∈ t.accepted e ↔
      t.Selects (t.referencedGroupSlots e) dims ∧ t.Accepts (t.choiceOf e dims) e := by
  rw [accepted, List.mem_filter, mem_selections]
  exact and_congr_right verifies_fixAll_iff

end OperandTable

end QuantityAlgebra
