import Mathlib.Data.List.Nodup
import QuantityAlgebra.Document.Population

/-!
# Sets with an order

A set of dimensions is a list, and every decision on dimensions reads that list: enumeration follows
its order, and a dimension is fixed when the list is down to one. So laws of sets have to hold as
equations of lists. They rest on one invariant, that no element is listed twice. Every operation
keeps it (`Built.nodup`); a set that is read from a document need not have it, as the document's
list is taken as it stands. Over such sets an intersection still has the invariant, and a union
brings in no repeat that its left operand does not have.

An operation that drops repeats can do so before or after it leaves elements out
(`distinct_filter`), so both operations are associative over all sets.

Results:
* `union_assoc`, `inter_assoc`, `union_self`, `inter_self`: equations of lists.
* `single?_eq_some_iff_forall`: without repeats one element is left exactly if there is no other.
* `one_lt_count_union`: which elements a union repeats.
* **`Built.nodup`**: no operation repeats an element.
* **`built_sets_are_ordered`**: the laws of sets, over whatever the operations build.
-/

namespace QuantityAlgebra.DimensionSet

variable {s t u : DimensionSet}

theorem ext (same : s.toList = t.toList) : s = t := congrArg mk same

/-! ## Equations of lists -/

theorem toList_union_of_nodup (s : DimensionSet) (h : t.toList.Nodup) :
    (s ∪ t).toList = s.toList ++ t.toList.filter fun d => d ∉ s := by
  rw [toList_union_distinct, distinct_eq_self h]

theorem toList_inter (s t : DimensionSet) :
    (s ∩ t).toList = (distinct s.toList).filter fun d => d ∈ t :=
  distinct_filter _ _

/-- **A union can be formed in any grouping.** -/
theorem union_assoc (s t u : DimensionSet) : s ∪ t ∪ u = s ∪ (t ∪ u) := by
  refine ext ?_
  have new : (distinct (t ∪ u).toList).filter (fun d => d ∉ s) =
      (distinct t.toList).filter (fun d => d ∉ s) ++
        (distinct u.toList).filter fun d => d ∉ s ∪ t := by
    rw [toList_union_distinct, distinct_append,
      distinct_eq_self ((nodup_distinct u.toList).sublist List.filter_sublist),
      List.filter_filter, List.filter_append, List.filter_filter]
    congr 1
    refine List.filter_congr fun d _ => ?_
    rw [Bool.eq_iff_iff]
    simp [← mem_def]
  rw [toList_union_distinct, toList_union_distinct s t, toList_union_distinct s (t ∪ u), new,
    List.append_assoc]

/-- **An intersection can be formed in any grouping.** -/
theorem inter_assoc (s t u : DimensionSet) : s ∩ t ∩ u = s ∩ (t ∩ u) := by
  refine ext ?_
  rw [toList_inter_of_nodup (nodup_inter s t), toList_inter, toList_inter, List.filter_filter]
  refine List.filter_congr fun d _ => ?_
  rw [Bool.eq_iff_iff]
  simp [and_comm]

/-- A union with itself adds nothing. -/
theorem union_self (s : DimensionSet) : s ∪ s = s := by
  refine ext ?_
  rw [toList_union, List.filter_eq_nil_iff.mpr (by simp [mem_def])]
  exact List.append_nil _

theorem inter_self (h : s.toList.Nodup) : s ∩ s = s := by
  refine ext ?_
  rw [toList_inter_of_nodup h, List.filter_eq_self.mpr (by simp [mem_def])]

/-! ## Repeats -/

theorem nodup_union (h : s.toList.Nodup) (t : DimensionSet) : (s ∪ t).toList.Nodup := by
  rw [toList_union]
  refine List.nodup_append.mpr ⟨h, nodup_distinct _, fun d hd e he same => ?_⟩
  subst same
  simp [mem_def, hd] at he

/-- **A union repeats what its left operand repeats**, and nothing else. -/
theorem one_lt_count_union (s t : DimensionSet) (d : Dimension) :
    1 < (s ∪ t).toList.count d ↔ 1 < s.toList.count d := by
  rw [toList_union, List.count_append]
  by_cases held : d ∈ s
  · have notNew : d ∉ distinct (t.toList.filter fun d => d ∉ s) := by simp [held]
    rw [List.count_eq_zero.mpr notNew, Nat.add_zero]
  · have once := List.nodup_iff_count.mp (nodup_distinct (t.toList.filter fun d => d ∉ s)) d
    have none : s.toList.count d = 0 := List.count_eq_zero.mpr held
    omega

/-- Without repeats, one element is left exactly if there is no other. -/
theorem single?_eq_some_iff_forall (h : s.toList.Nodup) {d : Dimension} :
    s.single? = some d ↔ ∀ e, e ∈ s ↔ e = d := by
  rw [single?_eq_some]
  exact ⟨fun same e => same ▸ mem_single, eq_single h⟩

/-! ## What the operations build -/

/-- The sets that come from the operations, none of them read from a document. -/
inductive Built : DimensionSet → Prop
  | empty : Built ∅
  | single (d : Dimension) : Built (.single d)
  | collect (dimensions : List Dimension) : Built (.ofList dimensions)
  | union {s t : DimensionSet} : Built s → Built t → Built (s ∪ t)
  | inter {s t : DimensionSet} : Built s → Built t → Built (s ∩ t)

/-- **No operation repeats an element.** -/
theorem Built.nodup (built : s.Built) : s.toList.Nodup := by
  induction built with
  | empty => exact List.nodup_nil
  | single d => exact List.nodup_singleton d
  | collect dimensions => exact nodup_ofList dimensions
  | union _ _ ih _ => exact nodup_union ih _
  | inter _ _ _ _ => exact nodup_inter _ _

/-- **Sets with an order.** Whatever the operations build lists no element twice; membership in a
union and an intersection is that of sets; an intersection is a subsequence of its left operand, a
union its left operand followed by the new elements of its right one in their order; both are
associative and idempotent as lists; and one dimension is left exactly if it is the only element. Of
sets with repeats an intersection has none, and a union those of its left operand. -/
theorem built_sets_are_ordered :
    (∀ s t u : DimensionSet, s.Built → t.Built → u.Built →
      s.toList.Nodup ∧
      (∀ d, (d ∈ s ∪ t ↔ d ∈ s ∨ d ∈ t) ∧ (d ∈ s ∩ t ↔ d ∈ s ∧ d ∈ t)) ∧
      (s ∩ t).toList.Sublist s.toList ∧
      (s ∪ t).toList = s.toList ++ t.toList.filter (fun d => d ∉ s) ∧
      (s ∪ t ∪ u = s ∪ (t ∪ u) ∧ s ∩ t ∩ u = s ∩ (t ∩ u)) ∧
      (s ∪ s = s ∧ s ∩ s = s) ∧
      ∀ d, s.single? = some d ↔ ∀ e, e ∈ s ↔ e = d) ∧
    ∀ s t : DimensionSet, (s ∩ t).toList.Nodup ∧
      ∀ d, 1 < (s ∪ t).toList.count d ↔ 1 < s.toList.count d := by
  refine ⟨fun s t u hs ht _ => ?_, fun s t => ⟨nodup_inter s t, one_lt_count_union s t⟩⟩
  exact ⟨hs.nodup, fun d => ⟨mem_union, mem_inter⟩, inter_sublist s t,
    toList_union_of_nodup s ht.nodup, ⟨union_assoc s t u, inter_assoc s t u⟩,
    ⟨union_self s, inter_self hs.nodup⟩, fun _ => single?_eq_some_iff_forall hs.nodup⟩

/-- A list collected out of order, a union and an intersection made from it; and a set read from a
document that repeats its only element, so that it does not count as one. -/
theorem built_sets_are_ordered_collected :
    let s : DimensionSet := .ofList [4, 2, 4, 3]
    let t : DimensionSet := .ofList [3, 4] ∪ .single 7
    let u : DimensionSet := .ofList [7, 2] ∩ t
    let read : DimensionSet := ⟨[2, 2]⟩
    s.Built ∧ t.Built ∧ u.Built ∧ (s ∪ t).toList = [4, 2, 3, 7] ∧ s ∪ t ∪ u = s ∪ (t ∪ u) ∧
      u.single? = some 7 ∧ Document.parse "[2,2]" = .ok read ∧ read.single? = none ∧
      (read ∩ read).toList.Nodup ∧ 1 < (read ∪ s).toList.count 2 ∧
      ¬1 < (s ∪ read).toList.count 2 := by
  intro s t u read
  have hs : s.Built := .collect _
  have ht : t.Built := .union (.collect _) (.single 7)
  have hu : u.Built := .inter (.collect _) ht
  obtain ⟨laws, repeats⟩ := built_sets_are_ordered
  obtain ⟨-, -, -, union, ⟨assoc, -⟩, -⟩ := laws s t u hs ht hu
  obtain ⟨-, -, -, -, -, -, left⟩ := laws u t s hu ht hs
  have only : u = .single 7 := by decide
  have doubled : 1 < (read ∪ s).toList.count 2 := ((repeats read s).2 2).mpr (by decide)
  have notDoubled : ¬1 < (s ∪ read).toList.count 2 := fun more =>
    absurd (((repeats s read).2 2).mp more) (by decide)
  refine ⟨hs, ht, hu, ?_, assoc, (left 7).mpr fun e => only ▸ mem_single, rfl, rfl,
    (repeats read read).1, doubled, notDoubled⟩
  rw [union]
  decide

end QuantityAlgebra.DimensionSet
