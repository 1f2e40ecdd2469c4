import QuantityAlgebra.Dimension
import QuantityAlgebra.List.Distinct

/-!
# Ordered sets of dimensions

A `DimensionSet` is a set whose elements have an order, the order in which they were first put in.
For the members of a group that order is ascending. Whoever enumerates the candidates of a group
follows it, so every operation says what order it leaves: an intersection keeps the order of its
left operand, a union appends the new elements of its right one.

A set built by `∅`, `single`, `ofList`, `∪` and `∩` holds no element twice. A set taken from a
document is the list as it was written, repeats included; `∩` still yields a set without repeats.

Collecting a list and forming a union are one loop, which puts an element behind the others unless
it is there (`toList_ofList_eq_foldl`, `toList_union_eq_foldl`).

Results: membership in each operation (`mem_single`, `mem_ofList`, `mem_inter`, `mem_union`), what
the operations leave (`nodup_ofList`, `nodup_inter`, `toList_union`, `inter_single`), and
`single?_eq_some`.
-/

namespace QuantityAlgebra

/-- A list of dimensions read as a set. The empty set is `empty`, membership is `contains`, and the
elements are passed in the order of the list (`iter`). -/
structure DimensionSet where
  /-- The elements in order. -/
  toList : List Dimension
  deriving DecidableEq, Inhabited

namespace DimensionSet

instance : EmptyCollection DimensionSet := ⟨⟨[]⟩⟩

instance : Membership Dimension DimensionSet := ⟨fun s d => d ∈ s.toList⟩

instance (d : Dimension) (s : DimensionSet) : Decidable (d ∈ s) :=
  inferInstanceAs (Decidable (d ∈ s.toList))

/-- The set of one dimension (`single`). -/
def single (d : Dimension) : DimensionSet := ⟨[d]⟩

/-- The elements of a list, each where it first occurs (`from_iter`). -/
def ofList (dimensions : List Dimension) : DimensionSet := ⟨distinct dimensions⟩

/-- The elements of `s` that are in `t`, in the order of `s` (`intersect`). -/
protected def inter (s t : DimensionSet) : DimensionSet := ofList (s.toList.filter fun d => d ∈ t)

/-- The elements of `s`, then those of `t` that are not among them, in the order of `t`
(`union`). -/
protected def union (s t : DimensionSet) : DimensionSet :=
  ⟨s.toList ++ distinct (t.toList.filter fun d => d ∉ s)⟩

instance : Inter DimensionSet := ⟨DimensionSet.inter⟩

instance : Union DimensionSet := ⟨DimensionSet.union⟩

/-- How many elements the list holds (`len`). -/
def size (s : DimensionSet) : Nat := s.toList.length

/-- Whether there is no element (`is_empty`). -/
def isEmpty (s : DimensionSet) : Bool := s.toList.isEmpty

/-- The element of a list of exactly one; nothing while there is a choice, or nothing to choose
(`as_single`). -/
def single? (s : DimensionSet) : Option Dimension :=
  match s.toList with
  | [d] => some d
  | _ => none

/-! ## Membership -/

theorem mem_def {d : Dimension} {s : DimensionSet} : d ∈ s ↔ d ∈ s.toList := Iff.rfl

@[simp] theorem not_mem_empty (d : Dimension) : d ∉ (∅ : DimensionSet) := List.not_mem_nil

@[simp] theorem mem_single {d e : Dimension} : d ∈ single e ↔ d = e := List.mem_singleton

@[simp] theorem mem_ofList {d : Dimension} {dimensions : List Dimension} :
    d ∈ ofList dimensions ↔ d ∈ dimensions :=
  mem_distinct

@[simp] theorem mem_inter {d : Dimension} {s t : DimensionSet} : d ∈ s ∩ t ↔ d ∈ s ∧ d ∈ t := by
  show d ∈ ofList _ ↔ _
  rw [mem_ofList, List.mem_filter, decide_eq_true_iff]
  rfl

@[simp] theorem mem_union {d : Dimension} {s t : DimensionSet} : d ∈ s ∪ t ↔ d ∈ s ∨ d ∈ t := by
  show d ∈ s.toList ++ distinct _ ↔ _
  by_cases h : d ∈ s.toList <;> simp [mem_def, h]

/-! ## Order and repeats -/

theorem nodup_ofList (dimensions : List Dimension) : (ofList dimensions).toList.Nodup :=
  nodup_distinct dimensions

/-- An intersection holds no element twice, whatever its operands hold. -/
theorem nodup_inter (s t : DimensionSet) : (s ∩ t).toList.Nodup := nodup_distinct _

/-- An intersection keeps the order of its left operand. -/
theorem inter_sublist (s t : DimensionSet) : (s ∩ t).toList.Sublist s.toList :=
  (distinctBy_sublist id _).trans List.filter_sublist

theorem toList_union (s t : DimensionSet) :
    (s ∪ t).toList = s.toList ++ distinct (t.toList.filter fun d => d ∉ s) := rfl

/-- Among elements without repeats an intersection is a plain filter. -/
theorem toList_inter_of_nodup {s : DimensionSet} (h : s.toList.Nodup) (t : DimensionSet) :
    (s ∩ t).toList = s.toList.filter fun d => d ∈ t := by
  show distinct _ = _
  exact distinctBy_eq_self (by simpa using h.sublist List.filter_sublist)

/-! ## One element after the other -/

/-- The part of a union behind its left operand is the right operand without repeats, less what is
there. -/
theorem toList_union_distinct (s t : DimensionSet) :
    (s ∪ t).toList = s.toList ++ (distinct t.toList).filter fun d => d ∉ s := by
  rw [toList_union, distinct_filter]

/-- A list is collected by putting each element behind the others unless it is there. -/
theorem toList_ofList_eq_foldl (dimensions : List Dimension) :
    (ofList dimensions).toList = dimensions.foldl (keepNew id) [] :=
  (foldl_keepNew_nil id dimensions).symm

/-- So are the elements of the right operand of a union, behind those of the left one. -/
theorem toList_union_eq_foldl (s t : DimensionSet) :
    (s ∪ t).toList = t.toList.foldl (keepNew id) s.toList := by
  rw [foldl_keepNew, toList_union_distinct, List.map_id]
  rfl

/-! ## Sets of at most one element -/

theorem eq_empty {s : DimensionSet} (h : ∀ d, d ∉ s) : s = ∅ := by
  obtain ⟨xs⟩ := s
  exact congrArg mk (List.eq_nil_iff_forall_not_mem.mpr h)

/-- A set without repeats is the set of one dimension if it holds that one and no other. -/
theorem eq_single {s : DimensionSet} {d : Dimension} (nodup : s.toList.Nodup)
    (h : ∀ e, e ∈ s ↔ e = d) : s = single d := by
  obtain ⟨xs⟩ := s
  have perm : xs.Perm [d] := (List.perm_ext_iff_of_nodup nodup (by simp)).mpr fun e => by
    exact (h e).trans List.mem_singleton.symm
  exact congrArg mk (List.perm_singleton.mp perm)

/-- What is left of a set limited to one dimension. -/
theorem inter_single (s : DimensionSet) (d : Dimension) :
    s ∩ single d = if d ∈ s then single d else ∅ := by
  split
  · rename_i held
    refine eq_single (nodup_inter s _) fun e => ?_
    rw [mem_inter, mem_single]
    exact ⟨fun h => h.2, fun h => ⟨h ▸ held, h⟩⟩
  · rename_i missing
    refine eq_empty fun e => ?_
    rw [mem_inter, mem_single]
    exact fun h => missing (h.2 ▸ h.1)

theorem single?_eq_some {s : DimensionSet} {d : Dimension} :
    s.single? = some d ↔ s = single d := by
  obtain ⟨xs⟩ := s
  match xs with
  | [] => simp [single?, single]
  | [x] => simp [single?, single]
  | _ :: _ :: _ => simp [single?, single]

end DimensionSet

end QuantityAlgebra
