import QuantityAlgebra.Population

/-!
# Populations whose groups can be relied on

Nothing keeps a member of a group from being registered as something else as well: a later group may
hide it, or list it for another dimension. In a coherent population this does not happen, and the
table is that of the lists. Then what classification says of a group is true of its members too.

Results:
* `exists_group_of_mem_rows`: whatever is classified as a group is a registered one.
* **`Coherent.classify`**: the members of whatever is classified as a group are classified as such.
-/

namespace QuantityAlgebra

/-- The member of a group for a dimension is classified as the member for that dimension. -/
def Classifier.Coherent (classifier : Classifier) : Prop :=
  ∀ q members d member, classifier q = .group members → members.get? d = some member →
    classifier member = .groupMember d

namespace Population

/-- The table is that of the lists, and each member that a group lists for a dimension is classified
as the member for it. -/
structure Coherent (p : Population) : Prop where
  rebuilt : p.rebuild = p
  members : ∀ group ∈ p.roster.groups, ∀ entry ∈ group.members.entries,
    p.classify entry.2 = .groupMember entry.1

instance (p : Population) : Decidable p.Coherent :=
  decidable_of_iff (p.rebuild = p ∧ ∀ group ∈ p.roster.groups, ∀ entry ∈ group.members.entries,
      p.classify entry.2 = .groupMember entry.1)
    ⟨fun h => ⟨h.1, h.2⟩, fun h => ⟨h.rebuilt, h.members⟩⟩

/-- A row that says of a quantity that it is a group was written by a registered group. -/
theorem exists_group_of_mem_rows {roster : Roster} {q : Quantity} {members : DimensionMap Quantity}
    (h : (q, .group members) ∈ roster.rows) :
    ∃ group ∈ roster.groups, group.quantity = q ∧ group.members = members := by
  rcases List.mem_append.mp h with listed | written
  -- The rows of scalars and of vectors never say group.
  · simp at listed
  · obtain ⟨group, held, row⟩ := List.mem_flatMap.mp written
    refine ⟨group, held, ?_⟩
    simpa [GroupEntry.rows, eq_comm] using row

/-- What classification says of a quantity stands in the table. -/
theorem mem_index_of_classify {index : Index} {q : Quantity} {classification : Classification}
    (h : index.classify q = classification) (notScalar : classification ≠ .scalar) :
    (q, classification) ∈ index := by
  rw [Index.classify] at h
  cases found : index.lookup q with
  | none =>
    rw [found] at h
    exact absurd h.symm notScalar
  | some written =>
    rw [found] at h
    obtain rfl : written = classification := h
    exact DimensionMap.mem_of_lookup_eq_some found

/-- **In a coherent population the members of a group are what the group says they are.** -/
theorem Coherent.classify {p : Population} (coherent : p.Coherent) :
    Classifier.Coherent p.classify := by
  intro q members d member isGroup bound
  -- Rebuilding changes nothing, so every row of the table was written by the lists as they are.
  have written : (q, Classification.group members) ∈ p.roster.rows := by
    have row := mem_index_of_classify isGroup (by simp)
    have indexed : p.roster.index = p.index := congrArg Population.index coherent.rebuilt
    rwa [← indexed, Roster.index, List.mem_reverse] at row
  obtain ⟨group, held, -, rfl⟩ := exists_group_of_mem_rows written
  exact coherent.members group held (d, member) (DimensionMap.mem_of_lookup_eq_some bound)

end Population

end QuantityAlgebra
