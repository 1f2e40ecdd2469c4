import QuantityAlgebra.Proofs.Population.Classified
import QuantityAlgebra.Typing.Kind

/-!
# Members of groups are vectors

Nothing keeps a member of a group from being registered as something else as well, and then it may
be classified for another dimension, or as a group of its own. It is never classified as a scalar:
the group that has it as a member mentions it, so the last group that mentions it decides, and
whatever a group writes of a quantity is a vector. So for kinds it does not matter whether the
registrations overlap, nor whether the lists were edited since the table was computed.

Results:
* `Roster.vectorMembers_index`: of the table of any lists.
* **`Population.vectorMembers_run`**: of a population after any run of edits.
-/

namespace QuantityAlgebra

/-- Whatever is a member of something classified as a group is of the kind of vectors. -/
def Classifier.VectorMembers (classifier : Classifier) : Prop :=
  ∀ q members d member, classifier q = .group members → members.get? d = some member →
    Kind.ofClassification (classifier member) = .vector

namespace Roster

variable {roster : Roster} {q : Quantity} {c : Classification}

/-- What lists declare of a quantity that some group mentions is a vector. -/
theorem Declares.kind_of_mentions {entry : GroupEntry} (declared : roster.Declares q c)
    (listed : entry ∈ roster.groups) (mentions : entry.Mentions q) :
    Kind.ofClassification c = .vector := by
  cases declared with
  | group | member => rfl
  | vector ungrouped | scalar ungrouped => exact absurd mentions (ungrouped entry listed)

/-- **The members of a group are vectors**, as any lists are tabled. -/
theorem vectorMembers_index (roster : Roster) :
    Classifier.VectorMembers roster.index.classify := by
  intro q members d member classified bound
  have row := Population.mem_index_of_classify classified (by simp)
  obtain ⟨entry, listed, -, rfl⟩ :=
    Population.exists_group_of_mem_rows (List.mem_reverse.mp row)
  have mentions : entry.Mentions member :=
    Or.inr (List.mem_map_of_mem (DimensionMap.mem_of_lookup_eq_some bound))
  exact (classify_index_iff.mp rfl).kind_of_mentions listed mentions

end Roster

/-- **So they are in a population after any run of edits**, whatever its table was computed from. -/
theorem Population.vectorMembers_run (edits : List Edit) :
    Classifier.VectorMembers (run {} edits).classify := by
  have tabled : (run {} edits).classify = (tabled edits).index.classify := by
    rw [Population.classify, index_run]
  exact tabled ▸ Roster.vectorMembers_index _

end QuantityAlgebra
