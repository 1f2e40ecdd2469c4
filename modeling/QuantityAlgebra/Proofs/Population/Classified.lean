import Mathlib.Data.List.DropRight
import QuantityAlgebra.Document.Population
import QuantityAlgebra.Proofs.Population.Coherent

/-!
# What a population classifies by

`Roster.Declares` is what three lists say of a quantity, without a table: the last group that
mentions it decides, as the group itself or as its member; else the last vector of that name; else
it is a scalar. The table of a roster says the same, because it is searched from the row written
last, and rows are written group by group, members before the group they belong to.

Over a run of edits the lists change at every step, the table only at some. `tabled` is the roster
it was computed from, read off the run: the lists as they stood after the last edit that touched the
table, or no lists if that edit put in an empty one. One edit keeps the table in step with `tabled`,
so by induction on the run, from its end, the table is always that of `tabled` (`index_run`).

Results:
* **`Roster.classify_index_iff`**: the table of a roster answers what the lists say.
* **`index_run`**: after any run, the table is that of the tabled roster.
* **`classify_run`**: so a population classifies by the lists as they were last tabled.
-/

namespace QuantityAlgebra

/-! ## What the lists say -/

/-- The group is the quantity, or has it among its members. -/
def GroupEntry.Mentions (entry : GroupEntry) (q : Quantity) : Prop :=
  entry.quantity = q ∨ q ∈ entry.members.values

instance (entry : GroupEntry) (q : Quantity) : Decidable (entry.Mentions q) :=
  inferInstanceAs (Decidable (_ ∨ _))

/-- What three lists say of a quantity. -/
inductive Roster.Declares (roster : Roster) (q : Quantity) : Classification → Prop
  /-- The last group that mentions it is that group. -/
  | group {before after : List GroupEntry} {entry : GroupEntry} :
      roster.groups = before ++ entry :: after → (∀ later ∈ after, ¬later.Mentions q) →
      entry.quantity = q → Declares roster q (.group entry.members)
  /-- The last group that mentions it has it as a member, for this dimension and no greater one. -/
  | member {before after : List GroupEntry} {entry : GroupEntry} {d : Dimension} :
      roster.groups = before ++ entry :: after → (∀ later ∈ after, ¬later.Mentions q) →
      entry.quantity ≠ q → (d, q) ∈ entry.members.entries →
      (∀ e, (e, q) ∈ entry.members.entries → e ≤ d) → Declares roster q (.groupMember d)
  /-- No group mentions it, and this is the last vector of its name. -/
  | vector {before after : List VectorEntry} {entry : VectorEntry} :
      (∀ group ∈ roster.groups, ¬group.Mentions q) →
      roster.vectors = before ++ entry :: after → (∀ later ∈ after, later.quantity ≠ q) →
      entry.quantity = q → Declares roster q (.fixedVector entry.dimension)
  /-- Neither a group nor a vector mentions it. -/
  | scalar :
      (∀ group ∈ roster.groups, ¬group.Mentions q) →
      (∀ entry ∈ roster.vectors, entry.quantity ≠ q) → Declares roster q .scalar

/-- Among the elements of a list that have a property there is a last. -/
theorem exists_last {α : Type} {p : α → Prop} [DecidablePred p] {xs : List α}
    (h : ∃ x ∈ xs, p x) :
    ∃ before x after, xs = before ++ x :: after ∧ p x ∧ ∀ y ∈ after, ¬p y := by
  induction xs with
  | nil => simp at h
  | cons x xs ih =>
    by_cases later : ∃ y ∈ xs, p y
    · obtain ⟨before, y, after, rfl, holds, none⟩ := ih later
      exact ⟨x :: before, y, after, rfl, holds, none⟩
    · have none : ∀ y ∈ xs, ¬p y := fun y found holds => later ⟨y, found, holds⟩
      obtain ⟨y, found, holds⟩ := h
      rcases List.mem_cons.mp found with rfl | found
      · exact ⟨[], y, xs, rfl, holds, none⟩
      · exact absurd holds (none y found)

/-- Of the dimensions for which a map lists a value one is the greatest. -/
theorem exists_greatest {α : Type} [DecidableEq α] {m : DimensionMap α} {a : α}
    (h : a ∈ m.values) :
    ∃ d, (d, a) ∈ m.entries ∧ ∀ e, (e, a) ∈ m.entries → e ≤ d := by
  obtain ⟨low, ⟨d, b⟩, high, entries, same, none⟩ := exists_last (List.mem_map.mp h)
  obtain rfl : b = a := same
  refine ⟨d, by simp [entries], fun e found => ?_⟩
  -- The entries ascend, so the last that lists the value is that of the greatest dimension.
  have sorted := m.sorted
  rw [entries] at sorted found
  rcases List.mem_append.mp found with before | behind
  · exact UInt32.le_of_lt ((List.pairwise_append.mp sorted).2.2 _ before _ List.mem_cons_self)
  · rcases List.mem_cons.mp behind with same | later
    · exact UInt32.le_of_eq (congrArg Prod.fst same)
    · exact absurd rfl (none _ later)

namespace Roster

variable {roster : Roster} {q : Quantity} {c : Classification}

/-- The lists say something of every quantity. -/
theorem exists_declares (roster : Roster) (q : Quantity) : ∃ c, roster.Declares q c := by
  by_cases grouped : ∃ entry ∈ roster.groups, entry.Mentions q
  · obtain ⟨before, entry, after, split, mentions, last⟩ := exists_last grouped
    by_cases named : entry.quantity = q
    · exact ⟨_, .group split last named⟩
    · obtain ⟨d, listed, greatest⟩ := exists_greatest (mentions.resolve_left named)
      exact ⟨_, .member split last named listed greatest⟩
  · have ungrouped : ∀ entry ∈ roster.groups, ¬entry.Mentions q :=
      fun entry found mentions => grouped ⟨entry, found, mentions⟩
    by_cases listed : ∃ entry ∈ roster.vectors, entry.quantity = q
    · obtain ⟨before, entry, after, split, named, last⟩ := exists_last listed
      exact ⟨_, .vector ungrouped split last named⟩
    · exact ⟨_, .scalar ungrouped fun entry found named => listed ⟨entry, found, named⟩⟩

/-! ## What the table says -/

/-- The row written last for a quantity is the one that is found. -/
theorem classify_reverse_of_last {before after : List (Quantity × Classification)}
    (last : ∀ row ∈ after, row.1 ≠ q) :
    Index.classify (before ++ (q, c) :: after).reverse q = c := by
  have found : (before ++ (q, c) :: after).reverse.lookup q = some c := by
    refine List.lookup_eq_some_iff.mpr ⟨after.reverse, before.reverse, by simp, fun row held => ?_⟩
    simpa using (last row (List.mem_reverse.mp held)).symm
  rw [Index.classify, found, Option.getD_some]

/-- A group writes rows for the quantities it mentions only. -/
theorem mentions_of_mem_rows {entry : GroupEntry} {row : Quantity × Classification}
    (held : row ∈ entry.rows) : entry.Mentions row.1 := by
  rcases List.mem_append.mp held with member | named
  · obtain ⟨e, found, rfl⟩ := List.mem_map.mp member
    exact Or.inr (List.mem_map_of_mem found)
  · obtain rfl := List.mem_singleton.mp named
    exact Or.inl rfl

/-- Groups that do not mention a quantity write no row for it. -/
theorem ne_of_mem_flatMap_rows {groups : List GroupEntry}
    (unmentioned : ∀ entry ∈ groups, ¬entry.Mentions q) :
    ∀ row ∈ groups.flatMap GroupEntry.rows, row.1 ≠ q := by
  rintro row held rfl
  obtain ⟨entry, found, written⟩ := List.mem_flatMap.mp held
  exact unmentioned entry found (mentions_of_mem_rows written)

/-- Behind the row of a member for its greatest dimension, a group writes no other row for it. -/
theorem rows_of_member {entry : GroupEntry} {d : Dimension} (named : entry.quantity ≠ q)
    (listed : (d, q) ∈ entry.members.entries)
    (greatest : ∀ e, (e, q) ∈ entry.members.entries → e ≤ d) :
    ∃ before after, entry.rows = before ++ (q, .groupMember d) :: after ∧
      ∀ row ∈ after, row.1 ≠ q := by
  obtain ⟨low, high, entries⟩ := List.append_of_mem listed
  refine ⟨low.map fun e => (e.2, .groupMember e.1),
    high.map (fun e => (e.2, .groupMember e.1)) ++ [(entry.quantity, .group entry.members)],
    by simp [GroupEntry.rows, entries], fun row held => ?_⟩
  rcases List.mem_append.mp held with above | own
  · rintro rfl
    obtain ⟨⟨e, member⟩, found, rfl⟩ := List.mem_map.mp above
    have sorted := entry.members.sorted
    rw [entries] at sorted
    have greater : d < e := (List.pairwise_cons.mp (List.pairwise_append.mp sorted).2.1).1 _ found
    exact UInt32.not_lt.mpr (greatest e (by simp [entries, found])) greater
  · obtain rfl := List.mem_singleton.mp own
    exact named

/-- The rows of a roster, around those of one group. -/
theorem rows_of_groups {before after : List GroupEntry} {entry : GroupEntry}
    (split : roster.groups = before ++ entry :: after) :
    ∃ earlier, roster.rows = earlier ++ entry.rows ++ after.flatMap GroupEntry.rows := by
  rw [rows, split, List.flatMap_append, List.flatMap_cons, ← List.append_assoc,
    ← List.append_assoc]
  exact ⟨_, rfl⟩

/-- The table answers what the lists say. -/
theorem classify_index_of_declares (declared : roster.Declares q c) :
    roster.index.classify q = c := by
  cases declared with
  | @group before after entry split last named =>
    obtain ⟨earlier, rows⟩ := rows_of_groups split
    rw [index, rows, GroupEntry.rows, named, ← List.append_assoc earlier, List.append_assoc _ [_],
      List.singleton_append]
    exact classify_reverse_of_last (ne_of_mem_flatMap_rows last)
  | @member before after entry d split last named listed greatest =>
    obtain ⟨earlier, rows⟩ := rows_of_groups split
    obtain ⟨low, high, written, above⟩ := rows_of_member named listed greatest
    rw [index, rows, written]
    simp only [List.append_assoc, List.cons_append]
    rw [← List.append_assoc]
    refine classify_reverse_of_last fun row held => ?_
    rcases List.mem_append.mp held with held | held
    · exact above row held
    · exact ne_of_mem_flatMap_rows last row held
  | @vector before after entry ungrouped split last named =>
    rw [index, rows, split, List.map_append, List.map_cons, named]
    simp only [List.append_assoc, List.cons_append]
    rw [← List.append_assoc]
    refine classify_reverse_of_last fun row held => ?_
    rcases List.mem_append.mp held with held | held
    · obtain ⟨later, found, rfl⟩ := List.mem_map.mp held
      exact last later found
    · exact ne_of_mem_flatMap_rows ungrouped row held
  | scalar ungrouped unlisted =>
    by_contra notScalar
    have written := List.mem_reverse.mp (Population.mem_index_of_classify rfl notScalar)
    rcases List.mem_append.mp written with listed | grouped
    · rcases List.mem_append.mp listed with isScalar | isVector
      · obtain ⟨_, _, row⟩ := List.mem_map.mp isScalar
        exact notScalar (congrArg Prod.snd row).symm
      · obtain ⟨entry, found, row⟩ := List.mem_map.mp isVector
        exact unlisted entry found (congrArg Prod.fst row)
    · exact ne_of_mem_flatMap_rows ungrouped _ grouped rfl

/-- **The table of a roster answers what its lists say**, and they say one thing. -/
theorem classify_index_iff : roster.index.classify q = c ↔ roster.Declares q c := by
  refine ⟨fun answer => ?_, classify_index_of_declares⟩
  obtain ⟨said, declared⟩ := exists_declares roster q
  rwa [← answer, classify_index_of_declares declared]

/-- Of the three lists only those of vectors and groups matter. -/
theorem Declares.of_lists {other : Roster} (vectors : roster.vectors = other.vectors)
    (groups : roster.groups = other.groups) (declared : roster.Declares q c) :
    other.Declares q c := by
  cases declared with
  | group split last named => exact .group (groups ▸ split) last named
  | member split last named listed greatest =>
    exact .member (groups ▸ split) last named listed greatest
  | vector ungrouped split last named =>
    exact .vector (groups ▸ ungrouped) (vectors ▸ split) last named
  | scalar ungrouped unlisted => exact .scalar (groups ▸ ungrouped) (vectors ▸ unlisted)

theorem classify_index_congr {other : Roster} (vectors : roster.vectors = other.vectors)
    (groups : roster.groups = other.groups) : roster.index.classify q = other.index.classify q :=
  (classify_index_iff.mpr ((classify_index_iff.mp rfl).of_lists vectors groups)).symm

end Roster

/-! ## Runs of edits -/

namespace Population

/-- Whether an edit leaves the table as it is. -/
def Edit.leavesTable : Edit → Bool
  | .pushScalar _ | .pushVector .. | .pushGroup .. | .popScalar | .popVector | .popGroup => true
  | .addScalar _ | .addVector .. | .addGroup .. | .rebuild | .load _ | .loadUnindexed _ => false

/-- The lists as they stood when a new population, after a run of edits, last had its table
computed. They are empty if that never happened, or not since a roster was put in without one. -/
def tabled (edits : List Edit) : Roster :=
  let upTo := edits.rdropWhile Edit.leavesTable
  match upTo.getLast? with
  | none | some (.loadUnindexed _) => {}
  | some _ => (run {} upTo).roster

/-- Whether an edit registers a quantity. -/
def Edit.isRegistration : Edit → Bool
  | .addScalar _ | .addVector .. | .addGroup .. => true
  | _ => false

/-- The vector an edit registers. -/
def Edit.vector? : Edit → Option VectorEntry
  | .addVector q d => some ⟨q, d⟩
  | _ => none

/-- The group an edit registers. -/
def Edit.group? : Edit → Option GroupEntry
  | .addGroup q members => some ⟨q, members⟩
  | _ => none

theorem run_append (p : Population) (edits : List Edit) (last : Edit) :
    run p (edits ++ [last]) = (run p edits).apply last := by
  simp [run]

/-- An edit that leaves the table leaves what it was computed from. -/
theorem tabled_append_of_leavesTable (edits : List Edit) {last : Edit}
    (leaves : last.leavesTable = true) : tabled (edits ++ [last]) = tabled edits := by
  rw [tabled, List.rdropWhile_concat_pos _ _ _ leaves, tabled]

/-- Any other puts in the table of the lists it leaves, or an empty one. -/
theorem index_tabled_append (edits : List Edit) {last : Edit}
    (touches : last.leavesTable = false) :
    ((run {} edits).apply last).index = (tabled (edits ++ [last])).index := by
  have upTo : (edits ++ [last]).rdropWhile Edit.leavesTable = edits ++ [last] :=
    List.rdropWhile_concat_neg _ _ _ (by simp [touches])
  rw [tabled, upTo, List.getLast?_concat]
  cases last with
  | pushScalar | pushVector | pushGroup | popScalar | popVector | popGroup => contradiction
  | loadUnindexed => rfl
  | addScalar | addVector | addGroup | rebuild | load =>
    simp only [run_append]
    rfl

/-- **The table is that of the tabled lists**, after any run of edits. -/
theorem index_run (edits : List Edit) : (run {} edits).index = (tabled edits).index := by
  induction edits using List.reverseRecOn with
  | nil => rfl
  | append_singleton edits last ih =>
    rw [run_append]
    cases touched : last.leavesTable with
    | false => exact index_tabled_append edits touched
    | true =>
      rw [tabled_append_of_leavesTable edits touched, ← ih]
      cases last with
      | pushScalar | pushVector | pushGroup | popScalar | popVector | popGroup => rfl
      | addScalar | addVector | addGroup | rebuild | load | loadUnindexed => contradiction

/-- After registrations alone the table is that of the lists as they are. -/
theorem index_run_of_registrations {edits : List Edit}
    (registers : ∀ edit ∈ edits, edit.isRegistration = true) :
    (run {} edits).index = (run {} edits).roster.index := by
  induction edits using List.reverseRecOn with
  | nil => rfl
  | append_singleton edits last _ =>
    have registration := registers last (by simp)
    rw [run_append]
    cases last with
    | addScalar | addVector | addGroup => rfl
    | _ => contradiction

/-- Registrations put the vectors and the groups, each in their order, behind those there were. -/
theorem lists_run_of_registrations (p : Population) {edits : List Edit}
    (registers : ∀ edit ∈ edits, edit.isRegistration = true) :
    (run p edits).roster.vectors = p.roster.vectors ++ edits.filterMap Edit.vector? ∧
      (run p edits).roster.groups = p.roster.groups ++ edits.filterMap Edit.group? := by
  induction edits generalizing p with
  | nil => simp [run]
  | cons edit edits ih =>
    have registration := registers edit List.mem_cons_self
    obtain ⟨vectors, groups⟩ :=
      ih (p.apply edit) fun later found => registers later (List.mem_cons_of_mem _ found)
    change (run (p.apply edit) edits).roster.vectors = _ ∧
      (run (p.apply edit) edits).roster.groups = _
    rw [vectors, groups]
    cases edit with
    | addScalar | addVector | addGroup =>
      simp [apply, rebuild, ofRoster, pushScalar, pushVector, pushGroup, withRoster,
        List.filterMap_cons, Edit.vector?, Edit.group?]
    | _ => contradiction

/-- **A population classifies by its lists as they were when its table was last computed**, however
it came to be, and by what they declare. The scalars among them never matter. So of registrations
alone it does not matter how those of vectors, of groups and of scalars alternate. A document that
is read is put in with its table. -/
theorem classify_run :
    (∀ edits q c, (run {} edits).classify q = c ↔ (tabled edits).Declares q c) ∧
    (∀ edits other q, (tabled edits).vectors = (tabled other).vectors →
      (tabled edits).groups = (tabled other).groups →
      (run {} edits).classify q = (run {} other).classify q) ∧
    (∀ edits other q, (∀ edit ∈ edits, edit.isRegistration = true) →
      (∀ edit ∈ other, edit.isRegistration = true) →
      edits.filterMap Edit.vector? = other.filterMap Edit.vector? →
      edits.filterMap Edit.group? = other.filterMap Edit.group? →
      (run {} edits).classify q = (run {} other).classify q) ∧
    (∀ edits text, Population.parse text =
      (Document.parse text).map fun roster => run {} (edits ++ [.load roster])) := by
  refine ⟨fun edits q c => ?_, fun edits other q vectors groups => ?_,
    fun edits other q registers registers' vectors groups => ?_, fun edits text => ?_⟩
  · rw [classify, index_run]
    exact Roster.classify_index_iff
  · rw [classify, classify, index_run, index_run]
    exact Roster.classify_index_congr vectors groups
  · obtain ⟨vectors₁, groups₁⟩ := lists_run_of_registrations {} registers
    obtain ⟨vectors₂, groups₂⟩ := lists_run_of_registrations {} registers'
    rw [classify, classify, index_run_of_registrations registers,
      index_run_of_registrations registers']
    refine Roster.classify_index_congr ?_ ?_
    · rw [vectors₁, vectors₂, vectors]
    · rw [groups₁, groups₂, groups]
  · simp only [run_append]
    rfl

/-- A quantity that is a scalar, a vector, and a member of two groups, of one of them twice. A later
vector that is only put in the list does not count, nor does a group that is only taken away. -/
theorem classify_run_overlapping :
    let plane : Quantity := ⟨"m", "Position2"⟩
    let members : DimensionMap Quantity :=
      .ofList [(2, plane), (3, ⟨"m", "Position3"⟩), (5, plane)]
    let position : Edit := .addGroup ⟨"m", "Position"⟩ members
    let place : Edit := .addGroup ⟨"m", "Place"⟩ (.ofList [(2, plane)])
    let edits := [place, .addVector plane 7, position, .addScalar plane]
    let other := [.addVector plane 7, .addScalar ⟨"m", "Time"⟩, place, position]
    (run {} (edits ++ [.popGroup, .pushVector plane 4])).classify plane = .groupMember 5 ∧
      (run {} edits).classify plane = (run {} other).classify plane ∧
      (run {} [.loadUnindexed (run {} edits).roster]).classify plane =
        (run {} []).classify plane := by
  intro plane members position place edits other
  obtain ⟨declares, lists, registrations, -⟩ := classify_run
  refine ⟨(declares _ plane _).mpr ?_, ?_, ?_⟩
  · have below : ∀ entry ∈ members.entries, entry.1 ≤ 5 := by decide
    exact @Roster.Declares.member _ _ [_] [] _ 5 rfl (by simp) (by decide) (by decide)
      fun e found => below (e, plane) found
  · exact registrations edits other plane (by decide) (by decide) rfl rfl
  · exact lists _ _ plane rfl rfl

end Population

end QuantityAlgebra
