import QuantityAlgebra.Document.Population
import QuantityAlgebra.Proofs.Document.Record

/-!
# Populations read back

A quantity is written as its path, and a path is cut at its last separator, so a quantity whose name
holds a separator is read as another one. `Legible` are those that their paths name; whatever has
been read from a path is (`legible_ofPath`). A roster of legible quantities reads back, and with it
everything that the lookup table is computed from.

Results:
* `Quantity.legible_ofPath`, `Quantity.legible_iff`: those are the quantities given by paths.
* `readsBack_roster`: a roster of legible quantities reads back.
* **`Population.exists_parse_write`**: the document of a population is read as one of the same
  lists, which classifies every quantity as the population does once it is rebuilt.
-/

namespace QuantityAlgebra

open Document

/-! ## Quantities -/

namespace Quantity

/-- The path of the quantity names it. -/
def Legible (q : Quantity) : Prop := ofPath q.path = q

instance (q : Quantity) : Decidable q.Legible := inferInstanceAs (Decidable (_ = _))

/-- **A quantity given by a path is named by its own path.** -/
theorem legible_ofPath (path : String) : (ofPath path).Legible := by
  unfold Legible
  cases cut : cutPath path.toList with
  | none =>
    have unqualified : ofPath path = ⟨"", path⟩ := by rw [ofPath, cut]
    rw [unqualified]
    exact unqualified
  | some parts =>
    obtain ⟨home, name⟩ := parts
    have qualified : ofPath path = ⟨String.ofList home, String.ofList name⟩ := by rw [ofPath, cut]
    cases home with
    | nil =>
      -- The path of a quantity in no module drops the separator, and there is no other.
      rw [qualified]
      show ofPath (String.ofList name) = _
      rw [ofPath, String.toList_ofList, cutPath_name cut]
    | cons c home =>
      have same : (ofPath path).path = path := by
        rw [qualified, Quantity.path, if_neg (by simp), ← String.toList_inj]
        simp [cutPath_eq_some cut]
      rw [same]

/-- The quantities that their paths name are those given by paths. -/
theorem legible_iff {q : Quantity} : q.Legible ↔ ∃ path, ofPath path = q :=
  ⟨fun legible => ⟨q.path, legible⟩, fun ⟨path, given⟩ => given ▸ legible_ofPath path⟩

end Quantity

theorem readsBack_quantity {q : Quantity} (legible : q.Legible) : ReadsBack q where
  opens := (readsBack_string q.path).opens
  takes := by
    have taken := (readsBack_string q.path).takes.map Quantity.ofPath
    rw [legible] at taken
    exact taken

theorem readsBack_signature {signature : Signature} (legible : ∀ q ∈ signature, q.Legible) :
    ReadsBack signature :=
  .list fun q found => readsBack_quantity (legible q found)

/-! ## Rosters -/

theorem readsBack_vectorEntry {entry : VectorEntry} (legible : entry.quantity.Legible) :
    ReadsBack entry where
  opens := opens_object _
  takes := takes_record
    (.field (readsBack_quantity legible) rfl rfl <|
      .field (readsBack_word entry.dimension) rfl rfl <| .nil _)
    rfl

theorem readsBack_groupEntry {entry : GroupEntry} (legible : entry.quantity.Legible)
    (members : ∀ q ∈ entry.members.values, q.Legible) : ReadsBack entry where
  opens := opens_object _
  takes := takes_record
    (.field (readsBack_quantity legible) rfl rfl <|
      .field (.map fun q found => readsBack_quantity (members q found)) rfl rfl <| .nil _)
    rfl

/-- Every quantity of the lists is named by its path. -/
structure Roster.Legible (roster : Roster) : Prop where
  scalars : ∀ q ∈ roster.scalars, q.Legible
  vectors : ∀ entry ∈ roster.vectors, entry.quantity.Legible
  groups : ∀ entry ∈ roster.groups, entry.quantity.Legible
  members : ∀ entry ∈ roster.groups, ∀ q ∈ entry.members.values, q.Legible

/-- **A roster of legible quantities reads back.** -/
theorem readsBack_roster {roster : Roster} (legible : roster.Legible) : ReadsBack roster := by
  have scalars : ReadsBack roster.scalars := readsBack_signature legible.scalars
  have vectors : ReadsBack roster.vectors := .list fun entry found =>
    readsBack_vectorEntry (legible.vectors entry found)
  have groups : ReadsBack roster.groups := .list fun entry found =>
    readsBack_groupEntry (legible.groups entry found) (legible.members entry found)
  exact
    { opens := opens_object _
      takes := takes_record
        (.field scalars rfl rfl <| .field vectors rfl rfl <| .field groups rfl rfl <| .nil _) rfl }

/-! ## Populations -/

namespace Population

/-- The document of a population is read as the population with its table computed anew. -/
theorem parse_write_rebuild {p : Population} (legible : p.roster.Legible) :
    Population.parse (write p) = .ok p.rebuild := by
  have read : Document.parse (write p.roster) = .ok p.roster :=
    parse_write (readsBack_roster legible)
  show (Document.parse (write p.roster)).map ofRoster = _
  rw [read]
  rfl

/-- **A document of a population carries everything classification needs.** The table is not part of
it; still it is read as a population of the same lists, in the same order, that classifies every
quantity as the written one does once it is rebuilt. -/
theorem exists_parse_write (p : Population) (legible : p.roster.Legible) :
    ∃ read, Population.parse (write p) = .ok read ∧
      read.roster.scalars = p.roster.scalars ∧ read.roster.vectors = p.roster.vectors ∧
      read.roster.groups = p.roster.groups ∧
      (∀ q, read.classify q = p.rebuild.classify q) ∧
      ∀ index, write (⟨p.roster, index⟩ : Population) = write p :=
  ⟨p.rebuild, parse_write_rebuild legible, rfl, rfl, rfl, fun _ => rfl, fun _ => rfl⟩

/-- A quantity that is a scalar, a vector and a member of two groups, of one of them twice, in a
population without a table. -/
theorem exists_parse_write_overlapping :
    let plane : Quantity := ⟨"m::raum", "Fläche \"2\""⟩
    let roster : Roster :=
      { scalars := [plane, plane, ⟨"", "Time"⟩]
        vectors := [⟨plane, 7⟩, ⟨plane, 4294967295⟩]
        groups := [⟨⟨"m", "Place"⟩, .ofList [(10, plane), (9, plane), (2, ⟨"m", "Place2"⟩)]⟩,
          ⟨⟨"m", "Empty"⟩, ∅⟩] }
    roster.Legible ∧ (unindexed roster).classify plane = .scalar ∧
      ∃ read, Population.parse (write (unindexed roster)) = .ok read ∧ read.roster = roster ∧
        read.classify plane = .groupMember 10 := by
  intro plane roster
  have legible : roster.Legible := ⟨by decide, by decide, by decide, by decide⟩
  obtain ⟨read, parsed, scalars, vectors, groups, classified, -⟩ :=
    exists_parse_write (unindexed roster) legible
  refine ⟨legible, rfl, read, parsed, ?_, (classified plane).trans (by decide)⟩
  show Roster.mk read.roster.scalars read.roster.vectors read.roster.groups = roster
  rw [scalars, vectors, groups]
  rfl

end Population

end QuantityAlgebra
