import QuantityAlgebra.Classification

/-!
# Populations of quantities

A `Roster` lists what is known: scalars, stand-alone vectors, and groups with their members. A
`Population` is a roster together with a lookup table (`Index`) computed from one. Classification
reads the table alone. Registering a quantity computes the table anew, editing the lists directly
does not, so the table shows the lists as they were when it was last computed.

The table is written in the order of the lists, and a later entry for a quantity hides an earlier
one. So a group hides a vector of the same name, within a group its own name hides a member of that
name, and of two groups the later one decides. Nothing registered means a scalar.

A `QuantityPopulation` is the record of both: its public lists are the roster, its `index` the
table, and the operations on it are the edits.
-/

namespace QuantityAlgebra

/-- A registered stand-alone vector. -/
structure VectorEntry where
  quantity : Quantity
  dimension : Dimension
  deriving DecidableEq, Inhabited

/-- A registered group, with its member for each dimension. -/
structure GroupEntry where
  quantity : Quantity
  members : DimensionMap Quantity
  deriving DecidableEq, Inhabited

/-- The registered quantities, each list in the order of registration: the three lists of a
`QuantityPopulation`. -/
structure Roster where
  scalars : List Quantity := []
  vectors : List VectorEntry := []
  groups : List GroupEntry := []
  deriving DecidableEq, Inhabited

/-- A lookup table, the entry written last in front (`index`). -/
abbrev Index := List (Quantity × Classification)

/-- The classification written last for `q`; a scalar if there is none (`classify`). -/
def Index.classify (index : Index) (q : Quantity) : Classification :=
  (index.lookup q).getD .scalar

namespace GroupEntry

/-- What a group writes into the table: each member in ascending order of dimension, then itself. -/
def rows (entry : GroupEntry) : List (Quantity × Classification) :=
  (entry.members.entries.map fun e => (e.2, .groupMember e.1)) ++
    [(entry.quantity, .group entry.members)]

end GroupEntry

namespace Roster

/-- What a roster writes into the table, in the order in which `rebuild_index` does. -/
def rows (roster : Roster) : List (Quantity × Classification) :=
  (roster.scalars.map fun q => (q, .scalar)) ++
    (roster.vectors.map fun e => (e.quantity, .fixedVector e.dimension)) ++
    roster.groups.flatMap GroupEntry.rows

/-- The lookup table of a roster. -/
def index (roster : Roster) : Index := roster.rows.reverse

end Roster

/-- A roster and the lookup table that classification reads (`QuantityPopulation`). -/
structure Population where
  roster : Roster := {}
  index : Index := []
  deriving DecidableEq, Inhabited

namespace Population

/-- The classifier a population is. -/
def classify (p : Population) : Classifier := p.index.classify

/-- A roster with the table computed from it, as `from_json` leaves it. -/
def ofRoster (roster : Roster) : Population := ⟨roster, roster.index⟩

/-- A roster with an empty table, as it stands before the table is first computed. -/
def unindexed (roster : Roster) : Population := ⟨roster, []⟩

/-- The lists replaced, the table left as it is. -/
def withRoster (p : Population) (roster : Roster) : Population := ⟨roster, p.index⟩

/-- The table computed anew from the lists (`rebuild_index`). -/
def rebuild (p : Population) : Population := ofRoster p.roster

/-! ## Editing -/

/-- One step in the life of a population. -/
inductive Edit
  /-- Registrations (`add_scalar`, `add_vector`, `add_group`): the quantity goes to the end of its
  list and the table is computed anew. -/
  | addScalar (quantity : Quantity)
  | addVector (quantity : Quantity) (dimension : Dimension)
  | addGroup (quantity : Quantity) (members : DimensionMap Quantity)
  /-- The same at the end of the list, the table left as it is. -/
  | pushScalar (quantity : Quantity)
  | pushVector (quantity : Quantity) (dimension : Dimension)
  | pushGroup (quantity : Quantity) (members : DimensionMap Quantity)
  /-- The last entry of a list taken away, the table left as it is. -/
  | popScalar
  | popVector
  | popGroup
  /-- The table computed anew (`rebuild_index`). -/
  | rebuild
  /-- Another roster, with its table (`from_json`). -/
  | load (roster : Roster)
  /-- Another roster, with an empty table. -/
  | loadUnindexed (roster : Roster)

/-- A scalar at the end of the scalars. -/
def pushScalar (p : Population) (q : Quantity) : Population :=
  p.withRoster { p.roster with scalars := p.roster.scalars ++ [q] }

/-- A vector at the end of the vectors. -/
def pushVector (p : Population) (q : Quantity) (d : Dimension) : Population :=
  p.withRoster { p.roster with vectors := p.roster.vectors ++ [⟨q, d⟩] }

/-- A group at the end of the groups. -/
def pushGroup (p : Population) (q : Quantity) (members : DimensionMap Quantity) : Population :=
  p.withRoster { p.roster with groups := p.roster.groups ++ [⟨q, members⟩] }

/-- The population after an edit. -/
def apply (p : Population) : Edit → Population
  | .addScalar q => (p.pushScalar q).rebuild
  | .addVector q d => (p.pushVector q d).rebuild
  | .addGroup q members => (p.pushGroup q members).rebuild
  | .pushScalar q => p.pushScalar q
  | .pushVector q d => p.pushVector q d
  | .pushGroup q members => p.pushGroup q members
  | .popScalar => p.withRoster { p.roster with scalars := p.roster.scalars.dropLast }
  | .popVector => p.withRoster { p.roster with vectors := p.roster.vectors.dropLast }
  | .popGroup => p.withRoster { p.roster with groups := p.roster.groups.dropLast }
  | .rebuild => p.rebuild
  | .load roster => ofRoster roster
  | .loadUnindexed roster => unindexed roster

/-- The quantity an edit takes away. -/
def removed (p : Population) : Edit → Option Quantity
  | .popScalar => p.roster.scalars.getLast?
  | .popVector => p.roster.vectors.getLast?.map VectorEntry.quantity
  | .popGroup => p.roster.groups.getLast?.map GroupEntry.quantity
  | _ => none

/-- The population after a run of edits. -/
def run (p : Population) (edits : List Edit) : Population := edits.foldl apply p

/-! ## What classification reads -/

end Population

end QuantityAlgebra
