import QuantityAlgebra.Document.Record
import QuantityAlgebra.Population

/-!
# Documents of quantities and populations

A quantity is written as its path. A set of dimensions is an array, read as it stands, repeats and
all. A population is written as its roster: the lookup table is not part of the document, and is
computed anew when a population is read (`Population.parse`).
-/

namespace QuantityAlgebra

open Document

instance : Encode Quantity := ⟨fun q => encode q.path⟩
instance : Decode Quantity := ⟨return .ofPath (← decode)⟩

instance : Encode DimensionSet := ⟨fun s => encode s.toList⟩
instance : Decode DimensionSet := ⟨return ⟨← decode⟩⟩

/-! ## Classifications -/

instance : Encode Classification where
  encode
    | .scalar => encode "Scalar"
    | .fixedVector d => object [("FixedVector", encode d)]
    | .groupMember d => object [("GroupMember", encode d)]
    | .group members => object [("Group", encode members)]

instance : Decode Classification where
  decode := Reader.alternative fun
    | "Scalar" => some (.constant .scalar)
    | "FixedVector" => some (.carrying (return .fixedVector (← decode)))
    | "GroupMember" => some (.carrying (return .groupMember (← decode)))
    | "Group" => some (.carrying (return .group (← decode)))
    | _ => none

/-! ## Rosters -/

namespace VectorEntry

/-- What has been read of an entry. -/
structure Draft where
  quantity : Option Quantity := none
  dimension : Option Dimension := none

/-- The fields of an entry. -/
def fields : List (RecordField Draft) :=
  [.required "quantity" Draft.quantity fun draft q => { draft with quantity := q },
    .required "dimension" Draft.dimension fun draft d => { draft with dimension := d }]

instance : Encode VectorEntry where
  encode entry :=
    object [("quantity", encode entry.quantity), ("dimension", encode entry.dimension)]

instance : Decode VectorEntry where
  decode := Reader.record fields {} fun draft => do
    return ⟨← draft.quantity, ← draft.dimension⟩

end VectorEntry

namespace GroupEntry

/-- What has been read of an entry. -/
structure Draft where
  quantity : Option Quantity := none
  members : Option (DimensionMap Quantity) := none

/-- The fields of an entry. -/
def fields : List (RecordField Draft) :=
  [.required "quantity" Draft.quantity fun draft q => { draft with quantity := q },
    .required "members" Draft.members fun draft m => { draft with members := m }]

instance : Encode GroupEntry where
  encode entry := object [("quantity", encode entry.quantity), ("members", encode entry.members)]

instance : Decode GroupEntry where
  decode := Reader.record fields {} fun draft => do return ⟨← draft.quantity, ← draft.members⟩

end GroupEntry

namespace Roster

/-- What has been read of a roster. -/
structure Draft where
  scalars : Option (List Quantity) := none
  vectors : Option (List VectorEntry) := none
  groups : Option (List GroupEntry) := none

/-- The fields of a roster. -/
def fields : List (RecordField Draft) :=
  [.defaulted "scalars" Draft.scalars fun draft qs => { draft with scalars := qs },
    .defaulted "vectors" Draft.vectors fun draft es => { draft with vectors := es },
    .defaulted "groups" Draft.groups fun draft es => { draft with groups := es }]

instance : Encode Roster where
  encode roster :=
    object [("scalars", encode roster.scalars), ("vectors", encode roster.vectors),
      ("groups", encode roster.groups)]

/-- A list that is missing is empty. -/
instance : Decode Roster where
  decode := Reader.record fields {} fun draft =>
    some ⟨draft.scalars.getD [], draft.vectors.getD [], draft.groups.getD []⟩

end Roster

namespace Population

/-- The document of a population is that of its roster. -/
instance : Encode Population := ⟨fun p => encode p.roster⟩

/-- The population of a document, its lookup table computed (`from_json`). -/
def parse (text : String) : Except Fault Population := (Document.parse text).map ofRoster

end Population

end QuantityAlgebra
