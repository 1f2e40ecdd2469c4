import QuantityAlgebra.Document.Population
import QuantityAlgebra.Resolution

/-!
# Documents of definitions and resolutions

Definitions, derivations and resolutions are written and read; overloads and reorderings are only
written. The dimension of a derivation may be missing from an object, which is to say that it has
none, but not from an array.
-/

namespace QuantityAlgebra

open Document

namespace Kind

/-- Every kind. -/
def all : List Kind := [.scalar, .vector, .invalid]

/-- The name of a kind. -/
def name : Kind → String
  | .scalar => "Scalar"
  | .vector => "Vector"
  | .invalid => "Invalid"

instance : Encode Kind := ⟨fun kind => encode kind.name⟩
instance : Decode Kind := ⟨Reader.named all name⟩

end Kind

namespace OverloadPolicy

/-- Every policy. -/
def every : List OverloadPolicy := [.none, .leftHandSide, .rightHandSide, .all, .suitable]

/-- The name of a policy. -/
def name : OverloadPolicy → String
  | .none => "None"
  | .leftHandSide => "LeftHandSide"
  | .rightHandSide => "RightHandSide"
  | .all => "All"
  | .suitable => "Suitable"

instance : Encode OverloadPolicy := ⟨fun policy => encode policy.name⟩
instance : Decode OverloadPolicy := ⟨Reader.named every name⟩

end OverloadPolicy

/-! ## Definitions -/

namespace Definition

/-- What has been read of a definition. -/
structure Draft where
  expression : Option String := none
  signature : Option Signature := none
  policy : Option OverloadPolicy := none
  permutations : Option Bool := none

/-- The fields of a definition. -/
def fields : List (RecordField Draft) :=
  [.required "expression" Draft.expression fun draft s => { draft with expression := s },
    .required "signature" Draft.signature fun draft qs => { draft with signature := qs },
    .defaulted "operator_implementation" Draft.policy fun draft p => { draft with policy := p },
    .defaulted "permutations" Draft.permutations fun draft b => { draft with permutations := b }]

instance : Encode Definition where
  encode definition :=
    object [("expression", encode definition.expression),
      ("signature", encode definition.signature),
      ("operator_implementation", encode definition.policy),
      ("permutations", encode definition.permutations)]

instance : Decode Definition where
  decode := Reader.record fields {} fun draft => do
    return ⟨← draft.expression, ← draft.signature, draft.policy.getD .none,
      draft.permutations.getD false⟩

end Definition

/-! ## Derivations -/

namespace Derivation

/-- What has been read of a derivation. -/
structure Draft where
  expression : Option String := none
  rendered : Option String := none
  signature : Option Signature := none
  kind : Option Kind := none
  dimension : Option (Option Dimension) := none

/-- The fields of a derivation. -/
def fields : List (RecordField Draft) :=
  [.required "expression" Draft.expression fun draft s => { draft with expression := s },
    .required "rendered" Draft.rendered fun draft s => { draft with rendered := s },
    .required "signature" Draft.signature fun draft qs => { draft with signature := qs },
    .required "kind" Draft.kind fun draft k => { draft with kind := k },
    .required "dimension" Draft.dimension fun draft d => { draft with dimension := d }]

instance : Encode Derivation where
  encode d :=
    object [("expression", encode d.expression), ("rendered", encode d.rendered),
      ("signature", encode d.signature), ("kind", encode d.kind), ("dimension", encode d.dimension)]

instance : Decode Derivation where
  decode := Reader.record fields {} fun draft => do
    return ⟨← draft.expression, ← draft.rendered, ← draft.signature, ← draft.kind,
      draft.dimension.join⟩

end Derivation

/-! ## Resolutions -/

namespace Resolution

/-- What has been read of a resolution. -/
structure Draft where
  definition : Option Definition := none
  scalar : Option (List Derivation) := none
  vector : Option (DimensionMap (List Derivation)) := none

/-- The fields of a resolution. -/
def fields : List (RecordField Draft) :=
  [.required "definition" Draft.definition fun draft d => { draft with definition := d },
    .required "scalar" Draft.scalar fun draft ds => { draft with scalar := ds },
    .required "vector" Draft.vector fun draft m => { draft with vector := m }]

instance : Encode Resolution where
  encode r :=
    object [("definition", encode r.definition), ("scalar", encode r.scalar),
      ("vector", encode r.vector)]

instance : Decode Resolution where
  decode := Reader.record fields {} fun draft => do
    return ⟨← draft.definition, ← draft.scalar, ← draft.vector⟩

end Resolution

/-! ## Overloads and reorderings -/

/-- The name of an operator. -/
def ArithmeticOp.name : ArithmeticOp → String
  | .add => "Add"
  | .sub => "Sub"
  | .mul => "Mul"
  | .div => "Div"

instance : Encode ArithmeticOp := ⟨fun op => encode op.name⟩

instance : Encode OverloadOperand where
  encode
    | .quantity q => object [("Quantity", encode q)]
    | .dimensionless => encode "Dimensionless"

instance : Encode Overload where
  encode o :=
    object [("result", encode o.result), ("operator", encode o.operator), ("lhs", encode o.lhs),
      ("rhs", encode o.rhs)]

instance : Encode Reordering where
  encode r := object [("quantities", encode r.quantities), ("slots", encode r.slots)]

end QuantityAlgebra
