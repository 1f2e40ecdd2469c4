import QuantityAlgebra.Config
import QuantityAlgebra.Document.Record

/-!
# Documents of configurations

A configuration is read from a text or from the bytes of a file. Whatever the document leaves out is
as in the default configuration.
-/

namespace QuantityAlgebra

open Document

namespace DiagnosticCode

/-- Every code. -/
def all : List DiagnosticCode :=
  [.malformedExpression, .incompatibleQuantities, .unexpectedScalar, .unexpectedVector,
    .unexpectedDimension]

/-- The name of a code. -/
def name : DiagnosticCode → String
  | .malformedExpression => "MalformedExpression"
  | .incompatibleQuantities => "IncompatibleQuantities"
  | .unexpectedScalar => "DerivationUnexpectedlyResultsInScalar"
  | .unexpectedVector => "DerivationUnexpectedlyResultsInVector"
  | .unexpectedDimension => "DerivationResultsInUnexpectedDimension"

instance : Encode DiagnosticCode := ⟨fun code => encode code.name⟩
instance : Decode DiagnosticCode := ⟨Reader.named all name⟩

end DiagnosticCode

/-- Why there is no configuration. -/
inductive ConfigError
  /-- There is no such file (`Io`). -/
  | missing
  /-- The file does not hold a text in UTF-8 (`Io`). -/
  | notText
  /-- The text is not the document of a configuration (`Json`). -/
  | invalid (fault : Fault)
  deriving DecidableEq

namespace ConfigError

/-- How the wording of an error begins, as it is displayed. -/
def heading : ConfigError → String
  | .missing | .notText => "failed to read configuration: "
  | .invalid _ => "invalid configuration: "

end ConfigError

namespace Config

/-- What has been read of a configuration. -/
structure Draft where
  dotHelper : Option String := none
  crossHelper : Option String := none
  suppressedDiagnostics : Option (List DiagnosticCode) := none

/-- The fields of a configuration. -/
def fields : List (RecordField Draft) :=
  [.defaulted "dot_helper" Draft.dotHelper fun draft s => { draft with dotHelper := s },
    .defaulted "cross_helper" Draft.crossHelper fun draft s => { draft with crossHelper := s },
    .defaulted "suppressed_diagnostics" Draft.suppressedDiagnostics fun draft codes =>
      { draft with suppressedDiagnostics := codes }]

/-- The configuration a draft completes to, its missing fields as in `default`. -/
def ofDraft (draft : Draft) : Config :=
  let default : Config := {}
  { dotHelper := draft.dotHelper.getD default.dotHelper
    crossHelper := draft.crossHelper.getD default.crossHelper
    suppressedDiagnostics := draft.suppressedDiagnostics.getD default.suppressedDiagnostics }

instance : Encode Config where
  encode config :=
    object [("dot_helper", encode config.dotHelper), ("cross_helper", encode config.crossHelper),
      ("suppressed_diagnostics", encode config.suppressedDiagnostics)]

instance : Decode Config where
  decode := Reader.record fields {} fun draft => some (ofDraft draft)

/-- The configuration of a document (`from_json`). -/
def parse (text : String) : Except ConfigError Config :=
  (Document.parse text).mapError .invalid

/-- The configuration of a file, given by its bytes if there is one (`load`). -/
def load (file : Option ByteArray) : Except ConfigError Config :=
  match file with
  | none => .error .missing
  | some bytes =>
    match String.fromUTF8? bytes with
    | none => .error .notText
    | some text => parse text

end Config

end QuantityAlgebra
