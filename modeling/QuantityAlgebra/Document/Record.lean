import QuantityAlgebra.Document.Skip
import QuantityAlgebra.Document.Value

/-!
# Records and alternatives

A record is written as an object, its fields in the order of declaration. It is read from an object,
with its fields in any order and unknown ones passed over, or from an array of its fields in that
order. While it is read, the fields found so far make up a draft.

A field found twice does not fit, and that shows before its second value is looked at. Fields that
are missing at the end are judged by the record: some have a default, the others do not fit. In an
array only fields with a default may be missing, and nothing may follow the last.

An alternative is one of a number of names, some of which carry a value. The name alone is written
as a string; with a value it is an object of one field, whose key is the name. A name without a
value may also be read from such an object, holding nothing.
-/

namespace QuantityAlgebra.Document

/-- A field of a record whose draft is a `σ`. -/
structure RecordField (σ : Type) where
  name : String
  /-- Whether the field has been found. -/
  isFound : σ → Bool
  /-- Reads the value of the field into the draft. -/
  read : σ → Reader σ
  /-- Whether an array may leave the field out. -/
  hasDefault : Bool

namespace RecordField

variable {σ α : Type} [Decode α]

/-- A field given by its place in the draft. -/
def of (name : String) (get : σ → Option α) (put : σ → Option α → σ) (hasDefault : Bool) :
    RecordField σ where
  name := name
  isFound draft := (get draft).isSome
  read draft := do return put draft (some (← decode))
  hasDefault := hasDefault

/-- A field that an array has to have. -/
def required (name : String) (get : σ → Option α) (put : σ → Option α → σ) : RecordField σ :=
  of name get put false

/-- A field that may be left out. -/
def defaulted (name : String) (get : σ → Option α) (put : σ → Option α → σ) : RecordField σ :=
  of name get put true

end RecordField

/-- What a name of an alternative stands for. -/
inductive Variant (α : Type)
  /-- The name is the value. -/
  | constant (value : α)
  /-- The name carries a value. -/
  | carrying (read : Reader α)

namespace Reader

variable {σ α : Type}

/-! ## Records -/

/-- Reads the fields of an object, at most `count - 1` of them, into a draft. -/
def fieldsByName (fields : List (RecordField σ)) : (count : Nat) → (first : Bool) → σ → Reader σ
  | 0, _, _ => fail .malformed
  | count + 1, first, draft => do
    if ← nextKey first then
      let key ← quoted
      match fields.find? fun field => field.name == key with
      | none =>
        punctuation ':'
        skipValue
        fieldsByName fields count false draft
      | some field =>
        if field.isFound draft then fail .mismatch
        else
          punctuation ':'
          fieldsByName fields count false (← field.read draft)
    else return draft

/-- Reads the elements of an array as the fields of a record into a draft. -/
def fieldsByPosition : List (RecordField σ) → (first : Bool) → σ → Reader σ
  | [], _, draft => return draft
  | field :: fields, first, draft => do
    if ← nextElement first then fieldsByPosition fields false (← field.read draft)
    else if field.hasDefault then fieldsByPosition fields first draft
    else fail .mismatch

/-- The record a draft is, if it lacks nothing that is required. -/
def finish (complete : σ → Option α) (draft : σ) : Reader α :=
  match complete draft with
  | some value => return value
  | none => fail .mismatch

/-- Reads a record from an object or an array. -/
def record (fields : List (RecordField σ)) (blank : σ) (complete : σ → Option α) :
    Reader α := fun text =>
  match skipSpacing text with
  | '{' :: rest =>
    (do finish complete (← fieldsByName fields (rest.length + 1) true blank) : Reader α) rest
  | '[' :: rest =>
    (do
      let value ← finish complete (← fieldsByPosition fields true blank)
      punctuation ']'
      return value : Reader α) rest
  | rest => .error (refusal rest)

/-! ## Alternatives -/

/-- Reads the value of an alternative after its name. -/
def payload : Variant α → Reader α
  | .constant value => do
    null
    return value
  | .carrying read => read

/-- Reads one of the alternatives known by name. -/
def alternative (variants : String → Option (Variant α)) : Reader α := fun text =>
  match skipSpacing text with
  | [] => .error .truncated
  | '"' :: rest =>
    (do
      match variants (← quoted) with
      | some (.constant value) => return value
      | _ => fail .mismatch : Reader α) rest
  | '{' :: rest =>
    (do
      openKey
      match variants (← quoted) with
      | none => fail .mismatch
      | some variant =>
        punctuation ':'
        let value ← payload variant
        punctuation '}'
        return value : Reader α) rest
  | _ => .error .malformed

/-- Reads one of the given values by its name. -/
def named (values : List α) (name : α → String) : Reader α :=
  alternative fun text => (values.find? fun value => name value == text).map .constant

end Reader

end QuantityAlgebra.Document
