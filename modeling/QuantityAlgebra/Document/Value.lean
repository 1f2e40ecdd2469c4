import QuantityAlgebra.Dimension.Map
import QuantityAlgebra.Document.Numeral
import QuantityAlgebra.Document.Quoted

/-!
# Values of documents

Writers and readers for the values that records are made of: strings, words, truth values, lists,
maps from dimensions, and optional values. `Encode` and `Decode` say how a type is written and read.

What is written is compact: no spacing, and maps in the order of their dimensions. What is read may
be spaced. A value of another sort than the expected one is read as far as it takes to see that it
is a value of another sort (`refusal`), so that an ill-formed one is reported as such.
-/

namespace QuantityAlgebra.Document

/-- How the values of a type are written (`Serialize`). -/
class Encode (α : Type) where
  encode : α → List Char

/-- How the values of a type are read (`Deserialize`). -/
class Decode (α : Type) where
  decode : Reader α

export Encode (encode)
export Decode (decode)

/-- The document of a value (`to_string`). -/
def write {α : Type} [Encode α] (value : α) : String := String.ofList (encode value)

/-- The value of a document (`from_str`). -/
def parse {α : Type} [Decode α] (text : String) : Except Fault α :=
  Reader.run decode text.toList

/-! ## Values of another sort -/

/-- The fault of the value a text begins with, where another sort of value is expected. -/
def refusal (text : List Char) : Fault :=
  let judge {α : Type} (read : Except Fault α) : Fault :=
    match read with
    | .error fault => fault
    | .ok _ => .mismatch
  match text with
  | [] => .truncated
  | 'n' :: rest => judge (Reader.keyword ['u', 'l', 'l'] rest)
  | 't' :: rest => judge (Reader.keyword ['r', 'u', 'e'] rest)
  | 'f' :: rest => judge (Reader.keyword ['a', 'l', 's', 'e'] rest)
  | '"' :: rest => judge (quotedBody false rest)
  | '[' :: _ => .mismatch
  | '{' :: _ => .mismatch
  | c :: _ => if c = '-' ∨ c.isDigit then judge (numeral text) else .malformed

namespace Reader

variable {α : Type}

/-! ## Single values -/

/-- Reads a string. -/
def string : Reader String := fun text =>
  match skipSpacing text with
  | '"' :: rest => quoted rest
  | rest => .error (refusal rest)

/-- Reads a whole number below 2^32. -/
def word : Reader UInt32 := fun text =>
  match skipSpacing text with
  | c :: rest =>
    if c = '-' ∨ c.isDigit then
      match numeral (c :: rest) with
      | .error fault => .error fault
      | .ok (.whole value, rest) =>
        if value < UInt32.size then .ok (UInt32.ofNat value, rest) else .error .mismatch
      | .ok (.other, _) => .error .mismatch
    else .error (refusal (c :: rest))
  | [] => .error .truncated

/-- Reads a truth value. -/
def truth : Reader Bool := fun text =>
  match skipSpacing text with
  | 't' :: rest => (keyword ['r', 'u', 'e'] rest).map fun (_, rest) => (true, rest)
  | 'f' :: rest => (keyword ['a', 'l', 's', 'e'] rest).map fun (_, rest) => (false, rest)
  | rest => .error (refusal rest)

/-- Reads the value that stands for nothing. -/
def null : Reader Unit := fun text =>
  match skipSpacing text with
  | 'n' :: rest => keyword ['u', 'l', 'l'] rest
  | rest => .error (refusal rest)

/-- Reads a value or nothing. -/
def optional (value : Reader α) : Reader (Option α) := fun text =>
  match skipSpacing text with
  | 'n' :: rest => (keyword ['u', 'l', 'l'] rest).map fun (_, rest) => (none, rest)
  | rest => (value rest).map fun (a, rest) => (some a, rest)

/-! ## Arrays -/

/-- Whether an array has another element. Its comma is read, its closing bracket is not; `first`
says whether none came before. -/
def nextElement (first : Bool) : Reader Bool := fun text =>
  match skipSpacing text with
  | [] => .error .truncated
  | ']' :: rest => .ok (false, ']' :: rest)
  | c :: rest =>
    if first then .ok (true, c :: rest)
    else if c = ',' then
      match skipSpacing rest with
      | ']' :: _ => .error .malformed
      | rest => .ok (true, rest)
    else .error .malformed

/-- Reads the elements of an array, at most `count - 1` of them. -/
def elements (element : Reader α) : (count : Nat) → (first : Bool) → Reader (List α)
  | 0, _ => fail .malformed
  | count + 1, first => do
    if ← nextElement first then
      let a ← element
      let rest ← elements element count false
      return a :: rest
    else return []

/-- Reads an array. Each element takes a character at least. -/
def list (element : Reader α) : Reader (List α) := fun text =>
  match skipSpacing text with
  | '[' :: rest =>
    match elements element (rest.length + 1) true rest with
    | .error fault => .error fault
    | .ok (values, rest) => (punctuation ']' rest).map fun (_, rest) => (values, rest)
  | rest => .error (refusal rest)

/-! ## Objects -/

/-- Reads the opening quote of a key. A key is a string, so a text with a value of another sort in
its place is malformed, and that value is not looked at. -/
def openKey : Reader Unit := fun text =>
  match skipSpacing text with
  | [] => .error .truncated
  | '"' :: rest => .ok ((), rest)
  | _ => .error .malformed

/-- Whether an object has another key. The key's opening quote is read, and so is the closing brace
if there is none; `first` says whether none came before. -/
def nextKey (first : Bool) : Reader Bool := fun text =>
  match skipSpacing text with
  | [] => .error .truncated
  | '}' :: rest => .ok (false, rest)
  | ',' :: rest =>
    if first then .error .malformed else (openKey rest).map fun (_, rest) => (true, rest)
  | rest =>
    if first then (openKey rest).map fun (_, rest) => (true, rest) else .error .malformed

/-- Reads a key that is a dimension, whose opening quote has been read. -/
def dimensionKey : Reader Dimension := fun text =>
  match text with
  | [] => .error .malformed
  | c :: _ =>
    if c = '-' ∨ c.isDigit then
      match word text with
      | .error fault => .error fault
      | .ok (d, '"' :: rest) => .ok (d, rest)
      | .ok _ => .error .malformed
    else .error .malformed

/-- Reads the bindings of a map, at most `count - 1` of them, into `m`. -/
def bindings (value : Reader α) :
    (count : Nat) → (first : Bool) → DimensionMap α → Reader (DimensionMap α)
  | 0, _, _ => fail .malformed
  | count + 1, first, m => do
    if ← nextKey first then
      let d ← dimensionKey
      punctuation ':'
      let a ← value
      bindings value count false (m.insert d a)
    else return m

/-- Reads a map from dimensions. Of two bindings of one dimension the last counts. -/
def map (value : Reader α) : Reader (DimensionMap α) := fun text =>
  match skipSpacing text with
  | '{' :: rest => bindings value (rest.length + 1) true ∅ rest
  | rest => .error (refusal rest)

end Reader

/-! ## Writing -/

/-- Texts separated by commas. -/
def separated (parts : List (List Char)) : List Char := [','].intercalate parts

/-- The array of encoded elements. -/
def array (elements : List (List Char)) : List Char := '[' :: separated elements ++ [']']

/-- The object of named, encoded fields. -/
def object (fields : List (String × List Char)) : List Char :=
  '{' :: separated (fields.map fun field => quote field.1.toList ++ ':' :: field.2) ++ ['}']

/-- The digits of a number. -/
def decimal (n : Nat) : List Char := Nat.toDigits 10 n

instance : Encode String := ⟨fun s => quote s.toList⟩
instance : Decode String := ⟨Reader.string⟩

instance : Encode Nat := ⟨decimal⟩

instance : Encode UInt32 := ⟨fun d => decimal d.toNat⟩
instance : Decode UInt32 := ⟨Reader.word⟩

instance : Encode Bool := ⟨fun b => if b then "true".toList else "false".toList⟩
instance : Decode Bool := ⟨Reader.truth⟩

instance {α : Type} [Encode α] : Encode (List α) := ⟨fun values => array (values.map encode)⟩
instance {α : Type} [Decode α] : Decode (List α) := ⟨Reader.list decode⟩

instance {α : Type} [Encode α] : Encode (Option α) :=
  ⟨fun value => (value.map encode).getD "null".toList⟩
instance {α : Type} [Decode α] : Decode (Option α) := ⟨Reader.optional decode⟩

instance {α : Type} [Encode α] : Encode (DimensionMap α) :=
  ⟨fun m => object (m.entries.map fun e => (toString e.1.toNat, encode e.2))⟩
instance {α : Type} [Decode α] : Decode (DimensionMap α) := ⟨Reader.map decode⟩

end QuantityAlgebra.Document
