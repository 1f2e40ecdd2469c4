import QuantityAlgebra.Document.Numeral
import QuantityAlgebra.Document.Quoted

/-!
# Passing over values

The value of an unknown field is passed over, whatever it holds. It has to be well formed, to any
depth of nesting. The brackets open so far are kept in a list, the innermost in front, so no depth
is too large.
-/

namespace QuantityAlgebra.Document

/-- A sort of bracket. -/
inductive Bracket
  | array
  | object
  deriving DecidableEq

/-- The mark that closes a bracket. -/
def Bracket.closing : Bracket → Char
  | .array => ']'
  | .object => '}'

/-- Where one stands in a value that is passed over. -/
inductive Position
  /-- Before a value. -/
  | value
  /-- Behind the innermost opening bracket. -/
  | opened
  /-- Behind a value. -/
  | closed
  deriving DecidableEq

namespace Reader

/-- Passes over the key of a field with its colon. -/
def skipKey : Reader Unit := do
  punctuation '"'
  skipQuoted
  punctuation ':'

/-- Passes over what comes before the next value inside a bracket. -/
def skipLead (bracket : Bracket) : Reader Unit :=
  match bracket with
  | .array => pure ()
  | .object => skipKey

/-- Passes over a value that is neither an array nor an object. -/
def skipAtom (text : List Char) : Except Fault (List Char) :=
  match text with
  | [] => .error .truncated
  | 'n' :: rest => (keyword ['u', 'l', 'l'] rest).map Prod.snd
  | 't' :: rest => (keyword ['r', 'u', 'e'] rest).map Prod.snd
  | 'f' :: rest => (keyword ['a', 'l', 's', 'e'] rest).map Prod.snd
  | '"' :: rest => (skipQuoted rest).map Prod.snd
  | c :: _ => if c = '-' ∨ c.isDigit then skipNumeral text else .error .malformed

/-- Passes over the rest of a value, brackets still to be closed, in at most `steps` steps. -/
def skipFrom : (steps : Nat) → Position → List Bracket → Reader Unit
  | 0, _, _, _ => .error .malformed
  | steps + 1, .value, brackets, text =>
    match skipSpacing text with
    | '[' :: rest => skipFrom steps .opened (.array :: brackets) rest
    | '{' :: rest => skipFrom steps .opened (.object :: brackets) rest
    | text =>
      match skipAtom text with
      | .error fault => .error fault
      | .ok rest => skipFrom steps .closed brackets rest
  | _ + 1, _, [], text => .ok ((), text)
  | steps + 1, position, bracket :: brackets, text =>
    match skipSpacing text with
    | [] => .error .truncated
    | c :: rest =>
      if c = bracket.closing then skipFrom steps .closed brackets rest
      else if position = .opened then
        match skipLead bracket (c :: rest) with
        | .error fault => .error fault
        | .ok (_, after) => skipFrom steps .value (bracket :: brackets) after
      else if c = ',' then
        match skipLead bracket rest with
        | .error fault => .error fault
        | .ok (_, after) => skipFrom steps .value (bracket :: brackets) after
      else .error .malformed

/-- Passes over a value. At most two steps are taken at one place of the text. -/
def skipValue : Reader Unit := fun text => skipFrom (2 * text.length + 2) .value [] text

end Reader

end QuantityAlgebra.Document
