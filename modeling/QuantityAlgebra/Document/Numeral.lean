import QuantityAlgebra.Document.Reader

/-!
# Numerals

The numbers of a document are whole numbers below 2^64, written without sign, fraction and exponent;
of any other numeral only its form matters. That includes its size: one that would round to infinity
as a double is no number at all.

The size is judged as a double is read. The leading digits whose value stays below 2^64 make up a
significand, the digits after them only count, and the significand is scaled by a power of ten, both
as doubles (`isTooLarge`).

A numeral that is only passed over (`skipNumeral`) may be of any size. One that breaks off is
malformed there, where otherwise it ends too early.
-/

namespace QuantityAlgebra.Document

/-- What a numeral stands for. -/
inductive Numeral
  /-- A whole number below 2^64. -/
  | whole (value : Nat)
  /-- A negative, fractional, scaled or larger number. -/
  | other
  deriving DecidableEq, Inhabited

/-- The value of digits after `value`, as far as it stays below 2^64, and how many digits are
left. -/
def leadingDigits : Nat → List Char → Nat × Nat
  | value, [] => (value, 0)
  | value, d :: digits =>
    let next := value * 10 + (d.toNat - '0'.toNat)
    if next < UInt64.size then leadingDigits next digits else (value, digits.length + 1)

/-- Whether a significand scaled by a power of ten is beyond the doubles. -/
def isTooLarge (significand : Nat) (exponent : Int) : Bool :=
  significand != 0 && 0 ≤ exponent &&
    (308 < exponent || (Float.ofNat significand * Float.ofScientific 1 false exponent.toNat).isInf)

/-- A numeral that is not whole, if it is not too large. -/
def scaled (significand : Nat) (exponent : Int) (rest : List Char) :
    Except Fault (Numeral × List Char) :=
  if isTooLarge significand exponent then .error .malformed else .ok (.other, rest)

/-- Whether an exponent is negative, and the text after its sign. -/
def exponentSign : List Char → Bool × List Char
  | '+' :: rest => (false, rest)
  | '-' :: rest => (true, rest)
  | rest => (false, rest)

/-- Reads the rest of a numeral after the letter of its exponent. -/
def exponentPart (significand : Nat) (start : Int) (text : List Char) :
    Except Fault (Numeral × List Char) :=
  let (negative, text) := exponentSign text
  match text.takeWhile Char.isDigit with
  | [] => .error (if text = [] then .truncated else .malformed)
  | digits =>
    let exponent : Int := Nat.ofDigitChars 10 digits 0
    scaled significand (if negative then start - exponent else start + exponent)
      (text.dropWhile Char.isDigit)

/-- Reads the rest of a numeral after its decimal point. -/
def fractionPart (significand : Nat) (start : Int) (text : List Char) :
    Except Fault (Numeral × List Char) :=
  match text.takeWhile Char.isDigit with
  | [] => .error (if text = [] then .truncated else .malformed)
  | digits =>
    let (significand, left) := leadingDigits significand digits
    let exponent := start - (digits.length - left)
    match text.dropWhile Char.isDigit with
    | 'e' :: rest => exponentPart significand exponent rest
    | 'E' :: rest => exponentPart significand exponent rest
    | rest => scaled significand exponent rest

/-- Reads a numeral without a sign. A leading zero stands alone. -/
def unsigned (text : List Char) : Except Fault (Numeral × List Char) :=
  match text.takeWhile Char.isDigit with
  | [] => .error (if text = [] then .truncated else .malformed)
  | '0' :: _ :: _ => .error .malformed
  | digits =>
    let (significand, left) := leadingDigits 0 digits
    match text.dropWhile Char.isDigit with
    | '.' :: rest => fractionPart significand left rest
    | 'e' :: rest => exponentPart significand left rest
    | 'E' :: rest => exponentPart significand left rest
    | rest => if left = 0 then .ok (.whole significand, rest) else scaled significand left rest

/-- Reads a numeral; a negative one is never whole. -/
def numeral (text : List Char) : Except Fault (Numeral × List Char) :=
  match text with
  | '-' :: rest => (unsigned rest).map fun (_, rest) => (.other, rest)
  | text => unsigned text

/-! ## Passing over -/

/-- The text after an exponent, if there is one. -/
def skipExponent (text : List Char) : Except Fault (List Char) :=
  match text with
  | c :: rest =>
    if c = 'e' ∨ c = 'E' then
      let digits := (exponentSign rest).2
      if digits.takeWhile Char.isDigit = [] then .error .malformed
      else .ok (digits.dropWhile Char.isDigit)
    else .ok text
  | [] => .ok []

/-- The text after a fraction and an exponent, as far as there are any. -/
def skipFraction (text : List Char) : Except Fault (List Char) :=
  match text with
  | '.' :: rest =>
    if rest.takeWhile Char.isDigit = [] then .error .malformed
    else skipExponent (rest.dropWhile Char.isDigit)
  | text => skipExponent text

/-- The text after a numeral. -/
def skipNumeral (text : List Char) : Except Fault (List Char) :=
  let text := match text with
    | '-' :: rest => rest
    | text => text
  match text.takeWhile Char.isDigit with
  | [] => .error .malformed
  | '0' :: _ :: _ => .error .malformed
  | _ => skipFraction (text.dropWhile Char.isDigit)

end QuantityAlgebra.Document
