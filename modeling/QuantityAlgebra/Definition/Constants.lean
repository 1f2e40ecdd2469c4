import QuantityAlgebra.Definition
import QuantityAlgebra.Diagnostic

/-!
# Constants out of place

The one constant is meant as the dividend of a quotient, as in `1 / {0}`. Resolution takes it
anywhere; `Definition.misplacesConstant` tells whether it stands anywhere else.

Numbers other than `1` cannot be read at all, so they are looked for in the raw text, before it is
read: `hasForeignNumber` scans the runs of digits outside braces. Any other character ends a run,
blanks included.

Results: `Expr.misplacesConstant_div`, a dividend that is the constant is left out of account.
-/

namespace QuantityAlgebra

/-- Whether a run of digits is a number other than `1`. The empty run is none. -/
def isForeignNumber (run : List Char) : Bool := run != [] && run != ['1']

/-- Whether a text holds a foreign number outside braces, after a run of digits still open, which is
kept with its last digit in front; `inside` says whether a brace is open. It is the loop of
`has_foreign_literal`. -/
def hasForeignNumberFrom : (inside : Bool) → (run : List Char) → List Char → Bool
  | _, run, [] => isForeignNumber run
  | inside, run, c :: rest =>
    if c.isDigit && !inside then hasForeignNumberFrom inside (c :: run) rest
    else
      isForeignNumber run ||
        hasForeignNumberFrom (c == '{' || (inside && c != '}')) [] rest

/-- Whether a run of digits outside braces is a number other than `1` (`has_foreign_literal`). -/
def hasForeignNumber (text : List Char) : Bool := hasForeignNumberFrom false [] text

namespace Expr

/-- Whether the constant stands anywhere but as the dividend of a quotient
(`misplaced_constant`). -/
def misplacesConstant : Expr → Bool
  | .slot _ => false
  | .one => true
  | .binary .div .one rhs => rhs.misplacesConstant
  | .binary _ lhs rhs => lhs.misplacesConstant || rhs.misplacesConstant

@[simp] theorem misplacesConstant_div (rhs : Expr) :
    (binary .div .one rhs).misplacesConstant = rhs.misplacesConstant := by
  rw [misplacesConstant]

end Expr

/-- Whether a definition uses a number anywhere but as the dividend `1` of a quotient
(`has_misplaced_constant`). -/
def Definition.misplacesConstant (definition : Definition) : Except ResolutionError Bool :=
  let text := definition.expression.toList
  if hasForeignNumber text then .ok true
  else
    match Expr.parse text definition.signature.length with
    | .ok e => .ok e.misplacesConstant
    | .error source => .error ⟨definition.expression, .malformed source⟩

end QuantityAlgebra
