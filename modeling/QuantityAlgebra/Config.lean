import QuantityAlgebra.Diagnostic
import QuantityAlgebra.Dimension
import QuantityAlgebra.Text.Substitute

/-!
# Configuration

How dot and cross products are rendered, and which diagnostics are suppressed. The dot helper is a
text in which every `{dimension}` stands for the dimension of the operands.
-/

namespace QuantityAlgebra

/-- The configuration of a resolver (`ResolverConfig`). -/
structure Config where
  /-- The helper rendered for dot products. -/
  dotHelper : String := "PureScalarMaths.Dot\x7bdimension\x7d"
  /-- The helper rendered for cross products. -/
  crossHelper : String := "PureVector3Maths.Cross"
  /-- The codes that a sink made for this configuration suppresses. -/
  suppressedDiagnostics : List DiagnosticCode := []
  deriving DecidableEq, Inhabited

namespace Config

/-- What stands for the dimension in the dot helper. -/
def dimensionMark : List Char := "\x7bdimension\x7d".toList

/-- The text of the dot helper for operands of dimension `d` (`dot_helper_for`). -/
def dotHelperFor (config : Config) (d : Dimension) : List Char :=
  Text.substitute dimensionMark (Nat.toDigits 10 d.toNat) config.dotHelper.toList

/-- The collecting sink that suppresses what the configuration says: `suppressing` of its
`suppressed_diagnostics`. -/
def sink (config : Config) : Sink := .suppressing config.suppressedDiagnostics

end Config

end QuantityAlgebra
