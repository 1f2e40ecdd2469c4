import QuantityAlgebra.Definition.Constants
import QuantityAlgebra.Document.Config
import QuantityAlgebra.Document.Resolution
import QuantityAlgebra.Expr.Grammar
import QuantityAlgebra.Typing.Judgment
import QuantityAlgebra.Proofs.Expr.Brackets
import QuantityAlgebra.Proofs.Expr.Reading
import QuantityAlgebra.Proofs.Operand.Narrows
import QuantityAlgebra.Proofs.Typing.Consistency
import QuantityAlgebra.Proofs.Typing.Propagation
import QuantityAlgebra.Proofs.Expansion.Selections
import QuantityAlgebra.Proofs.Expansion.Narrowed
import QuantityAlgebra.Proofs.Derivation.Materialized
import QuantityAlgebra.Proofs.Resolution.Meaning
import QuantityAlgebra.Proofs.Resolution.Listing
import QuantityAlgebra.Proofs.Resolution.Verdict
import QuantityAlgebra.Proofs.Expr.Printing
import QuantityAlgebra.Proofs.Resolution.WellFormed
import QuantityAlgebra.Proofs.Derivation.ReadsBack
import QuantityAlgebra.Proofs.Derivation.Agreement
import QuantityAlgebra.Proofs.Resolution.Closed
import QuantityAlgebra.Proofs.Population.Coherent
import QuantityAlgebra.Proofs.Resolution.Reresolution
import QuantityAlgebra.Proofs.Overload.Proposals
import QuantityAlgebra.Proofs.Overload.Inversion
import QuantityAlgebra.Proofs.Overload.Resolvable
import QuantityAlgebra.Proofs.Resolution.Comparison
import QuantityAlgebra.Proofs.Derivation.Outline
import QuantityAlgebra.Proofs.Resolution.Extended
import QuantityAlgebra.Proofs.Resolution.Rearranged
import QuantityAlgebra.Proofs.Resolution.Renumbered
import QuantityAlgebra.Proofs.Resolution.Widened
import QuantityAlgebra.Proofs.Population.Classified
import QuantityAlgebra.Proofs.Typing.Verified
import QuantityAlgebra.Proofs.Expansion.Enumerated
import QuantityAlgebra.Proofs.Expansion.Reached
import QuantityAlgebra.Proofs.Derivation.Emitted
import QuantityAlgebra.Proofs.Derivation.Duplicates
import QuantityAlgebra.Proofs.Typing.Linear
import QuantityAlgebra.Proofs.Expansion.Live
import QuantityAlgebra.Proofs.Derivation.Rendered
import QuantityAlgebra.Proofs.Population.Members
import QuantityAlgebra.Proofs.Overload.Forward
import QuantityAlgebra.Proofs.Overload.Isolated
import QuantityAlgebra.Proofs.Document.Quoted
import QuantityAlgebra.Proofs.Document.Numeral
import QuantityAlgebra.Proofs.Document.Value
import QuantityAlgebra.Proofs.Document.Record
import QuantityAlgebra.Proofs.Document.Population
import QuantityAlgebra.Proofs.Document.Resolution
import QuantityAlgebra.Proofs.Derivation.Reordered
import QuantityAlgebra.Proofs.Expr.Faults
import QuantityAlgebra.Proofs.Definition.Constants
import QuantityAlgebra.Proofs.Quantity.Path
import QuantityAlgebra.Proofs.Dimension.Ordered
import QuantityAlgebra.Proofs.Expr.Scans
import QuantityAlgebra.Proofs.Typing.Monotone
