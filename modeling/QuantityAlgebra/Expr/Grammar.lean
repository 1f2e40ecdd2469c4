import QuantityAlgebra.Expr

/-!
# The grammar of expressions

The texts without blanks that are expressions, by the grammar

    Sum      Product, or Sum, a sum operator, Product
    Product  Atom, or Product, another operator, Atom
    Atom     '(' Sum ')', or '{' digits '}', or '1'

A `ParseTree` is a derivation in it: `text` is what it derives, and `expr` the tree it stands for,
in which all operators are left-associative and sums bind loosest. `Fits` says of how many operands
it may speak. The number of a placeholder is written in decimal, with any zeros in front.

Results: `text_ne_nil`, nothing derives the empty text; `references_lt`, a tree that fits refers to
slots below the number of operands alone.
-/

namespace QuantityAlgebra

/-- The three levels of the grammar. -/
inductive Level
  | sum
  | product
  | atom
  deriving DecidableEq

/-- A derivation at a level of the grammar. -/
inductive ParseTree : Level → Type
  | ofProduct (tree : ParseTree .product) : ParseTree .sum
  | sum (lhs : ParseTree .sum) (op : BinaryOp) (isSum : op.isSum = true)
      (rhs : ParseTree .product) : ParseTree .sum
  | ofAtom (tree : ParseTree .atom) : ParseTree .product
  | product (lhs : ParseTree .product) (op : BinaryOp) (isProduct : op.isSum = false)
      (rhs : ParseTree .atom) : ParseTree .product
  | parentheses (inner : ParseTree .sum) : ParseTree .atom
  | placeholder (digits : List Char) (nonempty : digits ≠ [])
      (isDigit : ∀ c ∈ digits, c.isDigit = true) : ParseTree .atom
  | one : ParseTree .atom

namespace ParseTree

/-- The text that is derived. -/
def text : {level : Level} → ParseTree level → List Char
  | _, .ofProduct tree => tree.text
  | _, .sum lhs op _ rhs => lhs.text ++ op.symbol :: rhs.text
  | _, .ofAtom tree => tree.text
  | _, .product lhs op _ rhs => lhs.text ++ op.symbol :: rhs.text
  | _, .parentheses inner => '(' :: inner.text ++ [')']
  | _, .placeholder digits _ _ => '{' :: digits ++ ['}']
  | _, .one => ['1']

/-- The tree a derivation stands for. -/
def expr : {level : Level} → ParseTree level → Expr
  | _, .ofProduct tree => tree.expr
  | _, .sum lhs op _ rhs => .binary op lhs.expr rhs.expr
  | _, .ofAtom tree => tree.expr
  | _, .product lhs op _ rhs => .binary op lhs.expr rhs.expr
  | _, .parentheses inner => inner.expr
  | _, .placeholder digits _ _ => .slot (Nat.ofDigitChars 10 digits 0)
  | _, .one => .one

/-- Whether every placeholder is one of so many operands. -/
def Fits (operands : Nat) : {level : Level} → ParseTree level → Prop
  | _, .ofProduct tree => tree.Fits operands
  | _, .sum lhs _ _ rhs => lhs.Fits operands ∧ rhs.Fits operands
  | _, .ofAtom tree => tree.Fits operands
  | _, .product lhs _ _ rhs => lhs.Fits operands ∧ rhs.Fits operands
  | _, .parentheses inner => inner.Fits operands
  | _, .placeholder digits _ _ => Nat.ofDigitChars 10 digits 0 < operands
  | _, .one => True

variable {level : Level}

theorem text_ne_nil (p : ParseTree level) : p.text ≠ [] := by
  induction p with
  | ofProduct _ ih | ofAtom _ ih => exact ih
  | sum | product | parentheses | placeholder | one => simp [text]

/-- A tree that fits refers to slots below the number of operands alone. -/
theorem references_lt {operands slot : Nat} {p : ParseTree level} (fits : p.Fits operands)
    (h : p.expr.references slot = true) : slot < operands := by
  induction p with
  | ofProduct _ ih | ofAtom _ ih | parentheses _ ih => exact ih fits h
  | sum _ _ _ _ ihl ihr | product _ _ _ _ ihl ihr =>
    rcases Bool.or_eq_true_iff.mp h with h | h
    · exact ihl fits.1 h
    · exact ihr fits.2 h
  | placeholder digits =>
    obtain rfl : Nat.ofDigitChars 10 digits 0 = slot := by simpa [expr, Expr.references] using h
    exact fits
  | one => simp [expr, Expr.references] at h

end ParseTree

end QuantityAlgebra
