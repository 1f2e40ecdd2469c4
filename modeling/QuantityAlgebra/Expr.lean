/-!
# Derivation expressions

An expression is a tree over the slots of a signature and the constant `1`, built with six binary
operators: the four of arithmetic, the dot product and the cross product. A slot may occur any
number of times. The tree says nothing about what its slots hold; that is the operand table's part.

`Expr.display` writes a tree in canonical form, with parentheses around every operation.
`Expr.displayOuter` leaves out the outermost pair.

Results:
* `BinaryOp.ofSymbol?_eq_some`: operators and their symbols are in one-to-one correspondence.
* `Expr.mem_slots`: `slots` lists exactly the slots that the tree refers to.
-/

namespace QuantityAlgebra

/-- The operators of the algebra. -/
inductive BinaryOp
  | add
  | sub
  | mul
  | div
  | dot
  | cross
  deriving DecidableEq, Inhabited

namespace BinaryOp

/-- The symbol an operator is written with (`symbol`). -/
def symbol : BinaryOp → Char
  | .add => '+'
  | .sub => '-'
  | .mul => '*'
  | .div => '/'
  | .dot => '.'
  | .cross => 'x'

/-- The operator a symbol stands for (`from_symbol`). -/
def ofSymbol? : Char → Option BinaryOp
  | '+' => some .add
  | '-' => some .sub
  | '*' => some .mul
  | '/' => some .div
  | '.' => some .dot
  | 'x' => some .cross
  | _ => none

/-- Whether the operator binds loosely, as sums and differences do: it is one of `TERM_OPERATORS`,
not of `FACTOR_OPERATORS`. -/
def isSum : BinaryOp → Bool
  | .add | .sub => true
  | .mul | .div | .dot | .cross => false

@[simp] theorem ofSymbol?_symbol (op : BinaryOp) : ofSymbol? op.symbol = some op := by
  cases op <;> rfl

theorem ofSymbol?_eq_some {c : Char} {op : BinaryOp} : ofSymbol? c = some op ↔ c = op.symbol := by
  refine ⟨fun h => ?_, fun h => h ▸ ofSymbol?_symbol op⟩
  unfold ofSymbol? at h
  split at h <;> simp_all [symbol] <;> subst h <;> rfl

end BinaryOp

/-- An expression over the slots of a signature. -/
inductive Expr
  /-- The slot of that number (`Leaf`). -/
  | slot (index : Nat)
  /-- The constant `1` (`Constant`). -/
  | one
  | binary (op : BinaryOp) (lhs rhs : Expr)
  deriving DecidableEq, Inhabited

namespace Expr

/-- Whether a slot occurs in the tree (`references`). -/
def references (slot : Nat) : Expr → Bool
  | .slot index => index == slot
  | .one => false
  | .binary _ lhs rhs => lhs.references slot || rhs.references slot

/-- The slots that occur in the tree, from left to right. -/
def slots : Expr → List Nat
  | .slot index => [index]
  | .one => []
  | .binary _ lhs rhs => lhs.slots ++ rhs.slots

theorem mem_slots {slot : Nat} {e : Expr} : slot ∈ e.slots ↔ e.references slot = true := by
  induction e with
  | slot index => simpa [slots, references] using eq_comm
  | one => simp [slots, references]
  | binary op lhs rhs ihl ihr => simp [slots, references, ihl, ihr]

/-! ## Canonical text -/

/-- The text of a placeholder: its slot's number in braces. -/
def placeholder (index : Nat) : List Char := '{' :: Nat.toDigits 10 index ++ ['}']

/-- Two texts joined by an operator, in parentheses. -/
def parenthesized (op : BinaryOp) (lhs rhs : List Char) : List Char :=
  '(' :: lhs ++ [' ', op.symbol, ' '] ++ rhs ++ [')']

/-- The canonical text of a tree, every operation in parentheses: how an `Expr` is displayed. -/
def display : Expr → List Char
  | .slot index => placeholder index
  | .one => ['1']
  | .binary op lhs rhs => parenthesized op lhs.display rhs.display

/-- A text without the pair of parentheses it begins and ends with, if it does: what `strip_outer`
does to an operation. -/
def dropParentheses : List Char → List Char
  | '(' :: rest => if rest.getLast? = some ')' then rest.dropLast else '(' :: rest
  | text => text

/-- The canonical text of a tree without the parentheses of its root operation (`strip_outer`, for a
canonical text). -/
def displayOuter : Expr → List Char
  | .binary op lhs rhs => dropParentheses (display (.binary op lhs rhs))
  | e => e.display

end Expr

end QuantityAlgebra
