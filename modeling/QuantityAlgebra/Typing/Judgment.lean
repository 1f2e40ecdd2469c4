import QuantityAlgebra.Operand.Table

/-!
# Types of expressions

The algebra as a typing relation, said without kinds and without sets of dimensions. An expression
has a type over a table under a choice of one dimension for every group slot: it is a scalar, or a
vector of one dimension. `HasType` gives the rules; an expression that no rule fits has no type.

Results:
* `HasType.unique`: an expression has at most one type under a choice.
* `HasType.of_agrees`: only the types of the slots that the expression refers to matter.
* `HasType.congr`: so of a choice only what it says of those slots.
-/

namespace QuantityAlgebra

/-- What an expression is under a choice of dimensions. -/
inductive ExprType
  | scalar
  | vector (dimension : Dimension)
  deriving DecidableEq, Inhabited

/-- A dimension for every slot; it counts for those that hold a group. -/
abbrev Choice := Nat → Dimension

/-- The type of an operand, of a group that is chosen to have dimension `d`. -/
def Operand.typeAt (d : Dimension) : Operand → ExprType
  | .scalar _ => .scalar
  | .vector _ dimension => .vector dimension
  | .group .. => .vector d

/-- The expression has the type over the table under the choice. -/
inductive HasType (t : OperandTable) (choice : Choice) : Expr → ExprType → Prop
  | slot {index : Nat} {operand : Operand} :
      t.get? index = some operand →
      HasType t choice (.slot index) (operand.typeAt (choice index))
  | one : HasType t choice .one .scalar
  /-- A sum needs two equal types. -/
  | add {lhs rhs : Expr} {τ : ExprType} :
      HasType t choice lhs τ → HasType t choice rhs τ → HasType t choice (.binary .add lhs rhs) τ
  | sub {lhs rhs : Expr} {τ : ExprType} :
      HasType t choice lhs τ → HasType t choice rhs τ → HasType t choice (.binary .sub lhs rhs) τ
  /-- A product has at most one vector, on the right or on the left. -/
  | scaleRight {lhs rhs : Expr} {τ : ExprType} :
      HasType t choice lhs .scalar → HasType t choice rhs τ →
      HasType t choice (.binary .mul lhs rhs) τ
  | scaleLeft {lhs rhs : Expr} {τ : ExprType} :
      HasType t choice lhs τ → HasType t choice rhs .scalar →
      HasType t choice (.binary .mul lhs rhs) τ
  /-- A divisor is a scalar. -/
  | div {lhs rhs : Expr} {τ : ExprType} :
      HasType t choice lhs τ → HasType t choice rhs .scalar →
      HasType t choice (.binary .div lhs rhs) τ
  | dot {lhs rhs : Expr} {d : Dimension} :
      HasType t choice lhs (.vector d) → HasType t choice rhs (.vector d) →
      HasType t choice (.binary .dot lhs rhs) .scalar
  | cross {lhs rhs : Expr} :
      HasType t choice lhs (.vector crossDimension) →
      HasType t choice rhs (.vector crossDimension) →
      HasType t choice (.binary .cross lhs rhs) (.vector crossDimension)

/-- Every slot the expression refers to has the same type in both tables, each under its choice. -/
def OperandTable.Agrees (t : OperandTable) (choice : Choice) (u : OperandTable) (other : Choice)
    (e : Expr) : Prop :=
  ∀ slot, e.references slot = true →
    (t.get? slot).map (Operand.typeAt (choice slot)) =
      (u.get? slot).map (Operand.typeAt (other slot))

namespace OperandTable.Agrees

variable {t u v : OperandTable} {choice other third : Choice} {e lhs rhs : Expr} {op : BinaryOp}

theorem symm (h : t.Agrees choice u other e) : u.Agrees other t choice e :=
  fun slot found => (h slot found).symm

theorem trans (h : t.Agrees choice u other e) (h' : u.Agrees other v third e) :
    t.Agrees choice v third e :=
  fun slot found => (h slot found).trans (h' slot found)

theorem left (h : t.Agrees choice u other (.binary op lhs rhs)) : t.Agrees choice u other lhs :=
  fun slot found => h slot (by simp [Expr.references, found])

theorem right (h : t.Agrees choice u other (.binary op lhs rhs)) : t.Agrees choice u other rhs :=
  fun slot found => h slot (by simp [Expr.references, found])

end OperandTable.Agrees

namespace HasType

variable {t u : OperandTable} {choice other : Choice} {e : Expr} {τ υ : ExprType}

/-- **An expression has at most one type** under a choice. -/
theorem unique (h : HasType t choice e τ) (h' : HasType t choice e υ) : τ = υ := by
  induction h generalizing υ with
  | slot found =>
    cases h' with
    | slot found' =>
      obtain rfl := Option.some.inj (found.symm.trans found')
      rfl
  | one => cases h'; rfl
  | add _ _ ih _ =>
    cases h' with
    | add l _ => exact ih l
  | sub _ _ ih _ =>
    cases h' with
    | sub l _ => exact ih l
  | scaleRight _ _ ihl ihr =>
    cases h' with
    | scaleRight _ r => exact ihr r
    | scaleLeft l r => exact (ihr r).trans (ihl l)
  | scaleLeft _ _ ihl ihr =>
    cases h' with
    | scaleRight l r => exact (ihl l).trans (ihr r)
    | scaleLeft l _ => exact ihl l
  | div _ _ ih _ =>
    cases h' with
    | div l _ => exact ih l
  | dot => cases h'; rfl
  | cross => cases h'; rfl

/-- **Only the types of the slots that the expression refers to matter.** -/
theorem of_agrees (h : HasType t choice e τ) (agrees : t.Agrees choice u other e) :
    HasType u other e τ := by
  induction h with
  | @slot index operand found =>
    have same := agrees index (by simp [Expr.references])
    rw [found] at same
    obtain ⟨operand', found', type⟩ := Option.map_eq_some_iff.mp same.symm
    exact type ▸ .slot found'
  | one => exact .one
  | add _ _ ihl ihr => exact .add (ihl agrees.left) (ihr agrees.right)
  | sub _ _ ihl ihr => exact .sub (ihl agrees.left) (ihr agrees.right)
  | scaleRight _ _ ihl ihr => exact .scaleRight (ihl agrees.left) (ihr agrees.right)
  | scaleLeft _ _ ihl ihr => exact .scaleLeft (ihl agrees.left) (ihr agrees.right)
  | div _ _ ihl ihr => exact .div (ihl agrees.left) (ihr agrees.right)
  | dot _ _ ihl ihr => exact .dot (ihl agrees.left) (ihr agrees.right)
  | cross _ _ ihl ihr => exact .cross (ihl agrees.left) (ihr agrees.right)

theorem iff_of_agrees (agrees : t.Agrees choice u other e) :
    HasType t choice e τ ↔ HasType u other e τ :=
  ⟨fun typed => typed.of_agrees agrees, fun typed => typed.of_agrees agrees.symm⟩

/-- Of a choice only what it says of those slots matters. -/
theorem congr (h : HasType t choice e τ)
    (agree : ∀ slot, e.references slot = true → choice slot = other slot) :
    HasType t other e τ :=
  h.of_agrees fun slot found => by rw [agree slot found]

end HasType

end QuantityAlgebra
