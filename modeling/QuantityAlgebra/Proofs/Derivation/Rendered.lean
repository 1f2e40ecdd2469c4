import QuantityAlgebra.Proofs.Resolution.WellFormed

/-!
# Rendered texts

How the text of a tree reads with products of vectors as calls of helpers, said by the types of the
tree: a dot product is a call of the helper for the dimension of its operands, a cross product one
of the helper for three dimensions, and all else is an operation between its sides. `Renders` gives
one rule for each; a product of vectors whose operands have no common dimension has no text.

The text that is computed goes by inferred dimensions instead, by those of the left operand alone,
and has a fallback for a dimension that is open. Over a table in which a selection is fixed the
inferred dimensions are those of the type, and the tree is typed at every node, so the fallback is
never met and the two operands agree.

Results:
* `Renders.unique`, `RendersOuter.unique`: a tree has at most one text.
* `renders_render`, `rendersOuter_renderOuter`: the computed text is that text.
* **`rendered_with_helpers`**: so it is of every derivation of a resolution.
-/

namespace QuantityAlgebra

/-! ## Texts of trees -/

/-- Whether the operator is one of the four of arithmetic. -/
def BinaryOp.isArithmetic : BinaryOp → Bool
  | .add | .sub | .mul | .div => true
  | .dot | .cross => false

namespace Expr

/-- Whether the tree is an operation of arithmetic. -/
def isArithmetic : Expr → Bool
  | .binary op _ _ => op.isArithmetic
  | _ => false

/-- A helper called with two texts. -/
def call (helper lhs rhs : List Char) : List Char :=
  helper ++ '(' :: lhs ++ [',', ' '] ++ rhs ++ [')']

end Expr

/-- The tree is rendered as the text, over the table under the choice. -/
inductive Renders (config : Config) (t : OperandTable) (choice : Choice) :
    Expr → List Char → Prop
  | slot {index : Nat} : Renders config t choice (.slot index) (Expr.placeholder index)
  | one : Renders config t choice .one ['1']
  | arithmetic {op : BinaryOp} {lhs rhs : Expr} {left right : List Char} :
      op.isArithmetic = true →
      Renders config t choice lhs left → Renders config t choice rhs right →
      Renders config t choice (.binary op lhs rhs) (Expr.parenthesized op left right)
  /-- The helper is the one for the dimension that both operands have. -/
  | dot {lhs rhs : Expr} {left right : List Char} {d : Dimension} :
      HasType t choice lhs (.vector d) → HasType t choice rhs (.vector d) →
      Renders config t choice lhs left → Renders config t choice rhs right →
      Renders config t choice (.binary .dot lhs rhs)
        (Expr.call (config.dotHelperFor d) left right)
  | cross {lhs rhs : Expr} {left right : List Char} :
      HasType t choice lhs (.vector crossDimension) →
      HasType t choice rhs (.vector crossDimension) →
      Renders config t choice lhs left → Renders config t choice rhs right →
      Renders config t choice (.binary .cross lhs rhs)
        (Expr.call config.crossHelper.toList left right)

/-- As `Renders`, without the parentheses of an operation at the root. A call has none. -/
inductive RendersOuter (config : Config) (t : OperandTable) (choice : Choice) :
    Expr → List Char → Prop
  | arithmetic {op : BinaryOp} {lhs rhs : Expr} {left right : List Char} :
      op.isArithmetic = true →
      Renders config t choice lhs left → Renders config t choice rhs right →
      RendersOuter config t choice (.binary op lhs rhs) (left ++ [' ', op.symbol, ' '] ++ right)
  | whole {e : Expr} {text : List Char} :
      e.isArithmetic = false → Renders config t choice e text →
      RendersOuter config t choice e text

variable {config : Config} {t u : OperandTable} {choice : Choice} {e : Expr} {τ : ExprType}
  {text text' : List Char}

/-- A tree has at most one text. -/
theorem Renders.unique (h : Renders config t choice e text) (h' : Renders config t choice e text') :
    text = text' := by
  induction h generalizing text' with
  | slot => cases h'; rfl
  | one => cases h'; rfl
  | arithmetic isArithmetic _ _ ihl ihr =>
    cases h' with
    | arithmetic _ l r => rw [ihl l, ihr r]
    -- Neither operator is one of arithmetic.
    | dot | cross => contradiction
  | dot typed _ _ _ ihl ihr =>
    cases h' with
    | arithmetic => contradiction
    | dot typed' _ l r =>
      obtain rfl := ExprType.vector.inj (typed.unique typed')
      rw [ihl l, ihr r]
  | cross _ _ _ _ ihl ihr =>
    cases h' with
    | arithmetic => contradiction
    | cross _ _ l r => rw [ihl l, ihr r]

theorem RendersOuter.unique (h : RendersOuter config t choice e text)
    (h' : RendersOuter config t choice e text') : text = text' := by
  cases h with
  | arithmetic isArithmetic l r =>
    cases h' with
    | arithmetic _ l' r' => rw [l.unique l', r.unique r']
    | whole notArithmetic => exact absurd isArithmetic (Bool.eq_false_iff.mp notArithmetic)
  | whole notArithmetic whole =>
    cases h' with
    | arithmetic isArithmetic => exact absurd isArithmetic (Bool.eq_false_iff.mp notArithmetic)
    | whole _ whole' => exact whole.unique whole'

/-! ## The computed text -/

/-- Over a settled table the helper named is the one for the dimension of the left operand. -/
theorem render_dot {lhs rhs : Expr} {d : Dimension} (settled : u.Settled choice lhs)
    (typed : HasType u choice lhs (.vector d)) :
    (Expr.binary .dot lhs rhs).render config u =
      Expr.call (config.dotHelperFor d) (lhs.render config u) (rhs.render config u) := by
  have single : (lhs.dimensions u).single? = some d := by
    rw [dimensions_eq_of_hasType settled typed, ExprType.single?_dimensions]
    rfl
  simp only [Expr.render, single]
  rfl

/-- **The computed text of a typed tree is the text of the tree**, at every node. -/
theorem renders_render (settled : u.Settled choice e) (narrowed : u.Narrows t)
    (typed : HasType t choice e τ) : Renders config t choice e (e.render config u) := by
  induction typed with
  | slot => exact .slot
  | one => exact .one
  | add _ _ ihl ihr | sub _ _ ihl ihr | scaleRight _ _ ihl ihr | scaleLeft _ _ ihl ihr
  | div _ _ ihl ihr => exact .arithmetic rfl (ihl settled.left) (ihr settled.right)
  | dot l r ihl ihr =>
    rw [render_dot settled.left (narrowed.hasType_iff.mpr l)]
    exact .dot l r (ihl settled.left) (ihr settled.right)
  | cross l r ihl ihr => exact .cross l r (ihl settled.left) (ihr settled.right)

/-- At the root an operation of arithmetic has no parentheses. -/
theorem renderOuter_arithmetic {op : BinaryOp} {lhs rhs : Expr}
    (arithmetic : op.isArithmetic = true) :
    (Expr.binary op lhs rhs).renderOuter config u =
      lhs.render config u ++ [' ', op.symbol, ' '] ++ rhs.render config u := by
  have dropped := Expr.dropParentheses_parenthesized op (lhs.render config u) (rhs.render config u)
  cases op with
  | add | sub | mul | div => exact dropped
  | dot | cross => contradiction

theorem rendersOuter_renderOuter (settled : u.Settled choice e) (narrowed : u.Narrows t)
    (typed : HasType t choice e τ) :
    RendersOuter config t choice e (e.renderOuter config u) := by
  have whole : Renders config t choice e (e.render config u) :=
    renders_render settled narrowed typed
  cases e with
  | slot | one => exact .whole rfl whole
  | binary op lhs rhs =>
    by_cases arithmetic : op.isArithmetic = true
    · obtain ⟨σ, ρ, l, r, -⟩ := hasType_binary_iff.mp typed
      rw [renderOuter_arithmetic arithmetic]
      exact .arithmetic arithmetic (renders_render settled.left narrowed l)
        (renders_render settled.right narrowed r)
    -- A call is at the root what it is below.
    · cases op with
      | dot | cross => exact .whole rfl whole
      | add | sub | mul | div => exact absurd rfl arithmetic

/-! ## Derivations -/

/-- The derivation of a selection has the text that the tree has under it. -/
theorem OperandTable.rendersOuter_derivationOf {dims : List Dimension} (types : t.Types e dims τ) :
    RendersOuter config t (t.choiceOf e dims) e text ↔
      (t.derivationOf config e dims).rendered = String.ofList text := by
  have rendered : RendersOuter config t (t.choiceOf e dims) e
      (e.renderOuter config (fixAll (t.referencedGroupSlots e) dims t)) :=
    rendersOuter_renderOuter (settled_fixAll types.1)
      (narrows_fixAll (t.referencedGroupSlots e) dims t) types.2
  constructor
  · intro h
    rw [h.unique rendered]
    rfl
  · intro same
    exact String.ofList_injective same ▸ rendered

namespace Resolver

variable {State : Type} {report : State → ResolutionError → Option Diagnostic × State}
  {resolver : Resolver} {target : Quantity} {definition : Definition} {state : State}
  {r : Resolution}

/-- **A rendered text names the right helper everywhere.** -/
theorem rendered_with_helpers
    (h : (resolver.resolveWith report target definition state).1 = .ok r) :
    let t := OperandTable.classify resolver.classifier definition.signature
    ∃ e, Expr.parse definition.expression.toList definition.signature.length = .ok e ∧
      ∀ x ∈ r.derivations, ∃ dims τ, t.Keeps e dims τ ∧ Describes t e x (dims, τ) ∧
        ∀ text, RendersOuter resolver.config t (t.choiceOf e dims) e text ↔
          x.rendered = String.ofList text := by
  intro t
  obtain ⟨e, succeeds⟩ := succeeds_of_outcome (resolveWith_eq_ok_iff.mp h)
  refine ⟨e, succeeds.read, fun x held => ?_⟩
  obtain ⟨dims, τ, keeps, rfl⟩ :=
    exists_keeps_of_mem succeeds.read (succeeds.mem_derivations.mp held)
  exact ⟨dims, τ, keeps, OperandTable.describes_derivationOf keeps.1,
    fun text => OperandTable.rendersOuter_derivationOf keeps.1⟩

/-- Two products of vectors side by side, in one of them a cross product, and helpers that are
themselves in parentheses. -/
theorem rendered_with_helpers_nested :
    let classifier : Classifier := fun q =>
      if q.name = "Position" then
        .group (.ofList [(2, ⟨"m", "Position2"⟩), (3, ⟨"m", "Position3"⟩)])
      else if q.name = "Spin" then
        .group (.ofList [(3, ⟨"m", "Spin3"⟩), (4, ⟨"m", "Spin4"⟩)])
      else .scalar
    let config : Config := { dotHelper := "(dot\x7bdimension\x7d)", crossHelper := "(cross)" }
    let resolver : Resolver := ⟨classifier, config⟩
    let definition : Definition := ⟨"({0} . {0}) * (({1} x {2}) . {1})",
      [⟨"m", "Position"⟩, ⟨"m", "Spin"⟩, ⟨"m", "Spin"⟩], .none, false⟩
    let t := OperandTable.classify classifier definition.signature
    ∃ r, (resolver.resolveWith Sink.report ⟨"m", "Ratio"⟩ definition .silent).1 = .ok r ∧
      r.derivations.map Derivation.rendered =
        ["(dot2)({0}, {0}) * (dot3)((cross)({1}, {2}), {1})",
          "(dot3)({0}, {0}) * (dot3)((cross)({1}, {2}), {1})"] ∧
      ∃ e, Expr.parse definition.expression.toList definition.signature.length = .ok e ∧
        ∀ x ∈ r.derivations, ∃ dims τ, t.Keeps e dims τ ∧ Describes t e x (dims, τ) ∧
          ∀ text, RendersOuter config t (t.choiceOf e dims) e text ↔
            x.rendered = String.ofList text := by
  intro classifier config resolver definition t
  let e : Expr := .binary .mul (.binary .dot (.slot 0) (.slot 0))
    (.binary .dot (.binary .cross (.slot 1) (.slot 2)) (.slot 1))
  have read : Expr.parse definition.expression.toList definition.signature.length = .ok e :=
    Expr.parse_of_eq_displayOuter (by decide) (by decide)
  have succeeds : resolver.Succeeds ⟨"m", "Ratio"⟩ definition e _ :=
    ⟨read, by decide, by decide, by decide, rfl⟩
  have resolved : (resolver.resolveWith Sink.report ⟨"m", "Ratio"⟩ definition .silent).1 = .ok _ :=
    resolveWith_eq_ok_iff.mpr succeeds.outcome
  exact ⟨_, resolved, by decide, rendered_with_helpers resolved⟩

end Resolver

end QuantityAlgebra
