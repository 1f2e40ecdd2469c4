import QuantityAlgebra.Proofs.Definition.Numbers

/-!
# Where constants stand

`Definition.misplacesConstant` reads the text of a definition twice: for foreign numbers as it is,
and as an expression without its blanks. This file says what the two readings answer together.

A place in a tree is an address, the way down from its root. On a definition that reads as an
expression the first reading finds nothing, and the second answers whether some address that holds
the constant is not that of a dividend.

Whether blanks matter is a matter of the first reading alone, since the second drops them. They do
where they split a number: `1 1` is two ones before the blanks are dropped and eleven after, so the
definition is malformed with the blanks and holds a foreign number without.

Results:
* `Expr.isDividend_lhs`, `Expr.isDividend_rhs`, `Expr.hasMisplacedOne_binary`: what is below a node.
* **`Expr.misplacesConstant_iff`**: the constants of a tree that are no dividends.
* **`Definition.misplacesConstant_eq_ok_iff`**: the answer for a definition that reads as an
  expression.
* **`Definition.sameAnswer_stripped_iff`**: when blanks make a difference, and which.
-/

namespace QuantityAlgebra

/-! ## Addresses in a tree -/

/-- Which operand to go down to. -/
inductive Direction
  | lhs
  | rhs
  deriving DecidableEq

namespace Expr

/-- The tree at an address, nothing if the address leaves the tree. -/
def subexpr? : Expr → List Direction → Option Expr
  | e, [] => some e
  | .binary _ lhs _, .lhs :: below => lhs.subexpr? below
  | .binary _ _ rhs, .rhs :: below => rhs.subexpr? below
  | .slot _, _ :: _ => none
  | .one, _ :: _ => none

/-- The address is that of the left operand of a quotient. -/
def IsDividend (e : Expr) (address : List Direction) : Prop :=
  ∃ above dividend divisor, address = above ++ [.lhs] ∧
    e.subexpr? above = some (.binary .div dividend divisor)

/-- Some constant stands elsewhere than as a dividend. -/
def HasMisplacedOne (e : Expr) : Prop :=
  ∃ address, e.subexpr? address = some .one ∧ ¬e.IsDividend address

variable {op : BinaryOp} {lhs rhs : Expr} {address : List Direction}

theorem not_isDividend_nil (e : Expr) : ¬e.IsDividend [] := by
  rintro ⟨above, dividend, divisor, root, -⟩
  simp at root

theorem isDividend_lhs :
    (binary op lhs rhs).IsDividend (.lhs :: address) ↔
      (address = [] ∧ op = .div) ∨ lhs.IsDividend address := by
  constructor
  · rintro ⟨above, dividend, divisor, path, quotient⟩
    cases above with
    | nil =>
      obtain rfl : address = [] := by simpa using path
      obtain ⟨rfl, -⟩ : op = .div ∧ _ := by simpa [subexpr?] using quotient
      exact .inl ⟨rfl, rfl⟩
    | cons direction above =>
      obtain ⟨rfl, rfl⟩ := List.cons.inj path
      exact .inr ⟨above, dividend, divisor, rfl, quotient⟩
  · rintro (⟨rfl, rfl⟩ | ⟨above, dividend, divisor, rfl, quotient⟩)
    · exact ⟨[], lhs, rhs, rfl, rfl⟩
    · exact ⟨.lhs :: above, dividend, divisor, rfl, quotient⟩

theorem isDividend_rhs :
    (binary op lhs rhs).IsDividend (.rhs :: address) ↔ rhs.IsDividend address := by
  constructor
  · rintro ⟨above, dividend, divisor, path, quotient⟩
    cases above with
    | nil => simp at path
    | cons direction above =>
      obtain ⟨rfl, rfl⟩ := List.cons.inj path
      exact ⟨above, dividend, divisor, rfl, quotient⟩
  · rintro ⟨above, dividend, divisor, rfl, quotient⟩
    exact ⟨.rhs :: above, dividend, divisor, rfl, quotient⟩

/-- The constants of an operation that are no dividends: those of its operands, but for a left
operand that is a dividend itself. -/
theorem hasMisplacedOne_binary :
    (binary op lhs rhs).HasMisplacedOne ↔
      (lhs.HasMisplacedOne ∧ ¬(op = .div ∧ lhs = .one)) ∨ rhs.HasMisplacedOne := by
  constructor
  · rintro ⟨address, found, misplaced⟩
    cases address with
    | nil => simp [subexpr?] at found
    | cons direction address =>
      cases direction with
      | lhs =>
        rw [isDividend_lhs] at misplaced
        refine .inl ⟨⟨address, found, fun h => misplaced (.inr h)⟩, ?_⟩
        rintro ⟨rfl, rfl⟩
        cases address with
        | nil => exact misplaced (.inl ⟨rfl, rfl⟩)
        | cons => simp [subexpr?] at found
      | rhs =>
        rw [isDividend_rhs] at misplaced
        exact .inr ⟨address, found, misplaced⟩
  · rintro (⟨⟨address, found, misplaced⟩, noDividend⟩ | ⟨address, found, misplaced⟩)
    · refine ⟨.lhs :: address, found, ?_⟩
      rw [isDividend_lhs]
      rintro (⟨rfl, rfl⟩ | dividend)
      · exact noDividend ⟨rfl, by simpa [subexpr?] using found⟩
      · exact misplaced dividend
    · exact ⟨.rhs :: address, found, by rwa [isDividend_rhs]⟩

theorem misplacesConstant_binary :
    (binary op lhs rhs).misplacesConstant = true ↔
      (lhs.misplacesConstant = true ∧ ¬(op = .div ∧ lhs = .one)) ∨
        rhs.misplacesConstant = true := by
  by_cases dividend : op = .div ∧ lhs = .one
  · obtain ⟨rfl, rfl⟩ := dividend
    simp
  · rw [misplacesConstant, Bool.or_eq_true]
    · simp only [dividend, not_false_eq_true, and_true]
    · exact fun hop hlhs => dividend ⟨hop, hlhs⟩

/-- **A tree misplaces the constant** exactly if some address holds it and is not that of a
dividend. -/
theorem misplacesConstant_iff (e : Expr) : e.misplacesConstant = true ↔ e.HasMisplacedOne := by
  induction e with
  | slot index =>
    constructor
    · intro h
      contradiction
    · rintro ⟨address, found, -⟩
      cases address <;> simp [subexpr?] at found
  | one => exact ⟨fun _ => ⟨[], rfl, not_isDividend_nil _⟩, fun _ => rfl⟩
  | binary op lhs rhs ihl ihr =>
    rw [misplacesConstant_binary, hasMisplacedOne_binary, ihl, ihr]

theorem parse_strip (text : List Char) (operands : Nat) :
    parse (Text.strip text) operands = parse text operands := by
  simp [parse]

end Expr

namespace Definition

/-! ## Definitions that read as expressions -/

variable {definition : Definition}

theorem misplacesConstant_of_foreign (h : hasForeignNumber definition.expression.toList = true) :
    definition.misplacesConstant = .ok true := by
  simp [misplacesConstant, h]

theorem misplacesConstant_of_ok {e : Expr}
    (h : hasForeignNumber definition.expression.toList = false)
    (reads : Expr.parse definition.expression.toList definition.signature.length = .ok e) :
    definition.misplacesConstant = .ok e.misplacesConstant := by
  simp [misplacesConstant, h, reads]

theorem misplacesConstant_of_error {source : ParseError}
    (h : hasForeignNumber definition.expression.toList = false)
    (fails : Expr.parse definition.expression.toList definition.signature.length = .error source) :
    definition.misplacesConstant = .error ⟨definition.expression, .malformed source⟩ := by
  simp [misplacesConstant, h, fails]

/-- **On a definition that reads as an expression** no foreign number is found, and the answer is
whether the constant stands elsewhere than as a dividend. -/
theorem misplacesConstant_eq_ok_iff (definition : Definition) (e : Expr)
    (reads : Expr.parse definition.expression.toList definition.signature.length = .ok e) :
    hasForeignNumber definition.expression.toList = false ∧
      (definition.misplacesConstant = .ok true ↔ e.HasMisplacedOne) ∧
      (definition.misplacesConstant = .ok false ↔ ¬e.HasMisplacedOne) := by
  have none := hasForeignNumber_of_parse reads
  have answer := misplacesConstant_of_ok none reads
  refine ⟨none, ?_, ?_⟩
  · rw [answer, Except.ok.injEq, Expr.misplacesConstant_iff]
  · rw [answer, Except.ok.injEq, ← Expr.misplacesConstant_iff, Bool.not_eq_true]

/-- A constant as a dividend and another one behind it, with blanks inside a placeholder. -/
theorem misplacesConstant_eq_ok_iff_difference :
    let definition : Definition := ⟨"(1 / { 0 }) - 1", [⟨"m", "Time"⟩], .none, false⟩
    let e : Expr := .binary .sub (.binary .div .one (.slot 0)) .one
    Expr.parse definition.expression.toList definition.signature.length = .ok e ∧
      e.HasMisplacedOne ∧ e.IsDividend [.lhs, .lhs] ∧
      hasForeignNumber definition.expression.toList = false ∧
      definition.misplacesConstant = .ok true := by
  intro definition e
  let quotient : ParseTree .product :=
    .product (.ofAtom .one) .div rfl (.placeholder ['0'] (by simp) (by simp))
  let tree : ParseTree .sum :=
    .sum (.ofProduct (.ofAtom (.parentheses (.ofProduct quotient)))) .sub rfl (.ofAtom .one)
  have fits : tree.Fits 1 := by simp [tree, quotient, ParseTree.Fits, Nat.ofDigitChars]
  have reads : Expr.parse definition.expression.toList definition.signature.length = .ok e :=
    Expr.parse_of_derives ⟨tree, by decide, fits, rfl⟩
  have misplaced : e.HasMisplacedOne :=
    ⟨[.rhs], rfl, by
      rw [Expr.isDividend_rhs]
      exact Expr.not_isDividend_nil _⟩
  obtain ⟨none, answer, -⟩ := misplacesConstant_eq_ok_iff definition e reads
  exact ⟨reads, misplaced, ⟨[.lhs], _, _, rfl, rfl⟩, none, answer.mpr misplaced⟩

/-! ## Blanks -/

/-- The definition without the blanks of its expression. -/
def stripped (definition : Definition) : Definition :=
  { definition with expression := String.ofList (Text.strip definition.expression.toList) }

/-- The same answer to two definitions: the same word on constants, or the same parse error. -/
inductive SameAnswer : Except ResolutionError Bool → Except ResolutionError Bool → Prop
  | ok (answer : Bool) : SameAnswer (.ok answer) (.ok answer)
  | malformed (expression expression' : String) (source : ParseError) :
      SameAnswer (.error ⟨expression, .malformed source⟩) (.error ⟨expression', .malformed source⟩)

/-- Outside braces all digits are ones and no two are in a row, but two have nothing but blanks
between them. -/
def SplitsNumber (text : List Char) : Prop :=
  ¬ForeignDigits false text ∧ SplitOnes text

/-- A split number is none in the text and a foreign one without the blanks. -/
theorem hasForeignNumber_of_splitsNumber {text : List Char} (h : SplitsNumber text) :
    hasForeignNumber text = false ∧ hasForeignNumber (Text.strip text) = true := by
  obtain ⟨none, split⟩ := h
  refine ⟨?_, hasForeignNumber_strip.mpr (.inr split)⟩
  rwa [← Bool.not_eq_true, hasForeignNumber_iff]

/-- Where no number is split, blanks make no difference to foreign numbers. -/
theorem hasForeignNumber_strip_of_not_splitsNumber {text : List Char} (h : ¬SplitsNumber text) :
    hasForeignNumber (Text.strip text) = hasForeignNumber text := by
  rw [Bool.eq_iff_iff, hasForeignNumber_strip]
  refine ⟨fun foreign => ?_, .inl⟩
  by_contra none
  rcases foreign with foreign | split
  · exact none foreign
  · exact h ⟨fun digits => none (hasForeignNumber_iff.mpr digits), split⟩

theorem sameAnswer_of_hasForeignNumber_eq
    (h : hasForeignNumber definition.stripped.expression.toList =
      hasForeignNumber definition.expression.toList)
    (parsed : Expr.parse definition.stripped.expression.toList definition.signature.length =
      Expr.parse definition.expression.toList definition.signature.length) :
    SameAnswer definition.misplacesConstant definition.stripped.misplacesConstant := by
  cases foreign : hasForeignNumber definition.expression.toList with
  | true =>
    rw [misplacesConstant_of_foreign foreign, misplacesConstant_of_foreign (h.trans foreign)]
    exact .ok true
  | false =>
    cases reads : Expr.parse definition.expression.toList definition.signature.length with
    | ok e =>
      rw [misplacesConstant_of_ok foreign reads,
        misplacesConstant_of_ok (h.trans foreign) (parsed.trans reads)]
      exact .ok e.misplacesConstant
    | error source =>
      rw [misplacesConstant_of_error foreign reads,
        misplacesConstant_of_error (h.trans foreign) (parsed.trans reads)]
      exact .malformed _ _ source

/-- **Blanks make a difference exactly where they split a number**: the definition is malformed with
them, and holds a foreign number without. -/
theorem sameAnswer_stripped_iff (definition : Definition) :
    (SameAnswer definition.misplacesConstant definition.stripped.misplacesConstant ↔
      ¬SplitsNumber definition.expression.toList) ∧
    (SplitsNumber definition.expression.toList →
      (∃ source,
        Expr.parse definition.expression.toList definition.signature.length = .error source ∧
        definition.misplacesConstant = .error ⟨definition.expression, .malformed source⟩) ∧
      definition.stripped.misplacesConstant = .ok true) := by
  have written : definition.stripped.expression.toList =
      Text.strip definition.expression.toList := String.toList_ofList
  have differ : SplitsNumber definition.expression.toList →
      (∃ source,
        Expr.parse definition.expression.toList definition.signature.length = .error source ∧
        definition.misplacesConstant = .error ⟨definition.expression, .malformed source⟩) ∧
      definition.stripped.misplacesConstant = .ok true := by
    intro split
    obtain ⟨none, foreign⟩ := hasForeignNumber_of_splitsNumber split
    refine ⟨?_, misplacesConstant_of_foreign (by rw [written, foreign])⟩
    cases reads : Expr.parse definition.expression.toList definition.signature.length with
    | ok e =>
      -- An expression holds no foreign number, blanks or not.
      rw [← Expr.parse_strip] at reads
      rw [hasForeignNumber_of_parse reads] at foreign
      contradiction
    | error source => exact ⟨source, rfl, misplacesConstant_of_error none reads⟩
  refine ⟨⟨?_, ?_⟩, differ⟩
  · intro same split
    obtain ⟨⟨source, -, malformed⟩, answered⟩ := differ split
    rw [malformed, answered] at same
    cases same
  · intro whole
    refine sameAnswer_of_hasForeignNumber_eq ?_ ?_
    · rw [written, hasForeignNumber_strip_of_not_splitsNumber whole]
    · rw [written, Expr.parse_strip]

/-- Two ones with a blank between them are malformed; eleven is a foreign number. -/
theorem not_sameAnswer_of_ones_apart :
    let definition : Definition := ⟨"1 1", [], .none, false⟩
    definition.misplacesConstant = .error ⟨"1 1", .malformed (.malformedTerm "11")⟩ ∧
      definition.stripped.misplacesConstant = .ok true ∧
      ¬SameAnswer definition.misplacesConstant definition.stripped.misplacesConstant := by
  intro definition
  have fails : Expr.parse definition.expression.toList definition.signature.length =
      .error (.malformedTerm "11") := by
    rw [← Expr.parse_strip, Expr.parse_of_readable (List.all_eq_true.mp (by decide)) (by decide)]
    exact (Expr.parseTree_of_term (by decide) (by decide) (by decide)).trans (by decide)
  have malformed := misplacesConstant_of_error (by decide) fails
  have answered : definition.stripped.misplacesConstant = .ok true :=
    misplacesConstant_of_foreign (by decide)
  refine ⟨malformed, answered, ?_⟩
  rw [malformed, answered]
  nofun

end Definition

end QuantityAlgebra
