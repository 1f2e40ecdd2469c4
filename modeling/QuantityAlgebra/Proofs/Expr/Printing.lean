import QuantityAlgebra.Proofs.Expr.Reading

/-!
# Canonical texts read back

The canonical text of a tree, less its blanks, derives from the grammar: a placeholder and the
constant are atoms, and an operation in parentheses is one whatever its operator binds like, so no
rule about precedence comes into play. Without the outermost parentheses the text of an operation
derives at the level of its operator, and so at the loosest level. The reader follows the grammar,
so both texts read as the tree they were written from.

Results:
* `dropParentheses_parenthesized`: what the outermost parentheses enclose.
* **`derives_display`**, `derives_displayOuter`: the texts derive from the grammar, with the tree.
* **`parse_display`**, **`parse_displayOuter`**: they read back.
* `display_injective`, `displayOuter_injective`: different trees have different texts.
-/

namespace QuantityAlgebra.Expr

variable {e lhs rhs : Expr} {operands : Nat}

/-! ## Canonical texts without blanks -/

theorem isBlank_of_isDigit {c : Char} (h : c.isDigit = true) : Text.isBlank c = false := by
  obtain ⟨low, high⟩ := Char.isDigit_iff_toNat.mp h
  change 48 ≤ c.toNat at low
  change c.toNat ≤ 57 at high
  simp [Text.isBlank, Text.blankRanges]
  omega

theorem strip_append (a b : List Char) : Text.strip (a ++ b) = Text.strip a ++ Text.strip b :=
  List.filter_append a b

/-- Two operands and the operator between them, without the blanks around it. -/
theorem strip_joined (op : BinaryOp) (left right : List Char) :
    Text.strip (left ++ [' ', op.symbol, ' '] ++ right) =
      Text.strip left ++ op.symbol :: Text.strip right := by
  have between : Text.strip [' ', op.symbol, ' '] = [op.symbol] := by cases op <;> decide
  rw [strip_append, strip_append, between, List.append_assoc, List.singleton_append]

theorem strip_parenthesized (op : BinaryOp) (left right : List Char) :
    Text.strip (parenthesized op left right) =
      '(' :: (Text.strip left ++ op.symbol :: Text.strip right) ++ [')'] := by
  have opening (rest : List Char) : Text.strip ('(' :: rest) = '(' :: Text.strip rest := rfl
  rw [parenthesized, List.cons_append, List.cons_append, List.cons_append, opening, strip_append,
    strip_joined]
  rfl

/-- **A pair of parentheses around the whole text is what is dropped.** -/
theorem dropParentheses_parenthesized (op : BinaryOp) (left right : List Char) :
    dropParentheses (parenthesized op left right) = left ++ [' ', op.symbol, ' '] ++ right := by
  have ends (inner : List Char) : (inner ++ [')']).getLast? = some ')' := by simp
  show dropParentheses ('(' :: ((left ++ [' ', op.symbol, ' '] ++ right) ++ [')'])) = _
  rw [dropParentheses, if_pos (ends _), List.dropLast_concat]

theorem displayOuter_binary (op : BinaryOp) (lhs rhs : Expr) :
    (binary op lhs rhs).displayOuter = lhs.display ++ [' ', op.symbol, ' '] ++ rhs.display :=
  dropParentheses_parenthesized op lhs.display rhs.display

theorem strip_placeholder (index : Nat) :
    Text.strip (placeholder index) = '{' :: Nat.toDigits 10 index ++ ['}'] := by
  -- Nothing between the braces is a blank, so stripping takes nothing away.
  refine List.filter_eq_self.mpr fun c found => ?_
  have cases : c = '{' ∨ c ∈ Nat.toDigits 10 index ∨ c = '}' := by
    simpa [placeholder] using found
  rcases cases with rfl | inside | rfl
  · decide
  · simpa using isBlank_of_isDigit (Nat.isDigit_of_mem_toDigits (by omega) (by omega) inside)
  · decide

/-! ## Canonical texts are derived -/

/-- Two atoms joined by an operator, at the loosest level. -/
theorem Derives.joinAtoms {left right : List Char} (op : BinaryOp)
    (hl : Derives .atom operands left lhs) (hr : Derives .atom operands right rhs) :
    Derives .sum operands (left ++ op.symbol :: right) (.binary op lhs rhs) := by
  cases isSum : op.isSum with
  | true => exact hl.ofAtom.ofProduct.joinSum isSum hr.ofAtom
  | false => exact (hl.ofAtom.joinProduct isSum hr).ofProduct

/-- The slots of a tree are below the number of operands. -/
def Below (operands : Nat) (e : Expr) : Prop := ∀ slot, e.references slot = true → slot < operands

instance (operands : Nat) (e : Expr) : Decidable (e.Below operands) :=
  decidable_of_iff (∀ slot ∈ e.slots, slot < operands) (by simp [Below, mem_slots])

theorem Below.left {op : BinaryOp} (below : (binary op lhs rhs).Below operands) :
    lhs.Below operands := fun slot found => below slot (by simp [references, found])

theorem Below.right {op : BinaryOp} (below : (binary op lhs rhs).Below operands) :
    rhs.Below operands := fun slot found => below slot (by simp [references, found])

/-- Some number of operands is above every slot of a tree. -/
theorem exists_below (e : Expr) : ∃ operands, e.Below operands := by
  induction e with
  | slot index =>
    refine ⟨index + 1, fun slot found => ?_⟩
    obtain rfl : index = slot := by simpa [references] using found
    exact Nat.lt_succ_self index
  | one => exact ⟨0, fun slot found => by simp [references] at found⟩
  | binary op lhs rhs ihl ihr =>
    obtain ⟨m, left⟩ := ihl
    obtain ⟨n, right⟩ := ihr
    refine ⟨max m n, fun slot found => ?_⟩
    rcases Bool.or_eq_true_iff.mp found with found | found
    · exact Nat.lt_of_lt_of_le (left slot found) (Nat.le_max_left m n)
    · exact Nat.lt_of_lt_of_le (right slot found) (Nat.le_max_right m n)

/-- What is read has its slots below the number of operands. -/
theorem below_of_parse {text : List Char} (read : parse text operands = .ok e) :
    e.Below operands := by
  obtain ⟨p, -, fits, rfl⟩ := derives_of_parse read
  exact fun slot found => ParseTree.references_lt fits found

/-- A derivation fits any number of operands above the slots of its tree. -/
theorem fits_of_below {level : Level} {p : ParseTree level}
    (below : p.expr.Below operands) : p.Fits operands := by
  induction p with
  | ofProduct _ ih | ofAtom _ ih | parentheses _ ih => exact ih below
  | sum _ _ _ _ ihl ihr | product _ _ _ _ ihl ihr => exact ⟨ihl below.left, ihr below.right⟩
  | placeholder digits => exact below _ (by simp [ParseTree.expr, references])
  | one => trivial

/-- **The number of operands decides only whether the slots are in range.** -/
theorem parse_eq_ok_iff_below {text : List Char} {other : Nat} {f : Expr}
    (read : parse text operands = .ok e) : parse text other = .ok f ↔ f = e ∧ e.Below other := by
  obtain ⟨p, derived, -, rfl⟩ := derives_of_parse read
  constructor
  · intro h
    obtain ⟨q, derived', fits, rfl⟩ := derives_of_parse h
    obtain rfl := ParseTree.unambiguous p q (derived.trans derived'.symm)
    exact ⟨rfl, fun slot found => ParseTree.references_lt fits found⟩
  · rintro ⟨rfl, below⟩
    exact parse_of_derives ⟨p, derived, fits_of_below below, rfl⟩

/-- **The canonical text of a tree derives from the grammar as an atom.** -/
theorem derives_display (below : e.Below operands) :
    Derives .atom operands (Text.strip e.display) e := by
  induction e with
  | slot index =>
    refine ⟨.placeholder (Nat.toDigits 10 index) Nat.toDigits_ne_nil fun c inside =>
      Nat.isDigit_of_mem_toDigits (by omega) (by omega) inside, ?_, ?_, ?_⟩
    · exact (strip_placeholder index).symm
    · rw [ParseTree.Fits, Nat.ofDigitChars_ten_toDigits]
      exact below index (by simp [references])
    · rw [ParseTree.expr, Nat.ofDigitChars_ten_toDigits]
  | one => exact ⟨.one, rfl, trivial, rfl⟩
  | binary op lhs rhs ihl ihr =>
    -- Every operand is an atom by induction, so the operator's precedence is never consulted.
    rw [display, strip_parenthesized]
    exact ((ihl below.left).joinAtoms op (ihr below.right)).parentheses

/-- Without its outermost parentheses it derives at the loosest level. -/
theorem derives_displayOuter (below : e.Below operands) :
    Derives .sum operands (Text.strip e.displayOuter) e := by
  cases e with
  | slot | one => exact (derives_display below).ofAtom.ofProduct
  | binary op lhs rhs =>
    rw [displayOuter_binary, strip_joined]
    exact (derives_display below.left).joinAtoms op (derives_display below.right)

/-! ## Canonical texts read back -/

/-- **The canonical text of a tree reads as the tree.** -/
theorem parse_display (below : e.Below operands) : parse e.display operands = .ok e :=
  parse_of_derives (derives_display below).ofAtom.ofProduct

/-- **So it does without the parentheses of its root operation.** -/
theorem parse_displayOuter (below : e.Below operands) : parse e.displayOuter operands = .ok e :=
  parse_of_derives (derives_displayOuter below)

/-- A text that is the canonical one of a tree reads as the tree. -/
theorem parse_of_eq_displayOuter {text : List Char} (same : text = e.displayOuter)
    (below : e.Below operands) : parse text operands = .ok e :=
  same ▸ parse_displayOuter below

/-- What reads back determines the tree. -/
theorem injective_of_reads_back {text : Expr → List Char}
    (reads : ∀ e operands, e.Below operands → parse (text e) operands = .ok e) :
    Function.Injective text := by
  intro e other same
  -- Both trees have to read back over one number of operands: that of a tree which holds them both.
  obtain ⟨operands, below⟩ := exists_below (.binary .add e other)
  have first := reads e operands below.left
  rw [same, reads other operands below.right] at first
  exact (Except.ok.inj first).symm

theorem display_injective : Function.Injective display :=
  injective_of_reads_back fun _ _ => parse_display

/-- **Different trees have different canonical texts.** -/
theorem displayOuter_injective : Function.Injective displayOuter :=
  injective_of_reads_back fun _ _ => parse_displayOuter

end QuantityAlgebra.Expr
