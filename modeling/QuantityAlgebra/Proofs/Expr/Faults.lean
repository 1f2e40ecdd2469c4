import Mathlib.Tactic.IntervalCases
import QuantityAlgebra.Proofs.Expr.Reading

/-!
# What a fault says of a text

A text that does not read as an expression is reported with one fault. This file says what each of
them tells of the text without its blanks, in terms of the text alone. Characters come first, then
the balance of parentheses, both of which decide the fault; only after that the shape does.

The reader is then inside a balanced text, and stays there: what it unwraps is balanced, and so are
both sides of a cut. Each part it looks at stands where an operand does (`StandsIn`), so a fault is
found in such a part: it is empty, or a placeholder out of range, or a term that is neither of the
terms there are. No other fault arises from the shape.

Results:
* `isPermitted_iff`, `firstForeign_iff`: the characters of expressions, and the first other one.
* `StandsIn.parentheses`, `StandsIn.left`, `StandsIn.right`: operands of a part are operands of the
  whole.
* **`shapeFault_of_parseTree`**: the faults of balanced texts.
* **`parse_faults`**: which fault a text is reported with, over every text.
-/

namespace QuantityAlgebra.Expr

/-! ## Characters -/

/-- The characters of expressions. -/
def alphabet : List Char := "0123456789{}()+-*/.x".toList

theorem mem_alphabet_of_isDigit {c : Char} (h : c.isDigit = true) : c ∈ alphabet := by
  simp only [Char.isDigit, Bool.and_eq_true, decide_eq_true_eq] at h
  have low : 48 ≤ c.toNat := UInt32.le_iff_toNat_le.mp h.1
  have high : c.toNat ≤ 57 := UInt32.le_iff_toNat_le.mp h.2
  rw [← Char.ofNat_toNat c]
  generalize c.toNat = n at low high
  interval_cases n <;> decide

theorem isPermitted_iff {c : Char} : isPermitted c = true ↔ c ∈ alphabet := by
  constructor
  · intro h
    simp only [isPermitted, Bool.or_eq_true, beq_iff_eq, Option.isSome_iff_exists,
      BinaryOp.ofSymbol?_eq_some] at h
    rcases h with ((((isDigit | rfl) | rfl) | rfl) | rfl) | ⟨op, rfl⟩
    · exact mem_alphabet_of_isDigit isDigit
    · decide
    · decide
    · decide
    · decide
    · cases op <;> decide
  · intro h
    have permitted : alphabet.all isPermitted = true := by decide
    exact List.all_eq_true.mp permitted c h

/-- The first character of a text that no expression holds. -/
def FirstForeign (c : Char) (text : List Char) : Prop :=
  c ∉ alphabet ∧ ∃ before after, text = before ++ c :: after ∧ ∀ d ∈ before, d ∈ alphabet

theorem firstForeign_iff {c : Char} {text : List Char} :
    text.find? (fun c => !isPermitted c) = some c ↔ FirstForeign c text := by
  simp only [List.find?_eq_some_iff_append, FirstForeign, Bool.not_not, isPermitted_iff,
    Bool.not_eq_true', Bool.eq_false_iff, ne_eq]

theorem FirstForeign.unique {c d : Char} {text : List Char} (hc : FirstForeign c text)
    (hd : FirstForeign d text) : c = d :=
  Option.some.inj ((firstForeign_iff.mpr hc).symm.trans (firstForeign_iff.mpr hd))

theorem FirstForeign.not_permitted {c : Char} {text : List Char} (h : FirstForeign c text) :
    ¬∀ d ∈ text, d ∈ alphabet := by
  obtain ⟨foreign, before, after, rfl, -⟩ := h
  exact fun permitted => foreign (permitted c (by simp))

/-! ## Where operands stand -/

/-- A part of a text stands where an operand does: behind nothing, an opening parenthesis or an
operator, and before nothing, a closing parenthesis or an operator. -/
def StandsIn (part text : List Char) : Prop :=
  ∃ before after, text = before ++ part ++ after ∧
    (∀ c ∈ before.getLast?, c = '(' ∨ (BinaryOp.ofSymbol? c).isSome = true) ∧
    ∀ c ∈ after.head?, c = ')' ∨ (BinaryOp.ofSymbol? c).isSome = true

namespace StandsIn

variable {part text lhs rhs : List Char}

theorem refl (text : List Char) : StandsIn text text := ⟨[], [], by simp⟩

theorem parentheses (h : StandsIn part text) : StandsIn part ('(' :: text ++ [')']) := by
  obtain ⟨before, after, rfl, opens, closes⟩ := h
  refine ⟨'(' :: before, after ++ [')'], by simp, ?_, ?_⟩
  · cases before with
    | nil => simp
    | cons => simpa [List.getLast?_cons_cons] using opens
  · cases after with
    | nil => simp
    | cons => simpa using closes

theorem left (h : StandsIn part lhs) (op : BinaryOp) (rhs : List Char) :
    StandsIn part (lhs ++ op.symbol :: rhs) := by
  obtain ⟨before, after, rfl, opens, closes⟩ := h
  refine ⟨before, after ++ op.symbol :: rhs, by simp, opens, ?_⟩
  cases after with
  | nil => simp
  | cons => simpa using closes

theorem right (h : StandsIn part rhs) (op : BinaryOp) (lhs : List Char) :
    StandsIn part (lhs ++ op.symbol :: rhs) := by
  obtain ⟨before, after, rfl, opens, closes⟩ := h
  refine ⟨lhs ++ op.symbol :: before, after, by simp, ?_, closes⟩
  cases before with
  | nil => simp
  | cons => simpa [List.getLast?_append, List.getLast?_cons_cons] using opens

end StandsIn

/-! ## Faults of the shape -/

/-- The text of a placeholder with a number, some digits in braces. -/
def IsPlaceholder (index : Nat) (term : List Char) : Prop :=
  ∃ digits, digits ≠ [] ∧ (∀ c ∈ digits, c.isDigit = true) ∧ term = '{' :: digits ++ ['}'] ∧
    Nat.ofDigitChars 10 digits 0 = index

/-- A balanced text that cannot be taken apart any further and is no term: neither the constant nor
a placeholder with a number of 64 bits. -/
structure MalformedTerm (term : List Char) : Prop where
  nonempty : term ≠ []
  balances : Balances term
  bare : ∀ inner, Balances inner → term ≠ '(' :: inner ++ [')']
  uncut : ∀ before op after, term = before ++ BinaryOp.symbol op :: after →
    before.count ')' < before.count '('
  not_one : term ≠ ['1']
  not_placeholder : ∀ index, IsPlaceholder index term → UInt64.size ≤ index

/-- The faults that a text has for its shape, each of them in a part that stands where an operand
does. -/
inductive ShapeFault (operands : Nat) (text : List Char) : ParseError → Prop
  | empty (stands : StandsIn [] text) : ShapeFault operands text .empty
  | unknownPlaceholder (index : Nat) (part : List Char) (stands : StandsIn part text)
      (names : IsPlaceholder index part) (beyond : operands ≤ index) :
      ShapeFault operands text (.unknownPlaceholder index operands)
  | malformedTerm (term : List Char) (stands : StandsIn term text)
      (malformed : MalformedTerm term) :
      ShapeFault operands text (.malformedTerm (String.ofList term))

variable {operands : Nat} {text whole : List Char} {fault : ParseError}

/-- A fault of a part is one of the whole, if what stands in the part stands in the whole. -/
theorem ShapeFault.lift (h : ShapeFault operands text fault)
    (stands : ∀ part, StandsIn part text → StandsIn part whole) :
    ShapeFault operands whole fault := by
  cases h with
  | empty inside => exact .empty (stands _ inside)
  | unknownPlaceholder index part inside names beyond =>
    exact .unknownPlaceholder index part (stands _ inside) names beyond
  | malformedTerm term inside malformed => exact .malformedTerm term (stands _ inside) malformed

theorem malformedTerm_of_uncut (closed : balanced text = true) (nonempty : text ≠ [])
    (bare : unwrap? text = none) (uncut : splitOperation? text = none) (notOne : text ≠ ['1'])
    (notPlaceholder : ∀ index, placeholder? text = some index → UInt64.size ≤ index) :
    MalformedTerm text where
  nonempty := nonempty
  balances := balanced_iff.mp closed
  bare := by
    rintro inner balances rfl
    rw [unwrap?_parentheses (balanced_iff.mpr balances)] at bare
    contradiction
  uncut := by
    rintro before op after rfl
    exact count_lt_of_splitOperation?_eq_none closed uncut
  not_one := notOne
  not_placeholder := fun index names => notPlaceholder index (placeholder?_eq_some.mpr names)

/-- The faults of a text that is read as a term. -/
theorem shapeFault_of_parseTerm (closed : balanced text = true) (nonempty : text ≠ [])
    (bare : unwrap? text = none) (uncut : splitOperation? text = none)
    (h : parseTerm operands text = .error fault) : ShapeFault operands text fault := by
  have malformed := malformedTerm_of_uncut closed nonempty bare uncut
  unfold parseTerm at h
  split at h
  · contradiction
  · rename_i notOne
    cases named : placeholder? text with
    | none =>
      obtain rfl : ParseError.malformedTerm (String.ofList text) = fault := by simpa [named] using h
      exact .malformedTerm text (.refl text) (malformed notOne (by simp [named]))
    | some index =>
      simp only [named] at h
      split at h
      · contradiction
      · rename_i beyond
        split at h
        · obtain rfl := Except.error.inj h
          exact .unknownPlaceholder index text (.refl text) (placeholder?_eq_some.mp named)
            (by omega)
        · rename_i large
          obtain rfl := Except.error.inj h
          refine .malformedTerm text (.refl text) (malformed notOne fun other found => ?_)
          obtain rfl : index = other := Option.some.inj (named.symm.trans found)
          omega

theorem bind_eq_error {ε α β : Type} {x : Except ε α} {f : α → Except ε β} {e : ε} :
    x >>= f = .error e ↔ x = .error e ∨ ∃ a, x = .ok a ∧ f a = .error e := by
  cases x with
  | ok a => simp [bind, Except.bind]
  | error => simp [bind, Except.bind]

/-- **The faults of balanced texts** are faults of the shape. -/
theorem shapeFault_of_parseTree (closed : balanced text = true)
    (h : parseTree operands text = .error fault) : ShapeFault operands text fault := by
  fun_induction parseTree operands text with
  | case1 =>
    obtain rfl := Except.error.inj h
    exact .empty (.refl [])
  | case2 text nonempty inner wrapped ih =>
    rw [eq_of_unwrap?_eq_some wrapped]
    exact (ih (balanced_of_unwrap? wrapped) h).lift fun _ => StandsIn.parentheses
  | case3 text nonempty bare lhs op rhs cut ihr ihl =>
    obtain ⟨closedLeft, closedRight⟩ := balanced_of_splitOperation? closed cut
    obtain rfl := splitOperation?_eq_some cut
    -- The right operand is read first, so a fault of the left one is one behind it.
    rcases bind_eq_error.mp h with faultRight | ⟨right, -, h⟩
    · exact (ihr closedRight faultRight).lift fun _ inside => inside.right op lhs
    rcases bind_eq_error.mp h with faultLeft | ⟨left, -, h⟩
    · exact (ihl closedLeft faultLeft).lift fun _ inside => inside.left op rhs
    · contradiction
  | case4 text nonempty bare uncut =>
    exact shapeFault_of_parseTerm closed nonempty bare uncut h

/-! ## Every fault -/

/-- The three ways of the reader: a foreign character, unbalanced parentheses, and the shape. -/
theorem parse_cases (text : List Char) (operands : Nat) :
    (∃ c, FirstForeign c (Text.strip text) ∧
      parse text operands = .error (.unexpectedCharacter c)) ∨
    ((∀ c ∈ Text.strip text, c ∈ alphabet) ∧ ¬Balances (Text.strip text) ∧
      parse text operands = .error .unbalancedParentheses) ∨
    ((∀ c ∈ Text.strip text, c ∈ alphabet) ∧ Balances (Text.strip text) ∧
      parse text operands = parseTree operands (Text.strip text)) := by
  cases found : (Text.strip text).find? fun c => !isPermitted c with
  | some c => exact .inl ⟨c, firstForeign_iff.mp found, by simp [parse, found]⟩
  | none =>
    have permitted : ∀ c ∈ Text.strip text, c ∈ alphabet := by
      intro c hc
      rw [← isPermitted_iff]
      simpa using List.find?_eq_none.mp found c hc
    by_cases closed : balanced (Text.strip text) = true
    · exact .inr (.inr ⟨permitted, balanced_iff.mp closed, by simp [parse, found, closed]⟩)
    · have unbalanced : ¬Balances (Text.strip text) := fun h => closed (balanced_iff.mpr h)
      exact .inr (.inl ⟨permitted, unbalanced, by simp [parse, found, closed]⟩)

/-- **What the fault of a text says of it**, its blanks dropped. It is an unexpected character
exactly if some character is none of expressions, the first such one; unbalanced parentheses exactly
if all characters are of expressions and the parentheses do not balance; and any other fault is one
of the shape: a missing operand, a placeholder of a number that is out of range, or a balanced part
that is no term. -/
theorem parse_faults (text : List Char) (operands : Nat) :
    (∀ c, parse text operands = .error (.unexpectedCharacter c) ↔
      FirstForeign c (Text.strip text)) ∧
    (parse text operands = .error .unbalancedParentheses ↔
      (∀ c ∈ Text.strip text, c ∈ alphabet) ∧ ¬Balances (Text.strip text)) ∧
    ∀ fault, parse text operands = .error fault →
      (∃ c, fault = .unexpectedCharacter c) ∨ fault = .unbalancedParentheses ∨
        ShapeFault operands (Text.strip text) fault := by
  rcases parse_cases text operands with ⟨c, first, read⟩ | ⟨permitted, unbalanced, read⟩ |
    ⟨permitted, balances, read⟩
  · rw [read]
    refine ⟨fun d => ⟨?_, ?_⟩, ⟨?_, ?_⟩, ?_⟩
    · rintro ⟨⟩
      exact first
    · intro other
      rw [first.unique other]
    · rintro ⟨⟩
    · exact fun h => absurd h.1 first.not_permitted
    · rintro - ⟨⟩
      exact .inl ⟨c, rfl⟩
  · rw [read]
    refine ⟨fun d => ⟨?_, ?_⟩, ⟨?_, ?_⟩, ?_⟩
    · rintro ⟨⟩
    · exact fun first => absurd permitted first.not_permitted
    · exact fun _ => ⟨permitted, unbalanced⟩
    · exact fun _ => rfl
    · rintro - ⟨⟩
      exact .inr (.inl rfl)
  · rw [read]
    have shape : ∀ fault, parseTree operands (Text.strip text) = .error fault →
        ShapeFault operands (Text.strip text) fault :=
      fun fault h => shapeFault_of_parseTree (balanced_iff.mpr balances) h
    refine ⟨fun d => ⟨?_, ?_⟩, ⟨?_, ?_⟩, ?_⟩
    · exact fun h => nomatch shape _ h
    · exact fun first => absurd permitted first.not_permitted
    · exact fun h => nomatch shape _ h
    · exact fun h => absurd balances h.2
    · exact fun fault h => .inr (.inr (shape fault h))

end QuantityAlgebra.Expr
