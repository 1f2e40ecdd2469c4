import QuantityAlgebra.Definition.Constants
import QuantityAlgebra.Proofs.Expr.Printing

/-!
# Numbers outside braces

`hasForeignNumber` collects runs of digits. This file says what it finds without runs: a text holds
a foreign number exactly if outside braces some digit other than `1` stands in it, or two ones in a
row. Said so, it is plain what blanks do. They separate digits that follow each other once they are
dropped, so dropping them keeps every foreign number and makes a new one only of two ones that
nothing but blanks stand between.

Results:
* `otherDigit_cons`, `onesApart_cons`, `foreignDigits_cons`: what one character adds.
* **`hasForeignNumber_iff`**: the scan for foreign numbers, without runs.
* **`hasForeignNumber_strip`**: foreign numbers of a text without its blanks.
* `passedOver_text`, **`hasForeignNumber_of_parse`**: an expression holds none.
-/

namespace QuantityAlgebra

/-! ## Digits outside braces -/

/-- Whether a brace is open after a character. -/
def insideAfter (inside : Bool) (c : Char) : Bool := c == '{' || (inside && c != '}')

/-- Some digit other than `1` stands outside braces; `inside` says whether one is open before the
text. -/
def OtherDigit (inside : Bool) (text : List Char) : Prop :=
  ∃ before d after, text = before ++ d :: after ∧ before.foldl insideAfter inside = false ∧
    d.isDigit = true ∧ d ≠ '1'

/-- Two ones stand outside braces with just the gap between them. -/
def OnesApart (gap : List Char) (inside : Bool) (text : List Char) : Prop :=
  ∃ before after, text = before ++ '1' :: gap ++ '1' :: after ∧
    before.foldl insideAfter inside = false

variable {inside : Bool} {c : Char} {run rest text gap : List Char}

theorem otherDigit_cons :
    OtherDigit inside (c :: rest) ↔
      (inside = false ∧ c.isDigit = true ∧ c ≠ '1') ∨ OtherDigit (insideAfter inside c) rest := by
  constructor
  · rintro ⟨before, d, after, e, outside, digit⟩
    cases before with
    | nil =>
      obtain ⟨rfl, -⟩ := List.cons.inj e
      exact .inl ⟨outside, digit⟩
    | cons b before =>
      obtain ⟨rfl, rfl⟩ := List.cons.inj e
      exact .inr ⟨before, d, after, rfl, outside, digit⟩
  · rintro (⟨outside, digit⟩ | ⟨before, d, after, rfl, outside, digit⟩)
    · exact ⟨[], c, rest, rfl, outside, digit⟩
    · exact ⟨c :: before, d, after, rfl, outside, digit⟩

theorem onesApart_cons :
    OnesApart gap inside (c :: rest) ↔
      (inside = false ∧ ∃ after, c :: rest = '1' :: gap ++ '1' :: after) ∨
        OnesApart gap (insideAfter inside c) rest := by
  constructor
  · rintro ⟨before, after, e, outside⟩
    cases before with
    | nil => exact .inl ⟨outside, after, e⟩
    | cons b before =>
      obtain ⟨rfl, rfl⟩ := List.cons.inj e
      exact .inr ⟨before, after, rfl, outside⟩
  · rintro (⟨outside, after, e⟩ | ⟨before, after, rfl, outside⟩)
    · exact ⟨[], after, e, outside⟩
    · exact ⟨c :: before, after, rfl, outside⟩

/-- Outside braces a digit other than `1` stands in a text, or two ones in a row. -/
def ForeignDigits (inside : Bool) (text : List Char) : Prop :=
  OtherDigit inside text ∨ OnesApart [] inside text

/-- The first character is a digit. -/
def StartsWithDigit (text : List Char) : Prop :=
  ∃ d ∈ text.head?, d.isDigit = true

theorem not_startsWithDigit_nil : ¬StartsWithDigit [] := by
  simp [StartsWithDigit]

theorem startsWithDigit_cons : StartsWithDigit (c :: rest) ↔ c.isDigit = true := by
  simp [StartsWithDigit]

theorem not_foreignDigits_nil : ¬ForeignDigits inside [] := by
  simp [ForeignDigits, OtherDigit, OnesApart]

theorem insideAfter_of_isDigit (digit : c.isDigit = true) : insideAfter false c = false := by
  have noBrace : c ≠ '{' := by
    rintro rfl
    contradiction
  simpa [insideAfter] using noBrace

/-- Two digits in a row are two ones, or one of them is another. -/
theorem foreignDigits_cons :
    ForeignDigits inside (c :: rest) ↔
      (inside = false ∧ c.isDigit = true ∧ (c ≠ '1' ∨ StartsWithDigit rest)) ∨
        ForeignDigits (insideAfter inside c) rest := by
  rw [ForeignDigits, ForeignDigits, otherDigit_cons, onesApart_cons]
  constructor
  · rintro ((⟨outside, digit, other⟩ | other) | ⟨outside, after, e⟩ | ones)
    · exact .inl ⟨outside, digit, .inl other⟩
    · exact .inr (.inl other)
    · obtain ⟨rfl, rfl⟩ := List.cons.inj e
      exact .inl ⟨outside, rfl, .inr ⟨'1', rfl, rfl⟩⟩
    · exact .inr (.inr ones)
  · rintro (⟨rfl, digit, other | ⟨d, hd, digit'⟩⟩ | other | ones)
    · exact .inl (.inl ⟨rfl, digit, other⟩)
    · obtain ⟨after, rfl⟩ := List.head?_eq_some_iff.mp hd
      by_cases first : c = '1'
      · by_cases second : d = '1'
        · exact .inr (.inl ⟨rfl, after, by rw [first, second]; rfl⟩)
        · exact .inl (.inr ⟨[], d, after, rfl, insideAfter_of_isDigit digit, digit', second⟩)
      · exact .inl (.inl ⟨rfl, digit, first⟩)
    · exact .inl (.inr other)
    · exact .inr (.inr ones)

/-! ## The scan -/

theorem hasForeignNumberFrom_digit (digit : c.isDigit = true) :
    hasForeignNumberFrom false run (c :: rest) = hasForeignNumberFrom false (c :: run) rest := by
  rw [hasForeignNumberFrom]
  simp [digit]

/-- What is no digit outside braces ends a run. -/
theorem hasForeignNumberFrom_end (h : ¬(c.isDigit = true ∧ inside = false)) :
    hasForeignNumberFrom inside run (c :: rest) =
      (isForeignNumber run || hasForeignNumberFrom (insideAfter inside c) [] rest) := by
  rw [hasForeignNumberFrom, if_neg (by simpa using h)]
  rfl

theorem isForeignNumber_cons : isForeignNumber (c :: run) = true ↔ run ≠ [] ∨ c ≠ '1' := by
  by_cases h : run = [] <;> simp [isForeignNumber, h]

theorem ne_nil_of_isForeignNumber (h : isForeignNumber run = true) : run ≠ [] := by
  rintro rfl
  contradiction

/-- What the scan finds after an open run: the run is foreign, or it goes on and becomes so, or
foreign digits are in the text. -/
theorem hasForeignNumberFrom_iff :
    hasForeignNumberFrom inside run text = true ↔
      isForeignNumber run = true ∨ (run ≠ [] ∧ inside = false ∧ StartsWithDigit text) ∨
        ForeignDigits inside text := by
  induction text generalizing inside run with
  | nil => simp [hasForeignNumberFrom, not_foreignDigits_nil, not_startsWithDigit_nil]
  | cons c rest ih =>
    rw [foreignDigits_cons, startsWithDigit_cons]
    by_cases digit : c.isDigit = true ∧ inside = false
    · obtain ⟨digit, rfl⟩ := digit
      rw [hasForeignNumberFrom_digit digit, ih, isForeignNumber_cons, insideAfter_of_isDigit digit]
      have nonempty : isForeignNumber run = true → run ≠ [] := ne_nil_of_isForeignNumber
      simp only [digit, true_and, and_true, ne_eq, reduceCtorEq, not_false_eq_true]
      constructor
      · rintro ((unended | other) | next | foreign)
        · exact .inr (.inl unended)
        · exact .inr (.inr (.inl (.inl other)))
        · exact .inr (.inr (.inl (.inr next)))
        · exact .inr (.inr (.inr foreign))
      · rintro (isForeign | unended | (other | next) | foreign)
        · exact .inl (.inl (nonempty isForeign))
        · exact .inl (.inl unended)
        · exact .inl (.inr other)
        · exact .inr (.inl next)
        · exact .inr (.inr foreign)
    · rw [hasForeignNumberFrom_end digit, Bool.or_eq_true, ih]
      constructor
      · rintro (isForeign | isForeign | ⟨unended, -⟩ | foreign)
        · exact .inl isForeign
        · contradiction
        · contradiction
        · exact .inr (.inr (.inr foreign))
      · rintro (isForeign | ⟨-, outside, here⟩ | ⟨outside, here, -⟩ | foreign)
        · exact .inl isForeign
        · exact absurd ⟨here, outside⟩ digit
        · exact absurd ⟨here, outside⟩ digit
        · exact .inr (.inr (.inr foreign))

/-- **A text holds a foreign number** exactly if it holds foreign digits. -/
theorem hasForeignNumber_iff : hasForeignNumber text = true ↔ ForeignDigits false text := by
  rw [hasForeignNumber, hasForeignNumberFrom_iff]
  simp [isForeignNumber]

/-! ## Blanks -/

/-- A blank opens and closes no brace. -/
theorem insideAfter_of_isBlank (blank : Text.isBlank c = true) : insideAfter inside c = inside := by
  have noOpening : c ≠ '{' := by
    rintro rfl
    contradiction
  have noClosing : c ≠ '}' := by
    rintro rfl
    contradiction
  rw [insideAfter, beq_false_of_ne noOpening, bne_iff_ne.mpr noClosing, Bool.and_true,
    Bool.false_or]

theorem foldl_insideAfter_strip (text : List Char) :
    (Text.strip text).foldl insideAfter inside = text.foldl insideAfter inside := by
  unfold Text.strip
  induction text generalizing inside with
  | nil => rfl
  | cons c rest ih =>
    by_cases blank : Text.isBlank c = true
    · rw [List.filter_cons_of_neg (by simpa using blank), List.foldl_cons,
        insideAfter_of_isBlank blank, ih]
    · rw [List.filter_cons_of_pos (by simpa using blank), List.foldl_cons, List.foldl_cons, ih]

theorem Text.strip_eq_cons {after : List Char} :
    Text.strip text = c :: after ↔
      ∃ blanks behind, text = blanks ++ c :: behind ∧ (∀ b ∈ blanks, Text.isBlank b = true) ∧
        Text.isBlank c = false ∧ Text.strip behind = after := by
  rw [Text.strip, List.filter_eq_cons_iff]
  simp [Text.strip]

/-- A character of a stripped text, with what stands before it and behind it. -/
theorem Text.strip_eq_append_cons {before after : List Char} :
    Text.strip text = before ++ c :: after ↔
      ∃ front behind, text = front ++ c :: behind ∧ Text.strip front = before ∧
        Text.isBlank c = false ∧ Text.strip behind = after := by
  constructor
  · intro split
    obtain ⟨front, rest, rfl, rfl, cut⟩ := List.filter_eq_append_iff.mp split
    obtain ⟨blanks, behind, rfl, blank, kept, rfl⟩ := Text.strip_eq_cons.mp cut
    refine ⟨front ++ blanks, behind, by simp, ?_, kept, rfl⟩
    rw [Expr.strip_append]
    simpa [Text.strip] using blank
  · rintro ⟨front, behind, rfl, rfl, kept, rfl⟩
    simp [Text.strip, kept]

theorem otherDigit_strip : OtherDigit inside (Text.strip text) ↔ OtherDigit inside text := by
  constructor
  · rintro ⟨before, d, after, e, outside, digit⟩
    obtain ⟨front, behind, rfl, rfl, -, rfl⟩ := Text.strip_eq_append_cons.mp e
    exact ⟨front, d, behind, rfl, by rwa [foldl_insideAfter_strip] at outside, digit⟩
  · rintro ⟨before, d, after, rfl, outside, digit, other⟩
    refine ⟨Text.strip before, d, Text.strip after, ?_, ?_, digit, other⟩
    · have kept := Expr.isBlank_of_isDigit digit
      exact Text.strip_eq_append_cons.mpr ⟨before, after, rfl, rfl, kept, rfl⟩
    · rwa [foldl_insideAfter_strip]

/-- Two ones are in a row without the blanks if nothing but blanks stand between them. -/
theorem onesApart_strip :
    OnesApart [] inside (Text.strip text) ↔
      ∃ gap, (∀ b ∈ gap, Text.isBlank b = true) ∧ OnesApart gap inside text := by
  constructor
  · rintro ⟨before, after, split, outside⟩
    rw [List.append_assoc, List.cons_append] at split
    obtain ⟨front, rest, rfl, rfl, -, next⟩ := Text.strip_eq_append_cons.mp split
    obtain ⟨gap, behind, rfl, blank, -, rfl⟩ := Text.strip_eq_cons.mp next
    exact ⟨gap, blank, front, behind, by simp, by rwa [foldl_insideAfter_strip] at outside⟩
  · rintro ⟨gap, blank, before, after, rfl, outside⟩
    have dropped : Text.strip gap = [] := by simpa [Text.strip] using blank
    have next : Text.strip (gap ++ '1' :: after) = '1' :: Text.strip after :=
      Text.strip_eq_cons.mpr ⟨gap, after, rfl, blank, by decide, rfl⟩
    refine ⟨Text.strip before, Text.strip after, ?_, by rwa [foldl_insideAfter_strip]⟩
    rw [List.append_assoc, List.cons_append, List.append_assoc, List.cons_append]
    exact Text.strip_eq_append_cons.mpr ⟨before, gap ++ '1' :: after, rfl, rfl, by decide, next⟩

/-- Two ones with nothing but blanks between them, and at least one. -/
def SplitOnes (text : List Char) : Prop :=
  ∃ gap, gap ≠ [] ∧ (∀ b ∈ gap, Text.isBlank b = true) ∧ OnesApart gap false text

/-- **The foreign numbers of a text without its blanks** are those of the text, and one for any two
ones that nothing but blanks stand between. -/
theorem hasForeignNumber_strip :
    hasForeignNumber (Text.strip text) = true ↔ hasForeignNumber text = true ∨ SplitOnes text := by
  rw [hasForeignNumber_iff, hasForeignNumber_iff, ForeignDigits, ForeignDigits, otherDigit_strip,
    onesApart_strip]
  constructor
  · rintro (other | ⟨gap, blank, ones⟩)
    · exact .inl (.inl other)
    · by_cases none : gap = []
      · exact .inl (.inr (none ▸ ones))
      · exact .inr ⟨gap, none, blank, ones⟩
  · rintro ((other | ones) | ⟨gap, -, blank, ones⟩)
    · exact .inl other
    · exact .inr ⟨[], by simp, ones⟩
    · exact .inr ⟨gap, blank, ones⟩

/-! ## Expressions -/

/-- The scan passes over a text, if no digit follows. -/
def PassedOver (text : List Char) : Prop :=
  ∀ rest, ¬StartsWithDigit rest →
    hasForeignNumberFrom false [] (text ++ rest) = hasForeignNumberFrom false [] rest

/-- Outside braces the scan goes on behind a character that is no digit. -/
theorem hasForeignNumberFrom_cons (noDigit : c.isDigit = false) (noBrace : c ≠ '{') :
    hasForeignNumberFrom false [] (c :: rest) = hasForeignNumberFrom false [] rest := by
  rw [hasForeignNumberFrom_end (by simp [noDigit]), insideAfter, beq_false_of_ne noBrace]
  rfl

theorem isDigit_symbol (op : BinaryOp) : op.symbol.isDigit = false := by
  cases op <;> rfl

/-- What an operation has behind its left operand begins with the operator. -/
theorem PassedOver.joined {lhs rhs : List Char} (hl : PassedOver lhs) (hr : PassedOver rhs)
    (op : BinaryOp) : PassedOver (lhs ++ op.symbol :: rhs) := by
  intro rest ends
  have operator : ¬StartsWithDigit (op.symbol :: (rhs ++ rest)) := by
    simp [startsWithDigit_cons, isDigit_symbol]
  rw [List.append_assoc, List.cons_append, hl _ operator,
    hasForeignNumberFrom_cons (isDigit_symbol op) (by cases op <;> decide), hr _ ends]

theorem PassedOver.parentheses {inner : List Char} (h : PassedOver inner) :
    PassedOver ('(' :: inner ++ [')']) := by
  intro rest _
  have closing : ¬StartsWithDigit (')' :: rest) := by
    rw [startsWithDigit_cons]
    decide
  rw [List.cons_append, List.cons_append, List.append_assoc,
    hasForeignNumberFrom_cons rfl (by decide), List.singleton_append, h _ closing,
    hasForeignNumberFrom_cons rfl (by decide)]

/-- Digits in braces are passed over. -/
theorem hasForeignNumberFrom_inside {digits : List Char}
    (isDigit : ∀ c ∈ digits, c.isDigit = true) :
    hasForeignNumberFrom true [] (digits ++ '}' :: rest) = hasForeignNumberFrom false [] rest := by
  induction digits with
  | nil => rfl
  | cons d digits ih =>
    obtain ⟨digit, isDigit⟩ := List.forall_mem_cons.mp isDigit
    have noClosing : d ≠ '}' := by
      rintro rfl
      contradiction
    rw [List.cons_append, hasForeignNumberFrom_end (by simp), insideAfter, bne_iff_ne.mpr noClosing,
      Bool.and_true, Bool.or_true, ih isDigit]
    rfl

theorem passedOver_placeholder {digits : List Char} (isDigit : ∀ c ∈ digits, c.isDigit = true) :
    PassedOver ('{' :: digits ++ ['}']) := by
  intro rest _
  rw [List.cons_append, List.cons_append, List.append_assoc, hasForeignNumberFrom_end (by decide)]
  exact hasForeignNumberFrom_inside isDigit

/-- The constant alone is no foreign number. -/
theorem passedOver_one : PassedOver ['1'] := by
  intro rest ends
  rw [List.singleton_append, hasForeignNumberFrom_digit rfl]
  cases rest with
  | nil => rfl
  | cons c rest =>
    rw [startsWithDigit_cons] at ends
    rw [hasForeignNumberFrom_end (by simp [ends]), hasForeignNumberFrom_end (by simp [ends])]
    rfl

/-- **The text of a derivation is passed over**: outside braces it holds ones only, each of them
alone. -/
theorem passedOver_text {level : Level} (p : ParseTree level) : PassedOver p.text := by
  induction p with
  | ofProduct _ ih | ofAtom _ ih => exact ih
  | sum _ op _ _ ihl ihr | product _ op _ _ ihl ihr => exact ihl.joined ihr op
  | parentheses _ ih => exact ih.parentheses
  | placeholder _ _ isDigit => exact passedOver_placeholder isDigit
  | one => exact passedOver_one

/-- **An expression holds no foreign number**, wherever its blanks are. -/
theorem hasForeignNumber_of_parse {operands : Nat} {e : Expr}
    (h : Expr.parse text operands = .ok e) : hasForeignNumber text = false := by
  obtain ⟨p, written, -, -⟩ := Expr.derives_of_parse h
  have passed : hasForeignNumberFrom false [] (p.text ++ []) = false :=
    passedOver_text p [] not_startsWithDigit_nil
  rw [List.append_nil, written] at passed
  have stripped : hasForeignNumber (Text.strip text) = false := passed
  rw [← Bool.not_eq_true, hasForeignNumber_strip] at stripped
  simpa using fun foreign => stripped (.inl foreign)

end QuantityAlgebra
