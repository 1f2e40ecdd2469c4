import QuantityAlgebra.Document.Value

/-!
# Numerals read back

The decimal digits of a number are read as that number, unless what comes behind them goes on the
numeral (`EndsNumeral`): another digit, a decimal point, or the letter of an exponent. There is no
leading zero to refuse, and the digits of a number below 2^64 all fit the significand.

Results:
* `leadingDigits_eq`: digits whose value fits are taken as they are.
* `head?_decimal`: only zero is written with a leading zero.
* **`word_decimal`**: the decimal digits of a word read back.
-/

namespace QuantityAlgebra.Document

/-- A text behind a numeral does not go on with it. -/
def EndsNumeral (rest : List Char) : Prop :=
  ∀ c ∈ rest.head?, c.isDigit = false ∧ c ≠ '.' ∧ c ≠ 'e' ∧ c ≠ 'E'

theorem endsNumeral_nil : EndsNumeral [] := fun _ h => nomatch h

instance : (rest : List Char) → Decidable (EndsNumeral rest)
  | [] => isTrue endsNumeral_nil
  | c :: _ =>
    decidable_of_iff (c.isDigit = false ∧ c ≠ '.' ∧ c ≠ 'e' ∧ c ≠ 'E')
      (by simp [EndsNumeral])

theorem endsNumeral_cons {c : Char} (h : EndsNumeral [c]) (rest : List Char) :
    EndsNumeral (c :: rest) := h

/-! ## Digits -/

theorem le_ofDigitChars (digits : List Char) (value : Nat) :
    value ≤ Nat.ofDigitChars 10 digits value := by
  induction digits generalizing value with
  | nil => exact Nat.le_refl _
  | cons d digits ih =>
    rw [Nat.ofDigitChars_cons]
    exact Nat.le_trans (by omega) (ih _)

/-- Digits whose value stays below 2^64 make up the significand, and none is left. -/
theorem leadingDigits_eq {digits : List Char} {value : Nat}
    (fits : Nat.ofDigitChars 10 digits value < UInt64.size) :
    leadingDigits value digits = (Nat.ofDigitChars 10 digits value, 0) := by
  induction digits generalizing value with
  | nil => rfl
  | cons d digits ih =>
    rw [Nat.ofDigitChars_cons, Nat.mul_comm 10] at fits ⊢
    rw [leadingDigits, if_pos (Nat.lt_of_le_of_lt (le_ofDigitChars digits _) fits)]
    exact ih fits

theorem isDigit_of_mem_decimal {n : Nat} {c : Char} (h : c ∈ decimal n) : c.isDigit = true :=
  Nat.isDigit_of_mem_toDigits (by omega) (by omega) h

/-- A number is written with a digit in front. -/
theorem exists_decimal_eq_cons (n : Nat) :
    ∃ c digits, decimal n = c :: digits ∧ c.isDigit = true := by
  obtain ⟨c, digits, written⟩ := List.exists_cons_of_ne_nil (Nat.toDigits_ne_nil (n := n) (b := 10))
  exact ⟨c, digits, written, isDigit_of_mem_decimal (written ▸ List.mem_cons_self)⟩

/-- Only zero is written with a leading zero. -/
theorem head?_decimal {n : Nat} (zero : (decimal n).head? = some '0') : n = 0 := by
  induction n using Nat.strongRecOn with
  | ind n ih =>
    by_cases small : n < 10
    · rw [decimal, Nat.toDigits_of_lt_base small] at zero
      have only : ∀ m < 10, m.digitChar = '0' → m = 0 := by decide
      exact only n small (Option.some.inj zero)
    · obtain ⟨c, digits, written, -⟩ := exists_decimal_eq_cons (n / 10)
      rw [decimal, Nat.toDigits_of_base_le (by omega) (by omega), ← decimal, written] at zero
      have := ih (n / 10) (by omega) (by rw [written]; exact zero)
      omega

theorem takeWhile_decimal {rest : List Char} (ends : EndsNumeral rest) (n : Nat) :
    (decimal n ++ rest).takeWhile Char.isDigit = decimal n := by
  rw [List.takeWhile_append_of_pos fun c => isDigit_of_mem_decimal]
  cases rest with
  | nil => simp
  | cons c rest => simp [(ends c rfl).1]

theorem dropWhile_decimal {rest : List Char} (ends : EndsNumeral rest) (n : Nat) :
    (decimal n ++ rest).dropWhile Char.isDigit = rest := by
  rw [List.dropWhile_append_of_pos fun c => isDigit_of_mem_decimal]
  cases rest with
  | nil => rfl
  | cons c rest => simp [(ends c rfl).1]

/-! ## Numerals -/

/-- **The digits of a number below 2^64 read as that number.** -/
theorem unsigned_decimal {n : Nat} {rest : List Char} (fits : n < UInt64.size)
    (ends : EndsNumeral rest) : unsigned (decimal n ++ rest) = .ok (.whole n, rest) := by
  have value : Nat.ofDigitChars 10 (decimal n) 0 = n := Nat.ofDigitChars_ten_toDigits
  have significand : leadingDigits 0 (decimal n) = (n, 0) := by
    rw [leadingDigits_eq (by rwa [value]), value]
  unfold unsigned
  rw [takeWhile_decimal ends, dropWhile_decimal ends]
  split
  · rename_i none
    exact absurd none Nat.toDigits_ne_nil
  · rename_i zero
    obtain rfl := head?_decimal (by rw [zero]; rfl)
    simp [decimal, Nat.toDigits_zero] at zero
  · simp only [significand]
    -- None of the marks that would go on the numeral follows.
    split
    · exact absurd rfl (ends _ rfl).2.1
    · exact absurd rfl (ends _ rfl).2.2.1
    · exact absurd rfl (ends _ rfl).2.2.2
    · rfl

theorem numeral_decimal {n : Nat} {rest : List Char} (fits : n < UInt64.size)
    (ends : EndsNumeral rest) : numeral (decimal n ++ rest) = .ok (.whole n, rest) := by
  obtain ⟨c, digits, written, isDigit⟩ := exists_decimal_eq_cons n
  rw [← unsigned_decimal fits ends, written]
  unfold numeral
  split
  · rename_i minus
    obtain rfl := (List.cons.inj minus).1
    contradiction
  · rfl

theorem isSpacing_of_isDigit {c : Char} (isDigit : c.isDigit = true) : isSpacing c = false := by
  refine Bool.eq_false_iff.mpr fun spacing => ?_
  simp only [isSpacing, Bool.or_eq_true, beq_iff_eq] at spacing
  rcases spacing with ((rfl | rfl) | rfl) | rfl <;> contradiction

theorem skipSpacing_cons {c : Char} (solid : isSpacing c = false) (rest : List Char) :
    skipSpacing (c :: rest) = c :: rest := by
  simp [skipSpacing, solid]

/-- **The digits of a word read as that word.** -/
theorem word_decimal (d : UInt32) {rest : List Char} (ends : EndsNumeral rest) :
    Reader.word (decimal d.toNat ++ rest) = .ok (d, rest) := by
  have small : d.toNat < UInt32.size := d.toNat_lt
  have fits : d.toNat < UInt64.size := Nat.lt_trans small (by decide)
  have read := numeral_decimal fits ends
  obtain ⟨c, digits, written, isDigit⟩ := exists_decimal_eq_cons d.toNat
  rw [written, List.cons_append] at read ⊢
  unfold Reader.word
  rw [skipSpacing_cons (isSpacing_of_isDigit isDigit)]
  simp only [isDigit, or_true, if_true, read, small, UInt32.ofNat_toNat]

end QuantityAlgebra.Document
