import QuantityAlgebra.Document.Quoted

/-!
# Quoted texts read back

Every character that is written between quotes reads as itself: one that is written as it is, since
it neither ends the text nor begins an escape, and one that is escaped, since the escape names it.
So the reader goes through a quoted text character by character and stops at the closing quote,
whatever comes behind it.

Results:
* `codeUnit_control`: the number of a control character is the one its escape writes.
* `quotedBody_escape`: the reader takes one written character at a time.
* **`quotedBody_quoted`**: the text between the quotes reads back.
-/

namespace QuantityAlgebra.Document

theorem hexValue?_hexDigit : ∀ n < 16, hexValue? (hexDigit n) = some n := by decide

/-- Four characters take at least four bytes. -/
theorem four_le_leadingBytes (a b c d : Char) (rest : List Char) :
    4 ≤ leadingBytes (a :: b :: c :: d :: rest) := by
  have := a.utf8Size_pos
  have := b.utf8Size_pos
  have := c.utf8Size_pos
  have := d.utf8Size_pos
  show 4 ≤ 0 + a.utf8Size + b.utf8Size + c.utf8Size + d.utf8Size
  omega

/-- The four digits of a number below 256 write that number. -/
theorem codeUnit_control {n : Nat} (h : n < 256) (rest : List Char) :
    codeUnit ('0' :: '0' :: hexDigit (n / 16) :: hexDigit (n % 16) :: rest) = .ok (n, rest) := by
  have zero : hexValue? '0' = some 0 := by decide
  have high := hexValue?_hexDigit (n / 16) (by omega)
  have low := hexValue?_hexDigit (n % 16) (by omega)
  rw [codeUnit, if_neg (Nat.not_lt.mpr (four_le_leadingBytes ..))]
  simp only [zero, high, low]
  rw [show ((0 * 16 + 0) * 16 + n / 16) * 16 + n % 16 = n by omega]

/-- The escape of a control character names it. -/
theorem escaped_control {c : Char} (control : c.toNat < 0x20) (rest : List Char) :
    escaped false
        ('u' :: '0' :: '0' :: hexDigit (c.toNat / 16) :: hexDigit (c.toNat % 16) :: rest) =
      .ok (c, rest) := by
  have trailing : isTrailing c.toNat = false := by simp [isTrailing]; omega
  have leading : isLeading c.toNat = false := by simp [isLeading]; omega
  rw [escaped, numbered, codeUnit_control (by omega)]
  simp [trailing, leading, Char.ofNat_toNat]

/-- A text that begins with an escape has the character the escape names. -/
theorem quotedBody_of_escaped {c : Char} {text rest : List Char}
    (names : escaped false text = .ok (c, rest)) :
    quotedBody false ('\\' :: text) =
      (quotedBody false rest).map fun (cs, last) => (c :: cs, last) := by
  rw [quotedBody]
  split
  · rename_i found
    rw [names] at found
    contradiction
  · rename_i found
    rw [names] at found
    obtain ⟨rfl, rfl⟩ := Prod.mk.inj (Except.ok.inj found)
    rfl

/-- **The reader takes one written character at a time.** -/
theorem quotedBody_escape (c : Char) (rest : List Char) :
    quotedBody false (escape c ++ rest) =
      (quotedBody false rest).map fun (cs, last) => (c :: cs, last) := by
  unfold escape
  split
  -- The seven characters that have an escape of their own.
  iterate 7 exact quotedBody_of_escaped rfl
  split
  · rename_i control
    exact quotedBody_of_escaped (escaped_control control rest)
  · rename_i notControl
    rw [List.singleton_append, quotedBody, if_neg notControl]
    · assumption
    · assumption

/-- **The text between quotes reads back**, whatever comes behind the closing quote. -/
theorem quotedBody_quoted (text rest : List Char) :
    quotedBody false (text.flatMap escape ++ '"' :: rest) = .ok (text, rest) := by
  induction text with
  | nil => rw [List.flatMap_nil, List.nil_append, quotedBody]
  | cons c text ih =>
    rw [List.flatMap_cons, List.append_assoc, quotedBody_escape, ih]
    rfl

end QuantityAlgebra.Document
