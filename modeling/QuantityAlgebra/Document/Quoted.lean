import QuantityAlgebra.Document.Reader

/-!
# Quoted texts

A string of a document stands between quotes. A quote, a backslash and the control characters below
U+0020 are written as escapes, the rest as it is. When read, any character may come as an escape,
the ones beyond U+FFFF as a pair of surrogates.

In a string that is only passed over, escapes have to be well formed, but surrogates need no
partner; the characters it is said to hold are then of no account.

Results: `length_escaped`, an escape is at least one character long.
-/

namespace QuantityAlgebra.Document

/-! ## Writing -/

/-- The digit of a number below sixteen, letters in lower case. -/
def hexDigit (n : Nat) : Char := Nat.digitChar n

/-- A character as it is written between quotes. -/
def escape (c : Char) : List Char :=
  match c with
  | '"' => ['\\', '"']
  | '\\' => ['\\', '\\']
  | '\x08' => ['\\', 'b']
  | '\x0c' => ['\\', 'f']
  | '\n' => ['\\', 'n']
  | '\r' => ['\\', 'r']
  | '\t' => ['\\', 't']
  | c =>
    if c.toNat < 0x20 then
      ['\\', 'u', '0', '0', hexDigit (c.toNat / 16), hexDigit (c.toNat % 16)]
    else [c]

/-- A text between quotes. -/
def quote (text : List Char) : List Char := '"' :: text.flatMap escape ++ ['"']

/-! ## Reading -/

/-- The value of a hexadecimal digit, in either case. -/
def hexValue? (c : Char) : Option Nat :=
  if c.isDigit then some (c.toNat - '0'.toNat)
  else if 'a' ≤ c ∧ c ≤ 'f' then some (c.toNat - 'a'.toNat + 10)
  else if 'A' ≤ c ∧ c ≤ 'F' then some (c.toNat - 'A'.toNat + 10)
  else none

/-- The number of bytes the first four characters of a text take. -/
def leadingBytes (text : List Char) : Nat :=
  (text.take 4).foldl (fun bytes c => bytes + c.utf8Size) 0

/-- The number four hexadecimal digits write, and the text after them. A text of fewer than four
bytes ends too early. -/
def codeUnit (text : List Char) : Except Fault (Nat × List Char) :=
  if leadingBytes text < 4 then .error .truncated
  else
    match text with
    | a :: b :: c :: d :: rest =>
      match hexValue? a, hexValue? b, hexValue? c, hexValue? d with
      | some a, some b, some c, some d => .ok (((a * 16 + b) * 16 + c) * 16 + d, rest)
      | _, _, _, _ => .error .malformed
    | _ => .error .malformed

/-- Whether a code unit is the first of a surrogate pair. -/
def isLeading (unit : Nat) : Bool := 0xD800 ≤ unit && unit ≤ 0xDBFF

/-- Whether a code unit is the second of a surrogate pair. -/
def isTrailing (unit : Nat) : Bool := 0xDC00 ≤ unit && unit ≤ 0xDFFF

/-- The character of a surrogate pair. -/
def ofSurrogates (leading trailing : Nat) : Char :=
  Char.ofNat ((leading - 0xD800) * 0x400 + (trailing - 0xDC00) + 0x10000)

/-- The second half of a surrogate pair, an escape of its own, and the text after it. -/
def trailingUnit (text : List Char) : Except Fault (Nat × List Char) :=
  match text with
  | [] => .error .truncated
  | '\\' :: [] => .error .truncated
  | '\\' :: 'u' :: rest =>
    match codeUnit rest with
    | .error fault => .error fault
    | .ok (unit, rest) => if isTrailing unit then .ok (unit, rest) else .error .malformed
  | _ => .error .malformed

/-- The character of an escape by number, and the text after it. -/
def numbered (ignored : Bool) (text : List Char) : Except Fault (Char × List Char) :=
  match codeUnit text with
  | .error fault => .error fault
  | .ok (unit, rest) =>
    if ignored then .ok (Char.ofNat unit, rest)
    else if isTrailing unit then .error .malformed
    else if isLeading unit then
      match trailingUnit rest with
      | .error fault => .error fault
      | .ok (trailing, rest) => .ok (ofSurrogates unit trailing, rest)
    else .ok (Char.ofNat unit, rest)

/-- The character of an escape, whose backslash has been read, and the text after it. -/
def escaped (ignored : Bool) : List Char → Except Fault (Char × List Char)
  | [] => .error .truncated
  | '"' :: rest => .ok ('"', rest)
  | '\\' :: rest => .ok ('\\', rest)
  | '/' :: rest => .ok ('/', rest)
  | 'b' :: rest => .ok ('\x08', rest)
  | 'f' :: rest => .ok ('\x0c', rest)
  | 'n' :: rest => .ok ('\n', rest)
  | 'r' :: rest => .ok ('\r', rest)
  | 't' :: rest => .ok ('\t', rest)
  | 'u' :: rest => numbered ignored rest
  | _ => .error .malformed

theorem length_codeUnit {text rest : List Char} {unit : Nat}
    (h : codeUnit text = .ok (unit, rest)) : rest.length < text.length := by
  unfold codeUnit at h
  split at h
  · simp at h
  · split at h
    · split at h
      · simp only [Except.ok.injEq, Prod.mk.injEq] at h
        obtain ⟨-, rfl⟩ := h
        simp
        omega
      · simp at h
    · simp at h

theorem length_trailingUnit {text rest : List Char} {unit : Nat}
    (h : trailingUnit text = .ok (unit, rest)) : rest.length < text.length := by
  unfold trailingUnit at h
  split at h
  · simp at h
  · simp at h
  · split at h
    · simp at h
    · rename_i found
      have := length_codeUnit found
      split at h
      · simp only [Except.ok.injEq, Prod.mk.injEq] at h
        obtain ⟨-, rfl⟩ := h
        simp
        omega
      · simp at h
  · simp at h

theorem length_numbered {ignored : Bool} {text rest : List Char} {c : Char}
    (h : numbered ignored text = .ok (c, rest)) : rest.length < text.length := by
  unfold numbered at h
  split at h
  · simp at h
  · rename_i found
    have shorter := length_codeUnit found
    split at h
    · simp only [Except.ok.injEq, Prod.mk.injEq] at h
      exact h.2 ▸ shorter
    · split at h
      · simp at h
      · split at h
        · split at h
          · simp at h
          · rename_i second
            have := length_trailingUnit second
            simp only [Except.ok.injEq, Prod.mk.injEq] at h
            obtain ⟨-, rfl⟩ := h
            omega
        · simp only [Except.ok.injEq, Prod.mk.injEq] at h
          exact h.2 ▸ shorter

/-- An escape is at least one character long. -/
theorem length_escaped {ignored : Bool} {text rest : List Char} {c : Char}
    (h : escaped ignored text = .ok (c, rest)) : rest.length < text.length := by
  unfold escaped at h
  split at h <;> try simp only [Except.ok.injEq, Prod.mk.injEq, reduceCtorEq] at h
  all_goals first
    | (obtain ⟨-, rfl⟩ := h; simp)
    | exact Nat.lt_succ_of_lt (length_numbered h)

/-- The characters up to the closing quote, whose opening one has been read, and the text after
it. -/
def quotedBody (ignored : Bool) (text : List Char) : Except Fault (List Char × List Char) :=
  match text with
  | [] => .error .truncated
  | '"' :: rest => .ok ([], rest)
  | '\\' :: rest =>
    match _h : escaped ignored rest with
    | .error fault => .error fault
    | .ok (c, after) => (quotedBody ignored after).map fun (cs, last) => (c :: cs, last)
  | c :: rest =>
    if c.toNat < 0x20 then .error .malformed
    else (quotedBody ignored rest).map fun (cs, last) => (c :: cs, last)
termination_by text.length
decreasing_by
  · have := length_escaped _h
    simp
    omega
  · simp

namespace Reader

/-- Reads a string whose opening quote has been read. -/
def quoted : Reader String := fun text =>
  (quotedBody false text).map fun (cs, rest) => (String.ofList cs, rest)

/-- Passes over a string whose opening quote has been read. -/
def skipQuoted : Reader Unit := fun text => (quotedBody true text).map fun (_, rest) => ((), rest)

end Reader

end QuantityAlgebra.Document
