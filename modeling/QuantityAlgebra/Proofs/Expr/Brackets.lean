import QuantityAlgebra.Expr.Parse

/-!
# Parentheses and cuts

What the three scans over a text find when the text is put together from balanced parts. A part
that closes its own parentheses leaves the depth as it was, so a scan over `a ++ b` with `a`
balanced is the scan over `b` at the same depth; and inside an open pair no operator is a place to
cut at.

Results:
* `balancedFrom_induction`: what holds of a balanced text, character by character.
* **`balancedFrom_append`**, `foldl_depthAfter`, `closesAtEnd_append`: a balanced part is passed
  over by each of the scans.
* `balanced_joined`, `balanced_parentheses`, `balanced_of_forall`: how balanced texts arise.
* `eq_of_unwrap?_eq_some`, **`unwrap?_parentheses`**, `unwrap?_append`: what comes off is one pair;
  it does come off a balanced text, and does not off one that goes on behind its first part.
* **`splitLast?_append`**: a cut of `a ++ b` is one in `b` if there is any, else one in `a`.
* `splitLast?_joined`, `splitLast?_parentheses`: where two balanced parts with an operator between
  them are cut, and that nothing is cut inside parentheses.
* **`depth_and_rhs_of_splitLast?`**: a cut is outside all parentheses, and it is the last.
* **`balanced_iff`**: the scan for balance finds what counting parentheses finds.
* `balanced_of_unwrap?`, `balanced_of_splitOperation?`: the parts of a balanced text are balanced.
* `count_lt_of_splitOperation?_eq_none`: in a balanced text that is not cut every operator is inside
  parentheses.
-/

namespace QuantityAlgebra.Expr

/-! ## One character -/

theorem balancedFrom_cons (depth : Nat) (c : Char) (rest : List Char) :
    balancedFrom depth (c :: rest) =
      if depth = 0 ∧ c = ')' then false else balancedFrom (depthAfter depth c) rest := by
  by_cases hopen : c = '('
  · simp [hopen, balancedFrom, depthAfter]
  by_cases hclose : c = ')'
  · cases depth <;> simp [hclose, balancedFrom, depthAfter]
  · rw [balancedFrom] <;> simp [hopen, hclose, depthAfter]

/-- Inside a balanced text no character closes a pair that the text has not opened. -/
theorem balancedFrom_cons_iff {k : Nat} {c : Char} {rest : List Char} :
    balancedFrom k (c :: rest) = true ↔
      ¬(k = 0 ∧ c = ')') ∧ balancedFrom (depthAfter k c) rest = true := by
  rw [balancedFrom_cons]
  split <;> simp_all

theorem closesAtEnd_cons (depth : Nat) (c : Char) (rest : List Char) :
    closesAtEnd depth (c :: rest) =
      if depth = 0 ∧ c = ')' then rest.isEmpty else closesAtEnd (depthAfter depth c) rest := by
  by_cases hopen : c = '('
  · simp [hopen, closesAtEnd, depthAfter]
  by_cases hclose : c = ')'
  · cases depth <;> simp [hclose, closesAtEnd, depthAfter]
  · rw [closesAtEnd] <;> simp [hopen, hclose, depthAfter]

/-- Pairs that stay open do not matter to what one character does. -/
theorem depthAfter_add {k : Nat} {c : Char} (h : ¬(k = 0 ∧ c = ')')) (d : Nat) :
    depthAfter (k + d) c = depthAfter k c + d := by
  unfold depthAfter
  split <;> simp_all <;> omega

/-! ## Passing over a balanced part -/

/-- What holds of a balanced text, character by character. -/
theorem balancedFrom_induction {motive : ∀ k a, balancedFrom k a = true → Prop}
    (nil : motive 0 [] rfl)
    (cons : ∀ k c rest (opened : ¬(k = 0 ∧ c = ')'))
      (h : balancedFrom (depthAfter k c) rest = true),
      motive (depthAfter k c) rest h → motive k (c :: rest) (balancedFrom_cons_iff.mpr ⟨opened, h⟩))
    {k : Nat} {a : List Char} (h : balancedFrom k a = true) : motive k a h := by
  induction a generalizing k with
  | nil =>
    obtain rfl : k = 0 := by simpa [balancedFrom] using h
    exact nil
  | cons c rest ih =>
    obtain ⟨opened, h'⟩ := balancedFrom_cons_iff.mp h
    exact cons k c rest opened h' (ih h')

/-- **A balanced part is passed over**: what follows it balances or not on its own. -/
theorem balancedFrom_append {k : Nat} {a : List Char} (h : balancedFrom k a = true) (d : Nat)
    (b : List Char) : balancedFrom (k + d) (a ++ b) = balancedFrom d b := by
  induction h using balancedFrom_induction with
  | nil => simp
  | cons k c rest opened _ ih =>
    have opened' : ¬(k + d = 0 ∧ c = ')') := fun hc => opened ⟨by omega, hc.2⟩
    rw [List.cons_append, balancedFrom_cons, if_neg opened', depthAfter_add opened, ih]

theorem balanced_joined {a b : List Char} (ha : balanced a = true) (hb : balanced b = true)
    (op : BinaryOp) : balanced (a ++ op.symbol :: b) = true := by
  rw [balanced, balancedFrom_append ha 0]
  cases op <;> exact hb

theorem balanced_parentheses {inner : List Char} (h : balanced inner = true) :
    balanced ('(' :: inner ++ [')']) = true := by
  rw [balanced, List.cons_append, balancedFrom, balancedFrom_append h 1]
  rfl

/-- A text without parentheses is balanced. -/
theorem balanced_of_forall {text : List Char} (h : ∀ c ∈ text, c ≠ '(' ∧ c ≠ ')') :
    balanced text = true := by
  induction text with
  | nil => rfl
  | cons c rest ih =>
    obtain ⟨⟨hopen, hclose⟩, hrest⟩ := List.forall_mem_cons.mp h
    rw [balanced, balancedFrom_cons, if_neg (fun hc => hclose hc.2)]
    simpa [balanced, depthAfter, hopen, hclose] using ih hrest

/-- A balanced part brings the depth down to where it was. -/
theorem foldl_depthAfter {k : Nat} {a : List Char} (h : balancedFrom k a = true) (d : Nat) :
    a.foldl depthAfter (k + d) = d := by
  induction h using balancedFrom_induction with
  | nil => simp
  | cons k c rest opened _ ih =>
    rw [List.foldl_cons, depthAfter_add opened, ih]

/-- A balanced part closes no pair that was open before it. -/
theorem closesAtEnd_append {k : Nat} {a : List Char} (h : balancedFrom k a = true) (d : Nat)
    (b : List Char) : closesAtEnd (k + d) (a ++ b) = closesAtEnd d b := by
  induction h using balancedFrom_induction with
  | nil => simp
  | cons k c rest opened _ ih =>
    have opened' : ¬(k + d = 0 ∧ c = ')') := fun hc => opened ⟨by omega, hc.2⟩
    rw [List.cons_append, closesAtEnd_cons, if_neg opened', depthAfter_add opened, ih]

/-- A pair that a part closes does not reach past the part. -/
theorem closesAtEnd_eq_false {k : Nat} {a b : List Char} (h : balancedFrom (k + 1) a = true)
    (hb : b ≠ []) : closesAtEnd k (a ++ b) = false := by
  induction a generalizing k with
  | nil => simp [balancedFrom] at h
  | cons c rest ih =>
    rw [balancedFrom_cons, if_neg (by omega)] at h
    rw [List.cons_append, closesAtEnd_cons]
    split
    · simp [hb]
    · rename_i hc
      exact ih (depthAfter_add hc 1 ▸ h)

/-! ## The pair around a text -/

/-- What ends where its open pair does is something followed by the closing parenthesis. -/
theorem eq_append_of_closesAtEnd {depth : Nat} {text : List Char}
    (h : closesAtEnd depth text = true) : text = text.dropLast ++ [')'] := by
  induction text generalizing depth with
  | nil => simp [closesAtEnd] at h
  | cons c rest ih =>
    rw [closesAtEnd_cons] at h
    split at h
    · rename_i hc
      obtain rfl : rest = [] := by simpa using h
      simp [hc.2]
    · have step := ih h
      have nonempty : rest ≠ [] := by
        rintro rfl
        simp at step
      rw [List.dropLast_cons_of_ne_nil nonempty, List.cons_append, ← step]

/-- What comes off is one pair of parentheses. -/
theorem eq_of_unwrap?_eq_some {text inner : List Char} (h : unwrap? text = some inner) :
    text = '(' :: inner ++ [')'] := by
  unfold unwrap? at h
  split at h
  · split at h
    · rename_i closes
      obtain rfl := Option.some.inj h
      rw [List.cons_append, ← eq_append_of_closesAtEnd closes]
    · contradiction
  · contradiction

/-- **A pair around a balanced text comes off.** -/
theorem unwrap?_parentheses {inner : List Char} (h : balanced inner = true) :
    unwrap? ('(' :: inner ++ [')']) = some inner := by
  have closes : closesAtEnd 0 (inner ++ [')']) = true := by
    have := closesAtEnd_append h 0 [')']
    simpa [closesAtEnd] using this
  simp [unwrap?, closes]

/-- A balanced text with more behind it has no pair of parentheses around it. -/
theorem unwrap?_append {a b : List Char} (h : balanced a = true) (ha : a ≠ []) (hb : b ≠ []) :
    unwrap? (a ++ b) = none := by
  cases a with
  | nil => contradiction
  | cons c rest =>
    unfold unwrap?
    split
    · rename_i heq
      simp only [List.cons_append, List.cons.injEq] at heq
      obtain ⟨rfl, rfl⟩ := heq
      rw [closesAtEnd_eq_false (by simpa [balanced, balancedFrom] using h) hb]
      rfl
    · rfl

/-! ## Cuts -/

/-- **The last cut of a text in two parts**: one in the second part if there is any, else one in the
first. -/
theorem splitLast?_append (accept : BinaryOp → Bool) (depth : Nat) (a b : List Char) :
    splitLast? accept depth (a ++ b) =
      ((splitLast? accept (a.foldl depthAfter depth) b).map (fun cut => (a ++ cut.1, cut.2)) <|>
        (splitLast? accept depth a).map (fun cut => (cut.1, cut.2.1, cut.2.2 ++ b))) := by
  induction a generalizing depth with
  | nil => cases h : splitLast? accept depth b <;> simp [splitLast?, h]
  | cons c rest ih =>
    rw [List.cons_append, splitLast?, splitLast?, ih, List.foldl_cons]
    cases splitLast? accept (rest.foldl depthAfter (depthAfter depth c)) b with
    | some cut => rfl
    | none =>
      cases splitLast? accept (depthAfter depth c) rest with
      | some cut => rfl
      | none =>
        cases BinaryOp.ofSymbol? c with
        | none => rfl
        | some op => by_cases h : depth = 0 ∧ accept op = true <;> simp [h]

theorem depthAfter_symbol (depth : Nat) (op : BinaryOp) : depthAfter depth op.symbol = depth := by
  cases op <;> rfl

/-- **Where two parts with an operator between them are cut**, if the first leaves no parenthesis
open: behind the operator if there is a place there, else at it if it is accepted, else before. -/
theorem splitLast?_joined {a : List Char} (closed : a.foldl depthAfter 0 = 0)
    (accept : BinaryOp → Bool) (op : BinaryOp) (b : List Char) :
    splitLast? accept 0 (a ++ op.symbol :: b) =
      match splitLast? accept 0 b with
      | some (lhs, found, rhs) => some (a ++ op.symbol :: lhs, found, rhs)
      | none =>
        if accept op = true then some (a, op, b)
        else
          (splitLast? accept 0 a).map fun cut => (cut.1, cut.2.1, cut.2.2 ++ op.symbol :: b) := by
  rw [splitLast?_append, closed, splitLast?, depthAfter_symbol, BinaryOp.ofSymbol?_symbol]
  cases splitLast? accept 0 b with
  | some cut => rfl
  | none => by_cases accepted : accept op = true <;> simp [accepted]

/-- Nothing is cut inside an open pair of parentheses. -/
theorem splitLast?_inside {k : Nat} {a : List Char} (h : balancedFrom k a = true)
    (accept : BinaryOp → Bool) (d : Nat) : splitLast? accept (k + (d + 1)) a = none := by
  induction h using balancedFrom_induction with
  | nil => rfl
  | cons k c rest opened _ ih =>
    rw [splitLast?, depthAfter_add opened, ih]
    cases BinaryOp.ofSymbol? c <;> simp

/-- **Nothing is cut in a pair of parentheses.** -/
theorem splitLast?_parentheses {inner : List Char} (h : balanced inner = true)
    (accept : BinaryOp → Bool) : splitLast? accept 0 ('(' :: inner ++ [')']) = none := by
  have inside : splitLast? accept 1 (inner ++ [')']) = none := by
    rw [splitLast?_append, foldl_depthAfter h 1, splitLast?_inside h accept 0]
    rfl
  rw [List.cons_append, splitLast?, show depthAfter 0 '(' = 1 from rfl, inside]
  rfl

/-- Nothing is cut where there is no operator. -/
theorem splitLast?_eq_none_of_forall {text : List Char}
    (h : ∀ c ∈ text, BinaryOp.ofSymbol? c = none) (accept : BinaryOp → Bool) (depth : Nat) :
    splitLast? accept depth text = none := by
  induction text generalizing depth with
  | nil => rfl
  | cons c rest ih =>
    rw [List.forall_mem_cons] at h
    rw [splitLast?, ih h.2, h.1]

/-- **At the last cut no parenthesis is open, and behind it there is no other cut.** -/
theorem depth_and_rhs_of_splitLast? {accept : BinaryOp → Bool} {depth : Nat}
    {text lhs rhs : List Char} {op : BinaryOp}
    (h : splitLast? accept depth text = some (lhs, op, rhs)) :
    lhs.foldl depthAfter depth = 0 ∧ splitLast? accept 0 rhs = none := by
  fun_induction splitLast? accept depth text generalizing lhs op rhs with
  | case1 => simp at h
  | case2 depth c rest lhs' op' rhs' found ih =>
    simp only [Option.some.injEq, Prod.mk.injEq] at h
    obtain ⟨rfl, rfl, rfl⟩ := h
    exact ih found
  | case3 depth c rest missing op' symbol accepted =>
    simp only [Option.some.injEq, Prod.mk.injEq] at h
    obtain ⟨rfl, rfl, rfl⟩ := h
    obtain ⟨rfl, -⟩ := accepted
    rw [BinaryOp.ofSymbol?_eq_some.mp symbol, depthAfter_symbol] at missing
    exact ⟨rfl, missing⟩
  | case4 => simp at h
  | case5 => simp at h

/-- Neither part is cut if the whole is not. -/
theorem splitLast?_parts {accept : BinaryOp → Bool} {lhs rhs : List Char} {op : BinaryOp}
    (closed : lhs.foldl depthAfter 0 = 0)
    (h : splitLast? accept 0 (lhs ++ op.symbol :: rhs) = none) :
    splitLast? accept 0 lhs = none ∧ splitLast? accept 0 rhs = none := by
  rw [splitLast?_joined closed] at h
  cases behind : splitLast? accept 0 rhs with
  | some cut => simp [behind] at h
  | none =>
    by_cases accepted : accept op = true
    · simp [behind, accepted] at h
    · exact ⟨by simpa [behind, accepted] using h, rfl⟩

/-! ## What balance means -/

/-- The parentheses of a text balance: as many are closed as are opened, and up to no place more. -/
structure Balances (text : List Char) : Prop where
  count_eq : text.count ')' = text.count '('
  count_le : ∀ before after, text = before ++ after → before.count ')' ≤ before.count '('

theorem depthAfter_add_count {k : Nat} {c : Char} (opened : ¬(k = 0 ∧ c = ')')) :
    depthAfter k c + [c].count ')' = k + [c].count '(' := by
  unfold depthAfter
  split <;> simp_all
  omega

/-- The scan for balance counts: `k` parentheses are open before the text. -/
theorem balancedFrom_iff {k : Nat} {text : List Char} :
    balancedFrom k text = true ↔
      text.count ')' = k + text.count '(' ∧
      ∀ before after, text = before ++ after → before.count ')' ≤ k + before.count '(' := by
  induction text generalizing k with
  | nil =>
    rw [balancedFrom, beq_iff_eq]
    constructor
    · rintro rfl
      simp
    · rintro ⟨h, -⟩
      simpa [eq_comm] using h
  | cons c rest ih =>
    rw [balancedFrom_cons_iff, ih]
    constructor
    · rintro ⟨opened, total, prefixes⟩
      have step := depthAfter_add_count opened
      simp only [List.count_cons, List.count_nil] at step ⊢
      refine ⟨by omega, fun before after e => ?_⟩
      cases before with
      | nil => simp
      | cons d before =>
        obtain ⟨rfl, rfl⟩ := List.cons.inj e
        have := prefixes before after rfl
        simp only [List.count_cons]
        omega
    · rintro ⟨total, prefixes⟩
      have opened : ¬(k = 0 ∧ c = ')') := by
        rintro ⟨rfl, rfl⟩
        simpa using prefixes [')'] rest rfl
      have step := depthAfter_add_count opened
      simp only [List.count_cons, List.count_nil] at step total
      refine ⟨opened, by omega, fun before after e => ?_⟩
      have := prefixes (c :: before) after (by rw [e]; rfl)
      simp only [List.count_cons] at this
      omega

/-- **The scan for balance finds what counting finds.** -/
theorem balanced_iff {text : List Char} : balanced text = true ↔ Balances text := by
  rw [balanced, balancedFrom_iff]
  simp only [Nat.zero_add]
  exact ⟨fun ⟨total, prefixes⟩ => ⟨total, prefixes⟩, fun h => ⟨h.count_eq, h.count_le⟩⟩

/-- As many parentheses are open behind a part as it opens and does not close. -/
theorem foldl_depthAfter_add_count {k : Nat} {a b : List Char}
    (h : balancedFrom k (a ++ b) = true) :
    a.foldl depthAfter k + a.count ')' = k + a.count '(' := by
  induction a generalizing k with
  | nil => simp
  | cons c rest ih =>
    obtain ⟨opened, h⟩ := balancedFrom_cons_iff.mp h
    have step := depthAfter_add_count opened
    have := ih h
    simp only [List.count_cons, List.count_nil, List.foldl_cons] at step ⊢
    omega

/-! ## Parts of a balanced text -/

/-- **A balanced text cut where no parenthesis is open** is cut in two balanced parts. -/
theorem balancedFrom_parts {k : Nat} {a b : List Char} (h : balancedFrom k (a ++ b) = true)
    (closed : a.foldl depthAfter k = 0) : balancedFrom k a = true ∧ balancedFrom 0 b = true := by
  induction a generalizing k with
  | nil =>
    obtain rfl : k = 0 := closed
    exact ⟨rfl, h⟩
  | cons c rest ih =>
    obtain ⟨opened, h⟩ := balancedFrom_cons_iff.mp h
    obtain ⟨left, right⟩ := ih h closed
    exact ⟨balancedFrom_cons_iff.mpr ⟨opened, left⟩, right⟩

/-- What stands before the end of its open pair closes the parentheses it opens. -/
theorem balancedFrom_dropLast {k : Nat} {text : List Char} (h : closesAtEnd k text = true) :
    balancedFrom k text.dropLast = true := by
  induction text generalizing k with
  | nil => simp [closesAtEnd] at h
  | cons c rest ih =>
    rw [closesAtEnd_cons] at h
    split at h
    · rename_i closes
      obtain rfl : rest = [] := by simpa using h
      simp [closes.1, balancedFrom]
    · rename_i opened
      have nonempty : rest ≠ [] := by
        rintro rfl
        simp [closesAtEnd] at h
      rw [List.dropLast_cons_of_ne_nil nonempty]
      exact balancedFrom_cons_iff.mpr ⟨opened, ih h⟩

/-- What comes off its pair of parentheses is balanced. -/
theorem balanced_of_unwrap? {text inner : List Char} (h : unwrap? text = some inner) :
    balanced inner = true := by
  unfold unwrap? at h
  split at h
  · split at h
    · rename_i closes
      obtain rfl := Option.some.inj h
      exact balancedFrom_dropLast closes
    · contradiction
  · contradiction

/-- The last cut of a balanced text leaves two balanced parts. -/
theorem balanced_of_splitLast? {accept : BinaryOp → Bool} {text lhs rhs : List Char} {op : BinaryOp}
    (closed : balanced text = true) (h : splitLast? accept 0 text = some (lhs, op, rhs)) :
    balanced lhs = true ∧ balanced rhs = true := by
  obtain ⟨rfl, -⟩ := splitLast?_eq_some h
  obtain ⟨left, right⟩ := balancedFrom_parts closed (depth_and_rhs_of_splitLast? h).1
  refine ⟨left, ?_⟩
  rw [balancedFrom_cons, depthAfter_symbol] at right
  cases op <;> exact right

theorem balanced_of_splitOperation? {text lhs rhs : List Char} {op : BinaryOp}
    (closed : balanced text = true) (h : splitOperation? text = some (lhs, op, rhs)) :
    balanced lhs = true ∧ balanced rhs = true := by
  unfold splitOperation? at h
  cases found : splitLast? BinaryOp.isSum 0 text with
  | none => exact balanced_of_splitLast? closed (by simpa [found] using h)
  | some cut =>
    obtain rfl : cut = (lhs, op, rhs) := by simpa [found] using h
    exact balanced_of_splitLast? closed found

/-- Where nothing is cut, every operator has an open parenthesis before it. -/
theorem count_lt_of_splitLast?_eq_none {accept : BinaryOp → Bool} {before after : List Char}
    {op : BinaryOp} (accepted : accept op = true)
    (closed : balanced (before ++ op.symbol :: after) = true)
    (h : splitLast? accept 0 (before ++ op.symbol :: after) = none) :
    before.count ')' < before.count '(' := by
  have counted := foldl_depthAfter_add_count closed
  have opened : before.foldl depthAfter 0 ≠ 0 := by
    intro none
    rw [splitLast?_joined none] at h
    cases behind : splitLast? accept 0 after <;> simp [behind, accepted] at h
  omega

theorem count_lt_of_splitOperation?_eq_none {before after : List Char} {op : BinaryOp}
    (closed : balanced (before ++ op.symbol :: after) = true)
    (h : splitOperation? (before ++ op.symbol :: after) = none) :
    before.count ')' < before.count '(' := by
  rw [splitOperation?, Option.orElse_eq_orElse, Option.orElse_eq_or, Option.or_eq_none_iff] at h
  by_cases isSum : op.isSum = true
  · exact count_lt_of_splitLast?_eq_none isSum closed h.1
  · exact count_lt_of_splitLast?_eq_none (by simpa using isSum) closed h.2

end QuantityAlgebra.Expr
