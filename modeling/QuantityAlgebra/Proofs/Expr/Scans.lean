import Mathlib.Data.List.Induction
import Mathlib.Logic.Relation
import Mathlib.Order.Bounds.Basic
import QuantityAlgebra.Proofs.Expr.Reading

/-!
# Scans from either end

The reader looks at a text in two ways: whether one pair of parentheses is around all of it, and
where its last operator outside parentheses stands. Both can be answered by one counter. `isWrapped`
counts from the left and looks for a place before the end where nothing is open; `lastTopLevel?`
counts from the right, upwards at closing parentheses, and stops at the first operator it meets with
nothing open. Neither looks at what it has not scanned, so over a text that does not balance they
say little: the counter from the left need not end at zero, and the one from the right may go below
it.

Over a balanced text either count tells what is balanced on both sides of a place. If as many
parentheses are opened as are closed behind it, then so are before it, and the prefixes of both
sides are prefixes of the text or differ from one by a part that balances (`topLevel_iff_cutsAt`).
So both scans mean the same parentheses, and the reader, which goes on with balanced texts only,
meets none they could be wrong about.

Results:
* `staysOpen_parentheses_iff`, **`isWrapped_iff`**: the scan from the left.
* **`isLast_lastTopLevelFrom?`**, **`topLevel_iff_cutsAt`**: the scan from the right finds the last
  place with count zero; in a balanced text that is the last one between balanced sides.
* `unwrap?_eq`, `isLast_splitLast?`, **`splitOperation?_eq`**: the reader unwraps and cuts where the
  scans say.
* `balances_of_mem_parts`, `length_lt_of_mem_parts`, `readStep_parseTree`: what the reader goes on
  with.
* **`scans_of_balances`**: all of it, over every balanced text.
-/

namespace QuantityAlgebra.Expr

/-! ## The pair around a text -/

theorem weight_eq (c : Char) : weight c = ([c].count '(' : Int) - [c].count ')' := by
  unfold weight
  split <;> simp_all

/-- The scan from the left finds no place between the ends where as many parentheses are closed as
are opened. -/
theorem staysOpen_iff {depth : Int} {text : List Char} :
    staysOpen depth text = true ↔
      ∀ before after, text = before ++ after → before ≠ [] → after ≠ [] →
        depth + before.count '(' ≠ before.count ')' := by
  induction text generalizing depth with
  | nil =>
    refine iff_of_true rfl fun before after shape started _ => ?_
    exact absurd (List.append_eq_nil_iff.mp shape.symm).1 started
  | cons c rest ih =>
    have step := weight_eq c
    simp only [List.count_cons, List.count_nil] at step
    rw [staysOpen]
    split
    · rename_i closes
      refine iff_of_false Bool.false_ne_true fun opened => ?_
      refine opened [c] rest rfl (List.cons_ne_nil c []) closes.2 ?_
      simp only [List.count_cons, List.count_nil]
      omega
    · rename_i notClosed
      rw [ih]
      constructor
      · intro later before after shape started unfinished
        obtain ⟨before, rfl, rfl⟩ :=
          (List.cons_eq_append_iff.mp shape).resolve_left fun empty => started empty.1
        simp only [List.count_cons]
        cases before with
        | nil =>
          have stillOpen : depth + weight c ≠ 0 := fun closed => notClosed ⟨closed, unfinished⟩
          simp only [List.count_nil]
          omega
        | cons d tail =>
          have open' := later (d :: tail) after rfl (List.cons_ne_nil d tail) unfinished
          omega
      · intro opened before after shape started unfinished
        have open' := opened (c :: before) after (by rw [shape]; rfl) (List.cons_ne_nil c before)
          unfinished
        simp only [List.count_cons] at open'
        omega

/-- **The scan finds whether what is inside balances**, if the whole does. -/
theorem staysOpen_parentheses_iff {inner : List Char} (closed : Balances ('(' :: inner ++ [')'])) :
    staysOpen 0 ('(' :: inner ++ [')']) = true ↔ Balances inner := by
  rw [staysOpen_iff]
  constructor
  · intro opened
    have total := closed.count_eq
    simp only [List.cons_append, List.count_cons, List.count_append, List.count_nil] at total
    refine ⟨by simpa using total, fun before after shape => ?_⟩
    have prefixes := closed.count_le ('(' :: before) (after ++ [')']) (by simp [shape])
    have differs := opened ('(' :: before) (after ++ [')']) (by simp [shape]) (by simp) (by simp)
    simp at prefixes differs
    omega
  · intro balances before after shape started unfinished
    rw [List.cons_append] at shape
    obtain ⟨start, rfl, inside⟩ :=
      (List.cons_eq_append_iff.mp shape).resolve_left fun empty => started empty.1
    have split : inner = start ++ after.dropLast := by
      rw [← List.dropLast_append_of_ne_nil unfinished, ← inside, List.dropLast_concat]
    have prefixes := balances.count_le start after.dropLast split
    simp
    omega

/-- The texts with both ends of a pair. -/
theorem hasEnds_iff {text : List Char} :
    (2 ≤ text.length ∧ text.head? = some '(') ∧ text.getLast? = some ')' ↔
      ∃ inner, text = '(' :: inner ++ [')'] := by
  constructor
  · rintro ⟨⟨long, first⟩, last⟩
    obtain ⟨start, rfl⟩ := List.getLast?_eq_some_iff.mp last
    cases start with
    | nil => simp at long
    | cons c inner =>
      obtain rfl : c = '(' := by simpa using first
      exact ⟨inner, rfl⟩
  · rintro ⟨inner, rfl⟩
    exact ⟨⟨by simp, rfl⟩, List.getLast?_concat⟩

/-- **A balanced text is wrapped** exactly if it is a pair of parentheses around a balanced one. -/
theorem isWrapped_iff {text : List Char} (closed : Balances text) :
    isWrapped text = true ↔ ∃ inner, Balances inner ∧ text = '(' :: inner ++ [')'] := by
  rw [isWrapped, Bool.and_eq_true, Bool.and_eq_true, Bool.and_eq_true, decide_eq_true_iff,
    beq_iff_eq, beq_iff_eq, hasEnds_iff]
  constructor
  · rintro ⟨⟨inner, rfl⟩, opened⟩
    exact ⟨inner, (staysOpen_parentheses_iff closed).mp opened, rfl⟩
  · rintro ⟨inner, balances, rfl⟩
    exact ⟨⟨inner, rfl⟩, (staysOpen_parentheses_iff closed).mpr balances⟩

/-- The reader unwraps what the scan finds wrapped. -/
theorem unwrap?_eq {text : List Char} (closed : Balances text) :
    unwrap? text = if isWrapped text then some text.tail.dropLast else none := by
  split
  · rename_i wrapped
    obtain ⟨inner, balances, rfl⟩ := (isWrapped_iff closed).mp wrapped
    rw [unwrap?_parentheses (balanced_iff.mpr balances)]
    simp
  · rename_i notWrapped
    cases unwrapped : unwrap? text with
    | none => rfl
    | some inner =>
      have balances := balanced_iff.mp (balanced_of_unwrap? unwrapped)
      exact absurd ((isWrapped_iff closed).mpr ⟨inner, balances, eq_of_unwrap?_eq_some unwrapped⟩)
        notWrapped

/-- Over a text that leaves a parenthesis open it may find a pair where there is none. -/
example : isWrapped ['(', '(', ')'] = true ∧ unwrap? ['(', '(', ')'] = none := by decide

/-! ## The last place of a kind -/

/-- The answer is the greatest place of a kind, or that there is none. -/
inductive IsLast (p : Nat → Prop) : Option Nat → Prop
  | found {i : Nat} : IsGreatest {i | p i} i → IsLast p (some i)
  | missing : (∀ i, ¬p i) → IsLast p none

namespace IsLast

variable {p q : Nat → Prop} {answer other : Option Nat}

theorem eq_some_iff (h : IsLast p answer) {i : Nat} :
    answer = some i ↔ IsGreatest {i | p i} i := by
  cases h with
  | found greatest =>
    constructor
    · rintro ⟨⟩
      exact greatest
    · intro greatest'
      rw [greatest.unique greatest']
  | missing none => exact iff_of_false (by simp) fun greatest => none i greatest.1

theorem eq_none_iff (h : IsLast p answer) : answer = none ↔ ∀ i, ¬p i := by
  cases h with
  | found greatest => exact iff_of_false (by simp) fun none => none _ greatest.1
  | missing none => exact iff_of_true rfl none

theorem unique (h : IsLast p answer) (h' : IsLast p other) : answer = other := by
  cases h' with
  | found greatest => exact h.eq_some_iff.mpr greatest
  | missing none => exact h.eq_none_iff.mpr none

theorem congr (h : IsLast p answer) (same : ∀ i, p i ↔ q i) : IsLast q answer := by
  obtain rfl : p = q := funext fun i => propext (same i)
  exact h

end IsLast

/-! ## Operators outside parentheses -/

/-- At the place stands one of the operators, no parenthesis, and behind it as many parentheses are
opened as are closed, counting `depth` that are closed beyond the text. -/
def TopLevel (operators : List Char) (depth : Int) (text : List Char) (position : Nat) : Prop :=
  ∃ before c after, text = before ++ c :: after ∧ before.length = position ∧ c ∈ operators ∧
    (c ≠ '(' ∧ c ≠ ')') ∧ depth + after.count ')' = after.count '('

theorem TopLevel.lt_length {operators text : List Char} {depth : Int} {position : Nat}
    (h : TopLevel operators depth text position) : position < text.length := by
  obtain ⟨before, c, after, rfl, rfl, -⟩ := h
  simp

/-- The places in a text with one more character: the last, or those of the text with that character
counted. -/
theorem topLevel_concat {operators text : List Char} {depth : Int} {c : Char} {position : Nat} :
    TopLevel operators depth (text ++ [c]) position ↔
      (position = text.length ∧ c ∈ operators ∧ (c ≠ '(' ∧ c ≠ ')') ∧ depth = 0) ∨
        TopLevel operators (depth - weight c) text position := by
  have step := weight_eq c
  constructor
  · rintro ⟨before, d, after, shape, rfl, listed, bare, level⟩
    rcases List.eq_nil_or_concat after with rfl | ⟨after, e, rfl⟩
    · obtain ⟨rfl, same⟩ := List.append_inj' shape rfl
      obtain rfl : c = d := by simpa using same
      exact Or.inl ⟨rfl, listed, bare, by simpa using level⟩
    · have shape' : text ++ [c] = (before ++ d :: after) ++ [e] := by simpa using shape
      obtain ⟨rfl, same⟩ := List.append_inj' shape' rfl
      obtain rfl : c = e := by simpa using same
      rw [List.concat_eq_append] at level
      simp only [List.count_append] at level
      exact Or.inr ⟨before, d, after, rfl, rfl, listed, bare, by omega⟩
  · rintro (⟨rfl, listed, bare, rfl⟩ | ⟨before, d, after, rfl, rfl, listed, bare, level⟩)
    · exact ⟨text, c, [], rfl, rfl, listed, bare, by simp⟩
    · refine ⟨before, d, after ++ [c], by simp, rfl, listed, bare, ?_⟩
      simp only [List.count_append]
      omega

/-- One step of the scan from the right. -/
theorem lastTopLevelFrom?_cons (operators : List Char) (depth : Int) (c : Char)
    (before : List Char) :
    lastTopLevelFrom? operators depth (c :: before) =
      if c ∈ operators ∧ (c ≠ '(' ∧ c ≠ ')') ∧ depth = 0 then some before.length
      else lastTopLevelFrom? operators (depth - weight c) before := by
  rw [lastTopLevelFrom?]
  by_cases closing : c = ')'
  · simp [closing, weight]
  by_cases opening : c = '('
  · simp [opening, weight]
  · simp [closing, opening, weight, and_comm]

/-- **The scan from the right finds the last operator outside parentheses**, as it counts them. -/
theorem isLast_lastTopLevelFrom? (operators : List Char) (depth : Int) (text : List Char) :
    IsLast (TopLevel operators depth text) (lastTopLevelFrom? operators depth text.reverse) := by
  induction text using List.reverseRecOn generalizing depth with
  | nil =>
    refine .missing fun position ⟨before, c, after, shape, _⟩ => ?_
    simp at shape
  | append_singleton text c ih =>
    rw [List.reverse_append, List.reverse_singleton, List.singleton_append, lastTopLevelFrom?_cons,
      List.length_reverse]
    split
    · rename_i hit
      refine .found ⟨topLevel_concat.mpr (Or.inl ⟨rfl, hit⟩), fun position at_ => ?_⟩
      rcases topLevel_concat.mp at_ with ⟨rfl, -⟩ | before
      · exact Nat.le_refl _
      · exact Nat.le_of_lt before.lt_length
    · rename_i miss
      refine (ih (depth - weight c)).congr fun position => ?_
      rw [topLevel_concat, or_iff_right fun hit => miss hit.2]

/-! ## Cuts of balanced texts -/

/-- The place holds one of the operators, what stands before it is balanced, and so is what stands
after it. -/
def CutsAt (operators text : List Char) (position : Nat) : Prop :=
  ∃ before c after, text = before ++ c :: after ∧ before.length = position ∧ c ∈ operators ∧
    Balances before ∧ Balances after

/-- **A place of a balanced text is outside all parentheses** exactly if both sides of it
balance. -/
theorem topLevel_iff_cutsAt {operators text : List Char} {position : Nat} (closed : Balances text) :
    TopLevel operators 0 text position ↔ CutsAt operators text position := by
  refine exists_congr fun before => exists_congr fun c => exists_congr fun after => ?_
  refine and_congr_right fun shape => and_congr_right fun _ => and_congr_right fun _ => ?_
  subst shape
  have total := closed.count_eq
  constructor
  · rintro ⟨⟨notOpening, notClosing⟩, level⟩
    simp only [List.count_append, List.count_cons_of_ne notOpening,
      List.count_cons_of_ne notClosing] at total
    refine ⟨⟨by omega, fun start rest shape => ?_⟩, ⟨by omega, fun start rest shape => ?_⟩⟩
    · exact closed.count_le start (rest ++ c :: after) (by simp [shape])
    · have prefixes := closed.count_le (before ++ c :: start) rest (by simp [shape])
      simp only [List.count_append, List.count_cons_of_ne notOpening,
        List.count_cons_of_ne notClosing] at prefixes
      omega
  · rintro ⟨left, right⟩
    have leftTotal := left.count_eq
    have rightTotal := right.count_eq
    have bare : c ≠ '(' ∧ c ≠ ')' := by
      rw [List.count_append, List.count_append] at total
      constructor
      · rintro rfl
        simp at total
        omega
      · rintro rfl
        simp at total
        omega
    exact ⟨bare, by omega⟩

/-- **The scan from the right finds the last cut of a balanced text.** -/
theorem isLast_lastTopLevel? (operators : List Char) {text : List Char} (closed : Balances text) :
    IsLast (CutsAt operators text) (lastTopLevel? operators text) :=
  (isLast_lastTopLevelFrom? operators 0 text).congr fun _ => topLevel_iff_cutsAt closed

theorem cutAt?_append (before after : List Char) (op : BinaryOp) :
    cutAt? (before ++ op.symbol :: after) before.length = some (before, op, after) := by
  simp [cutAt?]

/-- A cut from the left is one at its place. -/
theorem splitLast?_eq_bind (accept : BinaryOp → Bool) (text : List Char) :
    splitLast? accept 0 text =
      ((splitLast? accept 0 text).map fun cut => cut.1.length).bind (cutAt? text) := by
  cases found : splitLast? accept 0 text with
  | none => rfl
  | some cut =>
    obtain ⟨lhs, op, rhs⟩ := cut
    obtain ⟨rfl, -⟩ := splitLast?_eq_some found
    exact (cutAt?_append lhs rhs op).symm

/-- **The scan from the left finds the last cut**, if it accepts the same operators. -/
theorem isLast_splitLast? {accept : BinaryOp → Bool} {operators text : List Char}
    (same : ∀ c, c ∈ operators ↔ ∃ op, accept op = true ∧ BinaryOp.symbol op = c)
    (closed : Balances text) :
    IsLast (CutsAt operators text) ((splitLast? accept 0 text).map fun cut => cut.1.length) := by
  -- Wherever the text can be cut, the scan cuts there or behind.
  have reaches {position : Nat} (cuts : CutsAt operators text position) :
      ∃ cut, splitLast? accept 0 text = some cut ∧ position ≤ cut.1.length := by
    obtain ⟨before, c, after, rfl, rfl, listed, left, -⟩ := cuts
    obtain ⟨op, accepted, rfl⟩ := (same c).mp listed
    have level : before.foldl depthAfter 0 = 0 := foldl_depthAfter (balanced_iff.mpr left) 0
    rw [splitLast?_joined level]
    cases splitLast? accept 0 after with
    | some cut => exact ⟨_, rfl, by simp⟩
    | none => exact ⟨_, if_pos accepted, Nat.le_refl _⟩
  cases found : splitLast? accept 0 text with
  | none =>
    refine .missing fun position cuts => ?_
    obtain ⟨cut, found', -⟩ := reaches cuts
    rw [found] at found'
    contradiction
  | some cut =>
    obtain ⟨lhs, op, rhs⟩ := cut
    obtain ⟨shape, accepted⟩ := splitLast?_eq_some found
    obtain ⟨left, right⟩ := balanced_of_splitLast? (balanced_iff.mpr closed) found
    refine .found ⟨⟨lhs, op.symbol, rhs, shape, rfl, (same _).mpr ⟨op, accepted, rfl⟩,
      balanced_iff.mp left, balanced_iff.mp right⟩, fun position cuts => ?_⟩
    obtain ⟨cut, found', reached⟩ := reaches cuts
    obtain rfl := Option.some.inj (found.symm.trans found')
    exact reached

/-- So both scans cut a balanced text in the same place. -/
theorem splitLast?_eq {accept : BinaryOp → Bool} {operators text : List Char}
    (same : ∀ c, c ∈ operators ↔ ∃ op, accept op = true ∧ BinaryOp.symbol op = c)
    (closed : Balances text) :
    splitLast? accept 0 text = (lastTopLevel? operators text).bind (cutAt? text) := by
  rw [splitLast?_eq_bind,
    (isLast_splitLast? same closed).unique (isLast_lastTopLevel? operators closed)]

theorem exists_binaryOp_iff {p : BinaryOp → Prop} :
    (∃ op, p op) ↔ p .add ∨ p .sub ∨ p .mul ∨ p .div ∨ p .dot ∨ p .cross := by
  constructor
  · rintro ⟨op, h⟩
    cases op <;> simp [h]
  · rintro (h | h | h | h | h | h) <;> exact ⟨_, h⟩

/-- **The reader cuts where the scans from the right find a place**, first for a sum operator. -/
theorem splitOperation?_eq {text : List Char} (closed : Balances text) :
    splitOperation? text =
      (lastTopLevel? ['+', '-'] text <|> lastTopLevel? ['*', '/', '.', 'x'] text).bind
        (cutAt? text) := by
  have sums (c : Char) : c ∈ ['+', '-'] ↔ ∃ op, BinaryOp.isSum op = true ∧ op.symbol = c := by
    simp [exists_binaryOp_iff, BinaryOp.isSum, BinaryOp.symbol, @eq_comm _ c]
  have others (c : Char) : c ∈ ['*', '/', '.', 'x'] ↔
      ∃ op, (fun op => !BinaryOp.isSum op) op = true ∧ op.symbol = c := by
    simp [exists_binaryOp_iff, BinaryOp.isSum, BinaryOp.symbol, @eq_comm _ c]
  have place := (isLast_splitLast? sums closed).unique (isLast_lastTopLevel? _ closed)
  have cut := splitLast?_eq sums closed
  cases found : splitLast? BinaryOp.isSum 0 text with
  | none =>
    rw [found] at place
    rw [splitOperation?_of_isSum_eq_none found, ← place]
    exact splitLast?_eq others closed
  | some parts =>
    rw [found] at place
    rw [← place, found] at cut
    rw [splitOperation?_of_isSum found, ← place]
    exact cut

/-! ## What the reader goes on with -/

/-- The texts that reading a text goes on with: what is inside its pair of parentheses, else what is
on the two sides of its cut, the right one first. -/
def parts (text : List Char) : List (List Char) :=
  if text = [] then []
  else
    match unwrap? text with
    | some inner => [inner]
    | none =>
      match splitOperation? text with
      | some (lhs, _, rhs) => [rhs, lhs]
      | none => []

/-- What a text reads as, if `read` says what other texts read as. -/
def readStep (operands : Nat) (read : List Char → Except ParseError Expr) (text : List Char) :
    Except ParseError Expr :=
  if text = [] then .error .empty
  else
    match unwrap? text with
    | some inner => read inner
    | none =>
      match splitOperation? text with
      | some (lhs, op, rhs) => do
        let right ← read rhs
        let left ← read lhs
        return .binary op left right
      | none => parseTerm operands text

/-- A part is what is inside the pair of parentheses, or one of two sides of a cut. -/
theorem mem_parts {text part : List Char} (h : part ∈ parts text) :
    unwrap? text = some part ∨
      ∃ lhs op rhs, splitOperation? text = some (lhs, op, rhs) ∧ (part = rhs ∨ part = lhs) := by
  unfold parts at h
  split at h
  · contradiction
  split at h
  · rename_i inner unwrapped
    exact Or.inl (List.mem_singleton.mp h ▸ unwrapped)
  split at h
  · rename_i lhs op rhs cut
    exact Or.inr ⟨lhs, op, rhs, cut, by simpa using h⟩
  · contradiction

/-- **A part is shorter.** -/
theorem length_lt_of_mem_parts {text part : List Char} (h : part ∈ parts text) :
    part.length < text.length := by
  rcases mem_parts h with unwrapped | ⟨lhs, op, rhs, cut, side⟩
  · exact length_unwrap? unwrapped
  · rw [splitOperation?_eq_some cut, List.length_append, List.length_cons]
    rcases side with rfl | rfl <;> omega

/-- **A part of a balanced text is balanced.** -/
theorem balances_of_mem_parts {text part : List Char} (closed : Balances text)
    (h : part ∈ parts text) : Balances part := by
  rcases mem_parts h with unwrapped | ⟨lhs, op, rhs, cut, side⟩
  · exact balanced_iff.mp (balanced_of_unwrap? unwrapped)
  · obtain ⟨left, right⟩ := balanced_of_splitOperation? (balanced_iff.mpr closed) cut
    rcases side with rfl | rfl
    · exact balanced_iff.mp right
    · exact balanced_iff.mp left

/-- The reader is not asked for more than the parts. -/
theorem readStep_congr {operands : Nat} {read read' : List Char → Except ParseError Expr}
    {text : List Char} (same : ∀ part ∈ parts text, read part = read' part) :
    readStep operands read text = readStep operands read' text := by
  by_cases empty : text = []
  · rw [readStep, readStep, if_pos empty, if_pos empty]
  rw [parts, if_neg empty] at same
  rw [readStep, readStep, if_neg empty, if_neg empty]
  cases unwrapped : unwrap? text with
  | some inner =>
    rw [unwrapped] at same
    exact same inner List.mem_cons_self
  | none =>
    rw [unwrapped] at same
    cases cut : splitOperation? text with
    | some sides =>
      rw [cut] at same
      have right : read sides.2.2 = read' sides.2.2 := same _ List.mem_cons_self
      have left : read sides.1 = read' sides.1 := same _ (List.mem_cons_of_mem _ List.mem_cons_self)
      simp only [right, left]
    | none => rfl

/-- Reading is the step, again and again. -/
theorem readStep_parseTree (operands : Nat) (text : List Char) :
    readStep operands (parseTree operands) text = parseTree operands text := by
  unfold readStep
  split
  · rename_i empty
    rw [parseTree, if_pos empty]
  · rename_i nonempty
    split
    · rename_i inner unwrapped
      exact (parseTree_of_unwrap? unwrapped).symm
    · rename_i bare
      split
      · rename_i lhs op rhs cut
        exact (parseTree_of_splitOperation? bare cut).symm
      · rename_i uncut
        exact (parseTree_of_term nonempty bare uncut).symm

/-- **The scans mean what they look for on balanced texts.** A balanced text is found wrapped
exactly if it is a pair of parentheses around a balanced text. The scan for a list of operators
finds the greatest place that holds one of them between two balanced texts, and none exactly if
there is no such place. The reader unwraps and cuts as these scans say; whatever texts it goes on
with, however often, are balanced and shorter; and it goes on with no others, as what these read as
decides what the text reads as. -/
theorem scans_of_balances {text : List Char} (closed : Balances text) :
    (isWrapped text = true ↔ ∃ inner, Balances inner ∧ text = '(' :: inner ++ [')']) ∧
    (∀ operators position, lastTopLevel? operators text = some position ↔
      IsGreatest {place | CutsAt operators text place} position) ∧
    (∀ operators, lastTopLevel? operators text = none ↔
      ∀ place, ¬CutsAt operators text place) ∧
    unwrap? text = (if isWrapped text then some text.tail.dropLast else none) ∧
    splitOperation? text =
      (lastTopLevel? ['+', '-'] text <|> lastTopLevel? ['*', '/', '.', 'x'] text).bind
        (cutAt? text) ∧
    (∀ part, Relation.TransGen (fun whole part => part ∈ parts whole) text part →
      Balances part ∧ part.length < text.length) ∧
    ∀ operands read, (∀ part ∈ parts text, read part = parseTree operands part) →
      readStep operands read text = parseTree operands text := by
  have scan operators := isLast_lastTopLevel? operators closed
  refine ⟨isWrapped_iff closed, fun operators _ => (scan operators).eq_some_iff,
    fun operators => (scan operators).eq_none_iff, unwrap?_eq closed, splitOperation?_eq closed,
    fun part reached => ?_, fun operands read same => ?_⟩
  · induction reached with
    | single found => exact ⟨balances_of_mem_parts closed found, length_lt_of_mem_parts found⟩
    | tail _ found ih =>
      exact ⟨balances_of_mem_parts ih.1 found, (length_lt_of_mem_parts found).trans ih.2⟩
  · rw [readStep_congr same, readStep_parseTree]

/-- A product of two sums, which begins and ends with a parenthesis and yet is not wrapped; its
right side is, and what is inside is cut again. -/
theorem scans_of_balances_product :
    let sum : List Char := "\x7b1\x7d-\x7b0\x7d".toList
    let text : List Char := '(' :: "\x7b0\x7d+1".toList ++ ')' :: '*' :: '(' :: sum ++ [')']
    Balances text ∧ isWrapped text = false ∧ lastTopLevel? ['+', '-'] text = none ∧
      (∀ place, ¬CutsAt ['+', '-'] text place) ∧
      lastTopLevel? ['*', '/', '.', 'x'] text = some 7 ∧
      IsGreatest {place | CutsAt ['*', '/', '.', 'x'] text place} 7 ∧
      parts text = ['(' :: sum ++ [')'], '(' :: "\x7b0\x7d+1".toList ++ [')']] ∧
      Balances "\x7b0\x7d".toList ∧ "\x7b0\x7d".toList.length < text.length := by
  intro sum text
  have closed : Balances text := balanced_iff.mp (by decide)
  obtain ⟨-, finds, misses, -, -, reaches, -⟩ := scans_of_balances closed
  have noSum : lastTopLevel? ['+', '-'] text = none := by decide
  have product : lastTopLevel? ['*', '/', '.', 'x'] text = some 7 := by decide
  have steps : Relation.TransGen (fun whole part => part ∈ parts whole) text
      "\x7b0\x7d".toList := by
    refine .tail (.tail (.single (b := '(' :: sum ++ [')']) ?_) (c := sum) ?_) ?_
    · decide
    · decide
    · decide
  exact ⟨closed, by decide, noSum, (misses _).mp noSum, product, (finds _ _).mp product, by decide,
    reaches _ steps⟩

end QuantityAlgebra.Expr
