import Mathlib.Data.List.TakeWhile
import QuantityAlgebra.Expr.Grammar
import QuantityAlgebra.Proofs.Expr.Brackets

/-!
# The reader follows the grammar

`parseTree` goes by the outermost shape of a text, the grammar by its levels. They agree. The text
of a derivation is balanced, a product has no sum operator outside parentheses and an atom has no
operator there at all, so the place where the reader cuts is the place where the derivation has its
root. The converse needs no balance: each step of the reader that succeeds is a rule of the grammar,
at the loosest level that its cut allows.

Results:
* `ParseTree.balanced_text`, **`ParseTree.splitLast?_sum`**, `ParseTree.splitLast?_product`: the
  text of a derivation is balanced, and is cut at the root of the derivation.
* **`ParseTree.unambiguous`**: a text has one derivation at each level.
* **`parseTree_text`**: the text of a derivation that fits reads as its tree.
* **`derived_of_parseTree`**: what reads as a tree is the text of a derivation of it.
* **`parse_eq_ok_iff`**: the two together, over every text and every number of operands.
-/

namespace QuantityAlgebra

/-! ## Terms -/

namespace Expr

/-- The terms that name a slot: some digits in braces. -/
theorem placeholder?_eq_some {term : List Char} {index : Nat} :
    placeholder? term = some index ↔
      ∃ digits, digits ≠ [] ∧ (∀ c ∈ digits, c.isDigit = true) ∧ term = '{' :: digits ++ ['}'] ∧
        Nat.ofDigitChars 10 digits 0 = index := by
  constructor
  · intro h
    unfold placeholder? at h
    split at h
    · rename_i rest
      simp only [Option.ite_none_right_eq_some, Option.some.injEq] at h
      obtain ⟨⟨nonempty, closes⟩, value⟩ := h
      refine ⟨rest.takeWhile Char.isDigit, nonempty, ?_, ?_, value⟩
      · exact fun c hc => List.mem_takeWhile_imp hc
      · rw [List.cons_append, ← closes, List.takeWhile_append_dropWhile]
    · contradiction
  · rintro ⟨digits, nonempty, isDigit, rfl, rfl⟩
    have before : (digits ++ ['}']).takeWhile Char.isDigit = digits := by
      rw [List.takeWhile_append_of_pos isDigit]
      simp [show Char.isDigit '}' = false from rfl]
    have behind : (digits ++ ['}']).dropWhile Char.isDigit = ['}'] := by
      rw [List.dropWhile_append_of_pos isDigit]
      rfl
    simp [placeholder?, before, behind, nonempty]

theorem ofSymbol?_of_isDigit {c : Char} (h : c.isDigit = true) : BinaryOp.ofSymbol? c = none := by
  cases found : BinaryOp.ofSymbol? c with
  | none => rfl
  | some op =>
    rw [BinaryOp.ofSymbol?_eq_some.mp found] at h
    cases op <;> contradiction

end Expr

namespace ParseTree

open QuantityAlgebra.Expr

variable {level : Level}

/-! ## The text of a derivation -/

/-- Every character of a derived text is permitted. -/
theorem isPermitted_of_mem_text (p : ParseTree level) : ∀ c ∈ p.text, isPermitted c = true := by
  induction p with
  | ofProduct _ ih | ofAtom _ ih => exact ih
  | sum _ op _ _ ihl ihr | product _ op _ _ ihl ihr =>
    simp only [text, List.forall_mem_append, List.forall_mem_cons]
    exact ⟨ihl, by cases op <;> rfl, ihr⟩
  | parentheses _ ih =>
    simp only [text, List.forall_mem_append, List.forall_mem_cons]
    exact ⟨⟨rfl, ih⟩, rfl, by simp⟩
  | placeholder digits _ isDigit =>
    simp only [text, List.forall_mem_append, List.forall_mem_cons]
    exact ⟨⟨rfl, fun c hc => by simp [isPermitted, isDigit c hc]⟩, rfl, by simp⟩
  | one => simp [text, isPermitted]

/-- **A derived text is balanced.** -/
theorem balanced_text (p : ParseTree level) : balanced p.text = true := by
  induction p with
  | ofProduct _ ih | ofAtom _ ih => exact ih
  | sum _ op _ _ ihl ihr | product _ op _ _ ihl ihr => exact balanced_joined ihl ihr op
  | parentheses _ ih => exact balanced_parentheses ih
  | placeholder digits _ isDigit =>
    refine balanced_of_forall fun c hc => ?_
    have cases : c = '{' ∨ c ∈ digits ∨ c = '}' := by simpa [text] using hc
    rcases cases with rfl | inside | rfl
    · decide
    · have := isDigit c inside
      constructor <;> rintro rfl <;> contradiction
    · decide
  | one => rfl

/-! ## Where the text of a derivation is cut -/

/-- An atom is cut nowhere. -/
theorem splitLast?_atom (p : ParseTree .atom) (accept : BinaryOp → Bool) :
    splitLast? accept 0 p.text = none := by
  cases p with
  | parentheses inner => exact splitLast?_parentheses inner.balanced_text accept
  | placeholder digits _ isDigit =>
    refine splitLast?_eq_none_of_forall (fun c hc => ?_) accept 0
    have cases : c = '{' ∨ c ∈ digits ∨ c = '}' := by simpa [text] using hc
    rcases cases with rfl | inside | rfl
    · rfl
    · exact ofSymbol?_of_isDigit (isDigit c inside)
    · rfl
  | one => rfl

/-- The left operand and the right one of the last product, with the operator between them. -/
def lastProduct : ParseTree .product → Option (List Char × BinaryOp × List Char)
  | .ofAtom _ => none
  | .product lhs op _ rhs => some (lhs.text, op, rhs.text)

/-- The left operand and the right one of the last sum, with the operator between them. -/
def lastSum : ParseTree .sum → Option (List Char × BinaryOp × List Char)
  | .ofProduct _ => none
  | .sum lhs op _ rhs => some (lhs.text, op, rhs.text)

/-- **A product is cut at its last operator**, when sums are passed over. -/
theorem splitLast?_product (p : ParseTree .product) :
    splitLast? (fun op => !op.isSum) 0 p.text = p.lastProduct := by
  cases p with
  | ofAtom atom => exact splitLast?_atom atom _
  | product lhs op isProduct rhs =>
    rw [text, splitLast?_joined (foldl_depthAfter lhs.balanced_text 0), splitLast?_atom]
    simp [isProduct, lastProduct]

/-- No sum operator of a product is outside all parentheses. -/
theorem splitLast?_isSum_product : ∀ p : ParseTree .product,
    splitLast? BinaryOp.isSum 0 p.text = none
  | .ofAtom atom => splitLast?_atom atom _
  | .product lhs op isProduct rhs => by
    rw [text, splitLast?_joined (foldl_depthAfter lhs.balanced_text 0), splitLast?_atom,
      splitLast?_isSum_product lhs]
    simp [isProduct]

/-- **A sum is cut at its last operator.** -/
theorem splitLast?_sum (p : ParseTree .sum) :
    splitLast? BinaryOp.isSum 0 p.text = p.lastSum := by
  cases p with
  | ofProduct product => exact splitLast?_isSum_product product
  | sum lhs op isSum rhs =>
    rw [text, splitLast?_joined (foldl_depthAfter lhs.balanced_text 0), splitLast?_isSum_product]
    simp [isSum, lastSum]

/-- Sums of one text have one last operation. -/
theorem lastSum_eq {p q : ParseTree .sum} (h : p.text = q.text) : p.lastSum = q.lastSum := by
  rw [← splitLast?_sum, h, splitLast?_sum]

theorem lastProduct_eq {p q : ParseTree .product} (h : p.text = q.text) :
    p.lastProduct = q.lastProduct := by
  rw [← splitLast?_product, h, splitLast?_product]

/-- **The grammar is unambiguous**: a text has one derivation at each level. -/
theorem unambiguous (p q : ParseTree level) (h : p.text = q.text) : p = q := by
  induction p with
  | ofProduct p ih =>
    cases q with
    | ofProduct q => rw [ih q h]
    | sum => exact absurd (lastSum_eq h) (by simp [lastSum])
  | sum lhs op isSum rhs ihl ihr =>
    cases q with
    | ofProduct q => exact absurd (lastSum_eq h) (by simp [lastSum])
    | sum lhs' op' isSum' rhs' =>
      have cuts := lastSum_eq h
      simp only [lastSum, Option.some.injEq, Prod.mk.injEq] at cuts
      obtain ⟨hl, rfl, hr⟩ := cuts
      rw [ihl lhs' hl, ihr rhs' hr]
  | ofAtom p ih =>
    cases q with
    | ofAtom q => rw [ih q h]
    | product => exact absurd (lastProduct_eq h) (by simp [lastProduct])
  | product lhs op isProduct rhs ihl ihr =>
    cases q with
    | ofAtom q => exact absurd (lastProduct_eq h) (by simp [lastProduct])
    | product lhs' op' isProduct' rhs' =>
      have cuts := lastProduct_eq h
      simp only [lastProduct, Option.some.injEq, Prod.mk.injEq] at cuts
      obtain ⟨hl, rfl, hr⟩ := cuts
      rw [ihl lhs' hl, ihr rhs' hr]
  | parentheses inner ih =>
    cases q with
    | parentheses inner' => rw [ih inner' (by simpa [text] using h)]
    | placeholder | one => simp [text] at h
  | placeholder digits nonempty isDigit =>
    cases q with
    | placeholder digits' =>
      obtain rfl : digits = digits' := by simpa [text] using h
      rfl
    | parentheses | one => simp [text] at h
  | one =>
    cases q with
    | one => rfl
    | parentheses | placeholder => simp [text] at h

end ParseTree

namespace Expr

/-! ## One step of the reader -/

variable {operands : Nat}

theorem parseTree_of_unwrap? {text inner : List Char} (h : unwrap? text = some inner) :
    parseTree operands text = parseTree operands inner := by
  have nonempty : text ≠ [] := by
    rintro rfl
    simp [unwrap?] at h
  rw [parseTree, if_neg nonempty]
  grind

theorem parseTree_of_splitOperation? {text lhs rhs : List Char} {op : BinaryOp}
    (bare : unwrap? text = none) (cut : splitOperation? text = some (lhs, op, rhs)) :
    parseTree operands text = (do
      let right ← parseTree operands rhs
      let left ← parseTree operands lhs
      return .binary op left right) := by
  have nonempty : text ≠ [] := by
    rintro rfl
    simp [splitOperation?, splitLast?] at cut
  rw [parseTree, if_neg nonempty]
  grind

theorem parseTree_of_term {text : List Char} (nonempty : text ≠ []) (bare : unwrap? text = none)
    (uncut : splitOperation? text = none) :
    parseTree operands text = parseTerm operands text := by
  rw [parseTree, if_neg nonempty]
  grind

/-! ## From the grammar to the reader -/

theorem splitOperation?_of_isSum {text : List Char} {cut : List Char × BinaryOp × List Char}
    (h : splitLast? BinaryOp.isSum 0 text = some cut) : splitOperation? text = some cut := by
  rw [splitOperation?, h]
  rfl

theorem splitOperation?_of_isSum_eq_none {text : List Char}
    (h : splitLast? BinaryOp.isSum 0 text = none) :
    splitOperation? text = splitLast? (fun op => !op.isSum) 0 text := by
  rw [splitOperation?, h]
  rfl

theorem splitOperation?_atom (p : ParseTree .atom) : splitOperation? p.text = none := by
  rw [splitOperation?_of_isSum_eq_none (p.splitLast?_atom _)]
  exact p.splitLast?_atom _

theorem unwrap?_joined {level level' : Level} (p : ParseTree level) (op : BinaryOp)
    (q : ParseTree level') : unwrap? (p.text ++ op.symbol :: q.text) = none :=
  unwrap?_append p.balanced_text p.text_ne_nil (by simp)

/-- **The text of a derivation that fits reads as its tree.** -/
theorem parseTree_text {level : Level} (p : ParseTree level) (fits : p.Fits operands) :
    parseTree operands p.text = .ok p.expr := by
  induction p with
  | ofProduct _ ih | ofAtom _ ih => exact ih fits
  | sum lhs op isSum rhs ihl ihr =>
    have cut := splitOperation?_of_isSum (ParseTree.splitLast?_sum (.sum lhs op isSum rhs))
    rw [ParseTree.text, parseTree_of_splitOperation? (unwrap?_joined lhs op rhs) cut, ihr fits.2,
      ihl fits.1]
    rfl
  | product lhs op isProduct rhs ihl ihr =>
    have cut := splitOperation?_of_isSum_eq_none
      (ParseTree.splitLast?_isSum_product (.product lhs op isProduct rhs))
    rw [ParseTree.splitLast?_product] at cut
    rw [ParseTree.text, parseTree_of_splitOperation? (unwrap?_joined lhs op rhs) cut, ihr fits.2,
      ihl fits.1]
    rfl
  | parentheses inner ih =>
    rw [ParseTree.text, parseTree_of_unwrap? (unwrap?_parentheses inner.balanced_text)]
    exact ih fits
  | placeholder digits nonempty isDigit =>
    have uncut := splitOperation?_atom (.placeholder digits nonempty isDigit)
    have named : placeholder? ('{' :: digits ++ ['}']) = some (Nat.ofDigitChars 10 digits 0) :=
      placeholder?_eq_some.mpr ⟨digits, nonempty, isDigit, rfl, rfl⟩
    rw [ParseTree.text] at uncut ⊢
    rw [parseTree_of_term (by simp) rfl uncut, parseTerm, if_neg (by simp), named]
    exact if_pos fits
  | one =>
    rw [ParseTree.text, parseTree_of_term (by simp) rfl rfl]
    rfl

/-! ## From the reader to the grammar -/

/-- Some derivation at a level has the text, fits, and stands for the tree. -/
def Derives (level : Level) (operands : Nat) (text : List Char) (e : Expr) : Prop :=
  ∃ p : ParseTree level, p.text = text ∧ p.Fits operands ∧ p.expr = e

/-- What the reader establishes of a text: a derivation at the loosest level, and one at a tighter
level if the text has none of the operators that only a looser one may have outside parentheses. -/
structure Derived (operands : Nat) (text : List Char) (e : Expr) : Prop where
  sum : Derives .sum operands text e
  product : splitLast? BinaryOp.isSum 0 text = none → Derives .product operands text e
  atom : splitLast? BinaryOp.isSum 0 text = none →
    splitLast? (fun op => !op.isSum) 0 text = none → Derives .atom operands text e

variable {text : List Char} {e : Expr}

theorem Derives.ofAtom : Derives .atom operands text e → Derives .product operands text e
  | ⟨p, h⟩ => ⟨.ofAtom p, h⟩

theorem Derives.ofProduct : Derives .product operands text e → Derives .sum operands text e
  | ⟨p, h⟩ => ⟨.ofProduct p, h⟩

theorem Derives.derived (h : Derives .atom operands text e) : Derived operands text e :=
  ⟨h.ofAtom.ofProduct, fun _ => h.ofAtom, fun _ _ => h⟩

theorem Derives.parentheses (h : Derives .sum operands text e) :
    Derives .atom operands ('(' :: text ++ [')']) e := by
  obtain ⟨p, rfl, fits, tree⟩ := h
  exact ⟨.parentheses p, rfl, fits, tree⟩

/-- Two operands of a sum operator, joined by it. -/
theorem Derives.joinSum {lhs rhs : List Char} {left right : Expr} {op : BinaryOp}
    (isSum : op.isSum = true) (hl : Derives .sum operands lhs left)
    (hr : Derives .product operands rhs right) :
    Derives .sum operands (lhs ++ op.symbol :: rhs) (.binary op left right) := by
  obtain ⟨p, rfl, pfits, rfl⟩ := hl
  obtain ⟨q, rfl, qfits, rfl⟩ := hr
  exact ⟨.sum p op isSum q, rfl, ⟨pfits, qfits⟩, rfl⟩

/-- Two operands of another operator, joined by it. -/
theorem Derives.joinProduct {lhs rhs : List Char} {left right : Expr} {op : BinaryOp}
    (isProduct : op.isSum = false) (hl : Derives .product operands lhs left)
    (hr : Derives .atom operands rhs right) :
    Derives .product operands (lhs ++ op.symbol :: rhs) (.binary op left right) := by
  obtain ⟨p, rfl, pfits, rfl⟩ := hl
  obtain ⟨q, rfl, qfits, rfl⟩ := hr
  exact ⟨.product p op isProduct q, rfl, ⟨pfits, qfits⟩, rfl⟩

/-- The rule of the grammar that a cut at an operator is. -/
theorem Derived.join {lhs rhs : List Char} {left right : Expr} {op : BinaryOp}
    (cut : splitOperation? text = some (lhs, op, rhs)) (hl : Derived operands lhs left)
    (hr : Derived operands rhs right) : Derived operands text (.binary op left right) := by
  obtain rfl := splitOperation?_eq_some cut
  cases sums : splitLast? BinaryOp.isSum 0 (lhs ++ op.symbol :: rhs) with
  | some found =>
    -- A sum: nothing behind the cut is one, so the right operand is a product.
    obtain rfl : found = (lhs, op, rhs) := by
      rw [splitOperation?_of_isSum sums] at cut
      exact Option.some.inj cut
    have isSum := (splitLast?_eq_some sums).2
    have behind := (depth_and_rhs_of_splitLast? sums).2
    exact ⟨hl.sum.joinSum isSum (hr.product behind), by simp [sums], by simp [sums]⟩
  | none =>
    -- No sum on either side; behind the cut there is no other operator either.
    rw [splitOperation?_of_isSum_eq_none sums] at cut
    have isProduct : op.isSum = false := by simpa using (splitLast?_eq_some cut).2
    obtain ⟨closed, behind⟩ := depth_and_rhs_of_splitLast? cut
    obtain ⟨noSumLeft, noSumRight⟩ := splitLast?_parts closed sums
    have joined := (hl.product noSumLeft).joinProduct isProduct (hr.atom noSumRight behind)
    exact ⟨joined.ofProduct, fun _ => joined, by simp [cut]⟩

theorem derives_of_parseTerm (h : parseTerm operands text = .ok e) :
    Derives .atom operands text e := by
  unfold parseTerm at h
  split at h
  · rename_i isOne
    obtain rfl := Except.ok.inj h
    exact ⟨.one, isOne.symm, trivial, rfl⟩
  · split at h
    · rename_i index named
      obtain ⟨digits, nonempty, isDigit, rfl, rfl⟩ := placeholder?_eq_some.mp named
      split at h
      · rename_i below
        obtain rfl := Except.ok.inj h
        exact ⟨.placeholder digits nonempty isDigit, rfl, below, rfl⟩
      · split at h <;> contradiction
    · contradiction

theorem bind_eq_ok {ε α β : Type} {x : Except ε α} {f : α → Except ε β} {b : β} :
    x >>= f = .ok b ↔ ∃ a, x = .ok a ∧ f a = .ok b := by
  cases x with
  | ok a => exact ⟨fun h => ⟨a, rfl, h⟩, fun ⟨_, ha, h⟩ => Except.ok.inj ha ▸ h⟩
  | error => simp [bind, Except.bind]

/-- **What reads as a tree is the text of a derivation of it.** -/
theorem derived_of_parseTree (h : parseTree operands text = .ok e) : Derived operands text e := by
  fun_induction parseTree operands text generalizing e with
  | case1 => contradiction
  | case2 text nonempty inner wrapped ih =>
    rw [eq_of_unwrap?_eq_some wrapped]
    exact (ih h).sum.parentheses.derived
  | case3 text nonempty bare lhs op rhs cut ihr ihl =>
    rw [bind_eq_ok] at h
    obtain ⟨right, readRight, h⟩ := h
    rw [bind_eq_ok] at h
    obtain ⟨left, readLeft, h⟩ := h
    obtain rfl := Except.ok.inj h
    exact (ihl readLeft).join cut (ihr readRight)
  | case4 text nonempty bare uncut => exact (derives_of_parseTerm h).derived

/-- What stands before the reader: blanks dropped, permitted characters alone, balanced. -/
theorem parse_of_readable {text : List Char}
    (permitted : ∀ c ∈ Text.strip text, isPermitted c = true)
    (closed : balanced (Text.strip text) = true) (operands : Nat) :
    parse text operands = parseTree operands (Text.strip text) := by
  have none : (Text.strip text).find? (fun c => !isPermitted c) = none := by
    simpa using permitted
  simp [parse, none, closed]

theorem derives_of_parse (h : parse text operands = .ok e) :
    Derives .sum operands (Text.strip text) e := by
  unfold parse at h
  simp only at h
  split at h
  · contradiction
  · split at h
    · exact (derived_of_parseTree h).sum
    · contradiction

theorem parse_of_derives (h : Derives .sum operands (Text.strip text) e) :
    parse text operands = .ok e := by
  obtain ⟨p, derived, fits, rfl⟩ := h
  rw [parse_of_readable, ← derived]
  · exact parseTree_text p fits
  · exact derived ▸ p.isPermitted_of_mem_text
  · exact derived ▸ p.balanced_text

/-- **The reader accepts the expressions of the grammar and no other text**: over any number of
operands a text reads as a tree exactly if, without its blanks, it derives from the grammar with
every placeholder in range and the tree is that of the derivation; and a text has one derivation. -/
theorem parse_eq_ok_iff (text : List Char) (operands : Nat) (e : Expr) :
    (parse text operands = .ok e ↔
      ∃ p : ParseTree .sum, p.text = Text.strip text ∧ p.Fits operands ∧ p.expr = e) ∧
    ∀ p q : ParseTree .sum, p.text = q.text → p = q :=
  ⟨⟨derives_of_parse, parse_of_derives⟩, ParseTree.unambiguous⟩

end Expr

end QuantityAlgebra
