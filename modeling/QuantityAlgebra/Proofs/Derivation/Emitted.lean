import QuantityAlgebra.Proofs.Expansion.Enumerated
import QuantityAlgebra.Proofs.Expansion.Reached

/-!
# The life of a materializer

A materializer is called with one table or with several, any number of times, and what it has met
before decides what a call yields. How its tables are cut into calls shows nowhere: a life is one
run over all of them (`run_eq`). So over its life it derives, of the tables, the first of each
concrete signature. What it remembers are the signatures of what it has derived, no more and no less
(`mem_seen_all`), hence a table comes to nothing for one of two causes only: it is open, or its
signature was derived before.

A table is open at a slot that the tree refers to and that is not down to one quantity. Among tables
of a signature, however narrowed, these are the groups with any number of candidates but one, as
each candidate is the dimension of a member. In the tables of an expansion there are none.

Results:
* `concreteSignature?_eq_none_iff`, **`exists_concreteSignature?_iff`**: which tables are open.
* `run_eq`, `mem_seen_all`, `map_signature_all`: what a life derives and what it remembers.
* **`run_emits`**: all of it together.
-/

namespace QuantityAlgebra

namespace OperandTable

variable {t u : OperandTable} {e : Expr} {slot : Nat}

/-! ## Open tables -/

/-- The tree refers to the slot, and it is not down to one quantity. -/
def OpenAt (t : OperandTable) (e : Expr) (slot : Nat) : Prop :=
  e.references slot = true ∧ ∃ operand, t.get? slot = some operand ∧ operand.concrete? = none

/-- What is no group is one quantity, and a group that the tree leaves alone stands for itself. -/
theorem concreteAt?_eq_none_iff {operand : Operand} :
    concreteAt? e slot operand = none ↔ e.references slot = true ∧ operand.concrete? = none := by
  cases operand with
  | scalar | vector => simp [concreteAt?, Operand.concrete?]
  | group q members candidates =>
    rw [concreteAt?]
    split <;> simp [*]

/-- **A table has no concrete signature exactly if it is open at a slot.** -/
theorem concreteSignature?_eq_none_iff :
    t.concreteSignature? e = none ↔ ∃ slot, t.OpenAt e slot := by
  rw [concreteSignature?, mapM_eq_none_iff]
  constructor
  · rintro ⟨⟨operand, slot⟩, found, missing⟩
    obtain ⟨referenced, missing⟩ := concreteAt?_eq_none_iff.mp missing
    exact ⟨slot, referenced, operand, List.mem_zipIdx_iff_getElem?.mp found, missing⟩
  · rintro ⟨slot, referenced, operand, found, missing⟩
    exact ⟨(operand, slot), List.mem_zipIdx_iff_getElem?.mpr found,
      concreteAt?_eq_none_iff.mpr ⟨referenced, missing⟩⟩

/-- A group that is down to one quantity has one candidate. -/
theorem exists_single_of_not_openAt (member : slot ∈ t.referencedGroupSlots e)
    (closed : ¬t.OpenAt e slot) : ∃ d, t.candidates slot = .single d := by
  obtain ⟨q, members, candidates, found⟩ := exists_group_of_mem member
  have referenced := (mem_referencedGroupSlots.mp member).2
  rw [candidates_of_get? found]
  cases single : candidates.single? with
  | some d => exact ⟨d, DimensionSet.single?_eq_some.mp single⟩
  | none =>
    exact absurd ⟨referenced, _, found, by simp [Operand.concrete?, single]⟩ closed

/-- **With members for the candidates, the concrete signature is there once each group of the tree
has one candidate.** -/
theorem exists_concreteSignature?_iff (membered : t.Membered) :
    (∃ signature, t.concreteSignature? e = some signature) ↔
      ∀ slot ∈ t.referencedGroupSlots e, ∃ d, t.candidates slot = .single d := by
  constructor
  · rintro ⟨signature, concrete⟩ slot member
    refine exists_single_of_not_openAt member fun isOpen => ?_
    rw [concreteSignature?_eq_none_iff.mpr ⟨slot, isOpen⟩] at concrete
    contradiction
  · intro single
    choose! choice settled using single
    exact ⟨_, concreteSignature?_settled settled membered⟩

/-- **No table of an expansion is open.** -/
theorem exists_concreteSignature?_of_mem_expand (membered : t.Membered) (found : u ∈ t.expand e) :
    ∃ signature, u.concreteSignature? e = some signature := by
  obtain ⟨choice, admitted, rfl, -⟩ := mem_expand.mp found
  exact ⟨_, (narrows_assign admitted).concreteSignature?_settled (settled_assign admitted) membered⟩

end OperandTable

namespace Materializer

variable {t : OperandTable} {s : Signature}

/-! ## Calls -/

/-- A call of a materializer, with one table (`materialize`) or with several (`materialize_all`). -/
inductive Call
  | one (t : OperandTable)
  | every (ts : List OperandTable)

/-- The tables of a call. -/
def Call.tables : Call → List OperandTable
  | .one t => [t]
  | .every ts => ts

/-- What a call yields, and the materializer after it. -/
def call (m : Materializer) : Call → List Derivation × Materializer
  | .one t => ((m.step t).1.toList, (m.step t).2)
  | .every ts => m.all ts

/-- What calls yield, one after the other, and the materializer after them. -/
def run (m : Materializer) : List Call → List Derivation × Materializer
  | [] => ([], m)
  | c :: cs =>
    let (derivations, next) := m.call c
    let (rest, last) := next.run cs
    (derivations ++ rest, last)

theorem call_eq (m : Materializer) (c : Call) : m.call c = m.all c.tables := by
  cases c with
  | one t => simp [call, Call.tables, all]
  | every ts => rfl

/-- **How tables are cut into calls shows nowhere.** -/
theorem run_eq (m : Materializer) (calls : List Call) :
    m.run calls = m.all (calls.flatMap Call.tables) := by
  induction calls generalizing m with
  | nil => rfl
  | cons c cs ih => rw [List.flatMap_cons, all_append, ← call_eq, ← ih, run]

/-! ## What is remembered -/

theorem expr_step (m : Materializer) (t : OperandTable) : (m.step t).2.expr = m.expr := by
  obtain ⟨-, stepped⟩ | ⟨s, -, -, stepped⟩ | ⟨s, -, -, stepped⟩ := m.step_cases t <;> rw [stepped]

theorem expr_all (m : Materializer) (ts : List OperandTable) : (m.all ts).2.expr = m.expr := by
  induction ts generalizing m with
  | nil => rfl
  | cons t ts ih => exact (ih _).trans (m.expr_step t)

/-- A step remembers the signature of what it derives. -/
theorem mem_seen_step (m : Materializer) (t : OperandTable) :
    s ∈ (m.step t).2.seen ↔ s ∈ m.seen ∨ ∃ x ∈ (m.step t).1.toList, x.signature = s := by
  obtain ⟨-, stepped⟩ | ⟨s, -, -, stepped⟩ | ⟨s, -, -, stepped⟩ := m.step_cases t
  · simp [stepped]
  · simp [stepped]
  · simp [stepped, Expr.derivation, or_comm, eq_comm]

/-- **Remembered are the signatures of what is derived.** -/
theorem mem_seen_all (m : Materializer) (ts : List OperandTable) :
    s ∈ (m.all ts).2.seen ↔ s ∈ m.seen ∨ ∃ x ∈ (m.all ts).1, x.signature = s := by
  induction ts generalizing m with
  | nil => simp [all]
  | cons t ts ih => simp only [all, ih, mem_seen_step, List.mem_append, or_and_right, exists_or,
      or_assoc]

/-- A table comes to nothing if it is open or its signature was met before. -/
theorem step_eq_none_iff (m : Materializer) (t : OperandTable) :
    (m.step t).1 = none ↔
      (∃ slot, t.OpenAt m.expr slot) ∨ ∃ s ∈ m.seen, t.concreteSignature? m.expr = some s := by
  rw [← OperandTable.concreteSignature?_eq_none_iff]
  obtain ⟨concrete, stepped⟩ | ⟨s, seen, concrete, stepped⟩ | ⟨s, fresh, concrete, stepped⟩ :=
    m.step_cases t
  · simp [stepped, concrete]
  · simp [stepped, concrete, seen]
  · simp [stepped, concrete, fresh]

/-! ## What is derived -/

/-- The signatures that a materializer which has met nothing derives are the concrete ones of the
tables, each where it occurs first. -/
theorem map_signature_all (e : Expr) (config : Config) (ts : List OperandTable) :
    (Materializer.all { expr := e, config } ts).1.map Derivation.signature =
      distinct (ts.filterMap fun t => t.concreteSignature? e) := by
  have signatures : (OperandTable.resolved e ts).map Prod.snd =
      ts.filterMap fun t => t.concreteSignature? e := by
    rw [OperandTable.resolved, List.map_filterMap]
    simp [Option.map_map, Function.comp_def]
  rw [all_eq, List.filter_eq_self.mpr fun _ _ => decide_eq_true List.not_mem_nil, List.map_map,
    ← signatures, distinct, distinctBy_map]
  rfl

/-- **A materializer emits each concrete signature once over its life.** Whatever tables it is
called with, and in whatever calls, the signatures of what it derives are the concrete ones of the
tables, each where it occurs first. After that a table comes to nothing exactly if it is open or its
signature was derived before, and an open one leaves the materializer as it was. Of the tables that
narrowing reaches from a signature, those have a concrete one in which each group of the tree has
one candidate, and all that expansion makes of them have one. -/
theorem run_emits (e : Expr) (config : Config) (calls : List Call) :
    let life := Materializer.run { expr := e, config } calls
    life.1.map Derivation.signature =
        distinct ((calls.flatMap Call.tables).filterMap fun t => t.concreteSignature? e) ∧
      (∀ t, (life.2.step t).1 = none ↔ (∃ slot, t.OpenAt e slot) ∨
        ∃ x ∈ life.1, t.concreteSignature? e = some x.signature) ∧
      (∀ t slot, t.OpenAt e slot → life.2.step t = (none, life.2)) ∧
      ∀ classifier signature t, OperandTable.Reached classifier signature t →
        ((∃ s, t.concreteSignature? e = some s) ↔
          ∀ slot ∈ t.referencedGroupSlots e, ∃ d, t.candidates slot = .single d) ∧
        ∀ u ∈ t.expand e, ∃ s, u.concreteSignature? e = some s := by
  intro life
  have flat : life = Materializer.all { expr := e, config } (calls.flatMap Call.tables) :=
    run_eq _ calls
  have same : life.2.expr = e := by rw [flat, expr_all]
  refine ⟨?_, fun t => ?_, fun t slot isOpen => ?_, fun classifier signature t reached => ?_⟩
  · rw [flat, map_signature_all]
  · rw [step_eq_none_iff, same, flat]
    refine or_congr_right ?_
    simp [mem_seen_all, and_comm, eq_comm]
  · refine step_unresolved ?_
    rw [same]
    exact OperandTable.concreteSignature?_eq_none_iff.mpr ⟨slot, isOpen⟩
  · exact ⟨OperandTable.exists_concreteSignature?_iff reached.membered,
      fun u => OperandTable.exists_concreteSignature?_of_mem_expand reached.membered⟩

/-- A sum of a group with itself: a table alone, then three in one call, of which the first is open
and the last was met before. -/
theorem run_emits_open_and_repeated :
    let position : Quantity := ⟨"m", "Position"⟩
    let members : DimensionMap Quantity :=
      .ofList [(2, ⟨"m", "Position2"⟩), (3, ⟨"m", "Position3"⟩)]
    let classifier : Classifier := fun q => if q = position then .group members else .scalar
    let t := OperandTable.classify classifier [position]
    let e : Expr := .binary .add (.slot 0) (.slot 0)
    let life := Materializer.run { expr := e, config := {} }
      [.one (t.fix 0 3), .every [t, t.fix 0 2, t.fix 0 3]]
    life.1.map Derivation.signature = [[⟨"m", "Position3"⟩], [⟨"m", "Position2"⟩]] ∧
      t.OpenAt e 0 ∧ life.2.step t = (none, life.2) ∧ (life.2.step (t.fix 0 2)).1 = none ∧
      t.expand e = [t.fix 0 2, t.fix 0 3] ∧
      ∀ u ∈ t.expand e, ∃ s, u.concreteSignature? e = some s := by
  intro position members classifier t e life
  obtain ⟨emitted, dropped, unchanged, whole⟩ :=
    run_emits e {} [.one (t.fix 0 3), .every [t, t.fix 0 2, t.fix 0 3]]
  have isOpen : t.OpenAt e 0 := ⟨by decide, _, rfl, by decide⟩
  refine ⟨emitted.trans (by decide), isOpen, unchanged t 0 isOpen, (dropped _).mpr (Or.inr ?_),
    by decide, (whole classifier [position] t .classified).2⟩
  have met : [⟨"m", "Position2"⟩] ∈ life.1.map Derivation.signature := by
    rw [emitted]
    decide
  obtain ⟨x, found, same⟩ := List.mem_map.mp met
  exact ⟨x, found, by rw [same]; decide⟩

end Materializer

end QuantityAlgebra
