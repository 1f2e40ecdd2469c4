import QuantityAlgebra.Proofs.Operand.Narrows
import QuantityAlgebra.Typing.Verification

/-!
# Verification is typing

A table is settled for a tree under a choice if each group slot that the tree refers to is down to
the chosen dimension. Over such a table the three functions of the checker say what the typing
relation says: `kind` and `dimensions` report the type, and `verifies` holds of the trees that have
one. There is one exception, a tree that is nothing but a slot beyond the table. It has no type, and
yet no operation in it is inconsistent, so `Accepts` lets it through.

The rules for operations are gathered in `ExprType.combine?`, the type of an operation as a function
of the types of its sides; every case analysis on operators is made there once.

Results:
* `hasType_binary_iff`: an operation has the type that `combine?` gives for the types of its sides.
* `typeAt?_eq_some`: the type of a tree can be computed.
* `kind_eq_of_hasType`, `dimensions_eq_of_hasType`: what the checker infers is the type.
* **`verifies_iff_accepts`**: over a settled table the verified trees are the accepted ones.
-/

namespace QuantityAlgebra

namespace ExprType

/-- The kind of what has the type. -/
def kind : ExprType → Kind
  | .scalar => .scalar
  | .vector _ => .vector

/-- The dimensions of what has the type: a vector has one, a scalar none. -/
def dimensions : ExprType → DimensionSet
  | .scalar => ∅
  | .vector d => .single d

/-- The dimension of a vector. -/
def dimension? : ExprType → Option Dimension
  | .scalar => none
  | .vector d => some d

/-- The type of an operation on two types, nothing if it does not fit them. -/
def combine? : BinaryOp → ExprType → ExprType → Option ExprType
  | .add, σ, ρ | .sub, σ, ρ => if σ = ρ then some σ else none
  | .mul, .scalar, ρ => some ρ
  | .mul, .vector d, .scalar => some (.vector d)
  | .div, σ, .scalar => some σ
  | .dot, .vector d, .vector d' => if d = d' then some .scalar else none
  | .cross, .vector d, .vector d' =>
    if d = crossDimension ∧ d' = crossDimension then some (.vector crossDimension) else none
  | _, _, _ => none

@[simp] theorem single?_dimensions (τ : ExprType) : τ.dimensions.single? = τ.dimension? := by
  cases τ <;> rfl

theorem kind_ne_invalid (τ : ExprType) : τ.kind ≠ .invalid := by
  cases τ <;> exact fun h => nomatch h

/-- The kind of an operation is the kind of its type. -/
theorem kind_combine {op : BinaryOp} {σ ρ τ : ExprType} (h : combine? op σ ρ = some τ) :
    Kind.combine op σ.kind ρ.kind = τ.kind := by
  cases op <;> cases σ <;> cases ρ <;> simp [combine?] at h <;> try (subst h; rfl)
  all_goals obtain ⟨-, rfl⟩ := h; rfl

end ExprType

variable {t : OperandTable} {choice : Choice} {e lhs rhs : Expr} {op : BinaryOp} {τ : ExprType}

/-- **The rules in one**: an operation has the type its sides' types combine to. -/
theorem hasType_binary_iff : HasType t choice (.binary op lhs rhs) τ ↔
    ∃ σ ρ, HasType t choice lhs σ ∧ HasType t choice rhs ρ ∧ ExprType.combine? op σ ρ = some τ := by
  constructor
  · intro typed
    cases typed with
    | add l r => exact ⟨_, _, l, r, by simp [ExprType.combine?]⟩
    | sub l r => exact ⟨_, _, l, r, by simp [ExprType.combine?]⟩
    | scaleRight l r => exact ⟨_, _, l, r, by simp [ExprType.combine?]⟩
    | scaleLeft l r => exact ⟨_, _, l, r, by cases τ <;> rfl⟩
    | div l r => exact ⟨_, _, l, r, by cases τ <;> rfl⟩
    | dot l r => exact ⟨_, _, l, r, by simp [ExprType.combine?]⟩
    | cross l r => exact ⟨_, _, l, r, by simp [ExprType.combine?]⟩
  · rintro ⟨σ, ρ, l, r, fits⟩
    cases op with
    | add =>
      obtain ⟨rfl, rfl⟩ : σ = ρ ∧ σ = τ := by simpa [ExprType.combine?] using fits
      exact .add l r
    | sub =>
      obtain ⟨rfl, rfl⟩ : σ = ρ ∧ σ = τ := by simpa [ExprType.combine?] using fits
      exact .sub l r
    | mul =>
      cases σ <;> cases ρ <;> simp [ExprType.combine?] at fits <;> subst fits
      · exact .scaleRight l r
      · exact .scaleRight l r
      · exact .scaleLeft l r
    | div =>
      cases σ <;> cases ρ <;> simp [ExprType.combine?] at fits <;> subst fits
      · exact .div l r
      · exact .div l r
    | dot =>
      cases σ <;> cases ρ <;> simp [ExprType.combine?] at fits
      obtain ⟨rfl, rfl⟩ := fits
      exact .dot l r
    | cross =>
      cases σ <;> cases ρ <;> simp [ExprType.combine?] at fits
      obtain ⟨⟨rfl, rfl⟩, rfl⟩ := fits
      exact .cross l r

/-- The type of a tree over a table under a choice, computed from the types of its sides. -/
def Expr.typeAt? (t : OperandTable) (choice : Choice) : Expr → Option ExprType
  | .slot index => (t.get? index).map (Operand.typeAt (choice index))
  | .one => some .scalar
  | .binary op lhs rhs =>
    (lhs.typeAt? t choice).bind fun σ => (rhs.typeAt? t choice).bind fun ρ =>
      ExprType.combine? op σ ρ

/-- **The typing relation can be computed.** -/
theorem Expr.typeAt?_eq_some : e.typeAt? t choice = some τ ↔ HasType t choice e τ := by
  induction e generalizing τ with
  | slot index =>
    rw [typeAt?, Option.map_eq_some_iff]
    constructor
    · rintro ⟨operand, found, rfl⟩
      exact .slot found
    · rintro ⟨found⟩
      exact ⟨_, found, rfl⟩
  | one =>
    constructor
    · rintro ⟨⟩
      exact .one
    · rintro ⟨⟩
      rfl
  | binary op lhs rhs ihl ihr =>
    rw [hasType_binary_iff, typeAt?, Option.bind_eq_some_iff]
    refine exists_congr fun σ => ?_
    rw [ihl, Option.bind_eq_some_iff]
    constructor
    · rintro ⟨l, ρ, r, fits⟩
      exact ⟨ρ, l, ihr.mp r, fits⟩
    · rintro ⟨ρ, l, r, fits⟩
      exact ⟨l, ρ, ihr.mpr r, fits⟩

theorem Expr.kind_binary (t : OperandTable) (op : BinaryOp) (lhs rhs : Expr) :
    (binary op lhs rhs).kind t = .combine op (lhs.kind t) (rhs.kind t) := rfl

/-- The kind of a tree is that of its type, whatever candidates are left. -/
theorem kind_eq_of_hasType (typed : HasType t choice e τ) : e.kind t = τ.kind := by
  induction e generalizing τ with
  | slot index =>
    cases typed with
    | @slot _ operand found =>
      simp only [Expr.kind, found, Option.map_some, Option.getD_some]
      cases operand <;> rfl
  | one => cases typed; rfl
  | binary op lhs rhs ihl ihr =>
    obtain ⟨σ, ρ, l, r, fits⟩ := hasType_binary_iff.mp typed
    rw [Expr.kind_binary, ihl l, ihr r, ExprType.kind_combine fits]

/-! ## Settled tables -/

/-- Each group slot the tree refers to is down to the chosen dimension. -/
def OperandTable.Settled (t : OperandTable) (choice : Choice) (e : Expr) : Prop :=
  ∀ slot ∈ t.referencedGroupSlots e, t.candidates slot = .single (choice slot)

theorem OperandTable.mem_referencedGroupSlots_left {slot : Nat}
    (h : slot ∈ t.referencedGroupSlots lhs) :
    slot ∈ t.referencedGroupSlots (.binary op lhs rhs) := by
  obtain ⟨group, found⟩ := mem_referencedGroupSlots.mp h
  exact mem_referencedGroupSlots.mpr ⟨group, by simp [Expr.references, found]⟩

theorem OperandTable.mem_referencedGroupSlots_right {slot : Nat}
    (h : slot ∈ t.referencedGroupSlots rhs) :
    slot ∈ t.referencedGroupSlots (.binary op lhs rhs) := by
  obtain ⟨group, found⟩ := mem_referencedGroupSlots.mp h
  exact mem_referencedGroupSlots.mpr ⟨group, by simp [Expr.references, found]⟩

/-- A slot that holds a group is a group slot of the tree that is that slot. -/
theorem OperandTable.mem_referencedGroupSlots_slot {index : Nat} {q : Quantity}
    {members : DimensionMap Quantity} {candidates : DimensionSet}
    (found : t.get? index = some (.group q members candidates)) :
    index ∈ t.referencedGroupSlots (.slot index) :=
  mem_referencedGroupSlots.mpr
    ⟨mem_groupSlots.mpr (by simp [found, Operand.isGroup]), by simp [Expr.references]⟩

theorem OperandTable.candidates_of_get? {index : Nat} {operand : Operand}
    (found : t.get? index = some operand) : t.candidates index = operand.candidates := by
  simp [candidates, found]

namespace OperandTable.Settled

theorem left (h : t.Settled choice (.binary op lhs rhs)) : t.Settled choice lhs :=
  fun slot found => h slot (mem_referencedGroupSlots_left found)

theorem right (h : t.Settled choice (.binary op lhs rhs)) : t.Settled choice rhs :=
  fun slot found => h slot (mem_referencedGroupSlots_right found)

end OperandTable.Settled

/-- The dimensions of an operation, from those of its sides. -/
def Expr.combineDimensions : BinaryOp → DimensionSet → DimensionSet → DimensionSet
  | .add, left, right | .sub, left, right => left ∩ right
  | .mul, left, right => left ∪ right
  | .div, left, _ => left
  | .dot, _, _ => ∅
  | .cross, left, right => (.single crossDimension ∩ left) ∩ right

theorem Expr.dimensions_binary (t : OperandTable) (op : BinaryOp) (lhs rhs : Expr) :
    (binary op lhs rhs).dimensions t =
      combineDimensions op (lhs.dimensions t) (rhs.dimensions t) := by
  cases op <;> rfl

theorem ExprType.dimensions_combine {op : BinaryOp} {σ ρ τ : ExprType}
    (fits : combine? op σ ρ = some τ) :
    Expr.combineDimensions op σ.dimensions ρ.dimensions = τ.dimensions := by
  cases op with
  | add | sub =>
    obtain ⟨rfl, rfl⟩ : σ = ρ ∧ σ = τ := by simpa [combine?] using fits
    cases σ with
    | scalar => rfl
    | vector d => simp [Expr.combineDimensions, dimensions, DimensionSet.inter_single]
  | mul =>
    cases σ <;> cases ρ <;> simp [combine?] at fits <;> subst fits <;> rfl
  | div =>
    cases σ <;> cases ρ <;> simp [combine?] at fits <;> subst fits <;> rfl
  | dot =>
    cases σ <;> cases ρ <;> simp [combine?] at fits
    obtain ⟨-, rfl⟩ := fits
    rfl
  | cross =>
    cases σ <;> cases ρ <;> simp [combine?] at fits
    obtain ⟨⟨rfl, rfl⟩, rfl⟩ := fits
    simp [Expr.combineDimensions, dimensions, DimensionSet.inter_single]

/-- **The dimensions inferred over a settled table are those of the type.** -/
theorem dimensions_eq_of_hasType (settled : t.Settled choice e) (typed : HasType t choice e τ) :
    e.dimensions t = τ.dimensions := by
  induction e generalizing τ with
  | slot index =>
    cases typed with
    | @slot _ operand found =>
      simp only [Expr.dimensions, found, Option.map_some, Option.getD_some]
      cases operand with
      | scalar | vector => rfl
      | group q members candidates =>
        have single := settled index (OperandTable.mem_referencedGroupSlots_slot found)
        rwa [OperandTable.candidates_of_get? found] at single
  | one => cases typed; rfl
  | binary op lhs rhs ihl ihr =>
    obtain ⟨σ, ρ, l, r, fits⟩ := hasType_binary_iff.mp typed
    rw [Expr.dimensions_binary, ihl settled.left l, ihr settled.right r,
      ExprType.dimensions_combine fits]

/-! ## Verification -/

/-- What verification asks of an operation is that the types of its sides combine. -/
theorem verifiesNode_iff {σ ρ : ExprType} (settled : t.Settled choice (.binary op lhs rhs))
    (l : HasType t choice lhs σ) (r : HasType t choice rhs ρ) :
    Expr.verifiesNode t op lhs rhs = true ↔ ∃ τ, ExprType.combine? op σ ρ = some τ := by
  have kinds : (Expr.binary op lhs rhs).kind t = Kind.combine op σ.kind ρ.kind := by
    rw [Expr.kind_binary, kind_eq_of_hasType l, kind_eq_of_hasType r]
  have left := dimensions_eq_of_hasType settled.left l
  have right := dimensions_eq_of_hasType settled.right r
  cases op <;> simp only [Expr.verifiesNode, Expr.sameDimension, kinds, left, right,
    ExprType.single?_dimensions] <;> cases σ <;> cases ρ <;>
    simp [ExprType.combine?, ExprType.kind, ExprType.dimension?, Kind.combine]

theorem verifies_of_hasType (settled : t.Settled choice e) (typed : HasType t choice e τ) :
    e.verifies t = true := by
  induction e generalizing τ with
  | slot | one => rfl
  | binary op lhs rhs ihl ihr =>
    obtain ⟨σ, ρ, l, r, fits⟩ := hasType_binary_iff.mp typed
    rw [Expr.verifies, ihl settled.left l, ihr settled.right r,
      (verifiesNode_iff settled l r).mpr ⟨τ, fits⟩]
    rfl

/-- A side that is a slot beyond the table has no kind and shows no dimension, and so makes every
operation inconsistent. -/
theorem verifiesNode_eq_false {index : Nat} (beyond : t.get? index = none)
    (side : lhs = .slot index ∨ rhs = .slot index) : Expr.verifiesNode t op lhs rhs = false := by
  have kind : (Expr.slot index).kind t = .invalid := by simp [Expr.kind, beyond]
  have dimensions : (Expr.slot index).dimensions t = ∅ := by simp [Expr.dimensions, beyond]
  have single : (∅ : DimensionSet).single? = none := rfl
  rcases side with rfl | rfl
  · cases op <;> simp [Expr.verifiesNode, Expr.sameDimension, Expr.kind_binary, kind, dimensions,
      single, Kind.combine]
  · cases op <;> cases lhs.kind t <;> simp [Expr.verifiesNode, Expr.sameDimension, Expr.kind_binary,
      kind, dimensions, single, Kind.combine]

/-- The tree is accepted over the table: it has a type, or is a slot beyond the table. -/
def OperandTable.Accepts (t : OperandTable) (choice : Choice) (e : Expr) : Prop :=
  (∃ τ, HasType t choice e τ) ∨ ∃ index, e = .slot index ∧ t.get? index = none

theorem accepts_of_verifies (settled : t.Settled choice e) (verified : e.verifies t = true) :
    t.Accepts choice e := by
  induction e with
  | slot index =>
    cases found : t.get? index with
    | none => exact Or.inr ⟨index, rfl, found⟩
    | some operand => exact Or.inl ⟨_, .slot found⟩
  | one => exact Or.inl ⟨_, .one⟩
  | binary op lhs rhs ihl ihr =>
    rw [Expr.verifies, Bool.and_eq_true, Bool.and_eq_true] at verified
    obtain ⟨⟨vl, vr⟩, node⟩ := verified
    rcases ihl settled.left vl with ⟨σ, l⟩ | ⟨index, rfl, beyond⟩
    · rcases ihr settled.right vr with ⟨ρ, r⟩ | ⟨index, rfl, beyond⟩
      · obtain ⟨τ, fits⟩ := (verifiesNode_iff settled l r).mp node
        exact Or.inl ⟨τ, hasType_binary_iff.mpr ⟨σ, ρ, l, r, fits⟩⟩
      · rw [verifiesNode_eq_false beyond (Or.inr rfl)] at node
        exact absurd node Bool.false_ne_true
    · rw [verifiesNode_eq_false beyond (Or.inl rfl)] at node
      exact absurd node Bool.false_ne_true

/-- **Verification is typing**: over a settled table, the verified trees are the accepted ones. -/
theorem verifies_iff_accepts (settled : t.Settled choice e) :
    e.verifies t = true ↔ t.Accepts choice e := by
  refine ⟨accepts_of_verifies settled, ?_⟩
  rintro (⟨τ, typed⟩ | ⟨index, rfl, -⟩)
  · exact verifies_of_hasType settled typed
  · rfl

end QuantityAlgebra
