import QuantityAlgebra.Proofs.Typing.Propagation

/-!
# Trees in which no slot occurs twice

Where the two sides of an operation refer to different slots, what is chosen on one side says
nothing about the other. So a choice that gives the left side a type and another that does so for
the right side can be spliced into one that does both.

From this follows that inferred dimensions are exact. They are bounds in every tree
(`within_dimensions`); in a tree in which no slot occurs twice each of them is reached by some
choice, as soon as the tree has a type under any choice at all.

Results:
* `Realizes.splice`: choices for the two sides make one choice for both.
* **`Realizes.exists_of_mem_dimensions`**: every inferred dimension is the type of the tree under
  some choice.
-/

namespace QuantityAlgebra

variable {t u : OperandTable} {choice other inside outside : Choice} {e lhs rhs : Expr}
  {op : BinaryOp} {σ ρ τ : ExprType} {d : Dimension}

/-! ## Linear trees -/

namespace Expr

/-- No slot occurs twice in the tree. -/
def Linear (e : Expr) : Prop := e.slots.Nodup

instance (e : Expr) : Decidable e.Linear := inferInstanceAs (Decidable e.slots.Nodup)

namespace Linear

theorem left (linear : (binary op lhs rhs).Linear) : lhs.Linear :=
  (List.nodup_append.mp linear).1

theorem right (linear : (binary op lhs rhs).Linear) : rhs.Linear :=
  (List.nodup_append.mp linear).2.1

/-- The two sides refer to different slots. -/
theorem not_references (linear : (binary op lhs rhs).Linear) {slot : Nat}
    (found : rhs.references slot = true) : lhs.references slot = false := by
  refine Bool.eq_false_iff.mpr fun also => ?_
  exact (List.nodup_append.mp linear).2.2 slot (mem_slots.mpr also) slot (mem_slots.mpr found) rfl

end Linear

end Expr

namespace ExprType

/-- Products and quotients ask for kinds only. -/
theorem exists_combine?_of_kind {σ' ρ' : ExprType} (scales : op = .mul ∨ op = .div)
    (fits : combine? op σ ρ = some τ) (left : σ.kind = σ'.kind) (right : ρ.kind = ρ'.kind) :
    ∃ τ', combine? op σ' ρ' = some τ' := by
  rcases scales with rfl | rfl <;> cases σ <;> cases ρ <;> cases σ' <;> cases ρ' <;>
    simp_all [combine?, kind]

/-- A sum or a dot product is one of two equal types, any of the kind that its sides have. -/
theorem combine?_agrees (agrees : op = .add ∨ op = .sub ∨ op = .dot)
    (fits : combine? op σ ρ = some τ) :
    σ = ρ ∧ ∀ υ, σ.kind = υ.kind → ∃ τ', combine? op υ υ = some τ' := by
  rcases agrees with rfl | rfl | rfl
  · obtain ⟨rfl, -⟩ : σ = ρ ∧ σ = τ := by simpa [combine?] using fits
    exact ⟨rfl, fun υ _ => ⟨υ, if_pos rfl⟩⟩
  · obtain ⟨rfl, -⟩ : σ = ρ ∧ σ = τ := by simpa [combine?] using fits
    exact ⟨rfl, fun υ _ => ⟨υ, if_pos rfl⟩⟩
  · cases σ <;> cases ρ <;> simp [combine?] at fits
    obtain ⟨rfl, -⟩ := fits
    refine ⟨rfl, fun υ same => ?_⟩
    cases υ with
    | scalar => simp [kind] at same
    | vector => exact ⟨_, if_pos rfl⟩

/-- What has a dimension is a vector of that dimension. -/
theorem eq_vector_of_mem_dimensions (found : d ∈ τ.dimensions) : τ = .vector d := by
  cases τ with
  | scalar => exact absurd found (DimensionSet.not_mem_empty d)
  | vector d' => rw [DimensionSet.mem_single.mp found]

end ExprType

/-! ## Realized types -/

namespace OperandTable

/-- The tree has the type under the choice, which takes only candidates of the table. -/
structure Realizes (t : OperandTable) (choice : Choice) (e : Expr) (τ : ExprType) : Prop where
  admitted : t.Admits choice e
  typed : HasType t choice e τ

theorem Admits.of_narrows (h : t.Admits choice e) (narrowed : t.Narrows u) : u.Admits choice e :=
  fun slot found => (narrowed.candidates slot).subset
    (h slot (narrowed.referencedGroupSlots e ▸ found))

theorem Admits.congr (h : t.Admits choice e)
    (agree : ∀ slot, e.references slot = true → choice slot = other slot) :
    t.Admits other e := fun slot found =>
  agree slot (mem_referencedGroupSlots.mp found).2 ▸ h slot found

theorem Admits.binary (l : t.Admits choice lhs) (r : t.Admits choice rhs) :
    t.Admits choice (.binary op lhs rhs) := by
  intro slot found
  obtain ⟨group, referenced⟩ := mem_referencedGroupSlots.mp found
  rcases (Bool.or_eq_true _ _).mp referenced with inLeft | inRight
  · exact l slot (mem_referencedGroupSlots.mpr ⟨group, inLeft⟩)
  · exact r slot (mem_referencedGroupSlots.mpr ⟨group, inRight⟩)

end OperandTable

/-- What one choice says of the slots of a tree and another of all other slots. -/
def Choice.splice (e : Expr) (inside outside : Choice) : Choice := fun slot =>
  if e.references slot = true then inside slot else outside slot

theorem Choice.splice_inside {slot : Nat} (found : e.references slot = true) :
    Choice.splice e inside outside slot = inside slot :=
  if_pos found

theorem Choice.splice_outside {slot : Nat} (missing : e.references slot = false) :
    Choice.splice e inside outside slot = outside slot :=
  if_neg (by simp [missing])

namespace OperandTable.Realizes

theorem of_narrows (h : t.Realizes choice e τ) (narrowed : t.Narrows u) :
    u.Realizes choice e τ :=
  ⟨h.admitted.of_narrows narrowed, narrowed.hasType_iff.mp h.typed⟩

/-- A narrower table that has spared the choice gives the tree the same type under it. -/
theorem of_spares (h : t.Realizes choice e τ) (narrowed : u.Narrows t)
    (spares : Spares choice t u) : u.Realizes choice e τ :=
  ⟨spares.admits narrowed h.admitted, narrowed.hasType_iff.mpr h.typed⟩

theorem congr (h : t.Realizes choice e τ)
    (agree : ∀ slot, e.references slot = true → choice slot = other slot) :
    t.Realizes other e τ :=
  ⟨h.admitted.congr agree, h.typed.congr agree⟩

theorem binary (l : t.Realizes choice lhs σ) (r : t.Realizes choice rhs ρ)
    (fits : ExprType.combine? op σ ρ = some τ) : t.Realizes choice (.binary op lhs rhs) τ :=
  ⟨l.admitted.binary r.admitted, hasType_binary_iff.mpr ⟨σ, ρ, l.typed, r.typed, fits⟩⟩

theorem sides (h : t.Realizes choice (.binary op lhs rhs) τ) :
    ∃ σ ρ, t.Realizes choice lhs σ ∧ t.Realizes choice rhs ρ ∧
      ExprType.combine? op σ ρ = some τ := by
  obtain ⟨σ, ρ, l, r, fits⟩ := hasType_binary_iff.mp h.typed
  exact ⟨σ, ρ, ⟨h.admitted.left, l⟩, ⟨h.admitted.right, r⟩, fits⟩

/-- Over one table a tree has one kind, so scalars and vectors are not realized side by side. -/
theorem kind_eq (h : t.Realizes choice e σ) (h' : t.Realizes other e ρ) : σ.kind = ρ.kind :=
  (kind_eq_of_hasType h.typed).symm.trans (kind_eq_of_hasType h'.typed)

/-- **Choices for the two sides make one choice for both** where the sides share no slot. -/
theorem splice (linear : (Expr.binary op lhs rhs).Linear) (l : t.Realizes inside lhs σ)
    (r : t.Realizes outside rhs ρ) :
    t.Realizes (Choice.splice lhs inside outside) lhs σ ∧
      t.Realizes (Choice.splice lhs inside outside) rhs ρ := by
  refine ⟨l.congr fun slot found => ?_, r.congr fun slot found => ?_⟩
  · exact (Choice.splice_inside found).symm
  · exact (Choice.splice_outside (linear.not_references found)).symm

/-- A slot has its type under every choice that takes one of its candidates there. -/
theorem slot {index : Nat} {operand : Operand} (held : t.get? index = some operand)
    (taken : operand.isGroup = true → choice index ∈ operand.candidates) :
    t.Realizes choice (.slot index) (operand.typeAt (choice index)) := by
  refine ⟨fun slot found => ?_, .slot held⟩
  obtain ⟨group, referenced⟩ := mem_referencedGroupSlots.mp found
  obtain rfl : index = slot := by simpa [Expr.references] using referenced
  rw [candidates_of_get? held]
  exact taken (by simpa [held] using mem_groupSlots.mp group)

/-! ## Inferred dimensions are exact -/

/-- **Every inferred dimension is the type of the tree under some choice.** -/
theorem exists_of_mem_dimensions (linear : e.Linear) (h : t.Realizes choice e τ)
    (found : d ∈ e.dimensions t) : ∃ other, t.Realizes other e (.vector d) := by
  induction e generalizing τ with
  | slot index =>
    cases h.typed with
    | @slot _ operand held =>
      simp only [Expr.dimensions, held, Option.map_some, Option.getD_some] at found
      cases operand with
      | scalar => exact absurd found (DimensionSet.not_mem_empty d)
      | vector q d' =>
        obtain rfl := DimensionSet.mem_single.mp found
        exact ⟨choice, h.admitted, .slot held⟩
      | group q members candidates => exact ⟨fun _ => d, Realizes.slot held fun _ => found⟩
  | one => exact absurd found (DimensionSet.not_mem_empty d)
  | binary op lhs rhs ihl ihr =>
    obtain ⟨σ, ρ, l, r, fits⟩ := h.sides
    have left := fun held => ihl linear.left l held
    have right := fun held => ihr linear.right r held
    -- What both sides can be is what both can be at once.
    have both (inLeft : d ∈ lhs.dimensions t) (inRight : d ∈ rhs.dimensions t) :
        ∃ other, t.Realizes other lhs (.vector d) ∧ t.Realizes other rhs (.vector d) := by
      obtain ⟨inside, hl⟩ := left inLeft
      obtain ⟨outside, hr⟩ := right inRight
      exact ⟨_, splice linear hl hr⟩
    -- A product or a quotient takes any two types of the kinds its sides have.
    have scaled {inside outside : Choice} {σ' ρ' : ExprType} (scales : op = .mul ∨ op = .div)
        (l' : t.Realizes inside lhs σ') (r' : t.Realizes outside rhs ρ')
        (shown : d ∈ Expr.combineDimensions op σ'.dimensions ρ'.dimensions) :
        ∃ other, t.Realizes other (.binary op lhs rhs) (.vector d) := by
      obtain ⟨τ', fits'⟩ :=
        ExprType.exists_combine?_of_kind scales fits (l.kind_eq l') (r.kind_eq r')
      rw [ExprType.dimensions_combine fits'] at shown
      obtain rfl := ExprType.eq_vector_of_mem_dimensions shown
      obtain ⟨l'', r''⟩ := splice linear l' r'
      exact ⟨_, l''.binary r'' fits'⟩
    cases op with
    | add | sub =>
      obtain ⟨inLeft, inRight⟩ := DimensionSet.mem_inter.mp found
      obtain ⟨other, l', r'⟩ := both inLeft inRight
      exact ⟨other, l'.binary r' (if_pos rfl)⟩
    | mul =>
      rcases DimensionSet.mem_union.mp found with inLeft | inRight
      · obtain ⟨inside, hl⟩ := left inLeft
        exact scaled (.inl rfl) hl r (DimensionSet.mem_union.mpr (.inl (.head _)))
      · obtain ⟨outside, hr⟩ := right inRight
        exact scaled (.inl rfl) l hr (DimensionSet.mem_union.mpr (.inr (.head _)))
    | div =>
      obtain ⟨inside, hl⟩ := left found
      exact scaled (.inr rfl) hl r (.head _)
    | dot => exact absurd found (DimensionSet.not_mem_empty d)
    | cross =>
      obtain ⟨inCross, inRight⟩ := DimensionSet.mem_inter.mp found
      obtain ⟨three, inLeft⟩ := DimensionSet.mem_inter.mp inCross
      obtain rfl := DimensionSet.mem_single.mp three
      obtain ⟨other, l', r'⟩ := both inLeft inRight
      exact ⟨other, l'.binary r' rfl⟩

end OperandTable.Realizes

end QuantityAlgebra
