import QuantityAlgebra.Proofs.Resolution.Meaning

/-!
# What verification and inference say together

Verification asks different things of different operators: of sums a kind and a dimension, of dot
and cross products dimensions alone, of products and quotients a kind alone. Inference goes on where
a kind is invalid. What ties them together is that a scalar shows no dimension, whatever candidates
are open (`dimensions_eq_empty_of_kind`). A side that shows one is a vector or invalid, and a
verified side is not invalid, so what is verified has a kind (`kind_ne_invalid_of_verifies`).

Over a table that leaves each referenced group one candidate there is one choice to make. Under it a
verified tree has a type, and what is inferred for the tree is that type.

Results:
* `dimensions_eq_empty_of_kind`: no dimension is inferred for a scalar.
* **`kind_ne_invalid_of_verifies`**: a tree of invalid kind is never verified.
* **`verifies_iff_exists_hasType`**: verification, kind and dimensions, in terms of types.
-/

namespace QuantityAlgebra

variable {t : OperandTable} {choice : Choice} {e lhs rhs : Expr} {op : BinaryOp}

namespace OperandTable

theorem Covers.left (covers : t.Covers (.binary op lhs rhs)) : t.Covers lhs :=
  fun slot found => covers slot (by simp [Expr.references, found])

theorem Covers.right (covers : t.Covers (.binary op lhs rhs)) : t.Covers rhs :=
  fun slot found => covers slot (by simp [Expr.references, found])

/-- A choice among candidates that leave no choice settles the table. -/
theorem Admits.settled
    (sole : ∀ slot ∈ t.referencedGroupSlots e, ∃ d, t.candidates slot = .single d)
    (admitted : t.Admits choice e) : t.Settled choice e := by
  intro slot found
  obtain ⟨d, single⟩ := sole slot found
  have chosen := admitted slot found
  rw [single, DimensionSet.mem_single] at chosen
  rw [single, chosen]

/-- There is such a choice. -/
theorem exists_admits
    (sole : ∀ slot ∈ t.referencedGroupSlots e, ∃ d, t.candidates slot = .single d) :
    ∃ choice, t.Admits choice e := by
  refine ⟨fun slot => (t.candidates slot).single?.getD 0, fun slot found => ?_⟩
  obtain ⟨d, single⟩ := sole slot found
  show (t.candidates slot).single?.getD 0 ∈ t.candidates slot
  rw [single]
  exact DimensionSet.mem_single.mpr rfl

end OperandTable

/-! ## Kinds and dimensions without types -/

/-- The sides of an operation that results in a scalar are scalars, unless it is a dot product. -/
theorem Kind.combine_eq_scalar {σ ρ : Kind} (scalar : combine op σ ρ = .scalar) :
    op = .dot ∨ (σ = .scalar ∧ ρ = .scalar) := by
  cases op <;> cases σ <;> cases ρ <;> first | contradiction | simp

/-- **No dimension is inferred for a scalar**, whatever candidates are open. -/
theorem dimensions_eq_empty_of_kind (scalar : e.kind t = .scalar) : e.dimensions t = ∅ := by
  induction e with
  | slot index =>
    rw [Expr.kind] at scalar
    rw [Expr.dimensions]
    cases found : t.get? index with
    | none => rfl
    | some operand =>
      rw [found] at scalar
      cases operand with
      | scalar => rfl
      | vector | group => contradiction
  | one => rfl
  | binary op lhs rhs ihl ihr =>
    rw [Expr.dimensions_binary]
    rcases Kind.combine_eq_scalar scalar with rfl | ⟨left, right⟩
    · rfl
    · rw [ihl left, ihr right]
      cases op <;> rfl

/-- A valid side that shows one dimension is a vector. -/
theorem kind_eq_vector_of_single {d : Dimension} (valid : e.kind t ≠ .invalid)
    (single : (e.dimensions t).single? = some d) : e.kind t = .vector := by
  cases kind : e.kind t with
  | scalar =>
    rw [dimensions_eq_empty_of_kind kind] at single
    contradiction
  | vector => rfl
  | invalid => exact absurd kind valid

theorem exists_single_of_sameDimension (same : Expr.sameDimension t lhs rhs = true) :
    ∃ d, (lhs.dimensions t).single? = some d ∧ (rhs.dimensions t).single? = some d := by
  unfold Expr.sameDimension at same
  split at same
  · rename_i l r left right
    exact ⟨l, left, eq_of_beq same ▸ right⟩
  · contradiction

/-- A consistent operation on valid sides has a kind. -/
theorem kind_ne_invalid_of_verifiesNode (left : lhs.kind t ≠ .invalid)
    (right : rhs.kind t ≠ .invalid) (node : Expr.verifiesNode t op lhs rhs = true) :
    (Expr.binary op lhs rhs).kind t ≠ .invalid := by
  intro invalid
  cases op with
  | add | sub =>
    simp only [Expr.verifiesNode, invalid] at node
    contradiction
  | mul | div =>
    simp only [Expr.verifiesNode, invalid] at node
    contradiction
  | dot =>
    obtain ⟨d, l, r⟩ := exists_single_of_sameDimension node
    rw [Expr.kind_binary, kind_eq_vector_of_single left l, kind_eq_vector_of_single right r]
      at invalid
    contradiction
  | cross =>
    obtain ⟨l, r⟩ := Bool.and_eq_true_iff.mp node
    rw [Expr.kind_binary, kind_eq_vector_of_single left (eq_of_beq l),
      kind_eq_vector_of_single right (eq_of_beq r)] at invalid
    contradiction

/-- **A tree of invalid kind is never verified**, be its groups resolved or not. -/
theorem kind_ne_invalid_of_verifies (covers : t.Covers e) (verified : e.verifies t = true) :
    e.kind t ≠ .invalid := by
  induction e with
  | slot index =>
    cases found : t.get? index with
    | none => exact absurd found (covers index (by simp [Expr.references]))
    | some operand => cases operand <;> simp [Expr.kind, found, Operand.kind]
  | one => simp [Expr.kind]
  | binary op lhs rhs ihl ihr =>
    rw [Expr.verifies, Bool.and_eq_true, Bool.and_eq_true] at verified
    obtain ⟨⟨left, right⟩, node⟩ := verified
    exact kind_ne_invalid_of_verifiesNode (ihl covers.left left) (ihr covers.right right) node

/-! ## Types -/

/-- **Verification is well-typedness, and inference then reports the type.** The table covers the
slots of the tree and leaves each group among them one candidate; the choice is the one left. A tree
of invalid kind is not verified over any table that covers it. -/
theorem verifies_iff_exists_hasType (covers : t.Covers e) :
    ((∀ slot ∈ t.referencedGroupSlots e, ∃ d, t.candidates slot = .single d) →
      (∃ choice, t.Admits choice e) ∧ ∀ choice, t.Admits choice e →
        (e.verifies t = true ↔ ∃ τ, HasType t choice e τ) ∧
        (HasType t choice e .scalar → e.kind t = .scalar ∧ e.dimensions t = ∅) ∧
        ∀ d, HasType t choice e (.vector d) → e.kind t = .vector ∧ e.dimensions t = .single d) ∧
    (e.kind t = .invalid → e.verifies t = false) := by
  refine ⟨fun sole => ⟨OperandTable.exists_admits sole, fun choice admitted => ?_⟩,
    fun invalid => ?_⟩
  · have settled := admitted.settled sole
    have reports {τ : ExprType} (typed : HasType t choice e τ) :
        e.kind t = τ.kind ∧ e.dimensions t = τ.dimensions :=
      ⟨kind_eq_of_hasType typed, dimensions_eq_of_hasType settled typed⟩
    refine ⟨(verifies_iff_accepts settled).trans (or_iff_left ?_), reports, fun d => reports⟩
    -- The one tree that is verified without a type is a slot beyond the table.
    rintro ⟨index, rfl, beyond⟩
    exact covers index (by simp [Expr.references]) beyond
  · exact Bool.eq_false_iff.mpr fun verified => kind_ne_invalid_of_verifies covers verified invalid

/-- A dot product of a group and a sum in which the group occurs again, over a table that leaves the
group one dimension; and a product of two vectors. -/
theorem verifies_iff_exists_hasType_dot :
    let t : OperandTable :=
      ⟨[.group ⟨"m", "Position"⟩ (.ofList [(2, ⟨"m", "Position2"⟩), (3, ⟨"m", "Position3"⟩)])
          (.single 3), .vector ⟨"m", "Offset3"⟩ 3, .group ⟨"m", "Velocity"⟩ ∅ ∅]⟩
    let e : Expr := .binary .dot (.slot 0) (.binary .add (.slot 1) (.slot 0))
    let product : Expr := .binary .mul (.slot 0) (.slot 1)
    t.Covers e ∧ (∀ slot ∈ t.referencedGroupSlots e, ∃ d, t.candidates slot = .single d) ∧
      e.verifies t = true ∧ e.kind t = .scalar ∧ e.dimensions t = ∅ ∧
      product.kind t = .invalid ∧ product.verifies t = false := by
  intro t e product
  have covers {f : Expr} (below : f.Below 3) : t.Covers f := fun slot found missing => by
    have := below slot found
    rw [OperandTable.get?, List.getElem?_eq_none_iff] at missing
    exact absurd this (Nat.not_lt.mpr missing)
  have eq_zero {slot : Nat} (found : slot ∈ t.referencedGroupSlots e) : slot = 0 := by
    have slots : t.referencedGroupSlots e = [0] := by decide
    rw [slots] at found
    exact List.mem_singleton.mp found
  have sole : ∀ slot ∈ t.referencedGroupSlots e, ∃ d, t.candidates slot = .single d :=
    fun slot found => ⟨3, by rw [eq_zero found]; rfl⟩
  have admitted : t.Admits (fun _ => 3) e := fun slot found => by
    rw [eq_zero found]
    decide
  have typed : HasType t (fun _ => 3) e .scalar := Expr.typeAt?_eq_some.mp (by decide)
  have covered : t.Covers e := covers (by decide)
  obtain ⟨verified, scalar, -⟩ := ((verifies_iff_exists_hasType covered).1 sole).2 _ admitted
  exact ⟨covered, sole, verified.mpr ⟨_, typed⟩, (scalar typed).1, (scalar typed).2, by decide,
    (verifies_iff_exists_hasType (covers (by decide))).2 (by decide)⟩

end QuantityAlgebra
