import QuantityAlgebra.Proofs.Expansion.Enumerated
import QuantityAlgebra.Proofs.Typing.Linear

/-!
# Narrowing leaves no dead candidate

Narrowing goes through a tree once, from the root down. That is enough where no slot occurs twice
and no cross product occurs: whatever candidate is then left for a group is part of a consistent
choice, so no branch of the expansion can fail late for want of having looked at a node again.

At one node this is seen from both sides. After a sum or a dot product has limited its sides to the
dimensions they share, whatever type one side can be given is one that the other side can be given
too, since the limit keeps to the shared dimensions (`within_of_limit`) and each of them is reached
(`Realizes.exists_of_mem_dimensions`). Products and quotients ask for kinds only, which no choice
changes. So at a narrowed node every choice for a side extends to one for the node, and by induction
what the sides leave on their own is left for good.

A cross product asks more of its sides than what they share, dimension three, and does not limit
them to it. So what is left in its operands may be dead.

Results:
* `within_of_limit`: after a limit a tree has types that keep to it only.
* `extends_narrowNode`: at a narrowed node a choice for a side is part of a choice for the node.
* `exists_realizes_of_mem_candidates`: each candidate left is part of a choice with a type.
* **`narrow_leaves_no_dead_candidate`**: and so it is chosen in a table that expansion gives.
-/

namespace QuantityAlgebra

variable {t u : OperandTable} {choice other : Choice} {e lhs rhs : Expr} {op : BinaryOp}
  {σ ρ τ : ExprType} {s : DimensionSet} {d : Dimension} {slot : Nat}

open OperandTable

namespace Expr

/-- Whether there is no cross product in the tree. -/
def crossFree : Expr → Bool
  | .slot _ => true
  | .one => true
  | .binary op lhs rhs => op != .cross && lhs.crossFree && rhs.crossFree

theorem crossFree_binary : (binary op lhs rhs).crossFree = true ↔
    op ≠ .cross ∧ lhs.crossFree = true ∧ rhs.crossFree = true := by
  simp [crossFree, and_assoc]

end Expr

/-! ## Limits -/

/-- A tree that is a scalar under one choice is within any limit under every other. -/
theorem within_of_scalar (typed : HasType u choice e .scalar) (typed' : HasType u other e σ) :
    σ.Within s := by
  have same := (kind_eq_of_hasType typed).symm.trans (kind_eq_of_hasType typed')
  cases σ with
  | scalar => exact ExprType.within_scalar
  | vector => simp [ExprType.kind] at same

/-- **After a limit, types keep to it**, if any type of the tree does. One has to be asked for: no
limit changes the dimension of a vector that is not a group. -/
theorem within_of_limit (typed : HasType u choice e τ) (within : τ.Within s)
    (narrowed : t.Narrows u) (typed' : HasType u other e σ)
    (admitted : (e.limit s t).Admits other e) : σ.Within s := by
  -- What is left once both sides are limited is left once the first is.
  have first {op : BinaryOp} {lhs rhs : Expr} {t : OperandTable}
      (both : (rhs.limit s (lhs.limit s t)).Admits other (.binary op lhs rhs)) :
      (lhs.limit s t).Admits other lhs :=
    both.left.of_narrows (narrows_limit rhs s (lhs.limit s t))
  induction typed generalizing t σ with
  | @slot index operand found =>
    cases typed' with
    | slot found' =>
      obtain rfl := Option.some.inj (found.symm.trans found')
      cases operand with
      | scalar => exact ExprType.within_scalar
      | vector => exact within
      | group =>
        obtain ⟨kept, held, -⟩ :=
          ((narrows_restrict t index s).trans narrowed).get?_group found
        have taken := admitted index (mem_referencedGroupSlots_slot held)
        exact ExprType.within_vector.mpr ((mem_candidates_restrict.mp taken).2 rfl)
  | one =>
    cases typed'
    exact ExprType.within_scalar
  | add _ _ ihl _ =>
    cases typed' with
    | add l' _ => exact ihl within narrowed l' (first admitted)
  | sub _ _ ihl _ =>
    cases typed' with
    | sub l' _ => exact ihl within narrowed l' (first admitted)
  | scaleRight l _ _ ihr =>
    cases typed' with
    | scaleRight _ r' =>
      exact ihr within ((narrows_limit _ s t).trans narrowed) r' admitted.right
    | scaleLeft l' _ => exact within_of_scalar l l'
  | scaleLeft _ r ihl _ =>
    cases typed' with
    | scaleRight _ r' => exact within_of_scalar r r'
    | scaleLeft l' _ => exact ihl within narrowed l' (first admitted)
  | div _ _ ihl _ =>
    cases typed' with
    | div l' _ => exact ihl within narrowed l' admitted.left
  | dot =>
    cases typed'
    exact ExprType.within_scalar
  | cross =>
    cases typed'
    exact within

/-! ## One node -/

/-- Every choice that gives the part a type agrees on it with one that gives the whole a type. -/
def OperandTable.Extends (t : OperandTable) (part whole : Expr) : Prop :=
  ∀ choice σ, t.Realizes choice part σ → ∃ other τ, t.Realizes other whole τ ∧
    ∀ slot, part.references slot = true → other slot = choice slot

/-- A side extends to the node if each type it has combines with one that the other side has. -/
theorem extends_left (linear : (Expr.binary op lhs rhs).Linear)
    (partner : ∀ inside σ, t.Realizes inside lhs σ →
      ∃ outside ρ τ, t.Realizes outside rhs ρ ∧ ExprType.combine? op σ ρ = some τ) :
    t.Extends lhs (.binary op lhs rhs) := by
  intro inside σ l
  obtain ⟨outside, ρ, τ, r, fits⟩ := partner inside σ l
  obtain ⟨l', r'⟩ := Realizes.splice linear l r
  exact ⟨_, τ, l'.binary r' fits, fun slot found => Choice.splice_inside found⟩

theorem extends_right (linear : (Expr.binary op lhs rhs).Linear)
    (partner : ∀ outside ρ, t.Realizes outside rhs ρ →
      ∃ inside σ τ, t.Realizes inside lhs σ ∧ ExprType.combine? op σ ρ = some τ) :
    t.Extends rhs (.binary op lhs rhs) := by
  intro outside ρ r
  obtain ⟨inside, σ, τ, l, fits⟩ := partner outside ρ r
  obtain ⟨l', r'⟩ := Realizes.splice linear l r
  exact ⟨_, τ, l'.binary r' fits,
    fun slot found => Choice.splice_outside (linear.not_references found)⟩

/-- The sides of a product or a quotient go together whatever is chosen in each. -/
theorem extends_of_scales (linear : (Expr.binary op lhs rhs).Linear)
    (scales : op = .mul ∨ op = .div) (h : t.Realizes choice (.binary op lhs rhs) τ) :
    t.Extends lhs (.binary op lhs rhs) ∧ t.Extends rhs (.binary op lhs rhs) := by
  obtain ⟨σ₀, ρ₀, l, r, fits⟩ := h.sides
  constructor
  · refine extends_left linear fun inside σ hl => ?_
    obtain ⟨τ', fits'⟩ := ExprType.exists_combine?_of_kind scales fits (l.kind_eq hl) rfl
    exact ⟨choice, ρ₀, τ', r, fits'⟩
  · refine extends_right linear fun outside ρ hr => ?_
    obtain ⟨τ', fits'⟩ := ExprType.exists_combine?_of_kind scales fits rfl (r.kind_eq hr)
    exact ⟨choice, σ₀, τ', l, fits'⟩

/-- After a sum or a dot product has limited its sides, what either can be given is within the
dimensions they share. -/
theorem within_shared (agrees : op = .add ∨ op = .sub ∨ op = .dot) (l : t.Realizes choice lhs τ)
    (r : t.Realizes choice rhs τ) :
    (∀ other σ, (Expr.narrowNode op lhs rhs t).Realizes other lhs σ →
        σ.Within (lhs.dimensions t ∩ rhs.dimensions t)) ∧
      ∀ other σ, (Expr.narrowNode op lhs rhs t).Realizes other rhs σ →
        σ.Within (lhs.dimensions t ∩ rhs.dimensions t) := by
  have within : τ.Within (lhs.dimensions t ∩ rhs.dimensions t) := fun d same =>
    DimensionSet.mem_inter.mpr
      ⟨within_dimensions l.typed (Narrows.refl t) l.admitted d same,
        within_dimensions r.typed (Narrows.refl t) r.admitted d same⟩
  have first := narrows_limit lhs (lhs.dimensions t ∩ rhs.dimensions t) t
  have second := narrows_limit rhs (lhs.dimensions t ∩ rhs.dimensions t)
    (lhs.limit (lhs.dimensions t ∩ rhs.dimensions t) t)
  have node : Expr.narrowNode op lhs rhs t = rhs.limit (lhs.dimensions t ∩ rhs.dimensions t)
      (lhs.limit (lhs.dimensions t ∩ rhs.dimensions t) t) := by
    rcases agrees with rfl | rfl | rfl <;> rfl
  rw [node]
  refine ⟨fun other σ h => ?_, fun other σ h => ?_⟩
  · exact within_of_limit l.typed within (Narrows.refl t)
      (h.of_narrows (second.trans first)).typed (h.of_narrows second).admitted
  · exact within_of_limit r.typed within first
      (h.of_narrows (second.trans first)).typed h.admitted

/-- Two sides that can be given one type can both be given every type of its kind within the
dimensions they share. -/
theorem exists_realizes_shared (linear : (Expr.binary op lhs rhs).Linear)
    (l : t.Realizes choice lhs τ) (r : t.Realizes choice rhs τ) (kind : τ.kind = σ.kind)
    (within : σ.Within (lhs.dimensions t ∩ rhs.dimensions t)) :
    ∃ other, t.Realizes other lhs σ ∧ t.Realizes other rhs σ := by
  cases σ with
  | scalar =>
    cases τ with
    | scalar => exact ⟨choice, l, r⟩
    | vector => simp [ExprType.kind] at kind
  | vector d =>
    obtain ⟨inLeft, inRight⟩ := DimensionSet.mem_inter.mp (ExprType.within_vector.mp within)
    obtain ⟨inside, hl⟩ := l.exists_of_mem_dimensions linear.left inLeft
    obtain ⟨outside, hr⟩ := r.exists_of_mem_dimensions linear.right inRight
    exact ⟨_, Realizes.splice linear hl hr⟩

/-- The sides of a sum or a dot product go together once they are limited to what they share. -/
theorem extends_of_agrees (linear : (Expr.binary op lhs rhs).Linear)
    (agrees : op = .add ∨ op = .sub ∨ op = .dot) (h : t.Realizes choice (.binary op lhs rhs) τ) :
    (Expr.narrowNode op lhs rhs t).Extends lhs (.binary op lhs rhs) ∧
      (Expr.narrowNode op lhs rhs t).Extends rhs (.binary op lhs rhs) := by
  obtain ⟨σ₀, ρ₀, l, r, fits⟩ := h.sides
  obtain ⟨rfl, equal⟩ := ExprType.combine?_agrees agrees fits
  obtain ⟨leftWithin, rightWithin⟩ := within_shared agrees l r
  have atNode := narrows_narrowNode op lhs rhs t
  -- A type within what is shared is given to both sides by one choice, which the node spares.
  have both {σ : ExprType} (same : σ₀.kind = σ.kind)
      (within : σ.Within (lhs.dimensions t ∩ rhs.dimensions t)) :
      ∃ other τ', (Expr.narrowNode op lhs rhs t).Realizes other lhs σ ∧
        (Expr.narrowNode op lhs rhs t).Realizes other rhs σ ∧
        ExprType.combine? op σ σ = some τ' := by
    obtain ⟨other, l', r'⟩ := exists_realizes_shared linear l r same within
    obtain ⟨τ', fits'⟩ := equal σ same
    have whole : t.Realizes other (.binary op lhs rhs) τ' := l'.binary r' fits'
    have spared := spares_narrowNode whole.typed (Narrows.refl t) whole.admitted
    exact ⟨other, τ', l'.of_spares atNode spared, r'.of_spares atNode spared, fits'⟩
  constructor
  · refine extends_left linear fun inside σ hl => ?_
    obtain ⟨other, τ', -, r', fits'⟩ :=
      both (l.kind_eq (hl.of_narrows atNode)) (leftWithin inside σ hl)
    exact ⟨other, σ, τ', r', fits'⟩
  · refine extends_right linear fun outside ρ hr => ?_
    obtain ⟨other, τ', l', -, fits'⟩ :=
      both (r.kind_eq (hr.of_narrows atNode)) (rightWithin outside ρ hr)
    exact ⟨other, ρ, τ', l', fits'⟩

/-- **At a narrowed node a choice for a side is part of a choice for the node**, unless the node is
a cross product. -/
theorem extends_narrowNode (linear : (Expr.binary op lhs rhs).Linear) (notCross : op ≠ .cross)
    (h : t.Realizes choice (.binary op lhs rhs) τ) :
    (Expr.narrowNode op lhs rhs t).Extends lhs (.binary op lhs rhs) ∧
      (Expr.narrowNode op lhs rhs t).Extends rhs (.binary op lhs rhs) := by
  cases op with
  | add | sub | dot => exact extends_of_agrees linear (by simp) h
  | mul | div => exact extends_of_scales linear (by simp) h
  | cross => exact absurd rfl notCross

/-! ## The whole tree -/

/-- **Each candidate left is part of a choice** under which the tree has a type. -/
theorem exists_realizes_of_mem_candidates (linear : e.Linear) (crossFree : e.crossFree = true)
    (h : t.Realizes choice e τ) (member : slot ∈ t.referencedGroupSlots e)
    (held : d ∈ (e.narrow t).candidates slot) :
    ∃ other υ, t.Realizes other e υ ∧ other slot = d := by
  induction e generalizing t choice τ with
  | slot index =>
    obtain ⟨q, members, candidates, found⟩ := exists_group_of_mem member
    obtain rfl : index = slot := by
      simpa [Expr.references] using (mem_referencedGroupSlots.mp member).2
    rw [Expr.narrow, candidates_of_get? found] at held
    exact ⟨fun _ => d, .vector d, Realizes.slot found fun _ => held, rfl⟩
  | one => exact absurd (mem_referencedGroupSlots.mp member).2 Bool.false_ne_true
  | binary op lhs rhs ihl ihr =>
    obtain ⟨notCross, freeLeft, freeRight⟩ := Expr.crossFree_binary.mp crossFree
    obtain ⟨fromLeft, fromRight⟩ := extends_narrowNode linear notCross h
    have atNode := narrows_narrowNode op lhs rhs t
    have below := narrows_narrow lhs (Expr.narrowNode op lhs rhs t)
    have spared := spares_narrowNode h.typed (Narrows.refl t) h.admitted
    obtain ⟨σ, ρ, l, r, -⟩ := (h.of_spares atNode spared).sides
    -- What a side allows at the node, the node allows.
    have lifted {part : Expr} {inside : Choice} {υ : ExprType}
        (extension : (Expr.narrowNode op lhs rhs t).Extends part (.binary op lhs rhs))
        (hp : (Expr.narrowNode op lhs rhs t).Realizes inside part υ)
        (referenced : part.references slot = true) :
        ∃ other υ, t.Realizes other (.binary op lhs rhs) υ ∧ other slot = inside slot := by
      obtain ⟨other, υ', whole, agree⟩ := extension inside _ hp
      exact ⟨other, υ', whole.of_narrows atNode, agree slot referenced⟩
    obtain ⟨group, referenced⟩ := mem_referencedGroupSlots.mp member
    rcases (Bool.or_eq_true _ _).mp referenced with inLeft | inRight
    · have left : slot ∈ (Expr.narrowNode op lhs rhs t).referencedGroupSlots lhs :=
        mem_referencedGroupSlots.mpr ⟨atNode.groupSlots ▸ group, inLeft⟩
      have kept := ((narrows_narrow rhs _).candidates slot).subset held
      obtain ⟨inside, υ, hl, rfl⟩ := ihl linear.left freeLeft l left kept
      exact lifted fromLeft hl inLeft
    · have right : slot ∈ (lhs.narrow (Expr.narrowNode op lhs rhs t)).referencedGroupSlots rhs :=
        mem_referencedGroupSlots.mpr ⟨(below.trans atNode).groupSlots ▸ group, inRight⟩
      have still := r.of_spares below
        (spares_narrow_of_hasType l.typed (Narrows.refl _) l.admitted)
      obtain ⟨outside, υ, hr, rfl⟩ := ihr linear.right freeRight still right held
      exact lifted fromRight (hr.of_narrows below) inRight

namespace OperandTable

/-- **Narrowing leaves no dead candidate.** Where no slot occurs twice and no cross product occurs,
each candidate that narrowing leaves for a group of the tree is the one chosen for it in some table
that expansion gives, if it gives any. -/
theorem narrow_leaves_no_dead_candidate (linear : e.Linear) (crossFree : e.crossFree = true)
    (repeatFree : t.RepeatFree) (nonempty : t.expand e ≠ []) :
    ∀ slot ∈ t.referencedGroupSlots e, ∀ d ∈ (e.narrow t).candidates slot,
      ∃ u ∈ (e.narrow t).expand e, u ∈ t.expand e ∧ u.candidates slot = .single d := by
  intro slot member d held
  rw [expand_narrow repeatFree]
  obtain ⟨_, found⟩ := List.exists_mem_of_ne_nil _ nonempty
  obtain ⟨choice, admitted, rfl, verified⟩ := mem_expand.mp found
  have accepted := accepts_of_verifies (settled_assign admitted) verified
  rw [(narrows_assign admitted).accepts_iff] at accepted
  rcases accepted with ⟨τ, typed⟩ | ⟨index, rfl, beyond⟩
  · obtain ⟨other, υ, realized, rfl⟩ :=
      exists_realizes_of_mem_candidates linear crossFree ⟨admitted, typed⟩ member held
    have settled := settled_assign realized.admitted
    have assigned := (narrows_assign realized.admitted).hasType_iff.mpr realized.typed
    have expanded : t.assign e other ∈ t.expand e :=
      mem_expand.mpr ⟨other, realized.admitted, rfl, verifies_of_hasType settled assigned⟩
    exact ⟨_, expanded, expanded, candidates_assign other member⟩
  -- A slot beyond the table is no group.
  · obtain ⟨q, members, candidates, held'⟩ := exists_group_of_mem member
    obtain rfl : index = slot := by
      simpa [Expr.references] using (mem_referencedGroupSlots.mp member).2
    rw [beyond] at held'
    contradiction

/-- A dot product of a group and a sum scales a difference of two others, one of them divided: two
components, each with candidates of its own. -/
theorem narrow_leaves_no_dead_candidate_components :
    let group (name : String) (dimensions : List Dimension) : Operand :=
      .group ⟨"m", name⟩ (.ofList (dimensions.map fun d => (d, ⟨"m", name ++ "Member"⟩)))
        (.ofList dimensions)
    let t : OperandTable :=
      ⟨[group "Force" [2, 3, 4], group "Path" [5, 4, 3], group "Shift" [3, 4], group "Spin" [2, 3],
        group "Drift" [4, 3], .scalar ⟨"m", "Time"⟩]⟩
    let e : Expr := .binary .mul (.binary .dot (.slot 0) (.binary .add (.slot 1) (.slot 2)))
      (.binary .sub (.slot 3) (.binary .div (.slot 4) (.slot 5)))
    (e.Linear ∧ e.crossFree = true ∧ t.RepeatFree ∧ t.expand e ≠ []) ∧
      (e.narrow t).candidates 1 = .ofList [4, 3] ∧ (e.narrow t).candidates 4 = .single 3 ∧
      ∀ slot ∈ t.referencedGroupSlots e, ∀ d ∈ (e.narrow t).candidates slot,
        ∃ u ∈ (e.narrow t).expand e, u ∈ t.expand e ∧ u.candidates slot = .single d := by
  intro group t e
  have linear : e.Linear := by decide
  have repeatFree : t.RepeatFree := by decide
  have nonempty : t.expand e ≠ [] := by decide
  exact ⟨⟨linear, rfl, repeatFree, nonempty⟩, by decide, by decide,
    narrow_leaves_no_dead_candidate linear rfl repeatFree nonempty⟩

end OperandTable

end QuantityAlgebra
