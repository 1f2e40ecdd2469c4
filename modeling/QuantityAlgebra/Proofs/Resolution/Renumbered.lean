import Mathlib.Data.List.Nodup
import Mathlib.Data.List.Perm.Basic
import Mathlib.Logic.Equiv.Basic
import QuantityAlgebra.Proofs.Derivation.Duplicates
import QuantityAlgebra.Proofs.Resolution.Closed
import QuantityAlgebra.Proofs.Resolution.Comparison

/-!
# Slots under other numbers

The numbers of the slots settle in which order groups are narrowed and branched on, in which order
selections come, and which of two selections with one signature is the first. A renumbering of the
slots, a permutation `p` of their numbers, changes all of this. To compare what comes out,
selections are told apart by the choices they make, `Choice`, which are made for slots and not for
places in a list: choices for the renumbered tree are those for the tree, taken along `p`.

What comes out is a set of choices only if no two selections share a signature. That is so where the
groups have distinct members; the first of two is then never asked for.

Results:
* `typeAt?_rename`, `Renumbers.admits_iff`, `Renumbers.signatureAt`: types, candidates and
  signatures along a renumbering.
* `exists_types_iff_exists_choice`: what comes of selections comes of choices.
* **`keeps_iff_types`**: with distinct members every selection that is typed counts.
* `Renumbers.resultsIn_iff`: the same types come out.
* `exists_labelAlong_iff`, `exists_labelAlong_rename`: what is derived, in terms of choices.
* **`resolveWith_rename`**: renumbered definitions resolve to renumbered derivations, or fail with
  the same code.
-/

namespace QuantityAlgebra

/-- Lists that carry the same keys, none twice, correspond one to one, up to order. -/
theorem exists_forall₂_perm {α β γ : Type} {f : α → γ} {g : β → γ} {xs : List α} {ys : List β}
    (hx : (xs.map f).Nodup) (hy : (ys.map g).Nodup)
    (same : ∀ key, (∃ x ∈ xs, f x = key) ↔ ∃ y ∈ ys, g y = key) :
    ∃ zs, List.Forall₂ (fun x z => f x = g z) xs zs ∧ zs.Perm ys := by
  have perm : (xs.map f).Perm (ys.map g) :=
    (List.perm_ext_iff_of_nodup hx hy).mpr fun key => by
      rw [List.mem_map, List.mem_map, same]
  have keyed : List.Forall₂ (fun key y => key = g y) (ys.map g) ys :=
    List.forall₂_map_left_iff.mpr (List.forall₂_same.mpr fun _ _ => rfl)
  obtain ⟨zs, matched, reordered⟩ := List.perm_comp_forall₂ perm keyed
  exact ⟨zs, List.forall₂_map_left_iff.mp matched, reordered⟩

/-! ## Renumbering -/

namespace Expr

variable {e : Expr}

/-- The tree with each slot under another number. -/
def rename (p : Equiv.Perm ℕ) : Expr → Expr
  | .slot index => .slot (p index)
  | .one => .one
  | .binary op lhs rhs => .binary op (lhs.rename p) (rhs.rename p)

theorem references_rename (p : Equiv.Perm ℕ) (e : Expr) (slot : ℕ) :
    (e.rename p).references (p slot) = e.references slot := by
  induction e with
  | slot index => simp [rename, references]
  | one => rfl
  | binary op lhs rhs ihl ihr => simp only [rename, references, ihl, ihr]

theorem below_rename {p : Equiv.Perm ℕ} {bound bound' : ℕ}
    (inside : ∀ slot, p slot < bound' ↔ slot < bound) :
    (e.rename p).Below bound' ↔ e.Below bound := by
  rw [Below, Below, p.surjective.forall]
  simp only [references_rename, inside]

end Expr

/-- Signatures that are alike up to a renumbering have their slots at such numbers. -/
theorem lt_length_iff_of_permuted {p : Equiv.Perm ℕ} {signature signature' : Signature}
    (permuted : ∀ slot, signature'[p slot]? = signature[slot]?) (slot : ℕ) :
    p slot < signature'.length ↔ slot < signature.length := by
  rw [← not_iff_not, Nat.not_lt, Nat.not_lt, ← List.getElem?_eq_none_iff,
    ← List.getElem?_eq_none_iff, permuted]

namespace OperandTable

variable {t u : OperandTable} {p : Equiv.Perm ℕ} {e : Expr} {choice other : Choice} {slot : ℕ}
  {τ : ExprType} {dims earlier : List Dimension}

/-- The second table holds at `p slot` what the first holds at `slot`. -/
def Renumbers (t : OperandTable) (p : Equiv.Perm ℕ) (u : OperandTable) : Prop :=
  ∀ slot, u.get? (p slot) = t.get? slot

theorem renumbers_classify (classifier : Classifier) {signature signature' : Signature}
    (permuted : ∀ slot, signature'[p slot]? = signature[slot]?) :
    (classify classifier signature).Renumbers p (classify classifier signature') := by
  intro slot
  rw [get?_classify, get?_classify, permuted]

theorem typeAt?_rename (h : t.Renumbers p u) (e : Expr) (choice : Choice) :
    (e.rename p).typeAt? u choice = e.typeAt? t (choice ∘ p) := by
  induction e with
  | slot index => rw [Expr.rename, Expr.typeAt?, Expr.typeAt?, h, Function.comp_apply]
  | one => rfl
  | binary op lhs rhs ihl ihr => simp only [Expr.rename, Expr.typeAt?, ihl, ihr]

namespace Renumbers

theorem hasType_iff (h : t.Renumbers p u) :
    HasType u choice (e.rename p) τ ↔ HasType t (choice ∘ p) e τ := by
  rw [← Expr.typeAt?_eq_some, typeAt?_rename h, Expr.typeAt?_eq_some]

theorem mem_referencedGroupSlots_iff (h : t.Renumbers p u) :
    p slot ∈ u.referencedGroupSlots (e.rename p) ↔ slot ∈ t.referencedGroupSlots e := by
  rw [mem_referencedGroupSlots, mem_referencedGroupSlots, mem_groupSlots, mem_groupSlots, h,
    Expr.references_rename]

/-- What is admitted for the renumbered tree is admitted for the tree. -/
theorem admits_iff (h : t.Renumbers p u) :
    u.Admits choice (e.rename p) ↔ t.Admits (choice ∘ p) e := by
  rw [Admits, Admits, p.surjective.forall]
  refine forall_congr' fun slot => ?_
  rw [h.mem_referencedGroupSlots_iff, candidates, candidates, h, Function.comp_apply]

/-- And it stands for the same quantities, under the other numbers. -/
theorem signatureAt (h : t.Renumbers p u) (e : Expr) (choice : Choice) (slot : ℕ) :
    (u.signatureAt (e.rename p) choice)[p slot]? = (t.signatureAt e (choice ∘ p))[slot]? := by
  have bound : boundIn (e.rename p) choice (p slot) = boundIn e (choice ∘ p) slot := by
    funext operand
    rw [boundIn, boundIn, Expr.references_rename, Function.comp_apply]
  rw [getElem?_signatureAt, getElem?_signatureAt, h, bound]

end Renumbers

/-- Every choice is met along a renumbering. -/
theorem exists_choice_comp (p : Equiv.Perm ℕ) {property : Choice → Prop} :
    (∃ choice, property choice) ↔ ∃ choice : Choice, property (choice ∘ p) :=
  p.injective.surjective_comp_right.exists

/-! ## Choices and selections -/

/-- An operand looks the same under two choices that say the same of the groups that the tree refers
to, if what is looked at depends on the dimension of groups alone. -/
theorem view_eq_of_eqOn {α : Type} {view : Dimension → Operand → α} {operand : Operand}
    (fixed : ∀ o : Operand, o.isGroup = false → ∀ d d', view d o = view d' o)
    (same : ∀ slot ∈ t.referencedGroupSlots e, choice slot = other slot)
    (referenced : e.references slot = true) (found : t.get? slot = some operand) :
    view (choice slot) operand = view (other slot) operand := by
  cases operand with
  | scalar | vector => exact fixed _ rfl _ _
  | group => rw [same slot (mem_referencedGroupSlots_of_get? found referenced)]

/-- Types depend on what is chosen for the groups that the tree refers to. -/
theorem agrees_of_eqOn (same : ∀ slot ∈ t.referencedGroupSlots e, choice slot = other slot) :
    t.Agrees choice t other e := by
  intro slot referenced
  cases found : t.get? slot with
  | none => rfl
  | some operand =>
    refine congrArg some (view_eq_of_eqOn ?_ same referenced found)
    exact fun _ isGroup => Operand.typeAt_of_isGroup_eq_false isGroup

/-- So do the quantities that the slots stand for. -/
theorem signatureAt_congr (same : ∀ slot ∈ t.referencedGroupSlots e, choice slot = other slot) :
    t.signatureAt e choice = t.signatureAt e other := by
  refine List.ext_getElem? fun slot => ?_
  rw [getElem?_signatureAt, getElem?_signatureAt]
  cases found : t.get? slot with
  | none => rfl
  | some operand =>
    rw [Option.map_some, Option.map_some, boundIn, boundIn]
    split
    · rename_i referenced
      refine congrArg some (view_eq_of_eqOn (fun _ isGroup d d' => ?_) same referenced found)
      rw [Operand.boundAt_of_isGroup_eq_false isGroup, Operand.boundAt_of_isGroup_eq_false isGroup]
    · rfl

/-- **Selections are choices**: the same types and signatures come of both. -/
theorem exists_types_iff_exists_choice (property : Signature → Prop) :
    (∃ dims, t.Types e dims τ ∧ property (t.signatureOf e dims)) ↔
      ∃ choice, (t.Admits choice e ∧ HasType t choice e τ) ∧ property (t.signatureAt e choice) := by
  constructor
  · rintro ⟨dims, types, held⟩
    exact ⟨t.choiceOf e dims, (types_iff_admits.mp types).2, held⟩
  · rintro ⟨choice, ⟨admitted, typed⟩, held⟩
    have same : ∀ slot ∈ t.referencedGroupSlots e,
        t.choiceOf e ((t.referencedGroupSlots e).map choice) slot = choice slot :=
      ofSelection_map (t.nodup_referencedGroupSlots e) choice
    have admitted' : t.Admits (t.choiceOf e ((t.referencedGroupSlots e).map choice)) e :=
      fun slot found => same slot found ▸ admitted slot found
    have typed' := typed.of_agrees (agrees_of_eqOn same).symm
    refine ⟨_, types_iff_admits.mpr ⟨by simp, admitted', typed'⟩, ?_⟩
    rwa [signatureOf, signatureAt_congr same]

/-! ## Distinct members -/

namespace DistinctMembers

/-- **With distinct members every selection that is typed counts.** -/
theorem keeps_iff_types (distinct : t.DistinctMembers) (membered : t.Membered) :
    t.Keeps e dims τ ↔ t.Types e dims τ := by
  refine ⟨And.left, fun types => ⟨types, fun earlier σ types' before same => ?_⟩⟩
  obtain ⟨length, admitted, -⟩ := types_iff_admits.mp types
  obtain ⟨length', admitted', -⟩ := types_iff_admits.mp types'
  have chosen := distinct.eq_of_signatureAt_eq membered admitted' admitted same
  have repeated : earlier = dims := by
    rw [eq_map_choiceOf length, eq_map_choiceOf length']
    exact List.map_congr_left chosen
  exact List.lex_irrefl (fun _ => UInt32.lt_irrefl _) dims (repeated ▸ before)

/-- So what comes out are the types under the choices that the table admits. -/
theorem resultsIn_iff (distinct : t.DistinctMembers) (membered : t.Membered) :
    t.ResultsIn e τ ↔ ∃ choice, t.Admits choice e ∧ HasType t choice e τ := by
  have choices : (∃ dims, t.Types e dims τ ∧ True) ↔
      ∃ choice, (t.Admits choice e ∧ HasType t choice e τ) ∧ True :=
    exists_types_iff_exists_choice fun _ => True
  simp only [and_true] at choices
  rw [← choices, ResultsIn]
  exact exists_congr fun _ => distinct.keeps_iff_types membered

end DistinctMembers

/-- **The same types come out** of a renumbered tree. -/
theorem Renumbers.resultsIn_iff (h : t.Renumbers p u) (distinct : t.DistinctMembers)
    (membered : t.Membered) (distinct' : u.DistinctMembers) (membered' : u.Membered) :
    t.ResultsIn e τ ↔ u.ResultsIn (e.rename p) τ := by
  rw [distinct.resultsIn_iff membered, distinct'.resultsIn_iff membered', exists_choice_comp p]
  exact exists_congr fun choice => and_congr h.admits_iff.symm h.hasType_iff.symm

end OperandTable

/-! ## What is derived -/

/-- What a derivation says of the slots, read under other numbers, and what it says of the tree. -/
def Derivation.labelAlong (p : Equiv.Perm ℕ) (x : Derivation) :
    (ℕ → Option Quantity) × Kind × Option Dimension :=
  (fun slot => x.signature[p slot]?, x.kind, x.dimension)

/-- The second derivation is of the same kind and dimension, and has at `p slot` what the first has
at `slot`. -/
structure Derivation.Renumbered (p : Equiv.Perm ℕ) (x y : Derivation) : Prop where
  signature : ∀ slot, y.signature[p slot]? = x.signature[slot]?
  kind : y.kind = x.kind
  dimension : y.dimension = x.dimension

/-- The derivations of both correspond one to one, up to their order. -/
def Resolution.Renumbered (p : Equiv.Perm ℕ) (r r' : Resolution) : Prop :=
  ∃ listed, List.Forall₂ (Derivation.Renumbered p) r.derivations listed ∧
    listed.Perm r'.derivations

theorem OperandTable.Types.labelAlong_derivationOf {t : OperandTable} {e : Expr}
    {dims : List Dimension} {τ : ExprType} (types : t.Types e dims τ) (config : Config)
    (p : Equiv.Perm ℕ) : (t.derivationOf config e dims).labelAlong p =
      (fun slot => (t.signatureOf e dims)[p slot]?, τ.kind, τ.dimension?) := by
  have described : Describes t e (t.derivationOf config e dims) (dims, τ) :=
    OperandTable.describes_derivationOf types
  rw [Derivation.labelAlong, described.signature, described.kind, described.dimension]

theorem Derivation.renumbered_of_labelAlong {p : Equiv.Perm ℕ} {x y : Derivation}
    (same : x.labelAlong (Equiv.refl ℕ) = y.labelAlong p) : x.Renumbered p y := by
  obtain ⟨signature, labels⟩ := Prod.mk.inj same
  obtain ⟨kind, dimension⟩ := Prod.mk.inj labels
  exact ⟨fun slot => (congrFun signature slot).symm, kind.symm, dimension.symm⟩

/-- Partitioning keeps a correspondence. -/
theorem Resolution.renumbered_ofDerivations {p : Equiv.Perm ℕ}
    {derivations derivations' listed : List Derivation}
    (matched : List.Forall₂ (Derivation.Renumbered p) derivations listed)
    (reordered : listed.Perm derivations') (definition definition' : Definition) :
    Resolution.Renumbered p (ofDerivations definition derivations)
      (ofDerivations definition' derivations') := by
  obtain ⟨listed', matched', reordered'⟩ :=
    List.perm_comp_forall₂ (perm_ofDerivations definition derivations) matched
  exact ⟨listed', matched',
    (reordered'.trans reordered).trans (perm_ofDerivations definition' derivations').symm⟩

namespace Resolver

variable {State : Type} {resolver : Resolver} {definition definition' : Definition} {e : Expr}
  {signature : Signature}

/-- No two derivations say the same of the slots. -/
theorem nodup_labelAlong (resolver : Resolver) (signature : Signature) (e : Expr)
    (p : Equiv.Perm ℕ) : ((resolver.derivations signature e).map (·.labelAlong p)).Nodup := by
  have distinct := List.pairwise_map.mp (resolver.nodup_signature_derivations signature e)
  refine List.pairwise_map.mpr (distinct.imp fun differ same => differ ?_)
  have read := congrFun (congrArg Prod.fst same)
  exact List.ext_getElem? (p.surjective.forall.mpr read)

/-- With distinct members the selections that count are those that are typed. -/
theorem mem_kept_iff_types (resolver : Resolver)
    (distinct : ∀ q members, resolver.classifier q = .group members → members.values.Nodup)
    (below : e.Below signature.length) {dims : List Dimension} {τ : ExprType} :
    (dims, τ) ∈ (OperandTable.classify resolver.classifier signature).kept e ↔
      (OperandTable.classify resolver.classifier signature).Types e dims τ := by
  rw [OperandTable.mem_kept (OperandTable.ascending_classify _ _)
    (covers_classify_of_below resolver.classifier below)]
  exact (OperandTable.distinctMembers_classify distinct signature).keeps_iff_types
    (OperandTable.membered_classify _ _)

/-- **What is derived, in terms of choices.** -/
theorem exists_labelAlong_iff (resolver : Resolver)
    (distinct : ∀ q members, resolver.classifier q = .group members → members.values.Nodup)
    (below : e.Below signature.length) (p : Equiv.Perm ℕ)
    (label : (ℕ → Option Quantity) × Kind × Option Dimension) :
    (∃ x ∈ resolver.derivations signature e, x.labelAlong p = label) ↔
      ∃ τ choice, ((OperandTable.classify resolver.classifier signature).Admits choice e ∧
          HasType (.classify resolver.classifier signature) choice e τ) ∧
        (fun slot => ((OperandTable.classify resolver.classifier signature).signatureAt e
          choice)[p slot]?, τ.kind, τ.dimension?) = label := by
  have selections : (∃ x ∈ resolver.derivations signature e, x.labelAlong p = label) ↔
      ∃ τ dims, (OperandTable.classify resolver.classifier signature).Types e dims τ ∧
        (fun slot => ((OperandTable.classify resolver.classifier signature).signatureOf e
          dims)[p slot]?, τ.kind, τ.dimension?) = label := by
    rw [derivations_eq]
    constructor
    · rintro ⟨_, derived, rfl⟩
      obtain ⟨⟨dims, τ⟩, kept, rfl⟩ := List.mem_map.mp derived
      have types := (resolver.mem_kept_iff_types distinct below).mp kept
      exact ⟨τ, dims, types, (types.labelAlong_derivationOf resolver.config p).symm⟩
    · rintro ⟨τ, dims, types, rfl⟩
      have kept := (resolver.mem_kept_iff_types distinct below).mpr types
      exact ⟨_, List.mem_map.mpr ⟨(dims, τ), kept, rfl⟩,
        types.labelAlong_derivationOf resolver.config p⟩
  rw [selections]
  exact exists_congr fun τ => OperandTable.exists_types_iff_exists_choice
    fun s => (fun slot => s[p slot]?, τ.kind, τ.dimension?) = label

/-- So the same is derived of a renumbered tree, up to the numbers of the slots. -/
theorem exists_labelAlong_rename (resolver : Resolver)
    (distinct : ∀ q members, resolver.classifier q = .group members → members.values.Nodup)
    {p : Equiv.Perm ℕ} {signature' : Signature}
    (permuted : ∀ slot, signature'[p slot]? = signature[slot]?)
    (below : e.Below signature.length)
    (label : (ℕ → Option Quantity) × Kind × Option Dimension) :
    (∃ x ∈ resolver.derivations signature e, x.labelAlong (Equiv.refl ℕ) = label) ↔
      ∃ y ∈ resolver.derivations signature' (e.rename p), y.labelAlong p = label := by
  have renumbers := OperandTable.renumbers_classify resolver.classifier permuted
  have below' := (Expr.below_rename (lt_length_iff_of_permuted permuted)).mpr below
  rw [exists_labelAlong_iff resolver distinct below, exists_labelAlong_iff resolver distinct below']
  refine exists_congr fun τ => ?_
  rw [OperandTable.exists_choice_comp p]
  simp only [renumbers.admits_iff, renumbers.hasType_iff, renumbers.signatureAt, Equiv.refl_apply]

/-- **Renumbering slots does not change what is derived.** Where the groups have distinct members,
two definitions that agree up to a permutation of the slots both resolve, and then to derivations
that correspond one to one, up to that permutation and their order, or both fail with one code. -/
theorem resolveWith_rename {operands operands' : ℕ}
    (report : State → ResolutionError → Option Diagnostic × State) (target : Quantity)
    (state : State)
    (distinct : ∀ q members, resolver.classifier q = .group members → members.values.Nodup)
    (p : Equiv.Perm ℕ) (read : Expr.parse definition.expression.toList operands = .ok e)
    (read' : Expr.parse definition'.expression.toList operands' = .ok (e.rename p))
    (permuted : ∀ slot, definition'.signature[p slot]? = definition.signature[slot]?) :
    Alike (Resolution.Renumbered p) (resolver.resolveWith report target definition state).1
      (resolver.resolveWith report target definition' state).1 := by
  have renumbers := OperandTable.renumbers_classify resolver.classifier permuted
  have below : (e.rename p).Below definition'.signature.length ↔
      e.Below definition.signature.length :=
    Expr.below_rename (lt_length_iff_of_permuted permuted)
  refine alike_of_resultsIn report target state read read' below.symm (fun _ τ => ?_)
    fun inRange => ?_
  · exact renumbers.resultsIn_iff (OperandTable.distinctMembers_classify distinct _)
      (OperandTable.membered_classify _ _) (OperandTable.distinctMembers_classify distinct _)
      (OperandTable.membered_classify _ _)
  · obtain ⟨listed, matched, reordered⟩ := exists_forall₂_perm
      (resolver.nodup_labelAlong definition.signature e (Equiv.refl ℕ))
      (resolver.nodup_labelAlong definition'.signature (e.rename p) p)
      (resolver.exists_labelAlong_rename distinct permuted inRange)
    exact Resolution.renumbered_ofDerivations
      (matched.imp fun _ _ => Derivation.renumbered_of_labelAlong) reordered _ _

/-- Two groups of different dimensions over a scalar: the scalar comes first, and the groups change
places. -/
theorem resolveWith_rename_swap :
    let classifier : Classifier := fun q =>
      if q.name = "Position" then
        .group (.ofList [(2, ⟨"m", "Position2"⟩), (3, ⟨"m", "Position3"⟩)])
      else if q.name = "Offset" then
        .group (.ofList [(2, ⟨"m", "Offset2"⟩), (3, ⟨"m", "Offset3"⟩), (4, ⟨"m", "Offset4"⟩)])
      else .scalar
    let resolver : Resolver := ⟨classifier, {}⟩
    let definition : Definition :=
      ⟨"({0} + {1}) / {2}", [⟨"m", "Position"⟩, ⟨"m", "Offset"⟩, ⟨"m", "Time"⟩], .none, false⟩
    let definition' : Definition :=
      ⟨"({2} + {1}) / {0}", [⟨"m", "Time"⟩, ⟨"m", "Offset"⟩, ⟨"m", "Position"⟩], .none, false⟩
    (∃ r, (resolver.resolveWith Sink.report ⟨"m", "Position"⟩ definition .silent).1 = .ok r ∧
        r.size = 2) ∧
      Alike (Resolution.Renumbered (Equiv.swap 0 2))
        (resolver.resolveWith Sink.report ⟨"m", "Position"⟩ definition .silent).1
        (resolver.resolveWith Sink.report ⟨"m", "Position"⟩ definition' .silent).1 := by
  intro classifier resolver definition definition'
  let e : Expr := .binary .div (.binary .add (.slot 0) (.slot 1)) (.slot 2)
  have read : Expr.parse definition.expression.toList definition.signature.length = .ok e :=
    Expr.parse_of_eq_displayOuter (by decide) (by decide)
  have read' : Expr.parse definition'.expression.toList definition'.signature.length =
      .ok (e.rename (Equiv.swap 0 2)) :=
    Expr.parse_of_eq_displayOuter (by decide) (by decide)
  have distinct : ∀ q members, resolver.classifier q = .group members → members.values.Nodup := by
    intro q members group
    dsimp only [resolver, classifier] at group
    split at group
    · rw [← Classification.group.inj group]
      decide
    · split at group
      · rw [← Classification.group.inj group]
        decide
      · contradiction
  have permuted : ∀ slot,
      definition'.signature[Equiv.swap 0 2 slot]? = definition.signature[slot]?
    | 0 | 1 | 2 => by decide
    | beyond + 3 => by
      rw [Equiv.swap_apply_of_ne_of_ne (by omega) (by omega)]
      rfl
  have succeeds : resolver.Succeeds ⟨"m", "Position"⟩ definition e _ :=
    ⟨read, by decide, by decide, by decide, rfl⟩
  exact ⟨⟨_, resolveWith_eq_ok_iff.mpr succeeds.outcome, by decide⟩,
    resolveWith_rename Sink.report _ _ distinct _ read read' permuted⟩

end Resolver

end QuantityAlgebra
