import Mathlib.Data.List.Basic
import Mathlib.Data.List.Forall2
import QuantityAlgebra.Derivation.Materialize
import QuantityAlgebra.Proofs.Typing.Consistency

/-!
# What tables turn into

Under a choice every slot stands for one quantity: a group that the tree refers to for the member of
the chosen dimension, any other slot for what it was declared with (`signatureAt`). This does not
depend on the candidates that are left, and over a settled table it is the concrete signature the
materializer reads off. So the materializer drops a table exactly if an earlier one had the
signature of its choice, and labels what it keeps with the type of the tree.

That the members are there to be read off is an invariant of tables, `Membered`: each candidate of a
group is the dimension of a member. It holds of a classified signature, and narrowing keeps it.

Results:
* `membered_classify`, `Narrows.membered`: the invariant, at the start and kept.
* **`concreteSignature?_settled`**: the concrete signature of a settled table.
* `derivation_kind`, `derivation_dimension`: the labels of a derivation are those of the type.
* **`Materializer.all_eq`**: of the tables of a list, the first of each signature is derived.
-/

namespace QuantityAlgebra

/-! ## Members for candidates -/

/-- Whether each candidate is the dimension of a member. -/
def Operand.Membered : Operand → Prop
  | .group _ members candidates => ∀ d ∈ candidates, d ∈ members.keys
  | _ => True

theorem Operand.Narrows.membered {o p : Operand} (h : o.Narrows p) (held : p.Membered) :
    o.Membered := by
  cases h with
  | scalar | vector => trivial
  | group kept => exact fun d found => held d (kept.subset found)

theorem Operand.membered_classify (classifier : Classifier) (q : Quantity) :
    (classify classifier q).Membered := by
  unfold classify
  cases classifier q with
  | scalar | fixedVector | groupMember => trivial
  | group members => exact fun d found => DimensionSet.mem_ofList.mp found

namespace OperandTable

variable {t u : OperandTable} {choice : Choice} {e : Expr} {τ : ExprType}

/-- In every slot each candidate is the dimension of a member. -/
def Membered (t : OperandTable) : Prop :=
  ∀ slot operand, t.get? slot = some operand → operand.Membered

theorem membered_classify (classifier : Classifier) (signature : Signature) :
    (classify classifier signature).Membered := by
  intro slot operand found
  obtain ⟨q, -, rfl⟩ := List.mem_map.mp (List.mem_of_getElem? found)
  exact Operand.membered_classify classifier q

theorem Narrows.membered (h : t.Narrows u) (held : u.Membered) : t.Membered := by
  intro slot operand found
  obtain ⟨wider, kept, narrowed⟩ := h.exists_wider found
  exact narrowed.membered (held slot wider kept)

end OperandTable

/-! ## Lists of which each element has a value -/

section

variable {α β : Type} {f : α → Option β} {xs : List α} {ys : List β}

theorem mapM_eq_some_iff : xs.mapM f = some ys ↔ List.Forall₂ (fun x y => f x = some y) xs ys := by
  induction xs generalizing ys with
  | nil => simp [List.mapM_nil, eq_comm]
  | cons x xs ih =>
    rw [List.mapM_cons, List.forall₂_cons_left_iff]
    simp [Option.bind_eq_some_iff, ih, eq_comm (a := ys)]

theorem mapM_eq_none_iff : xs.mapM f = none ↔ ∃ x ∈ xs, f x = none := by
  induction xs with
  | nil => simp
  | cons x xs ih =>
    rw [List.mapM_cons, List.exists_mem_cons_iff, ← ih]
    cases f x <;> cases xs.mapM f <;> simp

end

/-! ## Signatures of choices -/

/-- The quantity a slot stands for, in a group the member of dimension `d`. -/
def Operand.boundAt (d : Dimension) : Operand → Quantity
  | .scalar q => q
  | .vector q _ => q
  | .group q members _ => (members.get? d).getD q

theorem Operand.Narrows.boundAt {o p : Operand} (h : o.Narrows p) (d : Dimension) :
    o.boundAt d = p.boundAt d := by
  cases h <;> rfl

theorem Operand.Narrows.declared {o p : Operand} (h : o.Narrows p) : o.declared = p.declared := by
  cases h <;> rfl

namespace OperandTable

/-- The quantity a slot stands for under a choice; a group that the tree does not refer to stands
for itself. -/
def boundIn (e : Expr) (choice : Choice) (slot : Nat) (operand : Operand) : Quantity :=
  if e.references slot = true then operand.boundAt (choice slot) else operand.declared

/-- The quantities all slots stand for under a choice. -/
def signatureAt (t : OperandTable) (e : Expr) (choice : Choice) : Signature :=
  t.operands.mapIdx (boundIn e choice)

variable {t u : OperandTable} {choice : Choice} {e : Expr} {τ : ExprType}

theorem getElem?_signatureAt (t : OperandTable) (e : Expr) (choice : Choice) (slot : Nat) :
    (t.signatureAt e choice)[slot]? = (t.get? slot).map (boundIn e choice slot) :=
  List.getElem?_mapIdx

/-- Candidates say nothing about what a choice stands for. -/
theorem Narrows.signatureAt (h : t.Narrows u) (e : Expr) (choice : Choice) :
    t.signatureAt e choice = u.signatureAt e choice := by
  refine List.ext_getElem? fun slot => ?_
  rw [getElem?_signatureAt, getElem?_signatureAt]
  refine h.map_eq slot fun narrowed => ?_
  rw [boundIn, boundIn, narrowed.boundAt, narrowed.declared]

/-- Over a settled table each slot is down to the quantity it stands for. -/
theorem concreteAt?_settled (settled : t.Settled choice e) (membered : t.Membered) {slot : Nat}
    {operand : Operand} (found : t.get? slot = some operand) :
    concreteAt? e slot operand = some (boundIn e choice slot operand) := by
  unfold boundIn
  cases operand with
  | scalar q => cases e.references slot <;> rfl
  | vector q d => cases e.references slot <;> rfl
  | group q members candidates =>
    rw [concreteAt?]
    split
    · rename_i referenced
      have single : candidates = .single (choice slot) := by
        have isGroup : slot ∈ t.groupSlots := mem_groupSlots.mpr (by simp [found, Operand.isGroup])
        have := settled slot (mem_referencedGroupSlots.mpr ⟨isGroup, referenced⟩)
        rwa [candidates_of_get? found] at this
      have held := membered slot _ found
      subst single
      obtain ⟨member, bound⟩ :=
        DimensionMap.get?_of_mem_keys (held (choice slot) (DimensionSet.mem_single.mpr rfl))
      have single : (DimensionSet.single (choice slot)).single? = some (choice slot) := rfl
      simp [Operand.concrete?, Operand.boundAt, single, bound]
    · rfl

/-- **The concrete signature of a settled table is that of the choice.** -/
theorem concreteSignature?_settled (settled : t.Settled choice e) (membered : t.Membered) :
    t.concreteSignature? e = some (t.signatureAt e choice) := by
  rw [concreteSignature?, signatureAt, List.mapIdx_eq_zipIdx_map]
  refine mapM_eq_some_iff.mpr (List.forall₂_map_right_iff.mpr (List.forall₂_same.mpr ?_))
  exact fun entry found =>
    concreteAt?_settled settled membered (List.mem_zipIdx_iff_getElem?.mp found)

/-- The same of a table narrowed until it is settled, read off the one before. -/
theorem Narrows.concreteSignature?_settled (narrowed : t.Narrows u) (settled : t.Settled choice e)
    (membered : u.Membered) : t.concreteSignature? e = some (u.signatureAt e choice) := by
  rw [OperandTable.concreteSignature?_settled settled (narrowed.membered membered),
    narrowed.signatureAt]

/-! ## Labels -/

theorem derivation_kind (config : Config) (signature : Signature) (typed : HasType t choice e τ) :
    (e.derivation config t signature).kind = τ.kind :=
  kind_eq_of_hasType typed

theorem derivation_dimension (config : Config) (signature : Signature)
    (settled : t.Settled choice e) (typed : HasType t choice e τ) :
    (e.derivation config t signature).dimension = τ.dimension? := by
  show e.resultDimension? t = _
  rw [Expr.resultDimension?, kind_eq_of_hasType typed, dimensions_eq_of_hasType settled typed]
  cases τ <;> rfl

end OperandTable

/-! ## A run of the materializer -/

/-- The tables that have a concrete signature, each with it. -/
def OperandTable.resolved (e : Expr) (ts : List OperandTable) : List (OperandTable × Signature) :=
  ts.filterMap fun t => (t.concreteSignature? e).map (t, ·)

theorem OperandTable.mem_resolved {e : Expr} {ts : List OperandTable} {t : OperandTable}
    {s : Signature} : (t, s) ∈ resolved e ts ↔ t ∈ ts ∧ t.concreteSignature? e = some s := by
  simp only [resolved, List.mem_filterMap, Option.map_eq_some_iff, Prod.mk.injEq]
  constructor
  · rintro ⟨u, found, s, concrete, rfl, rfl⟩
    exact ⟨found, concrete⟩
  · rintro ⟨found, concrete⟩
    exact ⟨t, found, s, concrete, rfl, rfl⟩

namespace Materializer

open OperandTable (resolved)

/-- **Of the tables of a list, the first of each concrete signature is derived**, unless the
signature was met before. -/
theorem all_eq (m : Materializer) (ts : List OperandTable) :
    (m.all ts).1 = ((distinctBy Prod.snd (resolved m.expr ts)).filter (·.2 ∉ m.seen)).map
      fun c => m.expr.derivation m.config c.1 c.2 := by
  induction ts generalizing m with
  | nil => rfl
  | cons t ts ih =>
    rw [all, resolved, List.filterMap_cons]
    obtain ⟨concrete, stepped⟩ | ⟨s, seen, concrete, stepped⟩ | ⟨s, fresh, concrete, stepped⟩ :=
      m.step_cases t
    · rw [stepped, concrete]
      exact ih m
    · rw [stepped, concrete, Option.map_some, distinctBy,
        List.filter_cons_of_neg (by simpa using seen), List.filter_filter]
      refine (ih m).trans (congrArg _ (List.filter_congr fun c _ => ?_))
      by_cases same : c.2 = s <;> simp [same, seen]
    · rw [stepped, concrete, Option.map_some, distinctBy,
        List.filter_cons_of_pos (by simpa using fresh), List.filter_filter]
      refine congrArg (_ :: ·) ((ih { m with seen := s :: m.seen }).trans ?_)
      refine congrArg _ (List.filter_congr fun c _ => ?_)
      simp [Bool.and_comm]

/-- The same of tables whose signatures are known. -/
theorem all_map {α : Type} {table : α → OperandTable} {key : α → Signature} {xs : List α}
    (m : Materializer)
    (concrete : ∀ x ∈ xs, (table x).concreteSignature? m.expr = some (key x)) :
    (m.all (xs.map table)).1 =
      ((distinctBy key xs).filter (key · ∉ m.seen)).map
        fun x => m.expr.derivation m.config (table x) (key x) := by
  have paired : resolved m.expr (xs.map table) = xs.map fun x => (table x, key x) := by
    rw [resolved, List.filterMap_map, ← List.filterMap_eq_map]
    exact List.filterMap_congr fun x held => by simp [concrete x held]
  rw [all_eq, paired, distinctBy_map, List.filter_map, List.map_map]
  rfl

end Materializer

end QuantityAlgebra
