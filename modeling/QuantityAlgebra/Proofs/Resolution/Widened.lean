import QuantityAlgebra.Proofs.Derivation.Outline

/-!
# A group with one more member

A group that gains a member for one more dimension gains candidates in every slot declared as it, so
there are more selections, more tables to verify and more derivations, on both sides of what there
was. Nothing that was derived is lost, for three reasons. The outline of the tables is the same, so
what is selected without the new dimension is typed and derived as before. The new member was none
of the group, so no selection that takes it has the signature of one that does not, and comes first
in its place. And a target that accepted a dimension still does.

Results:
* `Widening.admits_iff`, `Widening.signatureOf_eq`: choices and signatures without the new member.
* **`Widening.restricts`**: so the selections that counted are those that add nothing.
* **`derivations_widened`**: what was derived is what is derived, without what is added.
* **`resolveWith_widened`**: a definition that resolved still does, and nothing is lost.
-/

namespace QuantityAlgebra

/-- The second of two classifiers has one more member in one group, for a dimension that the group
had none for, and a quantity that was none of its members. Of what is asked, anything else is
classified alike. -/
structure Widening (narrow wide : Classifier) (asked : List Quantity) where
  group : Quantity
  members : DimensionMap Quantity
  dimension : Dimension
  member : Quantity
  narrow_group : narrow group = .group members
  wide_group : wide group = .group (members.insert dimension member)
  new_dimension : dimension ∉ members.keys
  new_member : member ∉ members.values
  others : ∀ q ∈ asked, q ≠ group → wide q = narrow q

namespace Widening

variable {narrow wide : Classifier} {asked : List Quantity} {signature : Signature} {e : Expr}
  {choice : Choice} {slot : Nat} {dims : List Dimension} {d : Dimension} {τ : ExprType}

/-- The new member is bound in some slot that the tree refers to and that is declared as the
group. -/
def Adds (w : Widening narrow wide asked) (e : Expr) (declared bound : Signature) : Prop :=
  ∃ slot ∈ e.slots, declared[slot]? = some w.group ∧ bound[slot]? = some w.member

instance (w : Widening narrow wide asked) (e : Expr) (declared bound : Signature) :
    Decidable (w.Adds e declared bound) :=
  inferInstanceAs (Decidable (∃ slot ∈ e.slots, _))

/-- What a target took it still takes. -/
theorem takes (w : Widening narrow wide asked) {target : Quantity} (found : target ∈ asked)
    (taken : (narrow target).Takes τ) : (wide target).Takes τ := by
  by_cases same : target = w.group
  · subst same
    rw [w.narrow_group] at taken
    rw [w.wide_group]
    obtain ⟨d, held, type⟩ := taken
    exact ⟨d, DimensionMap.mem_keys_insert.mpr (Or.inr held), type⟩
  · rwa [w.others target found same]

/-! ## Tables -/

open OperandTable

theorem get?_narrow (w : Widening narrow wide asked) (declared : signature[slot]? = some w.group) :
    (classify narrow signature).get? slot =
      some (.group w.group w.members (.ofList w.members.keys)) := by
  rw [get?_classify, declared, Option.map_some, Operand.classify, w.narrow_group]

theorem get?_wide (w : Widening narrow wide asked) (declared : signature[slot]? = some w.group) :
    (classify wide signature).get? slot =
      some (.group w.group (w.members.insert w.dimension w.member)
        (.ofList (w.members.insert w.dimension w.member).keys)) := by
  rw [get?_classify, declared, Option.map_some, Operand.classify, w.wide_group]

/-- What is not declared as the group is the same in both tables. -/
theorem get?_of_ne (w : Widening narrow wide asked) (within : signature ⊆ asked)
    (other : signature[slot]? ≠ some w.group) :
    (classify narrow signature).get? slot = (classify wide signature).get? slot := by
  rw [get?_classify, get?_classify]
  cases declared : signature[slot]? with
  | none => rfl
  | some q =>
    have differ : q ≠ w.group := fun same => other (declared.trans (congrArg some same))
    rw [Option.map_some, Option.map_some, Operand.classify, Operand.classify,
      w.others q (within (List.mem_of_getElem? declared)) differ]

theorem sameOutline (w : Widening narrow wide asked) (within : signature ⊆ asked) :
    (classify narrow signature).SameOutline (classify wide signature) e := by
  intro slot _
  by_cases declared : signature[slot]? = some w.group
  · rw [w.get?_narrow declared, w.get?_wide declared]
    rfl
  · rw [w.get?_of_ne within declared]

/-- The candidates of a slot are those it has now, without the new dimension. -/
theorem mem_candidates_iff (w : Widening narrow wide asked) (within : signature ⊆ asked) :
    d ∈ (classify narrow signature).candidates slot ↔
      d ∈ (classify wide signature).candidates slot ∧
        (signature[slot]? = some w.group → d ≠ w.dimension) := by
  by_cases declared : signature[slot]? = some w.group
  · rw [candidates_of_get? (w.get?_narrow declared), candidates_of_get? (w.get?_wide declared),
      Operand.candidates, Operand.candidates, DimensionSet.mem_ofList, DimensionSet.mem_ofList,
      DimensionMap.mem_keys_insert]
    constructor
    · exact fun held => ⟨Or.inr held, fun _ same => w.new_dimension (same ▸ held)⟩
    · rintro ⟨held, old⟩
      exact held.resolve_left (old declared)
  · rw [candidates, candidates, w.get?_of_ne within declared]
    exact (and_iff_left fun same => absurd same declared).symm

/-! ## What is added -/

/-- A choice binds the new member where it takes the new dimension. -/
theorem adds_iff (w : Widening narrow wide asked)
    (admitted : (classify wide signature).Admits choice e) :
    w.Adds e signature ((classify wide signature).signatureAt e choice) ↔
      ∃ slot ∈ e.slots, signature[slot]? = some w.group ∧ choice slot = w.dimension := by
  refine exists_congr fun slot => and_congr_right fun occurs => and_congr_right fun declared => ?_
  have referenced := Expr.mem_slots.mp occurs
  have held := admitted slot (mem_referencedGroupSlots_of_get? (w.get?_wide declared) referenced)
  rw [candidates_of_get? (w.get?_wide declared), Operand.candidates, DimensionSet.mem_ofList,
    DimensionMap.mem_keys_insert] at held
  rw [getElem?_signatureAt, w.get?_wide declared, Option.map_some, boundIn, if_pos referenced,
    Operand.boundAt, DimensionMap.get?_insert, Option.some.injEq]
  by_cases taken : choice slot = w.dimension
  · simp [taken]
  · obtain ⟨a, bound⟩ := DimensionMap.mem_keys_iff.mp (held.resolve_left taken)
    have old : a ≠ w.member := fun same =>
      w.new_member (same ▸ DimensionMap.mem_values_of_get? bound)
    simp [taken, bound, old]

/-- **Admitted before were the choices that add nothing.** -/
theorem admits_iff (w : Widening narrow wide asked) (within : signature ⊆ asked) :
    (classify narrow signature).Admits choice e ↔
      (classify wide signature).Admits choice e ∧
        ¬w.Adds e signature ((classify wide signature).signatureAt e choice) := by
  have slots := (w.sameOutline within (e := e)).referencedGroupSlots
  constructor
  · intro admitted
    have admitted' : (classify wide signature).Admits choice e := fun slot found =>
      ((w.mem_candidates_iff within).mp (admitted slot (slots ▸ found))).1
    refine ⟨admitted', fun adds => ?_⟩
    obtain ⟨slot, occurs, declared, taken⟩ := (w.adds_iff admitted').mp adds
    have held := admitted slot
      (mem_referencedGroupSlots_of_get? (w.get?_narrow declared) (Expr.mem_slots.mp occurs))
    exact ((w.mem_candidates_iff within).mp held).2 declared taken
  · rintro ⟨admitted, nothing⟩ slot found
    rw [slots] at found
    refine (w.mem_candidates_iff within).mpr ⟨admitted slot found, fun declared taken => ?_⟩
    have occurs := Expr.mem_slots.mpr (mem_referencedGroupSlots.mp found).2
    exact nothing ((w.adds_iff admitted).mpr ⟨slot, occurs, declared, taken⟩)

/-- What adds nothing stands for what it stood for. -/
theorem signatureOf_eq (w : Widening narrow wide asked) (within : signature ⊆ asked)
    (nothing : ¬w.Adds e signature ((classify wide signature).signatureOf e dims)) :
    (classify narrow signature).signatureOf e dims =
      (classify wide signature).signatureOf e dims := by
  refine List.ext_getElem? fun slot => ?_
  rw [signatureOf] at nothing
  rw [signatureOf, signatureOf, (w.sameOutline within).choiceOf, getElem?_signatureAt,
    getElem?_signatureAt]
  by_cases declared : signature[slot]? = some w.group
  · rw [w.get?_narrow declared, w.get?_wide declared, Option.map_some, Option.map_some, boundIn,
      boundIn]
    split
    · rename_i referenced
      rw [Operand.boundAt, Operand.boundAt, DimensionMap.get?_insert, if_neg]
      intro taken
      refine nothing ⟨slot, Expr.mem_slots.mpr referenced, declared, ?_⟩
      rw [getElem?_signatureAt, w.get?_wide declared, Option.map_some, boundIn, if_pos referenced,
        Operand.boundAt, DimensionMap.get?_insert, if_pos taken, Option.getD_some]
    · rfl
  · rw [w.get?_of_ne within declared]

/-- **The selections that counted are those that add nothing.** -/
theorem restricts (w : Widening narrow wide asked) (within : signature ⊆ asked) (e : Expr) :
    (classify narrow signature).Restricts e (classify wide signature) e fun dims =>
      ¬w.Adds e signature ((classify wide signature).signatureOf e dims) := by
  have outline := w.sameOutline within (e := e)
  have types (dims : List Dimension) (τ : ExprType) :
      (classify narrow signature).Types e dims τ ↔ (classify wide signature).Types e dims τ ∧
        ¬w.Adds e signature ((classify wide signature).signatureOf e dims) := by
    rw [types_iff_admits, types_iff_admits, outline.referencedGroupSlots, outline.choiceOf,
      w.admits_iff within, outline.hasType_iff, signatureOf]
    tauto
  refine ⟨types, fun earlier dims τ typed => ?_⟩
  have nothing := ((types dims τ).mp typed).2
  constructor
  · intro same
    have nothing' := same ▸ nothing
    refine ⟨nothing', ?_⟩
    rw [w.signatureOf_eq within nothing', w.signatureOf_eq within nothing, same]
  · rintro ⟨nothing', same⟩
    rw [← w.signatureOf_eq within nothing', ← w.signatureOf_eq within nothing, same]

end Widening

/-! ## Resolution -/

namespace Resolver

variable {State : Type} {narrow wide : Classifier} {target : Quantity} {definition : Definition}
  {asked : List Quantity} {signature : Signature} {e : Expr} {r : Resolution}

/-- **What was derived is what is derived, without what is added.** -/
theorem derivations_widened (w : Widening narrow wide asked) (within : signature ⊆ asked)
    (below : e.Below signature.length) (config : Config) :
    (Resolver.mk narrow config).derivations signature e =
      ((Resolver.mk wide config).derivations signature e).filter fun x =>
        ¬w.Adds e signature x.signature := by
  have restricts := w.restricts within e
  have outline := w.sameOutline within (e := e)
  have ascending := OperandTable.ascending_classify
  have covers (classifier : Classifier) := covers_classify_of_below classifier below
  rw [derivations_eq, derivations_eq, List.filter_map, restricts.kept_eq (ascending narrow _)
    (covers narrow) (ascending wide _) (covers wide)]
  refine List.map_congr_left fun c found => ?_
  obtain ⟨kept, passes⟩ := List.mem_filter.mp found
  have keeps := (OperandTable.mem_kept (ascending wide _) (covers wide)).mp kept
  have nothing := of_decide_eq_true passes
  have types := (restricts.types c.1 c.2).mpr ⟨keeps.1, nothing⟩
  rw [OperandTable.derivationOf, OperandTable.derivationOf, w.signatureOf_eq within nothing,
    outline.derivation_fixAll config _ types keeps.1]

/-- **A group that gains a member loses no derivation.** What resolved still resolves: every list of
the result holds what it held, unchanged and in the same order, and a derivation is new exactly if
it binds the new member in a slot that the tree refers to and that is declared as the group. -/
theorem resolveWith_widened (w : Widening narrow wide (target :: definition.signature))
    (config : Config) (report : State → ResolutionError → Option Diagnostic × State) (state : State)
    (success : ((Resolver.mk narrow config).resolveWith report target definition state).1 =
      .ok r) :
    ∃ e r', Expr.parse definition.expression.toList definition.signature.length = .ok e ∧
      ((Resolver.mk wide config).resolveWith report target definition state).1 = .ok r' ∧
      r.scalar.Sublist r'.scalar ∧ (∀ d, (r.bucket d).Sublist (r'.bucket d)) ∧
      ∀ x ∈ r'.derivations, x ∉ r.derivations ↔ w.Adds e definition.signature x.signature := by
  have outcome := resolveWith_eq_ok_iff.mp success
  obtain ⟨e, succeeds⟩ := succeeds_of_outcome outcome
  have read := succeeds.read
  have within : definition.signature ⊆ target :: definition.signature :=
    List.subset_cons_self target definition.signature
  -- A type that the target took still comes out, and the target still takes it.
  obtain ⟨τ, ⟨dims, keeps⟩, taken⟩ :=
    (exists_outcome_iff ⟨narrow, config⟩ target read).mp ⟨r, outcome⟩
  obtain ⟨r', outcome'⟩ := (exists_outcome_iff ⟨wide, config⟩ target read).mpr
    ⟨τ, ⟨dims, ((w.restricts within e).keeps_iff.mp keeps).1⟩, w.takes List.mem_cons_self taken⟩
  have listed := derivations_widened w within (Expr.below_of_parse read) config
  have sublist : ((Resolver.mk narrow config).derivations definition.signature e).Sublist
      ((Resolver.mk wide config).derivations definition.signature e) :=
    listed ▸ List.filter_sublist
  obtain rfl := eq_ofDerivations_of_success read outcome
  obtain rfl := eq_ofDerivations_of_success read outcome'
  refine ⟨e, _, read, resolveWith_eq_ok_iff.mpr outcome', ?_, fun d => ?_, fun x found => ?_⟩
  · rw [Resolution.scalar_ofDerivations, Resolution.scalar_ofDerivations]
    exact sublist.filter _
  · rw [Resolution.bucket_ofDerivations, Resolution.bucket_ofDerivations]
    exact sublist.filter _
  · have derived := (Resolution.perm_ofDerivations definition _).mem_iff.mp found
    rw [(Resolution.perm_ofDerivations definition _).mem_iff, listed, List.mem_filter,
      decide_eq_true_eq, and_iff_right derived, not_not]

/-- The group is declared for two slots, and is the target; its third member is one derivation
more. -/
theorem resolveWith_widened_sum :
    let members : DimensionMap Quantity :=
      .ofList [(2, ⟨"m", "Position2"⟩), (4, ⟨"m", "Position4"⟩)]
    let narrow : Classifier := fun q => if q.name = "Position" then .group members else .scalar
    let wide : Classifier := fun q =>
      if q.name = "Position" then .group (members.insert 3 ⟨"m", "Position3"⟩) else .scalar
    let signature : Signature := [⟨"m", "Position"⟩, ⟨"m", "Time"⟩, ⟨"m", "Position"⟩]
    let definition : Definition := ⟨"{0} + ({2} / {1})", signature, .none, false⟩
    ∃ (w : Widening narrow wide (⟨"m", "Position"⟩ :: signature)) (r : Resolution),
      ((Resolver.mk narrow {}).resolveWith Sink.report ⟨"m", "Position"⟩ definition .silent).1 =
        .ok r ∧ r.size = 2 ∧
      ∃ e r', Expr.parse definition.expression.toList definition.signature.length = .ok e ∧
        ((Resolver.mk wide {}).resolveWith Sink.report ⟨"m", "Position"⟩ definition .silent).1 =
          .ok r' ∧
        r.scalar.Sublist r'.scalar ∧ (∀ d, (r.bucket d).Sublist (r'.bucket d)) ∧
        ∀ x ∈ r'.derivations, x ∉ r.derivations ↔ w.Adds e signature x.signature := by
  intro members narrow wide signature definition
  let w : Widening narrow wide (⟨"m", "Position"⟩ :: signature) :=
    { group := ⟨"m", "Position"⟩
      members := members
      dimension := 3
      member := ⟨"m", "Position3"⟩
      narrow_group := rfl
      wide_group := rfl
      new_dimension := by decide
      new_member := by decide
      others := by decide }
  have read : Expr.parse definition.expression.toList definition.signature.length =
      .ok (.binary .add (.slot 0) (.binary .div (.slot 2) (.slot 1))) :=
    Expr.parse_of_eq_displayOuter (by decide) (by decide)
  have succeeds : (Resolver.mk narrow {}).Succeeds ⟨"m", "Position"⟩ definition _ _ :=
    ⟨read, by decide, by decide, by decide, rfl⟩
  have success : ((Resolver.mk narrow {}).resolveWith Sink.report ⟨"m", "Position"⟩ definition
      .silent).1 = .ok _ := resolveWith_eq_ok_iff.mpr succeeds.outcome
  exact ⟨w, _, success, by decide, resolveWith_widened w {} Sink.report .silent success⟩

end Resolver

end QuantityAlgebra
