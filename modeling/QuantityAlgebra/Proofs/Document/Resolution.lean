import QuantityAlgebra.Document.Resolution
import QuantityAlgebra.Proofs.Document.Population
import QuantityAlgebra.Proofs.Resolution.Listing

/-!
# Resolutions read back

A resolution is written with everything it holds, so it reads back if its quantities do: those of
its definition and of the signatures of its derivations. Resolving makes up no quantity. A slot of a
derivation stands for the quantity it was declared with or for a member of that group, so whatever
is resolved from quantities given by paths can be written and read back.

Results:
* **`readsBack_resolution`**: a resolution of legible quantities reads back.
* `Resolver.exists_declared_of_mem_signature`: where the quantities of a derivation come from.
* **`Resolver.parse_write_resolution`**: a resolution of legible quantities is read from its
  document, and resolving from quantities given by paths leaves no other.
-/

namespace QuantityAlgebra

open Document

/-! ## Labels -/

theorem readsBack_kind (kind : Kind) : ReadsBack kind where
  opens := (readsBack_string kind.name).opens
  takes := takes_named (by cases kind <;> rfl)

theorem readsBack_policy (policy : OverloadPolicy) : ReadsBack policy where
  opens := (readsBack_string policy.name).opens
  takes := takes_named (by cases policy <;> rfl)

/-- The dimension of a derivation, or none, reads back: no numeral begins as nothing does. -/
theorem readsBack_dimension? (dimension : Option Dimension) : ReadsBack dimension := by
  cases dimension with
  | none => exact readsBack_none
  | some d =>
    refine (readsBack_word d).some ?_
    obtain ⟨c, digits, written, isDigit⟩ := exists_decimal_eq_cons d.toNat
    intro letter
    rw [show encode d = c :: digits from written, List.head?_cons, Option.some.injEq] at letter
    subst letter
    contradiction

/-! ## Records -/

theorem readsBack_definition {definition : Definition}
    (legible : ∀ q ∈ definition.signature, q.Legible) : ReadsBack definition where
  opens := opens_object _
  takes := takes_record
    (.field (readsBack_string definition.expression) rfl rfl <|
      .field (readsBack_signature legible) rfl rfl <|
      .field (readsBack_policy definition.policy) rfl rfl <|
      .field (readsBack_truth definition.permutations) rfl rfl <| .nil _)
    rfl

theorem readsBack_derivation {x : Derivation} (legible : ∀ q ∈ x.signature, q.Legible) :
    ReadsBack x where
  opens := opens_object _
  takes := takes_record
    (.field (readsBack_string x.expression) rfl rfl <|
      .field (readsBack_string x.rendered) rfl rfl <|
      .field (readsBack_signature legible) rfl rfl <| .field (readsBack_kind x.kind) rfl rfl <|
      .field (readsBack_dimension? x.dimension) rfl rfl <| .nil _)
    rfl

/-- Every quantity of the definition and of the derivations is named by its path. -/
structure Resolution.Legible (r : Resolution) : Prop where
  definition : ∀ q ∈ r.definition.signature, q.Legible
  derivations : ∀ x ∈ r.derivations, ∀ q ∈ x.signature, q.Legible

/-- **A resolution of legible quantities reads back**, whatever its texts and labels are. -/
theorem readsBack_resolution {r : Resolution} (legible : r.Legible) : ReadsBack r := by
  have each : ∀ x ∈ r.derivations, ReadsBack x := fun x held =>
    readsBack_derivation (legible.derivations x held)
  have scalar : ReadsBack r.scalar := .list fun x held =>
    each x (Resolution.mem_derivations.mpr (Or.inl held))
  have vector : ReadsBack r.vector := .map fun bucket listed => .list fun x held =>
    each x (Resolution.mem_derivations.mpr (Or.inr ⟨bucket, listed, held⟩))
  exact
    { opens := opens_object _
      takes := takes_record
        (.field (readsBack_definition legible.definition) rfl rfl <| .field scalar rfl rfl <|
          .field vector rfl rfl <| .nil _)
        rfl }

/-! ## Quantities of a derivation -/

/-- A slot stands for what it was declared with, or for a member of that group. -/
theorem OperandTable.boundIn_classify (classifier : Classifier) (q : Quantity) (e : Expr)
    (choice : Choice) (slot : Nat) :
    boundIn e choice slot (.classify classifier q) = q ∨
      ∃ members, classifier q = .group members ∧
        boundIn e choice slot (.classify classifier q) ∈ members.values := by
  unfold boundIn
  split
  · unfold Operand.classify
    cases classified : classifier q with
    | scalar | fixedVector | groupMember => exact Or.inl rfl
    | group members =>
      cases bound : members.get? (choice slot) with
      | none => exact Or.inl (by simp [Operand.boundAt, bound])
      | some member =>
        refine Or.inr ⟨members, rfl, ?_⟩
        simpa [Operand.boundAt, bound] using DimensionMap.mem_values_of_get? bound
  · exact Or.inl (Operand.declared_classify classifier q)

namespace Resolver

variable {resolver : Resolver} {signature : Signature} {e : Expr} {x : Derivation} {q : Quantity}

/-- **Every quantity of a derivation was declared**, or is a member of a group that was. -/
theorem exists_declared_of_mem_signature (derived : x ∈ resolver.derivations signature e)
    (held : q ∈ x.signature) :
    q ∈ signature ∨
      ∃ group ∈ signature, ∃ members, resolver.classifier group = .group members ∧
        q ∈ members.values := by
  rw [derivations_eq] at derived
  obtain ⟨c, -, rfl⟩ := List.mem_map.mp derived
  obtain ⟨slot, bound⟩ := List.mem_iff_getElem?.mp held
  change (OperandTable.signatureAt _ _ _)[slot]? = some q at bound
  rw [OperandTable.getElem?_signatureAt, OperandTable.get?_classify, Option.map_map,
    Option.map_eq_some_iff] at bound
  obtain ⟨declared, found, stands⟩ := bound
  rw [Function.comp_apply] at stands
  have listed : declared ∈ signature := List.mem_of_getElem? found
  have origin := OperandTable.boundIn_classify resolver.classifier declared e
    ((OperandTable.classify resolver.classifier signature).choiceOf e c.1) slot
  rw [stands] at origin
  rcases origin with rfl | ⟨members, classified, member⟩
  · exact Or.inl listed
  · exact Or.inr ⟨declared, listed, members, classified, member⟩

/-- **What is resolved from legible quantities is legible.** -/
theorem legible_of_outcome {target : Quantity} {definition : Definition} {r : Resolution}
    (declared : ∀ q ∈ definition.signature, q.Legible)
    (members : ∀ q ∈ definition.signature, ∀ members, resolver.classifier q = .group members →
      ∀ member ∈ members.values, member.Legible)
    (success : resolver.outcome target definition = .ok r) : r.Legible := by
  obtain ⟨e, succeeds⟩ := succeeds_of_outcome success
  refine ⟨?_, fun x held q listed => ?_⟩
  · rw [succeeds.definition_eq]
    exact declared
  · have derived := succeeds.mem_derivations.mp held
    rcases exists_declared_of_mem_signature derived listed with
      own | ⟨group, found, entries, classified, member⟩
    · exact declared q own
    · exact members group found entries classified q member

/-- **The document of a resolution is read as the resolution**, if its quantities are named by their
paths. All that is resolved from quantities given by paths is of that sort. -/
theorem parse_write_resolution :
    (∀ r : Resolution, r.Legible → Document.parse (write r) = .ok r) ∧
      ∀ {State : Type} (resolver : Resolver)
        (report : State → ResolutionError → Option Diagnostic × State) (target : Quantity)
        (definition : Definition) (state : State) (r : Resolution),
        (∀ q ∈ definition.signature, ∃ path, Quantity.ofPath path = q) →
        (∀ q ∈ definition.signature, ∀ members, resolver.classifier q = .group members →
          ∀ member ∈ members.values, ∃ path, Quantity.ofPath path = member) →
        (resolver.resolveWith report target definition state).1 = .ok r →
        Document.parse (write r) = .ok r := by
  refine ⟨fun r legible => parse_write (readsBack_resolution legible), ?_⟩
  intro State resolver report target definition state r declared members success
  refine parse_write (readsBack_resolution (legible_of_outcome ?_ ?_
    (resolveWith_eq_ok_iff.mp success)))
  · exact fun q found => Quantity.legible_iff.mpr (declared q found)
  · exact fun q found entries classified member held =>
      Quantity.legible_iff.mpr (members q found entries classified member held)

/-- A resolution with characters to escape, an invalid derivation, keys of several digits and a
dimension without derivations; and one that comes out of resolving. -/
theorem parse_write_resolution_escapes :
    let scalar : Derivation :=
      ⟨"\"\\\n\x01", "dot(\t, 𝔸 / ß)", [⟨"", "Time"⟩, ⟨"a::b", "\x1f:c"⟩], .scalar, none⟩
    let invalid : Derivation := ⟨"", "/", [], .invalid, some 4294967295⟩
    let r : Resolution :=
      ⟨⟨"{0} / {1}", [⟨"m", "Ort"⟩], .suitable, true⟩, [scalar, invalid],
        .ofList [(10, [invalid, scalar]), (9, []), (4294967295, [scalar])]⟩
    let classifier : Classifier := fun q =>
      if q.name = "Position" then
        .group (.ofList [(2, ⟨"m", "Position2"⟩), (10, ⟨"m", "Position10"⟩)])
      else .scalar
    let resolver : Resolver := ⟨classifier, {}⟩
    let definition : Definition := ⟨"{0} / {1}", [⟨"m", "Position"⟩, ⟨"m", "Time"⟩], .none, false⟩
    r.Legible ∧ Document.parse (write r) = .ok r ∧
      ∃ r', (resolver.resolveWith Sink.report ⟨"m", "Position"⟩ definition .silent).1 = .ok r' ∧
        r'.vector.keys = [2, 10] ∧ Document.parse (write r') = .ok r' := by
  intro scalar invalid r classifier resolver definition
  obtain ⟨legible, resolves⟩ := parse_write_resolution
  have named : r.Legible := ⟨by decide, by decide⟩
  let e : Expr := .binary .div (.slot 0) (.slot 1)
  have read : Expr.parse definition.expression.toList definition.signature.length = .ok e :=
    Expr.parse_of_eq_displayOuter (by decide) (by decide)
  have succeeds : resolver.Succeeds ⟨"m", "Position"⟩ definition e _ :=
    ⟨read, by decide, by decide, by decide, rfl⟩
  have resolved : (resolver.resolveWith Sink.report ⟨"m", "Position"⟩ definition .silent).1 =
      .ok _ := resolveWith_eq_ok_iff.mpr succeeds.outcome
  have declared : ∀ q ∈ definition.signature, q.Legible := by decide
  have members : ∀ q ∈ definition.signature, ∀ entries, classifier q = .group entries →
      ∀ member ∈ entries.values, member.Legible := by
    intro q found entries classified
    simp only [definition, List.mem_cons, List.not_mem_nil, or_false] at found
    rcases found with rfl | rfl
    · obtain rfl := Classification.group.inj classified
      decide
    · contradiction
  refine ⟨named, legible r named, _, resolved, by decide,
    resolves resolver _ _ definition _ _ ?_ ?_ resolved⟩
  · exact fun q found => Quantity.legible_iff.mp (declared q found)
  · exact fun q found entries classified member held =>
      Quantity.legible_iff.mp (members q found entries classified member held)

end Resolver

end QuantityAlgebra
