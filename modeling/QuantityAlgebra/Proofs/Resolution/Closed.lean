import QuantityAlgebra.Proofs.Resolution.WellFormed

/-!
# Definitions that leave nothing to choose

A tree is closed over a table if none of the slots it refers to holds a group. There is then one
selection, the empty one, so a closed tree that has a type is derived once, over the signature as it
was declared. Such a definition resolves on every target that takes the type.

Groups may still stand in slots that the tree does not refer to. They stay as declared.

Results:
* `Operand.typeAt_of_type?`: a quantity that has a type is no group.
* `Closed.hasType`: a closed tree has its types under every choice.
* **`kept_of_closed`**, `derivations_of_closed`: what is kept and derived of a closed tree.
* **`succeeds_of_closed`**: a closed tree of a type that the target takes resolves.
-/

namespace QuantityAlgebra

/-! ## Operands that are no group -/

namespace Operand

variable {operand : Operand}

/-- What is no group has its type whatever is chosen. -/
theorem typeAt_of_isGroup_eq_false (h : operand.isGroup = false) (d d' : Dimension) :
    operand.typeAt d = operand.typeAt d' := by
  cases operand with
  | scalar | vector => rfl
  | group => contradiction

/-- And it is bound to what it was declared with. -/
theorem boundAt_of_isGroup_eq_false (h : operand.isGroup = false) (d : Dimension) :
    operand.boundAt d = operand.declared := by
  cases operand with
  | scalar | vector => rfl
  | group => contradiction

end Operand

/-! ## Quantities that have a type -/

namespace Classification

variable {classification : Classification} {τ σ : ExprType}

/-- The type of what is so classified; a group has none before its dimension is chosen. -/
def type? : Classification → Option ExprType
  | .scalar => some .scalar
  | .fixedVector d | .groupMember d => some (.vector d)
  | .group _ => none

theorem kind_of_type? (h : classification.type? = some τ) :
    Kind.ofClassification classification = τ.kind := by
  cases classification <;> simp [type?] at h <;> subst h <;> rfl

/-- A target of a type takes that type alone. -/
theorem takes_iff_of_type? (h : classification.type? = some τ) :
    classification.Takes σ ↔ σ = τ := by
  cases classification <;> simp [type?] at h <;> subst h <;> rfl

end Classification

namespace Operand

variable {classifier : Classifier} {q : Quantity} {τ : ExprType} {d : Dimension}

/-- A quantity that has a type is no group, and has that type whatever is chosen. -/
theorem typeAt_of_type? (h : (classifier q).type? = some τ) (d : Dimension) :
    (classify classifier q).isGroup = false ∧ (classify classifier q).typeAt d = τ := by
  unfold classify
  cases classified : classifier q with
  | scalar | fixedVector | groupMember =>
    rw [classified] at h
    exact ⟨rfl, Option.some.inj h⟩
  | group => simp [classified, Classification.type?] at h

theorem type?_of_isGroup_eq_false (h : (classify classifier q).isGroup = false) (d : Dimension) :
    (classifier q).type? = some ((classify classifier q).typeAt d) := by
  unfold classify at h ⊢
  cases classified : classifier q with
  | scalar | fixedVector | groupMember => rfl
  | group => simp [classified, isGroup] at h

/-- As a target a quantity takes the types it has as an operand. -/
theorem takes_typeAt
    (chosen : (classify classifier q).isGroup = true → d ∈ (classify classifier q).candidates) :
    (classifier q).Takes ((classify classifier q).typeAt d) := by
  unfold classify at chosen ⊢
  cases classified : classifier q with
  | scalar | fixedVector | groupMember => rfl
  | group members =>
    simp only [classified] at chosen
    exact ⟨d, DimensionSet.mem_ofList.mp (chosen rfl), rfl⟩

end Operand

/-! ## Closed trees -/

namespace OperandTable

variable {t : OperandTable} {choice other : Choice} {e : Expr} {τ : ExprType}

/-- No slot the tree refers to holds a group. -/
def Closed (t : OperandTable) (e : Expr) : Prop := t.referencedGroupSlots e = []

theorem closed_iff : t.Closed e ↔
    ∀ slot operand, e.references slot = true → t.get? slot = some operand →
      operand.isGroup = false := by
  rw [Closed, List.eq_nil_iff_forall_not_mem]
  refine forall_congr' fun slot => ?_
  rw [mem_referencedGroupSlots, mem_groupSlots]
  cases found : t.get? slot with
  | none => simp
  | some operand => cases operand.isGroup <;> simp

theorem Closed.left {lhs rhs : Expr} {op : BinaryOp} (closed : t.Closed (.binary op lhs rhs)) :
    t.Closed lhs :=
  closed_iff.mpr fun slot operand referenced =>
    closed_iff.mp closed slot operand (by simp [Expr.references, referenced])

theorem Closed.right {lhs rhs : Expr} {op : BinaryOp} (closed : t.Closed (.binary op lhs rhs)) :
    t.Closed rhs :=
  closed_iff.mpr fun slot operand referenced =>
    closed_iff.mp closed slot operand (by simp [Expr.references, referenced])

theorem Closed.settled (closed : t.Closed e) (choice : Choice) : t.Settled choice e := by
  intro slot found
  rw [show t.referencedGroupSlots e = [] from closed] at found
  contradiction

/-- A closed tree has its types under every choice. -/
theorem Closed.hasType (closed : t.Closed e) (typed : HasType t choice e τ) :
    HasType t other e τ := by
  refine typed.of_agrees fun slot referenced => ?_
  cases found : t.get? slot with
  | none => rfl
  | some operand =>
    have fixed := closed_iff.mp closed slot operand referenced found
    exact congrArg some (Operand.typeAt_of_isGroup_eq_false fixed _ _)

/-- **Of a closed tree that has a type the empty selection is kept**, and no other. -/
theorem kept_of_closed (closed : t.Closed e) (typed : HasType t choice e τ) :
    t.kept e = [([], τ)] := by
  -- Over no slots there is one selection, the empty one, and it fixes nothing: what is verified is
  -- the table itself.
  have slots : t.referencedGroupSlots e = [] := closed
  have verified : e.verifies t = true := verifies_of_hasType (closed.settled choice) typed
  have accepted : t.accepted e = [[]] := by
    rw [OperandTable.accepted, slots]
    exact List.filter_cons_of_pos verified
  have typed' : e.typeAt? t (t.choiceOf e []) = some τ :=
    Expr.typeAt?_eq_some.mpr (closed.hasType typed)
  rw [kept, accepted]
  simp [distinctBy, typed']

theorem derivationOf_of_closed (config : Config) (closed : t.Closed e) :
    t.derivationOf config e [] = e.derivation config t (t.signatureOf e []) := by
  rw [derivationOf, show t.referencedGroupSlots e = [] from closed]
  rfl

end OperandTable

/-! ## Closed signatures -/

/-- A closed tree binds every slot to what it was declared with. -/
theorem OperandTable.signatureOf_of_closed {classifier : Classifier} {signature : Signature}
    {e : Expr} (closed : (classify classifier signature).Closed e) (dims : List Dimension) :
    (classify classifier signature).signatureOf e dims = signature := by
  refine List.ext_getElem? fun slot => ?_
  rw [signatureOf, getElem?_signatureAt]
  have classified := get?_classify classifier signature slot
  cases declared : signature[slot]? with
  | none => rw [classified, declared, Option.map_none, Option.map_none]
  | some q =>
    have found : (classify classifier signature).get? slot =
        some (Operand.classify classifier q) := by rw [classified, declared, Option.map_some]
    rw [found, Option.map_some, boundIn]
    split
    · rename_i referenced
      rw [Operand.boundAt_of_isGroup_eq_false (closed_iff.mp closed slot _ referenced found),
        Operand.declared_classify]
    · rw [Operand.declared_classify]

/-! ## Resolution -/

/-- A target finds no fault with one derivation whose type it takes. -/
theorem targetFault?_of_takes {x : Derivation} {τ : ExprType} {classification : Classification}
    (labelled : x.Labelled τ) (takes : classification.Takes τ) (target : Quantity) :
    targetFault? target classification τ.kind [x] = none := by
  unfold targetFault?
  cases vectors : classification.vectorDimensions? with
  | none =>
    obtain rfl := Classification.vectorDimensions?_eq_none_iff.mp vectors
    obtain rfl : τ = .scalar := takes
    rfl
  | some accepted =>
    obtain ⟨d, taken, rfl⟩ := (Classification.takes_iff vectors τ).mp takes
    simp [ExprType.kind, labelled.dimension, ExprType.dimension?, taken]

namespace Resolver

variable {resolver : Resolver} {target : Quantity} {definition : Definition}
  {signature : Signature} {choice : Choice} {e : Expr} {τ : ExprType}

/-- A closed tree is derived once, over the signature as declared. -/
theorem derivations_of_closed
    (closed : (OperandTable.classify resolver.classifier signature).Closed e)
    (typed : HasType (.classify resolver.classifier signature) choice e τ) :
    resolver.derivations signature e =
      [e.derivation resolver.config (.classify resolver.classifier signature) signature] := by
  rw [derivations_eq, OperandTable.kept_of_closed closed typed, List.map_singleton,
    OperandTable.derivationOf_of_closed resolver.config closed,
    OperandTable.signatureOf_of_closed closed]

/-- **A closed tree of a type that the target takes resolves**, to the one derivation of it. -/
theorem succeeds_of_closed
    (read : Expr.parse definition.expression.toList definition.signature.length = .ok e)
    (closed : (OperandTable.classify resolver.classifier definition.signature).Closed e)
    (typed : HasType (.classify resolver.classifier definition.signature) choice e τ)
    (takes : (resolver.classifier target).Takes τ) :
    resolver.Succeeds target definition e (.ofDerivations definition
      [e.derivation resolver.config (.classify resolver.classifier definition.signature)
        definition.signature]) := by
  have derived := derivations_of_closed closed typed
  have kind : e.kind (resolver.operands definition.signature e) = τ.kind :=
    (resolver.kind_operands definition.signature e).trans (kind_eq_of_hasType typed)
  have labelled := OperandTable.labelled_derivation resolver.config definition.signature
    (closed.settled choice) typed
  refine ⟨read, ?_, ?_, ?_, ?_⟩
  · exact kind ▸ τ.kind_ne_invalid
  · exact derived ▸ List.cons_ne_nil _ _
  · rw [derived, kind]
    exact targetFault?_of_takes labelled takes target
  · rw [derived]

end Resolver

/-- One derivation is all that is listed of it. -/
theorem Resolution.derivations_ofDerivations_singleton (definition : Definition) (x : Derivation) :
    (ofDerivations definition [x]).derivations = [x] :=
  List.perm_singleton.mp (perm_ofDerivations definition [x])

end QuantityAlgebra
