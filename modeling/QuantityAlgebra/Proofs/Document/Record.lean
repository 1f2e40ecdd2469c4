import QuantityAlgebra.Document.Record
import QuantityAlgebra.Proofs.Document.Value

/-!
# Records and names read back

The reader of a record takes a written object field by field, and each field leads from one draft to
the next. `Fills` is the relation of the drafts before and after a number of fields; it looks only
at what the record knows of each field and not at the text around them, so for a given record it is
put together from its fields in the order in which they are written. What is left to say is that the
last draft is completed to the value.

Results:
* `fieldsByName_joinedFields`: the reader's draft, after the fields, is the one `Fills` leads to.
* **`takes_record`**: a record whose fields fill the draft of a value is read as the value.
* **`takes_named`**: a value is read by its name, if it is the first value of that name.
-/

namespace QuantityAlgebra.Document

open Reader

variable {σ α : Type}

/-- Written fields, each found for the first time, lead from one draft to another. -/
inductive Fills (fields : List (RecordField σ)) : σ → List (String × List Char) → σ → Prop
  | nil (draft : σ) : Fills fields draft [] draft
  | cons {draft next last : σ} {name : String} {text : List Char}
      {others : List (String × List Char)} {field : RecordField σ}
      (known : fields.find? (fun field => field.name == name) = some field)
      (unfound : field.isFound draft = false) (takes : (field.read draft).Takes text next)
      (behind : Fills fields next others last) : Fills fields draft ((name, text) :: others) last

/-- A field with a place in the draft is filled by a value that reads back. -/
theorem Fills.field [Encode α] [Decode α] {fields : List (RecordField σ)} {draft last : σ}
    {name : String} {get : σ → Option α} {put : σ → Option α → σ} {hasDefault : Bool} {value : α}
    {others : List (String × List Char)} (readsBack : ReadsBack value)
    (known : fields.find? (fun field => field.name == name) = some (.of name get put hasDefault))
    (unfound : get draft = none) (behind : Fills fields (put draft (some value)) others last) :
    Fills fields draft ((name, encode value) :: others) last :=
  .cons known (congrArg Option.isSome unfound)
    (readsBack.takes.map fun value => put draft (some value)) behind

/-- **Written fields are read into the draft they lead to**, up to the closing brace. -/
theorem fieldsByName_joinedFields {fields : List (RecordField σ)} {draft last : σ}
    {written : List (String × List Char)} (fills : Fills fields draft written last) {count : Nat}
    (enough : written.length < count) (first : Bool) (rest : List Char) :
    fieldsByName fields count first draft (joinedFields first written ++ '}' :: rest) =
      .ok (last, rest) := by
  induction fills generalizing count first with
  | nil draft =>
    obtain ⟨count, rfl⟩ := Nat.exists_eq_add_one.mpr (Nat.zero_lt_of_lt enough)
    have stops : nextKey first ('}' :: rest) = .ok (false, rest) := rfl
    rw [fieldsByName]
    exact bind_of_ok stops
  | @cons draft next last name text others field known unfound takes behind ih =>
    obtain ⟨count, rfl⟩ := Nat.exists_eq_add_one.mpr (Nat.zero_lt_of_lt enough)
    rw [fieldsByName, bind_of_ok (nextKey_joinedFields first _ _ _), if_pos rfl,
      bind_of_ok (quoted_fieldTail _ _)]
    simp only [known, unfound, Bool.false_eq_true, if_false]
    rw [bind_of_ok (punctuation_cons (by decide) _),
      bind_of_ok (takes _ (endsNumeral_joinedFields _ _))]
    exact ih (Nat.lt_of_succ_lt_succ enough) false

/-- **A record whose fields fill the draft of a value is read as the value.** -/
theorem takes_record {fields : List (RecordField σ)} {blank last : σ} {complete : σ → Option α}
    {written : List (String × List Char)} {value : α} (fills : Fills fields blank written last)
    (completes : complete last = some value) :
    (record fields blank complete).Takes (object written) value := fun rest _ => by
  have read := fieldsByName_joinedFields fills (length_lt_joinedFields written rest) true rest
  rw [object_append, record, skipSpacing_cons (by decide)]
  show (fieldsByName _ _ _ _ >>= finish complete) _ = _
  rw [bind_of_ok read, finish, completes]
  rfl

/-- **A value is read by its name**, if it is the first one of that name. -/
theorem takes_named {values : List α} {name : α → String} {value : α}
    (known : values.find? (fun other => name other == name value) = some value) :
    (named values name).Takes (encode (name value)) value := fun rest _ => by
  show named values name (('"' :: (name value).toList.flatMap escape ++ ['"']) ++ rest) = _
  rw [List.append_assoc, List.cons_append, List.singleton_append, named, alternative,
    skipSpacing_cons (by decide)]
  show (quoted >>= _) _ = _
  rw [bind_of_ok (quoted_quote (name value) rest)]
  simp only [known]
  rfl

end QuantityAlgebra.Document
