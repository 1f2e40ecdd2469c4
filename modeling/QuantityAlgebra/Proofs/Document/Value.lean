import QuantityAlgebra.Proofs.Document.Numeral
import QuantityAlgebra.Proofs.Document.Quoted

/-!
# Values read back

A reader takes a text (`Reader.Takes`) if it reads it off the front of whatever stands there, as far
as that does not go on a numeral. A value reads back (`ReadsBack`) if its reader takes its text, and
the text begins with what can begin the element of an array. This is a law of values and not of
types, so that it can be asked of a list that each of its elements has it.

Elements and fields are joined by commas, and the first has none before it (`joined`,
`joinedFields`). A reader that goes through them keeps in step with that text: `nextElement` and
`nextKey` take the comma, if there has to be one, and see the closing bracket. So arrays and maps
are read by one induction each, on the values that are left.

Results:
* **`parse_write`**: the document of a value that reads back is read as the value.
* `readsBack_string`, `readsBack_word`, `readsBack_truth`: every single value reads back.
* `ReadsBack.some`, `ReadsBack.list`, `ReadsBack.map`: what is made of values that read back does.
-/

namespace QuantityAlgebra.Document

variable {α β : Type}

/-! ## Taking a text -/

/-- The reader reads the value off the front of any text that begins with this one, unless what is
left goes on a numeral. -/
def Reader.Takes (reader : Reader α) (text : List Char) (value : α) : Prop :=
  ∀ rest, EndsNumeral rest → reader (text ++ rest) = .ok (value, rest)

/-- What can begin an element of an array: neither spacing nor the end of the array. -/
def Opens (text : List Char) : Prop :=
  ∃ c rest, text = c :: rest ∧ isSpacing c = false ∧ c ≠ ']'

/-- The value is read from what is written for it. -/
structure ReadsBack [Encode α] [Decode α] (value : α) : Prop where
  opens : Opens (encode value)
  takes : (decode : Reader α).Takes (encode value) value

namespace Reader

/-- A reader that has read a value goes on with it. -/
theorem bind_of_ok {first : Reader α} {next : α → Reader β} {text rest : List Char} {value : α}
    (h : first text = .ok (value, rest)) : (first >>= next) text = next value rest := by
  show (first text >>= fun read => next read.1 read.2) = next value rest
  rw [h]
  rfl

theorem Takes.map {reader : Reader α} {text : List Char} {value : α} (h : reader.Takes text value)
    (f : α → β) : Takes (do return f (← reader)) text (f value) := fun rest ends => by
  rw [bind_of_ok (h rest ends)]
  rfl

/-- A punctuation mark that is the next character is read. -/
theorem punctuation_cons {mark : Char} (solid : isSpacing mark = false) (rest : List Char) :
    punctuation mark (mark :: rest) = .ok ((), rest) := by
  rw [punctuation, skipSpacing_cons solid]
  exact if_pos rfl

theorem run_of_takes {reader : Reader α} {text : List Char} {value : α}
    (h : reader.Takes text value) : run reader text = .ok value := by
  have read := h [] endsNumeral_nil
  rw [List.append_nil] at read
  rw [run, read]
  rfl

end Reader

/-- **The document of a value that reads back is read as the value.** -/
theorem parse_write [Encode α] [Decode α] {value : α} (h : ReadsBack value) :
    parse (write value) = .ok value := by
  rw [parse, write, String.toList_ofList]
  exact Reader.run_of_takes h.takes

/-! ## Single values -/

open Reader

theorem quoted_quote (s : String) (rest : List Char) :
    quoted (s.toList.flatMap escape ++ '"' :: rest) = .ok (s, rest) := by
  rw [quoted, quotedBody_quoted]
  show Except.ok (String.ofList s.toList, rest) = _
  rw [String.ofList_toList]

/-- **Every string reads back.** -/
theorem readsBack_string (s : String) : ReadsBack s where
  opens := ⟨'"', s.toList.flatMap escape ++ ['"'], rfl, rfl, by decide⟩
  takes rest _ := by
    show string ('"' :: s.toList.flatMap escape ++ ['"'] ++ rest) = .ok (s, rest)
    rw [List.append_assoc, List.cons_append, List.singleton_append]
    exact quoted_quote s rest

/-- **Every word reads back.** -/
theorem readsBack_word (d : UInt32) : ReadsBack d where
  opens := by
    obtain ⟨c, digits, written, isDigit⟩ := exists_decimal_eq_cons d.toNat
    refine ⟨c, digits, written, isSpacing_of_isDigit isDigit, ?_⟩
    rintro rfl
    contradiction
  takes _ ends := word_decimal d ends

theorem readsBack_truth (b : Bool) : ReadsBack b where
  opens := by cases b <;> exact ⟨_, _, rfl, rfl, by decide⟩
  takes rest _ := by cases b <;> rfl

/-- A value reads back as an optional one, if its text is not taken for nothing. -/
theorem ReadsBack.some [Encode α] [Decode α] {value : α} (h : ReadsBack value)
    (present : (encode value).head? ≠ some 'n') : ReadsBack (some value) where
  opens := h.opens
  takes rest ends := by
    have read := h.takes rest ends
    obtain ⟨c, cs, written, solid, -⟩ := h.opens
    rw [written, List.cons_append] at read
    show Reader.optional decode (encode value ++ rest) = .ok (Option.some value, rest)
    rw [written, List.cons_append, Reader.optional, skipSpacing_cons solid]
    split
    · rename_i nothing
      rw [written, (List.cons.inj nothing).1] at present
      exact absurd rfl present
    · rw [read]
      rfl

theorem readsBack_none [Encode α] [Decode α] : ReadsBack (none : Option α) where
  opens := ⟨'n', ['u', 'l', 'l'], rfl, rfl, by decide⟩
  takes rest _ := rfl

/-! ## Joined texts -/

/-- Texts with a comma before each; before the first only if others came before it. -/
def joined (first : Bool) : List (List Char) → List Char
  | [] => []
  | part :: parts => (if first then [] else [',']) ++ (part ++ joined false parts)

theorem separated_eq_joined (parts : List (List Char)) : separated parts = joined true parts := by
  have behind (parts : List (List Char)) (part : List Char) :
      separated (part :: parts) = part ++ joined false parts := by
    induction parts generalizing part with
    | nil => simp [separated, joined]
    | cons next parts ih =>
      rw [separated, List.intercalate_cons_cons, ← separated, ih]
      simp [joined]
  cases parts with
  | nil => rfl
  | cons part parts => exact behind parts part

/-- What follows an element ends a numeral. -/
theorem endsNumeral_joined {close : Char} (ends : EndsNumeral [close]) (parts : List (List Char))
    (rest : List Char) : EndsNumeral (joined false parts ++ close :: rest) := by
  cases parts with
  | nil => exact endsNumeral_cons ends rest
  | cons part parts => exact endsNumeral_cons (by decide) _

/-- There are not more parts than characters, the first apart. -/
theorem length_le_length_joined (first : Bool) (parts : List (List Char)) :
    parts.length ≤ (joined first parts).length + 1 := by
  have behind (parts : List (List Char)) : parts.length ≤ (joined false parts).length := by
    induction parts with
    | nil => exact Nat.le_refl 0
    | cons part parts ih =>
      simp only [joined, List.length_append, List.length_cons]
      simp
      omega
  cases parts with
  | nil => exact Nat.zero_le _
  | cons part parts =>
    have := behind parts
    simp only [joined, List.length_append, List.length_cons]
    omega

theorem nextElement_comma (rest : List Char) :
    nextElement false (',' :: rest) =
      match skipSpacing rest with
      | ']' :: _ => .error .malformed
      | rest => .ok (true, rest) := rfl

theorem nextElement_joined (first : Bool) {part : List Char} (opens : Opens part)
    (parts : List (List Char)) (rest : List Char) :
    nextElement first (joined first (part :: parts) ++ rest) =
      .ok (true, part ++ (joined false parts ++ rest)) := by
  obtain ⟨c, cs, rfl, solid, notClose⟩ := opens
  cases first with
  | true =>
    simp only [joined, nextElement, if_true, List.nil_append, List.cons_append,
      List.append_assoc, skipSpacing_cons solid]
  | false =>
    simp only [joined, nextElement_comma, Bool.false_eq_true, if_false, List.cons_append,
      List.nil_append, List.append_assoc, skipSpacing_cons solid]
    split
    · rename_i closes
      exact absurd (List.cons.inj closes).1 notClose
    · rfl

/-! ## Arrays -/

/-- **Elements that read back are read one after the other**, up to the closing bracket. -/
theorem elements_joined [Encode α] [Decode α] {values : List α}
    (h : ∀ value ∈ values, ReadsBack value) {count : Nat} (enough : values.length < count)
    (first : Bool) (rest : List Char) :
    elements decode count first (joined first (values.map encode) ++ ']' :: rest) =
      .ok (values, ']' :: rest) := by
  induction values generalizing count first with
  | nil =>
    obtain ⟨count, rfl⟩ := Nat.exists_eq_add_one.mpr (Nat.zero_lt_of_lt enough)
    have stops : nextElement first (']' :: rest) = .ok (false, ']' :: rest) := rfl
    rw [elements]
    exact bind_of_ok stops
  | cons value values ih =>
    obtain ⟨count, rfl⟩ := Nat.exists_eq_add_one.mpr (Nat.zero_lt_of_lt enough)
    have readsBack := h value List.mem_cons_self
    have ends : EndsNumeral (joined false (values.map encode) ++ ']' :: rest) :=
      endsNumeral_joined (by decide) _ _
    rw [elements, List.map_cons, bind_of_ok (nextElement_joined first readsBack.opens _ _),
      if_pos rfl, bind_of_ok (readsBack.takes _ ends),
      bind_of_ok (ih (fun other found => h other (List.mem_cons_of_mem _ found))
        (Nat.lt_of_succ_lt_succ enough) false)]
    rfl

/-- **A list of values that read back does.** -/
theorem ReadsBack.list [Encode α] [Decode α] {values : List α}
    (h : ∀ value ∈ values, ReadsBack value) : ReadsBack values where
  opens := ⟨'[', _, rfl, rfl, by decide⟩
  takes rest _ := by
    have text : encode values ++ rest =
        '[' :: (joined true (values.map encode) ++ ']' :: rest) := by
      show array (values.map encode) ++ rest = _
      rw [array, separated_eq_joined]
      simp
    have enough : values.length < (joined true (values.map encode) ++ ']' :: rest).length + 1 := by
      have := length_le_length_joined true (values.map encode)
      simp only [List.length_map, List.length_append, List.length_cons] at this ⊢
      omega
    rw [text]
    show Reader.list decode _ = _
    rw [Reader.list, skipSpacing_cons (by decide)]
    simp only [elements_joined h enough]
    rw [punctuation_cons (by decide)]
    rfl

/-! ## Objects -/

/-- A field from behind the opening quote of its key on. -/
def fieldTail (field : String × List Char) : List Char :=
  field.1.toList.flatMap escape ++ '"' :: ':' :: field.2

/-- Fields with a comma before each; before the first only if others came before it. -/
def joinedFields (first : Bool) (fields : List (String × List Char)) : List Char :=
  joined first (fields.map fun field => '"' :: fieldTail field)

theorem object_append (fields : List (String × List Char)) (rest : List Char) :
    object fields ++ rest = '{' :: (joinedFields true fields ++ '}' :: rest) := by
  have field : (fun field : String × List Char => quote field.1.toList ++ ':' :: field.2) =
      fun field => '"' :: fieldTail field := by
    funext field
    simp [quote, fieldTail]
  rw [object, separated_eq_joined, field]
  simp [joinedFields]

theorem opens_object (fields : List (String × List Char)) : Opens (object fields) :=
  ⟨'{', _, rfl, rfl, by decide⟩

/-- There are fewer fields than the reader of an object allows for. -/
theorem length_lt_joinedFields (fields : List (String × List Char)) (rest : List Char) :
    fields.length < (joinedFields true fields ++ '}' :: rest).length + 1 := by
  have := length_le_length_joined true (fields.map fun field => '"' :: fieldTail field)
  simp only [joinedFields, List.length_map, List.length_append, List.length_cons] at this ⊢
  omega

theorem endsNumeral_joinedFields (fields : List (String × List Char)) (rest : List Char) :
    EndsNumeral (joinedFields false fields ++ '}' :: rest) :=
  endsNumeral_joined (by decide) _ rest

theorem nextKey_joinedFields (first : Bool) (field : String × List Char)
    (fields : List (String × List Char)) (rest : List Char) :
    nextKey first (joinedFields first (field :: fields) ++ rest) =
      .ok (true, fieldTail field ++ (joinedFields false fields ++ rest)) := by
  cases first <;> simp only [joinedFields, List.map_cons, joined, List.append_assoc] <;> rfl

/-- The key of a field and the quote behind it are read. -/
theorem quoted_fieldTail (field : String × List Char) (rest : List Char) :
    quoted (fieldTail field ++ rest) = .ok (field.1, ':' :: (field.2 ++ rest)) := by
  rw [fieldTail, List.append_assoc, List.cons_append, List.cons_append, quoted_quote]

/-! ## Maps -/

theorem escape_of_isDigit {c : Char} (isDigit : c.isDigit = true) : escape c = [c] := by
  unfold escape
  split
  iterate 7 contradiction
  refine if_neg (Nat.not_lt.mpr ?_)
  simp only [Char.isDigit, Bool.and_eq_true, decide_eq_true_eq] at isDigit
  exact Nat.le_trans (by decide) (UInt32.le_iff_toNat_le.mp isDigit.1)

/-- Digits are written between quotes as they are. -/
theorem flatMap_escape_decimal (n : Nat) : (decimal n).flatMap escape = decimal n := by
  have each : (decimal n).map escape = (decimal n).map fun c => [c] :=
    List.map_congr_left fun c found => escape_of_isDigit (isDigit_of_mem_decimal found)
  rw [List.flatMap_def, each, ← List.flatMap_def]
  exact List.flatMap_singleton' _

/-- The decimal digits of a dimension, as a key, are read as the dimension. -/
theorem dimensionKey_fieldTail (d : Dimension) (text rest : List Char) :
    dimensionKey (fieldTail (toString d.toNat, text) ++ rest) = .ok (d, ':' :: (text ++ rest)) := by
  have digits : (toString d.toNat).toList = decimal d.toNat := by
    rw [Nat.toString_eq_ofList_toDigits, String.toList_ofList, decimal]
  have ends : EndsNumeral ('"' :: ':' :: (text ++ rest)) := endsNumeral_cons (by decide) _
  have read := word_decimal d ends
  obtain ⟨c, cs, written, isDigit⟩ := exists_decimal_eq_cons d.toNat
  rw [fieldTail, digits, flatMap_escape_decimal, List.append_assoc, List.cons_append,
    List.cons_append]
  rw [written, List.cons_append] at read ⊢
  unfold dimensionKey
  simp only [isDigit, or_true, if_true, read]

/-- The field of a binding. -/
def bindingField [Encode α] (entry : Dimension × α) : String × List Char :=
  (toString entry.1.toNat, encode entry.2)

/-- **Bindings of values that read back are read one after the other**, up to the closing brace. -/
theorem bindings_joinedFields [Encode α] [Decode α] {entries : List (Dimension × α)}
    (h : ∀ entry ∈ entries, ReadsBack entry.2) {count : Nat} (enough : entries.length < count)
    (first : Bool) (made : DimensionMap α) (rest : List Char) :
    bindings decode count first made
        (joinedFields first (entries.map bindingField) ++ '}' :: rest) =
      .ok (entries.foldl (fun m entry => m.insert entry.1 entry.2) made, rest) := by
  induction entries generalizing count first made with
  | nil =>
    obtain ⟨count, rfl⟩ := Nat.exists_eq_add_one.mpr (Nat.zero_lt_of_lt enough)
    have stops : nextKey first ('}' :: rest) = .ok (false, rest) := rfl
    rw [bindings]
    exact bind_of_ok stops
  | cons entry entries ih =>
    obtain ⟨count, rfl⟩ := Nat.exists_eq_add_one.mpr (Nat.zero_lt_of_lt enough)
    have readsBack := h entry List.mem_cons_self
    rw [bindings, List.map_cons, bind_of_ok (nextKey_joinedFields first _ _ _), if_pos rfl,
      bindingField, bind_of_ok (dimensionKey_fieldTail _ _ _),
      bind_of_ok (punctuation_cons (by decide) _),
      bind_of_ok (readsBack.takes _ (endsNumeral_joinedFields _ _)),
      ih (fun other found => h other (List.mem_cons_of_mem _ found))
        (Nat.lt_of_succ_lt_succ enough)]
    rfl

/-- **A map to values that read back does.** -/
theorem ReadsBack.map [Encode α] [Decode α] {m : DimensionMap α}
    (h : ∀ value ∈ m.values, ReadsBack value) : ReadsBack m where
  opens := opens_object _
  takes rest _ := by
    have readBack : ∀ entry ∈ m.entries, ReadsBack entry.2 := fun entry found =>
      h entry.2 (List.mem_map_of_mem found)
    have enough := length_lt_joinedFields (m.entries.map bindingField) rest
    rw [List.length_map] at enough
    show Reader.map decode (object (m.entries.map bindingField) ++ rest) = .ok (m, rest)
    rw [object_append, Reader.map, skipSpacing_cons (by decide)]
    simp only [bindings_joinedFields readBack enough]
    rw [← DimensionMap.ofList, DimensionMap.ofList_entries]

example : write (DimensionMap.ofList [(10, "a\"\n"), (9, "")]) =
    "\x7b\"9\":\"\",\"10\":\"a\\\"\\n\"\x7d" := by decide

end QuantityAlgebra.Document
