import QuantityAlgebra.Dimension

/-!
# Maps from dimensions

A `DimensionMap α` binds finitely many dimensions to values. Its entries stand in strictly ascending
order of dimension, so two maps with the same bindings are equal, and enumerating a map needs no
further rule. It holds the members of a vector group (`members`), and the vector results of a
derivation (`vector`).

`upsert` is the one way to write: it replaces what a dimension is bound to by a function of it.
`insert` is the case of a constant function, so in `ofList` the last binding of a dimension wins.

Results: `get?_upsert`, `get?_insert` say what a write changes; `keys_sorted` what it keeps;
`ofList_entries` that its entries make up a map; `map_upsert` that a write commutes with `map`,
which replaces every value.
-/

namespace QuantityAlgebra

/-- A finite map, as entries in strictly ascending order of dimension. -/
structure DimensionMap (α : Type) where
  /-- The bindings, ascending. -/
  entries : List (Dimension × α)
  /-- No dimension is bound twice, and the order is that of the dimensions. -/
  sorted : entries.Pairwise fun a b => a.1 < b.1
  deriving DecidableEq

namespace DimensionMap

variable {α : Type}

instance : EmptyCollection (DimensionMap α) := ⟨⟨[], List.Pairwise.nil⟩⟩

instance : Inhabited (DimensionMap α) := ⟨∅⟩

/-- Writes into a sorted list of entries, in the place of the dimension. -/
def upsertEntry (d : Dimension) (f : Option α → α) :
    List (Dimension × α) → List (Dimension × α)
  | [] => [(d, f none)]
  | (e, b) :: rest =>
    if d < e then (d, f none) :: (e, b) :: rest
    else if d = e then (d, f (some b)) :: rest
    else (e, b) :: upsertEntry d f rest

theorem mem_upsertEntry {d : Dimension} {f : Option α → α} {entries : List (Dimension × α)}
    {x : Dimension × α} (h : x ∈ upsertEntry d f entries) : x.1 = d ∨ x ∈ entries := by
  induction entries with
  | nil => simp [upsertEntry] at h; simp [h]
  | cons entry rest ih =>
    obtain ⟨e, b⟩ := entry
    rw [upsertEntry] at h
    split at h
    · rcases List.mem_cons.mp h with rfl | h
      · exact Or.inl rfl
      · exact Or.inr h
    · split at h
      · rcases List.mem_cons.mp h with rfl | h
        · exact Or.inl rfl
        · exact Or.inr (List.mem_cons_of_mem _ h)
      · rcases List.mem_cons.mp h with rfl | h
        · exact Or.inr List.mem_cons_self
        · exact (ih h).imp_right (List.mem_cons_of_mem _)

theorem sorted_upsertEntry (d : Dimension) (f : Option α → α) {entries : List (Dimension × α)}
    (h : entries.Pairwise fun a b => a.1 < b.1) :
    (upsertEntry d f entries).Pairwise fun a b => a.1 < b.1 := by
  induction entries with
  | nil => simp [upsertEntry]
  | cons entry rest ih =>
    obtain ⟨e, b⟩ := entry
    obtain ⟨below, above⟩ := List.pairwise_cons.mp h
    rw [upsertEntry]
    split
    · rename_i lt
      refine List.pairwise_cons.mpr ⟨fun x hx => ?_, h⟩
      rcases List.mem_cons.mp hx with rfl | hx
      · exact lt
      · exact UInt32.lt_trans lt (below x hx)
    · rename_i notLt
      split
      · rename_i same
        exact List.pairwise_cons.mpr ⟨fun x hx => same ▸ below x hx, above⟩
      · rename_i differ
        refine List.pairwise_cons.mpr ⟨fun x hx => ?_, ih above⟩
        rcases mem_upsertEntry hx with hx | hx
        · rw [hx]
          exact UInt32.lt_of_le_of_ne (UInt32.not_lt.mp notLt) (Ne.symm differ)
        · exact below x hx

/-- Binds `d` to `f` of what it was bound to. -/
def upsert (m : DimensionMap α) (d : Dimension) (f : Option α → α) : DimensionMap α :=
  ⟨upsertEntry d f m.entries, sorted_upsertEntry d f m.sorted⟩

/-- Binds `d` to `a`. -/
def insert (m : DimensionMap α) (d : Dimension) (a : α) : DimensionMap α := m.upsert d fun _ => a

/-- The map of a list of bindings, the last of a dimension winning. -/
def ofList (bindings : List (Dimension × α)) : DimensionMap α :=
  bindings.foldl (fun m binding => m.insert binding.1 binding.2) ∅

/-- What `d` is bound to. -/
def get? (m : DimensionMap α) (d : Dimension) : Option α := m.entries.lookup d

/-- The bound dimensions, ascending. -/
def keys (m : DimensionMap α) : List Dimension := m.entries.map Prod.fst

/-- What they are bound to, in the order of the dimensions. -/
def values (m : DimensionMap α) : List α := m.entries.map Prod.snd

/-! ## Lookups -/

theorem lookup_upsertEntry (d e : Dimension) (f : Option α → α) {entries : List (Dimension × α)}
    (h : entries.Pairwise fun a b => a.1 < b.1) :
    (upsertEntry d f entries).lookup e =
      if e = d then some (f (entries.lookup d)) else entries.lookup e := by
  induction entries with
  | nil =>
    by_cases hed : e = d
    · simp [upsertEntry, hed]
    · simp [upsertEntry, List.lookup_cons, beq_eq_false_iff_ne.mpr hed, hed]
  | cons entry rest ih =>
    obtain ⟨k, b⟩ := entry
    obtain ⟨below, above⟩ := List.pairwise_cons.mp h
    have absent : ∀ {x : Dimension}, x < k → rest.lookup x = none := fun {x} hx => by
      rw [List.lookup_eq_none_iff]
      intro p hp
      simpa using UInt32.ne_of_lt (UInt32.lt_trans hx (below p hp))
    rw [upsertEntry]
    split
    · rename_i lt
      have ne : d ≠ k := UInt32.ne_of_lt lt
      by_cases hed : e = d
      · subst hed
        simp [List.lookup_cons, beq_eq_false_iff_ne.mpr ne, absent lt]
      · simp [List.lookup_cons, beq_eq_false_iff_ne.mpr hed, hed]
    · split
      · rename_i same
        subst same
        by_cases hed : e = d
        · simp [hed]
        · simp [List.lookup_cons, beq_eq_false_iff_ne.mpr hed, hed]
      · rename_i differ
        by_cases hed : e = d
        · subst hed
          simp [List.lookup_cons, beq_eq_false_iff_ne.mpr differ, ih above]
        · simp only [List.lookup_cons, ih above, if_neg hed]

/-- A write changes one binding. -/
theorem get?_upsert (m : DimensionMap α) (d e : Dimension) (f : Option α → α) :
    (m.upsert d f).get? e = if e = d then some (f (m.get? d)) else m.get? e :=
  lookup_upsertEntry d e f m.sorted

theorem get?_insert (m : DimensionMap α) (d e : Dimension) (a : α) :
    (m.insert d a).get? e = if e = d then some a else m.get? e :=
  get?_upsert m d e fun _ => a

/-- What is looked up is an entry. -/
theorem mem_of_lookup_eq_some {κ : Type} [BEq κ] [LawfulBEq κ] {k : κ} {a : α}
    {entries : List (κ × α)} (h : entries.lookup k = some a) : (k, a) ∈ entries := by
  obtain ⟨before, after, rfl, -⟩ := List.lookup_eq_some_iff.mp h
  exact List.mem_append_right before List.mem_cons_self

theorem mem_keys_of_get? {m : DimensionMap α} {d : Dimension} {a : α} (h : m.get? d = some a) :
    d ∈ m.keys :=
  List.mem_map.mpr ⟨(d, a), mem_of_lookup_eq_some h, rfl⟩

theorem get?_of_mem_keys {m : DimensionMap α} {d : Dimension} (h : d ∈ m.keys) :
    ∃ a, m.get? d = some a := by
  obtain ⟨entry, found, rfl⟩ := List.mem_map.mp h
  rw [← Option.isSome_iff_exists, get?]
  cases missing : m.entries.lookup entry.1 with
  | some a => rfl
  | none =>
    rw [List.lookup_eq_none_iff] at missing
    exact absurd (missing entry found) (by simp)

theorem mem_keys_iff {m : DimensionMap α} {d : Dimension} : d ∈ m.keys ↔ ∃ a, m.get? d = some a :=
  ⟨get?_of_mem_keys, fun ⟨_, bound⟩ => mem_keys_of_get? bound⟩

theorem mem_keys_insert {m : DimensionMap α} {d e : Dimension} {a : α} :
    e ∈ (m.insert d a).keys ↔ e = d ∨ e ∈ m.keys := by
  rw [mem_keys_iff, mem_keys_iff, get?_insert]
  by_cases same : e = d <;> simp [same]

theorem mem_values_of_get? {m : DimensionMap α} {d : Dimension} {a : α} (h : m.get? d = some a) :
    a ∈ m.values :=
  List.mem_map.mpr ⟨(d, a), mem_of_lookup_eq_some h, rfl⟩

/-- The map that binds nothing is empty. -/
theorem eq_empty {m : DimensionMap α} (h : ∀ d, m.get? d = none) : m = ∅ := by
  obtain ⟨entries, sorted⟩ := m
  cases entries with
  | nil => rfl
  | cons entry rest =>
    have bound := h entry.1
    simp [get?] at bound

/-- The bound dimensions ascend strictly, so none is listed twice. -/
theorem keys_sorted (m : DimensionMap α) : m.keys.Pairwise (· < ·) :=
  List.pairwise_map.mpr m.sorted

/-! ## Maps from their entries -/

theorem ext {m n : DimensionMap α} (same : m.entries = n.entries) : m = n := by
  cases m
  cases n
  exact mk.injEq .. ▸ same

/-- A binding of a dimension above all others goes to the end. -/
theorem upsertEntry_of_lt {d : Dimension} {f : Option α → α} {entries : List (Dimension × α)}
    (above : ∀ entry ∈ entries, entry.1 < d) :
    upsertEntry d f entries = entries ++ [(d, f none)] := by
  induction entries with
  | nil => rfl
  | cons entry rest ih =>
    have lt := above entry List.mem_cons_self
    rw [upsertEntry, if_neg (UInt32.not_lt.mpr (UInt32.le_of_lt lt)),
      if_neg (UInt32.ne_of_lt lt).symm,
      ih fun other found => above other (List.mem_cons_of_mem _ found)]
    rfl

/-- Ascending bindings above those of a map are put behind them. -/
theorem entries_foldl_insert {made : DimensionMap α} {later : List (Dimension × α)}
    (sorted : (made.entries ++ later).Pairwise fun a b => a.1 < b.1) :
    (later.foldl (fun m binding => m.insert binding.1 binding.2) made).entries =
      made.entries ++ later := by
  induction later generalizing made with
  | nil => rw [List.append_nil]; rfl
  | cons binding later ih =>
    have above : ∀ entry ∈ made.entries, entry.1 < binding.1 := fun entry found =>
      (List.pairwise_append.mp sorted).2.2 entry found binding List.mem_cons_self
    have inserted : (made.insert binding.1 binding.2).entries = made.entries ++ [binding] :=
      upsertEntry_of_lt above
    have regrouped : (made.insert binding.1 binding.2).entries ++ later =
        made.entries ++ binding :: later := by rw [inserted]; simp
    rw [List.foldl_cons, ih (regrouped ▸ sorted), regrouped]

/-- The entries of a map, put in one after the other, make up the map. -/
theorem ofList_entries (m : DimensionMap α) : ofList m.entries = m :=
  ext (entries_foldl_insert m.sorted)

/-! ## Replacing every value -/

/-- The map of the same dimensions, each bound to a function of what it was bound to. -/
def map {β : Type} (f : α → β) (m : DimensionMap α) : DimensionMap β :=
  ⟨m.entries.map fun entry => (entry.1, f entry.2), List.pairwise_map.mpr m.sorted⟩

theorem map_upsertEntry {β : Type} {f : α → β} {write : Option α → α} {write' : Option β → β}
    (commutes : ∀ bound, f (write bound) = write' (bound.map f)) (d : Dimension)
    (entries : List (Dimension × α)) :
    (upsertEntry d write entries).map (fun entry => (entry.1, f entry.2)) =
      upsertEntry d write' (entries.map fun entry => (entry.1, f entry.2)) := by
  induction entries with
  | nil => simp [upsertEntry, commutes]
  | cons entry rest ih =>
    obtain ⟨e, b⟩ := entry
    rw [upsertEntry, List.map_cons, upsertEntry]
    split
    · simp [commutes]
    · split
      · simp [commutes]
      · rw [List.map_cons, ih]

/-- Values can be replaced before or after a write. -/
theorem map_upsert {β : Type} {f : α → β} {write : Option α → α} {write' : Option β → β}
    (commutes : ∀ bound, f (write bound) = write' (bound.map f)) (m : DimensionMap α)
    (d : Dimension) : (m.upsert d write).map f = (m.map f).upsert d write' := by
  rw [map, upsert, mk.injEq]
  exact map_upsertEntry commutes d m.entries

/-! ## Lists as values -/

/-- What is put behind the list of one dimension is, up to order, put before all lists together. -/
theorem perm_flatten_upsertEntry (d : Dimension) (a : α) (entries : List (Dimension × List α)) :
    ((upsertEntry d (fun bucket => bucket.getD [] ++ [a]) entries).map Prod.snd).flatten.Perm
      (a :: (entries.map Prod.snd).flatten) := by
  induction entries with
  | nil => exact List.Perm.refl _
  | cons entry rest ih =>
    obtain ⟨e, bucket⟩ := entry
    rw [upsertEntry]
    split
    · exact List.Perm.refl _
    · split
      · show ((bucket ++ [a]) ++ (rest.map Prod.snd).flatten).Perm _
        rw [List.append_assoc]
        exact List.perm_middle
      · exact (ih.append_left bucket).trans List.perm_middle

end DimensionMap

end QuantityAlgebra
