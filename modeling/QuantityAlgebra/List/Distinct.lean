/-!
# First occurrences

`distinctBy key xs` keeps of every run of elements with one key the first, in the order of `xs`. A
loop that puts each element behind the kept ones, unless its key is there (`keepNew`), does the
same.

Results:
* `mem_of_mem_distinctBy`, `exists_mem_distinctBy`: nothing new appears, and every key stays
  present.
* `nodup_distinctBy`: no two kept elements share a key.
* `mem_distinctBy_iff`: of an ordered list, kept is what nothing earlier shares a key with.
* `distinctBy_eq_self`: a list whose keys differ is kept as it is.
* `distinctBy_map`, `distinctBy_comp`: keys can be taken before or after.
* `distinctBy_append`: what is kept of two lists in a row.
* `foldl_keepNew_nil`: the loop keeps the first of each key.
* `distinct_filter`: elements can be left out before or after.
-/

namespace QuantityAlgebra

variable {α β : Type} [DecidableEq β]

/-- The first element of each key, in order. -/
def distinctBy (key : α → β) : List α → List α
  | [] => []
  | x :: xs => x :: (distinctBy key xs).filter fun y => key y ≠ key x

/-- The first occurrence of each element, in order. -/
abbrev distinct (xs : List β) : List β := distinctBy id xs

/-- Keeps an element unless its key is that of one that is kept already. -/
def keepNew (key : α → β) (kept : List α) (x : α) : List α :=
  if key x ∈ kept.map key then kept else kept ++ [x]

theorem distinctBy_sublist (key : α → β) : ∀ xs : List α, (distinctBy key xs).Sublist xs
  | [] => List.Sublist.slnil
  | x :: xs => (List.filter_sublist.trans (distinctBy_sublist key xs)).cons_cons x

@[simp] theorem distinctBy_eq_nil_iff {key : α → β} {xs : List α} :
    distinctBy key xs = [] ↔ xs = [] := by
  cases xs <;> simp [distinctBy]

theorem mem_of_mem_distinctBy {key : α → β} {xs : List α} {x : α} (h : x ∈ distinctBy key xs) :
    x ∈ xs :=
  (distinctBy_sublist key xs).subset h

/-- Every element has the key of a kept one. -/
theorem exists_mem_distinctBy {key : α → β} {xs : List α} {x : α} (h : x ∈ xs) :
    ∃ y ∈ distinctBy key xs, key y = key x := by
  induction xs with
  | nil => simp at h
  | cons z zs ih =>
    rcases List.mem_cons.mp h with rfl | h
    · exact ⟨x, by simp [distinctBy], rfl⟩
    · obtain ⟨y, hy, hk⟩ := ih h
      by_cases hz : key y = key z
      · exact ⟨z, by simp [distinctBy], hz.symm.trans hk⟩
      · exact ⟨y, by simp [distinctBy, hy, hz], hk⟩

/-- No two kept elements share a key. -/
theorem nodup_distinctBy (key : α → β) (xs : List α) : ((distinctBy key xs).map key).Nodup := by
  induction xs with
  | nil => simp [distinctBy]
  | cons x xs ih =>
    simp only [distinctBy, List.map_cons, List.nodup_cons, List.mem_map, List.mem_filter]
    refine ⟨fun ⟨y, hy, hk⟩ => by simp [hk] at hy, ?_⟩
    exact ih.sublist (List.filter_sublist.map key)

/-- In an ordered list, kept are the elements that no earlier one shares a key with. -/
theorem mem_distinctBy_iff {r : α → α → Prop} {key : α → β} {xs : List α} {x : α}
    (asymm : ∀ a b, r a b → ¬r b a) (ordered : xs.Pairwise r) :
    x ∈ distinctBy key xs ↔ x ∈ xs ∧ ∀ y ∈ xs, r y x → key y ≠ key x := by
  induction xs with
  | nil => simp [distinctBy]
  | cons z zs ih =>
    obtain ⟨before, ordered⟩ := List.pairwise_cons.mp ordered
    rw [distinctBy, List.mem_cons, List.mem_filter, ih ordered, decide_eq_true_iff]
    constructor
    · rintro (rfl | ⟨⟨found, first⟩, differ⟩)
      · refine ⟨List.mem_cons_self, fun y hy earlier => ?_⟩
        rcases List.mem_cons.mp hy with rfl | hy
        · exact absurd earlier (asymm _ _ earlier)
        · exact absurd earlier (asymm _ _ (before y hy))
      · refine ⟨List.mem_cons_of_mem z found, fun y hy earlier => ?_⟩
        rcases List.mem_cons.mp hy with rfl | hy
        · exact Ne.symm differ
        · exact first y hy earlier
    · rintro ⟨found, first⟩
      rcases List.mem_cons.mp found with rfl | found
      · exact Or.inl rfl
      · have differ := first z List.mem_cons_self (before x found)
        exact Or.inr ⟨⟨found, fun y hy => first y (List.mem_cons_of_mem z hy)⟩, Ne.symm differ⟩

/-- Where the keys differ nothing is dropped. -/
theorem distinctBy_eq_self {key : α → β} {xs : List α} (h : (xs.map key).Nodup) :
    distinctBy key xs = xs := by
  induction xs with
  | nil => rfl
  | cons x xs ih =>
    simp only [List.map_cons, List.nodup_cons, List.mem_map, not_exists, not_and] at h
    rw [distinctBy, ih h.2, List.filter_eq_self.mpr]
    intro y hy
    simpa using fun e => h.1 y hy e

/-- The first occurrences among images are the images of the first of each key. -/
theorem distinctBy_map {γ : Type} (key : α → β) (f : γ → α) (xs : List γ) :
    distinctBy key (xs.map f) = (distinctBy (key ∘ f) xs).map f := by
  induction xs with
  | nil => rfl
  | cons x xs ih =>
    rw [List.map_cons, distinctBy, ih, distinctBy, List.map_cons, List.filter_map]
    rfl

/-- The first of all is kept, and stays first. -/
@[simp] theorem head?_distinctBy (key : α → β) (xs : List α) :
    (distinctBy key xs).head? = xs.head? := by
  cases xs <;> rfl

/-- Of two lists in a row, the second keeps what shares no key with the first. -/
theorem distinctBy_append (key : α → β) (xs ys : List α) :
    distinctBy key (xs ++ ys) =
      distinctBy key xs ++ (distinctBy key ys).filter fun y => key y ∉ xs.map key := by
  induction xs with
  | nil => exact (List.filter_eq_self.mpr (by simp)).symm
  | cons x xs ih =>
    rw [List.cons_append, distinctBy, ih, distinctBy, List.filter_append, List.filter_filter,
      List.cons_append]
    congr 2
    refine List.filter_congr fun y _ => ?_
    rw [Bool.eq_iff_iff]
    simp [not_or]

/-- Keys that an injective function gets from others tell the same elements apart. -/
theorem distinctBy_comp {γ : Type} [DecidableEq γ] {f : β → γ} (h : ∀ a b, f a = f b → a = b)
    (key : α → β) (xs : List α) : distinctBy (f ∘ key) xs = distinctBy key xs := by
  induction xs with
  | nil => rfl
  | cons x xs ih =>
    rw [distinctBy, distinctBy, ih]
    congr 1
    refine List.filter_congr fun y _ => ?_
    have same : f (key y) = f (key x) ↔ key y = key x := ⟨h _ _, fun e => by rw [e]⟩
    simp [same]

theorem foldl_keepNew (key : α → β) (kept xs : List α) :
    xs.foldl (keepNew key) kept =
      kept ++ (distinctBy key xs).filter fun x => key x ∉ kept.map key := by
  induction xs generalizing kept with
  | nil => simp [distinctBy]
  | cons x xs ih =>
    rw [List.foldl_cons, ih, keepNew, distinctBy, List.filter_cons, List.filter_filter]
    by_cases seen : key x ∈ kept.map key
    · rw [if_pos seen, if_neg (by simpa using seen)]
      congr 1
      refine List.filter_congr fun y _ => ?_
      have differ : key y ∉ kept.map key → key y ≠ key x := fun absent e => absent (e ▸ seen)
      by_cases h : key y ∈ kept.map key <;> simp_all
    · rw [if_neg seen, if_pos (by simpa using seen), List.append_assoc, List.singleton_append]
      congr 2
      refine List.filter_congr fun y _ => ?_
      rw [Bool.eq_iff_iff]
      simp [and_comm]

/-- Keeping one element after the other if its key is new keeps the first of each key. -/
theorem foldl_keepNew_nil (key : α → β) (xs : List α) :
    xs.foldl (keepNew key) [] = distinctBy key xs := by
  rw [foldl_keepNew, List.nil_append, List.filter_eq_self.mpr (by simp)]

@[simp] theorem mem_distinct {xs : List β} {x : β} : x ∈ distinct xs ↔ x ∈ xs := by
  refine ⟨mem_of_mem_distinctBy, fun h => ?_⟩
  obtain ⟨y, hy, rfl⟩ : ∃ y ∈ distinctBy id xs, y = x := exists_mem_distinctBy h
  exact hy

theorem nodup_distinct (xs : List β) : (distinct xs).Nodup := by
  simpa using nodup_distinctBy id xs

theorem distinct_cons (x : β) (xs : List β) :
    distinct (x :: xs) = x :: (distinct xs).filter fun y => y ≠ x := rfl

/-- Without repeats nothing is dropped. -/
theorem distinct_eq_self {xs : List β} (h : xs.Nodup) : distinct xs = xs :=
  distinctBy_eq_self (by rwa [List.map_id])

/-- Of two lists in a row, the second keeps what is not in the first. -/
theorem distinct_append (xs ys : List β) :
    distinct (xs ++ ys) = distinct xs ++ (distinct ys).filter fun y => y ∉ xs := by
  rw [distinct, distinctBy_append, List.map_id]
  rfl

/-- What a property of elements leaves out can be left out before or after. -/
theorem distinct_filter (p : β → Bool) (xs : List β) :
    distinct (xs.filter p) = (distinct xs).filter p := by
  induction xs with
  | nil => rfl
  | cons x xs ih =>
    rw [distinct_cons, List.filter_cons, List.filter_cons, List.filter_filter]
    by_cases held : p x
    · rw [if_pos held, if_pos held, distinct_cons, ih, List.filter_filter]
      congr 1
      exact List.filter_congr fun y _ => Bool.and_comm _ _
    · rw [if_neg held, if_neg held, ih]
      refine List.filter_congr fun y _ => ?_
      have differ : p y = true → y ≠ x := fun h same => held (same ▸ h)
      rw [Bool.eq_iff_iff]
      simpa using differ

end QuantityAlgebra
