import Mathlib.Data.List.Perm.Basic
import QuantityAlgebra.Derivation.Reordering

/-!
# Every ordering once

`Signature.reorderings` takes a front only if no earlier one has its quantity. Beside it stands the
plain search: `Reordering.walk` exchanges entries in place, tries every entry at every place, and
only at the end keeps an ordering unless its quantities have been met. What the walk meets are the
`arrangements`, one for every choice of fronts.

Two fronts with one quantity leave the same quantities behind, so every ordering that begins with
the second has its quantities from one that begins with the first, and comes later. That is why no
ordering is lost with a front, and why the two searches keep the same ones.

Results:
* **`mem_arrangements`**: exchanges reach every ordering of the entries, and nothing else.
* `distinctBy_flatMap`: what is kept of several lists that share all their keys or none.
* **`orderings_eq`**: dropping fronts is dropping orderings.
* `Reordering.walk_eq`, **`Signature.reorderings_eq_walk`**: the walk in place keeps the
  reorderings, in their order.
* **`Signature.reorderings_enumerate`**: every distinct ordering of a signature is listed exactly
  once, with the slots its quantities come from, and its own order first.
-/

namespace QuantityAlgebra

/-! ## First occurrences in several lists -/

section

variable {α β γ δ : Type} [DecidableEq β] [DecidableEq δ]

theorem flatMap_filter (p : γ → Bool) (f : γ → List α) (xs : List γ) :
    (xs.filter p).flatMap f = xs.flatMap fun x => if p x then f x else [] := by
  induction xs with
  | nil => rfl
  | cons x xs ih =>
    rw [List.filter_cons, List.flatMap_cons, ← ih]
    split <;> simp

/-- The first of each key among the elements of several lists, where lists of one label have the
same keys and lists of different labels share none. -/
theorem distinctBy_flatMap {key : α → β} (label : γ → δ) {f : γ → List α} {xs : List γ}
    (apart : ∀ x ∈ xs, ∀ y ∈ xs, ∀ a ∈ f x, ∀ b ∈ f y, key a = key b → label x = label y)
    (alike : ∀ x ∈ xs, ∀ y ∈ xs, label x = label y → ∀ b ∈ f y, ∃ a ∈ f x, key a = key b) :
    distinctBy key (xs.flatMap f) =
      (distinctBy label xs).flatMap fun x => distinctBy key (f x) := by
  induction xs with
  | nil => rfl
  | cons x xs ih =>
    have ih := ih (fun x hx y hy => apart x (.tail _ hx) y (.tail _ hy))
      (fun x hx y hy => alike x (.tail _ hx) y (.tail _ hy))
    rw [List.flatMap_cons, distinctBy_append, ih, distinctBy, List.flatMap_cons]
    congr 1
    rw [List.filter_flatMap, flatMap_filter]
    refine List.flatMap_congr fun y hy => ?_
    have hy := mem_of_mem_distinctBy hy
    by_cases same : label y = label x
    · rw [if_neg (by simpa using same)]
      rw [List.filter_eq_nil_iff]
      intro b hb
      obtain ⟨a, ha, e⟩ := alike x (.head _) y (.tail _ hy) same.symm b (mem_of_mem_distinctBy hb)
      simpa using ⟨a, ha, e⟩
    · rw [if_pos (by simpa using same)]
      rw [List.filter_eq_self]
      intro b hb
      simp only [List.mem_map, not_exists, not_and, decide_eq_true_eq]
      intro a ha e
      exact same (apart x (.head _) y (.tail _ hy) a ha b (mem_of_mem_distinctBy hb) e).symm

end

variable {α : Type}

/-! ## Exchanging in place -/

theorem exchange_append (before xs : List α) (i j : Nat) :
    exchange (before ++ xs) (before.length + i) (before.length + j) =
      before ++ exchange xs i j := by
  have behind (k : Nat) : (before ++ xs)[before.length + k]? = xs[k]? := by
    rw [List.getElem?_append_right (Nat.le_add_right _ _), Nat.add_sub_cancel_left]
  have set_behind (ys : List α) (k : Nat) (x : α) :
      (before ++ ys).set (before.length + k) x = before ++ ys.set k x := by
    rw [List.set_append_right _ _ (Nat.le_add_right _ _), Nat.add_sub_cancel_left]
  unfold exchange
  rw [behind, behind]
  cases xs[i]? with
  | none => rfl
  | some x =>
    cases xs[j]? with
    | none => rfl
    | some y =>
      show ((before ++ xs).set _ y).set _ x = _
      rw [set_behind, set_behind]

theorem map_exchange {β : Type} (f : α → β) (xs : List α) (i j : Nat) :
    (exchange xs i j).map f = exchange (xs.map f) i j := by
  unfold exchange
  rw [List.getElem?_map, List.getElem?_map]
  cases xs[i]? with
  | none => rfl
  | some x =>
    cases xs[j]? with
    | none => rfl
    | some y =>
      show ((xs.set i y).set j x).map f = _
      rw [List.map_set, List.map_set]
      rfl

/-- The fronts are what exchanging the first entry with each brings about. -/
theorem map_exchange_range (entries : List α) :
    (List.range entries.length).map (exchange entries 0) =
      (fronts entries).map fun front => front.1 :: front.2 := by
  cases entries with
  | nil => rfl
  | cons x rest =>
    rw [List.length_cons, List.range_succ_eq_map, fronts, List.map_cons, List.map_cons,
      List.map_map, List.map_map]
    congr 1
    refine List.ext_getElem (by simp) fun i hi _ => ?_
    have hi : i < rest.length := by simpa using hi
    simp [exchange, hi]

/-! ## Every choice of fronts -/

/-- The orderings of entries of which there are `n`, one for every choice of fronts. -/
def arrangements : Nat → List α → List (List α)
  | 0, entries => [entries]
  | n + 1, entries =>
    (fronts entries).flatMap fun front => (arrangements n front.2).map (front.1 :: ·)

theorem exists_mem_fronts {x : α} {entries : List α} (h : x ∈ entries) :
    ∃ front ∈ fronts entries, front.1 = x := by
  cases entries with
  | nil => simp at h
  | cons y rest =>
    rcases List.mem_cons.mp h with rfl | h
    · exact ⟨(x, rest), by simp [fronts], rfl⟩
    · obtain ⟨i, hi⟩ := List.mem_iff_getElem?.mp h
      have numbered : (x, i) ∈ rest.zipIdx := List.mk_mem_zipIdx_iff_getElem?.mpr hi
      exact ⟨(x, rest.set i y), List.mem_cons_of_mem _ (List.mem_map_of_mem numbered), rfl⟩

/-- **Every ordering is reached**, and nothing else. -/
theorem mem_arrangements {n : Nat} {entries es : List α} (h : entries.length = n) :
    es ∈ arrangements n entries ↔ es.Perm entries := by
  induction n generalizing entries es with
  | zero =>
    obtain rfl := List.length_eq_zero_iff.mp h
    simp [arrangements]
  | succ n ih =>
    simp only [arrangements, List.mem_flatMap, List.mem_map]
    constructor
    · rintro ⟨front, hfront, es, hes, rfl⟩
      have left := length_fronts_rest hfront
      have reordered := (ih (by omega)).mp hes
      exact (reordered.cons front.1).trans (perm_fronts hfront)
    · intro reordered
      cases es with
      | nil => simp [← reordered.length_eq] at h
      | cons e es =>
        obtain ⟨front, hfront, rfl⟩ := exists_mem_fronts (reordered.subset List.mem_cons_self)
        have left := length_fronts_rest hfront
        have rest : es.Perm front.2 := (reordered.trans (perm_fronts hfront).symm).cons_inv
        exact ⟨front, hfront, es, (ih (by omega)).mpr rest, rfl⟩

theorem head?_arrangements (n : Nat) (entries : List α) (h : entries.length = n) :
    (arrangements n entries).head? = some entries := by
  induction n generalizing entries with
  | zero => rfl
  | succ n ih =>
    cases entries with
    | nil => simp at h
    | cons x rest =>
      have first := ih rest (by simpa using h)
      simp [arrangements, fronts, List.head?_append, first]

/-- A list with the keys of another in some order is the keys of that other in some order. -/
theorem exists_perm_of_perm_map {β : Type} {f : α → β} {keys : List β} {xs : List α}
    (h : keys.Perm (xs.map f)) : ∃ ys : List α, ys.Perm xs ∧ ys.map f = keys := by
  have keyed : List.Forall₂ (fun key x => key = f x) (xs.map f) xs :=
    List.forall₂_map_left_iff.mpr (List.forall₂_same.mpr fun _ _ => rfl)
  obtain ⟨ys, matched, reordered⟩ := List.perm_comp_forall₂ h keyed
  refine ⟨ys, reordered, ?_⟩
  exact (List.forall₂_eq_eq_eq ▸ List.forall₂_map_right_iff.mpr matched : keys = ys.map f).symm

/-- **Dropping a front whose quantity an earlier one has is dropping every ordering whose quantities
an earlier one has.** -/
theorem orderings_eq {n : Nat} {entries : List (Quantity × Nat)} (h : entries.length = n) :
    orderings n entries = distinctBy (fun es => es.map Prod.fst) (arrangements n entries) := by
  induction n generalizing entries with
  | zero => rfl
  | succ n ih =>
    have rests : ∀ front ∈ fronts entries, orderings n front.2 =
        distinctBy (fun es => es.map Prod.fst) (arrangements n front.2) := by
      intro front hfront
      have left := length_fronts_rest hfront
      exact ih (by omega)
    rw [arrangements, distinctBy_flatMap fun front => front.1.1]
    · rw [orderings]
      refine List.flatMap_congr fun front hfront => ?_
      show (orderings n front.2).map (front.1 :: ·) = _
      rw [rests front (mem_of_mem_distinctBy hfront), distinctBy_map]
      rw [← distinctBy_comp (f := (front.1.1 :: ·)) (by simp)]
      rfl
    · rintro x - y - a ha b hb same
      obtain ⟨a, -, rfl⟩ := List.mem_map.mp ha
      obtain ⟨b, -, rfl⟩ := List.mem_map.mp hb
      exact (List.cons.inj same).1
    · intro x hx y hy same b hb
      obtain ⟨es, hes, rfl⟩ := List.mem_map.mp hb
      have leftX : x.2.length = n := Nat.succ.inj ((length_fronts_rest hx).trans h)
      have leftY : y.2.length = n := Nat.succ.inj ((length_fronts_rest hy).trans h)
      -- The entries left behind either front hold the same quantities.
      have whole := ((perm_fronts hy).trans (perm_fronts hx).symm).map Prod.fst
      rw [List.map_cons, List.map_cons, same] at whole
      have reordered := ((mem_arrangements leftY).mp hes).map Prod.fst
      obtain ⟨es', hes', keys⟩ := exists_perm_of_perm_map (reordered.trans whole.cons_inv)
      refine ⟨x.1 :: es', List.mem_map_of_mem ((mem_arrangements leftX).mpr hes'), ?_⟩
      simp [keys, same]

namespace Reordering

/-- The ordering that entries are in. -/
def ofEntries (entries : List (Quantity × Nat)) : Reordering :=
  ⟨entries.map Prod.fst, entries.map Prod.snd⟩

theorem swap_ofEntries (before entries : List (Quantity × Nat)) (i : Nat) :
    (ofEntries (before ++ entries)).swap before.length (before.length + i) =
      ofEntries (before ++ exchange entries 0 i) := by
  have exchanged := exchange_append before entries 0 i
  rw [Nat.add_zero] at exchanged
  rw [swap, ofEntries, ofEntries, ← exchanged, map_exchange, map_exchange]

/-- **The walk meets every arrangement**, one after the other. -/
theorem walk_eq {n : Nat} {entries : List (Quantity × Nat)} (h : entries.length = n)
    (before : List (Quantity × Nat)) (kept : List Reordering) :
    walk n before.length (ofEntries (before ++ entries)) kept =
      ((arrangements n entries).map fun es => ofEntries (before ++ es)).foldl
        (keepNew quantities) kept := by
  induction n generalizing entries before kept with
  | zero => rfl
  | succ n ih =>
    have step : ∀ kept, ∀ front ∈ fronts entries,
        walk n (before.length + 1) (ofEntries (before ++ front.1 :: front.2)) kept =
          ((arrangements n front.2).map fun es => ofEntries (before ++ front.1 :: es)).foldl
            (keepNew quantities) kept := by
      intro kept front hfront
      have left : front.2.length = n := Nat.succ.inj ((length_fronts_rest hfront).trans h)
      simpa using ih left (before ++ [front.1]) kept
    calc walk (n + 1) before.length (ofEntries (before ++ entries)) kept
        = ((List.range entries.length).map (exchange entries 0)).foldl
            (fun kept es => walk n (before.length + 1) (ofEntries (before ++ es)) kept) kept := by
          simp only [walk, swap_ofEntries, List.foldl_map, h]
      _ = (fronts entries).foldl (fun kept front =>
            walk n (before.length + 1) (ofEntries (before ++ front.1 :: front.2)) kept) kept := by
          rw [map_exchange_range, List.foldl_map]
      _ = (fronts entries).foldl (fun kept front =>
            ((arrangements n front.2).map fun es => ofEntries (before ++ front.1 :: es)).foldl
              (keepNew quantities) kept) kept := List.foldl_ext _ _ _ step
      _ = _ := by
          simp [arrangements, List.map_flatMap, List.foldl_flatMap, Function.comp_def]

/-- A reordering of a signature: its slots are those of the signature in some order, and each of its
quantities is the one of its slot. -/
structure Reorders (r : Reordering) (signature : Signature) : Prop where
  slots : r.slots.Perm (List.range signature.length)
  quantities : r.quantities.map some = r.slots.map (signature[·]?)

theorem reorders_ofEntries {signature : Signature} {entries : List (Quantity × Nat)}
    (h : entries.Perm signature.zipIdx) : (ofEntries entries).Reorders signature := by
  constructor
  · simpa [ofEntries, List.range_eq_range'] using h.map Prod.snd
  · rw [ofEntries, List.map_map, List.map_map]
    refine List.map_congr_left fun entry hentry => ?_
    exact (List.mem_zipIdx_iff_getElem?.mp (h.subset hentry)).symm

end Reordering

namespace Signature

theorem ofEntries_zipIdx (signature : Signature) :
    Reordering.ofEntries signature.zipIdx = identity signature := by
  simp [Reordering.ofEntries, identity, List.range_eq_range']

/-- The reorderings are the arrangements of the signature, the first of each quantities. -/
theorem reorderings_eq (signature : Signature) :
    reorderings signature =
      distinctBy Reordering.quantities
        ((arrangements signature.length signature.zipIdx).map Reordering.ofEntries) := by
  rw [reorderings, orderings_eq (by simp), distinctBy_map]
  rfl

/-- **The reorderings are those of a walk in place**, from the signature in its own order. -/
theorem reorderings_eq_walk (signature : Signature) :
    reorderings signature = (identity signature).walk signature.length 0 [] := by
  have met := Reordering.walk_eq (List.length_zipIdx (l := signature) (i := 0)) [] []
  rw [List.length_nil, List.nil_append, ofEntries_zipIdx] at met
  rw [met, foldl_keepNew_nil, reorderings_eq]
  rfl

/-- **Every distinct ordering of a signature is listed exactly once**, its own first. -/
theorem reorderings_enumerate (signature : Signature) :
    (reorderings signature).head? = some (identity signature) ∧
    (∀ r ∈ reorderings signature, r.Reorders signature) ∧
    ((reorderings signature).map Reordering.quantities).Nodup ∧
    ∀ quantities : List Quantity, quantities.Perm signature →
      ∃ r ∈ reorderings signature, r.quantities = quantities := by
  rw [reorderings_eq]
  have counted : signature.zipIdx.length = signature.length := List.length_zipIdx
  refine ⟨?_, ?_, nodup_distinctBy _ _, ?_⟩
  · rw [head?_distinctBy, List.head?_map, head?_arrangements _ _ counted, ← ofEntries_zipIdx]
    rfl
  · intro r hr
    obtain ⟨entries, hentries, rfl⟩ := List.mem_map.mp (mem_of_mem_distinctBy hr)
    exact Reordering.reorders_ofEntries ((mem_arrangements counted).mp hentries)
  · intro quantities hquantities
    have numbered : quantities.Perm (signature.zipIdx.map Prod.fst) := by simpa using hquantities
    obtain ⟨entries, reordered, rfl⟩ := exists_perm_of_perm_map numbered
    exact exists_mem_distinctBy (List.mem_map_of_mem ((mem_arrangements counted).mpr reordered))

/-- Of six orderings three remain; the order is that of the exchanges. -/
example :
    (reorderings [⟨"m", "Length"⟩, ⟨"m", "Length"⟩, ⟨"m", "Time"⟩]).map Reordering.slots =
      [[0, 1, 2], [0, 2, 1], [2, 1, 0]] := by
  decide

end Signature

end QuantityAlgebra
