import QuantityAlgebra.Derivation
import QuantityAlgebra.List.Distinct

/-!
# Reorderings of a signature

A reordering is a signature in another order, together with the slot each of its quantities comes
from. `Signature.reorderings` lists every ordering of the quantities once, beginning with the given
one. Orderings that only exchange equal quantities are not told apart.

The next quantity of an ordering is brought to the front of those left by exchanging it with the
first of them (`fronts`), the first place of each quantity being the one that counts.

Beside it stands the search as `permutations` runs it, in place: `Reordering.walk` exchanges
entries, tries every entry at every place, and only at the end keeps an ordering unless its
quantities have been met. It keeps the reorderings, in their order
(`Signature.reorderings_eq_walk`).

Results: `perm_fronts`, a front and what is left are the entries in some order, so
(`length_fronts_rest`) one entry less is left.
-/

namespace QuantityAlgebra

/-- A signature in some order, with the slot each quantity comes from (`PermutedSignature`). -/
structure Reordering where
  quantities : Signature
  slots : List Nat
  deriving DecidableEq, Inhabited

/-- The list with two of its places exchanged. -/
def exchange {α : Type} (xs : List α) (i j : Nat) : List α :=
  match xs[i]?, xs[j]? with
  | some x, some y => (xs.set i y).set j x
  | _, _ => xs

/-- Each element of a list, with the list that is left when it is exchanged with the first and that
place is taken away. -/
def fronts {α : Type} : List α → List (α × List α)
  | [] => []
  | x :: rest => (x, rest) :: rest.zipIdx.map fun (y, i) => (y, rest.set i x)

/-- The orderings of entries of which there are `n`, each ordering of the quantities once. -/
def orderings : Nat → List (Quantity × Nat) → List (List (Quantity × Nat))
  | 0, entries => [entries]
  | n + 1, entries =>
    (distinctBy (fun front => front.1.1) (fronts entries)).flatMap fun (entry, rest) =>
      (orderings n rest).map (entry :: ·)

namespace Signature

/-- The signature in its own order (`identity`). -/
def identity (signature : Signature) : Reordering :=
  ⟨signature, List.range signature.length⟩

/-- Every distinct ordering of the signature, its own first (`permutations`). -/
def reorderings (signature : Signature) : List Reordering :=
  (orderings signature.length signature.zipIdx).map fun entries =>
    ⟨entries.map Prod.fst, entries.map Prod.snd⟩

end Signature

namespace Reordering

/-- The reordering with two of its places exchanged. -/
def swap (current : Reordering) (i j : Nat) : Reordering :=
  ⟨exchange current.quantities i j, exchange current.slots i j⟩

/-- The walk over the `n` entries from `place` on. Each of them in turn is exchanged with the entry
at `place`, and the walk goes on behind it. Past the last entry the ordering is kept, if its
quantities are new (`permute`). -/
def walk : (n place : Nat) → Reordering → List Reordering → List Reordering
  | 0, _, current, kept => keepNew quantities kept current
  | n + 1, place, current, kept =>
    (List.range (n + 1)).foldl
      (fun kept i => walk n (place + 1) (current.swap place (place + i)) kept) kept

end Reordering

/-- The orderings a derivation is emitted for: its own, or every distinct one (`signatures`). -/
def Derivation.reorderings (d : Derivation) (permuted : Bool) : List Reordering :=
  if permuted then Signature.reorderings d.signature else [Signature.identity d.signature]

/-! ## Fronts -/

theorem perm_cons_set {α : Type} {x y : α} : ∀ {rest : List α} {i : Nat}, rest[i]? = some y →
    (y :: rest.set i x).Perm (x :: rest)
  | [], _, h => by simp at h
  | z :: rest, 0, h => by
    obtain rfl : z = y := by simpa using h
    exact List.Perm.swap x z rest
  | z :: rest, i + 1, h => by
    have h : rest[i]? = some y := by simpa using h
    exact (List.Perm.swap z y _).trans (((perm_cons_set h).cons z).trans (List.Perm.swap x z rest))

/-- A front and what is left are the entries, in some order. -/
theorem perm_fronts {α : Type} {entries : List α} {front : α × List α}
    (h : front ∈ fronts entries) :
    (front.1 :: front.2).Perm entries := by
  cases entries with
  | nil => simp [fronts] at h
  | cons x rest =>
    simp only [fronts, List.mem_cons, List.mem_map, Prod.exists] at h
    rcases h with rfl | ⟨y, i, hy, rfl⟩
    · exact List.Perm.refl _
    · exact perm_cons_set (List.mk_mem_zipIdx_iff_getElem?.mp hy)

theorem length_fronts_rest {α : Type} {entries : List α} {front : α × List α}
    (h : front ∈ fronts entries) : front.2.length + 1 = entries.length := by
  simpa using (perm_fronts h).length_eq

end QuantityAlgebra
