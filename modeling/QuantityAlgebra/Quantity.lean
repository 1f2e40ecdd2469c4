/-!
# Quantities

A quantity type is a name inside a module, written as a path such as `kinematics::Speed`. A path is
cut at its **last** separator `::` (`cutPath`), so the module part may hold separators of its own
and the name part never does; a path without a separator names a quantity of the empty module, and
such a quantity is displayed by its name alone.

Quantities are ordered by module, then by name, both by code point.

Results:
* `cutPath_eq_some`: the two parts and the separator make up the path.
* `cutPath_name`: the name part of a cut holds no separator.
-/

namespace QuantityAlgebra

/-- A named quantity type (`QuantityType`). -/
structure Quantity where
  /-- The module part (`module`), which may itself be a path. Two quantities of one module are
  neighbours. -/
  modulePath : String
  /-- The name inside the module. -/
  name : String
  deriving DecidableEq, Inhabited

/-- An ordered list of quantities: what a derivation's slots are bound to. -/
abbrev Signature := List Quantity

namespace Quantity

/-- The parts of a path before and after its last `::`, where `parse` cuts it. -/
def cutPath : List Char → Option (List Char × List Char)
  | [] => none
  | c :: rest =>
    match cutPath rest with
    | some (home, name) => some (c :: home, name)
    | none =>
      match c, rest with
      | ':', ':' :: name => some ([], name)
      | _, _ => none

/-- The quantity a path names (`parse`). -/
def ofPath (path : String) : Quantity :=
  match cutPath path.toList with
  | some (home, name) => ⟨String.ofList home, String.ofList name⟩
  | none => ⟨"", path⟩

/-- The path of a quantity, as it is displayed; only the name if its module is empty. -/
def path (q : Quantity) : String :=
  if q.modulePath = "" then q.name else q.modulePath ++ "::" ++ q.name

/-- By module, then by name. -/
def order (a b : Quantity) : Ordering :=
  (compare a.modulePath b.modulePath).then (compare a.name b.name)

instance : Ord Quantity := ⟨order⟩

/-- Ascending, with equal quantities kept. -/
def sort (quantities : List Quantity) : List Quantity :=
  quantities.mergeSort fun a b => (order a b).isLE

/-! ## Cutting a path -/

/-- A cut takes away one separator and nothing else. -/
theorem cutPath_eq_some {path home name : List Char} (h : cutPath path = some (home, name)) :
    path = home ++ ':' :: ':' :: name := by
  fun_induction cutPath path generalizing home with
  | case1 => simp at h
  | case2 c rest home' name' found ih =>
    simp only [Option.some.injEq, Prod.mk.injEq] at h
    obtain ⟨rfl, rfl⟩ := h
    simp [ih found]
  | case3 =>
    simp only [Option.some.injEq, Prod.mk.injEq] at h
    obtain ⟨rfl, rfl⟩ := h
    rfl
  | case4 => simp at h

/-- After the last separator there is no other. -/
theorem cutPath_name {path home name : List Char} (h : cutPath path = some (home, name)) :
    cutPath name = none := by
  fun_induction cutPath path generalizing home with
  | case1 => simp at h
  | case2 c rest home' name' found ih =>
    simp only [Option.some.injEq, Prod.mk.injEq] at h
    obtain ⟨-, rfl⟩ := h
    exact ih found
  | case3 tail missing =>
    simp only [Option.some.injEq, Prod.mk.injEq] at h
    obtain ⟨-, rfl⟩ := h
    unfold cutPath at missing
    split at missing
    · simp at missing
    · assumption
  | case4 => simp at h

end Quantity

end QuantityAlgebra
