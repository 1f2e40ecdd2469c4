import QuantityAlgebra.Proofs.Document.Population

/-!
# Paths and the quantities they name

A path is cut at its last separator. Separators may share colons, and then the last one is what
counts: the last separator of `a:::b` leaves the module `a:`. So whether a module and a name, put
together with a separator between them, come apart as they were is decided by what comes behind the
first colon of that separator (`cutPath_eq_some_iff`): that text, which is a colon and the name,
must hold no separator. The module is free to end in colons.

A quantity of the empty module is displayed by its name alone. The one sort of path that is not
displayed as it was given begins with its only separator: it names a quantity of the empty module.

Results:
* `cutPath_eq_none_iff`, **`cutPath_eq_some_iff`**: a path is cut at its last separator.
* `path_ofPath_iff`: which paths are displayed as they were given.
* **`legible_iff_separated`**: which quantities are named by their paths.
* **`paths_round_trip`**: what goes through a path comes back, and what does not.
-/

namespace QuantityAlgebra.Quantity

/-- The text holds a separator. -/
def Separated (text : List Char) : Prop := [':', ':'] <:+: text

instance (text : List Char) : Decidable (Separated text) :=
  inferInstanceAs (Decidable (_ <:+: text))

/-! ## The last separator -/

theorem separated_cons {c : Char} {rest : List Char} :
    Separated (c :: rest) ↔ [':', ':'] <+: c :: rest ∨ Separated rest :=
  List.infix_cons_iff

/-- Behind a colon a separator may begin at that colon. -/
theorem separated_colon {text : List Char} :
    Separated (':' :: text) ↔ [':'] <+: text ∨ Separated text := by
  rw [separated_cons, List.cons_prefix_cons, and_iff_right rfl]

theorem separated_append_separator (home name : List Char) :
    Separated (home ++ ':' :: ':' :: name) :=
  ⟨home, name, by simp⟩

/-- What stands behind a separator is not the whole. -/
theorem ne_append_separator (home text : List Char) : text ≠ home ++ ':' :: ':' :: text := by
  intro same
  have longer := congrArg List.length same
  simp only [List.length_append, List.length_cons] at longer
  omega

/-- A path that is not cut has no separator. -/
theorem not_separated_of_cutPath {path : List Char} (h : cutPath path = none) :
    ¬Separated path := by
  fun_induction cutPath path with
  | case1 => exact fun separated => absurd (List.infix_nil.mp separated) (List.cons_ne_nil _ _)
  | case2 => contradiction
  | case3 => contradiction
  | case4 c rest missing noSeparator ih =>
    rw [separated_cons, not_or]
    refine ⟨?_, ih missing⟩
    rintro ⟨name, begins⟩
    obtain ⟨rfl, rfl⟩ := List.cons.inj begins
    exact noSeparator name rfl rfl

theorem cutPath_eq_none_iff {path : List Char} : cutPath path = none ↔ ¬Separated path := by
  refine ⟨not_separated_of_cutPath, fun unseparated => ?_⟩
  cases cut : cutPath path with
  | none => rfl
  | some parts =>
    obtain ⟨home, name⟩ := parts
    rw [cutPath_eq_some cut] at unseparated
    exact absurd (separated_append_separator home name) unseparated

/-- A separator with none behind its first colon is where a path is cut. -/
theorem cutPath_separator {name : List Char} (last : ¬Separated (':' :: name)) :
    cutPath (':' :: ':' :: name) = some ([], name) := by
  have missing := cutPath_eq_none_iff.mpr last
  rw [cutPath.eq_def]
  simp only [missing]

/-- What stands before a path goes to the module. -/
theorem cutPath_append {path home name : List Char} (h : cutPath path = some (home, name))
    (before : List Char) : cutPath (before ++ path) = some (before ++ home, name) := by
  induction before with
  | nil => exact h
  | cons c before ih =>
    rw [List.cons_append, cutPath.eq_def]
    simp only [ih, List.cons_append]

/-- **A path is cut at its last separator**: behind the first colon of that one there is no
other. -/
theorem cutPath_eq_some_iff {path home name : List Char} :
    cutPath path = some (home, name) ↔
      path = home ++ ':' :: ':' :: name ∧ ¬Separated (':' :: name) := by
  constructor
  · intro cut
    refine ⟨cutPath_eq_some cut, ?_⟩
    fun_induction cutPath path generalizing home with
    | case1 => contradiction
    | case2 c rest home' name' found ih =>
      obtain ⟨-, rfl⟩ := Prod.mk.inj (Option.some.inj cut)
      exact ih found
    | case3 tail missing =>
      obtain ⟨-, rfl⟩ := Prod.mk.inj (Option.some.inj cut)
      exact not_separated_of_cutPath missing
    | case4 => contradiction
  · rintro ⟨rfl, last⟩
    simpa using cutPath_append (cutPath_separator last) home

/-! ## Paths as they were given -/

/-- A path without a separator names a quantity of the empty module. -/
theorem ofPath_of_not_separated {path : String} (h : ¬Separated path.toList) :
    ofPath path = ⟨"", path⟩ := by
  rw [ofPath, cutPath_eq_none_iff.mpr h]

/-- A separator divides the module from the name, if it is the last. -/
theorem ofPath_eq_of_toList {path home name : String}
    (shape : path.toList = home.toList ++ ':' :: ':' :: name.toList)
    (last : ¬Separated (':' :: name.toList)) : ofPath path = ⟨home, name⟩ := by
  rw [ofPath, cutPath_eq_some_iff.mpr ⟨shape, last⟩]
  simp

/-- The path of a quantity in a module is the module, a separator and the name. -/
theorem toList_path {q : Quantity} (inModule : q.modulePath ≠ "") :
    q.path.toList = q.modulePath.toList ++ ':' :: ':' :: q.name.toList := by
  simp [path, inModule]

theorem path_of_no_module {q : Quantity} (noModule : q.modulePath = "") : q.path = q.name := by
  rw [path, if_pos noModule]

/-- A path names a quantity by its last separator, or has none and is the name. -/
theorem ofPath_cases (path : String) :
    (path.toList = (ofPath path).modulePath.toList ++ ':' :: ':' :: (ofPath path).name.toList ∧
      ¬Separated (':' :: (ofPath path).name.toList)) ∨
    (¬Separated path.toList ∧ ofPath path = ⟨"", path⟩) := by
  cases cut : cutPath path.toList with
  | none =>
    have unseparated := cutPath_eq_none_iff.mp cut
    exact Or.inr ⟨unseparated, ofPath_of_not_separated unseparated⟩
  | some parts =>
    obtain ⟨home, name⟩ := parts
    have named : ofPath path = ⟨String.ofList home, String.ofList name⟩ := by rw [ofPath, cut]
    rw [named]
    exact Or.inl (by simpa using cutPath_eq_some_iff.mp cut)

/-- **A path is displayed as it was given**, unless it begins with a separator behind an empty
module; then the separator is missing. -/
theorem path_ofPath_iff (path : String) :
    (ofPath path).path = path ↔
      ¬((ofPath path).modulePath = "" ∧ [':', ':'] <+: path.toList) := by
  rcases ofPath_cases path with ⟨shape, -⟩ | ⟨unseparated, named⟩
  · by_cases noModule : (ofPath path).modulePath = ""
    · rw [noModule] at shape
      have begins : [':', ':'] <+: path.toList := ⟨(ofPath path).name.toList, shape.symm⟩
      have shorter : (ofPath path).path ≠ path := by
        intro same
        rw [← path_of_no_module noModule, same] at shape
        exact ne_append_separator _ _ shape
      exact iff_of_false shorter fun otherwise => otherwise ⟨noModule, begins⟩
    · refine iff_of_true ?_ fun dropped => noModule dropped.1
      rw [← String.toList_inj, toList_path noModule, ← shape]
  · refine iff_of_true ?_ fun dropped => unseparated dropped.2.isInfix
    rw [named]
    rfl

/-! ## Quantities that their paths name -/

/-- **Which quantities their paths name**: the name holds no separator, and in a module it does not
begin with a colon, for that would move the last separator one place on. -/
theorem legible_iff_separated {q : Quantity} :
    q.Legible ↔
      (q.modulePath = "" ∧ ¬Separated q.name.toList) ∨
      (q.modulePath ≠ "" ∧ ¬Separated q.name.toList ∧ ¬[':'] <+: q.name.toList) := by
  by_cases noModule : q.modulePath = ""
  · have dropped := path_of_no_module noModule
    simp only [noModule, true_and, ne_eq, not_true_eq_false, false_and, or_false]
    constructor
    · intro legible
      rcases ofPath_cases q.path with ⟨shape, -⟩ | ⟨unseparated, -⟩
      · rw [legible, dropped] at shape
        exact absurd shape (ne_append_separator _ _)
      · exact dropped ▸ unseparated
    · intro unseparated
      rw [Legible, dropped, ofPath_of_not_separated unseparated, ← noModule]
  · have shape := toList_path noModule
    simp only [noModule, false_and, ne_eq, not_false_eq_true, true_and, false_or, ← not_or]
    rw [or_comm, ← separated_colon]
    constructor
    · intro legible
      rcases ofPath_cases q.path with ⟨-, last⟩ | ⟨unseparated, -⟩
      · rwa [legible] at last
      · rw [shape] at unseparated
        exact absurd (separated_append_separator _ _) unseparated
    · exact ofPath_eq_of_toList shape

/-- **What goes through a path.** A path read, displayed and read again names the same quantity; it
is displayed as it was given unless it begins with a separator and its module is empty; and a module
and a name come back from their path if and only if the name holds no separator and, unless the
module is empty, does not begin with a colon. -/
theorem paths_round_trip :
    (∀ path : String, ofPath (ofPath path).path = ofPath path ∧
      ((ofPath path).path = path ↔
        ¬((ofPath path).modulePath = "" ∧ [':', ':'] <+: path.toList))) ∧
    ∀ home name : String, ofPath (path ⟨home, name⟩) = ⟨home, name⟩ ↔
      (home = "" ∧ ¬[':', ':'] <:+: name.toList) ∨
      (home ≠ "" ∧ ¬[':', ':'] <:+: name.toList ∧ ¬[':'] <+: name.toList) :=
  ⟨fun path => ⟨legible_ofPath path, path_ofPath_iff path⟩, fun _ _ => legible_iff_separated⟩

/-- A name that begins with a colon gives it up to the module. -/
example : ofPath (path ⟨"a", ":b"⟩) = ⟨"a:", "b"⟩ := by decide

end QuantityAlgebra.Quantity
