import Mathlib.Data.List.Basic

/-!
# Three-valued SQL conditions

The truth value of a condition is true, false or unknown, and a `WHERE` clause
keeps a row exactly when it is true.  A nullable column is an `Option`, an
array column a list of nullable elements.  Each operator comes with the fact
which a `WHERE` clause needs of it: when it is true.
-/

namespace SqlLogic

universe u

variable {Value : Type u} [DecidableEq Value]

abbrev Truth := Option Bool

def Truth.and : Truth → Truth → Truth
  | some false, _ => some false
  | _, some false => some false
  | some true, some true => some true
  | _, _ => none

def Truth.or : Truth → Truth → Truth
  | some true, _ => some true
  | _, some true => some true
  | some false, some false => some false
  | _, _ => none

def conj (conditions : List Truth) : Truth :=
  conditions.foldr Truth.and (some true)

def eq : Option Value → Option Value → Truth
  | some left, some right => some (decide (left = right))
  | _, _ => none

omit [DecidableEq Value] in
def isNull (value : Option Value) : Truth :=
  some value.isNone

def isDistinctFrom (left right : Option Value) : Truth :=
  some (decide (left ≠ right))

/-- `array && wanted`, where `wanted` has no null elements. -/
def overlap (array : Option (List (Option Value))) (wanted : List Value) :
    Truth :=
  array.map fun items => wanted.any fun value => items.contains (some value)

/-- `value = ANY(wanted)`, where `wanted` has no null elements. -/
def eqAny (value : Option Value) (wanted : List Value) : Truth :=
  if wanted.isEmpty then some false
  else value.map fun value => wanted.contains value

@[simp] theorem Truth.and_eq_true_iff (left right : Truth) :
    left.and right = some true ↔ left = some true ∧ right = some true := by
  cases left with
  | none => cases right with
    | none => simp [Truth.and]
    | some right => cases right <;> simp [Truth.and]
  | some left => cases left <;> cases right with
    | none => simp [Truth.and]
    | some right => cases right <;> simp [Truth.and]

@[simp] theorem Truth.or_eq_true_iff (left right : Truth) :
    left.or right = some true ↔ left = some true ∨ right = some true := by
  cases left with
  | none => cases right with
    | none => simp [Truth.or]
    | some right => cases right <;> simp [Truth.or]
  | some left => cases left <;> cases right with
    | none => simp [Truth.or]
    | some right => cases right <;> simp [Truth.or]

theorem conj_eq_true_iff (conditions : List Truth) :
    conj conditions = some true ↔ ∀ condition ∈ conditions, condition = some true := by
  unfold conj
  induction conditions with
  | nil => simp
  | cons condition rest ih => rw [List.foldr_cons, Truth.and_eq_true_iff, ih, List.forall_mem_cons]

@[simp] theorem eq_eq_true_iff (left right : Option Value) :
    eq left right = some true ↔ left = right ∧ left ≠ none := by
  cases left with
  | none => simp [eq]
  | some left => cases right <;> simp [eq]

omit [DecidableEq Value] in
@[simp] theorem isNull_eq_true_iff (value : Option Value) :
    isNull value = some true ↔ value = none := by
  cases value <;> simp [isNull]

@[simp] theorem isDistinctFrom_eq_true_iff (left right : Option Value) :
    isDistinctFrom left right = some true ↔ left ≠ right := by
  simp [isDistinctFrom]

theorem overlap_eq_true_iff (array : Option (List (Option Value))) (wanted : List Value) :
    overlap array wanted = some true ↔ ∃ value ∈ wanted, some value ∈ array.getD [] := by
  cases array with
  | none => simp [overlap]
  | some items => simp [overlap]

theorem eqAny_eq_true_iff (value : Option Value) (wanted : List Value) :
    eqAny value wanted = some true ↔ ∃ candidate ∈ wanted, value = some candidate := by
  unfold eqAny
  cases wanted with
  | nil => simp
  | cons first rest =>
    cases value with
    | none => simp
    | some value =>
      simp only [List.isEmpty_cons, Bool.false_eq_true, if_false,
        Option.map_some, Option.some.injEq, List.contains_iff_mem]
      constructor
      · intro hmem
        exact ⟨value, hmem, rfl⟩
      · rintro ⟨candidate, hmem, rfl⟩
        exact hmem

/-- `text LIKE pattern`, both as characters. -/
def like : List Char → List Char → Bool
  | [], text => text.isEmpty
  | '%' :: pattern, text => text.tails.any (like pattern)
  | '_' :: _, [] => false
  | '_' :: pattern, _ :: text => like pattern text
  | '\\' :: escaped :: pattern, letter :: text => escaped == letter && like pattern text
  | _ :: _, [] => false
  | expected :: pattern, letter :: text => expected == letter && like pattern text

end SqlLogic
