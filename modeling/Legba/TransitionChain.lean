import Mathlib.Data.List.Basic

/-!
# Chains of transitions

A transition has a source value and a target value.  A list of transitions is
linked from a value when each one starts at the target of the one before, and
changes the value.
-/

namespace TransitionChain

variable {Item Value : Type*} (source target : Item → Value)

def Linked : Option Value → List Item → Prop
  | _, [] => True
  | value, item :: rest =>
    value = some (source item) ∧ source item ≠ target item ∧ Linked (some (target item)) rest

def lastValue (value : Option Value) (items : List Item) : Option Value :=
  items.foldl (fun _ item => some (target item)) value

variable {source target}

@[simp] theorem linked_nil (value : Option Value) : Linked source target value [] := trivial

@[simp] theorem lastValue_nil (value : Option Value) : lastValue target value [] = value := rfl

@[simp] theorem lastValue_append_singleton (value : Option Value) (items : List Item)
    (item : Item) : lastValue target value (items ++ [item]) = some (target item) := by
  simp [lastValue]

variable {value : Option Value}

theorem linked_append {before after : List Item} :
    Linked source target value (before ++ after) ↔
      Linked source target value before ∧
        Linked source target (lastValue target value before) after := by
  induction before generalizing value with
  | nil => simp
  | cons item before ih =>
    rw [List.cons_append]
    simp only [Linked, ih, and_assoc]
    rfl

theorem linked_append_singleton {items : List Item} {item : Item} :
    Linked source target value (items ++ [item]) ↔
      Linked source target value items ∧
        lastValue target value items = some (source item) ∧ source item ≠ target item := by
  simp [linked_append, Linked]

theorem eq_nil_of_lastValue_eq_none {items : List Item}
    (hnone : lastValue target value items = none) : items = [] ∧ value = none := by
  rcases List.eq_nil_or_concat items with rfl | ⟨front, item, rfl⟩
  · exact ⟨rfl, hnone⟩
  · rw [List.concat_eq_append, lastValue_append_singleton] at hnone
    simp at hnone

theorem Linked.returns {before middle after : List Item} {item again : Item}
    (hlinked : Linked source target value (before ++ item :: (middle ++ again :: after)))
    (hsame : source again = source item) : ∃ back ∈ middle, target back = source item := by
  obtain ⟨_, _, hchange, hmiddle⟩ := linked_append.mp hlinked
  have hagain := (linked_append.mp hmiddle).2.1
  rcases List.eq_nil_or_concat middle with rfl | ⟨front, back, rfl⟩
  · rw [lastValue_nil, Option.some.injEq, hsame] at hagain
    exact absurd hagain.symm hchange
  · rw [List.concat_eq_append, lastValue_append_singleton, Option.some.injEq, hsame] at hagain
    exact ⟨back, by simp, hagain⟩

end TransitionChain
