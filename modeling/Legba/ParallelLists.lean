import Mathlib.Data.List.Nodup
import Mathlib.Data.List.Perm.Basic
import Mathlib.Data.List.Range

/-!
# Parallel lists and slots

Lists are parallel when the entries at one position belong together.  Parallel
lists may be reordered together, and what is computed entry by entry follows.
Values placed in numbered slots, one in each, end there in whatever order they
are placed.
-/

namespace ParallelLists

open List

universe u v

variable {α : Type u} {β : Type v}

def reorder (order : List ℕ) (items : List α) : List α :=
  order.filterMap fun position => items[position]?

theorem filterMap_getElem?_range (items : List α) :
    (range items.length).filterMap (fun position => items[position]?) =
      items := by
  induction items with
  | nil => rfl
  | cons head tail ih =>
    rw [length_cons, range_succ_eq_map, filterMap_cons, getElem?_cons_zero, filterMap_map]
    simp only [Function.comp_def, getElem?_cons_succ]
    rw [ih]

variable {order : List ℕ} {items : List α} {f : α → Option β} {slots : ℕ}
  {values : List (ℕ × α)}

theorem reorder_perm (horder : order.Perm (range items.length)) :
    (reorder order items).Perm items := by
  have hperm := horder.filterMap fun position => items[position]?
  rw [filterMap_getElem?_range] at hperm
  exact hperm

theorem length_reorder (horder : order.Perm (range items.length)) :
    (reorder order items).length = items.length :=
  (reorder_perm horder).length_eq

theorem reorder_map (order : List ℕ) (f : α → β) (items : List α) :
    reorder order (items.map f) = (reorder order items).map f := by
  unfold reorder
  rw [map_filterMap]
  simp only [getElem?_map]

theorem reorder_zip (order : List ℕ) {others : List β} (hlength : items.length = others.length) :
    reorder order (items.zip others) = (reorder order items).zip (reorder order others) := by
  induction order with
  | nil => rfl
  | cons position rest ih =>
    unfold reorder at ih ⊢
    rw [filterMap_cons, filterMap_cons, filterMap_cons]
    by_cases hin : position < items.length
    · have hother : position < others.length := hlength ▸ hin
      have hzip : position < (items.zip others).length := by
        rw [length_zip]
        omega
      simp only [getElem?_eq_getElem hin, getElem?_eq_getElem hother,
        getElem?_eq_getElem hzip, getElem_zip, zip_cons_cons]
      rw [ih]
    · have hother : others.length ≤ position := by omega
      have hzip : (items.zip others).length ≤ position := by
        rw [length_zip]
        omega
      simp only [getElem?_eq_none (not_lt.mp hin), getElem?_eq_none hother, getElem?_eq_none hzip]
      exact ih

theorem mapM_eq_some_iff {values : List β} :
    items.mapM f = some values ↔ items.map f = values.map some := by
  induction items generalizing values with
  | nil => cases values <;> simp
  | cons head tail ih =>
    rw [mapM_cons]
    cases hhead : f head with
    | none => cases values <;> simp [hhead]
    | some value =>
      cases htail : tail.mapM f with
      | none =>
        have hnot : ∀ values : List β, tail.map f ≠ values.map some := by
          intro values hvalues
          rw [ih.mpr hvalues] at htail
          cases htail
        cases values with
        | nil => simp
        | cons first rest =>
          simp only [map_cons, hhead, cons.injEq]
          simp [hnot rest]
      | some rest =>
        have hrest := ih.mp htail
        cases values with
        | nil => simp
        | cons first others =>
          simp only [map_cons, hhead, hrest, cons.injEq, Option.some.injEq]
          simp [map_inj_right]

theorem mapM_eq_none_iff : items.mapM f = none ↔ ∃ item ∈ items, f item = none := by
  induction items with
  | nil => simp
  | cons head tail ih =>
    rw [mapM_cons, exists_mem_cons_iff, ← ih]
    cases hhead : f head with
    | none => simp
    | some value =>
      cases htail : tail.mapM f with
      | none => simp
      | some rest => simp

theorem mapM_reorder (horder : order.Perm (range items.length)) :
    (reorder order items).mapM f = (items.mapM f).map (reorder order) := by
  cases hall : items.mapM f with
  | some values =>
    rw [Option.map_some, mapM_eq_some_iff, ← reorder_map, mapM_eq_some_iff.mp hall, reorder_map]
  | none =>
    rw [Option.map_none, mapM_eq_none_iff]
    obtain ⟨item, hitem, hnone⟩ := mapM_eq_none_iff.mp hall
    exact ⟨item, (reorder_perm horder).mem_iff.mpr hitem, hnone⟩

def place (slots : ℕ) (values : List (ℕ × α)) : List (Option α) :=
  values.foldl (fun placed value => placed.set value.1 (some value.2)) (replicate slots none)

theorem place_append_singleton (slots : ℕ) (values : List (ℕ × α)) (value : ℕ × α) :
    place slots (values ++ [value]) = (place slots values).set value.1 (some value.2) := by
  unfold place
  rw [foldl_append]
  rfl

@[simp] theorem length_place (slots : ℕ) (values : List (ℕ × α)) :
    (place slots values).length = slots := by
  induction values using reverseRecOn with
  | nil => exact length_replicate
  | append_singleton values value ih => rw [place_append_singleton, length_set, ih]

theorem place_of_notMem {slot : ℕ} (hslot : slot < slots) (hnot : slot ∉ values.map Prod.fst) :
    (place slots values)[slot]? = some none := by
  induction values using reverseRecOn with
  | nil => simp [place, hslot]
  | append_singleton values value ih =>
    rw [map_append, mem_append, not_or] at hnot
    have hne : value.1 ≠ slot := by
      rintro rfl
      exact hnot.2 (by simp)
    rw [place_append_singleton, getElem?_set_ne hne]
    exact ih hnot.1

theorem place_of_mem (hnodup : (values.map Prod.fst).Nodup) {slot : ℕ}
    {value : α} (hslot : slot < slots) (hmem : (slot, value) ∈ values) :
    (place slots values)[slot]? = some (some value) := by
  induction values using reverseRecOn with
  | nil => cases hmem
  | append_singleton values last ih =>
    rw [map_append, nodup_append] at hnodup
    rw [place_append_singleton]
    rcases mem_append.mp hmem with hbefore | hlast
    · have hne : last.1 ≠ slot := by
        intro heq
        exact hnodup.2.2 slot (mem_map_of_mem hbefore) last.1 (by simp) heq.symm
      rw [getElem?_set_ne hne]
      exact ih hnodup.1 hbefore
    · rw [mem_singleton] at hlast
      subst hlast
      exact getElem?_set_self (by rw [length_place]; exact hslot)

theorem place_zip_getElem? {names : List ℕ} {values : List α} (hnodup : names.Nodup)
    (hlength : names.length = values.length) {position name : ℕ} {value : α} (hlt : name < slots)
    (hname : names[position]? = some name) (hvalue : values[position]? = some value) :
    (place slots (names.zip values))[name]? = some (some value) := by
  have hfst : (names.zip values).map Prod.fst = names := map_fst_zip (by omega)
  have hmem : (name, value) ∈ names.zip values :=
    mem_of_getElem? (getElem?_zip_eq_some.mpr ⟨hname, hvalue⟩)
  exact place_of_mem (by rw [hfst]; exact hnodup) hlt hmem

theorem place_range (values : List α) :
    place values.length ((range values.length).zip values) = values.map some := by
  apply ext_getElem?
  intro position
  by_cases hlt : position < values.length
  · have hvalue : values[position]? = some values[position] := getElem?_eq_getElem hlt
    have hrange : (range values.length)[position]? = some position := getElem?_range hlt
    rw [place_zip_getElem? nodup_range length_range hlt hrange hvalue, getElem?_map, hvalue]
    rfl
  · have hle : values.length ≤ position := not_lt.mp hlt
    rw [getElem?_eq_none (by rw [length_place]; exact hle),
      getElem?_eq_none (by rw [length_map]; exact hle)]

theorem place_perm {others : List (ℕ × α)} (hperm : values.Perm others)
    (hnodup : (values.map Prod.fst).Nodup) : place slots values = place slots others := by
  unfold place
  apply Perm.foldl_eq' hperm
  intro first hfirst second hsecond placed
  by_cases heq : first.1 = second.1
  · have hsame : first = second := inj_on_of_nodup_map hnodup hfirst hsecond heq
    rw [hsame]
  · exact set_comm _ _ heq

end ParallelLists
