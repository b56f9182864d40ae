import Mathlib.Algebra.BigOperators.Group.List.Basic
import Mathlib.Data.List.Nodup
import Mathlib.Data.Set.Insert

/-!
# Tables with a primary key

A table maps each key to at most one row and lists the keys which have one, so
that a statement over all rows can return them.  The statements are an upsert
of one key, an update of one key, and the selection and the update of the rows
which satisfy a condition.
-/

namespace KeyedTable

open List

universe u v

structure Table (Key : Type u) (Row : Type v) where
  row? : Key → Option Row
  keys : List Key
  mem_keys : ∀ key, key ∈ keys ↔ (row? key).isSome
  nodup_keys : keys.Nodup

variable {Key : Type u} {Row : Type v}

namespace Table

def empty : Table Key Row where
  row? := fun _ => none
  keys := []
  mem_keys := by simp
  nodup_keys := List.nodup_nil

@[simp] theorem row?_empty (key : Key) : (empty : Table Key Row).row? key = none := rfl

/-- `UPDATE … SET … WHERE condition`. -/
def updateWhere (table : Table Key Row) (condition : Row → Bool)
    (set : Row → Row) : Table Key Row where
  row? := fun key => (table.row? key).map fun row => if condition row then set row else row
  keys := table.keys
  mem_keys := by simp [table.mem_keys]
  nodup_keys := table.nodup_keys

/-- `SELECT … WHERE condition`. -/
def select (table : Table Key Row) (condition : Row → Bool) : List (Key × Row) :=
  table.keys.filterMap fun key => ((table.row? key).filter condition).map (key, ·)

@[simp] theorem row?_updateWhere (table : Table Key Row)
    (condition : Row → Bool) (set : Row → Row) (key : Key) :
    (table.updateWhere condition set).row? key =
      (table.row? key).map fun row =>
        if condition row then set row else row := rfl

section

/-- `UPDATE … SET … WHERE condition`, the key being a column. -/
def updateMatching (table : Table Key Row)
    (condition : Key → Row → Bool) (set : Row → Row) : Table Key Row where
  row? := fun key => (table.row? key).map fun row => if condition key row then set row else row
  keys := table.keys
  mem_keys := by simp [table.mem_keys]
  nodup_keys := table.nodup_keys

/-- `SELECT … WHERE condition LIMIT 1`, the key being a column. -/
def selectFirst (table : Table Key Row) (condition : Key → Row → Bool) : Option (Key × Row) :=
  table.keys.findSome? fun key => ((table.row? key).filter (condition key)).map (key, ·)

/-- `SELECT … WHERE condition`, the key being a column. -/
def selectMatching (table : Table Key Row)
    (condition : Key → Row → Bool) : List (Key × Row) :=
  table.keys.filterMap fun key => ((table.row? key).filter (condition key)).map (key, ·)

variable {table : Table Key Row} {condition : Key → Row → Bool} {key : Key}
  {row : Row}

theorem mem_selectMatching :
    (key, row) ∈ table.selectMatching condition ↔
      table.row? key = some row ∧ condition key row = true := by
  unfold selectMatching
  rw [mem_filterMap]
  constructor
  · rintro ⟨other, _, hselected⟩
    obtain ⟨found, hfound, hpair⟩ := Option.map_eq_some_iff.mp hselected
    obtain ⟨rfl, rfl⟩ := Prod.mk.inj hpair
    exact Option.filter_eq_some_iff.mp hfound
  · intro hrow
    have hkey : key ∈ table.keys := by
      rw [table.mem_keys, hrow.1]
      rfl
    have hfound := Option.filter_eq_some_iff.mpr hrow
    exact ⟨key, hkey, by rw [hfound, Option.map_some]⟩

theorem selectMatching_eq_nil :
    table.selectMatching condition = [] ↔
      ∀ key row, table.row? key = some row → condition key row = false := by
  rw [eq_nil_iff_forall_not_mem]
  constructor
  · intro hnone key row hrow
    have hmiss := hnone (key, row)
    rw [mem_selectMatching] at hmiss
    simpa [hrow] using hmiss
  · intro hfalse pair hmem
    have hrow := mem_selectMatching.mp hmem
    rw [hfalse pair.1 pair.2 hrow.1] at hrow
    exact absurd hrow.2 (by simp)

theorem nodup_selectMatching_keys (table : Table Key Row) (condition : Key → Row → Bool) :
    ((table.selectMatching condition).map Prod.fst).Nodup := by
  have hkeys : (table.selectMatching condition).map Prod.fst =
      table.keys.filter fun key => (table.row? key).any (condition key) := by
    unfold selectMatching
    induction table.keys with
    | nil => rfl
    | cons key rest ih =>
      cases hrow : table.row? key with
      | none => simpa [hrow] using ih
      | some row =>
        by_cases hcondition : condition key row = true
        · simpa [hrow, hcondition, Option.filter] using ih
        · simpa [hrow, hcondition, Option.filter] using ih
  rw [hkeys]
  exact table.nodup_keys.filter _

theorem mem_select {condition : Row → Bool} :
    (key, row) ∈ table.select condition ↔ table.row? key = some row ∧ condition row = true :=
  mem_selectMatching

theorem nodup_select_keys (table : Table Key Row) (condition : Row → Bool) :
    ((table.select condition).map Prod.fst).Nodup :=
  nodup_selectMatching_keys table fun _ => condition

@[simp] theorem row?_updateMatching (table : Table Key Row)
    (condition : Key → Row → Bool) (set : Row → Row) (key : Key) :
    (table.updateMatching condition set).row? key =
      (table.row? key).map fun row =>
        if condition key row then set row else row := rfl

/-- `DELETE … WHERE condition`. -/
def deleteMatching (table : Table Key Row)
    (condition : Key → Row → Bool) : Table Key Row where
  row? := fun key => (table.row? key).filter fun row => !condition key row
  keys := table.keys.filter fun key => (table.row? key).all fun row => !condition key row
  mem_keys := by
    intro key
    rw [List.mem_filter, table.mem_keys]
    cases table.row? key <;> simp [Option.filter]
  nodup_keys := table.nodup_keys.filter _

theorem row?_deleteMatching_eq_some :
    (table.deleteMatching condition).row? key = some row ↔
      table.row? key = some row ∧ condition key row = false := by
  simp [deleteMatching, Option.filter_eq_some_iff]

theorem selectFirst_eq_some (hselect : table.selectFirst condition = some (key, row)) :
    table.row? key = some row ∧ condition key row = true := by
  have hexists := exists_of_findSome?_eq_some hselect
  obtain ⟨other, _, hfound⟩ := hexists
  obtain ⟨found, hfilter, hpair⟩ := Option.map_eq_some_iff.mp hfound
  obtain ⟨rfl, rfl⟩ := Prod.mk.inj hpair
  exact Option.filter_eq_some_iff.mp hfilter

theorem selectFirst_eq_none :
    table.selectFirst condition = none ↔
      ∀ key row, table.row? key = some row → condition key row = false := by
  unfold selectFirst
  rw [findSome?_eq_none_iff]
  constructor
  · intro hnone key row hrow
    have hkey : key ∈ table.keys := by
      rw [table.mem_keys, hrow]
      rfl
    have hmiss := hnone key hkey
    rw [hrow] at hmiss
    by_contra hcondition
    simp [Option.filter, hcondition] at hmiss
  · intro hfalse key _
    cases hrow : table.row? key with
    | none => rfl
    | some row => simp [Option.filter, hfalse key row hrow]

end

section

variable {View : Type*} {view : Row → View}

/-- What the rows of a table show of themselves. -/
def shows (table : Table Key Row) (view : Row → View) : Set View :=
  {seen | ∃ key, (table.row? key).map view = some seen}

theorem shows_updateMatching (table : Table Key Row) (condition : Key → Row → Bool)
    {set : Row → Row} (hset : ∀ row, view (set row) = view row) :
    (table.updateMatching condition set).shows view = table.shows view := by
  have hview : ∀ key row, view (if condition key row then set row else row) = view row := by
    intro key row
    rw [apply_ite view, hset, ite_self]
  simp only [shows, row?_updateMatching, Option.map_map, Function.comp_def, hview]

variable [DecidableEq Key]

/-- `UPDATE … SET … WHERE key = $1`. -/
def update (table : Table Key Row) (key : Key) (set : Row → Row) : Table Key Row where
  row? := Function.update table.row? key ((table.row? key).map set)
  keys := table.keys
  mem_keys := by
    intro other
    by_cases hother : other = key
    · subst other
      simp [table.mem_keys]
    · simp [Function.update_of_ne hother, table.mem_keys]
  nodup_keys := table.nodup_keys

def put (table : Table Key Row) (key : Key) (row : Row) : Table Key Row where
  row? := Function.update table.row? key (some row)
  keys := if key ∈ table.keys then table.keys else table.keys ++ [key]
  mem_keys := by
    intro other
    by_cases hother : other = key
    · subst other
      by_cases hkey : key ∈ table.keys <;> simp [hkey]
    · rw [Function.update_of_ne hother, ← table.mem_keys]
      by_cases hkey : key ∈ table.keys <;> simp [hkey, hother]
  nodup_keys := by
    by_cases hkey : key ∈ table.keys
    · rw [if_pos hkey]
      exact table.nodup_keys
    · rw [if_neg hkey]
      apply List.Nodup.append table.nodup_keys (List.nodup_singleton key)
      simpa using hkey

@[simp] theorem row?_update_self (table : Table Key Row) (key : Key) (set : Row → Row) :
    (table.update key set).row? key = (table.row? key).map set := by
  simp [update]

variable {key other : Key}

theorem row?_update_of_ne (table : Table Key Row) (hother : other ≠ key)
    (set : Row → Row) : (table.update key set).row? other = table.row? other := by
  simp [update, Function.update_of_ne hother]

@[simp] theorem row?_put_self (table : Table Key Row) (key : Key)
    (row : Row) : (table.put key row).row? key = some row := by
  simp [put]

theorem row?_put_of_ne (table : Table Key Row) (hother : other ≠ key)
    (row : Row) : (table.put key row).row? other = table.row? other := by
  simp [put, Function.update_of_ne hother]

theorem row?_put_eq_some {table : Table Key Row} {row found : Row} :
    (table.put key row).row? other = some found ↔
      other = key ∧ found = row ∨ other ≠ key ∧ table.row? other = some found := by
  by_cases hother : other = key
  · subst other
    simp [eq_comm]
  · simp [row?_put_of_ne _ hother, hother]

theorem shows_update (table : Table Key Row) (key : Key) {set : Row → Row}
    (hset : ∀ row, view (set row) = view row) :
    (table.update key set).shows view = table.shows view := by
  have hrows : ∀ other, ((table.update key set).row? other).map view =
      (table.row? other).map view := by
    intro other
    by_cases hother : other = key
    · rw [hother, row?_update_self, Option.map_map, show view ∘ set = view from funext hset]
    · rw [row?_update_of_ne _ hother]
  simp only [shows, hrows]

theorem shows_put {table : Table Key Row} {key : Key} (hfree : table.row? key = none)
    (row : Row) : (table.put key row).shows view = insert (view row) (table.shows view) := by
  ext seen
  constructor
  · rintro ⟨other, hother⟩
    by_cases hkey : other = key
    · subst hkey
      exact .inl (by simpa using hother.symm)
    · rw [row?_put_of_ne _ hkey] at hother
      exact .inr ⟨other, hother⟩
  · rintro (rfl | ⟨other, hother⟩)
    · exact ⟨key, by rw [row?_put_self, Option.map_some]⟩
    · refine ⟨other, ?_⟩
      rw [row?_put_of_ne, hother]
      rintro rfl
      simp [hfree] at hother

section

variable {Weight : Type*} [AddCommMonoid Weight]

def weightAt (table : Table Key Row) (weight : Key → Row → Weight) (key : Key) : Weight :=
  ((table.row? key).map (weight key)).getD 0

/-- `SELECT COALESCE(SUM(weight), 0)`. -/
def sumOf (table : Table Key Row) (weight : Key → Row → Weight) :
    Weight :=
  (table.keys.map (table.weightAt weight)).sum

theorem sum_map_exchange {keys : List Key} {key : Key} (hnodup : keys.Nodup) (hkey : key ∈ keys)
    {before after : Key → Weight} (hsame : ∀ other, other ≠ key → after other = before other) :
    (keys.map after).sum + before key = (keys.map before).sum + after key := by
  induction keys with
  | nil => simp at hkey
  | cons head tail ih =>
    obtain ⟨hhead, htail⟩ := nodup_cons.mp hnodup
    simp only [map_cons, sum_cons]
    by_cases heq : head = key
    · subst heq
      have hrest : tail.map after = tail.map before :=
        map_congr_left fun other hother => hsame other fun h => hhead (h ▸ hother)
      rw [hrest, add_comm (after head), add_comm (before head), add_right_comm]
    · have hmem : key ∈ tail := (mem_cons.mp hkey).resolve_left (Ne.symm heq)
      rw [hsame head heq, add_assoc, ih htail hmem, add_assoc]

theorem sumOf_exchange (table : Table Key Row) {weight other : Key → Row → Weight} (key : Key)
    (hsame : ∀ k, k ≠ key → ∀ row, other k row = weight k row) :
    table.sumOf other + table.weightAt weight key =
      table.sumOf weight + table.weightAt other key := by
  have hrest : ∀ k, k ≠ key → table.weightAt other k = table.weightAt weight k := by
    intro k hk
    unfold weightAt
    congr 2
    exact funext (hsame k hk)
  unfold sumOf
  by_cases hkey : key ∈ table.keys
  · exact sum_map_exchange table.nodup_keys hkey hrest
  · have heq : table.keys.map (table.weightAt other) = table.keys.map (table.weightAt weight) :=
      map_congr_left fun k hk => hrest k fun h => hkey (h ▸ hk)
    rw [table.mem_keys, Option.isSome_iff_ne_none, not_not] at hkey
    rw [heq]
    simp [weightAt, hkey]

theorem sumOf_put (table : Table Key Row)
    (weight : Key → Row → Weight) (key : Key) (row : Row) :
    (table.put key row).sumOf weight + table.weightAt weight key =
      table.sumOf weight + weight key row := by
  have hself : (table.put key row).weightAt weight key = weight key row := by simp [weightAt]
  have hsame : ∀ other, other ≠ key →
      (table.put key row).weightAt weight other = table.weightAt weight other := by
    intro other hother
    simp [weightAt, row?_put_of_ne _ hother]
  unfold sumOf
  by_cases hkey : key ∈ table.keys
  · have hkeys : (table.put key row).keys = table.keys := if_pos hkey
    rw [hkeys, sum_map_exchange table.nodup_keys hkey hsame, hself]
  · have hkeys : (table.put key row).keys = table.keys ++ [key] :=
      if_neg hkey
    have hrest : table.keys.map ((table.put key row).weightAt weight) =
        table.keys.map (table.weightAt weight) :=
      map_congr_left fun other hother => hsame other fun h => hkey (h ▸ hother)
    have hzero : table.weightAt weight key = 0 := by
      rw [table.mem_keys, Option.isSome_iff_ne_none, not_not] at hkey
      simp [weightAt, hkey]
    rw [hkeys, map_append, hrest, sum_append, hzero]
    simp [hself]

end

end

end Table

section

variable {Item : Type*} [DecidableEq Key]

def appendNew (key : Item → Key) (merged : List Item) (item : Item) : List Item :=
  if key item ∈ merged.map key then merged else merged ++ [item]

def mergeNew (key : Item → Key) (merged items : List Item) : List Item :=
  items.foldl (appendNew key) merged

variable {key : Item → Key} {merged : List Item}

theorem mem_keys_appendNew {item : Item} {k : Key} :
    k ∈ (appendNew key merged item).map key ↔ k ∈ merged.map key ∨ k = key item := by
  unfold appendNew
  by_cases hseen : key item ∈ merged.map key
  · rw [if_pos hseen]
    constructor
    · exact Or.inl
    · rintro (hold | rfl)
      · exact hold
      · exact hseen
  · rw [if_neg hseen, map_append, mem_append, map_singleton, mem_singleton]

theorem mem_keys_mergeNew {items : List Item} {k : Key} :
    k ∈ (mergeNew key merged items).map key ↔ k ∈ merged.map key ∨ k ∈ items.map key := by
  induction items generalizing merged with
  | nil => simp [mergeNew]
  | cons item rest ih =>
    have hrest : mergeNew key merged (item :: rest) =
        mergeNew key (appendNew key merged item) rest := rfl
    rw [hrest, ih, mem_keys_appendNew, map_cons, mem_cons, or_assoc]

theorem nodup_keys_mergeNew (hmerged : (merged.map key).Nodup) (items : List Item) :
    ((mergeNew key merged items).map key).Nodup := by
  induction items generalizing merged with
  | nil => exact hmerged
  | cons item rest ih =>
    apply ih
    unfold appendNew
    by_cases hseen : key item ∈ merged.map key
    · rwa [if_pos hseen]
    · rw [if_neg hseen, map_append, map_singleton]
      apply Nodup.append hmerged (nodup_singleton _)
      rwa [disjoint_singleton]

end

end KeyedTable
