import Mathlib

/-!
# Collapsing wire pairs

Mastheads which carry one dispatch give a slice several rows of one story: the
same normalized headline on the same day.  `collapse_wire_pairs` leaves the
first of them, marked with what it stands for, and only where two mastheads ran
the story.  What a row's story and masthead are is read off its columns by the
functions of `RowReader`.
-/

namespace Legba.WirePairs

open List

structure CollapseMarker where
  copies : ℕ
  mastheads : List String
  absorbedIds : List String
deriving DecidableEq

structure Row where
  id : Option String
  title : String
  publishedAt : Option String
  producedAt : Option String
  sourceUrl : String
  sourceId : String
  wirePairCollapse : Option CollapseMarker := none
deriving DecidableEq

/-- `_normalize_headline`, `str.split`, the day of a time stamp, and the host of
a URL. -/
structure RowReader where
  normalizeHeadline : String → String
  split : String → List String
  day : String → Option String
  hostname : String → Option String

def minKeyTokens : ℕ := 5

variable (R : RowReader)

def rowDay (row : Row) : Option String :=
  ([row.publishedAt, row.producedAt].filterMap id).findSome? R.day

def wireStoryKey (row : Row) : Option (String × String) :=
  let headline := R.normalizeHeadline row.title
  if headline = "" ∨ (R.split headline).length < minKeyTokens then none
  else (rowDay R row).map fun day => (headline, day)

def masthead (row : Row) : String :=
  match (R.hostname row.sourceUrl).filter (· ≠ "") with
  | some host =>
    if host.startsWith "www." then (host.drop 4).toString else host
  | none => if row.sourceId = "" then "unattributed" else row.sourceId

def members (rows : List Row) (key : String × String) : List Row :=
  rows.filter fun row => wireStoryKey R row = some key

/-- In first-seen order. -/
def mastheads (rows : List Row) (key : String × String) : List String :=
  ((members R rows key).map (masthead R)).eraseDups

/-- The story has a group in `groups`. -/
def Collapses (rows : List Row) (key : String × String) : Prop :=
  2 ≤ (members R rows key).length ∧ 2 ≤ (mastheads R rows key).length

instance (rows : List Row) (key : String × String) : Decidable (Collapses R rows key) :=
  inferInstanceAs (Decidable (_ ∧ _))

def survivor (rows : List Row) (key : String × String) (row : Row) : Row :=
  let marker :=
    ⟨(members R rows key).length, mastheads R rows key,
      (members R rows key).tail.filterMap Row.id⟩
  { row with wirePairCollapse := some marker }

local instance lawfulKey : LawfulBEq (String × String) := inferInstance

/-- The rows which are not absorbed, and the number of those which are.  A row
is absorbed when its story was met before. -/
def walk (rows : List Row) : List (String × String) → List Row → List Row × ℕ
  | _, [] => ([], 0)
  | seen, row :: rest =>
    match wireStoryKey R row with
    | none => (walk rows seen rest).map (row :: ·) id
    | some key =>
      if Collapses R rows key then
        if key ∈ seen then (walk rows seen rest).map id (· + 1)
        else (walk rows (key :: seen) rest).map (survivor R rows key row :: ·) id
      else (walk rows seen rest).map (row :: ·) id

def collapseWirePairs (rows : List Row) : List Row × ℕ :=
  let out := walk R rows [] rows
  if out.2 = 0 then (rows, 0) else out

variable {R} {rows rest before : List Row} {seen : List (String × String)}
  {key other : String × String} {row : Row}

@[simp] theorem wireStoryKey_survivor :
    wireStoryKey R (survivor R rows other row) = wireStoryKey R row := rfl

@[simp] theorem masthead_survivor : masthead R (survivor R rows other row) = masthead R row := rfl

theorem walk_length (rows : List Row) (seen : List (String × String)) (rest : List Row) :
    (walk R rows seen rest).1.length + (walk R rows seen rest).2 = rest.length := by
  fun_induction walk R rows seen rest
  · rfl
  all_goals
    simp only [Prod.map, length_cons, id]
    omega

def Row.unmarked (row : Row) : Row :=
  { row with wirePairCollapse := none }

theorem walk_sublist (rows : List Row) (seen : List (String × String)) (rest : List Row) :
    ((walk R rows seen rest).1.map Row.unmarked).Sublist
      (rest.map Row.unmarked) := by
  fun_induction walk R rows seen rest with
  | case1 => exact .slnil
  | case2 seen row rest hkey ih => exact ih.cons_cons _
  | case3 seen row rest key hkey hcollapses hseen ih => exact ih.cons _
  | case4 seen row rest key hkey hcollapses hseen ih => exact ih.cons_cons _
  | case5 seen row rest key hkey hcollapses ih => exact ih.cons_cons _

/-- Of a story with a group the first row is left, unless one was left before;
the rows of any other story are left as they are. -/
theorem members_walk (rows : List Row) (seen : List (String × String))
    (rest : List Row) (key : String × String) :
    members R (walk R rows seen rest).1 key =
      if Collapses R rows key then
        if key ∈ seen then []
        else (members R rest key).head?.toList.map (survivor R rows key)
      else members R rest key := by
  fun_induction walk R rows seen rest with
  | case1 => simp [members]
  | case2 seen row rest hkey ih => simpa [members, filter_cons, hkey] using ih
  | case3 seen row rest found hkey hcollapses hseen ih =>
    by_cases hsame : found = key
    · subst hsame
      simpa [hcollapses, hseen] using ih
    · simpa [members, filter_cons, hkey, hsame] using ih
  | case4 seen row rest found hkey hcollapses hseen ih =>
    by_cases hsame : found = key
    · subst hsame
      simpa [members, filter_cons, hkey, hcollapses, hseen] using ih
    · simpa [members, filter_cons, hkey, hsame, Ne.symm hsame] using ih
  | case5 seen row rest found hkey hcollapses ih =>
    by_cases hsame : found = key
    · subst hsame
      simpa [members, filter_cons, hkey, hcollapses] using ih
    · simpa [members, filter_cons, hkey, hsame] using ih

theorem not_collapses_walk (rows : List Row) (key : String × String) :
    ¬Collapses R (walk R rows [] rows).1 key := by
  unfold Collapses mastheads
  rw [members_walk]
  split
  · rename_i hcollapses
    rintro ⟨hlong, -⟩
    cases hmembers : members R rows key <;> simp [hmembers] at hlong
  · assumption

theorem walk_of_not_collapses (hnone : ∀ key, ¬Collapses R rows key) (seen : List (String × String))
    (rest : List Row) : walk R rows seen rest = (rest, 0) := by
  induction rest generalizing seen with
  | nil => rfl
  | cons row rest ih =>
    rw [walk]
    split
    · rw [ih seen]
      rfl
    · rw [if_neg (hnone _), ih seen]
      rfl

theorem length_members (rows : List Row) (key : String × String) :
    (members R rows key).length = (rows.map Row.unmarked).countP
      fun row => wireStoryKey R row = some key := by
  rw [countP_map, members, ← countP_eq_length_filter]
  rfl

theorem collapseWirePairs_eq (rows : List Row) :
    collapseWirePairs R rows = walk R rows [] rows := by
  unfold collapseWirePairs
  by_cases hzero : (walk R rows [] rows).2 = 0
  · have hlength := walk_length (R := R) rows [] rows
    have hsame := (walk_sublist (R := R) rows [] rows).eq_of_length
      (by simp only [length_map]; omega)
    have hnone : ∀ key, ¬Collapses R rows key := by
      intro key hcollapses
      have hleft := congrArg length (members_walk (R := R) rows [] rows key)
      rw [length_members, hsame, ← length_members, if_pos hcollapses,
        if_neg not_mem_nil, length_map] at hleft
      have hone : (members R rows key).head?.toList.length ≤ 1 := by
        cases (members R rows key).head? <;> simp
      exact absurd hcollapses.1 (by omega)
    simp [walk_of_not_collapses hnone]
  · simp [hzero]

theorem mem_walk_of_none (hkey : wireStoryKey R row = none)
    (hrow : row ∈ rest) : row ∈ (walk R rows seen rest).1 := by
  have hne : ∀ {next : Row} {key}, wireStoryKey R next = some key → row ≠ next := by
    rintro next key hnext rfl
    simp [hkey] at hnext
  fun_induction walk R rows seen rest with
  | case1 => exact hrow
  | case2 seen next rest _ ih => exact mem_cons.mpr ((mem_cons.mp hrow).imp_right ih)
  | case3 seen next rest key hnext _ _ ih => exact ih (mem_of_ne_of_mem (hne hnext) hrow)
  | case4 seen next rest key hnext _ _ ih =>
    exact mem_cons_of_mem _ (ih (mem_of_ne_of_mem (hne hnext) hrow))
  | case5 seen next rest key hnext _ ih =>
    exact mem_cons_of_mem _ (ih (mem_of_ne_of_mem (hne hnext) hrow))

/-- The row is left as it is, or a marked row of its story has its id or has
absorbed it. -/
def AccountedIn (R : RowReader) (out : List Row) (row : Row) : Prop :=
  row ∈ out ∨ ∃ kept ∈ out, wireStoryKey R kept = wireStoryKey R row ∧
    ∃ marker, kept.wirePairCollapse = some marker ∧
      (kept.id = row.id ∨ ∀ id, row.id = some id → id ∈ marker.absorbedIds)

theorem accountedIn_walk (hrow : row ∈ rows) : AccountedIn R (walk R rows [] rows).1 row := by
  cases hkey : wireStoryKey R row with
  | none => exact .inl (mem_walk_of_none hkey hrow)
  | some key =>
    have hmember : row ∈ members R rows key := by simp [members, hrow, hkey]
    have hwalk := members_walk (R := R) rows [] rows key
    by_cases hcollapses : Collapses R rows key
    · rw [if_pos hcollapses, if_neg not_mem_nil] at hwalk
      cases hgroup : members R rows key with
      | nil => simp [hgroup] at hmember
      | cons first others =>
        have hkept : survivor R rows key first ∈ members R (walk R rows [] rows).1 key := by
          simp [hwalk, hgroup]
        simp only [members, mem_filter, decide_eq_true_eq] at hkept
        refine .inr ⟨_, hkept.1, hkept.2.trans hkey.symm, _, rfl, ?_⟩
        rw [hgroup] at hmember
        rcases mem_cons.mp hmember with rfl | hother
        · exact .inl rfl
        · right
          intro id hid
          simp only [hgroup, tail_cons, mem_filterMap]
          exact ⟨row, hother, hid⟩
    · rw [if_neg hcollapses] at hwalk
      rw [← hwalk] at hmember
      exact .inl (mem_filter.mp hmember).1

/-- Rows are absorbed and never lost: those which are left stand in their order
and are as many as the count says, every row is left or accounted for by a
marked row of its story, and a slice which was collapsed has nothing more to
collapse. -/
theorem wire_pairs_absorbed (R : RowReader) (rows : List Row) :
    let out := (collapseWirePairs R rows).1
    out.length + (collapseWirePairs R rows).2 = rows.length ∧
      (out.map Row.unmarked).Sublist (rows.map Row.unmarked) ∧
      (∀ row ∈ rows, AccountedIn R out row) ∧
      (∀ row ∈ rows, (∀ key, wireStoryKey R row = some key → ¬Collapses R rows key) → row ∈ out) ∧
      collapseWirePairs R out = (out, 0) := by
  simp only [collapseWirePairs_eq]
  refine ⟨walk_length rows [] rows, walk_sublist rows [] rows, fun row hrow => accountedIn_walk
    hrow, fun row hrow halone => ?_, walk_of_not_collapses (not_collapses_walk rows) _ _⟩
  cases hkey : wireStoryKey R row with
  | none => exact mem_walk_of_none hkey hrow
  | some key =>
    have hmember : row ∈ members R rows key := by simp [members, hrow, hkey]
    rw [← (members_walk rows [] rows key).trans (if_neg (halone key hkey))] at hmember
    exact (mem_filter.mp hmember).1

end Legba.WirePairs
