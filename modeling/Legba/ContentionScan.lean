import Legba.ContentionGroup

/-!
# A pass over the contention groups

A pass scans the open facts twice.  The first scan groups them by subject and
predicate; the second one groups the rows on who leads a country by country and
office.  A role bucket replaces the bucket of its key.

The loop over the buckets stops when the budget of the pass is spent, which is
a number of recomputations here.  A pass which reaches the end with budget left
collapses the groups which it did not find live.
-/

namespace Legba.Contention

open List

/-! ## The facts -/

/-- A row of `facts`, with the office in its data. -/
structure Fact where
  row : FactRow
  role : Option String := none
  validUntil : Option Datetime := none
  supersededBy : Option Uuid := none
  live : Bool := true

def Fact.isOpen (fact : Fact) : Bool :=
  fact.validUntil.isNone && fact.supersededBy.isNone && fact.live

/-- How the scan reads a text: `lower(btrim(_))` of the database and its sort
key under the collation, `str.strip`, and the two halves of `_group_keys`. -/
structure Reading where
  lowerBtrim : String → String
  sortKey : String → String
  strip : String → String
  subjectKey : String → String
  predicateKey : String → String

def maxScanFacts : ℕ := 200000

def personSubjectRolePredicate : String := "leader of"

structure Bucket where
  key : GroupKey
  rows : List FactRow
  deriving DecidableEq

/-- `buckets.setdefault(key, []).append(row)` -/
def addToBucket (key : GroupKey) (row : FactRow) : List Bucket → List Bucket
  | [] => [{ key := key, rows := [row] }]
  | bucket :: rest =>
    if bucket.key = key then
      { bucket with rows := bucket.rows ++ [row] } :: rest
    else bucket :: addToBucket key row rest

/-- `{**buckets, **role_buckets}` -/
def mergeBuckets (buckets roleBuckets : List Bucket) : List Bucket :=
  (buckets.map fun bucket => (roleBuckets.find? fun role => role.key == bucket.key).getD bucket) ++
  roleBuckets.filter fun role => role.key ∉ buckets.map Bucket.key

namespace Reading

variable (R : Reading)

def groupKeys (row : FactRow) : GroupKey :=
  (R.subjectKey row.subject, R.predicateKey row.predicate)

def openTriples (facts : List Fact) : List FactRow :=
  let rows := ((facts.filter Fact.isOpen).take maxScanFacts).map Fact.row
  let rawKey := fun (row : FactRow) => (R.lowerBtrim row.subject, R.lowerBtrim row.predicate)
  let candidates := rows.filter fun row =>
    decide (2 ≤ rows.countP fun other => rawKey other == rawKey row)
  let order := fun (row : FactRow) =>
    toLex (R.sortKey (R.lowerBtrim row.subject),
      toLex (R.sortKey (R.lowerBtrim row.predicate), row.id.toNat))
  candidates.insertionSort fun a b => order a ≤ order b

def openFunctionalRoleTriples (facts : List Fact) : List FactRow :=
  let roleFacts := facts.filter fun fact => fact.isOpen &&
    R.lowerBtrim fact.row.predicate == personSubjectRolePredicate
  let rows := (roleFacts.take maxScanFacts).map fun fact =>
    { fact.row with roleKey := fact.role.getD "" }
  let office := fun (row : FactRow) => (R.lowerBtrim row.value, row.roleKey)
  let candidates := rows.filter fun row =>
    decide (2 ≤ ((rows.filter fun other => office other == office row).map
      fun other => R.lowerBtrim other.subject).dedup.length)
  let order := fun (row : FactRow) =>
    toLex (R.sortKey (R.lowerBtrim row.value),
      toLex (R.sortKey row.roleKey, toLex (R.sortKey (R.lowerBtrim row.subject), row.id.toNat)))
  candidates.insertionSort fun a b => order a ≤ order b

def rekeyRoleRow (row : FactRow) : FactRow :=
  let role := R.strip row.roleKey
  { row with
    subject := if role = "" then row.value else row.value ++ " [" ++ role ++ "]"
    value := row.subject }

def bucketRows (rows : List FactRow) : List Bucket :=
  rows.foldl (fun buckets row => addToBucket (R.groupKeys row) row buckets) []

def buckets (facts : List Fact) : List Bucket :=
  R.bucketRows (R.openTriples facts)

def roleBuckets (facts : List Fact) : List Bucket :=
  R.bucketRows ((R.openFunctionalRoleTriples facts).map R.rekeyRoleRow)

def pending (facts : List Fact) : List Bucket :=
  mergeBuckets (R.buckets facts) (R.roleBuckets facts)

end Reading

/-- Texts in lower case, without blanks at their ends or repeated, whose
predicates have no synonyms, under the order of their characters. -/
def plainReading : Reading where
  lowerBtrim := id
  sortKey := id
  strip := id
  subjectKey := id
  predicateKey := id

/-! ### The keys of the pending groups are distinct -/

theorem addToBucket_keys (key : GroupKey) (row : FactRow) (buckets : List Bucket) :
    (addToBucket key row buckets).map Bucket.key =
      if key ∈ buckets.map Bucket.key then buckets.map Bucket.key
      else buckets.map Bucket.key ++ [key] := by
  induction buckets with
  | nil => rfl
  | cons bucket rest ih =>
    simp only [addToBucket]
    by_cases hkey : bucket.key = key
    · simp [hkey]
    · rw [if_neg hkey, map_cons, ih, map_cons]
      simp only [mem_cons, Ne.symm hkey, false_or]
      split <;> simp

theorem addToBucket_keys_nodup (key : GroupKey) (row : FactRow)
    {buckets : List Bucket} (hnodup : (buckets.map Bucket.key).Nodup) :
    ((addToBucket key row buckets).map Bucket.key).Nodup := by
  rw [addToBucket_keys]
  split
  · exact hnodup
  · rename_i hfresh
    rw [nodup_append]
    refine ⟨hnodup, nodup_singleton key, ?_⟩
    intro other hother found hfound
    rw [mem_singleton] at hfound
    exact fun heq => hfresh (hfound ▸ heq ▸ hother)

theorem bucketRows_keys_nodup (R : Reading) (rows : List FactRow) :
    ((R.bucketRows rows).map Bucket.key).Nodup := by
  have hfold : ∀ (start : List Bucket), (start.map Bucket.key).Nodup →
      ((rows.foldl (fun buckets row =>
        addToBucket (R.groupKeys row) row buckets) start).map Bucket.key).Nodup := by
    induction rows with
    | nil => exact fun start hstart => hstart
    | cons row rows ih =>
      intro start hstart
      exact ih _ (addToBucket_keys_nodup _ row hstart)
  exact hfold [] nodup_nil

theorem mergeBuckets_keys (buckets roleBuckets : List Bucket) :
    (mergeBuckets buckets roleBuckets).map Bucket.key =
      buckets.map Bucket.key ++
        (roleBuckets.filter fun role =>
          role.key ∉ buckets.map Bucket.key).map Bucket.key := by
  unfold mergeBuckets
  rw [map_append, map_map]
  congr 1
  apply map_congr_left
  intro bucket _
  cases hfind : roleBuckets.find? fun role => role.key == bucket.key with
  | none => simp [hfind]
  | some role =>
    have hkey := find?_some hfind
    simpa [hfind] using hkey

theorem pending_keys_nodup (R : Reading) (facts : List Fact) :
    ((R.pending facts).map Bucket.key).Nodup := by
  unfold Reading.pending
  rw [mergeBuckets_keys, nodup_append]
  refine ⟨bucketRows_keys_nodup R _, ?_, ?_⟩
  · exact (bucketRows_keys_nodup R _).sublist (filter_sublist.map _)
  · intro key hkey other hother heq
    obtain ⟨role, hrole, rfl⟩ := mem_map.mp hother
    have hfresh := (mem_filter.mp hrole).2
    rw [decide_eq_true_eq] at hfresh
    exact hfresh (heq ▸ hkey)

abbrev Sidecar := GroupKey → Slot

structure Marker where
  contested : Bool := false
  contentionId : Option GroupKey := none
  surfacedWinner : Bool := false
  deriving DecidableEq

structure Store where
  slots : Sidecar := fun _ => {}
  markers : Uuid → Marker := fun _ => {}

def clearMarkers (key : GroupKey) (spared : List Uuid)
    (markers : Uuid → Marker) : Uuid → Marker := fun id =>
  if (markers id).contentionId = some key ∧ id ∉ spared then {} else markers id

def stampMarkers (key : GroupKey) (members winners : List Uuid)
    (markers : Uuid → Marker) : Uuid → Marker := fun id =>
  if id ∈ members then
    { contested := true, contentionId := some key
      surfacedWinner := decide (id ∈ winners) }
  else markers id

def memberIds (nonJunk : List ValueAgg) : List Uuid :=
  nonJunk.flatMap ValueAgg.supportingFactIds

namespace Arbiter

variable {K : Type*} [Field K] [LinearOrder K] (A : Arbiter K)

/-- The decision of `_process_group` on a slot. -/
def groupDecision (llm : Bool) (rows : List FactRow) (now : Datetime)
    (turn : LlmTurn) (slot : Slot) : SurfaceDecision :=
  (A.decideGroup llm (A.nonJunk rows) now
    (A.pastSoak (some (openGroup slot.group now).openedAt) now)
    slot.cache turn).1

/-- `_process_group` with the markers of `_finalize_group` and
`_collapse_group`. -/
def processBucket (llm : Bool) (now : Datetime) (turn : LlmTurn)
    (bucket : Bucket) (store : Store) : Store :=
  let slot := store.slots bucket.key
  let nonJunk := A.nonJunk bucket.rows
  { slots := Function.update store.slots bucket.key
      (A.processGroup llm bucket.rows now turn (A.passFingerprint bucket.rows now slot) slot)
    markers :=
      if nonJunk.length < 2 then
        if slot.group.isSome then clearMarkers bucket.key [] store.markers
        else store.markers
      else
        let winner := (A.groupDecision llm bucket.rows now turn slot).winner
        stampMarkers bucket.key (memberIds nonJunk)
          ((winner.map ValueAgg.supportingFactIds).getD [])
          (clearMarkers bucket.key (memberIds nonJunk) store.markers) }

/-- What a pass did: the budget left, the buckets it reached in the order of
the loop and the keys it found live. -/
structure Pass where
  store : Store
  left : ℕ
  visited : List Bucket := []
  live : List GroupKey := []
  complete : Bool

def Pass.reached (bucket : Bucket) (live : Bool) (pass : Pass) : Pass :=
  { pass with
    visited := bucket :: pass.visited
    live := if live then bucket.key :: pass.live else pass.live }

/-- The loop of `_run_arbiter`; every recomputation takes one unit of the
budget. -/
def runLoop (llm : Bool) (now : Datetime) (turns : GroupKey → LlmTurn) :
    ℕ → List Bucket → Store → Pass
  | left, [], store => { store := store, left := left, complete := true }
  | 0, _ :: _, store => { store := store, left := 0, complete := false }
  | left + 1, bucket :: rest, store =>
    if A.skips bucket.rows now (store.slots bucket.key) then
      (runLoop llm now turns (left + 1) rest store).reached bucket true
    else
      (runLoop llm now turns left rest
        (A.processBucket llm now (turns bucket.key) bucket store)).reached
          bucket (decide (2 ≤ (A.nonJunk bucket.rows).length))

def isStale (live : List GroupKey) (store : Store) (key : GroupKey) : Bool :=
  match (store.slots key).group with
  | none => false
  | some group => decide (group.status ≠ .collapsed) && decide (key ∉ live)

/-- The sweep of `_run_arbiter`. -/
def sweep (live : List GroupKey) (store : Store) : Store where
  slots := fun key =>
    if isStale live store key then A.collapseSlot (store.slots key)
    else store.slots key
  markers := fun id =>
    match (store.markers id).contentionId with
    | none => store.markers id
    | some key => if isStale live store key then {} else store.markers id

def Pass.sweeps (pass : Pass) : Bool :=
  pass.complete && decide (0 < pass.left)

def runArbiter (llm : Bool) (now : Datetime) (turns : GroupKey → LlmTurn)
    (budget : ℕ) (pending : List Bucket) (store : Store) : Pass :=
  let pass := A.runLoop llm now turns budget pending store
  if pass.sweeps then { pass with store := A.sweep pass.live pass.store }
  else pass

end Arbiter

section

variable {K : Type*} [Field K] [LinearOrder K] (A : Arbiter K)
variable (llm : Bool) (now : Datetime) (turns : GroupKey → LlmTurn)

variable {pending : List Bucket}

theorem runLoop_slots_of_notMem (left : ℕ) (store : Store) {key : GroupKey}
    (hkey : key ∉ pending.map Bucket.key) :
    (A.runLoop llm now turns left pending store).store.slots key = store.slots key := by
  induction pending generalizing left store with
  | nil => rfl
  | cons bucket rest ih =>
    rw [map_cons, mem_cons, not_or] at hkey
    cases left with
    | zero => rfl
    | succ left =>
      unfold Arbiter.runLoop
      split
      · exact ih _ _ hkey.2
      · refine (ih _ _ hkey.2).trans ?_
        exact Function.update_of_ne hkey.1 _ _

theorem runLoop_keeps {P : Store → Prop} (hkeep : ∀ store turn bucket, P store → P
      (A.processBucket llm now turn bucket store)) (left : ℕ) {store : Store}
    (hstart : P store) : P (A.runLoop llm now turns left pending store).store := by
  induction pending generalizing left store with
  | nil => exact hstart
  | cons bucket rest ih =>
    cases left with
    | zero => exact hstart
    | succ left =>
      unfold Arbiter.runLoop
      split
      · exact ih _ hstart
      · exact ih _ (hkeep _ _ _ hstart)

theorem runLoop_complete_of_left (left : ℕ) (store : Store)
    (hleft : 0 < (A.runLoop llm now turns left pending store).left) :
    (A.runLoop llm now turns left pending store).complete := by
  induction pending generalizing left store with
  | nil => rfl
  | cons bucket rest ih =>
    cases left with
    | zero => simp [Arbiter.runLoop] at hleft
    | succ left =>
      unfold Arbiter.runLoop at hleft ⊢
      split
      · rename_i hskips
        rw [if_pos hskips] at hleft
        exact ih _ _ hleft
      · rename_i hskips
        rw [if_neg hskips] at hleft
        exact ih _ _ hleft

section

variable (budget : ℕ) (pending : List Bucket) (store : Store)

theorem runArbiter_visited :
    (A.runArbiter llm now turns budget pending store).visited =
      (A.runLoop llm now turns budget pending store).visited := by
  simp only [Arbiter.runArbiter]
  split <;> rfl

theorem runArbiter_sweeps_iff :
    (A.runArbiter llm now turns budget pending store).sweeps = true ↔
      0 < (A.runLoop llm now turns budget pending store).left := by
  have hsame : (A.runArbiter llm now turns budget pending store).sweeps =
      (A.runLoop llm now turns budget pending store).sweeps := by
    simp only [Arbiter.runArbiter]
    split <;> rfl
  rw [hsame]
  simp only [Arbiter.Pass.sweeps, Bool.and_eq_true, decide_eq_true_eq]
  constructor
  · exact fun h => h.2
  · intro hleft
    exact ⟨runLoop_complete_of_left A llm now turns budget store hleft, hleft⟩

theorem runArbiter_store_of_cut
    (hcut : (A.runArbiter llm now turns budget pending store).sweeps ≠ true) :
    (A.runArbiter llm now turns budget pending store).store =
      (A.runLoop llm now turns budget pending store).store := by
  have hloop : (A.runLoop llm now turns budget pending store).sweeps ≠ true := by
    intro hsweeps
    rw [Arbiter.Pass.sweeps, Bool.and_eq_true, decide_eq_true_eq] at hsweeps
    exact hcut ((runArbiter_sweeps_iff A llm now turns budget pending store).mpr hsweeps.2)
  simp [Arbiter.runArbiter, if_neg hloop]

end

end

end Legba.Contention
