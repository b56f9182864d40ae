import Legba.TriggerPolicy

/-!
# The crash-safe accumulator store

One `trigger_state` row and the statements of `TriggerStateStore` on it.  A
pair which was never written has no row.  `updated_at` orders pairs in
`list_dirty` and is not represented.
-/

namespace Legba.Trigger

structure TriggerRow (Id : Type) where
  tenant : String := "default"
  pendingCount : ℕ := 0
  maxPendingRank : ℤ := -1
  lastFiredAt : Option Datetime := none
  firstDirtyAt : Option Datetime := none
  seenSignalIds : List Id := []
  fireCount : ℕ := 0
  deriving DecidableEq, Repr

namespace TriggerStateStore

variable {Id : Type}

def pendingCount (row : Option (TriggerRow Id)) : ℕ :=
  row.elim 0 TriggerRow.pendingCount

def lastFiredAt (row : Option (TriggerRow Id)) : Option Datetime :=
  row.bind TriggerRow.lastFiredAt

def get [DecidableEq Id] (row : Option (TriggerRow Id)) (seenCap : ℕ) : TriggerAccumulator Id :=
  match row with
  | none => { seenCap := seenCap }
  | some row =>
    { pendingCount := row.pendingCount
      maxPendingRank := row.maxPendingRank
      lastFiredAt := row.lastFiredAt
      firstDirtyAt := row.firstDirtyAt
      seenSignalIds := row.seenSignalIds.toFinset
      seenCap := seenCap
      seenOrder := row.seenSignalIds }

/-- Upsert the dirty state.  The insert arm writes the accumulator's anchor;
the conflict arm leaves `last_fired_at` and `fire_count` alone. -/
def saveDirty (row : Option (TriggerRow Id)) (acc : TriggerAccumulator Id)
    (tenant : String) : TriggerRow Id :=
  match row with
  | none =>
    { tenant := tenant
      pendingCount := acc.pendingCount
      maxPendingRank := acc.maxPendingRank
      lastFiredAt := acc.lastFiredAt
      firstDirtyAt := acc.firstDirtyAt
      seenSignalIds := acc.seenOrder }
  | some row =>
    { row with
      tenant := tenant
      pendingCount := acc.pendingCount
      maxPendingRank := acc.maxPendingRank
      firstDirtyAt := acc.firstDirtyAt
      seenSignalIds := acc.seenOrder }

/-- Insert the zero row if there is none, then compare-and-set on the fire
anchor.  The flag tells the caller whether it won the fire. -/
def claimFire (row : Option (TriggerRow Id))
    (expectedLastFiredAt : Option Datetime) (firedAt : Datetime) :
    TriggerRow Id × Bool :=
  let row := row.getD {}
  if row.lastFiredAt = expectedLastFiredAt then
    ({ row with
       pendingCount := 0
       maxPendingRank := -1
       seenSignalIds := []
       firstDirtyAt := none
       lastFiredAt := some firedAt
       fireCount := row.fireCount + 1 }, true)
  else (row, false)

/-- The tenant `list_dirty` reports for the pair, if it reports it. -/
def listDirty (row : Option (TriggerRow Id)) : Option String :=
  row.bind fun row => if row.pendingCount > 0 then some row.tenant else none

@[simp] theorem get_pendingCount [DecidableEq Id] (row : Option (TriggerRow Id))
    (seenCap : ℕ) : (get row seenCap).pendingCount = pendingCount row := by
  cases row <;> rfl

@[simp] theorem get_lastFiredAt [DecidableEq Id] (row : Option (TriggerRow Id))
    (seenCap : ℕ) : (get row seenCap).lastFiredAt = lastFiredAt row := by
  cases row <;> rfl

@[simp] theorem pendingCount_saveDirty (row : Option (TriggerRow Id)) (acc : TriggerAccumulator Id)
    (tenant : String) : pendingCount (some (saveDirty row acc tenant)) = acc.pendingCount := by
  cases row <;> rfl

variable {row : Option (TriggerRow Id)} {expected : Option Datetime}

theorem lastFiredAt_saveDirty {acc : TriggerAccumulator Id}
    (hinsert : row = none → acc.lastFiredAt = none) (tenant : String) :
    lastFiredAt (some (saveDirty row acc tenant)) = lastFiredAt row := by
  cases row with
  | none => exact hinsert rfl
  | some row => rfl

theorem claimFire_won_iff (row : Option (TriggerRow Id))
    (expected : Option Datetime) (firedAt : Datetime) :
    (claimFire row expected firedAt).2 = true ↔ lastFiredAt row = expected := by
  cases row with
  | none =>
    by_cases hexpected : none = expected <;> simp [claimFire, lastFiredAt, hexpected]
  | some row =>
    by_cases hexpected : row.lastFiredAt = expected <;> simp [claimFire, lastFiredAt, hexpected]

theorem claimFire_won {firedAt : Datetime} (hwon : (claimFire row expected firedAt).2) :
    pendingCount (some (claimFire row expected firedAt).1) = 0 ∧
      lastFiredAt (some (claimFire row expected firedAt).1) = some firedAt := by
  unfold claimFire at hwon ⊢
  dsimp only at hwon ⊢
  split at hwon
  · rename_i hexpected
    rw [if_pos hexpected]
    exact ⟨rfl, rfl⟩
  · simp at hwon

theorem claimFire_lost {firedAt : Datetime} (hlost : (claimFire row expected firedAt).2 = false) :
    pendingCount (some (claimFire row expected firedAt).1) = pendingCount row ∧
      lastFiredAt (some (claimFire row expected firedAt).1) = lastFiredAt row := by
  unfold claimFire at hlost ⊢
  dsimp only at hlost ⊢
  split at hlost
  · simp at hlost
  · rename_i hexpected
    rw [if_neg hexpected]
    cases row <;> exact ⟨rfl, rfl⟩

end TriggerStateStore

end Legba.Trigger
