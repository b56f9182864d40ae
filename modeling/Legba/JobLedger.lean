import Legba.KeyedTable
import Legba.SignalRow

/-!
# The idempotency ledger of the job plane

The envelope, the result and the statements of `JobStore` on
`public.legba_jobs`.  Each definition is one SQL statement, so that other
parties can act between two of them; `claim` is the guarded upsert followed,
when it matched nothing, by a read.  The opaque `input_refs` of an envelope,
its `enqueued_at` and the column `updated_at` are not represented.
-/

namespace Legba.Jobs

open JsonValue KeyedTable Option Table

structure JobEnvelope where
  jobId : Uuid
  jobKind : String
  requestedBy : String := "system"
  budgetAccount : String := "system"
  idempotencyKey : String
  attempts : ℕ := 0
  deadline : Option Datetime := none
  tenantId : String := "default"
  deriving DecidableEq, Repr

def JobEnvelope.isExpired (env : JobEnvelope) (now : Datetime) : Bool :=
  match env.deadline with
  | none => false
  | some deadline => decide (now > deadline)

inductive ResultStatus where
  | completed
  | failed
  | skippedDuplicate
  | expired
  deriving DecidableEq, Repr

structure JobResult where
  jobId : Uuid
  jobKind : String
  status : ResultStatus
  outputRefs : List (String × Json) := []
  error : Option String := none
  workerId : String := ""
  finishedAt : Datetime

inductive LedgerStatus where
  | claimed
  | completed
  | failed
  | released
  deriving DecidableEq, Repr

def LedgerStatus.terminal : LedgerStatus → Bool
  | .completed | .failed => true
  | .claimed | .released => false

structure LedgerRow where
  jobId : Uuid
  jobKind : String
  tenantId : String
  requestedBy : String
  budgetAccount : String
  status : LedgerStatus
  attempts : ℕ
  result : Option JobResult
  envelope : Option JobEnvelope
  claimedAt : Datetime

/-- `public.legba_jobs`, by idempotency key. -/
abbrev Ledger := Table String LedgerRow

/-- `status` is `none` when the row vanished before it was read. -/
structure ClaimResult where
  acquired : Bool
  status : Option LedgerStatus
  priorResult : Option JobResult

structure ReapedEntry where
  idempotencyKey : String
  jobId : Uuid
  jobKind : String
  attempts : ℕ
  disposition : LedgerStatus
  envelope : Option JobEnvelope

namespace JobStore

def insertedRow (env : JobEnvelope) (now : Datetime) : LedgerRow where
  jobId := env.jobId
  jobKind := env.jobKind
  tenantId := env.tenantId
  requestedBy := env.requestedBy
  budgetAccount := env.budgetAccount
  status := .claimed
  attempts := env.attempts
  result := none
  envelope := some env
  claimedAt := now

def reclaimedRow (row : LedgerRow) (env : JobEnvelope) (now : Datetime) :
    LedgerRow :=
  { row with
    status := .claimed
    attempts := env.attempts
    envelope := some env
    claimedAt := now }

/-- The upsert of `claim`: insert, or take over a released row.  The flag
tells whether a key was returned. -/
def claim (ledger : Ledger) (env : JobEnvelope) (now : Datetime) : Ledger × Bool :=
  match ledger.row? env.idempotencyKey with
  | none => (ledger.put env.idempotencyKey (insertedRow env now), true)
  | some row =>
    if row.status = .released then
      (ledger.put env.idempotencyKey (reclaimedRow row env now), true)
    else (ledger, false)

/-- The read of `claim` after an upsert which matched nothing. -/
def claimState (ledger : Ledger) (env : JobEnvelope) : ClaimResult :=
  match ledger.row? env.idempotencyKey with
  | none => { acquired := false, status := none, priorResult := none }
  | some row =>
    { acquired := false, status := some row.status
      priorResult := row.result }

/-- The update shared by `complete` and `fail`: it selects by key alone. -/
def finish (status : LedgerStatus) (ledger : Ledger) (key : String) (result : JobResult) : Ledger :=
  ledger.update key fun row =>
    { row with
      status := status
      result := some result
      attempts := row.attempts + 1 }

def complete : Ledger → String → JobResult → Ledger := finish .completed

def fail : Ledger → String → JobResult → Ledger := finish .failed

def release (ledger : Ledger) (key : String) : Ledger :=
  ledger.update key fun row =>
    if row.status = .claimed then { row with status := .released } else row

def stale (now : Datetime) (leaseSeconds : ℤ) (row : LedgerRow) : Bool :=
  row.status = .claimed && decide (row.claimedAt < now - seconds leaseSeconds)

def selectsFailed (now : Datetime) (leaseSeconds : ℤ) (maxDeliver : ℕ) (row : LedgerRow) : Bool :=
  stale now leaseSeconds row && decide (row.attempts ≥ maxDeliver)

def selectsReleased (now : Datetime) (leaseSeconds : ℤ) (maxDeliver : ℕ) (row : LedgerRow) : Bool :=
  stale now leaseSeconds row && decide (row.attempts < maxDeliver)

def leaseExpired (row : LedgerRow) (now : Datetime) (leaseSeconds : ℤ)
    (maxDeliver : ℕ) (reaperId : String) : JobResult where
  jobId := row.jobId
  jobKind := row.jobKind
  status := .failed
  error := some <|
    "lease expired: claimed > " ++ toString leaseSeconds ++
      "s (ack_wait x max_deliver) with delivery " ++
      "budget spent (attempts=" ++ toString row.attempts ++
      " >= max_deliver=" ++ toString maxDeliver ++
      "); claim holder presumed dead"
  workerId := reaperId
  finishedAt := now

/-- The first statement of `reap_stale_claims`: the delivery budget is
spent. -/
def reapFailed (ledger : Ledger) (now : Datetime) (leaseSeconds : ℤ)
    (maxDeliver : ℕ) (reaperId : String) : Ledger × List ReapedEntry :=
  (ledger.updateWhere (selectsFailed now leaseSeconds maxDeliver) fun row =>
      { row with
        status := .failed
        result := some
          (leaseExpired row now leaseSeconds maxDeliver reaperId) },
    (ledger.select (selectsFailed now leaseSeconds maxDeliver)).map
      fun (key, row) =>
        { idempotencyKey := key
          jobId := row.jobId
          jobKind := row.jobKind
          attempts := row.attempts
          disposition := .failed
          envelope := none })

/-- The second statement of `reap_stale_claims`: back to retryable, with the
cached envelope for the caller to re-enqueue. -/
def reapReleased (ledger : Ledger) (now : Datetime) (leaseSeconds : ℤ)
    (maxDeliver : ℕ) : Ledger × List ReapedEntry :=
  (ledger.updateWhere (selectsReleased now leaseSeconds maxDeliver) fun row =>
      { row with status := .released },
    (ledger.select (selectsReleased now leaseSeconds maxDeliver)).map
      fun (key, row) =>
        { idempotencyKey := key
          jobId := row.jobId
          jobKind := row.jobKind
          attempts := row.attempts
          disposition := .released
          envelope := row.envelope })

/-! ## What the statements select -/

variable {now : Datetime} {leaseSeconds : ℤ} {row after : LedgerRow}
  {maxDeliver : ℕ} {ledger : Ledger} {env : JobEnvelope} {key other : String}

theorem stale_eq_true_iff :
    stale now leaseSeconds row = true ↔
      row.status = .claimed ∧ row.claimedAt < now - seconds leaseSeconds := by
  simp [stale]

theorem selectsFailed_eq_true_iff :
    selectsFailed now leaseSeconds maxDeliver row = true ↔
      stale now leaseSeconds row = true ∧ maxDeliver ≤ row.attempts := by
  simp [selectsFailed]

theorem selectsReleased_eq_true_iff :
    selectsReleased now leaseSeconds maxDeliver row = true ↔
      stale now leaseSeconds row = true ∧ row.attempts < maxDeliver := by
  simp [selectsReleased]

theorem stale_of_selectsFailed (h : selectsFailed now leaseSeconds maxDeliver row) :
    stale now leaseSeconds row :=
  (selectsFailed_eq_true_iff.mp h).1

theorem stale_of_selectsReleased (h : selectsReleased now leaseSeconds maxDeliver row) :
    stale now leaseSeconds row :=
  (selectsReleased_eq_true_iff.mp h).1

theorem claim_won (hwon : (claim ledger env now).2) :
    ∃ row, (claim ledger env now).1 = ledger.put env.idempotencyKey row ∧
      row.status = .claimed ∧ row.claimedAt = now ∧
      ∀ before, ledger.row? env.idempotencyKey = some before → before.status = .released := by
  unfold claim at hwon ⊢
  cases hrow : ledger.row? env.idempotencyKey with
  | none => exact ⟨insertedRow env now, by simp [insertedRow]⟩
  | some before =>
    simp only [hrow] at hwon ⊢
    by_cases hreleased : before.status = .released
    · refine ⟨reclaimedRow before env now, ?_⟩
      simp [hreleased, reclaimedRow]
    · simp [hreleased] at hwon

theorem row?_claim_of_ne (hkey : key ≠ env.idempotencyKey) (now : Datetime) :
    (claim ledger env now).1.row? key = ledger.row? key := by
  unfold claim
  cases hrow : ledger.row? env.idempotencyKey with
  | none => exact row?_put_of_ne _ hkey _
  | some before =>
    by_cases hreleased : before.status = .released
    · simp only [if_pos hreleased]
      exact row?_put_of_ne _ hkey _
    · simp only [if_neg hreleased]

theorem row?_finish_of_ne (hother : other ≠ key) (status : LedgerStatus) (result : JobResult) :
    (finish status ledger key result).row? other = ledger.row? other :=
  row?_update_of_ne _ hother _

theorem row?_finish_self (hrow : ledger.row? key = some row)
    (status : LedgerStatus) (result : JobResult) :
    (finish status ledger key result).row? key =
      some { row with
        status := status
        result := some result
        attempts := row.attempts + 1 } := by
  unfold finish
  rw [row?_update_self, hrow, map_some]

theorem row?_release_of_ne (hother : other ≠ key) :
    (release ledger key).row? other = ledger.row? other :=
  row?_update_of_ne _ hother _

section

variable (hrow : ledger.row? key = some row)

include hrow

theorem row?_release_self :
    (release ledger key).row? key =
      some (if row.status = .claimed then { row with status := .released }
        else row) := by
  unfold release
  rw [row?_update_self, hrow, map_some]

theorem row?_reapFailed_of_not_selected
    (hnot : ¬ selectsFailed now leaseSeconds maxDeliver row = true) (reaperId : String) :
    (reapFailed ledger now leaseSeconds maxDeliver reaperId).1.row? key = some row := by
  simp only [reapFailed, row?_updateWhere, hrow, map_some, if_neg hnot]

theorem row?_reapReleased_of_not_selected
    (hnot : ¬ selectsReleased now leaseSeconds maxDeliver row = true) :
    (reapReleased ledger now leaseSeconds maxDeliver).1.row? key = some row := by
  simp only [reapReleased, row?_updateWhere, hrow, map_some, if_neg hnot]

end

theorem not_selected_of_not_claimed (hstatus : row.status ≠ .claimed)
    (now : Datetime) (leaseSeconds : ℤ) (maxDeliver : ℕ) :
    ¬ selectsFailed now leaseSeconds maxDeliver row = true ∧
      ¬ selectsReleased now leaseSeconds maxDeliver row = true := by
  constructor
  · intro hselected
    exact hstatus (stale_eq_true_iff.mp (stale_of_selectsFailed hselected)).1
  · intro hselected
    exact hstatus (stale_eq_true_iff.mp (stale_of_selectsReleased hselected)).1

/-! ## What a row was before a statement -/

theorem exists_row?_finish (hrow : ledger.row? key = some row)
    (status : LedgerStatus) (other : String) (result : JobResult) :
    ∃ after, (finish status ledger other result).row? key = some after := by
  by_cases hkey : key = other
  · subst hkey
    exact ⟨_, row?_finish_self hrow status result⟩
  · exact ⟨row, (row?_finish_of_ne hkey status result).trans hrow⟩

theorem row?_of_finish {status : LedgerStatus} {result : JobResult}
    (hafter : (finish status ledger other result).row? key = some after)
    (hstatus : after.status ≠ status) : ledger.row? key = some after := by
  by_cases hkey : key = other
  · subst hkey
    unfold finish at hafter
    rw [row?_update_self] at hafter
    obtain ⟨row, _, rfl⟩ := map_eq_some_iff.mp hafter
    exact absurd rfl hstatus
  · rw [← hafter, row?_finish_of_ne hkey]

theorem exists_row?_release (hrow : ledger.row? key = some row) (other : String) :
    ∃ after, (release ledger other).row? key = some after := by
  by_cases hkey : key = other
  · subst hkey
    exact ⟨_, row?_release_self hrow⟩
  · exact ⟨row, (row?_release_of_ne hkey).trans hrow⟩

theorem row?_of_release (hafter : (release ledger other).row? key = some after) :
    ledger.row? key = some after ∨
      key = other ∧ ∃ row, ledger.row? key = some row ∧ row.status = .claimed := by
  by_cases hkey : key = other
  · subst hkey
    unfold release at hafter
    rw [row?_update_self] at hafter
    obtain ⟨row, hrow, hsame⟩ := map_eq_some_iff.mp hafter
    by_cases hclaimed : row.status = .claimed
    · exact .inr ⟨rfl, row, hrow, hclaimed⟩
    · rw [if_neg hclaimed] at hsame
      exact .inl (hsame ▸ hrow)
  · rw [row?_release_of_ne hkey] at hafter
    exact .inl hafter

theorem exists_row?_reapFailed (hrow : ledger.row? key = some row)
    (now : Datetime) (leaseSeconds : ℤ) (maxDeliver : ℕ) (reaperId : String) :
    ∃ after, (reapFailed ledger now leaseSeconds maxDeliver reaperId).1.row? key = some after := by
  simp [reapFailed, hrow]

theorem row?_of_reapFailed_released {reaperId : String}
    (hafter : (reapFailed ledger now leaseSeconds maxDeliver reaperId).1.row? key = some after)
    (hreleased : after.status = .released) : ledger.row? key = some after := by
  obtain ⟨row, hrow, hsame⟩ := map_eq_some_iff.mp hafter
  split at hsame
  · rw [← hsame] at hreleased
    contradiction
  · rw [hrow, hsame]

theorem exists_row?_reapReleased (hrow : ledger.row? key = some row)
    (now : Datetime) (leaseSeconds : ℤ) (maxDeliver : ℕ) :
    ∃ after, (reapReleased ledger now leaseSeconds maxDeliver).1.row? key = some after := by
  simp [reapReleased, hrow]

theorem row?_of_reapReleased
    (hafter : (reapReleased ledger now leaseSeconds maxDeliver).1.row? key = some after) :
    ledger.row? key = some after ∨
      ∃ row, ledger.row? key = some row ∧
        selectsReleased now leaseSeconds maxDeliver row = true ∧
        after = { row with status := .released } := by
  obtain ⟨row, hrow, hsame⟩ := map_eq_some_iff.mp hafter
  split at hsame
  · rename_i hselected
    exact .inr ⟨row, hrow, hselected, hsame.symm⟩
  · rw [← hsame]
    exact .inl hrow

theorem row?_reapReleased_of_selected (hrow : ledger.row? key = some row)
    (hselected : selectsReleased now leaseSeconds maxDeliver row) :
    (reapReleased ledger now leaseSeconds maxDeliver).1.row? key =
      some { row with status := .released } := by
  simp only [reapReleased, row?_updateWhere, hrow, map_some, if_pos hselected]

theorem selected_of_mem_reapReleased {entry : ReapedEntry}
    (hentry : entry ∈ (reapReleased ledger now leaseSeconds maxDeliver).2) :
    ∃ row, ledger.row? entry.idempotencyKey = some row ∧
      selectsReleased now leaseSeconds maxDeliver row = true := by
  obtain ⟨⟨key, row⟩, hselected, hpair⟩ := List.mem_map.mp hentry
  have hrow := mem_select.mp hselected
  subst hpair
  exact ⟨row, hrow⟩

theorem selected_of_mem_reapFailed {reaperId : String} {entry : ReapedEntry}
    (hentry : entry ∈ (reapFailed ledger now leaseSeconds maxDeliver reaperId).2) :
    ∃ row, ledger.row? entry.idempotencyKey = some row ∧
      selectsFailed now leaseSeconds maxDeliver row = true := by
  obtain ⟨⟨key, row⟩, hselected, hpair⟩ := List.mem_map.mp hentry
  have hrow := mem_select.mp hselected
  subst hpair
  exact ⟨row, hrow⟩

end JobStore
end Legba.Jobs
