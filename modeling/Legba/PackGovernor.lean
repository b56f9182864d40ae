import Legba.Datetime
import Legba.LabelledRun
import Mathlib.Algebra.Ring.Rat

/-!
# The governor of a pack

A call of a pack tool passes the gate of its pack's governor before its row is
inserted into the invocation ledger, and runs its tool after that.  The gate
reads the clock once and then the ledger, one statement for each cap which is
set; the first cap which the call would break blocks it.

The ledger is that of one pack and budget account.  Statements of several
calls interleave, any of them may raise, and the clock does not go back.
-/

namespace Legba.Agency

structure PackGovernor where
  maxInvocationsPerHour : Option ℕ
  maxCostUsdPerDay : Option ℚ
  maxSourcesPerWindow : Option ℕ
  apiRatePerMinute : Option ℕ

inductive InvocationOutcome where
  | admitted
  | completed
  | failed
deriving DecidableEq

structure Invocation where
  occurredAt : Datetime
  costUsd : ℚ
  units : ℤ
  outcome : InvocationOutcome

inductive CapDimension where
  | globalTokens
  | apiRatePerMinute
  | maxInvocationsPerHour
  | maxSourcesPerWindow
  | maxCostUsdPerDay
deriving DecidableEq

inductive BlockCause where
  | globalExhausted
  | overRate
  | overBudget
deriving DecidableEq

structure Block where
  cause : BlockCause
  capDimension : CapDimension
  capLimit : ℚ
  observed : ℚ
deriving DecidableEq

/-- Where a call stands: at a read of the gate, with the reading of the clock
it began with, at the insert, or after it. -/
inductive Phase where
  | envelope (now : Datetime)
  | minute (now : Datetime)
  | hour (now : Datetime)
  | sources (now : Datetime)
  | cost (now : Datetime)
  | record
  | dispatched (row : ℕ)
  | settled
  | blocked (block : Block)
  | aborted
deriving DecidableEq

structure Call where
  estimatedCostUsd : ℚ
  estimatedUnits : ℤ
  phase : Phase

def countSince (ledger : List Invocation) (since : Datetime) : ℕ :=
  ledger.countP fun row => decide (since ≤ row.occurredAt)

def unitsSince (ledger : List Invocation) (since : Datetime) : ℤ :=
  ((ledger.filter fun row => decide (since ≤ row.occurredAt)).map
    Invocation.units).sum

def dayOf (instant : Datetime) : ℤ := instant / seconds 86400

def costToday (ledger : List Invocation) (bucket : ℤ) : ℚ :=
  ((ledger.filter fun row => decide (dayOf row.occurredAt = bucket)).map
    Invocation.costUsd).sum

def afterSources (governor : PackGovernor) (now : Datetime) : Phase :=
  if governor.maxCostUsdPerDay.isSome then .cost now else .record

def afterHour (governor : PackGovernor) (now : Datetime) : Phase :=
  if governor.maxSourcesPerWindow.isSome then .sources now
  else afterSources governor now

def afterMinute (governor : PackGovernor) (now : Datetime) : Phase :=
  if governor.maxInvocationsPerHour.isSome then .hour now
  else afterHour governor now

def afterEnvelope (governor : PackGovernor) (now : Datetime) : Phase :=
  if governor.apiRatePerMinute.isSome then .minute now
  else afterMinute governor now

def checkCount (dimension : CapDimension) (limit : Option ℕ) (count : ℕ) (next : Phase) : Phase :=
  match limit with
  | none => next
  | some limit =>
    if limit < count + 1 then
      .blocked ⟨.overRate, dimension, limit, count + 1⟩
    else next

/-- The next phase of a call, by the statement it awaits.  `envelope` is the
token cap of the day and the tokens used, if a cap is set. -/
def gate (governor : PackGovernor) (ledger : List Invocation)
    (envelope : Option (ℤ × ℤ)) (call : Call) : Option Phase :=
  match call.phase with
  | .envelope now =>
    match envelope with
    | some (cap, used) =>
      if cap ≤ used then
        some (.blocked ⟨.globalExhausted, .globalTokens, cap, used⟩)
      else some (afterEnvelope governor now)
    | none => some (afterEnvelope governor now)
  | .minute now =>
    some (checkCount .apiRatePerMinute governor.apiRatePerMinute
      (countSince ledger (now - seconds 60)) (afterMinute governor now))
  | .hour now =>
    some (checkCount .maxInvocationsPerHour governor.maxInvocationsPerHour
      (countSince ledger (now - seconds 3600)) (afterHour governor now))
  | .sources now =>
    match governor.maxSourcesPerWindow with
    | none => some (afterSources governor now)
    | some limit =>
      let units := unitsSince ledger (now - seconds 3600) + call.estimatedUnits
      if (limit : ℤ) < units then
        some (.blocked ⟨.overRate, .maxSourcesPerWindow, limit, units⟩)
      else some (afterSources governor now)
  | .cost now =>
    match governor.maxCostUsdPerDay with
    | none => some .record
    | some limit =>
      let projected := costToday ledger (dayOf now) + call.estimatedCostUsd
      if limit < projected then
        some (.blocked ⟨.overBudget, .maxCostUsdPerDay, limit, projected⟩)
      else some .record
  | _ => none

structure State where
  clock : Datetime
  ledger : List Invocation
  calls : List Call

def start (clock : Datetime) (ledger : List Invocation) : State :=
  ⟨clock, ledger, []⟩

inductive Event where
  | tick (elapsed : ℕ)
  | call (estimatedCostUsd : ℚ) (estimatedUnits : ℤ)
  | read (call : ℕ) (envelope : Option (ℤ × ℤ))
  | record (call : ℕ)
  | settle (call : ℕ) (outcome : InvocationOutcome) (costUsd : Option ℚ) (units : Option ℤ)
  | abort (call : ℕ)
  | reconcileStale (olderThan : Datetime)

def State.setPhase (state : State) (index : ℕ) (call : Call) (phase : Phase) : State :=
  { state with calls := state.calls.set index { call with phase := phase } }

/-- `settle` overwrites the cost and the units if they are given. -/
def Invocation.settle (row : Invocation) (outcome : InvocationOutcome)
    (costUsd : Option ℚ) (units : Option ℤ) : Invocation :=
  { row with
    outcome := outcome
    costUsd := costUsd.getD row.costUsd
    units := units.getD row.units }

/-- `reconcile_stale_admitted` on one row. -/
def Invocation.reconcile (row : Invocation) (before : Datetime) : Invocation :=
  if row.outcome = .admitted ∧ row.occurredAt < before then
    { row with outcome := .failed }
  else row

def step (governor : PackGovernor) (state : State) : Event → Option State
  | .tick elapsed => some { state with clock := state.clock + elapsed }
  | .call estimatedCostUsd estimatedUnits =>
    some { state with
      calls := state.calls ++
        [⟨estimatedCostUsd, estimatedUnits, .envelope state.clock⟩] }
  | .read index envelope =>
    state.calls[index]?.bind fun call =>
      (gate governor state.ledger envelope call).map (state.setPhase index call)
  | .record index =>
    state.calls[index]?.bind fun call =>
      if call.phase = .record then
        some { state.setPhase index call (.dispatched state.ledger.length) with
          ledger := state.ledger ++ [⟨state.clock, call.estimatedCostUsd,
            call.estimatedUnits, .admitted⟩] }
      else none
  | .settle index outcome costUsd units =>
    state.calls[index]?.bind fun call =>
      match call.phase with
      | .dispatched row =>
        some { state.setPhase index call .settled with
          ledger := state.ledger.modify row
            fun invocation => invocation.settle outcome costUsd units }
      | _ => none
  | .abort index => state.calls[index]?.map fun call => state.setPhase index call .aborted
  | .reconcileStale olderThan =>
    some { state with
      ledger := state.ledger.map
        fun row => row.reconcile (state.clock - olderThan) }

end Legba.Agency
