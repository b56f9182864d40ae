import Legba.LabelledRun
import Legba.SignalRow
import Legba.TriggerStateStore

/-!
# Concurrent coalescer coroutines over one pair

Any number of `on_signal` and `on_cadence_tick` coroutines work on the
`trigger_state` row of one (analyst, target) pair.  A coroutine is suspended
between its store statements, and a step of the system executes one statement
of one coroutine.  The instant `now` of a coroutine is taken when it starts.

`counted` and `wins` are history: how many deliveries were counted, and, in
the order of the compare-and-sets, each won fire with the anchor it expected.
-/

namespace Legba.Trigger

open JsonValue Option

def liveClasses : List String := ["live", "web_retrieval", "seed"]

def isLiveOrigin (row : SignalRow) : Bool :=
  match row.originClass with
  | none => true
  | some originClass => liveClasses.contains originClass

/-- The id a signal coalesces under.  The text of a missing id differs from
the text of every UUID, so `none` is an id of its own. -/
def canonicalIdOf (row : SignalRow) : Option Uuid :=
  row.canonicalSignalId.or row.id

def severityOf (row : SignalRow) : ℤ :=
  let fromPayload := severityRank ((field? row.payload "severity").bind Json.string?)
  match row.severity with
  | none => fromPayload
  | some top =>
    let rank := severityRank (some top)
    if rank ≥ 0 then rank else fromPayload

structure TriggerFire where
  tenant : String
  reason : TriggerReason
  pendingCount : ℕ
  severityWake : Bool
  firedAt : Datetime
  methodKind : String
  signalIds : List (Option Uuid)
  deriving DecidableEq, Repr

inductive CoalescerTask where
  | onSignal (signalRow : SignalRow) (tenant : String) (now : Datetime)
  | onCadenceTick (now : Datetime)

inductive Coroutine where
  | idle
  | signalReceived (canon : Option Uuid) (sev : ℤ) (tenant : String) (now : Datetime)
  /-- `apply_dirty` returned `counted=True`, before `save_dirty` -/
  | dirtied (newAcc : TriggerAccumulator (Option Uuid)) (canon : Option Uuid)
      (tenant : String) (now : Datetime)
  | ticking (now : Datetime)
  | listed (tenant : String) (now : Datetime)
  /-- the policy decided to fire, before `claim_fire` -/
  | claiming (acc : TriggerAccumulator (Option Uuid))
      (decision : TriggerDecision) (tenant : String) (now : Datetime)
      (signalIds : List (Option Uuid))
  /-- the fire was won, before the runner is called -/
  | dispatching (fire : TriggerFire)
  | finished

structure Coalescer where
  policy : TriggerPolicy
  seenCap : ℕ := 10000

/-- The synchronous start of a task: the firewall drops a row which is not
part of the present. -/
def CoalescerTask.start : CoalescerTask → Coroutine
  | .onSignal signalRow tenant now =>
    if isLiveOrigin signalRow then
      .signalReceived (canonicalIdOf signalRow) (severityOf signalRow) tenant now
    else .finished
  | .onCadenceTick now => .ticking now

/-- The synchronous head of `_maybe_fire`. -/
def Coalescer.maybeFire (coalescer : Coalescer)
    (acc : TriggerAccumulator (Option Uuid)) (tenant : String)
    (now : Datetime) (signalIds : List (Option Uuid)) : Coroutine :=
  let decision := coalescer.policy.decide acc now
  if decision.shouldFire then .claiming acc decision tenant now signalIds
  else .finished

/-- The fire built by the winner of a `claim_fire`. -/
def Coalescer.fireOf (coalescer : Coalescer) (decision : TriggerDecision)
    (tenant : String) (now : Datetime) (signalIds : List (Option Uuid)) :
    TriggerFire where
  tenant := tenant
  reason := decision.reason
  pendingCount := decision.pendingCount
  severityWake := decision.severityWake
  firedAt := now
  methodKind := if coalescer.policy.isLlm then "llm" else "deterministic"
  signalIds := signalIds

/-! ## The system -/

variable {Worker : Type} [DecidableEq Worker]

structure TriggerSystem (Worker : Type) where
  row : Option (TriggerRow (Option Uuid)) := none
  coroutines : Worker → Coroutine := fun _ => .idle
  counted : ℕ := 0
  wins : List (Option Datetime × TriggerFire) := []
  dispatched : List TriggerFire := []

def TriggerSystem.initial (Worker : Type) : TriggerSystem Worker := {}

def TriggerSystem.become (system : TriggerSystem Worker) (worker : Worker)
    (coroutine : Coroutine) : TriggerSystem Worker :=
  { system with
    coroutines := Function.update system.coroutines worker coroutine }

section

variable (system : TriggerSystem Worker)

include system

section

variable (worker : Worker) (coroutine : Coroutine)

@[simp] theorem become_row : (system.become worker coroutine).row = system.row := rfl

@[simp] theorem become_counted : (system.become worker coroutine).counted = system.counted := rfl

@[simp] theorem become_wins : (system.become worker coroutine).wins = system.wins := rfl

@[simp] theorem become_dispatched :
    (system.become worker coroutine).dispatched = system.dispatched := rfl

end

end

inductive TriggerLabel (Worker : Type) where
  | start (worker : Worker) (task : CoalescerTask)
  | get (worker : Worker)
  | saveDirty (worker : Worker)
  | listDirty (worker : Worker) (withinLimit : Bool)
  | claimFire (worker : Worker)
  | dispatch (worker : Worker)

open TriggerStateStore in
def Coalescer.step (coalescer : Coalescer) (system : TriggerSystem Worker) :
    TriggerLabel Worker → Option (TriggerSystem Worker)
  | .start worker task =>
    match system.coroutines worker with
    | .idle => some (system.become worker task.start)
    | _ => none
  | .get worker =>
    match system.coroutines worker with
    | .signalReceived canon sev tenant now =>
      let acc := get system.row coalescer.seenCap
      let (newAcc, counted) := acc.applyDirty canon sev (some now)
      if counted then
        some { system.become worker (.dirtied newAcc canon tenant now) with
          counted := system.counted + 1 }
      else some (system.become worker .finished)
    | .listed tenant now =>
      let acc := get system.row coalescer.seenCap
      some (system.become worker (coalescer.maybeFire acc tenant now []))
    | _ => none
  | .saveDirty worker =>
    match system.coroutines worker with
    | .dirtied newAcc canon tenant now =>
      some { system.become worker (coalescer.maybeFire newAcc tenant now [canon]) with
        row := some (saveDirty system.row newAcc tenant) }
    | _ => none
  | .listDirty worker withinLimit =>
    match system.coroutines worker with
    | .ticking now =>
      match listDirty system.row, withinLimit with
      | some tenant, true => some (system.become worker (.listed tenant now))
      | _, _ => some (system.become worker .finished)
    | _ => none
  | .claimFire worker =>
    match system.coroutines worker with
    | .claiming acc decision tenant now signalIds =>
      let (row, won) := claimFire system.row acc.lastFiredAt now
      if won then
        let fire := coalescer.fireOf decision tenant now signalIds
        some { system.become worker (.dispatching fire) with
          row := some row
          wins := system.wins ++ [(acc.lastFiredAt, fire)] }
      else some { system.become worker .finished with row := some row }
    | _ => none
  | .dispatch worker =>
    match system.coroutines worker with
    | .dispatching fire =>
      some { system.become worker .finished with
        dispatched := system.dispatched ++ [fire] }
    | _ => none

def TriggerSystem.Completed (system : TriggerSystem Worker) : Prop :=
  ∀ worker, system.coroutines worker = .idle ∨ system.coroutines worker = .finished

open TriggerStateStore in
/-- Everything a step can do, one constructor for each outcome of a
statement. -/
inductive Coalescer.Transition (coalescer : Coalescer)
    (system : TriggerSystem Worker) :
    TriggerLabel Worker → TriggerSystem Worker → Prop where
  | started (worker : Worker) (task : CoalescerTask)
      (hworker : system.coroutines worker = .idle) :
      coalescer.Transition system (.start worker task) (system.become worker task.start)
  | counted (worker : Worker) (canon : Option Uuid) (sev : ℤ)
      (tenant : String) (now : Datetime)
      (hworker : system.coroutines worker = .signalReceived canon sev tenant now)
      (hcounted : ((get system.row coalescer.seenCap).applyDirty canon sev (some now)).2 = true) :
      coalescer.Transition system (.get worker)
        { system.become worker (.dirtied
            ((get system.row coalescer.seenCap).applyDirty canon sev
              (some now)).1 canon tenant now) with
          counted := system.counted + 1 }
  | duplicate (worker : Worker) (canon : Option Uuid) (sev : ℤ)
      (tenant : String) (now : Datetime)
      (hworker : system.coroutines worker = .signalReceived canon sev tenant now) :
      coalescer.Transition system (.get worker) (system.become worker .finished)
  | tickRead (worker : Worker) (tenant : String) (now : Datetime)
      (hworker : system.coroutines worker = .listed tenant now) :
      coalescer.Transition system (.get worker)
        (system.become worker (coalescer.maybeFire
          (get system.row coalescer.seenCap) tenant now []))
  | saved (worker : Worker) (newAcc : TriggerAccumulator (Option Uuid))
      (canon : Option Uuid) (tenant : String) (now : Datetime)
      (hworker : system.coroutines worker = .dirtied newAcc canon tenant now) :
      coalescer.Transition system (.saveDirty worker)
        { system.become worker (coalescer.maybeFire newAcc tenant now [canon]) with
          row := some (saveDirty system.row newAcc tenant) }
  | listed (worker : Worker) (withinLimit : Bool) (tenant : String)
      (now : Datetime) (hworker : system.coroutines worker = .ticking now) :
      coalescer.Transition system (.listDirty worker withinLimit)
        (system.become worker (.listed tenant now))
  | skipped (worker : Worker) (withinLimit : Bool) (now : Datetime)
      (hworker : system.coroutines worker = .ticking now) :
      coalescer.Transition system (.listDirty worker withinLimit) (system.become worker .finished)
  | won (worker : Worker) (acc : TriggerAccumulator (Option Uuid))
      (decision : TriggerDecision) (tenant : String) (now : Datetime)
      (signalIds : List (Option Uuid))
      (hworker : system.coroutines worker = .claiming acc decision tenant now signalIds)
      (hwon : (claimFire system.row acc.lastFiredAt now).2 = true) :
      coalescer.Transition system (.claimFire worker)
        { system.become worker (.dispatching (coalescer.fireOf decision tenant now signalIds)) with
          row := some (claimFire system.row acc.lastFiredAt now).1
          wins := system.wins ++ [(acc.lastFiredAt,
            coalescer.fireOf decision tenant now signalIds)] }
  | lost (worker : Worker) (acc : TriggerAccumulator (Option Uuid))
      (decision : TriggerDecision) (tenant : String) (now : Datetime)
      (signalIds : List (Option Uuid))
      (hworker : system.coroutines worker = .claiming acc decision tenant now signalIds)
      (hlost : (claimFire system.row acc.lastFiredAt now).2 = false) :
      coalescer.Transition system (.claimFire worker)
        { system.become worker .finished with
          row := some (claimFire system.row acc.lastFiredAt now).1 }
  | dispatched (worker : Worker) (fire : TriggerFire)
      (hworker : system.coroutines worker = .dispatching fire) :
      coalescer.Transition system (.dispatch worker)
        { system.become worker .finished with
          dispatched := system.dispatched ++ [fire] }

theorem Coalescer.step_transition {coalescer : Coalescer} {system next : TriggerSystem Worker}
    {label : TriggerLabel Worker} (hstep : coalescer.step system label = some next) :
    coalescer.Transition system label next := by
  cases label with
  | start worker task =>
    simp only [Coalescer.step] at hstep
    split at hstep
    · rename_i hworker
      obtain rfl := some.inj hstep
      exact .started worker task hworker
    · contradiction
  | get worker =>
    simp only [Coalescer.step] at hstep
    split at hstep
    · rename_i canon sev tenant now hworker
      split at hstep
      · rename_i hcounted
        obtain rfl := some.inj hstep
        exact .counted worker canon sev tenant now hworker hcounted
      · obtain rfl := some.inj hstep
        exact .duplicate worker canon sev tenant now hworker
    · rename_i tenant now hworker
      obtain rfl := some.inj hstep
      exact .tickRead worker tenant now hworker
    · contradiction
  | saveDirty worker =>
    simp only [Coalescer.step] at hstep
    split at hstep
    · rename_i newAcc canon tenant now hworker
      obtain rfl := some.inj hstep
      exact .saved worker newAcc canon tenant now hworker
    · contradiction
  | listDirty worker withinLimit =>
    simp only [Coalescer.step] at hstep
    split at hstep
    · rename_i now hworker
      split at hstep
      · rename_i tenant _
        obtain rfl := some.inj hstep
        exact .listed worker true tenant now hworker
      · obtain rfl := some.inj hstep
        exact .skipped worker _ now hworker
    · contradiction
  | claimFire worker =>
    simp only [Coalescer.step] at hstep
    split at hstep
    · rename_i acc decision tenant now signalIds hworker
      split at hstep
      · rename_i hwon
        obtain rfl := some.inj hstep
        exact .won worker acc decision tenant now signalIds hworker hwon
      · rename_i hlost
        obtain rfl := some.inj hstep
        exact .lost worker acc decision tenant now signalIds hworker (by simpa using hlost)
    · contradiction
  | dispatch worker =>
    simp only [Coalescer.step] at hstep
    split at hstep
    · rename_i fire hworker
      obtain rfl := some.inj hstep
      exact .dispatched worker fire hworker
    · contradiction

theorem Coalescer.maybeFire_cases (coalescer : Coalescer) (acc : TriggerAccumulator (Option Uuid))
    (tenant : String) (now : Datetime) (signalIds : List (Option Uuid)) :
    (coalescer.maybeFire acc tenant now signalIds = .finished ∧
      (coalescer.policy.decide acc now).shouldFire = false) ∨
    (coalescer.maybeFire acc tenant now signalIds =
        .claiming acc (coalescer.policy.decide acc now) tenant now signalIds ∧
      (coalescer.policy.decide acc now).shouldFire = true) := by
  unfold Coalescer.maybeFire
  dsimp only
  split
  · rename_i hfire
    exact .inr ⟨rfl, hfire⟩
  · rename_i hhold
    exact .inl ⟨rfl, by simpa using hhold⟩

theorem CoalescerTask.start_cases (task : CoalescerTask) :
    (∃ canon sev tenant now,
      task.start = .signalReceived canon sev tenant now) ∨
      (∃ now, task.start = .ticking now) ∨ task.start = .finished := by
  cases task with
  | onSignal signalRow tenant now =>
    unfold CoalescerTask.start
    dsimp only
    split
    · exact .inl ⟨_, _, _, _, rfl⟩
    · exact .inr (.inr rfl)
  | onCadenceTick now => exact .inr (.inl ⟨now, rfl⟩)

end Legba.Trigger
