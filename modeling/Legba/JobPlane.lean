import Legba.JobQueue

/-!
# The job plane

Any number of workers run `drain_once` in a loop against one ledger and one
work queue: sweep stale claims if it is time to, fetch a batch, process its
messages one by one.  A worker is suspended between its SQL statements and
broker calls, so its phase is what it holds there, and a step executes one of
these for one worker.  A worker may be abandoned in any phase; its deliveries
then stay unsettled.

`acquirer` and `starts` are history: the last worker which won the claim of a
key, and how often a handler was started for it.
-/

namespace Legba.Jobs

open Option Function JobStore

inductive LedgerWrite where
  | complete
  | fail
  deriving DecidableEq, Repr

def LedgerWrite.statement : LedgerWrite → Ledger → String → JobResult → Ledger
  | .complete => JobStore.complete
  | .fail => JobStore.fail

def LedgerWrite.status : LedgerWrite → LedgerStatus
  | .complete => .completed
  | .fail => .failed

theorem LedgerWrite.statement_eq_finish (write : LedgerWrite) :
    write.statement = JobStore.finish write.status := by
  cases write <;> rfl

theorem LedgerWrite.terminal_status (write : LedgerWrite) : write.status.terminal := by
  cases write <;> rfl

inductive Phase where
  | idle
  /-- between the two statements of `reap_stale_claims` -/
  | sweeping (reaped : List ReapedEntry)
  /-- in the loop of `_reenqueue_released` -/
  | reenqueueing (reaped : List ReapedEntry)
  | fetching
  | between
  /-- before the upsert of `claim`; an expired job carries its result -/
  | claiming (message : ℕ) (env : JobEnvelope) (expired : Option JobResult)
  /-- the upsert of `claim` matched nothing -/
  | claimLost (message : ℕ) (env : JobEnvelope) (expired : Option JobResult)
  /-- the claim was won, before the handler is looked up -/
  | held (message : ℕ) (env : JobEnvelope)
  | running (message : ℕ) (env : JobEnvelope)
  | writing (message : ℕ) (env : JobEnvelope) (write : LedgerWrite)
      (result : JobResult) (settlement : Settlement)
  | releasing (message : ℕ) (env : JobEnvelope)
  | settling (message : ℕ) (settlement : Settlement)

def Phase.holding : Phase → Option String
  | .held _ env => some env.idempotencyKey
  | .running _ env => some env.idempotencyKey
  | .writing _ env _ _ _ => some env.idempotencyKey
  | .releasing _ env => some env.idempotencyKey
  | _ => none

def Phase.pendingStart (phase : Phase) (key : String) : ℕ :=
  match phase with
  | .claiming _ env _ => if env.idempotencyKey = key then 1 else 0
  | .held _ env => if env.idempotencyKey = key then 1 else 0
  | _ => 0

structure WorkerState where
  batch : List Delivery := []
  phase : Phase := .idle

def WorkerState.pendingStarts (worker : WorkerState) (key : String) : ℕ :=
  (worker.batch.map fun delivery =>
    if delivery.key = some key then 1 else 0).sum + worker.phase.pendingStart key

/-! ## The plane -/

/-- The configuration of the pool; the lease is `_lease_seconds` unless given
otherwise. -/
structure JobPlane (Worker : Type) where
  workerId : Worker → String
  ackWaitSeconds : ℤ := 180
  maxDeliver : ℕ := 5
  leaseSeconds : ℤ := ackWaitSeconds * max 1 maxDeliver
  fetchBatch : ℕ := 8
  handles : String → Bool := fun jobKind => jobKind == "process_media"

structure JobPlaneState (Worker : Type) where
  now : Datetime := 0
  ledger : Ledger := .empty
  messages : List Message := []
  workers : Worker → WorkerState := fun _ => {}
  acquirer : String → Option Worker := fun _ => none
  starts : String → ℕ := fun _ => 0

/-- What the broker answers to a publish; `duplicate` is its
duplicate window. -/
inductive PublishOutcome where
  | stored
  | duplicate
  | raised
  deriving DecidableEq, Repr

inductive JobLabel (Worker : Type) where
  | clock (now : Datetime)
  /-- somebody's publish was stored -/
  | publish (body : Option JobEnvelope)
  | ackWait (message : ℕ)
  /-- the stream dropped an old message -/
  | evict (message : ℕ)
  | reapFailed (worker : Worker)
  | reapReleased (worker : Worker)
  | reenqueue (worker : Worker) (outcome : PublishOutcome)
  | fetch (worker : Worker)
  | deliver (worker : Worker) (message : ℕ)
  | fetched (worker : Worker)
  | take (worker : Worker) (now : Datetime)
  | drained (worker : Worker)
  | claim (worker : Worker)
  | readClaim (worker : Worker)
  | dispatch (worker : Worker) (now : Datetime)
  | handlerReturned (worker : Worker) (result : JobResult)
  | handlerRaised (worker : Worker) (error : String) (now : Datetime)
  | write (worker : Worker)
  | release (worker : Worker)
  | settle (worker : Worker) (reached : Bool)
  | abandon (worker : Worker)

def JobLabel.quiet {Worker : Type} : JobLabel Worker → Bool
  | .reenqueue .. | .fetch .. | .fetched .. | .take .. | .drained ..
  | .claim .. | .readClaim .. | .dispatch .. | .handlerReturned ..
  | .handlerRaised .. | .abandon .. => true
  | _ => false

variable {Worker : Type} [DecidableEq Worker]

def JobPlaneState.set (state : JobPlaneState Worker) (worker : Worker)
    (after : WorkerState) : JobPlaneState Worker :=
  { state with workers := update state.workers worker after }

def JobPlaneState.become (state : JobPlaneState Worker) (worker : Worker)
    (phase : Phase) : JobPlaneState Worker :=
  state.set worker { state.workers worker with phase := phase }

def JobPlane.expiredResult (plane : JobPlane Worker) (worker : Worker)
    (env : JobEnvelope) (now : Datetime) : Option JobResult :=
  if env.isExpired now then
    some { jobId := env.jobId, jobKind := env.jobKind, status := .expired
           error := some "past deadline", workerId := plane.workerId worker
           finishedAt := now }
  else none

def JobPlane.failedResult (plane : JobPlane Worker) (worker : Worker)
    (env : JobEnvelope) (error : String) (now : Datetime) : JobResult where
  jobId := env.jobId
  jobKind := env.jobKind
  status := .failed
  error := some error
  workerId := plane.workerId worker
  finishedAt := now

/-- The first two stages of `_process_msg`: parse, and check the deadline. -/
def JobPlane.received (plane : JobPlane Worker) (worker : Worker)
    (delivery : Delivery) (now : Datetime) : Phase :=
  match delivery.body with
  | none => .settling delivery.message .term
  | some body =>
    let env := { body with attempts := delivery.numDelivered }
    .claiming delivery.message env (plane.expiredResult worker env now)

/-- What follows the upsert of `claim`. -/
def Phase.claimed (message : ℕ) (env : JobEnvelope)
    (expired : Option JobResult) (acquired : Bool) : Phase :=
  if acquired then
    match expired with
    | some result => .writing message env .fail result .ack
    | none => .held message env
  else .claimLost message env expired

def Phase.notAcquired (message : ℕ) (expired : Option JobResult) (claim : ClaimResult) : Phase :=
  if expired.isSome then .settling message .ack
  else if claim.status = some .completed ∨ claim.status = some .failed then
    .settling message .ack
  else .settling message .nak

def JobPlane.handlerError (plane : JobPlane Worker) (worker : Worker)
    (message : ℕ) (env : JobEnvelope) (error : String) (now : Datetime) :
    Phase :=
  if env.attempts ≥ plane.maxDeliver then
    .writing message env .fail
      (plane.failedResult worker env ("handler error (final attempt): " ++ error) now) .term
  else .releasing message env

def JobPlane.step (plane : JobPlane Worker) (state : JobPlaneState Worker) :
    JobLabel Worker → Option (JobPlaneState Worker)
  | .clock now => some { state with now := now }
  | .publish body => some { state with messages := JobQueue.enqueue state.messages body }
  | .ackWait message => some { state with messages := JobQueue.requeue state.messages message }
  | .evict message => some { state with messages := JobQueue.remove state.messages message }
  | .reapFailed worker =>
    match (state.workers worker).phase with
    | .idle =>
      let (ledger, reaped) := reapFailed state.ledger state.now
        plane.leaseSeconds plane.maxDeliver (plane.workerId worker)
      some { state.become worker (.sweeping reaped) with ledger := ledger }
    | _ => none
  | .reapReleased worker =>
    match (state.workers worker).phase with
    | .sweeping reaped =>
      let (ledger, released) := reapReleased state.ledger
        state.now plane.leaseSeconds plane.maxDeliver
      some { state.become worker (.reenqueueing (reaped ++ released)) with
        ledger := ledger }
    | _ => none
  | .reenqueue worker outcome =>
    match (state.workers worker).phase with
    | .reenqueueing (entry :: rest) =>
      let next := state.become worker (.reenqueueing rest)
      if entry.disposition ≠ .released then some next
      else
        match entry.envelope, outcome with
        | some env, .stored =>
          some { next with
            messages := JobQueue.enqueue state.messages (some env) }
        | some env, .duplicate =>
          if 0 < JobQueue.published state.messages env.idempotencyKey then
            some next
          else none
        | _, _ => some next
    | _ => none
  | .fetch worker =>
    match (state.workers worker).phase with
    | .idle => some (state.become worker .fetching)
    | .reenqueueing [] => some (state.become worker .fetching)
    | _ => none
  | .deliver worker message =>
    match (state.workers worker).phase with
    | .fetching =>
      if (state.workers worker).batch.length < plane.fetchBatch then
        match JobQueue.deliver plane.maxDeliver state.messages message with
        | some (messages, delivery) =>
          some { state.set worker
              { batch := (state.workers worker).batch ++ [delivery]
                phase := .fetching } with
            messages := messages }
        | none => none
      else none
    | _ => none
  | .fetched worker =>
    match (state.workers worker).phase with
    | .fetching => some (state.become worker .between)
    | _ => none
  | .take worker now =>
    match state.workers worker with
    | ⟨delivery :: rest, .between⟩ =>
      some (state.set worker
        { batch := rest, phase := plane.received worker delivery now })
    | _ => none
  | .drained worker =>
    match state.workers worker with
    | ⟨[], .between⟩ => some (state.become worker .idle)
    | _ => none
  | .claim worker =>
    match (state.workers worker).phase with
    | .claiming message env expired =>
      let (ledger, acquired) := claim state.ledger env state.now
      let next := state.become worker (.claimed message env expired acquired)
      if acquired then
        some { next with
          ledger := ledger
          acquirer := update state.acquirer env.idempotencyKey
            (some worker) }
      else some next
    | _ => none
  | .readClaim worker =>
    match (state.workers worker).phase with
    | .claimLost message env expired =>
      some (state.become worker (.notAcquired message expired
        (claimState state.ledger env)))
    | _ => none
  | .dispatch worker now =>
    match (state.workers worker).phase with
    | .held message env =>
      if plane.handles env.jobKind then
        some { state.become worker (.running message env) with
          starts := update state.starts env.idempotencyKey
            (state.starts env.idempotencyKey + 1) }
      else
        some (state.become worker (.writing message env .fail
          (plane.failedResult worker env
            ("no handler for kind '" ++ env.jobKind ++ "'") now) .term))
    | _ => none
  | .handlerReturned worker result =>
    match (state.workers worker).phase with
    | .running message env =>
      some (state.become worker (.writing message env
        (if result.status = .completed then .complete else .fail) result
        .ack))
    | _ => none
  | .handlerRaised worker error now =>
    match (state.workers worker).phase with
    | .running message env =>
      some (state.become worker (plane.handlerError worker message env error now))
    | _ => none
  | .write worker =>
    match (state.workers worker).phase with
    | .writing message env write result settlement =>
      some { state.become worker (.settling message settlement) with
        ledger := write.statement state.ledger env.idempotencyKey result }
    | _ => none
  | .release worker =>
    match (state.workers worker).phase with
    | .releasing message env =>
      some { state.become worker (.settling message .nak) with
        ledger := release state.ledger env.idempotencyKey }
    | _ => none
  | .settle worker reached =>
    match (state.workers worker).phase with
    | .settling message settlement =>
      some { state.become worker .between with
        messages :=
          if reached then JobQueue.settle state.messages message settlement
          else state.messages }
    | _ => none
  | .abandon worker => some (state.set worker {})

/-! ## What a step can do -/

/-- Everything a step can do.  The last constructor collects the steps after
which a worker holds and awaits no more than before, and nothing else
changed. -/
inductive JobPlane.Transition (plane : JobPlane Worker)
    (state : JobPlaneState Worker) :
    JobLabel Worker → JobPlaneState Worker → Prop where
  | clock (now : Datetime) : plane.Transition state (.clock now) { state with now := now }
  | published (body : Option JobEnvelope) :
      plane.Transition state (.publish body)
        { state with messages := JobQueue.enqueue state.messages body }
  | requeued (message : ℕ) :
      plane.Transition state (.ackWait message)
        { state with messages := JobQueue.requeue state.messages message }
  | evicted (message : ℕ) :
      plane.Transition state (.evict message)
        { state with messages := JobQueue.remove state.messages message }
  | reapedFailed (worker : Worker)
      (hphase : (state.workers worker).phase = .idle) :
      plane.Transition state (.reapFailed worker)
        { state.become worker (.sweeping (reapFailed state.ledger
            state.now plane.leaseSeconds plane.maxDeliver
            (plane.workerId worker)).2) with
          ledger := (reapFailed state.ledger state.now
            plane.leaseSeconds plane.maxDeliver (plane.workerId worker)).1 }
  | reapedReleased (worker : Worker) (reaped : List ReapedEntry)
      (hphase : (state.workers worker).phase = .sweeping reaped) :
      plane.Transition state (.reapReleased worker)
        { state.become worker (.reenqueueing (reaped ++
            (reapReleased state.ledger state.now plane.leaseSeconds
              plane.maxDeliver).2)) with
          ledger := (reapReleased state.ledger state.now
            plane.leaseSeconds plane.maxDeliver).1 }
  | reenqueued (worker : Worker) (entry : ReapedEntry)
      (rest : List ReapedEntry) (env : JobEnvelope)
      (hphase : (state.workers worker).phase = .reenqueueing (entry :: rest))
      (henv : entry.envelope = some env) :
      plane.Transition state (.reenqueue worker .stored)
        { state.become worker (.reenqueueing rest) with
          messages := JobQueue.enqueue state.messages (some env) }
  | delivered (worker : Worker) (index : ℕ) (message : Message)
      (delivery : Delivery)
      (hphase : (state.workers worker).phase = .fetching)
      (hmessage : state.messages[index]? = some message)
      (hdeliverable : message.Deliverable plane.maxDeliver)
      (hkey : delivery.key = message.key) :
      plane.Transition state (.deliver worker index)
        { state.set worker
            { batch := (state.workers worker).batch ++ [delivery]
              phase := .fetching } with
          messages := state.messages.modify index Message.delivered }
  | claimWon (worker : Worker) (message : ℕ) (env : JobEnvelope)
      (expired : Option JobResult)
      (hphase : (state.workers worker).phase = .claiming message env expired)
      (hwon : (claim state.ledger env state.now).2 = true) :
      plane.Transition state (.claim worker)
        { state.become worker (.claimed message env expired true) with
          ledger := (claim state.ledger env state.now).1
          acquirer := update state.acquirer env.idempotencyKey
            (some worker) }
  | started (worker : Worker) (now : Datetime) (message : ℕ)
      (env : JobEnvelope)
      (hphase : (state.workers worker).phase = .held message env) :
      plane.Transition state (.dispatch worker now)
        { state.become worker (.running message env) with
          starts := update state.starts env.idempotencyKey
            (state.starts env.idempotencyKey + 1) }
  | written (worker : Worker) (message : ℕ) (env : JobEnvelope)
      (write : LedgerWrite) (result : JobResult) (settlement : Settlement)
      (hphase : (state.workers worker).phase = .writing message env write result settlement) :
      plane.Transition state (.write worker)
        { state.become worker (.settling message settlement) with
          ledger := finish write.status state.ledger
            env.idempotencyKey result }
  | released (worker : Worker) (message : ℕ) (env : JobEnvelope)
      (hphase : (state.workers worker).phase = .releasing message env) :
      plane.Transition state (.release worker)
        { state.become worker (.settling message .nak) with
          ledger := release state.ledger env.idempotencyKey }
  | settled (worker : Worker) (reached : Bool) (message : ℕ)
      (settlement : Settlement)
      (hphase : (state.workers worker).phase = .settling message settlement) :
      plane.Transition state (.settle worker reached)
        { state.become worker .between with
          messages :=
            if reached then JobQueue.settle state.messages message settlement
            else state.messages }
  | moved (label : JobLabel Worker) (worker : Worker) (after : WorkerState)
      (hquiet : label.quiet = true)
      (hholding : ∀ key, after.phase.holding = some key →
        (state.workers worker).phase.holding = some key)
      (hpending : ∀ key, after.pendingStarts key ≤ (state.workers worker).pendingStarts key) :
      plane.Transition state label (state.set worker after)

omit [DecidableEq Worker] in
theorem JobPlane.received_holding (plane : JobPlane Worker) (worker : Worker) (delivery : Delivery)
    (now : Datetime) : (plane.received worker delivery now).holding = none := by
  unfold JobPlane.received
  cases delivery.body <;> rfl

omit [DecidableEq Worker] in
theorem JobPlane.received_pendingStart (plane : JobPlane Worker)
    (worker : Worker) (delivery : Delivery) (now : Datetime) (key : String) :
    (plane.received worker delivery now).pendingStart key ≤
      if delivery.key = some key then 1 else 0 := by
  unfold JobPlane.received
  cases hbody : delivery.body with
  | none => exact Nat.zero_le _
  | some env => simp [Phase.pendingStart, Delivery.key, hbody]

theorem Phase.notAcquired_eq (message : ℕ) (expired : Option JobResult) (claim : ClaimResult) :
    ∃ settlement, Phase.notAcquired message expired claim = .settling message settlement := by
  unfold Phase.notAcquired
  split
  · exact ⟨_, rfl⟩
  · split <;> exact ⟨_, rfl⟩

omit [DecidableEq Worker] in
theorem JobPlane.handlerError_holding (plane : JobPlane Worker) (worker : Worker)
    (message : ℕ) (env : JobEnvelope) (error : String) (now : Datetime) :
    (plane.handlerError worker message env error now).holding = some env.idempotencyKey := by
  unfold JobPlane.handlerError
  split <;> rfl

omit [DecidableEq Worker] in
theorem JobPlane.handlerError_pendingStart (plane : JobPlane Worker) (worker : Worker) (message : ℕ)
    (env : JobEnvelope) (error : String) (now : Datetime) (key : String) :
    (plane.handlerError worker message env error now).pendingStart key = 0 := by
  unfold JobPlane.handlerError
  split <;> rfl

variable {state : JobPlaneState Worker} {label : JobLabel Worker}
  {worker : Worker} {phase : Phase}

theorem JobPlane.Transition.become (plane : JobPlane Worker) (hquiet : label.quiet)
    (hholding : ∀ key, phase.holding = some key → (state.workers worker).phase.holding = some key)
    (hpending : ∀ key, phase.pendingStart key ≤ (state.workers worker).phase.pendingStart key) :
    plane.Transition state label (state.become worker phase) :=
  .moved label worker _ hquiet hholding fun key => Nat.add_le_add_left (hpending key) _

theorem JobPlane.Transition.becomeFree (plane : JobPlane Worker) (hquiet : label.quiet)
    (hholding : phase.holding = none) (hpending : ∀ key, phase.pendingStart key = 0) :
    plane.Transition state label (state.become worker phase) :=
  .become plane hquiet (fun _ hkey => by rw [hholding] at hkey; contradiction)
    fun key => (hpending key).trans_le (Nat.zero_le _)

theorem JobPlane.step_transition {plane : JobPlane Worker} {next : JobPlaneState Worker}
    (hstep : plane.step state label = some next) : plane.Transition state label next := by
  cases label with
  | clock now =>
    obtain rfl := some.inj hstep
    exact .clock now
  | publish body =>
    obtain rfl := some.inj hstep
    exact .published body
  | ackWait message =>
    obtain rfl := some.inj hstep
    exact .requeued message
  | evict message =>
    obtain rfl := some.inj hstep
    exact .evicted message
  | reapFailed worker =>
    simp only [JobPlane.step] at hstep
    split at hstep
    · rename_i hphase
      obtain rfl := some.inj hstep
      exact .reapedFailed worker hphase
    · contradiction
  | reapReleased worker =>
    simp only [JobPlane.step] at hstep
    split at hstep
    · rename_i reaped hphase
      obtain rfl := some.inj hstep
      exact .reapedReleased worker reaped hphase
    · contradiction
  | reenqueue worker outcome =>
    have hmoved : ∀ rest, plane.Transition state (.reenqueue worker outcome)
        (state.become worker (.reenqueueing rest)) := fun rest =>
      .becomeFree plane rfl rfl fun _ => rfl
    simp only [JobPlane.step] at hstep
    split at hstep
    · rename_i entry rest hphase
      split at hstep
      · obtain rfl := some.inj hstep
        exact hmoved rest
      · split at hstep
        · rename_i env henv
          obtain rfl := some.inj hstep
          exact .reenqueued worker entry rest env hphase henv
        · split at hstep
          · obtain rfl := some.inj hstep
            exact hmoved rest
          · contradiction
        · obtain rfl := some.inj hstep
          exact hmoved rest
    · contradiction
  | fetch worker =>
    have hmoved : plane.Transition state (.fetch worker) (state.become worker .fetching) :=
      .becomeFree plane rfl rfl fun _ => rfl
    simp only [JobPlane.step] at hstep
    split at hstep
    · obtain rfl := some.inj hstep
      exact hmoved
    · obtain rfl := some.inj hstep
      exact hmoved
    · contradiction
  | deliver worker index =>
    simp only [JobPlane.step] at hstep
    split at hstep
    · rename_i hphase
      split at hstep
      · split at hstep
        · rename_i messages delivery hdeliver
          obtain ⟨message, hmessage, hdeliverable, hafter, hkey⟩ :=
            JobQueue.deliver_eq_some hdeliver
          obtain rfl := some.inj hstep
          subst hafter
          exact .delivered worker index message delivery hphase hmessage hdeliverable hkey
        · contradiction
      · contradiction
    · contradiction
  | fetched worker =>
    simp only [JobPlane.step] at hstep
    split at hstep
    · obtain rfl := some.inj hstep
      exact .becomeFree plane rfl rfl fun _ => rfl
    · contradiction
  | take worker now =>
    simp only [JobPlane.step] at hstep
    split at hstep
    · rename_i delivery rest hworker
      obtain rfl := some.inj hstep
      apply JobPlane.Transition.moved _ _ _ rfl
      · intro key hkey
        rw [plane.received_holding] at hkey
        contradiction
      · intro key
        have hstart := plane.received_pendingStart worker delivery now key
        simp only [WorkerState.pendingStarts, hworker, List.map_cons, List.sum_cons]
        omega
    · contradiction
  | drained worker =>
    simp only [JobPlane.step] at hstep
    split at hstep
    · obtain rfl := some.inj hstep
      exact .becomeFree plane rfl rfl fun _ => rfl
    · contradiction
  | claim worker =>
    simp only [JobPlane.step] at hstep
    split at hstep
    · rename_i message env expired hphase
      split at hstep
      · rename_i hwon
        obtain rfl := some.inj hstep
        rw [hwon]
        exact .claimWon worker message env expired hphase hwon
      · rename_i hlost
        have hlost' : (claim state.ledger env state.now).2 =
            false := by simpa using hlost
        obtain rfl := some.inj hstep
        rw [hlost']
        exact .becomeFree plane rfl rfl fun _ => rfl
    · contradiction
  | readClaim worker =>
    simp only [JobPlane.step] at hstep
    split at hstep
    · rename_i message env expired hphase
      obtain ⟨settlement, hsettling⟩ := Phase.notAcquired_eq message expired
        (claimState state.ledger env)
      obtain rfl := some.inj hstep
      rw [hsettling]
      exact .becomeFree plane rfl rfl fun _ => rfl
    · contradiction
  | dispatch worker now =>
    simp only [JobPlane.step] at hstep
    split at hstep
    · rename_i message env hphase
      split at hstep
      · obtain rfl := some.inj hstep
        exact .started worker now message env hphase
      · obtain rfl := some.inj hstep
        apply JobPlane.Transition.become plane rfl
        · intro key hkey
          rw [hphase]
          exact hkey
        · exact fun _ => Nat.zero_le _
    · contradiction
  | handlerReturned worker result =>
    simp only [JobPlane.step] at hstep
    split at hstep
    · rename_i message env hphase
      obtain rfl := some.inj hstep
      apply JobPlane.Transition.become plane rfl
      · intro key hkey
        rw [hphase]
        exact hkey
      · exact fun _ => Nat.zero_le _
    · contradiction
  | handlerRaised worker error now =>
    simp only [JobPlane.step] at hstep
    split at hstep
    · rename_i message env hphase
      obtain rfl := some.inj hstep
      apply JobPlane.Transition.become plane rfl
      · intro key hkey
        rw [plane.handlerError_holding] at hkey
        rw [hphase]
        exact hkey
      · intro key
        rw [plane.handlerError_pendingStart]
        exact Nat.zero_le _
    · contradiction
  | write worker =>
    simp only [JobPlane.step] at hstep
    split at hstep
    · rename_i message env write result settlement hphase
      obtain rfl := some.inj hstep
      rw [write.statement_eq_finish]
      exact .written worker message env write result settlement hphase
    · contradiction
  | release worker =>
    simp only [JobPlane.step] at hstep
    split at hstep
    · rename_i message env hphase
      obtain rfl := some.inj hstep
      exact .released worker message env hphase
    · contradiction
  | settle worker reached =>
    simp only [JobPlane.step] at hstep
    split at hstep
    · rename_i message settlement hphase
      obtain rfl := some.inj hstep
      exact .settled worker reached message settlement hphase
    · contradiction
  | abandon worker =>
    obtain rfl := some.inj hstep
    apply JobPlane.Transition.moved _ _ _ rfl
    · intro key hkey
      contradiction
    · exact fun _ => Nat.zero_le _

end Legba.Jobs
