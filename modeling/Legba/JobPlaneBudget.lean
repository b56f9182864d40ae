import Legba.JobPlaneStranding

/-!
# How often a handler is started

Every start of a handler uses up one delivery: a delivery in a batch, and a
claim on the way, stand for at most one start each.  So a key is started at
most as often as its messages are delivered, which is at most `max_deliver`
times for each message published.  Nothing counts across messages: a reclaim
overwrites `attempts`, and a re-enqueue publishes a message with a fresh
count.
-/

namespace Legba.Jobs

open LabelledRun JobQueue List

variable {Worker : Type} [DecidableEq Worker] [Fintype Worker]

def JobPlaneState.pendingStarts (state : JobPlaneState Worker) (key : String) : ℕ :=
  ∑ worker, (state.workers worker).pendingStarts key

section

variable (state : JobPlaneState Worker) (worker : Worker)

theorem pendingStarts_set (after : WorkerState) (key : String) :
    (state.set worker after).pendingStarts key + (state.workers worker).pendingStarts key =
      state.pendingStarts key + after.pendingStarts key := by
  exact sum_update_add state.workers
    (fun worker => worker.pendingStarts key) worker after

theorem pendingStarts_become (phase : Phase) (key : String) :
    (state.become worker phase).pendingStarts key + (state.workers worker).phase.pendingStart key =
      state.pendingStarts key + phase.pendingStart key := by
  have hset : (state.become worker phase).pendingStarts key +
        (state.workers worker).pendingStarts key =
      state.pendingStarts key +
        (WorkerState.mk (state.workers worker).batch phase).pendingStarts key :=
    pendingStarts_set state worker _ key
  simp only [WorkerState.pendingStarts] at hset
  omega

theorem pendingStarts_become_le {phase : Phase} {key : String}
    (hphase : phase.pendingStart key = 0) :
    (state.become worker phase).pendingStarts key ≤ state.pendingStarts key := by
  have hbecome := pendingStarts_become state worker phase key
  omega

end

/-- The starts of a key, done and pending, are paid for by deliveries, and no
message is delivered beyond the budget. -/
structure StartBudget (plane : JobPlane Worker) (state : JobPlaneState Worker) : Prop where
  delivered : ∀ message ∈ state.messages, message.numDelivered ≤ plane.maxDeliver
  started : ∀ key, state.starts key + state.pendingStarts key ≤ totalDelivered state.messages key

omit [DecidableEq Worker] in
theorem startBudget_restart (plane : JobPlane Worker) (ledger : Ledger) (now : Datetime) :
    StartBudget plane (JobPlaneState.restart Worker ledger [] now) := by
  constructor
  · intro message hmessage
    contradiction
  · intro key
    have hnone : (JobPlaneState.restart Worker ledger [] now).pendingStarts key = 0 :=
      Finset.sum_eq_zero fun _ _ => rfl
    rw [hnone]
    rfl

variable {plane : JobPlane Worker} {state next : JobPlaneState Worker}
  {label : JobLabel Worker}

omit [DecidableEq Worker] in
theorem StartBudget.frame (hinv : StartBudget plane state)
    (hdelivered : ∀ message ∈ next.messages, message.numDelivered ≤
      plane.maxDeliver) (hstarts : next.starts = state.starts)
    (hpending : ∀ key, next.pendingStarts key ≤ state.pendingStarts key)
    (htotal : ∀ key, totalDelivered next.messages key = totalDelivered
      state.messages key) : StartBudget plane next := by
  refine ⟨hdelivered, ?_⟩
  intro key
  have hstarted := hinv.started key
  have hle := hpending key
  rw [hstarts, htotal]
  omega

omit [DecidableEq Worker] in
theorem StartBudget.enqueue (hinv : StartBudget plane state) (body : Option JobEnvelope) :
    ∀ message ∈ enqueue state.messages body, message.numDelivered ≤ plane.maxDeliver := by
  intro message hmessage
  rcases mem_append.mp hmessage with hold | hnew
  · exact hinv.delivered message hold
  · rw [mem_singleton.mp hnew]
    exact Nat.zero_le _

omit [DecidableEq Worker] in
theorem StartBudget.modify (hinv : StartBudget plane state) (index : ℕ) {change : Message → Message}
    (hcount : ∀ message, (change message).numDelivered = message.numDelivered) :
    ∀ message ∈ state.messages.modify index change, message.numDelivered ≤ plane.maxDeliver := by
  apply budget_modify hinv.delivered
  intro message hmessage
  rw [hcount]
  exact hinv.delivered message (mem_of_getElem? hmessage)

theorem StartBudget.step (hinv : StartBudget plane state)
    (hstep : plane.step state label = some next) : StartBudget plane next := by
  cases JobPlane.step_transition hstep with
  | clock now => exact ⟨hinv.delivered, hinv.started⟩
  | published body =>
    refine hinv.frame (hinv.enqueue body) rfl (fun _ => le_rfl) ?_
    exact fun key => totalDelivered_enqueue state.messages body key
  | requeued message =>
    refine hinv.frame (hinv.modify message Message.numDelivered_requeued) rfl
      (fun _ => le_rfl) ?_
    exact totalDelivered_modify_of_same Message.key_requeued Message.numDelivered_requeued
  | evicted message =>
    refine hinv.frame (hinv.modify message fun _ => rfl) rfl
      (fun _ => le_rfl) ?_
    exact totalDelivered_modify_of_same Message.key_settled fun _ => rfl
  | reapedFailed worker hphase =>
    refine hinv.frame hinv.delivered rfl ?_ (fun _ => rfl)
    exact fun key => pendingStarts_become_le state worker rfl
  | reapedReleased worker reaped hphase =>
    refine hinv.frame hinv.delivered rfl ?_ (fun _ => rfl)
    exact fun key => pendingStarts_become_le state worker rfl
  | reenqueued worker entry rest env hphase henv =>
    refine hinv.frame (hinv.enqueue (some env)) rfl ?_ ?_
    · exact fun key => pendingStarts_become_le state worker rfl
    · exact fun key => totalDelivered_enqueue state.messages (some env) key
  | delivered worker index message delivery hphase hmessage hdeliverable hkey =>
    constructor
    · apply budget_modify hinv.delivered
      intro same hsame
      rw [hmessage] at hsame
      obtain rfl := Option.some.inj hsame
      exact hdeliverable.2
    · intro key
      have hstarted := hinv.started key
      have hpending := pendingStarts_set state worker
        { batch := (state.workers worker).batch ++ [delivery]
          phase := .fetching } key
      have htotal := totalDelivered_modify hmessage (Message.key_delivered message) key
      simp only [WorkerState.pendingStarts, hphase, Phase.pendingStart, map_append,
        sum_append, map_singleton, sum_singleton, hkey] at hpending
      rw [Message.numDelivered_delivered] at htotal
      change state.starts key + (state.set worker _).pendingStarts key ≤
        totalDelivered (state.messages.modify index _) key
      by_cases hmatch : message.key = some key
      · simp only [if_pos hmatch] at hpending htotal
        omega
      · simp only [if_neg hmatch] at hpending htotal
        omega
  | claimWon worker message env expired hphase hwon =>
    refine hinv.frame hinv.delivered rfl ?_ (fun _ => rfl)
    intro key
    have hbecome := pendingStarts_become state worker (.claimed message env expired true) key
    have hclaimed : (Phase.claimed message env expired true).pendingStart
        key ≤ (state.workers worker).phase.pendingStart key := by
      rw [hphase]
      cases expired with
      | none => exact le_rfl
      | some result => exact Nat.zero_le _
    change (state.become worker _).pendingStarts key ≤ _
    omega
  | started worker now message env hphase =>
    refine ⟨hinv.delivered, ?_⟩
    intro key
    have hstarted := hinv.started key
    have hbecome := pendingStarts_become state worker (.running message env) key
    rw [hphase] at hbecome
    simp only [Phase.pendingStart] at hbecome
    change Function.update state.starts env.idempotencyKey _ key +
      (state.become worker _).pendingStarts key ≤
      totalDelivered state.messages key
    by_cases hkey : key = env.idempotencyKey
    · subst hkey
      rw [Function.update_self]
      simp only [if_true] at hbecome
      omega
    · rw [Function.update_of_ne hkey]
      omega
  | written worker message env write result settlement hphase =>
    refine hinv.frame hinv.delivered rfl ?_ (fun _ => rfl)
    exact fun key => pendingStarts_become_le state worker rfl
  | released worker message env hphase =>
    refine hinv.frame hinv.delivered rfl ?_ (fun _ => rfl)
    exact fun key => pendingStarts_become_le state worker rfl
  | settled worker reached message settlement hphase =>
    have hpending : ∀ key, (state.become worker .between).pendingStarts key ≤
        state.pendingStarts key :=
      fun key => pendingStarts_become_le state worker rfl
    cases reached with
    | false => exact hinv.frame hinv.delivered rfl hpending fun _ => rfl
    | true =>
      have hsettle := settle_eq_modify state.messages message settlement
      refine hinv.frame ?_ rfl hpending ?_
      · simp only [if_true, hsettle]
        exact hinv.modify message settlement.numDelivered_change
      · simp only [if_true, hsettle]
        exact totalDelivered_modify_of_same settlement.key_change settlement.numDelivered_change
  | moved label worker after hquiet hholding hpending =>
    refine hinv.frame hinv.delivered rfl ?_ (fun _ => rfl)
    intro key
    have hset := pendingStarts_set state worker after key
    have hle := hpending key
    omega

/-- The messages of the key are delivered within one budget: none is delivered
when all of them together were delivered `max_deliver` times. -/
def DeliversWithinBudget (plane : JobPlane Worker) (key : String)
    (state : JobPlaneState Worker) (label : JobLabel Worker)
    (_next : JobPlaneState Worker) : Prop :=
  match label with
  | .deliver _ index => ∀ message, state.messages[index]? = some message →
      message.key = some key →
      totalDelivered state.messages key < plane.maxDeliver
  | _ => True

omit [Fintype Worker] in
theorem totalDelivered_step_le {key : String}
    (hle : totalDelivered state.messages key ≤ plane.maxDeliver)
    (hstep : plane.step state label = some next)
    (hwithin : DeliversWithinBudget plane key state label next) :
    totalDelivered next.messages key ≤ plane.maxDeliver := by
  cases JobPlane.step_transition hstep with
  | delivered worker index message delivery hphase hmessage hdeliverable hkey =>
    have htotal := totalDelivered_modify hmessage (Message.key_delivered message) key
    rw [Message.numDelivered_delivered] at htotal
    change totalDelivered (state.messages.modify index _) key ≤ _
    by_cases hmatch : message.key = some key
    · have hspare := hwithin message hmessage hmatch
      simp only [if_pos hmatch] at htotal
      omega
    · simp only [if_neg hmatch] at htotal
      omega
  | published body => exact (totalDelivered_enqueue state.messages body key).trans_le hle
  | requeued message =>
    exact (totalDelivered_modify_of_same Message.key_requeued
      Message.numDelivered_requeued key).trans_le hle
  | evicted message =>
    exact (totalDelivered_modify_of_same Message.key_settled
      (fun _ => rfl) key).trans_le hle
  | reenqueued worker entry rest env hphase henv =>
    exact (totalDelivered_enqueue state.messages (some env) key).trans_le hle
  | settled worker reached message settlement hphase =>
    cases reached with
    | false => exact hle
    | true =>
      have hsettle := settle_eq_modify state.messages message settlement
      simp only [if_true, hsettle]
      exact (totalDelivered_modify_of_same settlement.key_change
        settlement.numDelivered_change key).trans_le hle
  | _ => exact hle

/-- In every run the handler of a key is started at most `max_deliver` times
for each message published for it, and at most `max_deliver` times in all when
the messages of the key are delivered within one budget. -/
theorem handler_starts_within_budget (plane : JobPlane Worker) (ledger : Ledger) (now : Datetime)
    (labels : List (JobLabel Worker)) (final : JobPlaneState Worker)
    (hrun : run plane.step (JobPlaneState.restart Worker ledger [] now) labels = some final)
    (key : String) :
    final.starts key ≤ plane.maxDeliver * published final.messages key ∧
    (StepsSatisfy plane.step (DeliversWithinBudget plane key)
        (JobPlaneState.restart Worker ledger [] now) labels →
      final.starts key ≤ plane.maxDeliver) := by
  have hbudget : StartBudget plane final :=
    invariant_of_steps (fun _ _ _ hinv hstep => hinv.step hstep)
      (startBudget_restart plane ledger now) hrun
  have hstarted := hbudget.started key
  have hpublished := totalDelivered_le hbudget.delivered key
  constructor
  · omega
  · intro hwithin
    have htotal : totalDelivered final.messages key ≤ plane.maxDeliver :=
      invariant_of_goodSteps
        (fun _ _ _ hle hstep hwithin => totalDelivered_step_le hle hstep hwithin)
        (Nat.zero_le _) hrun hwithin
    omega

theorem handler_starts_within_budget_one_retry :
    ∃ final,
      run twoDeliveries.step (JobPlaneState.restart (Fin 2) .empty [] 0)
        (.publish (some mediaJob) :: startLabels 0 0 ++
          [.handlerRaised 0 "timeout" 0, .release 0, .settle 0 true] ++
          startLabels 1 0) = some final ∧
      final.starts "m" = 2 ∧ final.starts "m" ≤ twoDeliveries.maxDeliver := by
  have hstarts := handler_starts_within_budget twoDeliveries .empty 0
    (.publish (some mediaJob) :: startLabels 0 0 ++
      [.handlerRaised 0 "timeout" 0, .release 0, .settle 0 true] ++
      startLabels 1 0) _ rfl "m"
  exact ⟨_, rfl, rfl, hstarts.1⟩

/-- Worker 0 starts the handler and dies; after the lease worker 1 releases
the row and re-enqueues the job. -/
def crashLabels {Worker : Type} (holder sweeper : Worker) (message : ℕ)
    (now : Datetime) : List (JobLabel Worker) :=
  startLabels holder message ++
    [.abandon holder, .clock now, .reapFailed sweeper, .reapReleased sweeper,
      .reenqueue sweeper .stored, .fetch sweeper, .fetched sweeper,
      .drained sweeper]

/-- Three executions of one key under a budget of two deliveries, and the row
is still claimed: each re-enqueued message counts its deliveries from one, and
each reclaim writes that count over `attempts`. -/
theorem handler_started_beyond_budget :
    ∃ final,
      run twoDeliveries.step (JobPlaneState.restart (Fin 2) .empty [] 0)
        (.publish (some mediaJob) :: crashLabels 0 1 0 (seconds 361) ++
          crashLabels 0 1 1 (seconds 722) ++ startLabels 0 2) = some final ∧
      final.starts "m" = 3 ∧ twoDeliveries.maxDeliver = 2 ∧
      (final.ledger.row? "m").map LedgerRow.status = some .claimed ∧
      (final.ledger.row? "m").map LedgerRow.attempts = some 1 :=
  ⟨_, rfl, rfl, rfl, rfl, rfl⟩

end Legba.Jobs
