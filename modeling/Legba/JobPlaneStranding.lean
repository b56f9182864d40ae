import Legba.JobLedgerFinality

/-!
# Stranded jobs

A job is stranded when its row is neither terminal nor claimed and the queue
cannot deliver a message of its key any more: no sweep selects a released row,
and only a delivery can claim it again.  Rows become released by `release` and
by the reaper, before the re-enqueue is tried; messages stop being deliverable
by their last delivery and by being settled or evicted.
-/

namespace Legba.Jobs

open LabelledRun JobQueue Option JobStore

variable {Worker : Type} [DecidableEq Worker]

def NoStrandedJob (plane : JobPlane Worker) (state : JobPlaneState Worker) :
    Prop :=
  ∀ key row, state.ledger.row? key = some row → row.status.terminal = false →
    row.status = .claimed ∨ HasDeliverable plane.maxDeliver state.messages key

/-- If the key of the message is released, the message stays deliverable under
the change, or another message of the key is. -/
def SparesLastMessage (plane : JobPlane Worker) (state : JobPlaneState Worker)
    (index : ℕ) (change : Message → Message) : Prop :=
  ∀ message key row, state.messages[index]? = some message →
    message.key = some key → state.ledger.row? key = some row →
    row.status = .released →
    (change message).Deliverable plane.maxDeliver ∨
      OtherDeliverable plane.maxDeliver state.messages index key

/-- A row is released only while a message of its key can be delivered, and
the last such message of a released row is spared. -/
def KeepsReleasedDeliverable (plane : JobPlane Worker)
    (state : JobPlaneState Worker) (label : JobLabel Worker)
    (_next : JobPlaneState Worker) : Prop :=
  match label with
  | .release worker =>
    match (state.workers worker).phase with
    | .releasing _ env =>
      ∀ row, state.ledger.row? env.idempotencyKey = some row →
        row.status = .claimed →
        HasDeliverable plane.maxDeliver state.messages env.idempotencyKey
    | _ => True
  | .reapReleased _ =>
    ∀ key row, state.ledger.row? key = some row →
      selectsReleased state.now plane.leaseSeconds plane.maxDeliver row = true →
      HasDeliverable plane.maxDeliver state.messages key
  | .deliver _ index => SparesLastMessage plane state index Message.delivered
  | .evict index => SparesLastMessage plane state index Message.settled
  | .settle worker reached =>
    match (state.workers worker).phase with
    | .settling index settlement =>
      reached = true → SparesLastMessage plane state index settlement.change
    | _ => True
  | _ => True

theorem status_of_open {status : LedgerStatus} (hopen : status.terminal = false) :
    status = .claimed ∨ status = .released := by
  cases status with
  | claimed => exact .inl rfl
  | released => exact .inr rfl
  | completed => contradiction
  | failed => contradiction

variable {plane : JobPlane Worker} {state next : JobPlaneState Worker}
  {label : JobLabel Worker}

omit [DecidableEq Worker] in
theorem noStrandedJob_iff :
    NoStrandedJob plane state ↔
      ∀ key row, state.ledger.row? key = some row → row.status = .released →
        HasDeliverable plane.maxDeliver state.messages key := by
  constructor
  · intro h key row hrow hreleased
    have hopen : row.status.terminal = false := by
      rw [hreleased]
      rfl
    rcases h key row hrow hopen with hclaimed | hdeliverable
    · rw [hreleased] at hclaimed
      contradiction
    · exact hdeliverable
  · intro h key row hrow hopen
    exact (status_of_open hopen).imp_right (h key row hrow)

omit [DecidableEq Worker] in
theorem noStrandedJob_of_same (hkept : NoStrandedJob plane state)
    (hledger : next.ledger = state.ledger)
    (hmessages : next.messages = state.messages) : NoStrandedJob plane next := by
  unfold NoStrandedJob
  rw [hledger, hmessages]
  exact hkept

omit [DecidableEq Worker] in
theorem noStrandedJob_of_rows (hkept : NoStrandedJob plane state)
    (hmessages : next.messages = state.messages)
    (hrows : ∀ key after, next.ledger.row? key = some after → after.status = .released →
      state.ledger.row? key = some after) : NoStrandedJob plane next := by
  rw [noStrandedJob_iff] at hkept ⊢
  intro key after hafter hreleased
  rw [hmessages]
  exact hkept key after (hrows key after hafter hreleased) hreleased

omit [DecidableEq Worker] in
theorem noStrandedJob_enqueue (hkept : NoStrandedJob plane state)
    (hledger : next.ledger = state.ledger) {body : Option JobEnvelope}
    (hmessages : next.messages = enqueue state.messages body) : NoStrandedJob plane next := by
  rw [noStrandedJob_iff] at hkept ⊢
  intro key row hrow hreleased
  rw [hledger] at hrow
  rw [hmessages]
  exact (hkept key row hrow hreleased).enqueue body

omit [DecidableEq Worker] in
theorem noStrandedJob_modify_iff (hkept : NoStrandedJob plane state)
    (hledger : next.ledger = state.ledger) {index : ℕ} {change : Message → Message}
    (hkey : ∀ message, (change message).key = message.key)
    (hmessages : next.messages = state.messages.modify index change) :
    NoStrandedJob plane next ↔ SparesLastMessage plane state index change := by
  rw [noStrandedJob_iff] at hkept ⊢
  rw [hledger, hmessages]
  constructor
  · intro hnext message key row hmessage hmessageKey hrow hreleased
    rcases (hasDeliverable_modify_iff hkey).mp (hnext key row hrow hreleased)
      with hother | ⟨same, hsame, _, hdeliverable⟩
    · exact .inr hother
    · rw [hmessage] at hsame
      obtain rfl := some.inj hsame
      exact .inl hdeliverable
  · intro hspares key row hrow hreleased
    apply (hasDeliverable_modify_iff hkey).mpr
    rcases (hasDeliverable_iff index).mp (hkept key row hrow hreleased) with
      hother | ⟨message, hmessage, hmessageKey, _⟩
    · exact .inl hother
    · rcases hspares message key row hmessage hmessageKey hrow hreleased with hdeliverable | hother
      · exact .inr ⟨message, hmessage, hmessageKey, hdeliverable⟩
      · exact .inl hother

omit [DecidableEq Worker] in
theorem keepsReleasedDeliverable_of_quiet (hquiet : label.quiet) :
    KeepsReleasedDeliverable plane state label next := by
  cases label <;> trivial

theorem noStrandedJob_step_iff (hkept : NoStrandedJob plane state)
    (hstep : plane.step state label = some next) :
    NoStrandedJob plane next ↔ KeepsReleasedDeliverable plane state label next := by
  cases JobPlane.step_transition hstep with
  | clock now => exact iff_of_true (noStrandedJob_of_same hkept rfl rfl) trivial
  | published body => exact iff_of_true (noStrandedJob_enqueue hkept rfl rfl) trivial
  | requeued message =>
    refine iff_of_true ?_ trivial
    rw [noStrandedJob_iff] at hkept ⊢
    intro key row hrow hreleased
    exact hasDeliverable_requeue_iff.mpr (hkept key row hrow hreleased)
  | evicted message => exact noStrandedJob_modify_iff hkept (by rfl) Message.key_settled (by rfl)
  | reapedFailed worker hphase =>
    refine iff_of_true (noStrandedJob_of_rows hkept rfl ?_) trivial
    intro key after hafter hreleased
    exact row?_of_reapFailed_released hafter hreleased
  | reapedReleased worker reaped hphase =>
    rw [noStrandedJob_iff] at hkept ⊢
    constructor
    · intro hnext key row hrow hselected
      exact hnext key _ (row?_reapReleased_of_selected hrow hselected) rfl
    · intro hgood key after hafter hreleased
      rcases row?_of_reapReleased hafter with hsame | hflipped
      · exact hkept key after hsame hreleased
      · obtain ⟨row, hrow, hselected, _⟩ := hflipped
        exact hgood key row hrow hselected
  | reenqueued worker entry rest env hphase henv =>
    exact iff_of_true (noStrandedJob_enqueue hkept rfl rfl) trivial
  | delivered worker index message delivery hphase hmessage hdeliverable hkey =>
    exact noStrandedJob_modify_iff hkept (by rfl) Message.key_delivered (by rfl)
  | claimWon worker message env expired hphase hwon =>
    refine iff_of_true (noStrandedJob_of_rows hkept rfl ?_) trivial
    intro key after hafter hreleased
    by_cases hkey : key = env.idempotencyKey
    · subst hkey
      obtain ⟨row, hput, hstatus, _, _⟩ := claim_won hwon
      change (claim state.ledger env state.now).1.row? _ = _ at hafter
      rw [hput, KeyedTable.Table.row?_put_self] at hafter
      obtain rfl := some.inj hafter
      rw [hstatus] at hreleased
      contradiction
    · exact (row?_claim_of_ne hkey _).symm.trans hafter
  | started worker now message env hphase =>
    exact iff_of_true (noStrandedJob_of_same hkept rfl rfl) trivial
  | written worker message env write result settlement hphase =>
    refine iff_of_true (noStrandedJob_of_rows hkept rfl ?_) trivial
    intro key after hafter hreleased
    apply row?_of_finish hafter
    intro hstatus
    have hterminal := write.terminal_status
    rw [← hstatus, hreleased] at hterminal
    contradiction
  | released worker message env hphase =>
    simp only [KeepsReleasedDeliverable, hphase]
    rw [noStrandedJob_iff] at hkept ⊢
    constructor
    · intro hnext row hrow hclaimed
      have hafter := row?_release_self hrow
      rw [if_pos hclaimed] at hafter
      exact hnext env.idempotencyKey _ hafter rfl
    · intro hgood key after hafter hreleased
      rcases row?_of_release hafter with hsame | hclaimed
      · exact hkept key after hsame hreleased
      · obtain ⟨heq, row, hrow, hstatus⟩ := hclaimed
        subst heq
        exact hgood row hrow hstatus
  | settled worker reached message settlement hphase =>
    simp only [KeepsReleasedDeliverable, hphase]
    cases reached with
    | false =>
      exact iff_of_true (noStrandedJob_of_same hkept rfl rfl)
        fun h => by contradiction
    | true =>
      simp only [if_true, forall_const]
      exact noStrandedJob_modify_iff hkept (by rfl) settlement.key_change
        (settle_eq_modify state.messages message settlement)
  | moved label worker after hquiet hholding hpending =>
    exact iff_of_true (noStrandedJob_of_same hkept rfl rfl)
      (keepsReleasedDeliverable_of_quiet hquiet)

theorem sweep_skips_released {ledger : Ledger} {key : String} {row : LedgerRow}
    (hrow : ledger.row? key = some row) (hreleased : row.status = .released)
    (now : Datetime) (leaseSeconds : ℤ) (maxDeliver : ℕ) (reaperId : String) :
    let failed := reapFailed ledger now leaseSeconds maxDeliver reaperId
    let released := reapReleased failed.1 now leaseSeconds maxDeliver
    released.1.row? key = some row ∧
      ∀ entry ∈ failed.2 ++ released.2, entry.idempotencyKey ≠ key := by
  intro failed released
  have hnot : row.status ≠ .claimed := by
    rw [hreleased]
    decide
  have hskip := not_selected_of_not_claimed hnot now leaseSeconds maxDeliver
  have hfailed : failed.1.row? key = some row :=
    row?_reapFailed_of_not_selected hrow hskip.1 reaperId
  refine ⟨row?_reapReleased_of_not_selected hfailed hskip.2, ?_⟩
  intro entry hentry heq
  rcases List.mem_append.mp hentry with hfirst | hsecond
  · obtain ⟨other, hother, hselected⟩ := selected_of_mem_reapFailed hfirst
    rw [heq, hrow] at hother
    obtain rfl := some.inj hother
    exact hskip.1 hselected
  · obtain ⟨other, hother, hselected⟩ := selected_of_mem_reapReleased hsecond
    rw [heq, hfailed] at hother
    obtain rfl := some.inj hother
    exact hskip.2 hselected

/-- A run from an empty ledger visits no state with a stranded job exactly
when each of its steps keeps the released rows deliverable; and whatever the
run, no sweep picks a released row up. -/
theorem no_stranded_job_iff (plane : JobPlane Worker) (messages : List Message)
    (now : Datetime) (labels : List (JobLabel Worker)) :
    (VisitsOnly plane.step (NoStrandedJob plane)
        (JobPlaneState.restart Worker .empty messages now) labels ↔
      StepsSatisfy plane.step (KeepsReleasedDeliverable plane)
        (JobPlaneState.restart Worker .empty messages now) labels) ∧
    (∀ final,
      run plane.step (JobPlaneState.restart Worker .empty messages now) labels = some final →
      ∀ key row, final.ledger.row? key = some row →
        row.status = .released → ∀ worker : Worker,
        let failed := reapFailed final.ledger final.now
          plane.leaseSeconds plane.maxDeliver (plane.workerId worker)
        let released := reapReleased failed.1 final.now plane.leaseSeconds plane.maxDeliver
        released.1.row? key = some row ∧
          ∀ entry ∈ failed.2 ++ released.2, entry.idempotencyKey ≠ key) := by
  constructor
  · have htrue : ∀ (state : JobPlaneState Worker) label next, True →
        plane.step state label = some next → True :=
      fun _ _ _ _ _ => trivial
    have hexact : ∀ (state : JobPlaneState Worker) label next, True →
        NoStrandedJob plane state → plane.step state label = some next →
        (NoStrandedJob plane next ↔ KeepsReleasedDeliverable plane state label next) :=
      fun _ _ _ _ hkept hstep => noStrandedJob_step_iff hkept hstep
    have hstart : NoStrandedJob plane (JobPlaneState.restart Worker .empty messages now) :=
      fun key row hrow => by contradiction
    exact visitsOnly_iff_stepsSatisfy htrue hexact trivial hstart
  · intro final _ key row hrow hreleased worker
    exact sweep_skips_released hrow hreleased _ _ _ _

theorem no_stranded_job_iff_one_retry :
    VisitsOnly twoWorkers.step (NoStrandedJob twoWorkers)
      (JobPlaneState.restart (Fin 2) .empty [] 0)
      (.publish (some mediaJob) :: startLabels 0 0 ++
        [.handlerRaised 0 "timeout" 0, .release 0]) := by
  have hiff := no_stranded_job_iff twoWorkers [] 0
    (.publish (some mediaJob) :: startLabels 0 0 ++ [.handlerRaised 0 "timeout" 0, .release 0])
  apply hiff.1.mpr
  refine ⟨trivial, trivial, ?_, trivial, trivial, trivial, trivial, trivial, ?_, trivial⟩
  · intro _ _ _ _ _ hrow
    contradiction
  · intro _ _ _
    exact ⟨_, List.mem_singleton_self _, rfl, by decide, by decide⟩

def twoDeliveries : JobPlane (Fin 2) where
  workerId := fun _ => "w"
  maxDeliver := 2

/-- Worker 0 dies with the claim and worker 1 spends the second delivery on
the held claim.  The sweep then releases the row, its re-enqueue raises, and
the next sweep finds nothing: the row is released and the queue will not
deliver its key again. -/
theorem released_job_stranded :
    ∃ middle final,
      run twoDeliveries.step (JobPlaneState.restart (Fin 2) .empty [] 0)
          (.publish (some mediaJob) :: startLabels 0 0 ++
            [.abandon 0, .ackWait 0, .fetch 1, .deliver 1 0, .fetched 1,
              .take 1 0, .claim 1, .readClaim 1, .settle 1 true, .drained 1,
              .clock (seconds 361), .reapFailed 1, .reapReleased 1,
              .reenqueue 1 .raised]) = some middle ∧
      run twoDeliveries.step middle
          [.fetch 1, .fetched 1, .drained 1, .clock (seconds 722),
            .reapFailed 1, .reapReleased 1] = some final ∧
      ¬ NoStrandedJob twoDeliveries middle ∧
      (final.workers 1).phase = .reenqueueing [] ∧
      ¬ NoStrandedJob twoDeliveries final := by
  have hstranded : ∀ state : JobPlaneState (Fin 2),
      (state.ledger.row? "m").map LedgerRow.status = some .released →
      ¬ HasDeliverable 2 state.messages "m" →
      ¬ NoStrandedJob twoDeliveries state := by
    intro state hstatus hnone hkept
    obtain ⟨row, hrow, hreleased⟩ := map_eq_some_iff.mp hstatus
    exact hnone (noStrandedJob_iff.mp hkept "m" row hrow hreleased)
  exact ⟨_, _, rfl, rfl, hstranded _ rfl (by decide), rfl, hstranded _ rfl (by decide)⟩

end Legba.Jobs
