import Legba.JobClaimOwnership

/-!
# Terminal ledger rows

`claim`, `release` and both statements of the reaper re-check the status of
the row they write; `complete` and `fail` select by key alone.  A terminal row
therefore keeps its status and result as long as these two are not executed on
it, which is so while sweeps expire the claims of dead workers only.
-/

namespace Legba.Jobs

open LabelledRun JobStore

variable {Worker : Type} [DecidableEq Worker]

/-- A `complete` or `fail` is executed on a row which is still open. -/
def FinishesOpenRow (state : JobPlaneState Worker) (label : JobLabel Worker)
    (_next : JobPlaneState Worker) : Prop :=
  match label with
  | .write worker =>
    match (state.workers worker).phase with
    | .writing _ env _ _ _ =>
      ∀ row, state.ledger.row? env.idempotencyKey = some row → row.status.terminal = false
    | _ => True
  | _ => True

def JobPlaneState.Settled (state : JobPlaneState Worker) (key : String)
    (status : LedgerStatus) (result : Option JobResult) : Prop :=
  ∃ row, state.ledger.row? key = some row ∧ row.status = status ∧ row.result = result

variable {state next : JobPlaneState Worker} {label : JobLabel Worker}

theorem Settled.step {plane : JobPlane Worker} {key : String} {status : LedgerStatus}
    {result : Option JobResult} (hterminal : status.terminal)
    (hsettled : state.Settled key status result) (hstep : plane.step state label = some next)
    (hopen : FinishesOpenRow state label next) : next.Settled key status result := by
  obtain ⟨row, hrow, hstatus, hresult⟩ := hsettled
  have hnotClaimed : row.status ≠ .claimed := by
    intro hclaimed
    rw [← hstatus, hclaimed] at hterminal
    contradiction
  have hnotSelected := not_selected_of_not_claimed hnotClaimed
    state.now plane.leaseSeconds plane.maxDeliver
  cases JobPlane.step_transition hstep with
  | clock now => exact ⟨row, hrow, hstatus, hresult⟩
  | published body => exact ⟨row, hrow, hstatus, hresult⟩
  | requeued message => exact ⟨row, hrow, hstatus, hresult⟩
  | evicted message => exact ⟨row, hrow, hstatus, hresult⟩
  | reapedFailed worker hphase =>
    exact ⟨row, row?_reapFailed_of_not_selected hrow hnotSelected.1 _, hstatus, hresult⟩
  | reapedReleased worker reaped hphase =>
    exact ⟨row, row?_reapReleased_of_not_selected hrow hnotSelected.2, hstatus, hresult⟩
  | reenqueued worker entry rest env hphase henv => exact ⟨row, hrow, hstatus, hresult⟩
  | delivered worker index message delivery hphase hmessage hdeliverable hkey =>
    exact ⟨row, hrow, hstatus, hresult⟩
  | claimWon worker message env expired hphase hwon =>
    obtain ⟨_, _, _, _, hreleased⟩ := claim_won hwon
    have hkey : key ≠ env.idempotencyKey := by
      intro heq
      subst heq
      rw [← hstatus, hreleased row hrow] at hterminal
      contradiction
    exact ⟨row, (row?_claim_of_ne hkey _).trans hrow, hstatus, hresult⟩
  | started worker now message env hphase => exact ⟨row, hrow, hstatus, hresult⟩
  | written worker message env write newResult settlement hphase =>
    have hkey : key ≠ env.idempotencyKey := by
      intro heq
      subst heq
      simp only [FinishesOpenRow, hphase] at hopen
      have hstillOpen := hopen row hrow
      rw [hstatus, hterminal] at hstillOpen
      contradiction
    exact ⟨row, (row?_finish_of_ne hkey _ _).trans hrow, hstatus, hresult⟩
  | released worker message env hphase =>
    by_cases hkey : key = env.idempotencyKey
    · subst hkey
      have hafter := row?_release_self hrow
      rw [if_neg hnotClaimed] at hafter
      exact ⟨row, hafter, hstatus, hresult⟩
    · exact ⟨row, (row?_release_of_ne hkey).trans hrow, hstatus, hresult⟩
  | settled worker reached message settlement hphase => exact ⟨row, hrow, hstatus, hresult⟩
  | moved label worker after hquiet hholding hpending => exact ⟨row, hrow, hstatus, hresult⟩

omit [DecidableEq Worker] in
theorem OwnedClaims.finishesOpenRow (hinv : OwnedClaims state) :
    FinishesOpenRow state label next := by
  unfold FinishesOpenRow
  split
  · split
    · rename_i worker _ _ env _ _ _ hphase
      intro row hrow
      have hholds : state.Holds worker env.idempotencyKey := by
        unfold JobPlaneState.Holds
        rw [hphase]
        rfl
      obtain ⟨held, hheld, hclaimed, _⟩ := hinv.owned _ _ hholds
      rw [hrow] at hheld
      obtain rfl := Option.some.inj hheld
      rw [hclaimed]
      rfl
    · trivial
  · trivial

/-- Between any two states of a run which executes `complete` and `fail` on
open rows only, a terminal row keeps its status and its result.  A run whose
sweeps expire only claims of workers which stopped processing is of this
kind. -/
theorem terminal_rows_are_final (plane : JobPlane Worker) (ledger : Ledger)
    (messages : List Message) (now : Datetime) (labels : List (JobLabel Worker)) :
    (StepsSatisfy plane.step FinishesOpenRow
        (JobPlaneState.restart Worker ledger messages now) labels →
      ∀ before after, labels = before ++ after →
      ∀ middle final,
        run plane.step (JobPlaneState.restart Worker ledger messages now) before = some middle →
        run plane.step middle after = some final →
      ∀ key row, middle.ledger.row? key = some row →
        row.status.terminal = true →
        ∃ later, final.ledger.row? key = some later ∧
          later.status = row.status ∧ later.result = row.result) ∧
    (StepsSatisfy plane.step (SparesHolders plane)
        (JobPlaneState.restart Worker ledger messages now) labels →
      StepsSatisfy plane.step FinishesOpenRow
        (JobPlaneState.restart Worker ledger messages now) labels) := by
  constructor
  · intro hopen before after hsplit middle final hbefore hafter key row hrow hterminal
    rw [hsplit] at hopen
    have hopenAfter := ((stepsSatisfy_append hbefore).mp hopen).2
    have hsettled : middle.Settled key row.status row.result := ⟨row, hrow, rfl, rfl⟩
    exact invariant_of_goodSteps
      (fun _ _ _ hsettled hstep hopen => Settled.step hterminal hsettled hstep hopen)
      hsettled hafter hopenAfter
  · intro hspares
    exact stepsSatisfy_of_invariant (fun _ _ _ hinv hstep hspares =>
      OwnedClaims.step hinv hstep hspares) (fun _ _ _ hinv _ _ =>
      hinv.finishesOpenRow) (ownedClaims_restart ledger messages now) hspares

def startLabels {Worker : Type} (worker : Worker) (message : ℕ) : List (JobLabel Worker) :=
  [.fetch worker, .deliver worker message, .fetched worker, .take worker 0,
    .claim worker, .dispatch worker 0]

def mediaJob : JobEnvelope :=
  { jobId := 1, jobKind := "process_media", idempotencyKey := "m" }

def mediaResult (status : ResultStatus) : JobResult :=
  { jobId := 1, jobKind := "process_media", status := status, finishedAt := 0 }

def twoWorkers : JobPlane (Fin 2) where
  workerId := fun worker => if worker = 0 then "w0" else "w1"

theorem terminal_rows_are_final_one_delivery :
    ∃ middle final,
      run twoWorkers.step (JobPlaneState.restart (Fin 2) .empty [] 0)
          (.publish (some mediaJob) :: startLabels 0 0 ++
            [.handlerReturned 0 (mediaResult .completed), .write 0]) =
        some middle ∧
      run twoWorkers.step middle [.settle 0 true] = some final ∧
      ∀ key row, middle.ledger.row? key = some row →
        row.status.terminal = true →
        ∃ later, final.ledger.row? key = some later ∧
          later.status = row.status ∧ later.result = row.result := by
  refine ⟨_, _, rfl, rfl, ?_⟩
  have hfinal := terminal_rows_are_final twoWorkers .empty [] 0
    ((.publish (some mediaJob) :: startLabels 0 0 ++
      [.handlerReturned 0 (mediaResult .completed), .write 0]) ++
      [.settle 0 true])
  exact hfinal.1 (hfinal.2 ⟨trivial, trivial, trivial, trivial, trivial,
    trivial, trivial, trivial, trivial, trivial, trivial⟩) _ _ rfl _ _ rfl rfl

/-- The holder outlives its lease: the job is released, re-enqueued and
completed by another worker, and the late holder then fails the completed
row. -/
theorem completed_row_failed_by_late_holder :
    ∃ middle final,
      run twoWorkers.step (JobPlaneState.restart (Fin 2) .empty [] 0)
          (.publish (some mediaJob) :: startLabels 0 0 ++
            [.clock (seconds 901), .reapFailed 1, .reapReleased 1,
              .reenqueue 1 .stored] ++ startLabels 1 1 ++
            [.handlerReturned 1 (mediaResult .completed), .write 1]) =
        some middle ∧
      run twoWorkers.step middle [.handlerReturned 0 (mediaResult .failed), .write 0] = some final ∧
      (middle.ledger.row? "m").map LedgerRow.status = some .completed ∧
      (final.ledger.row? "m").map LedgerRow.status = some .failed :=
  ⟨_, _, rfl, rfl, rfl, rfl⟩

end Legba.Jobs
