import Legba.JobLedgerFinality
import Mathlib.Tactic.Linarith

/-!
# Releases and exclusive claims

`release` selects a claimed row by its key, whoever claimed it.  As long as
every release finds the row no longer claimed or its caller the last worker
which acquired the key, a key can change hands under a working holder only
after the lease of that holder.
-/

namespace Legba.Jobs

open LabelledRun JobStore

variable {Worker : Type} [DecidableEq Worker]

/-- A `release` which releases the row is called by the worker which acquired
the key last. -/
def ReleasesOwnClaim (state : JobPlaneState Worker) (label : JobLabel Worker)
    (_next : JobPlaneState Worker) : Prop :=
  match label with
  | .release worker =>
    match (state.workers worker).phase with
    | .releasing _ env =>
      ∀ row, state.ledger.row? env.idempotencyKey = some row →
        row.status = .claimed →
        state.acquirer env.idempotencyKey = some worker
    | _ => True
  | _ => True

def ClockForward (state : JobPlaneState Worker) (label : JobLabel Worker)
    (_next : JobPlaneState Worker) : Prop :=
  match label with
  | .clock now => state.now ≤ now
  | _ => True

/-- A worker acquires a key whose last acquirer still works on it only when
the lease of that claim is over. -/
def AcquiresLapsedKey (plane : JobPlane Worker) (state : JobPlaneState Worker)
    (label : JobLabel Worker) (_next : JobPlaneState Worker) : Prop :=
  match label with
  | .claim worker =>
    match (state.workers worker).phase with
    | .claiming _ env _ =>
      (claim state.ledger env state.now).2 = true →
      ∀ holder, state.acquirer env.idempotencyKey = some holder →
        state.Holds holder env.idempotencyKey →
        ∃ row, state.ledger.row? env.idempotencyKey = some row ∧
          row.claimedAt + seconds plane.leaseSeconds < state.now
    | _ => True
  | _ => True

/-- A key which was acquired has a row, and a released row whose last acquirer
still works on the job was claimed more than a lease ago. -/
structure LapsedClaims (plane : JobPlane Worker) (state : JobPlaneState Worker) : Prop where
  acquired : ∀ key worker, state.acquirer key = some worker →
    ∃ row, state.ledger.row? key = some row
  lapsed : ∀ key row holder, state.ledger.row? key = some row →
    row.status = .released → state.acquirer key = some holder →
    state.Holds holder key →
    row.claimedAt + seconds plane.leaseSeconds < state.now

omit [DecidableEq Worker] in
theorem lapsedClaims_restart (plane : JobPlane Worker) (ledger : Ledger)
    (messages : List Message) (now : Datetime) :
    LapsedClaims plane (JobPlaneState.restart Worker ledger messages now) :=
  ⟨fun _ _ hacquirer => by contradiction,
    fun _ _ _ _ _ hacquirer => by contradiction⟩

variable {plane : JobPlane Worker} {state next : JobPlaneState Worker}
  {label : JobLabel Worker}

omit [DecidableEq Worker] in
theorem LapsedClaims.rewrite (hinv : LapsedClaims plane state)
    (hacquirer : next.acquirer = state.acquirer) (hnow : state.now ≤ next.now)
    (hholds : ∀ worker key, next.Holds worker key → state.Holds worker key)
    (hexists : ∀ key row, state.ledger.row? key = some row → ∃ after,
      next.ledger.row? key = some after)
    (hrows : ∀ key after, next.ledger.row? key = some after → after.status =
      .released → state.ledger.row? key = some after ∨ after.claimedAt + seconds
      plane.leaseSeconds < state.now ∨ ∃ worker, state.acquirer key = some worker
      ∧ ¬ next.Holds worker key) : LapsedClaims plane next := by
  constructor
  · intro key worker hlast
    rw [hacquirer] at hlast
    obtain ⟨row, hrow⟩ := hinv.acquired key worker hlast
    exact hexists key row hrow
  · intro key after holder hafter hreleased hlast hholder
    rw [hacquirer] at hlast
    apply lt_of_lt_of_le _ hnow
    rcases hrows key after hafter hreleased with hsame | hlapsed | hgone
    · exact hinv.lapsed key after holder hsame hreleased hlast (hholds holder key hholder)
    · exact hlapsed
    · obtain ⟨worker, hworker, hnotHolds⟩ := hgone
      rw [hworker] at hlast
      obtain rfl := Option.some.inj hlast
      contradiction

omit [DecidableEq Worker] in
theorem LapsedClaims.frame (hinv : LapsedClaims plane state) (hledger : next.ledger = state.ledger)
    (hacquirer : next.acquirer = state.acquirer) (hnow : state.now ≤ next.now)
    (hholds : ∀ worker key, next.Holds worker key → state.Holds worker key) :
    LapsedClaims plane next := by
  apply hinv.rewrite hacquirer hnow hholds
  · intro key row hrow
    exact ⟨row, by rw [hledger, hrow]⟩
  · intro key after hafter _
    rw [hledger] at hafter
    exact .inl hafter

theorem holds_of_become_none {worker : Worker} {phase : Phase} (hphase : phase.holding = none) :
    ∀ other key, (state.become worker phase).Holds other key → state.Holds other key :=
  fun _ _ hholds => (holds_become_none state hphase hholds).2

theorem LapsedClaims.step (hinv : LapsedClaims plane state)
    (hstep : plane.step state label = some next) (hrelease : ReleasesOwnClaim state label next)
    (hclock : ClockForward state label next) : LapsedClaims plane next := by
  cases JobPlane.step_transition hstep with
  | clock now => exact hinv.frame rfl rfl hclock fun _ _ hholds => hholds
  | published body => exact hinv.frame rfl rfl le_rfl fun _ _ hholds => hholds
  | requeued message => exact hinv.frame rfl rfl le_rfl fun _ _ hholds => hholds
  | evicted message => exact hinv.frame rfl rfl le_rfl fun _ _ hholds => hholds
  | reapedFailed worker hphase =>
    refine hinv.rewrite rfl le_rfl (holds_of_become_none rfl) ?_ ?_
    · intro key row hrow
      exact exists_row?_reapFailed hrow ..
    · intro key after hafter hreleased
      exact .inl (row?_of_reapFailed_released hafter hreleased)
  | reapedReleased worker reaped hphase =>
    refine hinv.rewrite rfl le_rfl (holds_of_become_none rfl) ?_ ?_
    · intro key row hrow
      exact exists_row?_reapReleased hrow ..
    · intro key after hafter hreleased
      rcases row?_of_reapReleased hafter with hsame | hflipped
      · exact .inl hsame
      · obtain ⟨row, _, hselected, rfl⟩ := hflipped
        have hstale := stale_eq_true_iff.mp (stale_of_selectsReleased hselected)
        exact .inr (.inl (by linarith [hstale.2]))
  | reenqueued worker entry rest env hphase henv =>
    exact hinv.frame rfl rfl le_rfl (holds_of_become_none rfl)
  | delivered worker index message delivery hphase hmessage hdeliverable hkey =>
    exact hinv.frame rfl rfl le_rfl (holds_of_set fun _ hnone => by contradiction)
  | claimWon worker message env expired hphase hwon =>
    obtain ⟨row, hput, hstatus, _, _⟩ := claim_won hwon
    have hself : (claim state.ledger env state.now).1.row?
        env.idempotencyKey = some row := by
      rw [hput, KeyedTable.Table.row?_put_self]
    constructor
    · intro key holder hlast
      by_cases hkey : key = env.idempotencyKey
      · subst hkey
        exact ⟨row, hself⟩
      · have hbefore : state.acquirer key = some holder :=
          (Function.update_of_ne hkey _ _).symm.trans hlast
        obtain ⟨other, hother⟩ := hinv.acquired key holder hbefore
        exact ⟨other, (row?_claim_of_ne hkey _).trans hother⟩
    · intro key after holder hafter hreleased hlast hholder
      by_cases hkey : key = env.idempotencyKey
      · subst hkey
        have heq := hself.symm.trans hafter
        obtain rfl := Option.some.inj heq
        rw [hstatus] at hreleased
        contradiction
      · have hbefore : state.acquirer key = some holder :=
          (Function.update_of_ne hkey _ _).symm.trans hlast
        have hrow : state.ledger.row? key = some after :=
          (row?_claim_of_ne hkey _).symm.trans hafter
        apply hinv.lapsed key after holder hrow hreleased hbefore
        have hcases := holds_set.mp hholder
        by_cases hother : holder = worker
        · rw [if_pos hother, Phase.claimed_holding] at hcases
          exact absurd (Option.some.inj hcases).symm hkey
        · rwa [if_neg hother] at hcases
  | started worker now message env hphase =>
    exact hinv.frame rfl rfl le_rfl (holds_of_set fun _ hrunning => holds_of_phase hphase hrunning)
  | written worker message env write result settlement hphase =>
    refine hinv.rewrite rfl le_rfl (holds_of_become_none rfl) ?_ ?_
    · intro key row hrow
      exact exists_row?_finish hrow ..
    · intro key after hafter hreleased
      apply Or.inl
      apply row?_of_finish hafter
      intro hstatus
      have hterminal := write.terminal_status
      rw [← hstatus, hreleased] at hterminal
      contradiction
  | released worker message env hphase =>
    simp only [ReleasesOwnClaim, hphase] at hrelease
    refine hinv.rewrite rfl le_rfl (holds_of_become_none rfl) ?_ ?_
    · intro key row hrow
      exact exists_row?_release hrow _
    · intro key after hafter hreleased
      rcases row?_of_release hafter with hsame | hclaimed
      · exact .inl hsame
      · obtain ⟨heq, row, hrow, hstatus⟩ := hclaimed
        subst heq
        refine .inr (.inr ⟨worker, hrelease row hrow hstatus, ?_⟩)
        intro hholds
        exact (holds_become_none state rfl hholds).1 rfl
  | settled worker reached message settlement hphase =>
    exact hinv.frame rfl rfl le_rfl (holds_of_become_none rfl)
  | moved label worker after hquiet hholding hpending =>
    exact hinv.frame rfl rfl le_rfl (holds_of_set hholding)

omit [DecidableEq Worker] in
theorem OwnedClaims.releasesOwnClaim (hinv : OwnedClaims state) :
    ReleasesOwnClaim state label next := by
  unfold ReleasesOwnClaim
  split
  · split
    · rename_i worker _ _ env hphase
      intro row hrow hclaimed
      obtain ⟨_, _, _, hacquirer⟩ := hinv.owned _ _ (holds_of_phase hphase rfl)
      exact hacquirer
    · trivial
  · trivial

omit [DecidableEq Worker] in
theorem LapsedClaims.acquiresLapsedKey (hinv : LapsedClaims plane state) :
    AcquiresLapsedKey plane state label next := by
  unfold AcquiresLapsedKey
  split
  · split
    · rename_i worker _ _ env _ hphase
      intro hwon holder hlast hholder
      obtain ⟨row, hrow⟩ := hinv.acquired _ holder hlast
      obtain ⟨_, _, _, _, hreleased⟩ := claim_won hwon
      have hlapsed := hinv.lapsed _ row holder hrow (hreleased row hrow) hlast hholder
      exact ⟨row, hrow, hlapsed⟩
    · trivial
  · trivial

/-- While sweeps expire only claims of workers which stopped processing,
every release is of the caller's own claim.  And while every release is of
the caller's own claim and the clock does not go back, no key is acquired
under a holder within its lease. -/
theorem own_releases_keep_claims_exclusive (plane : JobPlane Worker) (ledger : Ledger)
    (messages : List Message) (now : Datetime) (labels : List (JobLabel Worker)) :
    (StepsSatisfy plane.step (SparesHolders plane)
        (JobPlaneState.restart Worker ledger messages now) labels →
      StepsSatisfy plane.step ReleasesOwnClaim
        (JobPlaneState.restart Worker ledger messages now) labels) ∧
    (StepsSatisfy plane.step ReleasesOwnClaim
        (JobPlaneState.restart Worker ledger messages now) labels →
      StepsSatisfy plane.step ClockForward
        (JobPlaneState.restart Worker ledger messages now) labels →
      StepsSatisfy plane.step (AcquiresLapsedKey plane)
        (JobPlaneState.restart Worker ledger messages now) labels) := by
  constructor
  · intro hspares
    exact stepsSatisfy_of_invariant (fun _ _ _ hinv hstep hspares =>
      OwnedClaims.step hinv hstep hspares) (fun _ _ _ hinv _ _ =>
      hinv.releasesOwnClaim) (ownedClaims_restart ledger messages now) hspares
  · intro hrelease hclock
    exact stepsSatisfy_of_invariant
      (fun _ _ _ hinv hstep hgood => LapsedClaims.step hinv hstep hgood.1 hgood.2)
      (fun _ _ _ hinv _ _ => hinv.acquiresLapsedKey)
      (lapsedClaims_restart plane ledger messages now)
      (stepsSatisfy_and hrelease hclock)

def threeWorkers : JobPlane (Fin 3) where
  workerId := fun _ => "w"

/-- A handler error within the lease: the worker releases its own claim and
the next delivery is acquired by another worker. -/
theorem own_releases_keep_claims_exclusive_one_retry :
    StepsSatisfy threeWorkers.step (AcquiresLapsedKey threeWorkers)
      (JobPlaneState.restart (Fin 3) .empty [] 0)
      (.publish (some mediaJob) :: startLabels 0 0 ++
        [.handlerRaised 0 "timeout" 0, .release 0, .settle 0 true] ++
        startLabels 1 0) := by
  have hclaims := own_releases_keep_claims_exclusive threeWorkers .empty [] 0
    (.publish (some mediaJob) :: startLabels 0 0 ++
      [.handlerRaised 0 "timeout" 0, .release 0, .settle 0 true] ++
      startLabels 1 0)
  apply hclaims.2
  · apply hclaims.1
    exact ⟨trivial, trivial, trivial, trivial, trivial, trivial, trivial, trivial, trivial, trivial,
      trivial, trivial, trivial, trivial, trivial, trivial, trivial⟩
  · exact ⟨trivial, trivial, trivial, trivial, trivial, trivial, trivial, trivial, trivial, trivial,
      trivial, trivial, trivial, trivial, trivial, trivial, trivial⟩

/-- Worker 0 outlives its lease and worker 1 takes the job over.  The late
error of worker 0 then releases the claim of worker 1, and worker 2 starts the
same job while worker 1 is within its lease. -/
theorem release_frees_claim_of_other_worker :
    ∃ middle final,
      run threeWorkers.step (JobPlaneState.restart (Fin 3) .empty [] 0)
          (.publish (some mediaJob) :: startLabels 0 0 ++
            [.clock (seconds 901), .reapFailed 1, .reapReleased 1,
              .reenqueue 1 .stored] ++ startLabels 1 1 ++
            [.handlerRaised 0 "timeout" 0]) = some middle ∧
      run threeWorkers.step middle ([.release 0, .settle 0 true] ++ startLabels 2 0) = some final ∧
      middle.acquirer "m" = some 1 ∧
      (middle.ledger.row? "m").map LedgerRow.status = some .claimed ∧
      (middle.ledger.row? "m").map LedgerRow.claimedAt = some (seconds 901) ∧
      final.now = seconds 901 ∧ final.acquirer "m" = some 2 ∧
      (final.workers 1).phase = .running 1 { mediaJob with attempts := 1 } ∧
      (final.workers 2).phase = .running 0 { mediaJob with attempts := 2 } :=
  ⟨_, _, rfl, rfl, rfl, rfl, rfl, rfl, rfl, rfl, rfl⟩

end Legba.Jobs
