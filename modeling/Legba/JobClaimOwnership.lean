import Legba.JobPlane

/-!
# Who holds a claim

The ledger row does not name its holder, so a worker holds a key only as far
as nobody took it away.  As long as sweeps expire the claims of dead workers
only, a worker which believes to hold a key is the one which acquired it last,
and the row is still claimed.
-/

namespace Legba.Jobs

open JobStore

variable {Worker : Type} [DecidableEq Worker]

def JobPlaneState.restart (Worker : Type) (ledger : Ledger)
    (messages : List Message) (now : Datetime) : JobPlaneState Worker :=
  { ledger := ledger, messages := messages, now := now }

def JobPlaneState.Holds (state : JobPlaneState Worker) (worker : Worker) (key : String) : Prop :=
  (state.workers worker).phase.holding = some key

variable {state : JobPlaneState Worker} {worker other : Worker} {key : String}

variable {after : WorkerState} {phase : Phase} {next : JobPlaneState Worker}

theorem holds_set :
    (state.set worker after).Holds other key ↔
      if other = worker then after.phase.holding = some key
      else state.Holds other key := by
  unfold JobPlaneState.Holds JobPlaneState.set
  by_cases hother : other = worker
  · subst other
    simp
  · simp [hother]

theorem holds_become_none (state : JobPlaneState Worker) (hphase : phase.holding = none)
    (hholds : (state.become worker phase).Holds other key) :
    other ≠ worker ∧ state.Holds other key := by
  have hcases := holds_set.mp hholds
  by_cases hother : other = worker
  · rw [if_pos hother, hphase] at hcases
    contradiction
  · rw [if_neg hother] at hcases
    exact ⟨hother, hcases⟩

theorem holds_of_set (hholding : ∀ key, after.phase.holding = some key → (state.workers
      worker).phase.holding = some key) (other : Worker) (key : String)
    (hholds : (state.set worker after).Holds other key) : state.Holds other key := by
  have hcases := holds_set.mp hholds
  by_cases hother : other = worker
  · rw [if_pos hother] at hcases
    exact hother ▸ hholding key hcases
  · rwa [if_neg hother] at hcases

omit [DecidableEq Worker] in
theorem holds_of_phase (hphase : (state.workers worker).phase = phase)
    (hholding : phase.holding = some key) : state.Holds worker key :=
  (congrArg Phase.holding hphase).trans hholding

theorem Phase.claimed_holding (message : ℕ) (env : JobEnvelope) (expired : Option JobResult) :
    (Phase.claimed message env expired true).holding = some env.idempotencyKey := by
  cases expired <;> rfl

omit [DecidableEq Worker] in
def SparesHolders (plane : JobPlane Worker) (state : JobPlaneState Worker)
    (label : JobLabel Worker) (_next : JobPlaneState Worker) : Prop :=
  match label with
  | .reapFailed _ => ∀ key row, state.ledger.row? key = some row →
      selectsFailed state.now plane.leaseSeconds plane.maxDeliver row = true →
      ∀ worker, ¬ state.Holds worker key
  | .reapReleased _ => ∀ key row, state.ledger.row? key = some row →
      selectsReleased state.now plane.leaseSeconds plane.maxDeliver row = true →
      ∀ worker, ¬ state.Holds worker key
  | _ => True

structure OwnedClaims (state : JobPlaneState Worker) : Prop where
  owned : ∀ worker key, state.Holds worker key →
    ∃ row, state.ledger.row? key = some row ∧ row.status = .claimed ∧
      state.acquirer key = some worker

omit [DecidableEq Worker] in
theorem OwnedClaims.unique (hinv : OwnedClaims state) (hworker : state.Holds worker key)
    (hother : state.Holds other key) : other = worker := by
  obtain ⟨_, _, _, hacquirer⟩ := hinv.owned worker key hworker
  obtain ⟨_, _, _, hacquirer'⟩ := hinv.owned other key hother
  rw [hacquirer] at hacquirer'
  exact (Option.some.inj hacquirer').symm

omit [DecidableEq Worker] in
theorem ownedClaims_restart (ledger : Ledger) (messages : List Message) (now : Datetime) :
    OwnedClaims (JobPlaneState.restart Worker ledger messages now) :=
  ⟨fun _ _ hholds => by contradiction⟩

omit [DecidableEq Worker] in
theorem OwnedClaims.frame (hinv : OwnedClaims state) (hledger : next.ledger = state.ledger)
    (hacquirer : next.acquirer = state.acquirer)
    (hholds : ∀ worker key, next.Holds worker key → state.Holds worker key) : OwnedClaims next := by
  constructor
  intro worker key hworker
  rw [hledger, hacquirer]
  exact hinv.owned worker key (hholds worker key hworker)

theorem OwnedClaims.letGo (hinv : OwnedClaims state) (hholds : state.Holds worker key)
    (hphase : phase.holding = none) {ledger : Ledger}
    (hledger : ∀ other, other ≠ key → ledger.row? other = state.ledger.row? other) :
    OwnedClaims { state.become worker phase with ledger := ledger } := by
  constructor
  intro other otherKey hother
  have hbefore := holds_become_none state hphase hother
  have hkey : otherKey ≠ key := by
    intro heq
    subst heq
    exact hbefore.1 (hinv.unique hholds hbefore.2)
  obtain ⟨row, hrow, hstatus, hacquirer⟩ := hinv.owned other otherKey hbefore.2
  exact ⟨row, (hledger otherKey hkey).trans hrow, hstatus, hacquirer⟩

theorem OwnedClaims.step {plane : JobPlane Worker} {label : JobLabel Worker}
    (hinv : OwnedClaims state) (hstep : plane.step state label = some next)
    (hspares : SparesHolders plane state label next) : OwnedClaims next := by
  cases JobPlane.step_transition hstep with
  | clock now => exact ⟨hinv.owned⟩
  | published body => exact ⟨hinv.owned⟩
  | requeued message => exact ⟨hinv.owned⟩
  | evicted message => exact ⟨hinv.owned⟩
  | reapedFailed worker hphase =>
    constructor
    intro other key hholds
    have hbefore := (holds_become_none state rfl hholds).2
    obtain ⟨row, hrow, hstatus, hacquirer⟩ := hinv.owned other key hbefore
    have hnot : ¬ selectsFailed state.now plane.leaseSeconds plane.maxDeliver row = true :=
      fun hselected => hspares key row hrow hselected other hbefore
    exact ⟨row, row?_reapFailed_of_not_selected hrow hnot _, hstatus, hacquirer⟩
  | reapedReleased worker reaped hphase =>
    constructor
    intro other key hholds
    have hbefore := (holds_become_none state rfl hholds).2
    obtain ⟨row, hrow, hstatus, hacquirer⟩ := hinv.owned other key hbefore
    have hnot : ¬ selectsReleased state.now plane.leaseSeconds
        plane.maxDeliver row = true :=
      fun hselected => hspares key row hrow hselected other hbefore
    exact ⟨row, row?_reapReleased_of_not_selected hrow hnot, hstatus, hacquirer⟩
  | reenqueued worker entry rest env hphase henv =>
    exact hinv.frame rfl rfl fun _ _ hholds => (holds_become_none state rfl hholds).2
  | delivered worker index message delivery hphase hmessage hdeliverable hkey =>
    exact hinv.frame rfl rfl (holds_of_set fun _ hnone => by contradiction)
  | claimWon worker message env expired hphase hwon =>
    obtain ⟨row, hput, hstatus, _, hbefore⟩ := claim_won hwon
    constructor
    intro other key hholds
    have hcases := holds_set.mp hholds
    by_cases hother : other = worker
    · rw [if_pos hother, Phase.claimed_holding] at hcases
      obtain rfl := Option.some.inj hcases
      subst hother
      refine ⟨row, ?_, hstatus, Function.update_self ..⟩
      change (claim state.ledger env state.now).1.row? _ = _
      rw [hput, KeyedTable.Table.row?_put_self]
    · rw [if_neg hother] at hcases
      obtain ⟨held, hheld, hclaimed, hacquirer⟩ := hinv.owned other key hcases
      have hkey : key ≠ env.idempotencyKey := by
        intro heq
        subst heq
        rw [hbefore held hheld] at hclaimed
        contradiction
      refine ⟨held, ?_, hclaimed, ?_⟩
      · exact (row?_claim_of_ne hkey state.now).trans hheld
      · exact (Function.update_of_ne hkey _ _).trans hacquirer
  | started worker now message env hphase =>
    exact hinv.frame rfl rfl (holds_of_set fun _ hrunning => holds_of_phase hphase hrunning)
  | written worker message env write result settlement hphase =>
    exact hinv.letGo (holds_of_phase hphase rfl) rfl fun other hother =>
      row?_finish_of_ne hother _ _
  | released worker message env hphase =>
    exact hinv.letGo (holds_of_phase hphase rfl) rfl fun other hother =>
      row?_release_of_ne hother
  | settled worker reached message settlement hphase =>
    exact hinv.frame rfl rfl fun _ _ hholds => (holds_become_none state rfl hholds).2
  | moved label worker after hquiet hholding hpending =>
    exact hinv.frame rfl rfl (holds_of_set hholding)

end Legba.Jobs
