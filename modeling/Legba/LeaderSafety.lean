import Legba.LeaderLease

/-!
# What the leader lease guarantees

A replica leads when it says so and its connection holds the lock.  Two
replicas never share a connection, so two never lead; that much holds in every
run.  That the lock is held only by a leader, and that a leader has its loops
running, depends on how the awaited calls end, and the runs on which it holds
are described exactly.
-/

namespace Legba.Leader

open LabelledRun Option Function

def Phase.conn : Phase → Option Connection
  | .probing conn => some conn
  | .unlocking conn _ => some conn
  | .releasing conn _ => some conn
  | .locking conn => some conn
  | .returning conn => some conn
  | _ => none

def Lease.RefersTo (lease : Lease) (conn : Connection) : Prop :=
  lease.conn = some conn ∨ lease.phase.conn = some conn

def Lease.PhaseOk (lease : Lease) : Prop :=
  match lease.phase with
  | .idle =>
    (lease.isLeader = true ↔ lease.conn.isSome = true) ∧
      (lease.isLeader = true → lease.loopsStarted = true)
  | .probing conn => lease.isLeader = true ∧ lease.conn = some conn ∧ lease.loopsStarted = true
  | .notifying => lease.isLeader = true ∧ lease.conn.isSome = true ∧ lease.loopsStarted = false
  | _ => lease.isLeader = false ∧ lease.conn = none

theorem Lease.PhaseOk.isLeader_of_conn {lease : Lease} (hok : lease.PhaseOk)
    {conn : Connection} (hconn : lease.conn = some conn) : lease.isLeader := by
  cases hphase : lease.phase <;> simp_all [Lease.PhaseOk]

/-- `is_leader` on a live connection which holds the lock. -/
def State.Leads {Replica : Type*} (state : State Replica) (replica : Replica) : Prop :=
  (state.lease replica).isLeader = true ∧
    ∃ conn, (state.lease replica).conn = some conn ∧
      conn ∉ state.server.dead ∧ state.server.lock = some conn

structure Safe {Replica : Type*} (state : State Replica) : Prop where
  oneLeader : ∀ replica other, state.Leads replica → state.Leads other → replica = other
  lockOwned : ∀ conn, conn ∉ state.server.dead →
    state.server.lock = some conn →
    ∃ replica, (state.lease replica).isLeader = true ∧ (state.lease replica).conn = some conn
  loopsRun : ∀ replica, (state.lease replica).phase = .idle →
    (state.lease replica).isLeader = true →
    (state.lease replica).loopsStarted = true

/-- How the awaited calls have to end: a probe raises on a connection which
has lost the lock, a lock statement which raises has not taken the lock, and
`on_acquire` is there and returns. -/
def GoodAct (server : Server) (lease : Lease) : Action → Prop
  | .probe (.raised _) => ∀ conn, lease.phase = .probing conn → server.lock ≠ some conn
  | .tryLock .returned =>
    ∀ conn, lease.phase = .locking conn → server.grants conn = true → lease.onAcquire = true
  | .tryLock (.raised tookEffect) =>
    ∀ conn, lease.phase = .locking conn → tookEffect = true →
      conn ∉ server.dead → server.grants conn = false
  | .notify reply => reply = .returned
  | _ => True

def GoodStep {Replica : Type*} (state : State Replica) : Event Replica → State Replica → Prop
  | .act replica action, _ => GoodAct state.server (state.lease replica) action
  | .die _, _ => True

/-! ## The steps of a replica -/

variable {server next : Server} {lease after : Lease} {action : Action}

/-- What a step does, with the phase it is taken in. -/
inductive Acts (server : Server) (lease : Lease) : Action → Server → Lease → Prop where
  | begun (hphase : lease.phase = .idle) : Acts server lease .begin server lease.tryAcquire
  | probed {conn : Connection} {reply : Reply} {next : Server}
      (hphase : lease.phase = .probing conn)
      (hserver : server.statement conn id reply = some next) :
      Acts server lease (.probe reply) next
        (if reply = .returned then lease.idled else lease.demote)
  | unlocked {conn : Connection} {wasLeader : Bool} {reply : Reply} {next : Server}
      (hphase : lease.phase = .unlocking conn wasLeader)
      (hserver : server.statement conn (Server.unlock · conn) reply = some next) :
      Acts server lease (.unlock reply) next { lease with phase := .releasing conn wasLeader }
  | released {conn : Connection} {wasLeader : Bool} {reply : Reply}
      (hphase : lease.phase = .releasing conn wasLeader) :
      Acts server lease (.release reply) (server.giveBack conn reply) (lease.released wasLeader)
  | lost {reply : Reply} (hphase : lease.phase = .losing) :
      Acts server lease (.lose reply) server { lease with phase := .acquiring }
  | refused (hphase : lease.phase = .acquiring) :
      Acts server lease (.acquire none) server lease.idled
  | acquired {conn : Connection} {next : Server} (hphase : lease.phase = .acquiring)
      (hserver : server.acquire conn = some next) :
      Acts server lease (.acquire (some conn)) next { lease with phase := .locking conn }
  | locked {conn : Connection} {reply : Reply} {next : Server}
      (hphase : lease.phase = .locking conn)
      (hserver : server.statement conn (Server.tryLock · conn) reply = some next) :
      Acts server lease (.tryLock reply) next
        (if reply ≠ .returned then lease.idled
          else if server.grants conn then lease.gotLock conn
          else { lease with phase := .returning conn })
  | notified {reply : Reply} (hphase : lease.phase = .notifying) :
      Acts server lease (.notify reply) server
        { lease.idled with loopsStarted := lease.loopsStarted || reply = .returned }
  | returned {conn : Connection} {reply : Reply} (hphase : lease.phase = .returning conn) :
      Acts server lease (.giveBack reply) (server.giveBack conn reply) lease.idled

theorem acts_of_act (hact : act server lease action = some (next, after)) :
    Acts server lease action next after := by
  unfold act at hact
  split at hact <;> split at hact <;>
    simp only [map_eq_some_iff, Prod.mk.injEq, some.injEq, reduceCtorEq] at hact
  all_goals first
    | obtain ⟨rfl, rfl⟩ := hact
    | obtain ⟨_, hserver, rfl, rfl⟩ := hact
  all_goals constructor <;> assumption

theorem Acts.phaseOk (hacts : Acts server lease action next after) (hok : lease.PhaseOk)
    (hgood : GoodAct server lease action) : after.PhaseOk := by
  cases hacts with
  | begun hphase => cases hconn : lease.conn <;> simp_all [Lease.tryAcquire, Lease.PhaseOk]
  | locked hphase hserver =>
    unfold Lease.gotLock
    repeat' split
    all_goals simp_all [Lease.PhaseOk, Lease.idled, GoodAct]
  | released hphase =>
    unfold Lease.released
    split <;> simp_all [Lease.PhaseOk]
  | probed hphase hserver => split <;> simp_all [Lease.PhaseOk, Lease.idled, Lease.demote]
  | _ => simp_all [Lease.PhaseOk, Lease.idled, GoodAct]

theorem Acts.alive (hacts : Acts server lease action next after)
    (halive : ∀ conn, server.lock = some conn → conn ∉ server.dead) :
    ∀ conn, next.lock = some conn → conn ∉ next.dead := by
  have hgiven : ∀ other reply conn, (server.giveBack other reply).lock = some conn →
      conn ∉ (server.giveBack other reply).dead := by
    intro other reply
    rcases server.giveBack_cases other reply with h | h <;> rw [h]
    · exact halive
    · intro conn hlock
      simpa [Server.release] using halive conn (Server.unlock_lock_eq_some.mp hlock).1
  cases hacts with
  | probed hphase hserver =>
    rcases Server.statement_cases hserver with ⟨rfl, _⟩ | ⟨rfl, _⟩ <;> exact halive
  | unlocked hphase hserver =>
    rcases Server.statement_cases hserver with ⟨rfl, _⟩ | ⟨rfl, _⟩
    · exact halive
    · intro conn hlock
      simpa using halive conn (Server.unlock_lock_eq_some.mp hlock).1
  | locked hphase hserver =>
    rcases Server.statement_cases hserver with ⟨rfl, _⟩ | ⟨rfl, hlive, _⟩
    · exact halive
    · unfold Server.tryLock
      split
      · rintro conn ⟨rfl⟩
        exact hlive
      · exact halive
  | acquired hphase hserver =>
    simp only [Server.acquire, ite_none_left_eq_some, some.injEq] at hserver
    obtain ⟨_, rfl⟩ := hserver
    exact halive
  | released | returned => exact hgiven _ _
  | _ => exact halive

theorem Acts.owned (hacts : Acts server lease action next after) (hok : lease.PhaseOk)
    (hgood : GoodAct server lease action) {conn : Connection} (hlock : next.lock = some conn) :
    after.conn = some conn ∨ server.lock = some conn ∧ lease.conn ≠ some conn := by
  cases hacts with
  | begun hphase =>
    have hsame : lease.tryAcquire.conn = lease.conn := by
      unfold Lease.tryAcquire
      split <;> rfl
    by_cases hconn : lease.conn = some conn <;> simp_all
  | notified hphase => by_cases hconn : lease.conn = some conn <;> simp_all [Lease.idled]
  | @probed _ reply _ hphase hserver =>
    have hbefore : server.lock = some conn := by
      rcases Server.statement_cases hserver with ⟨rfl, _⟩ | ⟨rfl, _⟩ <;> exact hlock
    cases reply with
    | returned => simp_all [Lease.PhaseOk, Lease.idled, em]
    | raised tookEffect =>
      exact .inr ⟨hbefore, fun hconn => hgood _ hphase (by simp_all [Lease.PhaseOk])⟩
  | unlocked hphase hserver =>
    have hnone : lease.conn = none := by simp_all [Lease.PhaseOk]
    rcases Server.statement_cases hserver with ⟨rfl, _⟩ | ⟨rfl, _⟩
    · exact .inr ⟨hlock, by simp [hnone]⟩
    · exact .inr ⟨(Server.unlock_lock_eq_some.mp hlock).1, by simp [hnone]⟩
  | released hphase | returned hphase =>
    have hnone : lease.conn = none := by simp_all [Lease.PhaseOk]
    rcases server.giveBack_cases _ _ with h | h <;> rw [h] at hlock
    · exact .inr ⟨hlock, by simp [hnone]⟩
    · exact .inr ⟨(Server.unlock_lock_eq_some.mp hlock).1, by simp [hnone]⟩
  | @locked _ reply _ hphase hserver =>
    have hnone : lease.conn = none := by simp_all [Lease.PhaseOk]
    rcases Server.statement_cases hserver with ⟨rfl, _⟩ | ⟨rfl, hlive, htook⟩
    · exact .inr ⟨hlock, by simp [hnone]⟩
    · cases hgrants : server.grants _ with
      | false =>
        rw [Server.tryLock_of_not_grants hgrants] at hlock
        exact .inr ⟨hlock, by simp [hnone]⟩
      | true =>
        rw [Server.tryLock_of_grants hgrants] at hlock
        cases reply <;> simp_all [Lease.PhaseOk, GoodAct, Lease.gotLock]
  | acquired hphase hserver =>
    simp only [Server.acquire, ite_none_left_eq_some, some.injEq] at hserver
    obtain ⟨_, rfl⟩ := hserver
    simp_all [Lease.PhaseOk]
  | _ => simp_all [Lease.PhaseOk]
/-- Whatever raises: a replica is leader exactly while it has a connection, and
has none in the phases which give one up or fetch one. -/
def Lease.Settled (lease : Lease) : Prop :=
  (lease.isLeader = true ↔ lease.conn.isSome = true) ∧
    match lease.phase with
    | .idle | .notifying => True
    | .probing conn => lease.conn = some conn
    | _ => lease.conn = none

/-- A step refers to connections it referred to or takes out of the pool, and
gives back no others. -/
structure Moves (server : Server) (lease : Lease) (next : Server) (after : Lease) : Prop where
  settled : after.Settled
  refers : ∀ conn, after.RefersTo conn → conn ∈ next.checkedOut ∧
    (lease.RefersTo conn ∨ conn ∉ server.checkedOut)
  kept : ∀ conn ∈ server.checkedOut, ¬lease.RefersTo conn → conn ∈ next.checkedOut

theorem checkedOut_statement {conn : Connection} {effect : Server → Server} {reply : Reply}
    (heffect : (effect server).checkedOut = server.checkedOut)
    (hnext : server.statement conn effect reply = some next) :
    next.checkedOut = server.checkedOut := by
  rcases Server.statement_cases hnext with ⟨rfl, _⟩ | ⟨rfl, _⟩
  · rfl
  · exact heffect

theorem Moves.of_same (hsettled : after.Settled)
    (htaken : ∀ conn, lease.RefersTo conn → conn ∈ server.checkedOut)
    (hsame : next.checkedOut = server.checkedOut)
    (hrefers : ∀ conn, after.RefersTo conn → lease.RefersTo conn) :
    Moves server lease next after where
  settled := hsettled
  refers := fun conn h => ⟨hsame ▸ htaken conn (hrefers conn h), .inl (hrefers conn h)⟩
  kept := fun _ h _ => hsame ▸ h

theorem Moves.of_giveBack {conn : Connection} {reply : Reply} (hsettled : after.Settled)
    (hheld : lease.RefersTo conn) (hnone : ∀ other, ¬after.RefersTo other) :
    Moves server lease (server.giveBack conn reply) after where
  settled := hsettled
  refers := fun other h => absurd h (hnone other)
  kept := by
    intro other hother hforeign
    rcases server.giveBack_cases conn reply with h | h <;> rw [h]
    · exact hother
    · exact Finset.mem_erase.mpr ⟨fun heq => hforeign (heq ▸ hheld), by simpa using hother⟩

theorem Acts.moves (hacts : Acts server lease action next after) (hsettled : lease.Settled)
    (htaken : ∀ conn, lease.RefersTo conn → conn ∈ server.checkedOut) :
    Moves server lease next after := by
  cases hacts with
  | begun hphase =>
    have hiff := hsettled.1
    refine .of_same ?_ htaken rfl ?_ <;> cases hconn : lease.conn <;>
      simp_all [Lease.tryAcquire, Lease.Settled, Lease.RefersTo, Phase.conn]
  | probed hphase hserver =>
    refine .of_same ?_ htaken (checkedOut_statement rfl hserver) ?_ <;> split <;>
      simp_all [Lease.Settled, Lease.RefersTo, Lease.idled, Lease.demote, Phase.conn]
  | unlocked hphase hserver =>
    refine .of_same ?_ htaken (checkedOut_statement (Server.unlock_checkedOut _ _) hserver)
      ?_ <;> simp_all [Lease.Settled, Lease.RefersTo, Phase.conn]
  | released hphase =>
    refine .of_giveBack ?_ (.inr (by simp_all [Phase.conn])) ?_ <;>
      unfold Lease.released <;> split <;>
      simp_all [Lease.Settled, Lease.RefersTo, Phase.conn]
  | acquired hphase hserver =>
    simp only [Server.acquire, ite_none_left_eq_some, some.injEq] at hserver
    obtain ⟨_, rfl⟩ := hserver
    refine ⟨?_, ?_, ?_⟩ <;> simp_all [Lease.Settled, Lease.RefersTo, Phase.conn]
  | locked hphase hserver =>
    have hsame := checkedOut_statement (by unfold Server.tryLock; split <;> rfl) hserver
    refine .of_same ?_ htaken hsame ?_ <;> unfold Lease.gotLock
    all_goals repeat' split
    all_goals simp_all [Lease.Settled, Lease.RefersTo, Lease.idled, Phase.conn]
  | returned hphase =>
    refine .of_giveBack ?_ (.inr (by simp_all [Phase.conn])) ?_ <;>
      simp_all [Lease.Settled, Lease.RefersTo, Lease.idled, Phase.conn]
  | _ =>
    refine .of_same ?_ htaken rfl ?_ <;>
      simp_all [Lease.Settled, Lease.RefersTo, Lease.idled, Phase.conn]

theorem Lease.PhaseOk.settled (hok : lease.PhaseOk) : lease.Settled := by
  unfold Lease.PhaseOk at hok
  unfold Lease.Settled
  cases hphase : lease.phase <;> simp_all

structure Inv {Replica : Type*} (state : State Replica) : Prop where
  phases : ∀ replica, (state.lease replica).PhaseOk
  distinct : ∀ replica other conn, (state.lease replica).RefersTo conn →
    (state.lease other).RefersTo conn → replica = other
  taken : ∀ replica conn, (state.lease replica).RefersTo conn → conn ∈ state.server.checkedOut
  alive : ∀ conn, state.server.lock = some conn → conn ∉ state.server.dead
  owned : ∀ conn, state.server.lock = some conn → ∃ replica, (state.lease replica).conn = some conn

theorem Inv.safe {Replica : Type*} {state : State Replica} (hinv : Inv state) : Safe state := by
  constructor
  · rintro replica other ⟨_, conn, hconn, _, hlock⟩ ⟨_, conn', hconn', _, hlock'⟩
    have heq : conn = conn' := some.inj (hlock.symm.trans hlock')
    subst conn'
    exact hinv.distinct replica other conn (.inl hconn) (.inl hconn')
  · intro conn _ hlock
    obtain ⟨replica, hconn⟩ := hinv.owned conn hlock
    exact ⟨replica, (hinv.phases replica).isLeader_of_conn hconn, hconn⟩
  · intro replica hidle hleader
    have hphase := hinv.phases replica
    rw [Lease.PhaseOk, hidle] at hphase
    exact hphase.2 hleader

theorem inv_initial {Replica : Type*} (onAcquire onLose : Replica → Bool) :
    Inv (initial onAcquire onLose) := by
  constructor <;> simp [initial, Lease.PhaseOk, Lease.RefersTo, Phase.conn]

section

variable {Replica : Type*} [DecidableEq Replica]

variable {state : State Replica} {replica : Replica} {lease : Lease}
  {conn : Connection} {server : Server} {reply : Reply}
  {event : Event Replica}

/-- One replica steps.  It may come to refer to connections only it had, or
nobody has, and it gives up none another replica has. -/
theorem connections_update
    (hdistinct : ∀ replica other conn, (state.lease replica).RefersTo conn → (state.lease
      other).RefersTo conn → replica = other)
    (htaken : ∀ replica conn, (state.lease replica).RefersTo conn → conn ∈ state.server.checkedOut)
    (hrefers : ∀ conn, lease.RefersTo conn → conn ∈ server.checkedOut ∧ ((state.lease
      replica).RefersTo conn ∨ conn ∉ state.server.checkedOut))
    (hkept : ∀ conn ∈ state.server.checkedOut, ¬(state.lease replica).RefersTo conn → conn ∈
      server.checkedOut) :
    (∀ first second conn,
      (update state.lease replica lease first).RefersTo conn →
      (update state.lease replica lease second).RefersTo conn → first = second) ∧
    ∀ other conn, (update state.lease replica lease other).RefersTo conn →
      conn ∈ server.checkedOut := by
  have hforeign : ∀ other conn, other ≠ replica →
      (state.lease other).RefersTo conn → ¬lease.RefersTo conn := by
    intro other conn hother hother_refers hself
    obtain ⟨_, hold | hfresh⟩ := hrefers conn hself
    · exact hother (hdistinct other replica conn hother_refers hold)
    · exact hfresh (htaken other conn hother_refers)
  constructor
  · intro first second conn hfirst hsecond
    by_cases h₁ : first = replica <;> by_cases h₂ : second = replica
    · exact h₁.trans h₂.symm
    · subst h₁
      simp only [update_self] at hfirst
      simp only [update_of_ne h₂] at hsecond
      exact absurd hfirst (hforeign second conn h₂ hsecond)
    · subst h₂
      simp only [update_self] at hsecond
      simp only [update_of_ne h₁] at hfirst
      exact absurd hsecond (hforeign first conn h₁ hfirst)
    · simp only [update_of_ne h₁] at hfirst
      simp only [update_of_ne h₂] at hsecond
      exact hdistinct first second conn hfirst hsecond
  · intro other conn hother_refers
    by_cases hother : other = replica
    · subst hother
      simp only [update_self] at hother_refers
      exact (hrefers conn hother_refers).1
    · simp only [update_of_ne hother] at hother_refers
      refine hkept conn (htaken other conn hother_refers) ?_
      intro hself
      exact hother (hdistinct other replica conn hother_refers hself)

section

variable (hinv : Inv state)

include hinv

omit [DecidableEq Replica] in
theorem Inv.die (conn : Connection) : Inv { state with server := state.server.die conn } := by
  have hbefore : ∀ other, (state.server.die conn).lock = some other →
      state.server.lock = some other ∧ other ≠ conn := by
    intro other hlock
    exact Server.unlock_lock_eq_some.mp hlock
  constructor
  · exact hinv.phases
  · exact hinv.distinct
  · simpa [Server.die] using hinv.taken
  · intro other hlock
    simpa [Server.die, (hbefore other hlock).2] using hinv.alive other (hbefore other hlock).1
  · intro other hlock
    exact hinv.owned other (hbefore other hlock).1

/-! ## One step -/

theorem Inv.act {action : Action}
    (hact : act state.server (state.lease replica) action = some (server, lease))
    (hgood : GoodAct state.server (state.lease replica) action) :
    Inv ⟨server, update state.lease replica lease⟩ := by
  have hacts := acts_of_act hact
  have hok := hinv.phases replica
  have hmoves := hacts.moves hok.settled (hinv.taken replica)
  obtain ⟨hdistinct, htaken⟩ :=
    connections_update hinv.distinct hinv.taken hmoves.refers hmoves.kept
  refine ⟨?_, hdistinct, htaken, hacts.alive hinv.alive, ?_⟩
  · intro other
    by_cases hother : other = replica
    · subst hother
      simpa using hacts.phaseOk hok hgood
    · simpa [hother] using hinv.phases other
  · intro conn hlock
    rcases hacts.owned hok hgood hlock with hself | ⟨hbefore, hnot⟩
    · exact ⟨replica, by simpa using hself⟩
    · obtain ⟨other, hother⟩ := hinv.owned conn hbefore
      have hne : other ≠ replica := by
        rintro rfl
        exact hnot hother
      exact ⟨other, by simpa [hne] using hother⟩

theorem Inv.step {next : State Replica} (hstep : Leader.step state event = some next)
    (hgood : GoodStep state event next) : Inv next := by
  cases event with
  | act replica action =>
    obtain ⟨⟨server, lease⟩, hact, hnext⟩ := map_eq_some_iff.mp hstep
    subst hnext
    exact hinv.act hact hgood
  | die conn =>
    simp only [Leader.step, some.injEq] at hstep
    subst hstep
    exact hinv.die conn

theorem Inv.not_safe_of_stray (hrefers : (state.lease replica).RefersTo conn)
    (hconn : lease.conn ≠ some conn) (hlock : server.lock = some conn)
    (hlive : conn ∉ server.dead) : ¬Safe ⟨server, update state.lease replica lease⟩ := by
  intro hsafe
  obtain ⟨other, _, hother⟩ := hsafe.lockOwned conn hlive hlock
  by_cases hne : other = replica
  · subst hne
    simp only [update_self] at hother
    exact hconn hother
  · simp only [update_of_ne hne] at hother
    exact hne (hinv.distinct other replica conn (.inl hother) hrefers)

end

theorem not_safe_of_idle {lease : Replica → Lease} {changed : Lease}
    (hphase : changed.phase = .idle) (hleader : changed.isLeader)
    (hloops : changed.loopsStarted = false) :
    ¬Safe ⟨server, update lease replica changed⟩ := by
  intro hsafe
  have hstarted := hsafe.loopsRun replica (by simpa using hphase) (by simpa using hleader)
  simp [hloops] at hstarted

theorem Inv.not_safe_of_bad_tryLock (hinv : Inv state)
    (hact : Leader.act state.server (state.lease replica) (.tryLock reply) = some (server, lease))
    (hbad : ¬GoodAct state.server (state.lease replica) (.tryLock reply)) :
    ¬Safe ⟨server, update state.lease replica lease⟩ := by
  have hok := hinv.phases replica
  simp only [Leader.act] at hact
  split at hact
  next conn hphase =>
    obtain ⟨server', hserver, hact⟩ := map_eq_some_iff.mp hact
    cases hact
    simp only [Lease.PhaseOk, hphase] at hok
    obtain ⟨hleader, hnone⟩ := hok
    have hrefers : (state.lease replica).RefersTo conn := by
      simp [Lease.RefersTo, hphase, Phase.conn]
    cases reply with
    | returned =>
      simp only [GoodAct, hphase, Phase.locking.injEq, forall_eq',
        Classical.not_imp, Bool.not_eq_true] at hbad
      obtain ⟨hgrants, hcallback⟩ := hbad
      apply not_safe_of_idle <;> simp [hgrants, Lease.gotLock, hleader, hcallback]
    | raised tookEffect =>
      simp only [GoodAct, hphase, Phase.locking.injEq, forall_eq',
        Classical.not_imp, Bool.not_eq_false] at hbad
      obtain ⟨htook, hlive, hgrants⟩ := hbad
      have hlocked : server = { state.server with lock := some conn } := by
        rw [← Server.tryLock_of_grants hgrants]
        simpa [Server.statement, htook, hlive, eq_comm] using hserver
      subst hlocked
      exact hinv.not_safe_of_stray hrefers (by simp [Lease.idled, hnone]) rfl hlive
  next => cases hact

theorem Inv.not_safe_of_bad_act (hinv : Inv state) {action : Action}
    (hact : Leader.act state.server (state.lease replica) action = some (server, lease))
    (hbad : ¬GoodAct state.server (state.lease replica) action) :
    ¬Safe ⟨server, update state.lease replica lease⟩ := by
  have hok := hinv.phases replica
  cases action with
  | probe reply =>
    cases reply with
    | returned => exact absurd trivial hbad
    | raised tookEffect =>
      simp only [GoodAct, not_forall, not_not] at hbad
      obtain ⟨conn, hphase, hlock⟩ := hbad
      simp only [Lease.PhaseOk, hphase] at hok
      obtain ⟨_, hconn, _⟩ := hok
      simp only [Leader.act, hphase] at hact
      obtain ⟨server', hserver, hact⟩ := map_eq_some_iff.mp hact
      have hsame : server' = state.server := by
        rcases Server.statement_cases hserver with h | h
        · exact h.1
        · exact h.1
      subst hsame
      cases hact
      apply hinv.not_safe_of_stray (.inl hconn) _ hlock (hinv.alive conn hlock)
      simp [Lease.demote, hconn]
  | tryLock reply => exact hinv.not_safe_of_bad_tryLock hact hbad
  | notify reply =>
    simp only [Leader.act, ite_none_right_eq_some] at hact
    obtain ⟨hphase, hact⟩ := hact
    cases hact
    simp only [Lease.PhaseOk, hphase] at hok
    have hraised : reply ≠ .returned := hbad
    apply not_safe_of_idle <;> simp [Lease.idled, hok, hraised]
  | _ => exact absurd trivial hbad

theorem Inv.not_safe_of_bad_step {next : State Replica} (hinv : Inv state)
    (hstep : Leader.step state event = some next)
    (hbad : ¬GoodStep state event next) : ¬Safe next := by
  cases event with
  | act replica action =>
    obtain ⟨⟨server, lease⟩, hact, hnext⟩ := map_eq_some_iff.mp hstep
    subst hnext
    exact hinv.not_safe_of_bad_act hact hbad
  | die conn => exact absurd trivial hbad

/-- The lock is with a leader and every leader has its loops running, in every
state of a run, exactly when the awaited calls end well. -/
theorem leadership_safe_iff (onAcquire onLose : Replica → Bool) (events : List (Event Replica)) :
    VisitsOnly step Safe (initial onAcquire onLose) events ↔
      StepsSatisfy step GoodStep (initial onAcquire onLose) events :=
  visitsOnly_iff_goodSteps (fun _ hinv => hinv.safe)
    (fun _ _ _ hinv hstep _ hgood => hinv.step hstep hgood)
    (fun _ _ _ hinv hstep _ hbad => hinv.not_safe_of_bad_step hstep hbad)
    (inv_initial onAcquire onLose)
    (stepsSatisfy_of_forall (fun _ _ _ _ => trivial) _ _)

end

/-- `on_acquire` raises: the replica stays leader, the next attempts only
probe, and its loops never run. -/
theorem leader_without_loops :
    ¬VisitsOnly step Safe
      (initial (fun _ : Unit => true) (fun _ => true))
      [.act () .begin, .act () (.acquire (some 0)),
        .act () (.tryLock .returned), .act () (.notify (.raised false)),
        .act () .begin, .act () (.probe .returned)] := by
  intro hvisits
  have hstarted := (hvisits.final rfl).loopsRun () rfl rfl
  exact Bool.noConfusion hstarted

/-! ## Mutual exclusion in every run -/

structure Exclusive {Replica : Type*} (state : State Replica) : Prop where
  settled : ∀ replica, (state.lease replica).Settled
  distinct : ∀ replica other conn, (state.lease replica).RefersTo conn →
    (state.lease other).RefersTo conn → replica = other
  taken : ∀ replica conn, (state.lease replica).RefersTo conn → conn ∈ state.server.checkedOut

variable {Replica : Type*} [DecidableEq Replica] {state following : State Replica}

theorem Exclusive.step {event : Event Replica} (hinv : Exclusive state)
    (hstep : step state event = some following) : Exclusive following := by
  cases event with
  | die conn =>
    cases hstep
    exact ⟨hinv.settled, hinv.distinct, by simpa [Server.die] using hinv.taken⟩
  | act replica action =>
    obtain ⟨⟨server, lease⟩, hact, rfl⟩ := map_eq_some_iff.mp hstep
    have hmoves := (acts_of_act hact).moves (hinv.settled replica) (hinv.taken replica)
    obtain ⟨hdistinct, htaken⟩ :=
      connections_update hinv.distinct hinv.taken hmoves.refers hmoves.kept
    refine ⟨fun other => ?_, hdistinct, htaken⟩
    by_cases hother : other = replica
    · subst hother
      simpa using hmoves.settled
    · simpa [hother] using hinv.settled other

end Legba.Leader
