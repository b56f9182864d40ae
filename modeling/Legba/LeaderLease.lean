import Legba.LabelledRun

/-!
# The leader lease

Replicas elect a leader by a session-level advisory lock.  Every replica runs
one attempt at a time: it probes the connection it holds the lock on, or takes
a connection out of the pool and tries to lock.  The code is split at its
awaits; an awaited statement is one step, which may raise, and then may or may
not have taken effect on the server.  A connection may die between any two
steps, which frees its lock.
-/

namespace Legba.Leader

abbrev Connection := ℕ

/-- The holder of the lock, the connections which are gone, and those taken
out of the pool. -/
structure Server where
  lock : Option Connection
  dead : Finset Connection
  checkedOut : Finset Connection

/-- Whether `pg_try_advisory_lock` answers true on this connection. -/
def Server.grants (server : Server) (conn : Connection) : Bool :=
  decide (server.lock = none ∨ server.lock = some conn)

def Server.tryLock (server : Server) (conn : Connection) : Server :=
  if server.grants conn then { server with lock := some conn } else server

/-- `pg_advisory_unlock`, and the end of the session of a connection. -/
def Server.unlock (server : Server) (conn : Connection) : Server :=
  if server.lock = some conn then { server with lock := none } else server

/-- `pool.acquire` hands out a connection nobody has. -/
def Server.acquire (server : Server) (conn : Connection) : Option Server :=
  if conn ∈ server.checkedOut then none
  else some { server with checkedOut := insert conn server.checkedOut }

/-- `pool.release` resets the session, which drops its locks. -/
def Server.release (server : Server) (conn : Connection) : Server :=
  { server.unlock conn with checkedOut := server.checkedOut.erase conn }

def Server.die (server : Server) (conn : Connection) : Server :=
  { server.unlock conn with dead := insert conn server.dead }

inductive Reply where
  | returned
  | raised (tookEffect : Bool)
deriving DecidableEq

def Server.statement (server : Server) (conn : Connection)
    (effect : Server → Server) : Reply → Option Server
  | .returned =>
    if conn ∈ server.dead then none else some (effect server)
  | .raised tookEffect =>
    if tookEffect ∧ conn ∉ server.dead then some (effect server)
    else some server

variable {server : Server} {conn : Connection}

theorem Server.statement_cases {next : Server} {effect : Server → Server}
    {reply : Reply} (hnext : server.statement conn effect reply = some next) :
    next = server ∧ reply ≠ .returned ∨
      next = effect server ∧ conn ∉ server.dead ∧ reply ≠ .raised false := by
  cases reply with
  | returned =>
    simp only [statement] at hnext
    split at hnext
    · cases hnext
    · simp_all
  | raised tookEffect =>
    simp only [statement] at hnext
    split at hnext
    next htook => simp_all
    next htook => simp_all

@[simp] theorem Server.unlock_dead (server : Server) (conn : Connection) :
    (server.unlock conn).dead = server.dead := by
  unfold unlock
  split <;> rfl

@[simp] theorem Server.unlock_checkedOut (server : Server) (conn : Connection) :
    (server.unlock conn).checkedOut = server.checkedOut := by
  unfold unlock
  split <;> rfl

theorem Server.unlock_lock_eq_some {other : Connection} :
    (server.unlock conn).lock = some other ↔ server.lock = some other ∧ other ≠ conn := by
  unfold unlock
  split
  next hlock => simp [hlock, eq_comm]
  next hlock =>
    constructor
    · intro hother
      exact ⟨hother, fun heq => hlock (heq ▸ hother)⟩
    · exact fun hother => hother.1

theorem Server.tryLock_of_grants (hgrants : server.grants conn) :
    server.tryLock conn = { server with lock := some conn } :=
  if_pos hgrants

theorem Server.tryLock_of_not_grants (hgrants : server.grants conn = false) :
    server.tryLock conn = server := by
  simp [tryLock, hgrants]

/-! ## One replica -/

/-- The await at which `_try_acquire` stands, `idle` between two attempts. -/
inductive Phase where
  | idle
  | probing (conn : Connection)
  | unlocking (conn : Connection) (wasLeader : Bool)
  | releasing (conn : Connection) (wasLeader : Bool)
  | losing
  | acquiring
  | locking (conn : Connection)
  | notifying
  | returning (conn : Connection)
deriving DecidableEq

/-- A `LeaderLease`.  `onAcquire` and `onLose` say whether the callback was
given; `loopsStarted` records that `on_acquire` has returned since the replica
last became leader. -/
structure Lease where
  isLeader : Bool
  conn : Option Connection
  onAcquire : Bool
  onLose : Bool
  phase : Phase
  loopsStarted : Bool

def Lease.tryAcquire (lease : Lease) : Lease :=
  match lease.isLeader, lease.conn with
  | true, some conn => { lease with phase := .probing conn }
  | _, _ => { lease with phase := .acquiring }

def Lease.idled (lease : Lease) : Lease := { lease with phase := .idle }

/-- The end of `_demote`, after which `_try_acquire` goes on. -/
def Lease.released (lease : Lease) (wasLeader : Bool) : Lease :=
  if wasLeader && lease.onLose then { lease with phase := .losing }
  else { lease with phase := .acquiring }

/-- `_demote` and the head of `_release`. -/
def Lease.demote (lease : Lease) : Lease :=
  let demoted : Lease := { lease with isLeader := false, conn := none }
  match lease.conn with
  | none => demoted.released lease.isLeader
  | some conn => { demoted with phase := .unlocking conn lease.isLeader }

def Lease.gotLock (lease : Lease) (conn : Connection) : Lease :=
  if lease.isLeader then { lease with conn := some conn, phase := .idle }
  else
    { lease with
      conn := some conn
      isLeader := true
      loopsStarted := false
      phase := if lease.onAcquire then .notifying else .idle }

inductive Action where
  | begin
  | probe (reply : Reply)
  | unlock (reply : Reply)
  | release (reply : Reply)
  | lose (reply : Reply)
  /-- `none` if `pool.acquire` raises. -/
  | acquire (conn : Option Connection)
  | tryLock (reply : Reply)
  | notify (reply : Reply)
  | giveBack (reply : Reply)
deriving DecidableEq

/-- `pool.release` of a connection, which may raise. -/
def Server.giveBack (server : Server) (conn : Connection) : Reply → Server
  | .returned => server.release conn
  | .raised tookEffect => if tookEffect then server.release conn else server

theorem Server.giveBack_cases (server : Server) (conn : Connection) (reply : Reply) :
    server.giveBack conn reply = server ∨ server.giveBack conn reply = server.release conn := by
  cases reply with
  | returned => exact .inr rfl
  | raised tookEffect => cases tookEffect <;> simp [giveBack]

/-- One step of `_try_acquire`.  An exception of a probe demotes, those of
`_release` and of `on_lose` are dropped, and any other one ends the attempt. -/
def act (server : Server) (lease : Lease) : Action → Option (Server × Lease)
  | .begin =>
    if lease.phase = .idle then some (server, lease.tryAcquire) else none
  | .probe reply =>
    match lease.phase with
    | .probing conn =>
      (server.statement conn id reply).map fun server =>
        (server,
          if reply = .returned then lease.idled else lease.demote)
    | _ => none
  | .unlock reply =>
    match lease.phase with
    | .unlocking conn wasLeader =>
      (server.statement conn (Server.unlock · conn) reply).map
        fun server => (server, { lease with phase := .releasing conn wasLeader })
    | _ => none
  | .release reply =>
    match lease.phase with
    | .releasing conn wasLeader => some (server.giveBack conn reply, lease.released wasLeader)
    | _ => none
  | .lose _ =>
    if lease.phase = .losing then
      some (server, { lease with phase := .acquiring })
    else none
  | .acquire none =>
    if lease.phase = .acquiring then some (server, lease.idled) else none
  | .acquire (some conn) =>
    if lease.phase = .acquiring then
      (server.acquire conn).map fun server => (server, { lease with phase := .locking conn })
    else none
  | .tryLock reply =>
    match lease.phase with
    | .locking conn =>
      (server.statement conn (Server.tryLock · conn) reply).map
        fun next =>
          (next,
            if reply ≠ .returned then lease.idled
            else if server.grants conn then lease.gotLock conn
            else { lease with phase := .returning conn })
    | _ => none
  | .notify reply =>
    if lease.phase = .notifying then
      some (server,
        { lease.idled with
          loopsStarted := lease.loopsStarted || reply = .returned })
    else none
  | .giveBack reply =>
    match lease.phase with
    | .returning conn => some (server.giveBack conn reply, lease.idled)
    | _ => none

structure State (Replica : Type*) where
  server : Server
  lease : Replica → Lease

inductive Event (Replica : Type*) where
  | act (replica : Replica) (action : Action)
  | die (conn : Connection)

section

variable {Replica : Type*} [DecidableEq Replica]

def step (state : State Replica) : Event Replica → Option (State Replica)
  | .act replica action =>
    (act state.server (state.lease replica) action).map fun next =>
      ⟨next.1, Function.update state.lease replica next.2⟩
  | .die conn => some { state with server := state.server.die conn }

end

/-- All replicas right after the constructor, and `start` with the given
callbacks. -/
def initial {Replica : Type*} (onAcquire onLose : Replica → Bool) : State Replica where
  server := ⟨none, ∅, ∅⟩
  lease replica :=
    { isLeader := false
      conn := none
      onAcquire := onAcquire replica
      onLose := onLose replica
      phase := .idle
      loopsStarted := false }

end Legba.Leader
