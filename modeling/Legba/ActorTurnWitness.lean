import Legba.Datetime
import Legba.KeyedTable
import Legba.LabelledRun
import Legba.RowOrder

/-!
# The actor turn witness

Every call of an actor method passes a middleware which records, per actor id,
how many calls are in this process and when the last one left.  A fire is
dispatched by such a call; when the call raises, the dispatcher asks the
witness whether the actor was occupied since the fire, and reports the fire as
coalesced into the running turn if it was.

The calls are recorded beside the witness.  The clock need not be monotone.
-/

namespace Legba.Turns

open KeyedTable
open RowOrder (firstBy)

structure Entry where
  inFlight : ℕ
  startedAt : Option Datetime
  endedAt : Option Datetime
deriving DecidableEq

inductive Coverage where
  | inFlight
  | endedAfterFire
deriving DecidableEq

abbrev Witness := Table String Entry

def maxTracked : ℕ := 5000

/-- `COMPLETED_TURN_RETENTION_S`. -/
def completedTurnRetention : Datetime := seconds 900

def Entry.age (entry : Entry) : Datetime :=
  match entry.endedAt.filter (· ≠ 0), entry.startedAt.filter (· ≠ 0) with
  | some ended, _ => ended
  | none, some started => started
  | none, none => 0

def Witness.prune (witness : Witness) (retention now : Datetime) : Witness :=
  let kept := witness.deleteMatching fun _ entry =>
    decide (entry.inFlight = 0 ∧ ∀ ended ∈ entry.endedAt, ended < now - retention)
  if kept.keys.length < maxTracked then kept
  else
    let age := fun actorId => ((kept.row? actorId).map Entry.age).getD 0
    match firstBy (fun a b => decide (age a < age b)) kept.keys with
    | none => kept
    | some oldest => kept.deleteMatching fun actorId _ => decide (actorId = oldest)

/-- `begin`, with the readings of the clock by `_prune` and after it. -/
def Witness.beginAfter (witness : Witness) (retention : Datetime)
    (actorId : String) (pruneNow now : Datetime) : Witness :=
  match witness.row? actorId with
  | some entry => witness.put actorId
      { entry with inFlight := entry.inFlight + 1, startedAt := some now }
  | none => (witness.prune retention pruneNow).put actorId ⟨1, some now, none⟩

/-- `begin` of the witness of the process, which has the default retention. -/
def Witness.begin (witness : Witness) (actorId : String) (pruneNow now : Datetime) : Witness :=
  witness.beginAfter completedTurnRetention actorId pruneNow now

def Witness.endCall (witness : Witness) (actorId : String) (now : Datetime) :
    Witness :=
  witness.update actorId fun entry =>
    { entry with inFlight := entry.inFlight - 1, endedAt := some now }

def Witness.covers (witness : Witness) (actorId : String) (since : Datetime) : Option Coverage :=
  match witness.row? actorId with
  | none => none
  | some entry =>
    if 0 < entry.inFlight then some .inFlight
    else
      match entry.endedAt with
      | some ended => if since ≤ ended then some .endedAfterFire else none
      | none => none

/-! ## Dispatches -/

structure TriggerFire where
  analystId : String
  targetId : String
  firedAt : Datetime

def workerActorId (analystId targetId : String) : String :=
  "analyst::" ++ analystId ++ "::" ++ targetId

def resolveAnalystActorId (analystActorIds : Table String String) (analystId : String) : String :=
  (analystActorIds.row? analystId).getD ("analyst::" ++ analystId ++ "::")

inductive Outcome where
  | actorRun
  | coalesced (witness : Coverage)
  /-- The exception of the call, which the runner logs as a failed run. -/
  | failed
  | cancelled
deriving DecidableEq

structure Dispatch where
  fire : TriggerFire
  actorId : String
  outcome : Option Outcome

/-- A call of an actor method which has reached this process, and the
dispatch it comes from if there is one. -/
structure Call where
  actorId : String
  dispatch : Option ℕ
  endedAt : Option Datetime

structure State where
  witness : Witness
  analystActorIds : Table String String
  calls : List Call
  dispatches : List Dispatch

def initial : State := ⟨Table.empty, Table.empty, [], []⟩

inductive Event where
  | remember (analystId actorId : String)
  | forget (analystId actorId : String)
  | enter (actorId : String) (dispatch : Option ℕ) (pruneNow now : Datetime)
  | leave (call : ℕ) (now : Datetime)
  | fire (fire : TriggerFire)
  | answer (dispatch : ℕ)
  | raise (dispatch : ℕ)
  | cancel (dispatch : ℕ)

/-- The gate of `_work`, and the actor its call goes to. -/
def route (analystActorIds : Table String String) (fire : TriggerFire) : Option String :=
  if (analystActorIds.row? fire.analystId).isNone then none
  else if fire.targetId ≠ "" then
    some (workerActorId fire.analystId fire.targetId)
  else some (resolveAnalystActorId analystActorIds fire.analystId)

def raised (witness : Witness) (dispatch : Dispatch) : Outcome :=
  match witness.covers dispatch.actorId dispatch.fire.firedAt with
  | none => .failed
  | some coverage => .coalesced coverage

def State.finish (state : State) (index : ℕ) (outcome : Dispatch → Outcome) : Option State :=
  match state.dispatches[index]? with
  | none => none
  | some dispatch =>
    if dispatch.outcome.isSome then none
    else some { state with
      dispatches := state.dispatches.set index
        { dispatch with outcome := some (outcome dispatch) } }

def State.admits (state : State) (actorId : String) (dispatch : Option ℕ) :
    Prop :=
  ∀ index ∈ dispatch, ∃ sent ∈ state.dispatches[index]?, sent.actorId = actorId

instance (state : State) (actorId : String) (dispatch : Option ℕ) :
    Decidable (state.admits actorId dispatch) :=
  match dispatch with
  | none => .isTrue (by simp [State.admits])
  | some index =>
    match hsent : state.dispatches[index]? with
    | none => .isFalse (by simp [State.admits, hsent])
    | some sent => decidable_of_iff (sent.actorId = actorId) (by simp [State.admits, hsent])

def step (state : State) : Event → Option State
  | .remember analystId actorId =>
    some { state with
      analystActorIds := state.analystActorIds.put analystId actorId }
  | .forget analystId actorId =>
    some { state with
      analystActorIds := state.analystActorIds.deleteMatching
        fun key cached => decide (key = analystId ∧ cached = actorId) }
  | .enter actorId dispatch pruneNow now =>
    if state.admits actorId dispatch then
      some { state with
        witness := state.witness.begin actorId pruneNow now
        calls := state.calls ++ [⟨actorId, dispatch, none⟩] }
    else none
  | .leave index now =>
    match state.calls[index]? with
    | none => none
    | some call =>
      if call.endedAt.isSome then none
      else some { state with
        witness := state.witness.endCall call.actorId now
        calls := state.calls.set index
          { call with endedAt := some now } }
  | .fire fire =>
    match route state.analystActorIds fire with
    | none => some state
    | some actorId =>
      some { state with
        dispatches := state.dispatches ++ [⟨fire, actorId, none⟩] }
  | .answer index => state.finish index fun _ => .actorRun
  | .raise index => state.finish index (raised state.witness)
  | .cancel index => state.finish index fun _ => .cancelled

end Legba.Turns
