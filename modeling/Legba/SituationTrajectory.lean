import Legba.RowOrder
import Legba.SignalRow
import Mathlib.Data.Rat.Defs

/-!
# The situation trajectory

The state machine of a situation and the append-only ledger of its moves.  A
move is decided from the state before it; the current state is read from the
ledger, from the row which is the newest by the time its evidence dates it.
-/

namespace Legba.Situations

open RowOrder

inductive Delta where
  | escalates
  | deEscalates
  | broadens
  | unchangedCheckpoint
deriving DecidableEq

def Delta.ofText : String → Option Delta
  | "escalates" => some .escalates
  | "de_escalates" => some .deEscalates
  | "broadens" => some .broadens
  | "unchanged_checkpoint" => some .unchangedCheckpoint
  | _ => none

inductive TrajectoryState where
  | watching
  | escalating
  | deEscalating
  | dormant
  | closed
deriving DecidableEq

def initialState : TrajectoryState := .watching

def dormancyDays : ℕ := 14

def reopenable : TrajectoryState → Bool
  | .dormant => true
  | .closed => true
  | _ => false

def deltaRequiresEvidence (delta : Delta) : Bool :=
  delta != .unchangedCheckpoint

def nextState (current : TrajectoryState) (delta : Delta)
    (resolutionGrounded dormant : Bool) : TrajectoryState :=
  match delta with
  | .unchangedCheckpoint =>
    if dormant && !reopenable current then .dormant else current
  | .escalates => .escalating
  | .deEscalates => if resolutionGrounded then .closed else .deEscalating
  | .broadens => if reopenable current then .watching else current

structure TrajectoryEvent where
  situationId : Uuid
  occurredAt : Datetime
  delta : Delta
  why : String
  stateFrom : TrajectoryState
  stateTo : TrajectoryState
  derivedFrom : List Uuid
  why_ne : why ≠ ""
  evidence : deltaRequiresEvidence delta = true → derivedFrom ≠ []

/-- `none` is a `TrajectoryTransitionError`. -/
def TrajectoryEvent.build? (situationId : Uuid) (occurredAt : Datetime)
    (delta : Delta) (why : String) (stateFrom stateTo : TrajectoryState)
    (derivedFrom : List Uuid) : Option TrajectoryEvent :=
  if hwhy : why ≠ "" then
    if hevidence : deltaRequiresEvidence delta = true → derivedFrom ≠ [] then
      some ⟨situationId, occurredAt, delta, why, stateFrom, stateTo, derivedFrom, hwhy, hevidence⟩
    else none
  else none

theorem TrajectoryEvent.build?_eq_some {situationId : Uuid} {occurredAt : Datetime}
    {delta : Delta} {why : String} {stateFrom stateTo : TrajectoryState}
    {derivedFrom : List Uuid} {event : TrajectoryEvent}
    (hbuild : TrajectoryEvent.build? situationId occurredAt delta why stateFrom
      stateTo derivedFrom = some event) :
    event.situationId = situationId ∧ event.occurredAt = occurredAt ∧
      event.delta = delta ∧ event.stateFrom = stateFrom ∧
      event.stateTo = stateTo := by
  unfold TrajectoryEvent.build? at hbuild
  split at hbuild
  · split at hbuild
    · simp only [Option.some.injEq] at hbuild
      subst event
      exact ⟨rfl, rfl, rfl, rfl, rfl⟩
    · simp at hbuild
  · simp at hbuild

structure EventRow where
  id : Uuid
  event : TrajectoryEvent
  sourceOutputId : Uuid
  createdAt : Datetime

abbrev EventRow.situationId (row : EventRow) : Uuid := row.event.situationId

abbrev Ledger := List EventRow

def rowsOf (ledger : Ledger) (situationId : Uuid) : Ledger :=
  ledger.filter fun row => row.situationId = situationId

def faithfulnessFloor : ℚ := 1 / 2

/-- `verification` is the faithfulness score of the source, if it has one. -/
def admits (event : TrajectoryEvent) (verification : Option ℚ) : Bool :=
  if deltaRequiresEvidence event.delta then
    match verification with
    | none => false
    | some score => decide (faithfulnessFloor ≤ score)
  else true

/-- The database's part of the rows a recording writes: the output they are
bound to, the time and the ids. -/
structure Recording where
  sourceOutputId : Uuid
  verification : Option ℚ
  createdAt : Datetime
  rowId : Uuid → Uuid

def Recording.row (recording : Recording) (event : TrajectoryEvent) : EventRow where
  id := recording.rowId event.situationId
  event := event
  sourceOutputId := recording.sourceOutputId
  createdAt := recording.createdAt

/-- `INSERT … ON CONFLICT (situation_id, source_output_id) DO NOTHING`, for an
admitted event. -/
def recordEvent (recording : Recording) (ledger : Ledger) (event : TrajectoryEvent) : Ledger :=
  if admits event recording.verification = false then ledger
  else if ledger.any fun row => row.situationId = event.situationId &&
      row.sourceOutputId = recording.sourceOutputId then ledger
  else ledger ++ [recording.row event]

def recordSituationEvents (recording : Recording) (ledger : Ledger)
    (events : List TrajectoryEvent) : Ledger :=
  events.foldl (recordEvent recording) ledger

/-- `ORDER BY occurred_at DESC, created_at DESC, id DESC`. -/
def newer : EventRow → EventRow → Bool :=
  greaterThen (fun row => row.event.occurredAt)
    (greaterThen EventRow.createdAt (greater fun row => row.id.toNat))

def readCurrentState (ledger : Ledger) (situationId : Uuid) : Option TrajectoryState :=
  (firstBy newer (rowsOf ledger situationId)).map fun row => row.event.stateTo

/-- The newest `occurred_at` among the rows which are not checkpoints. -/
def lastCorroboratedAt (ledger : Ledger) (situationId : Uuid) : Option Datetime :=
  ((rowsOf ledger situationId).filter fun row =>
    deltaRequiresEvidence row.event.delta).map
      (fun row => row.event.occurredAt) |>.max?

def evidenceAnchor (corroboration openedAt : Option Datetime) : Option Datetime × Bool :=
  match corroboration with
  | some anchor => (some anchor, true)
  | none => (openedAt, false)

end Legba.Situations
