import Legba.LabelledRun
import Legba.SourcePoll

/-!
# Concurrent ingest dedupe

Source actors write and link their signals concurrently, one statement at a
time: an actor writes a row, looks it up by URL and by content, and links it in
three statements.  An exception may end an apply after any of them.
-/

namespace Legba.Sources

open KeyedTable LabelledRun

def Tables.write (tables : Tables) (source : Source) (turn : WriteTurn)
    (signal : Signal) : Tables :=
  { tables with
    pool := (writeCanonicalSignal source.collapse source.ownerTenant turn
      tables.pool signal).1 }

def writeResult (tables : Tables) (source : Source) (turn : WriteTurn)
    (signal : Signal) : WriteResult :=
  (writeCanonicalSignal source.collapse source.ownerTenant turn tables.pool signal).2

inductive Phase where
  | idle
  | written (signal : Signal)
  | missedUrl (signal : Signal)
  | linking (signal : Signal) (canonical : Uuid)
  | stamped (signal : Signal) (canonical : Uuid)
  | aliased (signal : Signal) (canonical : Uuid)

structure IngestState where
  tables : Tables
  phase : String → Phase

def IngestState.start : IngestState where
  tables := ⟨Table.empty, []⟩
  phase := fun _ => .idle

/-- A signal which its handler yields is written, an actor executes its next
statement, or an exception ends its apply. -/
inductive IngestEvent where
  | write (actor : String) (signal : Signal) (turn : WriteTurn)
  | statement (actor : String)
  | abandon (actor : String)

def phaseAfterContent (hashing : Hashing) (dedupe : IngestDedupe)
    (pool : Pool) (signal : Signal) : Phase :=
  match dedupe.resolveByContent hashing pool signal with
  | some canonical => .linking signal canonical
  | none => .idle

def phaseAfterUrl (hashing : Hashing) (dedupe : IngestDedupe) (pool : Pool)
    (signal : Signal) : Phase :=
  match dedupe.resolveByUrl hashing pool signal with
  | some (some canonical) => .linking signal canonical
  | some none => .missedUrl signal
  | none => phaseAfterContent hashing dedupe pool signal

def phaseAfterWrite (source : Source) (signal : Signal) : WriteResult → Phase
  | .inserted => if source.dedupe.isSome then .written signal else .idle
  | _ => .idle

def IngestState.move (state : IngestState) (actor : String) (tables : Tables)
    (phase : Phase) : IngestState where
  tables := tables
  phase := Function.update state.phase actor phase

def ingestWrite (source : Source) (state : IngestState) (actor : String)
    (signal : Signal) (turn : WriteTurn) : IngestState :=
  let stamped := stampTenant source signal
  state.move actor (state.tables.write source turn stamped)
    (phaseAfterWrite source stamped (writeResult state.tables source turn stamped))

def ingestStatement (hashing : Hashing) (source : Source)
    (state : IngestState) (actor : String) : Option IngestState :=
  match state.phase actor with
  | .idle => none
  | .written signal =>
    source.dedupe.map fun dedupe =>
      state.move actor state.tables (phaseAfterUrl hashing dedupe state.tables.pool signal)
  | .missedUrl signal =>
    source.dedupe.map fun dedupe =>
      state.move actor state.tables (phaseAfterContent hashing dedupe state.tables.pool signal)
  | .linking signal canonical =>
    some (state.move actor (stampCanonical state.tables canonical)
      (if signal.signalId = canonical then .idle
      else .stamped signal canonical))
  | .stamped signal canonical =>
    some (state.move actor
      (insertAlias state.tables signal.signalId canonical)
      (.aliased signal canonical))
  | .aliased signal canonical =>
    some (state.move actor (setPointer state.tables signal.signalId canonical) .idle)

/-- An actor writes its next signal when it is done with the last one.  A
signal of a handler carries no pointer. -/
def ingestStep (hashing : Hashing) (sources : String → Source)
    (state : IngestState) : IngestEvent → Option IngestState
  | .write actor signal turn =>
    match state.phase actor, signal.canonicalSignalId with
    | .idle, none => some (ingestWrite (sources actor) state actor signal turn)
    | _, _ => none
  | .statement actor => ingestStatement hashing (sources actor) state actor
  | .abandon actor => some (state.move actor state.tables .idle)

end Legba.Sources
