import Legba.KeyedTable
import Legba.SubjectPlanning

/-!
# The late-join handoff

A target which joins late is caught up from the signals pool and then follows
the stream.  Its coroutine takes the wall clock, reads the last sequence
number of the stream as the boundary, reads the pool once for each binding,
replays what it kept and binds its consumer behind the boundary.  Meanwhile
the sources stamp, write and publish signals.

`schedule` is history: the clock reading of the capture and the steps at which
the boundary and the pool were read.
-/

namespace Legba.Subscriptions

open KeyedTable JsonValue SubjectTokens Option

structure Signal where
  signalId : Uuid
  sourceId : String
  fetchedAt : Datetime
  ownerTenant : String := "default"
  modality : String := "text"
  payload : List (String × Json) := []
  language : Option String := none
  geo : List String := []
  tags : List String := []
  entityClasses : List String := []
  sourceCredibility : Option ℚ := none
  canonicalSignalId : Option Uuid := none
  modality_known : modality ∈ knownModalities := by decide

def Signal.row (signal : Signal) : SignalRow where
  id := some signal.signalId
  sourceId := some signal.sourceId
  ownerTenant := some signal.ownerTenant
  fetchedAt := some signal.fetchedAt
  modality := some signal.modality
  language := signal.language
  geo := some (signal.geo.map some)
  tags := some (signal.tags.map some)
  entityClasses := some (signal.entityClasses.map some)
  sourceCredibility := signal.sourceCredibility
  canonicalSignalId := signal.canonicalSignalId
  payload := signal.payload

def Signal.subject (signal : Signal) : String :=
  signalSubject signal.ownerTenant signal.sourceId signal.modality

/-- The place of a message in the stream, and the step which published it. -/
structure Publication where
  seq : ℕ
  step : ℕ

structure SourceEntry where
  signal : Signal
  writtenAt : Option ℕ := none
  published : Option Publication := none

def SourceEntry.written (entry : SourceEntry) (step : ℕ) : SourceEntry :=
  { entry with writtenAt := some step }

def SourceEntry.sent (entry : SourceEntry) (publication : Publication) :
    SourceEntry :=
  { entry with published := some publication }

structure BackfillCursor where
  boundarySeq : ℕ
  capturedAt : Datetime
  streamPresent : Bool

def BackfillCursor.forwardStartSeq (cursor : BackfillCursor) : ℕ :=
  cursor.boundarySeq + 1

def notAfter : Option Datetime → Option Datetime → Bool
  | none, _ => true
  | some _, none => false
  | some a, some b => decide (a ≤ b)

/-- `SELECT * … ORDER BY fetched_at DESC`. -/
def SqlFilter.selectSignals {startParam : ℕ} (filter : SqlFilter startParam)
    (pool : List SignalRow) (limit : Option ℕ := none) : List SignalRow :=
  let rows := (pool.filter fun row => filter.Keeps row).insertionSort
    fun a b => notAfter b.fetchedAt a.fetchedAt
  match limit with
  | none => rows
  | some n => rows.take n

def readSlice (evalResidual : String → SignalRow → Bool)
    (binding : ResolvedBinding) (pool : List SignalRow)
    (limit : Option ℕ := none) : List SignalRow :=
  let sub := binding.subscription
  let out := (buildSqlFilter binding.sourceId binding.ownerTenant sub).selectSignals pool limit
  match sub.predicate with
  | none => out
  | some pred =>
    if pred = "" then out
    else out.filter fun row => residualMatches evalResidual sub row

/-- `_read_binding_history`: rows fetched after the capture are left to the
forward stream. -/
def readBindingHistory (evalResidual : String → SignalRow → Bool)
    (cursor : BackfillCursor) (binding : ResolvedBinding)
    (pool : List SignalRow) (limit : Option ℕ := none) : List SignalRow :=
  (readSlice evalResidual binding pool limit).filter fun row =>
    match row.fetchedAt with
    | none => true
    | some fetched => !decide (cursor.capturedAt < fetched)

def replaysBefore (a b : SignalRow) : Bool :=
  if a.fetchedAt = b.fetchedAt then decide (a.id.getD 0 ≤ b.id.getD 0)
  else notAfter a.fetchedAt b.fetchedAt

def chronological (rows : List SignalRow) : List SignalRow :=
  rows.insertionSort fun a b => replaysBefore a b

/-- `_ensure_consumer_from_seq`: a live consumer of that name is replaced. -/
def ensureConsumerFromSeq (durable : String) (filterSubjects : List String)
    (startSeq : ℕ) : ConsumerConfig :=
  let config : ConsumerConfig :=
    { durableName := durable
      deliverPolicy := .byStartSequence
      optStartSeq := some (max startSeq 1)
      ackPolicy := .explicit
      maxAckPending := 1000 }
  config.withFilters (wantedFilters filterSubjects)

def bindForward (targetId : String) (bindings : List ResolvedBinding)
    (cursor : BackfillCursor) : Option ConsumerConfig :=
  if bindings.isEmpty then none
  else some (ensureConsumerFromSeq (targetConsumerName targetId)
    (subjectFiltersFor bindings) cursor.forwardStartSeq)

def ConsumerConfig.receives (config : ConsumerConfig) (seq : ℕ) (subject : String) : Bool :=
  decide (config.optStartSeq.getD 1 ≤ seq) &&
    config.filters.any fun filter => subjectMatches filter subject

/-! ## The two sides together -/

inductive HandoffPhase where
  | registered
  -- `captured_at` is taken, `last_seq` is not read yet
  | capturing (capturedAt : Datetime)
  | reading (cursor : BackfillCursor) (remaining : List ResolvedBinding) (merged : List SignalRow)
  | replayed (cursor : BackfillCursor) (delivered : List SignalRow)
  | forwarding (cursor : BackfillCursor) (delivered : List SignalRow)
      (consumer : Option ConsumerConfig)

structure Schedule where
  capturedAt : Datetime
  boundary : ℕ := 0
  selects : List (ResolvedBinding × ℕ) := []

structure HandoffState where
  now : Datetime
  steps : ℕ
  signals : Table Uuid SourceEntry
  lastSeq : ℕ
  phase : HandoffPhase
  schedule : Schedule

structure Handoff where
  targetId : String
  bindings : List ResolvedBinding
  evalResidual : String → SignalRow → Bool

inductive HandoffLabel where
  | tick (elapsed : ℕ)
  | stamp (signal : Signal)
  | write (id : Uuid)
  | publish (id : Uuid)
  | capture
  | readBoundary
  | select
  | replay
  | bindForward

namespace Handoff

def initial (start : Datetime) : HandoffState where
  now := start
  steps := 0
  signals := .empty
  lastSeq := 0
  phase := .registered
  schedule := { capturedAt := start }

def pool (signals : Table Uuid SourceEntry) : List SignalRow :=
  (signals.select fun entry => entry.writtenAt.isSome).map
    fun entry => entry.2.signal.row

/-- Execute one action.  An id which was used before is refused by the insert,
so only signals with a fresh id are represented. -/
def step (handoff : Handoff) (state : HandoffState) : HandoffLabel → Option HandoffState
  | .tick elapsed => some { state with now := state.now + elapsed, steps := state.steps + 1 }
  | .stamp signal =>
    if signal.fetchedAt = state.now ∧ state.signals.row? signal.signalId = none then
      some { state with
        signals := state.signals.put signal.signalId { signal := signal }
        steps := state.steps + 1 }
    else none
  | .write id =>
    match state.signals.row? id with
    | none => none
    | some entry =>
      if entry.writtenAt = none then
        some { state with
          signals := state.signals.put id (entry.written state.steps)
          steps := state.steps + 1 }
      else none
  | .publish id =>
    match state.signals.row? id with
    | none => none
    | some entry =>
      if entry.writtenAt.isSome ∧ entry.published.isNone then
        some { state with
          signals := state.signals.put id
            (entry.sent { seq := state.lastSeq + 1, step := state.steps })
          lastSeq := state.lastSeq + 1
          steps := state.steps + 1 }
      else none
  | .capture =>
    match state.phase with
    | .registered =>
      some { state with
        phase := .capturing state.now
        schedule := { capturedAt := state.now }
        steps := state.steps + 1 }
    | _ => none
  | .readBoundary =>
    match state.phase with
    | .capturing capturedAt =>
      some { state with
        phase := .reading
          { boundarySeq := state.lastSeq, capturedAt := capturedAt,
            streamPresent := true } handoff.bindings []
        schedule := { state.schedule with boundary := state.steps }
        steps := state.steps + 1 }
    | _ => none
  | .select =>
    match state.phase with
    | .reading cursor (binding :: remaining) merged =>
      some { state with
        phase := .reading cursor remaining
          (mergeNew SignalRow.id merged
            (readBindingHistory handoff.evalResidual cursor binding (pool state.signals)))
        schedule := { state.schedule with
          selects := state.schedule.selects ++ [(binding, state.steps)] }
        steps := state.steps + 1 }
    | _ => none
  | .replay =>
    match state.phase with
    | .reading cursor [] merged =>
      some { state with
        phase := .replayed cursor (chronological merged)
        steps := state.steps + 1 }
    | _ => none
  | .bindForward =>
    match state.phase with
    | .replayed cursor delivered =>
      some { state with
        phase := .forwarding cursor delivered
          (Subscriptions.bindForward handoff.targetId handoff.bindings cursor)
        steps := state.steps + 1 }
    | _ => none

/-! ## What one action can do -/

inductive Transition (handoff : Handoff) (state : HandoffState) : HandoffLabel → HandoffState → Prop
  | ticked (elapsed : ℕ) :
      handoff.Transition state (.tick elapsed)
        { state with now := state.now + elapsed, steps := state.steps + 1 }
  | stamped (signal : Signal)
      (hfresh : state.signals.row? signal.signalId = none) :
      handoff.Transition state (.stamp signal)
        { state with
          signals := state.signals.put signal.signalId { signal := signal }
          steps := state.steps + 1 }
  | wrote (id : Uuid) (entry : SourceEntry)
      (hentry : state.signals.row? id = some entry)
      (hunwritten : entry.writtenAt = none) :
      handoff.Transition state (.write id)
        { state with
          signals := state.signals.put id (entry.written state.steps)
          steps := state.steps + 1 }
  | published (id : Uuid) (entry : SourceEntry) (w : ℕ)
      (hentry : state.signals.row? id = some entry)
      (hwritten : entry.writtenAt = some w)
      (hunsent : entry.published = none) :
      handoff.Transition state (.publish id)
        { state with
          signals := state.signals.put id
            (entry.sent { seq := state.lastSeq + 1, step := state.steps })
          lastSeq := state.lastSeq + 1
          steps := state.steps + 1 }
  | captured (hphase : state.phase = .registered) :
      handoff.Transition state .capture
        { state with
          phase := .capturing state.now
          schedule := { capturedAt := state.now }
          steps := state.steps + 1 }
  | boundaryRead (capturedAt : Datetime)
      (hphase : state.phase = .capturing capturedAt) :
      handoff.Transition state .readBoundary
        { state with
          phase := .reading
            { boundarySeq := state.lastSeq, capturedAt := capturedAt,
              streamPresent := true } handoff.bindings []
          schedule := { state.schedule with boundary := state.steps }
          steps := state.steps + 1 }
  | selected (cursor : BackfillCursor) (binding : ResolvedBinding)
      (remaining : List ResolvedBinding) (merged : List SignalRow)
      (hphase : state.phase = .reading cursor (binding :: remaining) merged) :
      handoff.Transition state .select
        { state with
          phase := .reading cursor remaining
            (mergeNew SignalRow.id merged
              (readBindingHistory handoff.evalResidual cursor binding (pool state.signals)))
          schedule := { state.schedule with
            selects := state.schedule.selects ++ [(binding, state.steps)] }
          steps := state.steps + 1 }
  | replayed (cursor : BackfillCursor) (merged : List SignalRow)
      (hphase : state.phase = .reading cursor [] merged) :
      handoff.Transition state .replay
        { state with
          phase := .replayed cursor (chronological merged)
          steps := state.steps + 1 }
  | bound (cursor : BackfillCursor) (delivered : List SignalRow)
      (hphase : state.phase = .replayed cursor delivered) :
      handoff.Transition state .bindForward
        { state with
          phase := .forwarding cursor delivered
            (Subscriptions.bindForward handoff.targetId handoff.bindings cursor)
          steps := state.steps + 1 }

theorem step_transition {handoff : Handoff} {state next : HandoffState} {label : HandoffLabel}
    (hstep : handoff.step state label = some next) : handoff.Transition state label next := by
  cases label with
  | tick elapsed =>
    obtain rfl := some.inj hstep
    exact .ticked elapsed
  | stamp signal =>
    simp only [step] at hstep
    split at hstep
    · rename_i hguard
      obtain rfl := some.inj hstep
      exact .stamped signal hguard.2
    · contradiction
  | write id =>
    simp only [step] at hstep
    split at hstep
    · contradiction
    · rename_i entry hentry
      split at hstep
      · rename_i hunwritten
        obtain rfl := some.inj hstep
        exact .wrote id entry hentry hunwritten
      · contradiction
  | publish id =>
    simp only [step] at hstep
    split at hstep
    · contradiction
    · rename_i entry hentry
      split at hstep
      · rename_i hguard
        obtain ⟨w, hwritten⟩ := isSome_iff_exists.mp hguard.1
        obtain rfl := some.inj hstep
        exact .published id entry w hentry hwritten (isNone_iff_eq_none.mp hguard.2)
      · contradiction
  | capture =>
    simp only [step] at hstep
    split at hstep
    · rename_i hphase
      obtain rfl := some.inj hstep
      exact .captured hphase
    · contradiction
  | readBoundary =>
    simp only [step] at hstep
    split at hstep
    · rename_i capturedAt hphase
      obtain rfl := some.inj hstep
      exact .boundaryRead capturedAt hphase
    · contradiction
  | select =>
    simp only [step] at hstep
    split at hstep
    · rename_i cursor binding remaining merged hphase
      obtain rfl := some.inj hstep
      exact .selected cursor binding remaining merged hphase
    · contradiction
  | replay =>
    simp only [step] at hstep
    split at hstep
    · rename_i cursor merged hphase
      obtain rfl := some.inj hstep
      exact .replayed cursor merged hphase
    · contradiction
  | bindForward =>
    simp only [step] at hstep
    split at hstep
    · rename_i cursor delivered hphase
      obtain rfl := some.inj hstep
      exact .bound cursor delivered hphase
    · contradiction

def Matches (handoff : Handoff) (signal : Signal) : Prop :=
  ∃ b ∈ handoff.bindings,
    matchesRow handoff.evalResidual b.subscription signal.row b.sourceId b.ownerTenant = true

/-- `delivers` for some binding. -/
def delivers (handoff : Handoff) (row : SignalRow) : Bool :=
  handoff.bindings.any fun b =>
    matchesRow handoff.evalResidual b.subscription row b.sourceId b.ownerTenant

def forwards (handoff : Handoff) (consumer : Option ConsumerConfig) (entry : SourceEntry) : Bool :=
  match consumer, entry.published with
  | some config, some publication =>
    config.receives publication.seq entry.signal.subject && handoff.delivers entry.signal.row
  | _, _ => false

def forwarded (handoff : Handoff) (state : HandoffState)
    (consumer : Option ConsumerConfig) : List SignalRow :=
  (state.signals.select fun entry => handoff.forwards consumer entry).map
    fun entry => entry.2.signal.row

def received (handoff : Handoff) (state : HandoffState) : List SignalRow :=
  match state.phase with
  | .replayed _ delivered => delivered
  | .forwarding _ delivered consumer => delivered ++ handoff.forwarded state consumer
  | _ => []

def deliveries (handoff : Handoff) (state : HandoffState) (id : Uuid) : ℕ :=
  ((handoff.received state).map SignalRow.id).count (some id)

end Handoff

end Legba.Subscriptions
