import Legba.SituationTrajectory
import Mathlib.Algebra.Order.Field.Rat
import Mathlib.Data.List.Sort

/-!
# The situation tracker

One tick of the tracker: gather the evidence attached to the selected
situations since their watermarks, ask the model about those which have news,
settle the silent ones into dormancy, fold the verdicts into pending ledger
rows, and advance the watermarks of the situations which got one.  The runtime
then records the rows under the output of the tick.

A tick is given the situations, the findings, the model's replies as the
coerced fields of their objects, and the verification of its output.
-/

namespace Legba.Situations

open List

/-- `faithfulness` is the latest verdict on the finding, if it was verified. -/
structure FindingRow where
  id : Uuid
  isFinding : Bool
  producedAt : Datetime
  confidence : Option ℚ
  faithfulness : Option ℚ
deriving DecidableEq

/-- `LEAST(confidence, faithfulness_score)` of a verified finding. -/
def FindingRow.effectiveConfidence (row : FindingRow) : Option ℚ :=
  row.faithfulness.map fun score =>
    match row.confidence with
    | none => score
    | some confidence => min confidence score

/-- The members of the situation are `derivedFrom`. -/
structure SituationRow where
  id : Uuid
  lastEventAt : Option Datetime
  openedAt : Option Datetime
  derivedFrom : List Uuid

structure EvidenceItem where
  ordinal : ℕ
  findingId : Uuid
  producedAt : Datetime
  effectiveConfidence : ℚ
deriving DecidableEq

def numberItems : ℕ → List FindingRow → List EvidenceItem
  | _, [] => []
  | ordinal, row :: rest =>
    { ordinal := ordinal + 1
      findingId := row.id
      producedAt := row.producedAt
      effectiveConfidence := row.effectiveConfidence.getD 0 } ::
    numberItems (ordinal + 1) rest

structure SituationCandidate where
  situationId : Uuid
  handle : ℕ
  lastEventAt : Option Datetime
  state : TrajectoryState
  evidence : List EvidenceItem
  evidenceAnchorAt : Option Datetime
  corroborated : Bool

structure TrackerDeps where
  maxEvidence : ℕ
  batchSize : ℕ
  windowHours : ℕ
  floor : ℚ
  dormancyDays : ℕ
  day : Datetime → String

/-- `ORDER BY produced_at ASC, id ASC`. -/
def evidenceOrder (a b : FindingRow) : Prop :=
  a.producedAt < b.producedAt ∨ a.producedAt = b.producedAt ∧ a.id ≤ b.id

instance : DecidableRel evidenceOrder := fun a b =>
  inferInstanceAs (Decidable (a.producedAt < b.producedAt ∨
    a.producedAt = b.producedAt ∧ a.id ≤ b.id))

def qualifies (floor : ℚ) (members : List Uuid) (row : FindingRow) : Bool :=
  members.contains row.id && row.isFinding &&
    match row.effectiveConfidence with
    | none => false
    | some confidence => decide (floor ≤ confidence)

/-- `_NEW_EVIDENCE_SQL`. -/
def newEvidence (findings : List FindingRow) (members : List Uuid)
    (since : Datetime) (floor : ℚ) (limit : ℕ) : List FindingRow :=
  ((findings.filter fun row =>
    qualifies floor members row && decide (since < row.producedAt)).insertionSort
      evidenceOrder).take limit

/-- The candidates from the given position on; `ordinal` items were numbered
before. -/
def candidatesFrom (deps : TrackerDeps) (watermarks : Uuid → Option Datetime)
    (ledger : Ledger) (now : Datetime) (findings : List FindingRow) :
    List SituationRow → ℕ → ℕ → List SituationCandidate
  | [], _, _ => []
  | row :: rest, position, ordinal =>
    let backstop := now - seconds (3600 * deps.windowHours)
    let since := (watermarks row.id).getD backstop
    let found := newEvidence findings row.derivedFrom since deps.floor deps.maxEvidence
    let anchor := evidenceAnchor (lastCorroboratedAt ledger row.id) row.openedAt
    { situationId := row.id
      handle := position + 1
      lastEventAt := row.lastEventAt
      state := (readCurrentState ledger row.id).getD initialState
      evidence := numberItems ordinal found
      evidenceAnchorAt := anchor.1
      corroborated := anchor.2 } ::
    candidatesFrom deps watermarks ledger now findings rest (position + 1) (ordinal + found.length)

def gatherCandidates (deps : TrackerDeps)
    (watermarks : Uuid → Option Datetime) (ledger : Ledger) (now : Datetime)
    (situations : List SituationRow) (findings : List FindingRow) :
    List SituationCandidate :=
  candidatesFrom deps watermarks ledger now findings situations 0 0

/-- One object of a reply: `handle` is the number of the handle echoed, `why`
has its whitespace collapsed, and `cites` are the integers among the cites. -/
structure ReplyItem where
  handle : Option ℕ
  delta : String
  why : String
  cites : List ℤ
  resolution : Bool

structure Verdict where
  candidate : SituationCandidate
  delta : Delta
  why : String
  cited : List EvidenceItem
  resolution : Bool
  dormant : Bool

/-- The verdict of one object about a situation of the batch which no earlier
object spoke about. -/
def parseItem (batch : List SituationCandidate) (seen : List ℕ)
    (item : ReplyItem) : Option Verdict :=
  match batch.find? fun cand => item.handle = some cand.handle with
  | none => none
  | some cand =>
    if cand.handle ∈ seen then none
    else
      match Delta.ofText item.delta with
      | none => none
      | some delta =>
        let cited := cand.evidence.filter fun evidence => item.cites.contains (evidence.ordinal : ℤ)
        if item.why = "" then none
        else if deltaRequiresEvidence delta && cited.isEmpty then none
        else some
          { candidate := cand
            delta := delta
            why := String.ofList (item.why.toList.take 2000)
            cited := cited
            resolution := item.resolution
            dormant := false }

def parseVerdicts (batch : List SituationCandidate) : List ReplyItem → List ℕ → List Verdict
  | [], _ => []
  | item :: rest, seen =>
    match parseItem batch seen item with
    | none => parseVerdicts batch rest seen
    | some verdict => verdict :: parseVerdicts batch rest (verdict.candidate.handle :: seen)

def adjudicate (deps : TrackerDeps) (replies : ℕ → Option (List ReplyItem))
    (candidates : List SituationCandidate) : List Verdict :=
  let size := max 1 deps.batchSize
  (range ((candidates.length + size - 1) / size)).flatMap fun index =>
    match replies index with
    | none => []
    | some items => parseVerdicts ((candidates.drop (index * size)).take size) items []

def dormancyWhy (deps : TrackerDeps) (now anchor : Datetime) (corroborated : Bool) : String :=
  let quietDays := (now - anchor) / seconds 86400
  if corroborated then
    "No evidence has moved this situation since " ++ deps.day anchor ++ " (" ++
      toString quietDays ++ " days); marking the thread dormant pending a " ++
      "new attachment."
  else
    "This situation has never been corroborated by an evidence-bearing " ++
      "delta; it has stood open since " ++ deps.day anchor ++ " (" ++
      toString quietDays ++ " days). Marking the thread dormant pending a " ++
      "new attachment."

def dormancyVerdict (deps : TrackerDeps) (now : Datetime)
    (cand : SituationCandidate) : Option Verdict :=
  if reopenable cand.state then none
  else
    match cand.evidenceAnchorAt with
    | none => none
    | some anchor =>
      if now - anchor < seconds (86400 * deps.dormancyDays) then none
      else some
        { candidate := cand
          delta := .unchangedCheckpoint
          why := dormancyWhy deps now anchor cand.corroborated
          cited := []
          resolution := false
          dormant := true }

/-- A row with evidence is dated by its newest item, a dormancy row by the
tick, and any other checkpoint by the last event of the situation. -/
def Verdict.occurredAt (verdict : Verdict) (now : Datetime) : Datetime :=
  match (verdict.cited.map EvidenceItem.producedAt).max? with
  | some newest => newest
  | none =>
    if verdict.dormant then now
    else verdict.candidate.lastEventAt.getD now

def Verdict.stateTo (verdict : Verdict) : TrajectoryState :=
  nextState verdict.candidate.state verdict.delta verdict.resolution verdict.dormant

def Verdict.event? (verdict : Verdict) (now : Datetime) : Option TrajectoryEvent :=
  TrajectoryEvent.build? verdict.candidate.situationId (verdict.occurredAt now)
    verdict.delta verdict.why verdict.candidate.state verdict.stateTo
    (verdict.cited.map EvidenceItem.findingId)

/-- The events of `build_update`. -/
def buildUpdate (verdicts : List Verdict) (now : Datetime) : List TrajectoryEvent :=
  verdicts.filterMap fun verdict => verdict.event? now

structure Tracker where
  seeded : Bool
  watermarks : Uuid → Option Datetime
  ledger : Ledger

/-- `idle` is a tick with a paused budget or a failed read. -/
structure Tick where
  now : Datetime
  idle : Bool
  situations : List SituationRow
  findings : List FindingRow
  replies : ℕ → Option (List ReplyItem)
  recording : Recording
  nodup_situations : (situations.map SituationRow.id).Nodup
  nodup_findings : (findings.map FindingRow.id).Nodup

def SituationCandidate.mark (cand : SituationCandidate) (now : Datetime) :
    Datetime :=
  match (cand.evidence.map EvidenceItem.producedAt).max? with
  | some newest => newest
  | none => cand.lastEventAt.getD now

def advance (now : Datetime) (watermarks : Uuid → Option Datetime)
    (cand : SituationCandidate) : Uuid → Option Datetime :=
  Function.update watermarks cand.situationId (some (cand.mark now))

def Tick.candidates (tick : Tick) (deps : TrackerDeps) (tracker : Tracker) :
    List SituationCandidate :=
  gatherCandidates deps tracker.watermarks tracker.ledger tick.now tick.situations tick.findings

def Tick.verdicts (tick : Tick) (deps : TrackerDeps) (tracker : Tracker) : List Verdict :=
  let candidates := tick.candidates deps tracker
  adjudicate deps tick.replies (candidates.filter fun cand => !cand.evidence.isEmpty) ++
    (candidates.filter fun cand => cand.evidence.isEmpty).filterMap (dormancyVerdict deps tick.now)

/-- `run_method`: the tracker after it, and the events it hands back. -/
def runMethod (deps : TrackerDeps) (tracker : Tracker) (tick : Tick) :
    Tracker × List TrajectoryEvent :=
  let candidates := tick.candidates deps tracker
  if tick.idle then (tracker, [])
  else if tracker.seeded = false then
    ({ tracker with
        seeded := true
        watermarks := candidates.foldl (advance tick.now) tracker.watermarks },
      [])
  else
    let events := buildUpdate (tick.verdicts deps tracker) tick.now
    let written := candidates.filter fun cand =>
      events.any fun event => event.situationId = cand.situationId
    ({ tracker with
        watermarks := written.foldl (advance tick.now) tracker.watermarks },
      events)

def runTick (deps : TrackerDeps) (tracker : Tracker) (tick : Tick) : Tracker :=
  let result := runMethod deps tracker tick
  { result.1 with
    ledger := recordSituationEvents tick.recording result.1.ledger result.2 }

/-! ## Whose verdict it is -/

theorem map_findingId_numberItems (ordinal : ℕ) (rows : List FindingRow) :
    (numberItems ordinal rows).map EvidenceItem.findingId = rows.map FindingRow.id := by
  induction rows generalizing ordinal with
  | nil => rfl
  | cons row rest ih => rw [numberItems, map_cons, map_cons, ih]

theorem map_producedAt_numberItems (ordinal : ℕ) (rows : List FindingRow) :
    (numberItems ordinal rows).map EvidenceItem.producedAt = rows.map FindingRow.producedAt := by
  induction rows generalizing ordinal with
  | nil => rfl
  | cons row rest ih => rw [numberItems, map_cons, map_cons, ih]

variable {deps : TrackerDeps}

variable {cand : SituationCandidate} {batch : List SituationCandidate}
  {verdict : Verdict}

variable {now : Datetime} {seen : List ℕ} {tracker : Tracker} {tick : Tick}

theorem state_of_mem_candidatesFrom {watermarks : Uuid → Option Datetime} {ledger : Ledger}
    {findings : List FindingRow} {situations : List SituationRow} {position ordinal : ℕ}
    (hcand : cand ∈ candidatesFrom deps watermarks ledger now findings situations position
      ordinal) : cand.state = (readCurrentState ledger cand.situationId).getD initialState := by
  induction situations generalizing position ordinal with
  | nil => simp [candidatesFrom] at hcand
  | cons row rest ih =>
    rcases mem_cons.mp hcand with rfl | hrest
    · rfl
    · exact ih hrest

theorem candidate_of_parseItem {item : ReplyItem}
    (hparse : parseItem batch seen item = some verdict) : verdict.candidate ∈ batch := by
  unfold parseItem at hparse
  split at hparse
  · simp at hparse
  · rename_i cand hfound
    split at hparse
    · simp at hparse
    · split at hparse
      · simp at hparse
      · dsimp only at hparse
        split at hparse
        · simp at hparse
        · split at hparse
          · simp at hparse
          · rw [Option.some.injEq] at hparse
            subst verdict
            exact mem_of_find?_eq_some hfound

theorem candidate_of_mem_parseVerdicts {items : List ReplyItem}
    (hverdict : verdict ∈ parseVerdicts batch items seen) : verdict.candidate ∈ batch := by
  induction items generalizing seen with
  | nil => simp [parseVerdicts] at hverdict
  | cons item rest ih =>
    unfold parseVerdicts at hverdict
    split at hverdict
    · exact ih hverdict
    · rename_i found hparse
      rcases mem_cons.mp hverdict with rfl | hrest
      · exact candidate_of_parseItem hparse
      · exact ih hrest

theorem candidate_of_mem_adjudicate {replies : ℕ → Option (List ReplyItem)}
    {candidates : List SituationCandidate}
    (hverdict : verdict ∈ adjudicate deps replies candidates) : verdict.candidate ∈ candidates := by
  obtain ⟨index, _, hbatch⟩ := mem_flatMap.mp hverdict
  split at hbatch
  · simp at hbatch
  · exact mem_of_mem_drop (mem_of_mem_take (candidate_of_mem_parseVerdicts hbatch))

theorem candidate_of_dormancyVerdict (hverdict : dormancyVerdict deps now cand = some verdict) :
    verdict.candidate = cand := by
  unfold dormancyVerdict at hverdict
  split at hverdict
  · simp at hverdict
  · split at hverdict
    · simp at hverdict
    · split at hverdict
      · simp at hverdict
      · rw [Option.some.injEq] at hverdict
        rw [← hverdict]

theorem candidate_of_mem_verdicts (hverdict : verdict ∈ tick.verdicts deps tracker) :
    verdict.candidate ∈ tick.candidates deps tracker := by
  rcases mem_append.mp hverdict with hmodel | hdormant
  · exact (mem_filter.mp (candidate_of_mem_adjudicate hmodel)).1
  · obtain ⟨cand, hcand, hcheck⟩ := mem_filterMap.mp hdormant
    rw [candidate_of_dormancyVerdict hcheck]
    exact (mem_filter.mp hcand).1

theorem state_of_mem_verdicts (hverdict : verdict ∈ tick.verdicts deps tracker) :
    verdict.candidate.state = (readCurrentState tracker.ledger
      verdict.candidate.situationId).getD initialState :=
  state_of_mem_candidatesFrom (candidate_of_mem_verdicts hverdict)

theorem runTick_ledger (deps : TrackerDeps) (tracker : Tracker) (tick : Tick) :
    (runTick deps tracker tick).ledger =
      if tick.idle || !tracker.seeded then tracker.ledger
      else recordSituationEvents tick.recording tracker.ledger
        (buildUpdate (tick.verdicts deps tracker) tick.now) := by
  unfold runTick runMethod
  cases hidle : tick.idle with
  | true => simp [recordSituationEvents]
  | false =>
    cases hseeded : tracker.seeded with
    | false => simp [recordSituationEvents]
    | true => simp

def sampleDeps (maxEvidence : ℕ) : TrackerDeps where
  maxEvidence := maxEvidence
  batchSize := 4
  windowHours := 168
  floor := 1 / 2
  dormancyDays := dormancyDays
  day := fun _ => ""

def sampleFinding (id : Uuid) (producedAt : Datetime) : FindingRow where
  id := id
  isFinding := true
  producedAt := producedAt
  confidence := some 1
  faithfulness := some 1

/-- Three verified findings are attached to one situation, and the model says
one thing about it. -/
def sampleTick (now : Datetime) (sourceOutputId : Uuid) (second : Datetime)
    (item : ReplyItem) : Tick where
  now := now
  idle := false
  situations := [⟨1, some 30, some 0, [11, 12, 13]⟩]
  findings := [sampleFinding 11 10, sampleFinding 12 second,
    sampleFinding 13 30]
  replies := fun _ => some [item]
  recording := ⟨sourceOutputId, some 1, now, fun _ => sourceOutputId⟩
  nodup_situations := nodup_singleton 1
  nodup_findings := (by decide : ([11, 12, 13] : List Uuid).Nodup)

def sampleTracker : Tracker where
  seeded := true
  watermarks := fun _ => some 0
  ledger := []

end Legba.Situations
