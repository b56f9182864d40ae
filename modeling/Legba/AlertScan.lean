import Legba.PageBudgetDay
import Mathlib.Algebra.Ring.Rat

/-!
# One alert trigger scan

`handle` builds candidates, folds the ones beyond the per-desk cap into a
rollup, marks the budget, writes the rows and advances the watermarks of every
row which landed.  A verified finding is suppressed while its desk is within
the cooldown of the instant in the desk's `verified_finding_state` watermark.
-/

namespace Legba.Alerts

def triggerFindingState : String := "verified_finding_state"
def triggerCoverageFloor : String := "coverage_floor"

def seedKey : String := "_seeded"
def globalDeskKey : String := "_global"

def AlertCandidate.deskKey (cand : AlertCandidate) : String :=
  match cand.targetId with
  | some target => if target = "" then globalDeskKey else target
  | none => globalDeskKey

def classPriority (triggerClass : String) : ℤ :=
  if triggerClass = triggerBand then 0
  else if triggerClass = triggerFinding then 1
  else if triggerClass = triggerWatchlist then 2
  else if triggerClass = triggerContention then 3
  else if triggerClass = triggerBaseline then 4
  else if triggerClass = triggerGeoConvergence then 5
  else if triggerClass = triggerProductionDeficit then 6
  else if triggerClass = triggerSituationEscalation then 7
  else if triggerClass = triggerCoverageFloor then 8
  else 9

def deskSortKey (cand : AlertCandidate) : ℤ ×ₗ ℤ ×ₗ String :=
  toLex (-severityRank cand.severity, toLex (classPriority cand.triggerClass, cand.title))

def worstSeverity (first : AlertCandidate) (rest : List AlertCandidate) :
    String :=
  rest.foldl (fun worst cand =>
    if severityRank worst < severityRank cand.severity then cand.severity
    else worst) first.severity

def deskRollup (desk : String) (cap : ℕ) (first : AlertCandidate)
    (rest : List AlertCandidate) : AlertCandidate where
  triggerClass := "rollup"
  severity := worstSeverity first rest
  title := "Alert rollup (" ++
    (if desk = globalDeskKey then "global" else desk) ++ "): " ++
    toString (rest.length + 1) ++
    " further trigger alert(s) this scan beyond the per-desk cap of " ++
    toString cap
  targetId := if desk = globalDeskKey then none else some desk
  data := ⟨some "rollup", none, none, none, none⟩
  watermarks := (first :: rest).flatMap AlertCandidate.watermarks
  stamped := rfl

def deskOrdered (candidates : List AlertCandidate) (desk : String) : List AlertCandidate :=
  (candidates.filter fun cand => cand.deskKey == desk).insertionSort
    fun a b => deskSortKey a ≤ deskSortKey b

def deskRollups (cap : ℕ) (desk : String) (ordered : List AlertCandidate) : List AlertCandidate :=
  match ordered.drop cap with
  | [] => []
  | first :: rest => [deskRollup desk cap first rest]

def applyDeskCap (candidates : List AlertCandidate) (cap : ℕ) :
    List AlertCandidate × List AlertCandidate :=
  let desks := (candidates.map AlertCandidate.deskKey).dedup.insertionSort (· ≤ ·)
  (desks.flatMap fun desk => (deskOrdered candidates desk).take cap,
    desks.flatMap fun desk => deskRollups cap desk (deskOrdered candidates desk))

def classifyFindingSuppression (prevState : Option WatermarkState)
    (severity : String) (deltaTag : Option String) (now : Datetime)
    (cooldownHours : ℚ) : Bool × String :=
  match prevState with
  | none => (false, "first_page_for_desk")
  | some prev =>
    match deltaTag.filter fun delta =>
        ["rose", "fell", "new"].contains delta with
    | some delta => (false, "delta_tag_" ++ delta)
    | none =>
      if prev.severity.getD "" ≠ severity then (false, "band_changed")
      else
        match prev.pagedAt with
        | none => (false, "no_prior_page_timestamp")
        | some pagedAt =>
          if cooldownHours ≤ ((now - pagedAt : ℤ) : ℚ) / (seconds 3600 : ℤ) then
            (false, "cooldown_elapsed")
          else (true, "steady_state_within_cooldown")

structure WatermarkRow where
  state : WatermarkState
  firedAt : Option Datetime
  firstSeen : Datetime
  deriving DecidableEq, Repr

abbrev Watermarks := String → String → Option WatermarkRow

def upsertWatermark (now : Datetime) (fired : Bool) (watermarks : Watermarks)
    (upsert : WatermarkUpsert) : Watermarks :=
  fun triggerClass key =>
    if triggerClass = upsert.triggerClass ∧ key = upsert.key then
      let existing := watermarks triggerClass key
      some {
        state := upsert.state
        firedAt := if fired then some now else existing.bind (·.firedAt)
        firstSeen := (existing.map (·.firstSeen)).getD now }
    else watermarks triggerClass key

def upsertAll (now : Datetime) (fired : Bool) (watermarks : Watermarks)
    (upserts : List WatermarkUpsert) : Watermarks :=
  upserts.foldl (upsertWatermark now fired) watermarks

def findingWatermarkPruneDays : ℤ := 7

/-- `_WM_PRUNE_FINDINGS_SQL` -/
def pruneFindings (now : Datetime) (watermarks : Watermarks) : Watermarks :=
  fun triggerClass key =>
    (watermarks triggerClass key).filter fun row =>
      !(triggerClass == triggerFinding && key != seedKey &&
        decide (row.firstSeen < now - seconds (86400 * findingWatermarkPruneDays)))

/-- `_load_class_watermarks` leaves the seed marker out. -/
def deskState (watermarks : Watermarks) (desk : String) : Option WatermarkState :=
  if desk = seedKey then none
  else (watermarks triggerFindingState desk).map (·.state)

/-- A finding over the verified bar, with the severity and the delta tag which
its columns and tags resolve to. -/
structure FindingRow where
  findingId : String
  targetId : Option String
  title : String
  severity : String
  deltaTag : Option String
  deriving DecidableEq, Repr

def FindingRow.desk (row : FindingRow) : Option String :=
  row.targetId.filter (· ≠ "")

structure ScanOptions where
  perDeskCap : ℤ
  steadyCooldownHours : ℚ
  suppressSteadyState : Bool
  budget : BudgetConfig

def maxFindingsPerScan : ℕ := 200

def fetchFindings (watermarks : Watermarks) (findings : List FindingRow) : List FindingRow :=
  (findings.filter fun row =>
    (watermarks triggerFinding row.findingId).isNone).take maxFindingsPerScan

def suppression (options : ScanOptions) (watermarks : Watermarks)
    (now : Datetime) (row : FindingRow) : Bool × String :=
  match row.desk with
  | none => (false, "no_desk")
  | some desk =>
    if options.suppressSteadyState then
      classifyFindingSuppression (deskState watermarks desk) row.severity
        row.deltaTag now options.steadyCooldownHours
    else (false, "suppression_disabled")

def findingMark (row : FindingRow) : WatermarkUpsert :=
  ⟨triggerFinding, row.findingId, ⟨some row.severity, none⟩⟩

def deskMarks (suppressed : Bool) (now : Datetime) (row : FindingRow) : List WatermarkUpsert :=
  match suppressed, row.desk with
  | false, some desk => [⟨triggerFindingState, desk, ⟨some row.severity, some now⟩⟩]
  | _, _ => []

def findingCandidate (options : ScanOptions) (watermarks : Watermarks)
    (now : Datetime) (row : FindingRow) : AlertCandidate :=
  let verdict := suppression options watermarks now row
  { triggerClass := triggerFinding
    severity := if row.severity = "critical" then "critical" else "high"
    title := "Verified " ++ row.severity ++ "-severity finding: " ++
      String.ofList (row.title.toList.take 160)
    targetId := row.desk
    data := ⟨some triggerFinding, row.deltaTag, some verdict.1,
      some verdict.2, none⟩
    watermarks := findingMark row :: deskMarks verdict.1 now row
    stamped := rfl }

structure FindingScan where
  candidates : List AlertCandidate
  silent : List WatermarkUpsert
  seeded : Bool
  suppressed : List AlertCandidate

def scanVerifiedFindings (options : ScanOptions) (watermarks : Watermarks)
    (now : Datetime) (fetched : List FindingRow) : FindingScan :=
  if (watermarks triggerFinding seedKey).isSome then
    let built := fetched.map (findingCandidate options watermarks now)
    { candidates := built.filter fun cand => cand.data.guardSuppressed != some true
      silent := []
      seeded := true
      suppressed := built.filter fun cand => cand.data.guardSuppressed == some true }
  else
    { candidates := []
      silent := fetched.map findingMark
      seeded := false
      suppressed := [] }

/-- A row handed to the fan-out, with the instant of its scan and the findings
which that scan read. -/
structure Page where
  scannedAt : Datetime
  findings : List FindingRow
  alert : AlertCandidate

structure AlertState where
  watermarks : Watermarks
  rows : List AlertRow
  pages : List Page

/-- What one scan meets: the instant of its finding scan and of its budget,
the findings over the bar, what the scans of the other classes return, and
which writes land.  The other classes keep to their own watermarks. -/
structure AlertScan where
  now : Datetime
  budgetNow : Datetime
  options : ScanOptions
  findings : List FindingRow
  others : List AlertCandidate
  silentOthers : List WatermarkUpsert
  suppressedLands : ℕ → Bool
  lands : ℕ → Bool
  othersOwn : ∀ cand ∈ others, ∀ mark ∈ cand.watermarks,
    mark.triggerClass ≠ triggerFinding ∧ mark.triggerClass ≠ triggerFindingState
  silentOwn : ∀ mark ∈ silentOthers, mark.triggerClass ≠ triggerFinding ∧
    mark.triggerClass ≠ triggerFindingState

def writeSuppressed (scan : AlertScan) : AlertState → List (AlertCandidate × ℕ) → AlertState
  | state, [] => state
  | state, (cand, position) :: rest =>
    if scan.suppressedLands position then
      writeSuppressed scan
        { state with
          watermarks := upsertAll scan.now false state.watermarks
            cand.watermarks
          rows := state.rows ++
            [writeAlertRow scan.options.budget.analystId scan.now (cand.markDeferred false)] }
        rest
    else writeSuppressed scan state rest

def writePageable (scan : AlertScan) (fetched : List FindingRow) :
    AlertState → List (AlertCandidate × ℕ) → AlertState
  | state, [] => state
  | state, (cand, position) :: rest =>
    if scan.lands position then
      writePageable scan fetched
        { watermarks := upsertAll scan.budgetNow true state.watermarks cand.watermarks
          rows := state.rows ++
            [writeAlertRow scan.options.budget.analystId scan.budgetNow cand]
          pages :=
            if cand.data.budgetDeferred = some true then state.pages
            else state.pages ++ [⟨scan.now, fetched, cand⟩] }
        rest
    else writePageable scan fetched state rest

def fetched (state : AlertState) (scan : AlertScan) : List FindingRow :=
  fetchFindings (pruneFindings scan.now state.watermarks) scan.findings

def findingScan (state : AlertState) (scan : AlertScan) : FindingScan :=
  scanVerifiedFindings scan.options (pruneFindings scan.now state.watermarks)
    scan.now (fetched state scan)

def pageable (state : AlertState) (scan : AlertScan) : List AlertCandidate :=
  let capped := applyDeskCap
    ((findingScan state scan).candidates ++ scan.others)
    (max 1 scan.options.perDeskCap).toNat
  capped.1 ++ capped.2

def seedMarks (scanned : FindingScan) : List WatermarkUpsert :=
  if scanned.seeded then [] else [⟨triggerFinding, seedKey, ⟨none, none⟩⟩]

def beforePaging (state : AlertState) (scan : AlertScan) : AlertState :=
  let scanned := findingScan state scan
  let written := writeSuppressed scan
    { state with watermarks := pruneFindings scan.now state.watermarks }
    scanned.suppressed.zipIdx
  { written with
    watermarks := upsertAll scan.now false written.watermarks
      (scanned.silent ++ scan.silentOthers ++ seedMarks scanned) }

def handle (state : AlertState) (scan : AlertScan) : AlertState :=
  let ready := beforePaging state scan
  let decided := budgetOn scan.options.budget ready.rows
    (dayStartUtc scan.budgetNow) (pageable state scan)
  writePageable scan (fetched state scan) ready decided.zipIdx

def alertStep (state : AlertState) (scan : AlertScan) : Option AlertState :=
  some (handle state scan)

end Legba.Alerts
