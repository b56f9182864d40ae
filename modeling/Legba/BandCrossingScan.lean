import Legba.DeskCap

/-!
# The band-crossing trigger

`scan_band_crossings` compares the live scorecard of each desk with the last
band it saw, dimension by dimension.  A dimension seen for the first time and a
new scorecard with the same band are recorded silently, and a changed band
becomes a candidate.  If the card's semantics stamps changed as well, the
changes of the desk become one informational candidate instead.  The watermark
of a change is advanced when the row which carries it lands.
-/

namespace Legba.Alerts

def bandLadder : List String :=
  ["low", "watch", "elevated", "high", "critical"]

def insufficient : String := "insufficient-evidence"
def semanticsMigration : String := "semantics-migration"
def semanticsMigrationSeverity : String := "low"

def classifyBandTransition (fromBand toBand : String) (semanticsChanged : Bool) : String × String :=
  if semanticsChanged then (semanticsMigration, semanticsMigrationSeverity)
  else if fromBand = insufficient ∧ toBand ∈ bandLadder then
    ("evidence-gained", "medium")
  else if toBand = insufficient ∧ fromBand ∈ bandLadder then
    ("evidence-lost", "medium")
  else if fromBand ∈ bandLadder ∧ toBand ∈ bandLadder then
    if bandLadder.idxOf fromBand < bandLadder.idxOf toBand then
      ("deterioration", "high")
    else ("improvement", "medium")
  else ("indeterminate", "medium")

def stampChanged (prev curr : Option String) : Bool :=
  match prev with
  | none => curr.isSome
  | some _ => prev != curr

/-- The state of a `band_crossing` watermark. -/
structure BandState where
  band : String
  scorecardRowId : String
  bandingSemantics : Option String
  dampingSemantics : Option String
  deriving DecidableEq, Repr

def semanticsChanged (prev curr : BandState) : Bool :=
  stampChanged prev.bandingSemantics curr.bandingSemantics ||
    stampChanged prev.dampingSemantics curr.dampingSemantics

/-- `f"{desk}|{dim}"` -/
def bandKey (desk dimension : String) : String := desk ++ "|" ++ dimension

/-- A live scorecard.  `dimensions` are the entries of its bands; an entry
which is no mapping or names no band has the empty band.  The id of a target
has only lower-case letters, digits and underscores. -/
structure Scorecard where
  rowId : String
  desk : String
  bandingSemantics : Option String
  dampingSemantics : Option String
  dimensions : List (String × String)
  plainDesk : '|' ∉ desk.toList
  distinct : (dimensions.map Prod.fst).Nodup

structure BandReport where
  desk : String
  dimension : String
  before : BandState
  after : BandState
  deriving DecidableEq, Repr

namespace BandReport

def key (report : BandReport) : String :=
  bandKey report.desk report.dimension

def fromBand (report : BandReport) : String := report.before.band
def toBand (report : BandReport) : String := report.after.band

def direction (report : BandReport) : String × String :=
  classifyBandTransition report.fromBand report.toBand (semanticsChanged report.before report.after)

def isMigration (report : BandReport) : Bool :=
  report.direction.1 == semanticsMigration

def watermark (report : BandReport) : WatermarkUpsert :=
  ⟨triggerBand, report.key, ⟨none, none⟩⟩

end BandReport

structure BandAlert where
  alert : AlertCandidate
  reports : List BandReport

def bandCandidate (desk severity title : String) (reports : List BandReport) : BandAlert where
  alert :=
    { triggerClass := triggerBand
      severity := severity
      title := title
      targetId := some desk
      data := ⟨some triggerBand, none, none, none, none⟩
      watermarks := reports.map BandReport.watermark
      stamped := rfl }
  reports := reports

def crossingCandidate (report : BandReport) : BandAlert :=
  bandCandidate report.desk report.direction.2
    ("Band " ++ report.direction.1 ++ ": " ++ report.desk ++ " " ++
      report.dimension ++ " " ++ report.fromBand ++ " → " ++ report.toBand)
    [report]

/-- `_semantics_migration_candidate` -/
def migrationCandidate (desk : String) (reports : List BandReport) :
    BandAlert :=
  bandCandidate desk semanticsMigrationSeverity
    (String.ofList (("Bands re-derived under new semantics: " ++ desk ++ " (" ++
      toString reports.length ++ " dimension(s))").toList.take 512))
    reports

def migrationCandidates (desk : String) : List BandReport → List BandAlert
  | [] => []
  | first :: rest => [migrationCandidate desk (first :: rest)]

inductive BandObservation where
  | seeds
  | unchanged
  | refreshed
  | crossed (prev : BandState)
  deriving DecidableEq

def observeBand (seeded : Bool) (prev : Option BandState) (current : BandState) : BandObservation :=
  match seeded, prev with
  | true, some prev =>
    if prev.band = current.band then
      if prev.scorecardRowId = current.scorecardRowId then .unchanged
      else .refreshed
    else .crossed prev
  | _, _ => .seeds

structure BandCell where
  desk : String
  dimension : String
  current : BandState

def BandCell.key (cell : BandCell) : String :=
  bandKey cell.desk cell.dimension

def Scorecard.cells (head : Scorecard) : List BandCell :=
  (head.dimensions.filter fun entry => entry.2 != "").map fun entry =>
    ⟨head.desk, entry.1, entry.2, head.rowId, head.bandingSemantics, head.dampingSemantics⟩

abbrev BandWatermarks := String → Option BandState

section

variable (seeded : Bool) (watermarks : BandWatermarks)

def BandCell.observed (cell : BandCell) : BandObservation :=
  observeBand seeded (watermarks cell.key) cell.current

def BandCell.silent? (cell : BandCell) : Option (String × BandState) :=
  match cell.observed seeded watermarks with
  | .seeds | .refreshed => some (cell.key, cell.current)
  | .unchanged | .crossed _ => none

def BandCell.report? (cell : BandCell) : Option BandReport :=
  match cell.observed seeded watermarks with
  | .crossed prev => some ⟨cell.desk, cell.dimension, prev, cell.current⟩
  | .seeds | .refreshed | .unchanged => none

def Scorecard.reports (head : Scorecard) : List BandReport :=
  head.cells.filterMap (BandCell.report? seeded watermarks)

def Scorecard.candidates (head : Scorecard) : List BandAlert :=
  let reports := head.reports seeded watermarks
  (reports.filter fun report => !report.isMigration).map crossingCandidate ++
    migrationCandidates head.desk (reports.filter BandReport.isMigration)

end

/-- What one scan meets: the live scorecards, at most one a desk, the
candidates of the other classes, the cap, and which rows land. -/
structure BandScan where
  heads : List Scorecard
  others : List AlertCandidate
  perDeskCap : ℤ
  lands : ℕ → Bool
  distinctDesks : ((heads.map Scorecard.desk).filter (· ≠ "")).Nodup
  othersOwn : ∀ cand ∈ others, ∀ mark ∈ cand.watermarks, mark.triggerClass ≠ triggerBand

def BandScan.desked (scan : BandScan) : List Scorecard :=
  scan.heads.filter fun head => head.desk ≠ ""

def foldBands (desk : String) (cap : ℕ) (first : BandAlert)
    (rest : List BandAlert) : BandAlert where
  alert := deskRollup desk cap first.alert (rest.map BandAlert.alert)
  reports := (first :: rest).flatMap BandAlert.reports

/-- The table of the class, and what its runs reported: the band each key was
first recorded with, and the changes carried by the rows written, in order. -/
structure BandLog where
  seeded : Bool
  watermarks : BandWatermarks
  firstBand : String → Option String
  carried : List BandReport

def BandLog.start : BandLog := ⟨false, fun _ => none, fun _ => none, []⟩

section

variable (log : BandLog) (scan : BandScan)

def bandCandidates : List BandAlert :=
  scan.desked.flatMap fun head => head.candidates log.seeded log.watermarks

def bandSilent : List (String × BandState) :=
  scan.desked.flatMap fun head => head.cells.filterMap (BandCell.silent? log.seeded log.watermarks)

/-- The rows to be written.  The daily budget marks them and leaves their
watermarks and their order as they are. -/
def bandPageable : List BandAlert :=
  let capped := capDesks BandAlert.alert foldBands
    (bandCandidates log scan ++ scan.others.map fun cand => ⟨cand, []⟩)
    (max 1 scan.perDeskCap).toNat
  capped.1 ++ capped.2

def landedReports : List BandReport :=
  ((bandPageable log scan).zipIdx.filter fun item =>
    scan.lands item.2).flatMap fun item => item.1.reports

end

def setAll (watermarks : BandWatermarks) (marks : List (String × BandState)) : BandWatermarks :=
  marks.foldl (fun table mark => Function.update table mark.1 (some mark.2)) watermarks

def bandStep (log : BandLog) (scan : BandScan) : Option BandLog :=
  let silent := bandSilent log scan
  let landed := landedReports log scan
  some {
    seeded := true
    watermarks := setAll (setAll log.watermarks silent)
      (landed.map fun report => (report.key, report.after))
    firstBand := fun key =>
      match log.firstBand key with
      | some band => some band
      | none => (silent.lookup key).map BandState.band
    carried := log.carried ++ landed }

end Legba.Alerts
