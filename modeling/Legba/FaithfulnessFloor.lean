import Legba.FaithfulnessReport

/-!
# The deterministic floor

Before any judge is asked, the claims of a finding are graded by the presence
of a citation which resolves.  Structured indicators and the guards then add
claims of their own.  What a sentence is and which markers it carries is read
off its text by the lexical functions of `ClaimReader`, and what the markers
stand for off the citations by `CitationIndex`.
-/

namespace Legba.Faithfulness

open List

inductive ClaimKind where
  | structure_
  | forwardLooking
  | absence
  | synthesis
  | citationSupport
  deriving DecidableEq, Repr

def ClaimKind.label : ClaimKind → String
  | .structure_ => "structure"
  | .forwardLooking => "forward_looking"
  | .absence => "absence"
  | .synthesis => "synthesis"
  | .citationSupport => "citation_support"

structure ClaimReader extends TextFns where
  segmentClaims : String → List String
  droppedClaims : String → List String
  isJsonSyntaxClaim : String → Bool
  isFactAsserting : String → Bool
  isJudgeableClaim : String → Bool
  isHedgedAttributed : String → Bool
  claimKind : String → ClaimKind
  readsAsSurvey : String → Bool
  markersInClaim : (subclaim : Bool) → String → List ℤ

structure CitationIndex where
  usesSubclaimConvention : Bool
  hasEntries : Bool
  markerToSignalId : ℤ → Option String
  resolvedCitationIds : List String
  groundingOrdinals : List ℤ
  resolvedCitationOrdinals : List ℤ
  ordinalEffconf : ℤ → Option ℚ
  peripheryOrdinals : List ℤ
  correlatedComponents : List (List ℤ)

structure Indicator where
  status : String
  label : String
  citationMarkers : List ℤ
  deriving DecidableEq

structure GuardHits where
  staleLeader : List String := []
  crossTargetLeak : Option String := none
  unscopedAbsence : List String := []
  registerSelfCorroboration : List (String × List ℤ) := []
  staleLeaderVsFacts : List String := []

structure Finding where
  body : String
  citations : CitationIndex
  confidence : Option ℚ := none
  indicators : List Indicator := []
  guards : GuardHits := {}

def clip (n : ℕ) (text : String) : String :=
  String.ofList (text.toList.take n)

def intMarkers (markers : List ℤ) : List Marker :=
  markers.map Sum.inl

/-- `max` of a list which may be empty. -/
def largest : List ℚ → Option ℚ
  | [] => none
  | first :: rest => some (rest.foldl (fun best x => if best < x then x else best) first)

/-! ## The marks of the claims -/

inductive FloorMark where
  | supported (markers : List ℤ) (launders : Bool)
  | failed (reason : String) (markers : List ℤ)
  deriving DecidableEq

def FloorMark.isSupported : FloorMark → Bool
  | .supported _ _ => true
  | .failed _ _ => false

def FloorMark.row (claim : String) : FloorMark → ClaimVerdict
  | .supported markers _ => ClaimVerdict.ofSupported claim (intMarkers markers)
  | .failed reason markers => ClaimVerdict.failed claim reason (intMarkers markers) none

def FloorMark.spans (claim : String) : FloorMark → List UnsupportedSpan
  | .supported markers launders =>
    if launders then
      [{ text := claim
         reason := "hedge_laundering"
         markers := intMarkers markers }]
    else []
  | .failed reason markers => [{ text := claim, reason := reason, markers := intMarkers markers }]

section

variable (reader : ClaimReader) (finding : Finding)

def resolvesToSignal (citations : CitationIndex) (marker : ℤ) : Bool :=
  match citations.markerToSignalId marker with
  | none => false
  | some signalId => decide (signalId ≠ "") && decide (signalId ∈ citations.resolvedCitationIds)

inductive FloorReason where
  | noCitation
  | unresolvedCitation
  | unhedgedPeriphery

def FloorReason.label : FloorReason → String
  | .noCitation => "no_citation"
  | .unresolvedCitation => "unresolved_citation"
  | .unhedgedPeriphery => "unhedged_periphery_citation"

/-- The body of the loop of `_deterministic_floor`. -/
def unitMark (claim : String) : FloorMark :=
  let markers := reader.markersInClaim false claim
  if markers = [] then .failed FloorReason.noCitation.label []
  else if markers.any (resolvesToSignal finding.citations) ||
      markers.any (fun n =>
        decide (n ∈ finding.citations.groundingOrdinals)) then
    .supported markers false
  else .failed FloorReason.unresolvedCitation.label markers

def hedgeEpsilon : ℚ := 1 / 1000000

def laundersHedge (markers : List ℤ) : Bool :=
  match finding.confidence, largest (markers.filterMap finding.citations.ordinalEffconf) with
  | some confidence, some strongest => decide (strongest + hedgeEpsilon < confidence)
  | _, _ => false

/-- The body of the loop of `_deterministic_floor_subclaim`. -/
def subclaimMark (claim : String) : FloorMark :=
  let markers := reader.markersInClaim true claim
  let resolved := markers.filter fun n => decide (n ∈ finding.citations.resolvedCitationOrdinals)
  if markers = [] then .failed FloorReason.noCitation.label []
  else if resolved = [] then
    .failed FloorReason.unresolvedCitation.label markers
  else if decide (finding.citations.peripheryOrdinals ≠ []) &&
      resolved.all (fun n =>
        decide (n ∈ finding.citations.peripheryOrdinals)) then
    if reader.isHedgedAttributed claim then .supported resolved false
    else .failed FloorReason.unhedgedPeriphery.label resolved
  else .supported resolved (laundersHedge finding resolved)

def joinInts (ns : List ℤ) : String :=
  ", ".intercalate (ns.map toString)

def doubleCountedSpans : List UnsupportedSpan :=
  (finding.citations.correlatedComponents.filter fun component =>
      decide (1 < component.length)).map fun component =>
    { text := "correlated evidence (shared lineage): " ++
        joinInts (component.mergeSort (fun a b => decide (a ≤ b)))
      reason := "double_counted"
      markers := intMarkers (component.mergeSort (fun a b => decide (a ≤ b))) }

def confidenceCeiling : Option ℚ :=
  largest (finding.citations.correlatedComponents.filterMap fun component =>
    largest (component.filterMap finding.citations.ordinalEffconf))

/-- A score over a denominator, `1` when nothing was checkable. -/
def fraction (supported denominator : ℤ) : ℚ :=
  if denominator = 0 then 1 else (supported : ℚ) / denominator

def countSupported (rows : List ClaimVerdict) : ℕ :=
  rows.countP fun row => decide (row.verdict = .supported)

def markedReport (marks : List (String × FloorMark))
    (notes : List UnsupportedSpan) (ceiling : Option ℚ) :
    FaithfulnessReport :=
  let supported := marks.countP fun mark => mark.2.isSupported
  { faithfulnessScore := fraction supported marks.length
    checkableClaims := marks.length
    supportedClaims := supported
    unsupportedSpans := (marks.flatMap fun mark => mark.2.spans mark.1) ++ notes
    confidenceCeiling := ceiling
    claimVerdicts := marks.map fun mark => mark.2.row mark.1
    scoreDenominator := some marks.length }

/-- `_deterministic_floor`, with its composition branch. -/
def deterministicFloor : FaithfulnessReport :=
  let claims := (reader.segmentClaims finding.body).filter reader.isFactAsserting
  if finding.citations.usesSubclaimConvention then
    markedReport
      (claims.map fun claim => (claim, subclaimMark reader finding claim))
      (doubleCountedSpans finding) (confidenceCeiling finding)
  else
    markedReport (claims.map fun claim => (claim, unitMark reader finding claim)) [] none

def triggered : List Indicator :=
  finding.indicators.filter fun entry => decide (entry.status = "triggered")

def uncitedIndicatorText (entry : Indicator) : String :=
  clip 500 ("triggered indicator without citation: " ++ entry.label)

def indicatorSpans : List UnsupportedSpan :=
  ((triggered finding).filter fun entry =>
      decide (entry.citationMarkers = [])).map fun entry =>
    { text := uncitedIndicatorText entry
      reason := "indicator_uncited_triggered" }

/-- `_indicator_claim_verdicts`. -/
def indicatorRow (entry : Indicator) : ClaimVerdict :=
  if entry.citationMarkers = [] then
    ClaimVerdict.failed (uncitedIndicatorText entry) "indicator_uncited_triggered" [] none
  else
    ClaimVerdict.ofSupported
      (clip 500 ("triggered indicator: " ++ entry.label))
      (intMarkers entry.citationMarkers)

def foldIndicators (floor : FaithfulnessReport) : FaithfulnessReport :=
  let entries := triggered finding
  if entries = [] then floor
  else
    let checkable := floor.checkableClaims + entries.length
    let supported := floor.supportedClaims +
      (entries.countP fun entry => decide (entry.citationMarkers ≠ []) : ℕ)
    { faithfulnessScore := fraction supported checkable
      checkableClaims := checkable
      supportedClaims := supported
      unsupportedSpans := floor.unsupportedSpans ++ indicatorSpans finding
      judgeStatus := floor.judgeStatus
      judgeUnavailableReason := floor.judgeUnavailableReason
      judgeAttempts := floor.judgeAttempts
      judgeHttpStatuses := floor.judgeHttpStatuses
      confidenceCeiling := floor.confidenceCeiling
      claimVerdicts := floor.claimVerdicts ++ entries.map indicatorRow
      counters := floor.counters
      scoreDenominator := some checkable }

def guardSpan (reason text : String) : UnsupportedSpan where
  text := text
  reason := reason

def guardGroups : List (List UnsupportedSpan) :=
  let hits := finding.guards
  [hits.staleLeader.map (guardSpan "stale_leader") ++
      hits.crossTargetLeak.toList.map (guardSpan "cross_target_leak"),
    hits.unscopedAbsence.map (guardSpan "unscoped_absence_claim"),
    hits.registerSelfCorroboration.map (fun hit =>
      { text := hit.1
        reason := "register_self_corroboration"
        markers := intMarkers hit.2 }),
    hits.staleLeaderVsFacts.map (guardSpan "stale_leader_vs_facts")]

def countDropped (floor : FaithfulnessReport) : FaithfulnessReport :=
  let dropped := reader.droppedClaims finding.body
  (floor.bump "claims_dropped_json_syntax" (dropped.countP reader.isJsonSyntaxClaim)).bump
    "claims_dropped_nonpropositional"
    (dropped.countP fun claim => !reader.isJsonSyntaxClaim claim)

def foldedFloor : FaithfulnessReport :=
  (guardGroups finding).foldl foldGuardSpans
    (foldIndicators finding (countDropped reader finding (deterministicFloor reader finding)))

end

/-! ## The floor counts its ledger -/

def isCharged (span : UnsupportedSpan) : Bool :=
  !decide (span.reason ∈ advisoryReasons)

def chargedTexts (spans : List UnsupportedSpan) : List String :=
  (spans.filter isCharged).map UnsupportedSpan.text

def failedTexts (rows : List ClaimVerdict) : List String :=
  (rows.filter fun row => !decide (row.verdict = .supported)).map ClaimVerdict.text

structure CountsLedger (report : FaithfulnessReport) : Prop where
  supported : report.supportedClaims = countSupported report.claimVerdicts
  checkable : report.checkableClaims = report.claimVerdicts.length
  denominator : report.scoreDenominator = some report.checkableClaims
  score : report.faithfulnessScore = fraction report.supportedClaims report.checkableClaims
  charged : chargedTexts report.unsupportedSpans = failedTexts report.claimVerdicts

theorem chargedTexts_append (first second : List UnsupportedSpan) :
    chargedTexts (first ++ second) = chargedTexts first ++ chargedTexts second := by
  simp [chargedTexts]

theorem failedTexts_append (first second : List ClaimVerdict) :
    failedTexts (first ++ second) = failedTexts first ++ failedTexts second := by
  simp [failedTexts]

theorem countSupported_append (first second : List ClaimVerdict) :
    countSupported (first ++ second) = countSupported first + countSupported second :=
  countP_append

theorem failed_verdict_ne_supported (text reason : String)
    (markers : List Marker) (detail : Option String) :
    (ClaimVerdict.failed text reason markers detail).verdict ≠ .supported :=
  failClassForReason_ne_supported reason

theorem failedTexts_failed_cons (text reason : String) (markers : List Marker)
    (detail : Option String) (rows : List ClaimVerdict) :
    failedTexts (ClaimVerdict.failed text reason markers detail :: rows) =
      text :: failedTexts rows := by
  have hfailed := failed_verdict_ne_supported text reason markers detail
  unfold failedTexts
  rw [filter_cons_of_pos (by simpa using hfailed)]
  rfl

theorem failedTexts_supported_cons (text : String) (markers : List Marker)
    (rows : List ClaimVerdict) :
    failedTexts (ClaimVerdict.ofSupported text markers :: rows) = failedTexts rows := rfl

theorem chargedTexts_cons_of_charged {span : UnsupportedSpan}
    (hcharged : isCharged span) (spans : List UnsupportedSpan) :
    chargedTexts (span :: spans) = span.text :: chargedTexts spans := by
  unfold chargedTexts
  rw [filter_cons_of_pos hcharged]
  rfl

theorem countSupported_failed_cons (text reason : String) (markers : List Marker)
    (detail : Option String) (rows : List ClaimVerdict) :
    countSupported (ClaimVerdict.failed text reason markers detail :: rows) =
      countSupported rows := by
  have hfailed := failed_verdict_ne_supported text reason markers detail
  exact countP_cons_of_neg (by simpa using hfailed)

theorem rows_of_charged_spans (spans : List UnsupportedSpan)
    (hcharged : ∀ span ∈ spans, isCharged span = true) (detail : UnsupportedSpan → Option String) :
    chargedTexts spans =
        failedTexts (spans.map fun span =>
          ClaimVerdict.failed span.text span.reason span.markers (detail span)) ∧
      countSupported (spans.map fun span =>
        ClaimVerdict.failed span.text span.reason span.markers (detail span)) = 0 := by
  induction spans with
  | nil => exact ⟨rfl, rfl⟩
  | cons span rest ih =>
    rw [forall_mem_cons] at hcharged
    obtain ⟨htexts, hcount⟩ := ih hcharged.2
    rw [map_cons]
    constructor
    · rw [chargedTexts_cons_of_charged hcharged.1, failedTexts_failed_cons, htexts]
    · rw [countSupported_failed_cons, hcount]

def FloorMark.Charged : FloorMark → Prop
  | .supported _ _ => True
  | .failed reason _ => reason ∉ advisoryReasons

theorem FloorReason.label_not_advisory (reason : FloorReason) : reason.label ∉ advisoryReasons := by
  cases reason <;> decide

theorem unitMark_charged (reader : ClaimReader) (finding : Finding)
    (claim : String) : (unitMark reader finding claim).Charged := by
  unfold unitMark
  dsimp only
  split
  · exact FloorReason.label_not_advisory .noCitation
  · split
    · trivial
    · exact FloorReason.label_not_advisory .unresolvedCitation

theorem subclaimMark_charged (reader : ClaimReader) (finding : Finding)
    (claim : String) : (subclaimMark reader finding claim).Charged := by
  unfold subclaimMark
  dsimp only
  split
  · exact FloorReason.label_not_advisory .noCitation
  · split
    · exact FloorReason.label_not_advisory .unresolvedCitation
    · split
      · split
        · trivial
        · exact FloorReason.label_not_advisory .unhedgedPeriphery
      · trivial

variable {notes : List UnsupportedSpan} {marks : List (String × FloorMark)}
  {report : FaithfulnessReport}

theorem chargedTexts_notes (hnotes : ∀ span ∈ notes, span.reason ∈ advisoryReasons) :
    chargedTexts notes = [] := by
  have hfilter : notes.filter isCharged = [] := by
    rw [filter_eq_nil_iff]
    intro span hspan
    simp [isCharged, hnotes span hspan]
  simp [chargedTexts, hfilter]

theorem marks_supported (marks : List (String × FloorMark)) :
    countSupported (marks.map fun mark => mark.2.row mark.1) =
      marks.countP fun mark => mark.2.isSupported := by
  unfold countSupported
  rw [countP_map]
  apply countP_congr
  rintro ⟨claim, mark⟩ _
  cases mark with
  | supported markers launders =>
    simp [FloorMark.row, FloorMark.isSupported, ClaimVerdict.ofSupported]
  | failed reason markers =>
    simp [FloorMark.row, FloorMark.isSupported, failed_verdict_ne_supported]

theorem mark_charged {mark : FloorMark} (hmark : mark.Charged) (claim : String) :
    chargedTexts (mark.spans claim) = failedTexts [mark.row claim] := by
  cases mark with
  | supported markers launders =>
    cases launders <;>
      simp [FloorMark.spans, FloorMark.row, chargedTexts, failedTexts,
        isCharged, advisoryReasons, ClaimVerdict.ofSupported]
  | failed reason markers =>
    have hreason : reason ∉ advisoryReasons := hmark
    simp only [FloorMark.row, FloorMark.spans]
    rw [failedTexts_failed_cons, chargedTexts_cons_of_charged (by simpa [isCharged] using hreason)]
    rfl

theorem marks_charged (hmarks : ∀ mark ∈ marks, mark.2.Charged) :
    chargedTexts (marks.flatMap fun mark => mark.2.spans mark.1) =
      failedTexts (marks.map fun mark => mark.2.row mark.1) := by
  induction marks with
  | nil => rfl
  | cons mark rest ih =>
    rw [forall_mem_cons] at hmarks
    rw [flatMap_cons, chargedTexts_append, ih hmarks.2, map_cons, ←
      singleton_append, failedTexts_append, mark_charged hmarks.1 mark.1]

theorem markedReport_countsLedger {ceiling : Option ℚ} (hmarks : ∀ mark ∈ marks, mark.2.Charged)
    (hnotes : ∀ span ∈ notes, span.reason ∈ advisoryReasons) :
    CountsLedger (markedReport marks notes ceiling) where
  supported := by
    simp only [markedReport]
    exact_mod_cast (marks_supported marks).symm
  checkable := by simp [markedReport]
  denominator := rfl
  score := rfl
  charged := by
    simp only [markedReport]
    rw [chargedTexts_append, chargedTexts_notes hnotes, marks_charged hmarks, append_nil]

theorem doubleCountedSpans_advisory (finding : Finding) :
    ∀ span ∈ doubleCountedSpans finding, span.reason ∈ advisoryReasons := by
  intro span hspan
  simp only [doubleCountedSpans, mem_map] at hspan
  obtain ⟨component, _, rfl⟩ := hspan
  exact mem_cons_self

theorem deterministicFloor_countsLedger (reader : ClaimReader)
    (finding : Finding) : CountsLedger (deterministicFloor reader finding) := by
  unfold deterministicFloor
  split
  · apply markedReport_countsLedger
    · intro mark hmark
      obtain ⟨claim, _, rfl⟩ := mem_map.mp hmark
      exact subclaimMark_charged reader finding claim
    · exact doubleCountedSpans_advisory finding
  · apply markedReport_countsLedger
    · intro mark hmark
      obtain ⟨claim, _, rfl⟩ := mem_map.mp hmark
      exact unitMark_charged reader finding claim
    · intro span hspan
      cases hspan

theorem CountsLedger.bump (hreport : CountsLedger report) (name : String) (n : ℕ) :
    CountsLedger (report.bump name n) :=
  { supported := hreport.supported
    checkable := hreport.checkable
    denominator := hreport.denominator
    score := hreport.score
    charged := hreport.charged }

theorem indicator_rows_counted (entries : List Indicator) :
    countSupported (entries.map indicatorRow) =
      entries.countP fun entry => decide (entry.citationMarkers ≠ []) := by
  unfold countSupported
  rw [countP_map]
  apply countP_congr
  intro entry _
  by_cases hcited : entry.citationMarkers = []
  · simp [indicatorRow, hcited, failed_verdict_ne_supported]
  · simp [indicatorRow, hcited, ClaimVerdict.ofSupported]

theorem indicator_rows_charged (entries : List Indicator) :
    chargedTexts
        ((entries.filter fun entry =>
            decide (entry.citationMarkers = [])).map fun entry =>
          { text := uncitedIndicatorText entry
            reason := "indicator_uncited_triggered" }) =
      failedTexts (entries.map indicatorRow) := by
  induction entries with
  | nil => rfl
  | cons entry rest ih =>
    by_cases hcited : entry.citationMarkers = []
    · have hrow : indicatorRow entry =
          ClaimVerdict.failed (uncitedIndicatorText entry)
            "indicator_uncited_triggered" [] none := by
        simp [indicatorRow, hcited]
      rw [map_cons, hrow, failedTexts_failed_cons, filter_cons_of_pos (by simp
        [hcited]), map_cons, chargedTexts_cons_of_charged (by rfl), ih]
    · have hrow : indicatorRow entry =
          ClaimVerdict.ofSupported
            (clip 500 ("triggered indicator: " ++ entry.label))
            (intMarkers entry.citationMarkers) := by
        simp [indicatorRow, hcited]
      rw [map_cons, hrow, failedTexts_supported_cons, filter_cons_of_neg (by simp [hcited]), ih]

theorem CountsLedger.foldIndicators (hreport : CountsLedger report)
    (finding : Finding) : CountsLedger (foldIndicators finding report) := by
  unfold Faithfulness.foldIndicators
  dsimp only
  split
  · exact hreport
  · exact
      { supported := by
          rw [hreport.supported, countSupported_append, indicator_rows_counted]
          rfl
        checkable := by
          rw [hreport.checkable, length_append, length_map]
          rfl
        denominator := rfl
        score := rfl
        charged := by
          rw [chargedTexts_append, failedTexts_append, hreport.charged]
          congr 1
          exact indicator_rows_charged (triggered finding) }

theorem CountsLedger.foldGuardSpans (hreport : CountsLedger report) {spans : List UnsupportedSpan}
    (hcharged : ∀ span ∈ spans, isCharged span = true) :
    CountsLedger (foldGuardSpans report spans) := by
  obtain ⟨htexts, hcount⟩ := rows_of_charged_spans spans hcharged (fun _ => none)
  unfold Faithfulness.foldGuardSpans
  split
  · exact hreport
  · exact
      { supported := by
          rw [countSupported_append, hcount]
          exact hreport.supported
        checkable := by
          rw [hreport.checkable, length_append, length_map]
          rfl
        denominator := rfl
        score := rfl
        charged := by rw [chargedTexts_append, failedTexts_append, hreport.charged, htexts] }

theorem guardGroups_charged (finding : Finding) :
    ∀ spans ∈ guardGroups finding, ∀ span ∈ spans, isCharged span = true := by
  intro spans hspans span hspan
  simp only [guardGroups, mem_cons, not_mem_nil, or_false] at hspans
  rcases hspans with rfl | rfl | rfl | rfl
  · rw [mem_append] at hspan
    rcases hspan with hspan | hspan
    · obtain ⟨text, _, rfl⟩ := mem_map.mp hspan
      rfl
    · obtain ⟨text, _, rfl⟩ := mem_map.mp hspan
      rfl
  · obtain ⟨text, _, rfl⟩ := mem_map.mp hspan
    rfl
  · obtain ⟨hit, _, rfl⟩ := mem_map.mp hspan
    rfl
  · obtain ⟨text, _, rfl⟩ := mem_map.mp hspan
    rfl

theorem CountsLedger.foldGuards {groups : List (List UnsupportedSpan)}
    (hgroups : ∀ spans ∈ groups, ∀ span ∈ spans, isCharged span = true)
    (hreport : CountsLedger report) :
    CountsLedger (groups.foldl Faithfulness.foldGuardSpans report) := by
  induction groups generalizing report with
  | nil => exact hreport
  | cons spans rest ih =>
    rw [forall_mem_cons] at hgroups
    exact ih hgroups.2 (hreport.foldGuardSpans hgroups.1)

theorem foldedFloor_countsLedger (reader : ClaimReader) (finding : Finding) :
    CountsLedger (foldedFloor reader finding) := by
  have hfloor := deterministicFloor_countsLedger reader finding
  have hdropped : CountsLedger (countDropped reader finding (deterministicFloor reader finding)) :=
    (hfloor.bump _ _).bump _ _
  exact CountsLedger.foldGuards (guardGroups_charged finding) (hdropped.foldIndicators finding)

end Legba.Faithfulness
