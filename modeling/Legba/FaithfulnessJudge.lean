import Legba.FaithfulnessFloor

/-!
# The judge pass

The judge grades the claims of a finding in one call, or in two when the
finding has absence claims beside others.  A call may fail, come back empty,
or leave single claims without a verdict; these stay with the floor.  The score
is taken over the graded claims and the charged spans of the floor on texts the
judge did not grade.

What a call returns is an input: the statuses of its attempts, the difference
between the verdicts returned and the claims sent, and a slot for each claim.
The tests of the severity chain are the functions of `JudgeFns`.
-/

namespace Legba.Faithfulness

inductive JudgeToken where
  | supported
  | unsupported
  | contradicted
  | notAProposition
  deriving DecidableEq, Repr

inductive GradedVerdict where
  | supported
  | unsupported
  | contradicted
  | notAProposition
  | nonpropUnearned
  | contradictedUnquoted
  | contradictedMachineRow
  | priorReadConflict
  | contradictedUnrefuted
  | contradictedOffScope
  | quoteConfirms
  | contradictedHedged
  | routeExcluded
  deriving DecidableEq, Repr

def judgeReason : GradedVerdict → String
  | .nonpropUnearned => "judge_nonpropositional_unearned"
  | .contradicted => "judge_contradicted"
  | .contradictedUnquoted => "judge_contradicted_unquoted"
  | .contradictedUnrefuted => "judge_contradicted_unrefuted"
  | .priorReadConflict => "judge_prior_read_conflict"
  | .contradictedOffScope => "judge_contradicted_off_scope"
  | .quoteConfirms => "judge_quote_confirms_claim"
  | .contradictedMachineRow => "judge_contradicted_machine_row"
  | .contradictedHedged => "judge_contradicted_hedged_conflict"
  | .routeExcluded => "judge_contradicted_route_excluded"
  | .supported => "judge_unsupported"
  | .unsupported => "judge_unsupported"
  | .notAProposition => "judge_unsupported"

/-- `_DEMOTION_COUNTERS`. -/
def demotionCounter : GradedVerdict → Option String
  | .contradictedUnquoted => some "hardfail_demoted_no_quote"
  | .contradictedUnrefuted => some "hardfail_demoted_not_refuting"
  | .priorReadConflict => some "hardfail_demoted_prior_read"
  | .contradictedOffScope => some "hardfail_demoted_off_denied_scope"
  | .quoteConfirms => some "hardfail_demoted_quote_confirms"
  | .contradictedMachineRow => some "hardfail_demoted_machine_row"
  | .contradictedHedged => some "hardfail_demoted_hedged_conflict"
  | .routeExcluded => some "hardfail_demoted_route_excluded"
  | .nonpropUnearned => some "nonprop_withdrawn_carries_particular"
  | .supported => none
  | .unsupported => none
  | .contradicted => none
  | .notAProposition => none

structure JudgeFns where
  nonpropositionIsEarned : String → Bool
  canonicalJudgeQuote : String → String
  quoteResolves : String → Bool
  resolvesOnlyInMachineRows : String → Bool
  quoteIsRefutableEvidence : String → String → Bool
  quoteRefutes : String → String → Bool
  quoteHitsCarveOut : String → String → Bool
  quoteMissesDeniedScope : String → String → Bool
  quoteConfirmsClaim : String → String → Bool
  disclosesHedgedConflict : String → Bool
  claimIsRoutedOut : String → Bool
  detailText : GradedVerdict → String → String → String
  round4 : ℚ → ℚ

section

variable (fns : JudgeFns)

def contradictionSeverity (quote claim : String) : GradedVerdict × String :=
  let quote := fns.canonicalJudgeQuote quote
  if !fns.quoteResolves quote then (.contradictedUnquoted, "")
  else if fns.resolvesOnlyInMachineRows quote then
    (.contradictedMachineRow, quote)
  else if !fns.quoteIsRefutableEvidence quote claim then
    (.priorReadConflict, quote)
  else if !fns.quoteRefutes quote claim then (.contradictedUnrefuted, quote)
  else if fns.quoteHitsCarveOut quote claim then
    (.contradictedUnrefuted, quote)
  else if fns.quoteMissesDeniedScope quote claim then
    (.contradictedOffScope, quote)
  else if fns.quoteConfirmsClaim quote claim then (.quoteConfirms, quote)
  else if fns.disclosesHedgedConflict claim then (.contradictedHedged, quote)
  else if fns.claimIsRoutedOut claim then (.routeExcluded, quote)
  else (.contradicted, quote)

def severity (token : JudgeToken) (quote claim : String) : GradedVerdict × String :=
  match token with
  | .notAProposition =>
    if fns.nonpropositionIsEarned claim then (.notAProposition, "")
    else (.nonpropUnearned, "")
  | .supported => (.supported, "")
  | .unsupported => (.unsupported, "")
  | .contradicted => contradictionSeverity fns quote claim

def judgeDetail (verdict : GradedVerdict) (quote claim : String) : Option String :=
  if quote = "" then none else some (fns.detailText verdict quote claim)

end

/-! ## The calls -/

inductive Partition where
  | survey
  | citationSupport
  | absence
  deriving DecidableEq, Repr

def Partition.label : Partition → String
  | .survey => "survey"
  | .citationSupport => "citation_support"
  | .absence => "absence"

structure Answer where
  token : JudgeToken
  quote : String
  alignedBy : String
  deriving DecidableEq

/-- A claim's place in a reply; `none` is a claim without a verdict. -/
abbrev Slot := Option Answer

/-- One call; a reply of `none` is a call which raised. -/
structure PartitionCall where
  statuses : List String
  replyDelta : ℤ
  reply : Option (List Slot)

abbrev Judge := Partition → PartitionCall

/-- `JudgeTransportTelemetry`. -/
structure Telemetry where
  attempts : ℕ := 0
  httpStatuses : List String := []
  uncheckedClaims : List ℕ := []
  uncheckedByPartition : List (String × ℕ) := []
  replyCountDelta : ℤ := 0

def Telemetry.record (telem : Telemetry) (call : PartitionCall) : Telemetry :=
  { telem with
    attempts := telem.attempts + call.statuses.length
    httpStatuses := telem.httpStatuses ++ call.statuses
    replyCountDelta := telem.replyCountDelta + call.replyDelta }

def addCount (counts : List (String × ℕ)) (name : String) (n : ℕ) : List (String × ℕ) :=
  if counts.any (fun entry => decide (entry.1 = name)) then
    counts.map fun entry =>
      if entry.1 = name then (entry.1, entry.2 + n) else entry
  else counts ++ [(name, n)]

def Telemetry.recordUnchecked (telem : Telemetry) (partition : Partition)
    (numbers : List ℕ) : Telemetry :=
  if numbers = [] then telem
  else
    { telem with
      uncheckedClaims := telem.uncheckedClaims ++ numbers
      uncheckedByPartition := addCount telem.uncheckedByPartition partition.label numbers.length }

def sortNumbers (numbers : List ℕ) : List ℕ :=
  numbers.mergeSort fun a b => decide (a ≤ b)

def Telemetry.stamp (telem : Telemetry) (report : FaithfulnessReport) :
    FaithfulnessReport :=
  if telem.attempts = 0 then report
  else
    let stamped :=
      { report with
        judgeAttempts := some telem.attempts
        judgeHttpStatuses := telem.httpStatuses
        judgeMiscountClaims := telem.replyCountDelta }
    if telem.uncheckedClaims = [] then stamped
    else
      { stamped with
        judgePartial := some telem.uncheckedClaims.length
        judgePartialClaims := sortNumbers telem.uncheckedClaims }

abbrev NumberedClaim := String × ℕ

/-- The graded half of `split_unchecked`. -/
def gradedSlots (claims : List NumberedClaim) (slots : List Slot) : List (NumberedClaim × Answer) :=
  (claims.zip slots).filterMap fun entry => entry.2.map fun answer => (entry.1, answer)

/-- The unchecked half of `split_unchecked`: claim numbers from one. -/
def uncheckedNumbers (claims : List NumberedClaim) (slots : List Slot) : List ℕ :=
  (claims.zip slots).filterMap fun entry =>
    if entry.2.isNone then some (entry.1.2 + 1) else none

structure GradedClaim where
  claim : String
  verdict : GradedVerdict
  quote : String
  alignedBy : String
  deriving DecidableEq

structure JudgeRun where
  verdicts : List GradedClaim
  branchScores : List (String × BranchScore)
  floored : List String

section

variable (reader : ClaimReader) (fns : JudgeFns)

def gradeAnswer (claim : String) (answer : Answer) : GradedClaim :=
  let settled := severity fns answer.token answer.quote claim
  { claim := claim
    verdict := settled.1
    quote := settled.2
    alignedBy := answer.alignedBy }

/-- What one partition's call leaves: the graded answers, and whether the
reply was empty; `none` when the call raised. -/
def askPartition (judge : Judge) (partition : Partition)
    (claims : List NumberedClaim) (telem : Telemetry) :
    Telemetry × Option (List (NumberedClaim × Answer) × Bool) :=
  if claims = [] then (telem, some ([], false))
  else
    let call := judge partition
    let telem := telem.record call
    match call.reply with
    | none => (telem, none)
    | some slots =>
      (telem.recordUnchecked partition (uncheckedNumbers claims slots),
        some (gradedSlots claims slots, decide (slots = [])))

def judgeableClaims (body : String) : List NumberedClaim :=
  ((reader.segmentClaims body).filter reader.isJudgeableClaim).zipIdx

def branchScore (rows : List GradedClaim) : BranchScore :=
  let supported := rows.countP fun row => decide (row.verdict = .supported)
  { checkable := rows.length
    supported := supported
    score :=
      if rows.length = 0 then 1
      else fns.round4 ((supported : ℚ) / rows.length) }

def branchScoresOf (verdicts : List GradedClaim) : List (String × BranchScore) :=
  let scored := verdicts.filter fun row => !decide (row.verdict = .notAProposition)
  (scored.map fun row => reader.claimKind row.claim).eraseDups.map fun kind =>
    (kind.label, branchScore fns (scored.filter fun row =>
      decide (reader.claimKind row.claim = kind)))

def isNullResultFinding (body : String) : Bool :=
  decide (body ≠ "") && reader.readsAsSurvey body &&
    decide (((reader.segmentClaims body).filter reader.isFactAsserting).length ≤ 1)

def isAbsence (claim : NumberedClaim) : Bool :=
  decide (reader.claimKind claim.1 = .absence)

def rezip (claims : List NumberedClaim)
    (graded : List (NumberedClaim × Answer)) : List GradedClaim :=
  claims.filterMap fun claim =>
    (graded.find? fun entry => decide (entry.1.2 = claim.2)).map fun entry =>
      gradeAnswer fns claim.1 entry.2

/-- The survey route of `_run_judge`: one call for the whole list. -/
def runSurvey (judge : Judge) (claims : List NumberedClaim) : Telemetry × Option JudgeRun :=
  match askPartition judge .survey claims {} with
  | (telem, none) => (telem, none)
  | (telem, some (graded, _)) =>
    (telem, some
      { verdicts := graded.map fun entry => gradeAnswer fns entry.1.1 entry.2
        branchScores := []
        floored := [] })

def runPartitions (judge : Judge) (claims : List NumberedClaim) : Telemetry × Option JudgeRun :=
  match askPartition judge .citationSupport
    (claims.filter fun claim => !isAbsence reader claim) {} with
  | (telem, none) => (telem, none)
  | (telem, some shared) =>
    match askPartition judge .absence (claims.filter (isAbsence reader)) telem with
    | (telem, none) => (telem, none)
    | (telem, some absence) =>
      let verdicts := rezip fns claims (shared.1 ++ absence.1)
      if shared.1 ++ absence.1 = [] then
        (telem, some { verdicts := [], branchScores := [], floored := [] })
      else
        (telem, some
          { verdicts := verdicts
            branchScores := branchScoresOf reader fns verdicts
            floored :=
              (if shared.2 then [Partition.citationSupport.label]
                else []) ++
              if absence.2 then [Partition.absence.label] else [] })

def runJudge (judge : Judge) (body : String) : Telemetry × Option JudgeRun :=
  let claims := judgeableClaims reader body
  if claims = [] then
    ({}, some { verdicts := [], branchScores := [], floored := [] })
  else if isNullResultFinding reader body then runSurvey fns judge claims
  else runPartitions reader fns judge claims

end

/-! ## The refined report -/

def sortNames (names : List String) : List String :=
  names.mergeSort fun a b => decide (a ≤ b)

def resolvePartitionOutcome (judged : Bool) (floored : List String)
    (unchecked : List (String × ℕ)) : JudgeStatus × Option String :=
  if !judged then (.deterministic, none)
  else
    let reasons :=
      (if floored = [] then []
        else ["judge_empty_partition:" ++ ",".intercalate (sortNames floored)]) ++
      if unchecked = [] then []
        else ["judge_partial_verdicts:" ++ ",".intercalate
          ((unchecked.mergeSort fun a b => decide (a.1 ≤ b.1)).map fun entry =>
            entry.1 ++ ":" ++ toString entry.2)]
    if reasons = [] then (.llm, none)
    else (.partial_, some (";".intercalate reasons))

section

variable (reader : ClaimReader) (fns : JudgeFns) (finding : Finding)

def countCitationless (floor : FaithfulnessReport) : FaithfulnessReport :=
  let resolved :=
    if finding.citations.usesSubclaimConvention then
      decide (finding.citations.resolvedCitationOrdinals ≠ [])
    else decide (finding.citations.resolvedCitationIds ≠ [])
  if resolved then floor
  else
    (floor.bump "citationless_graded" 1).bump
      (if finding.citations.hasEntries then "citations_unresolvable"
        else "citations_absent") 1

theorem countCitationless_cases (floor : FaithfulnessReport) :
    countCitationless finding floor = floor ∨
      ∃ name, countCitationless finding floor =
        (floor.bump "citationless_graded" 1).bump name 1 := by
  unfold countCitationless
  dsimp only
  split
  · split
    · exact .inl rfl
    · exact .inr ⟨_, rfl⟩
  · split
    · exact .inl rfl
    · exact .inr ⟨_, rfl⟩

def isNonproposition (row : GradedClaim) : Bool :=
  decide (row.verdict = .notAProposition)

def isSupported (row : GradedClaim) : Bool :=
  decide (row.verdict = .supported)

def judgedSpan (row : GradedClaim) : UnsupportedSpan where
  text := row.claim
  reason := judgeReason row.verdict
  detail := judgeDetail fns row.verdict row.quote row.claim

def judgedRow (row : GradedClaim) : ClaimVerdict :=
  let markers := intMarkers (reader.markersInClaim
    finding.citations.usesSubclaimConvention row.claim)
  let cv :=
    if isSupported row then ClaimVerdict.ofSupported row.claim markers
    else
      ClaimVerdict.failed row.claim (judgeReason row.verdict) markers
        (judgeDetail fns row.verdict row.quote row.claim)
  { cv with alignedBy := some row.alignedBy }

def judgedTexts (verdicts : List GradedClaim) : List String :=
  verdicts.map fun row => reader.strip row.claim

def isUnjudged (verdicts : List GradedClaim) (text : String) : Bool :=
  !decide (reader.strip text ∈ judgedTexts reader verdicts)

def residualFloorSpans (floor : FaithfulnessReport)
    (verdicts : List GradedClaim) : List UnsupportedSpan :=
  floor.unsupportedSpans.filter fun span => isCharged span && isUnjudged reader verdicts span.text

def demotions (verdicts : List GradedClaim) (name : String) : ℕ :=
  (verdicts.countP fun row =>
      !isNonproposition row && !isSupported row &&
        decide (demotionCounter row.verdict = some name)) +
    if name = "claims_ungraded_nonpropositional" then
      verdicts.countP isNonproposition
    else 0

/-- The report `_maybe_llm_judge` builds when the judge graded a claim. -/
def judgedReport (floor : FaithfulnessReport) (telem : Telemetry)
    (run : JudgeRun) : FaithfulnessReport :=
  let graded := run.verdicts.filter fun row => !isNonproposition row
  let supported := run.verdicts.countP isSupported
  let floorCounted := run.verdicts.countP fun row =>
    isNonproposition row && reader.isFactAsserting row.claim
  let residual := residualFloorSpans reader floor run.verdicts
  let effective : ℤ := graded.length + residual.length
  let outcome := resolvePartitionOutcome (decide (run.verdicts ≠ []))
    run.floored telem.uncheckedByPartition
  { faithfulnessScore := fraction supported effective
    checkableClaims :=
      if floor.checkableClaims - floorCounted ≤ effective then effective
      else floor.checkableClaims - floorCounted
    supportedClaims := supported
    unsupportedSpans :=
      ((graded.filter fun row => !isSupported row).map (judgedSpan fns)) ++
        residual ++
        floor.unsupportedSpans.filter fun span => !isCharged span
    judgeStatus := outcome.1
    judgeUnavailableReason := outcome.2
    judgeAttempts := some telem.attempts
    judgeHttpStatuses := telem.httpStatuses
    judgePartial :=
      if telem.uncheckedClaims = [] then none
      else some telem.uncheckedClaims.length
    judgePartialClaims := sortNumbers telem.uncheckedClaims
    judgeMiscountClaims := telem.replyCountDelta
    confidenceCeiling := floor.confidenceCeiling
    branchScores := run.branchScores
    claimVerdicts := graded.map (judgedRow reader fns finding) ++
      floor.claimVerdicts.filter fun row => isUnjudged reader run.verdicts row.text
    counters := fun name =>
      if demotions run.verdicts name = 0 then floor.counters name
      else demotions run.verdicts name
    scoreDenominator := some effective }

/-- `_maybe_llm_judge`; the judge is `none` when no handler was supplied. -/
def maybeLlmJudge (enabled : Bool) (judge : Option Judge)
    (floor : FaithfulnessReport) : FaithfulnessReport :=
  if !enabled then
    { floor with judgeUnavailableReason := some "flag_off" }
  else
    match judge with
    | none => { floor with judgeUnavailableReason := some "no_judge_component" }
    | some judge =>
      match runJudge reader fns judge finding.body with
      | (telem, none) =>
        telem.stamp
          { floor with judgeUnavailableReason := some "judge_error" }
      | (telem, some run) =>
        let stamped := telem.stamp floor
        if run.verdicts = [] then
          { stamped with judgeUnavailableReason := some "judge_empty" }
        else
          judgedReport reader fns finding (countCitationless finding stamped) telem run

end

end Legba.Faithfulness
