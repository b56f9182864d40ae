import Legba.FaithfulnessJudge

/-!
# The folds after the judge

Behind the judge seven stages look at the finding once more: the metadata
lookup, the check for uncited world knowledge, the licence for weighted
comparisons, the absence slice, the input checks, the composition checks and
the arms of an assembly.  A stage changes the report by the operations of
`Fold`: it overrides verdicts, adds a soft failure, bumps a counter, or touches
the scores of the branches.

What a stage decides about a claim is read off the fields of `Checks`.
-/

namespace Legba.Faithfulness

inductive Fold where
  | overrides (list : List ClaimOverride)
  | soft (span : UnsupportedSpan) (counter : Option String)
  | bump (name : String) (n : ℕ)
  | rescoreCitationBranch (lifted : List String)
  | assemblyBranch (branch : BranchScore)

/-- `branch_scores` with one entry set, as an assignment in a dictionary. -/
def setBranch (scores : List (String × BranchScore)) (name : String)
    (branch : BranchScore) : List (String × BranchScore) :=
  if scores.any (fun entry => decide (entry.1 = name)) then
    scores.map fun entry => if entry.1 = name then (name, branch) else entry
  else scores ++ [(name, branch)]

section

variable (reader : ClaimReader) (fns : JudgeFns)

/-- `_rescore_citation_branch`, on the scores of the branches. -/
def rescoredBranches (scores : List (String × BranchScore))
    (lifted : List String) : List (String × BranchScore) :=
  let moved := lifted.countP fun claim => decide (reader.claimKind claim = .citationSupport)
  scores.map fun entry =>
    if entry.1 = ClaimKind.citationSupport.label && decide (moved ≠ 0) then
      let supported := min (entry.2.supported + moved) entry.2.checkable
      (entry.1,
        { checkable := entry.2.checkable
          supported := supported
          score :=
            if entry.2.checkable = 0 then 1
            else fns.round4 ((supported : ℚ) / entry.2.checkable) })
    else entry

def perform (report : FaithfulnessReport) : Fold → FaithfulnessReport
  | .overrides list => applyClaimOverrides reader.toTextFns report list
  | .soft span counter => foldSoft report span counter
  | .bump name n => report.bump name n
  | .rescoreCitationBranch lifted =>
    { report with
      branchScores := rescoredBranches reader fns report.branchScores lifted }
  | .assemblyBranch branch =>
    { report with
      branchScores := setBranch report.branchScores "assembly" branch }

def performAll (report : FaithfulnessReport) (folds : List Fold) :
    FaithfulnessReport :=
  folds.foldl (perform reader fns) report

end

structure Licence where
  granted : Bool
  counter : String
  shape : String
  detail : String

structure SliceRow where
  text : String
  machineStructured : Bool

inductive CompositionRead where
  | silent
  | deskUnresolved
  | attributed (head : ℤ) (directionConflict assertsDeskNegative ungroundedQuote : Option String)
  | absence (refs : List ℤ) (laundered : Option String)

structure BuriedLead where
  text : String
  leadRef : Option ℤ

structure InputContradiction where
  text : String
  refs : List ℤ
  surfaced : Bool

structure ArmResult where
  counters : List (String × ℕ)
  findings : List UnsupportedSpan
  isGraderOfRecord : Bool

structure Checks where
  metadataClaimOverride : String → Option ClaimOverride
  isUncitedWorldBaseline : String → Bool
  weightingApplies : Bool
  licenceFor : String → ClaimVerdict → Option Licence
  absenceScopeQualifier : String → Option String
  absenceRouteExclusion : String → Option String
  sliceWired : Bool
  sliceRows : Option (List SliceRow)
  rowInClaimScope : String → String → Bool
  absenceContentTerms : String → List String
  sliceCandidates : List String → List String → List String × Bool
  stage2Reply : Option (List Slot)
  resolveViolatingRow : String → List String → Option String
  scaleUndershoots : String → String → Bool
  rowRestatesNegative : String → String → Bool
  suppressedLead : Bool
  buriedLead : Option BuriedLead
  contradictions : List InputContradiction
  compositionApplies : Bool
  readComposition : String → CompositionRead
  assembly : Option ArmResult
  isCoverageStatement : String → Bool

structure Pass where
  reader : ClaimReader
  fns : JudgeFns
  finding : Finding
  selected : Bool
  judgeEnabled : Bool
  judge : Option Judge
  checks : Checks

section

variable (pass : Pass)

def Pass.handler : Option Judge :=
  if pass.selected then pass.judge else none

def Pass.claims : List String :=
  (pass.reader.segmentClaims pass.finding.body).filter pass.reader.isJudgeableClaim

abbrev Count := String × ℕ

def counted (name : String) (n : ℕ) : List Count :=
  if n = 0 then [] else [(name, n)]

def bumpAll (counts : List Count) : List Fold :=
  counts.map fun count => .bump count.1 count.2

def annotateMatch (ov : ClaimOverride) : ClaimOverride where
  text := ov.text
  supported := true
  counter := ov.counter
  detail := some ("metadata leg checked and holds (" ++
    reasonText ov.detail ++ ") — the verdict is unchanged because the claim " ++
    "also asserts first-order content this column cannot certify")
  annotateOnly := true

def metadataFolds (_report : FaithfulnessReport) : List Fold :=
  if pass.finding.body = "" then []
  else
    let found := pass.claims.filterMap pass.checks.metadataClaimOverride
    let decided := found.filter fun ov => !decide (ov.counter = "metadata_unverifiable")
    bumpAll ((found.filter fun ov =>
        decide (ov.counter = "metadata_unverifiable")).map fun ov => (ov.counter, 1)) ++
      [.overrides (decided.map fun ov =>
        if ov.counter = "metadata_verified_not_dominant" then annotateMatch ov
        else ov)]

def firstOfEach (text : TextFns) (claims : List String) : List String :=
  claims.foldl (fun kept claim =>
    if kept.any (fun other => decide (text.strip other = text.strip claim))
    then kept
    else kept ++ [claim]) []

def uncitedOverride (claim : String) : ClaimOverride where
  text := claim
  supported := false
  counter := "claim_markerless_uncited"
  reason := some "uncited_world_knowledge"
  detail := some ("the claim carries no citation marker and rests on a " ++
    "historical/structural BASELINE about the world — a premise " ++
    "no cited row supplies and the analyst may not supply from " ++
    "memory (the uncited-prior-leak shape)")

def markerlessFolds (_report : FaithfulnessReport) : List Fold :=
  if pass.finding.body = "" then []
  else
    let subclaim := pass.finding.citations.usesSubclaimConvention
    let claims := pass.claims.filter fun claim =>
      decide (pass.reader.markersInClaim subclaim claim = []) &&
        pass.checks.isUncitedWorldBaseline claim
    [.overrides ((firstOfEach pass.reader.toTextFns claims).map uncitedOverride)]

def liftableReasons : List String := ["judge_unsupported", "judge_contradicted"]

def liftableRow (report : FaithfulnessReport) (claim : String) : Option ClaimVerdict :=
  report.claimVerdicts.reverse.find? fun row =>
    match row.reason with
    | none => false
    | some reason =>
      decide (reason ∈ liftableReasons) &&
        decide (pass.reader.strip row.text = pass.reader.strip claim)

def licensedOverride (claim : String) (licence : Licence) : ClaimOverride where
  text := claim
  supported := true
  counter := "weighted_comparison_licensed"
  detail := some ("[" ++ licence.shape ++ "] " ++ licence.detail)

/-- `assessment_weighting.fold`. -/
def weightingFolds (report : FaithfulnessReport) : List Fold :=
  if pass.checks.weightingApplies then
    let decisions :=
      (pass.reader.segmentClaims pass.finding.body).filterMap fun claim =>
        (liftableRow pass report claim).bind fun row =>
          (pass.checks.licenceFor claim row).map fun licence => (claim, row, licence)
    let granted := decisions.filter fun decision => decision.2.2.granted
    let denied := decisions.filter fun decision => !decision.2.2.granted
    let hard := granted.countP fun decision =>
      decide (decision.2.1.reason = some "judge_contradicted")
    bumpAll (counted "weighted_comparison_seen" decisions.length ++
        denied.map fun decision => (decision.2.2.counter, 1)) ++
      if granted = [] then []
      else
        .overrides (granted.map fun decision => licensedOverride decision.1 decision.2.2) ::
          bumpAll (counted "weighted_comparison_licensed_hard" hard) ++
          [.rescoreCitationBranch (granted.map fun decision => decision.1)]
  else []

/-! ## The absence slice -/

/-- `_COEXISTING_FLAG_COUNTERS`. -/
def coexistingFlagCounter (reason : String) : Option String :=
  if reason = "unscoped_absence_claim" then
    some "absence_slice_scope_flagged"
  else if reason = "uncited_world_knowledge" then
    some "absence_slice_premise_flagged"
  else none

/-- `scope_flagged`: the last flagged row of a text decides. -/
def scopeFlag (report : FaithfulnessReport) (claim : String) : Option String :=
  (report.claimVerdicts.reverse.filter fun row =>
      decide (pass.reader.strip row.text = pass.reader.strip claim)).findSome?
    fun row => row.reason.bind coexistingFlagCounter

structure SliceOutcome where
  counts : List Count := []
  overrides : List ClaimOverride := []
  stage2 : List (String × List String) := []

def SliceOutcome.append (first second : SliceOutcome) : SliceOutcome where
  counts := first.counts ++ second.counts
  overrides := first.overrides ++ second.overrides
  stage2 := first.stage2 ++ second.stage2

def sliceVerified (claim detail : String) : ClaimOverride where
  text := claim
  supported := true
  counter := "absence_slice_verified"
  detail := some detail

def screenClaim (eligible : List SliceRow) (claim qualifier : String) :
    SliceOutcome :=
  let inScope := eligible.filter fun row => pass.checks.rowInClaimScope row.text claim
  let offScope := counted "absence_slice_off_scope_rows_excluded" (eligible.length - inScope.length)
  let n := inScope.length
  let terms := pass.checks.absenceContentTerms claim
  let screened := pass.checks.sliceCandidates terms (inScope.map SliceRow.text)
  if n = 0 then
    { counts := offScope ++ [("absence_slice_unresolved", 1),
        ("absence_slice_no_eligible_rows", 1)] }
  else if terms.length < 1 then
    { counts := offScope ++ [("absence_slice_unresolved", 1)] }
  else if screened.1 = [] && screened.2 then
    { counts := offScope ++
        if n < 3 then [("absence_slice_thin", 1)] else []
      overrides := [sliceVerified claim
        ("scoped negative ('" ++ qualifier ++ "') checked against " ++
          (if n < 3 then "a THIN " else "the ") ++ toString n ++
          "-row in-scope input slice: no row is topically about the " ++
          "thing said to be absent" ++
          if n < 3 then " — too few rows for this to be strong verification"
          else "")] }
  else if screened.1 = [] then
    { counts := offScope ++ [("absence_slice_unresolved", 1)] }
  else
    { counts := offScope ++ [("absence_slice_candidates", 1)]
      stage2 := [(claim, screened.1)] }

def shownRows (stage2 : List (String × List String)) : List String :=
  ((stage2.flatMap Prod.snd).eraseDups).take 24

def stage2Claim (shown : List String) (claim : String) (slot : Slot) :
    SliceOutcome :=
  match slot with
  | none => { counts := [("absence_slice_unresolved", 1)] }
  | some answer =>
    match answer.token, pass.checks.resolveViolatingRow answer.quote shown with
    | .supported, _ =>
      { overrides := [sliceVerified claim
          ("scoped negative checked against the " ++
            toString shown.length ++
            " colliding in-scope input-slice rows: none reports the " ++
            "thing said to be absent")] }
    | .contradicted, some violating =>
      if pass.checks.scaleUndershoots claim violating then
        { counts := [("absence_slice_scale_undershoot", 1), ("absence_slice_unresolved", 1)] }
      else if pass.checks.rowRestatesNegative claim violating then
        { counts := [("absence_slice_row_restates_claim", 1), ("absence_slice_unresolved", 1)] }
      else
        { overrides := [
            { text := claim
              supported := false
              counter := "absence_slice_contradicted"
              reason := some "absence_slice_contradicted"
              detail := some ("violated by an input-slice row: " ++
                clip 200 violating) }] }
    | _, _ => { counts := [("absence_slice_unresolved", 1)] }

/-- `_absence_slice_stage2`. -/
def absenceStage2 (stage2 : List (String × List String)) : SliceOutcome :=
  match pass.checks.stage2Reply with
  | none => { counts := [("absence_slice_unresolved", stage2.length)] }
  | some slots =>
    if slots = [] then
      { counts := [("absence_slice_unresolved", stage2.length)] }
    else
      ((stage2.zip slots).map fun entry =>
        stage2Claim pass (shownRows stage2) entry.1.1 entry.2).foldl
        SliceOutcome.append {}

def absenceFolds (report : FaithfulnessReport) : List Fold :=
  if pass.finding.body = "" || !pass.checks.sliceWired then []
  else
    let qualified := pass.claims.filterMap fun claim =>
      (pass.checks.absenceScopeQualifier claim).map fun qualifier => (claim, qualifier)
    let excluded := qualified.filterMap fun entry => pass.checks.absenceRouteExclusion entry.1
    let candidates := qualified.filter fun entry =>
      (pass.checks.absenceRouteExclusion entry.1).isNone
    let flags := candidates.filterMap fun entry => scopeFlag pass report entry.1
    let unflagged := candidates.filter fun entry => (scopeFlag pass report entry.1).isNone
    let routed : List Count := (excluded.flatMap fun kind =>
        [("absence_slice_route_excluded", 1),
          ("absence_slice_route_excluded_" ++ kind, 1)]) ++
      flags.map fun counter => (counter, 1)
    if unflagged = [] then bumpAll routed
    else
      match pass.checks.sliceRows with
      | none => bumpAll (routed ++ [("absence_slice_unavailable", unflagged.length)])
      | some rows =>
        let eligible := rows.filter fun row => !row.machineStructured
        let screened := (unflagged.map fun entry => screenClaim pass eligible entry.1 entry.2).foldl
          SliceOutcome.append {}
        let second :=
          if screened.stage2 = [] then {}
          else if pass.handler.isSome && pass.judgeEnabled then
            absenceStage2 pass screened.stage2
          else
            { counts := [("absence_slice_unresolved", screened.stage2.length)] }
        bumpAll (routed ++
            counted "absence_slice_machine_rows_excluded"
              (rows.countP SliceRow.machineStructured) ++
            screened.counts ++ second.counts) ++
          [.overrides (screened.overrides ++ second.overrides)]

def softSpan (text reason : String) (markers : List ℤ)
    (detail : Option String) : UnsupportedSpan where
  text := clip 2000 text
  reason := reason
  markers := intMarkers markers
  detail := detail

def inputFolds (_report : FaithfulnessReport) : List Fold :=
  (if pass.checks.suppressedLead then
      [.bump "salience_lead_suppressed_assembly" 1]
    else
      pass.checks.buriedLead.toList.map fun lead =>
        .soft (softSpan lead.text "buried_lead_salience" lead.leadRef.toList
          none) (some "salience_lead_buried")) ++
    pass.checks.contradictions.map fun pair =>
      if pair.surfaced then .bump "input_contradiction_surfaced" 1
      else
        .soft (softSpan pair.text "unsurfaced_input_contradiction" pair.refs
          none) (some "input_contradiction_unsurfaced")

/-- `_grade_one` of the composition checks. -/
def compositionClaimFolds (claim : String) : List Fold :=
  match pass.checks.readComposition claim with
  | .silent => []
  | .deskUnresolved =>
    [.bump "composition_integrity_attributions_seen" 1,
      .bump "composition_integrity_desk_unresolved" 1]
  | .attributed head conflict negative quote =>
    let violation : Fold :=
      match conflict, negative, quote with
      | some detail, _, _ =>
        .soft (softSpan claim "attribution_direction_conflict" [head] (some detail))
          (some "composition_integrity_attribution_direction_conflict")
      | none, some detail, _ =>
        .soft (softSpan claim "attribution_asserts_desk_negative" [head] (some detail))
          (some "composition_integrity_attribution_asserts_desk_negative")
      | none, none, some detail =>
        .soft (softSpan claim "attribution_ungrounded_quote" [head] (some detail))
          (some "composition_integrity_attribution_ungrounded_quote")
      | none, none, none => .bump "composition_integrity_attributions_clean" 1
    [.bump "composition_integrity_attributions_seen" 1, violation]
  | .absence refs laundered =>
    .bump "composition_integrity_absence_claims_seen" 1 ::
      laundered.toList.map fun detail =>
        .soft (softSpan claim "absence_scope_laundered" refs (some detail))
          (some "composition_integrity_absence_scope_laundered")

/-- `composition_integrity.fold`. -/
def compositionFolds (_report : FaithfulnessReport) : List Fold :=
  if pass.checks.compositionApplies then
    (pass.reader.segmentClaims pass.finding.body).flatMap (compositionClaimFolds pass)
  else []

def ArmResult.counter (result : ArmResult) (name : String) : ℕ :=
  (result.counters.lookup name).getD 0

/-- `branch_score` of the arms; an audit which ran has always read a row. -/
def armsBranch (fns : JudgeFns) (result : ArmResult) : BranchScore :=
  let checkable := result.counter "assembly_quote_spans_checked" +
    result.counter "assembly_attribution_blocks_checked" + 6
  let supported := checkable - result.findings.length
  { checkable := checkable
    supported := supported
    score := fns.round4 ((supported : ℚ) / checkable) }

/-- `assembly_arms.fold`, up to the headline. -/
def assemblyFolds (_report : FaithfulnessReport) : List Fold :=
  match pass.checks.assembly with
  | none => []
  | some result =>
    bumpAll result.counters ++
      [.assemblyBranch (armsBranch pass.fns result)] ++
      result.findings.map fun span => .soft { span with text := clip 2000 span.text } none

def stages : List (FaithfulnessReport → List Fold) :=
  [metadataFolds pass, markerlessFolds pass, weightingFolds pass,
    absenceFolds pass, inputFolds pass, compositionFolds pass,
    assemblyFolds pass]

/-- The operations of one stage after the other, each stage reading the report
the former ones left. -/
def stageFolds (report : FaithfulnessReport) : List (FaithfulnessReport → List Fold) → List Fold
  | [] => []
  | stage :: rest =>
    stage report ++ stageFolds (performAll pass.reader pass.fns report (stage report)) rest

def judged : FaithfulnessReport :=
  let floor := foldedFloor pass.reader pass.finding
  if pass.selected then
    maybeLlmJudge pass.reader pass.fns pass.finding pass.judgeEnabled pass.judge floor
  else
    { floor.bump "judge_unsampled" 1 with judgeStatus := .unsampled }

def laterFolds : List Fold :=
  stageFolds pass (judged pass) (stages pass)

/-- `regrade_to_arms`, on an assembly whose arms are the grader of record. -/
def regradeToArms (report : FaithfulnessReport) : FaithfulnessReport :=
  match pass.checks.assembly with
  | none => report
  | some result =>
    if result.isGraderOfRecord then
      let branch := armsBranch pass.fns result
      { report.bump "assembly_headline_regraded_to_arms" 1 with
        faithfulnessScore := (branch.supported : ℚ) / branch.checkable
        checkableClaims := branch.checkable
        supportedClaims := branch.supported
        scoreDenominator := some branch.checkable }
    else report

/-- `denominator_caveat_counters`. -/
def countCaveats (report : FaithfulnessReport) : FaithfulnessReport :=
  (report.bump "denominator_triggered_indicator_scaffold" (triggered pass.finding).length).bump
    "denominator_coverage_statement"
    (pass.claims.countP pass.checks.isCoverageStatement)

def resolveScoreState (checkable : ℤ) (body : String) : ScoreState × Option String :=
  if checkable ≤ 0 then (.unassessable, some "no_checkable_claims")
  else if checkable < 2 && decide (800 ≤ body.length) then
    (.unassessable, some "thin_claims_on_substantive_body")
  else (.scored, none)

def stampScoreState (report : FaithfulnessReport) : FaithfulnessReport :=
  let state := resolveScoreState report.checkableClaims pass.finding.body
  let stamped := { report with scoreState := state.1, scoreStateReason := state.2 }
  if state.1 = .unassessable then
    stamped.bump ("unassessable_" ++ reasonText state.2) 1
  else stamped

/-- `verify_finding_faithfulness`. -/
def verifyFinding : FaithfulnessReport :=
  stampScoreState pass (countCaveats pass (regradeToArms pass
    (performAll pass.reader pass.fns (judged pass) (laterFolds pass))))

end

def confidenceSentence : String :=
  "The cited read carries an effective confidence of 0.68 [1]."

def enrichmentSentence : String :=
  "Tehran resumed enrichment at Fordow this week [1]."

def twoSentences : String :=
  confidenceSentence ++ " " ++ enrichmentSentence

def twoSentenceReader : ClaimReader where
  strip := id
  segmentClaims := fun body =>
    if body = twoSentences then [confidenceSentence, enrichmentSentence] else []
  droppedClaims := fun _ => []
  isJsonSyntaxClaim := fun _ => false
  isFactAsserting := fun _ => true
  isJudgeableClaim := fun _ => true
  isHedgedAttributed := fun _ => false
  claimKind := fun _ => .citationSupport
  readsAsSurvey := fun _ => false
  markersInClaim := fun subclaim _ => if subclaim then [] else [1]

def oneSignal : CitationIndex where
  usesSubclaimConvention := false
  hasEntries := true
  markerToSignalId := fun n => if n = 1 then some "sig-1" else none
  resolvedCitationIds := ["sig-1"]
  groundingOrdinals := []
  resolvedCitationOrdinals := []
  ordinalEffconf := fun _ => none
  peripheryOrdinals := []
  correlatedComponents := []

def plainJudgeFns : JudgeFns where
  nonpropositionIsEarned := fun _ => false
  canonicalJudgeQuote := id
  quoteResolves := fun _ => false
  resolvesOnlyInMachineRows := fun _ => false
  quoteIsRefutableEvidence := fun _ _ => false
  quoteRefutes := fun _ _ => false
  quoteHitsCarveOut := fun _ _ => false
  quoteMissesDeniedScope := fun _ _ => false
  quoteConfirmsClaim := fun _ _ => false
  disclosesHedgedConflict := fun _ => false
  claimIsRoutedOut := fun _ => false
  detailText := fun _ _ _ => ""
  round4 := id

def shortReply : Judge := fun _ =>
  { statuses := ["ok"]
    replyDelta := -1
    reply := some [none, some ⟨.unsupported, "", "claim_index"⟩] }

/-- Only the metadata lookup has something to say: the column of the cited
read holds another value than the first sentence. -/
def mismatchChecks : Checks where
  metadataClaimOverride := fun claim =>
    if claim = confidenceSentence then
      some
        { text := confidenceSentence
          supported := false
          counter := "metadata_mismatch"
          reason := some "metadata_mismatch" }
    else none
  isUncitedWorldBaseline := fun _ => false
  weightingApplies := false
  licenceFor := fun _ _ => none
  absenceScopeQualifier := fun _ => none
  absenceRouteExclusion := fun _ => none
  sliceWired := false
  sliceRows := none
  rowInClaimScope := fun _ _ => false
  absenceContentTerms := fun _ => []
  sliceCandidates := fun _ _ => ([], false)
  stage2Reply := none
  resolveViolatingRow := fun _ _ => none
  scaleUndershoots := fun _ _ => false
  rowRestatesNegative := fun _ _ => false
  suppressedLead := false
  buriedLead := none
  contradictions := []
  compositionApplies := false
  readComposition := fun _ => .silent
  assembly := none
  isCoverageStatement := fun _ => false

def mismatchPass : Pass where
  reader := twoSentenceReader
  fns := plainJudgeFns
  finding := { body := twoSentences, citations := oneSignal }
  selected := true
  judgeEnabled := true
  judge := some shortReply
  checks := mismatchChecks

end Legba.Faithfulness
