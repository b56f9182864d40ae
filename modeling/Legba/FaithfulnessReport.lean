import Legba.LabelledRun
import Mathlib.Algebra.Ring.Rat

/-!
# The faithfulness report

The verify pass of a finding fills one report: a tally with its score, the
spans which lack support, a ledger of the claims with their verdicts, counters
of what each stage did, and the receipts of the judge.  Later stages build a
new report from a list of its fields, and a field the list leaves out falls
back to its default.

There are three ways to build one from another: a guard adds failed claims, a
soft fold adds one, and an override replaces the verdicts of named claims.
-/

namespace Legba.Faithfulness

inductive Verdict where
  | supported
  | hardFail
  | softFail
  deriving DecidableEq, Repr

def hardFailReasons : List String :=
  ["unresolved_citation", "judge_contradicted", "stale_leader",
    "stale_leader_vs_facts", "cross_target_leak",
    "absence_slice_contradicted", "attribution_direction_conflict",
    "quote_not_contained", "quote_offset_mismatch", "quote_origin_drift",
    "quote_origin_truncated", "scope_truncated", "scope_widened",
    "attribution_desk_mismatch", "attribution_date_mismatch",
    "attribution_target_mismatch", "attribution_head_unresolved",
    "coverage_unit_missing", "coverage_unit_duplicated",
    "coverage_status_invalid", "drop_count_mismatch", "drop_why_unknown",
    "drop_order_violation"]

def failClassForReason (reason : String) : Verdict :=
  if reason ∈ hardFailReasons then .hardFail else .softFail

def advisoryReasons : List String := ["double_counted", "hedge_laundering"]

theorem failClassForReason_ne_supported (reason : String) :
    failClassForReason reason ≠ .supported := by
  unfold failClassForReason
  split
  · intro h
    cases h
  · intro h
    cases h

abbrev Marker := ℤ ⊕ String

structure UnsupportedSpan where
  text : String
  reason : String
  markers : List Marker := []
  detail : Option String := none
  deriving DecidableEq

structure ClaimVerdict where
  text : String
  verdict : Verdict
  reason : Option String := none
  markers : List Marker := []
  detail : Option String := none
  alignedBy : Option String := none
  deriving DecidableEq

def ClaimVerdict.ofSupported (text : String) (markers : List Marker) :
    ClaimVerdict :=
  { text := text, verdict := .supported, markers := markers }

def ClaimVerdict.failed (text reason : String) (markers : List Marker)
    (detail : Option String) : ClaimVerdict :=
  { text := text
    verdict := failClassForReason reason
    reason := some reason
    markers := markers
    detail := detail }

inductive JudgeStatus where
  | deterministic
  | llm
  | unsampled
  | partial_
  deriving DecidableEq, Repr

inductive ScoreState where
  | scored
  | unassessable
  deriving DecidableEq, Repr

structure BranchScore where
  checkable : ℕ
  supported : ℕ
  score : ℚ
  deriving DecidableEq

abbrev Counters := String → ℕ

def Counters.bump (counters : Counters) (name : String) (n : ℕ) : Counters :=
  Function.update counters name (counters name + n)

theorem Counters.bump_apply (counters : Counters) (name other : String) (n : ℕ) :
    counters.bump name n other = counters other + if other = name then n else 0 := by
  by_cases hother : other = name
  · subst hother
    simp [Counters.bump]
  · simp [Counters.bump, hother]

structure FaithfulnessReport where
  faithfulnessScore : ℚ
  checkableClaims : ℤ
  supportedClaims : ℤ
  unsupportedSpans : List UnsupportedSpan := []
  judgeStatus : JudgeStatus := .deterministic
  judgeUnavailableReason : Option String := none
  confidenceCeiling : Option ℚ := none
  branchScores : List (String × BranchScore) := []
  claimVerdicts : List ClaimVerdict := []
  counters : Counters := fun _ => 0
  scoreDenominator : Option ℤ := none
  scoreState : ScoreState := .scored
  scoreStateReason : Option String := none
  judgeAttempts : Option ℕ := none
  judgeHttpStatuses : List String := []
  judgePartial : Option ℕ := none
  judgePartialClaims : List ℕ := []
  judgeMiscountClaims : ℤ := 0

def FaithfulnessReport.bump (report : FaithfulnessReport) (name : String)
    (n : ℕ) : FaithfulnessReport :=
  { report with counters := report.counters.bump name n }

def foldGuardSpans (floor : FaithfulnessReport)
    (guardSpans : List UnsupportedSpan) : FaithfulnessReport :=
  if guardSpans = [] then floor
  else
    let checkable := floor.checkableClaims + guardSpans.length
    let supported := floor.supportedClaims
    { faithfulnessScore :=
        if checkable = 0 then 1 else (supported : ℚ) / checkable
      checkableClaims := checkable
      supportedClaims := supported
      unsupportedSpans := floor.unsupportedSpans ++ guardSpans
      judgeStatus := floor.judgeStatus
      judgeUnavailableReason := floor.judgeUnavailableReason
      judgeAttempts := floor.judgeAttempts
      judgeHttpStatuses := floor.judgeHttpStatuses
      confidenceCeiling := floor.confidenceCeiling
      claimVerdicts := floor.claimVerdicts ++ guardSpans.map fun span =>
        ClaimVerdict.failed span.text span.reason span.markers none
      counters := floor.counters
      scoreDenominator := some checkable }

/-- `_fold_soft` of the input checks and of the composition checks, and
`_fold_one` of the assembly arms, which differ in the counter they bump: the
last bumps none. -/
def foldSoft (report : FaithfulnessReport) (span : UnsupportedSpan)
    (counter : Option String) : FaithfulnessReport :=
  let checkable := report.checkableClaims + 1
  let supported := report.supportedClaims
  { faithfulnessScore :=
      if checkable = 0 then 1 else (supported : ℚ) / checkable
    checkableClaims := checkable
    supportedClaims := supported
    unsupportedSpans := report.unsupportedSpans ++ [span]
    judgeStatus := report.judgeStatus
    judgeUnavailableReason := report.judgeUnavailableReason
    judgeAttempts := report.judgeAttempts
    judgeHttpStatuses := report.judgeHttpStatuses
    judgeMiscountClaims := report.judgeMiscountClaims
    confidenceCeiling := report.confidenceCeiling
    branchScores := report.branchScores
    claimVerdicts := report.claimVerdicts ++
      [ClaimVerdict.failed span.text span.reason span.markers span.detail]
    counters := match counter with
      | none => report.counters
      | some name => report.counters.bump name 1
    scoreDenominator := some checkable
    scoreState := report.scoreState
    scoreStateReason := report.scoreStateReason }

/-! ## Overrides -/

/-- A verdict put in the place of a claim's own, by the text of the claim. -/
structure ClaimOverride where
  text : String
  supported : Bool
  counter : String
  reason : Option String := none
  detail : Option String := none
  annotateOnly : Bool := false
  deriving DecidableEq

def reasonText (reason : Option String) : String :=
  reason.getD "None"

/-- `str.strip` is a parameter of the stages which compare claims by text. -/
structure TextFns where
  strip : String → String

section

variable (text : TextFns)

/-- `by_text`: the last override of a text decides. -/
def byText (overrides : List ClaimOverride) (key : String) : Option ClaimOverride :=
  overrides.reverse.find? fun ov => decide (text.strip ov.text = key)

/-- The keys of `by_text`, in the order in which they were first set. -/
def overrideKeys (overrides : List ClaimOverride) : List String :=
  (overrides.map fun ov => text.strip ov.text).eraseDups

def replacing? (overrides : List ClaimOverride) (row : ClaimVerdict) : Option ClaimOverride :=
  (byText text overrides (text.strip row.text)).filter (!·.annotateOnly)

def erases (ov : ClaimOverride) (reason : String) : Bool :=
  decide (reason ≠ "") && (ov.supported || decide (ov.reason ≠ some reason))

def erasedCounter (reason : String) : String :=
  "override_erased_" ++ reason

def bumpErased (ov : ClaimOverride) (row : ClaimVerdict) (counters : Counters) : Counters :=
  match row.reason with
  | none => counters
  | some reason =>
    if erases ov reason then counters.bump (erasedCounter reason) 1
    else counters

def overriddenRow (ov : ClaimOverride) (row : ClaimVerdict) : ClaimVerdict :=
  if ov.supported then
    { text := row.text
      verdict := .supported
      reason := none
      markers := row.markers
      detail := ov.detail }
  else
    { text := row.text
      verdict := failClassForReason (reasonText ov.reason)
      reason := ov.reason
      markers := row.markers
      detail := ov.detail }

def overrideGain (ov : ClaimOverride) (row : ClaimVerdict) : ℤ :=
  if ov.supported then
    if row.verdict = .supported then 0 else 1
  else
    if row.verdict = .supported then -1 else 0

def annotatedRow (ov : ClaimOverride) (row : ClaimVerdict) : ClaimVerdict :=
  { row with detail :=
      match ov.detail with
      | none => row.detail
      | some detail => if detail = "" then row.detail else some detail }

structure LedgerWalk where
  supported : ℤ
  counters : Counters
  applied : List String
  ledger : List ClaimVerdict

def LedgerWalk.visit (overrides : List ClaimOverride) (walk : LedgerWalk)
    (row : ClaimVerdict) : LedgerWalk :=
  let key := text.strip row.text
  match byText text overrides key with
  | none => { walk with ledger := walk.ledger ++ [row] }
  | some ov =>
    if ov.annotateOnly then
      { walk with ledger := walk.ledger ++ [annotatedRow ov row] }
    else
      { supported := walk.supported + overrideGain ov row
        counters := bumpErased ov row walk.counters
        applied :=
          if key ∈ walk.applied then walk.applied
          else walk.applied ++ [key]
        ledger := walk.ledger ++ [overriddenRow ov row] }

def countOverrides (overrides : List ClaimOverride) (counters : Counters) :
    Counters :=
  overrides.foldl (fun counters ov => counters.bump ov.counter 1) counters

def overrideSpan (ledger : List ClaimVerdict) (key : String)
    (ov : ClaimOverride) : UnsupportedSpan where
  text := ov.text
  reason := reasonText ov.reason
  markers := ((ledger.find? fun row =>
    decide (text.strip row.text = key)).map ClaimVerdict.markers).getD []
  detail := ov.detail

def ungradedFailures (overrides : List ClaimOverride)
    (applied : List String) : List ClaimOverride :=
  (overrideKeys text overrides).filterMap fun key =>
    (byText text overrides key).filter fun ov =>
      !decide (key ∈ applied) && !ov.supported && !ov.annotateOnly

def ungradedRow (ov : ClaimOverride) : ClaimVerdict where
  text := ov.text
  verdict := failClassForReason (reasonText ov.reason)
  reason := ov.reason
  detail := ov.detail

def ungradedSpan (ov : ClaimOverride) : UnsupportedSpan where
  text := ov.text
  reason := reasonText ov.reason
  detail := ov.detail

def walkLedger (report : FaithfulnessReport) (overrides : List ClaimOverride) : LedgerWalk :=
  report.claimVerdicts.foldl (LedgerWalk.visit text overrides)
    { supported := report.supportedClaims
      counters := countOverrides overrides report.counters
      applied := []
      ledger := [] }

def applyClaimOverrides (report : FaithfulnessReport)
    (overrides : List ClaimOverride) : FaithfulnessReport :=
  if overrides = [] then report
  else
    let walk := walkLedger text report overrides
    let kept := report.unsupportedSpans.filter fun span =>
      decide (span.reason ∈ advisoryReasons) || !decide (text.strip span.text ∈ walk.applied)
    let decided := walk.applied.filterMap fun key =>
      ((byText text overrides key).filter (!·.supported)).map
        (overrideSpan text walk.ledger key)
    let ungraded := ungradedFailures text overrides walk.applied
    let checkable := report.checkableClaims + ungraded.length
    let denom := report.scoreDenominator.getD report.checkableClaims + ungraded.length
    { faithfulnessScore :=
        if denom ≤ 0 then 1 else (walk.supported : ℚ) / denom
      checkableClaims := checkable
      supportedClaims := walk.supported
      unsupportedSpans := kept ++ decided ++ ungraded.map ungradedSpan
      judgeStatus := report.judgeStatus
      judgeUnavailableReason := report.judgeUnavailableReason
      judgeAttempts := report.judgeAttempts
      judgeHttpStatuses := report.judgeHttpStatuses
      judgeMiscountClaims := report.judgeMiscountClaims
      confidenceCeiling := report.confidenceCeiling
      branchScores := report.branchScores
      claimVerdicts := walk.ledger ++ ungraded.map ungradedRow
      counters := walk.counters
      scoreDenominator := some denom }

end

end Legba.Faithfulness
