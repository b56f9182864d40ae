import Legba.FaithfulnessFolds
import Legba.OverrideLedger
import Mathlib.Algebra.Order.Field.Basic
import Mathlib.Algebra.Order.Field.Rat
import Mathlib.Tactic.Ring

/-!
# The tally of a verify pass

The judge pass counts the claims it graded and the charged spans it did not,
and carries the other floor rows along.  A carried row which the floor
supported is in the ledger and not in the numerator.  Every later fold keeps
the number of those rows, so the numerator is the supported rows less that
number, and the tally is a fraction as long as no override takes more supported
rows than it counts.
-/

namespace Legba.Faithfulness

open List

def denominatorOf (report : FaithfulnessReport) : ℤ :=
  report.scoreDenominator.getD report.checkableClaims

structure RealFraction (report : FaithfulnessReport) : Prop where
  nonneg : 0 ≤ report.supportedClaims
  supported_le : report.supportedClaims ≤ denominatorOf report
  denominator_le : denominatorOf report ≤ report.checkableClaims
  score : report.faithfulnessScore = fraction report.supportedClaims (denominatorOf report)

/-- The tally counts the ledger, less the supported rows it carries
uncounted. -/
structure KeepsTally (uncounted : ℕ) (report : FaithfulnessReport) : Prop where
  supported : report.supportedClaims = countSupported report.claimVerdicts - uncounted
  carried : uncounted ≤ report.claimVerdicts.length
  rows : (report.claimVerdicts.length : ℤ) - uncounted ≤ denominatorOf report
  denominator_le : denominatorOf report ≤ report.checkableClaims
  score : report.faithfulnessScore = fraction report.supportedClaims (denominatorOf report)

variable {report : FaithfulnessReport} {uncounted : ℕ}

theorem RealFraction.score_mem (hreport : RealFraction report) :
    0 ≤ report.faithfulnessScore ∧ report.faithfulnessScore ≤ 1 := by
  rw [hreport.score]
  unfold fraction
  split
  · exact ⟨zero_le_one, le_refl 1⟩
  · rename_i hzero
    have hsupported : (0 : ℚ) ≤ report.supportedClaims := by exact_mod_cast hreport.nonneg
    have hle : (report.supportedClaims : ℚ) ≤ denominatorOf report := by
      exact_mod_cast hreport.supported_le
    have hpos : (0 : ℚ) < denominatorOf report := by
      have hnonneg := hreport.nonneg.trans hreport.supported_le
      have hposInt : 0 < denominatorOf report := by omega
      exact_mod_cast hposInt
    exact ⟨div_nonneg hsupported hpos.le, (div_le_one hpos).mpr hle⟩

theorem countSupported_le (rows : List ClaimVerdict) : countSupported rows ≤ rows.length :=
  countP_le_length

theorem KeepsTally.realFraction_iff (hreport : KeepsTally uncounted report) :
    RealFraction report ↔ 0 ≤ report.supportedClaims := by
  constructor
  · exact RealFraction.nonneg
  · intro hnonneg
    have hcount := countSupported_le report.claimVerdicts
    have hsupported := hreport.supported
    have hrows := hreport.rows
    exact
      { nonneg := hnonneg
        supported_le := by omega
        denominator_le := hreport.denominator_le
        score := hreport.score }

/-! ## Overrides -/

section

variable (text : TextFns)

def newlyFailed (overrides : List ClaimOverride) (rows : List ClaimVerdict) : ℕ :=
  rows.countP fun row =>
    decide (row.verdict = .supported) && (replacing? text overrides row).any fun ov => !ov.supported

def newlySupported (overrides : List ClaimOverride) (rows : List ClaimVerdict) : ℕ :=
  rows.countP fun row =>
    !decide (row.verdict = .supported) && (replacing? text overrides row).any fun ov => ov.supported

variable {text}

theorem overriddenRow_supported_iff (ov : ClaimOverride) (row : ClaimVerdict) :
    (overriddenRow ov row).verdict = .supported ↔ ov.supported = true := by
  cases hsupported : ov.supported with
  | true => simp [overriddenRow, hsupported]
  | false => simp [overriddenRow, hsupported, failClassForReason_ne_supported]

variable (text) in
theorem visitedRow_gain (overrides : List ClaimOverride) (row : ClaimVerdict) :
    (if (visitedRow text overrides row).verdict = .supported then (1 : ℤ)
        else 0) =
      (if row.verdict = .supported then 1 else 0) + rowGain text overrides row := by
  cases hov : replacing? text overrides row with
  | none =>
    rw [(visitedRow_kept hov).1]
    simp [rowGain, hov]
  | some ov =>
    rw [visitedRow_of_replacing hov]
    simp only [overriddenRow_supported_iff, rowGain, hov, overrideGain]
    split <;> split <;> rfl

theorem countSupported_visited (overrides : List ClaimOverride) (rows : List ClaimVerdict) :
    (countSupported (rows.map (visitedRow text overrides)) : ℤ) =
      countSupported rows + (rows.map (rowGain text overrides)).sum := by
  induction rows with
  | nil => rfl
  | cons row rest ih =>
    have hrow := visitedRow_gain text overrides row
    unfold countSupported at ih ⊢
    simp only [map_cons, countP_cons, sum_cons, decide_eq_true_eq] at ih ⊢
    push_cast at ih ⊢
    rw [ih, hrow]
    ring

theorem sum_rowGain (overrides : List ClaimOverride) (rows : List ClaimVerdict) :
    (rows.map (rowGain text overrides)).sum =
      (newlySupported text overrides rows : ℤ) - newlyFailed text overrides rows := by
  induction rows with
  | nil => rfl
  | cons row rest ih =>
    unfold newlySupported newlyFailed at ih ⊢
    rw [map_cons, sum_cons, ih, countP_cons, countP_cons]
    cases hov : replacing? text overrides row with
    | none => simp [rowGain, hov]
    | some ov =>
      cases hsupported : ov.supported with
      | true =>
        by_cases hrow : row.verdict = .supported
        · simp [rowGain, hov, overrideGain, hsupported, hrow]
        · simp [rowGain, hov, overrideGain, hsupported, hrow]
          ring
      | false =>
        by_cases hrow : row.verdict = .supported
        · simp [rowGain, hov, overrideGain, hsupported, hrow]
          ring
        · simp [rowGain, hov, overrideGain, hsupported, hrow]

theorem countSupported_ungraded (failures : List ClaimOverride) :
    countSupported (failures.map ungradedRow) = 0 := by
  unfold countSupported
  rw [countP_map, countP_eq_zero]
  intro ov _
  simp [ungradedRow, failClassForReason_ne_supported]

section

variable (text) (report : FaithfulnessReport)
variable {overrides : List ClaimOverride}

theorem applyClaimOverrides_checkable (hsome : overrides ≠ []) :
    (applyClaimOverrides text report overrides).checkableClaims =
      report.checkableClaims + (appendedFailures text report overrides).length := by
  simp [applyClaimOverrides, hsome, ungradedFailures_applied]

theorem applyClaimOverrides_denominator (hsome : overrides ≠ []) :
    denominatorOf (applyClaimOverrides text report overrides) =
      denominatorOf report + (appendedFailures text report overrides).length := by
  simp [applyClaimOverrides, hsome, ungradedFailures_applied, denominatorOf]

theorem applyClaimOverrides_score (hsome : overrides ≠ []) :
    (applyClaimOverrides text report overrides).faithfulnessScore =
      if denominatorOf (applyClaimOverrides text report overrides) ≤ 0 then 1
      else
        ((applyClaimOverrides text report overrides).supportedClaims : ℚ) /
          denominatorOf (applyClaimOverrides text report overrides) := by
  simp [applyClaimOverrides, hsome, denominatorOf]

variable (overrides) in
theorem applyClaimOverrides_length :
    (applyClaimOverrides text report overrides).claimVerdicts.length =
      report.claimVerdicts.length + (appendedFailures text report overrides).length := by
  rw [applyClaimOverrides_claimVerdicts]
  simp

variable (overrides) in
theorem applyClaimOverrides_countSupported :
    (countSupported (applyClaimOverrides text report overrides).claimVerdicts : ℤ) =
      countSupported report.claimVerdicts +
        (report.claimVerdicts.map (rowGain text overrides)).sum := by
  rw [applyClaimOverrides_claimVerdicts, countSupported_append,
    countSupported_ungraded, Nat.add_zero, countSupported_visited]

end

theorem fraction_of_nonneg {part whole : ℤ} (hwhole : 0 ≤ whole) :
    (if whole ≤ 0 then 1 else (part : ℚ) / whole) = fraction part whole := by
  unfold fraction
  split
  · rename_i hzero
    rw [if_pos (le_antisymm hzero hwhole)]
  · rename_i hpos
    rw [if_neg (fun hzero => hpos hzero.le)]

theorem KeepsTally.applyClaimOverrides {uncounted : ℕ} {report : FaithfulnessReport}
    (hreport : KeepsTally uncounted report) (overrides : List ClaimOverride) :
    KeepsTally uncounted (applyClaimOverrides text report overrides) := by
  by_cases hnil : overrides = []
  · subst overrides
    exact hreport
  · have hsupported := applyClaimOverrides_supported text report overrides
    have hcount := applyClaimOverrides_countSupported text report overrides
    have hlength := applyClaimOverrides_length text report overrides
    have hcheckable := applyClaimOverrides_checkable text report hnil
    have hdenominator := applyClaimOverrides_denominator text report hnil
    have hold := hreport.supported
    have hcarried := hreport.carried
    have hrows := hreport.rows
    have hle := hreport.denominator_le
    exact
      { supported := by rw [hsupported, hcount, hold]; ring
        carried := by omega
        rows := by rw [hlength, hdenominator]; push_cast; omega
        denominator_le := by omega
        score := by
          rw [applyClaimOverrides_score text report hnil]
          exact fraction_of_nonneg (by omega) }

end

theorem KeepsTally.foldSoft (hreport : KeepsTally uncounted report) (span : UnsupportedSpan)
    (counter : Option String) : KeepsTally uncounted (foldSoft report span counter) := by
  have hsupported := hreport.supported
  have hcarried := hreport.carried
  have hrows := hreport.rows
  have hle := hreport.denominator_le
  have hcount :
      countSupported (Faithfulness.foldSoft report span counter).claimVerdicts =
        countSupported report.claimVerdicts := by
    change countSupported (report.claimVerdicts ++
      [ClaimVerdict.failed span.text span.reason span.markers span.detail]) = _
    rw [countSupported_append, countSupported_failed_cons]
    rfl
  have hlength :
      (Faithfulness.foldSoft report span counter).claimVerdicts.length =
        report.claimVerdicts.length + 1 := by
    simp [Faithfulness.foldSoft]
  have hdenominator :
      denominatorOf (Faithfulness.foldSoft report span counter) = report.checkableClaims + 1 := rfl
  exact
    { supported := by
        rw [hcount]
        exact hsupported
      carried := by omega
      rows := by rw [hlength, hdenominator]; push_cast; omega
      denominator_le := le_refl (report.checkableClaims + 1)
      score := rfl }

theorem KeepsTally.perform (hreport : KeepsTally uncounted report) (reader : ClaimReader)
    (fns : JudgeFns) (fold : Fold) : KeepsTally uncounted (perform reader fns report fold) := by
  cases fold with
  | overrides list => exact hreport.applyClaimOverrides list
  | soft span counter => exact hreport.foldSoft span counter
  | bump name n =>
    exact ⟨hreport.supported, hreport.carried, hreport.rows, hreport.denominator_le, hreport.score⟩
  | rescoreCitationBranch lifted =>
    exact ⟨hreport.supported, hreport.carried, hreport.rows, hreport.denominator_le, hreport.score⟩
  | assemblyBranch branch =>
    exact ⟨hreport.supported, hreport.carried, hreport.rows, hreport.denominator_le, hreport.score⟩

/-! ## The report of the judge -/

section

variable (hreport : CountsLedger report)

include hreport

theorem CountsLedger.keepsTally : KeepsTally 0 report := by
  have hdenominator : denominatorOf report = report.checkableClaims := by
    simp [denominatorOf, hreport.denominator]
  exact
    { supported := by simp [hreport.supported]
      carried := Nat.zero_le _
      rows := by rw [hdenominator, hreport.checkable]; simp
      denominator_le := hdenominator.le
      score := by rw [hdenominator]; exact hreport.score }

theorem CountsLedger.of_tally {other : FaithfulnessReport}
    (hsupported : other.supportedClaims = report.supportedClaims)
    (hcheckable : other.checkableClaims = report.checkableClaims)
    (hdenominator : other.scoreDenominator = report.scoreDenominator)
    (hscore : other.faithfulnessScore = report.faithfulnessScore)
    (hspans : other.unsupportedSpans = report.unsupportedSpans)
    (hverdicts : other.claimVerdicts = report.claimVerdicts) :
    CountsLedger other :=
  { supported := by rw [hsupported, hverdicts]; exact hreport.supported
    checkable := by rw [hcheckable, hverdicts]; exact hreport.checkable
    denominator := by
      rw [hdenominator, hcheckable]
      exact hreport.denominator
    score := by rw [hscore, hsupported, hcheckable]; exact hreport.score
    charged := by rw [hspans, hverdicts]; exact hreport.charged }

theorem CountsLedger.stamp (telem : Telemetry) : CountsLedger (telem.stamp report) := by
  unfold Telemetry.stamp
  split
  · exact hreport
  · dsimp only
    split
    · exact hreport.of_tally rfl rfl rfl rfl rfl rfl
    · exact hreport.of_tally rfl rfl rfl rfl rfl rfl

theorem CountsLedger.countCitationless (finding : Finding) :
    CountsLedger (countCitationless finding report) := by
  rcases countCitationless_cases finding report with hsame | ⟨name, hbumped⟩
  · rw [hsame]
    exact hreport
  · rw [hbumped]
    exact (hreport.bump _ _).bump _ _

end

section

variable (reader : ClaimReader) (fns : JudgeFns) (finding : Finding)

theorem countSupported_judgedRows (verdicts : List GradedClaim) :
    countSupported ((verdicts.filter fun row =>
        !isNonproposition row).map (judgedRow reader fns finding)) =
      verdicts.countP isSupported := by
  unfold countSupported
  rw [countP_map, countP_filter]
  apply countP_congr
  intro row _
  cases hverdict : row.verdict <;>
    simp [isNonproposition, isSupported, judgedRow, hverdict, ClaimVerdict.ofSupported,
      ClaimVerdict.failed, failClassForReason_ne_supported]

variable {floor : FaithfulnessReport}

theorem residual_length (hfloor : CountsLedger floor) (verdicts : List GradedClaim) :
    (residualFloorSpans reader floor verdicts).length =
      floor.claimVerdicts.countP fun row =>
        !decide (row.verdict = .supported) && isUnjudged reader verdicts row.text := by
  have hspans :
      (residualFloorSpans reader floor verdicts).length =
        (chargedTexts floor.unsupportedSpans).countP (isUnjudged reader verdicts) := by
    unfold residualFloorSpans chargedTexts
    rw [← countP_eq_length_filter, countP_map, countP_filter]
    apply countP_congr
    intro span _
    simp [and_comm]
  have hrows :
      (failedTexts floor.claimVerdicts).countP (isUnjudged reader verdicts) =
        floor.claimVerdicts.countP fun row =>
          !decide (row.verdict = .supported) && isUnjudged reader verdicts row.text := by
    unfold failedTexts
    rw [countP_map, countP_filter]
    apply countP_congr
    intro row _
    simp [and_comm]
  rw [hspans, hfloor.charged, hrows]

def carriedSupported (floor : FaithfulnessReport) (verdicts : List GradedClaim) : ℕ :=
  floor.claimVerdicts.countP fun row =>
    decide (row.verdict = .supported) && isUnjudged reader verdicts row.text

theorem carried_length (hfloor : CountsLedger floor) (verdicts : List GradedClaim) :
    (floor.claimVerdicts.filter fun row => isUnjudged reader verdicts row.text).length =
      carriedSupported reader floor verdicts +
        (residualFloorSpans reader floor verdicts).length := by
  rw [residual_length reader hfloor, carriedSupported, ← countP_eq_length_filter]
  generalize floor.claimVerdicts = rows
  induction rows with
  | nil => rfl
  | cons row rest ih =>
    rw [countP_cons, countP_cons, countP_cons, ih]
    by_cases hrow : row.verdict = .supported
    · simp only [hrow, decide_true, Bool.true_and, Bool.not_true,
        Bool.false_and, Bool.false_eq_true, if_false]
      omega
    · simp only [hrow, decide_false, Bool.false_and, Bool.not_false,
        Bool.true_and, Bool.false_eq_true, if_false]
      omega

theorem judgedReport_countSupported (floor : FaithfulnessReport)
    (telem : Telemetry) (run : JudgeRun) :
    countSupported (judgedReport reader fns finding floor telem run).claimVerdicts =
      run.verdicts.countP isSupported + carriedSupported reader floor run.verdicts := by
  have hcarried : countSupported (floor.claimVerdicts.filter fun row =>
      isUnjudged reader run.verdicts row.text) = carriedSupported reader floor run.verdicts := by
    unfold countSupported carriedSupported
    rw [countP_filter]
  change countSupported ((run.verdicts.filter fun row =>
    !isNonproposition row).map (judgedRow reader fns finding) ++ _) = _
  rw [countSupported_append, hcarried, countSupported_judgedRows]

theorem judgedReport_keepsTally (hfloor : CountsLedger floor) (telem : Telemetry) (run : JudgeRun) :
    KeepsTally (carriedSupported reader floor run.verdicts)
      (judgedReport reader fns finding floor telem run) := by
  let graded := run.verdicts.filter fun row => !isNonproposition row
  have hdenominator :
      denominatorOf (judgedReport reader fns finding floor telem run) =
        graded.length + (residualFloorSpans reader floor run.verdicts).length :=
    rfl
  have hrows :
      (judgedReport reader fns finding floor telem run).claimVerdicts.length =
        graded.length + (carriedSupported reader floor run.verdicts +
          (residualFloorSpans reader floor run.verdicts).length) := by
    rw [← carried_length reader hfloor]
    simp only [judgedReport, length_append, length_map]
    rfl
  have hcount := judgedReport_countSupported reader fns finding floor telem run
  exact
    { supported := by
        rw [hcount]
        change ((run.verdicts.countP isSupported : ℕ) : ℤ) = _
        push_cast
        ring
      carried := by omega
      rows := by omega
      denominator_le := by
        simp only [judgedReport]
        split
        · exact le_refl _
        · rename_i hless
          exact (not_le.mp hless).le
      score := rfl }

end

theorem judged_keepsTally (pass : Pass) :
    ∃ uncounted, KeepsTally uncounted (judged pass) ∧ RealFraction (judged pass) := by
  have hfloor := foldedFloor_countsLedger pass.reader pass.finding
  have hreal : ∀ {report : FaithfulnessReport}, CountsLedger report →
      ∃ uncounted, KeepsTally uncounted report ∧ RealFraction report := by
    intro report hreport
    refine ⟨0, hreport.keepsTally, ?_⟩
    rw [hreport.keepsTally.realFraction_iff, hreport.supported]
    exact Int.natCast_nonneg _
  unfold judged
  split
  · unfold maybeLlmJudge
    split
    · exact hreal (hfloor.of_tally rfl rfl rfl rfl rfl rfl)
    · split
      · exact hreal (hfloor.of_tally rfl rfl rfl rfl rfl rfl)
      · split
        · apply hreal
          apply CountsLedger.stamp
          exact hfloor.of_tally rfl rfl rfl rfl rfl rfl
        · dsimp only
          split
          · exact hreal ((hfloor.stamp _).of_tally rfl rfl rfl rfl rfl rfl)
          · rename_i telem run _ _
            have hkeeps := judgedReport_keepsTally pass.reader pass.fns pass.finding
              ((hfloor.stamp telem).countCitationless pass.finding) telem run
            refine ⟨_, hkeeps, hkeeps.realFraction_iff.mpr ?_⟩
            exact Int.natCast_nonneg _
  · apply hreal
    exact (hfloor.bump "judge_unsampled" 1).of_tally rfl rfl rfl rfl rfl rfl

/-! ## The later folds -/

section

variable (pass : Pass)

def foldStep (report : FaithfulnessReport) (fold : Fold) : Option FaithfulnessReport :=
  some (perform pass.reader pass.fns report fold)

/-- An override call fails no more supported rows than the tally has, with
those it supports itself. -/
def Affordable (report : FaithfulnessReport) : Fold → Prop
  | .overrides list =>
    (newlyFailed pass.reader.toTextFns list report.claimVerdicts : ℤ) ≤
      report.supportedClaims + newlySupported pass.reader.toTextFns list report.claimVerdicts
  | .soft _ _ => True
  | .bump _ _ => True
  | .rescoreCitationBranch _ => True
  | .assemblyBranch _ => True

variable {pass}

variable {report : FaithfulnessReport}

theorem affordable_iff (hnonneg : 0 ≤ report.supportedClaims) (fold : Fold) :
    0 ≤ (perform pass.reader pass.fns report fold).supportedClaims ↔
      Affordable pass report fold := by
  cases fold with
  | overrides list =>
    have hsupported := applyClaimOverrides_supported pass.reader.toTextFns report list
    rw [sum_rowGain] at hsupported
    change 0 ≤ (applyClaimOverrides pass.reader.toTextFns report list).supportedClaims ↔ _
    simp only [Affordable]
    omega
  | soft span counter => exact iff_of_true hnonneg trivial
  | bump name n => exact iff_of_true hnonneg trivial
  | rescoreCitationBranch lifted => exact iff_of_true hnonneg trivial
  | assemblyBranch branch => exact iff_of_true hnonneg trivial

theorem performAll_eq_run (report : FaithfulnessReport) (folds : List Fold) :
    LabelledRun.run (foldStep pass) report folds =
      some (performAll pass.reader pass.fns report folds) := by
  induction folds generalizing report with
  | nil => rfl
  | cons fold rest ih => exact ih (perform pass.reader pass.fns report fold)

section

variable (hreport : RealFraction report)

include hreport

theorem RealFraction.of_tally {other : FaithfulnessReport}
    (hsupported : other.supportedClaims = report.supportedClaims)
    (hcheckable : other.checkableClaims = report.checkableClaims)
    (hdenominator : other.scoreDenominator = report.scoreDenominator)
    (hscore : other.faithfulnessScore = report.faithfulnessScore) : RealFraction other := by
  have hsame : denominatorOf other = denominatorOf report := by
    unfold denominatorOf
    rw [hdenominator, hcheckable]
  exact
    { nonneg := by rw [hsupported]; exact hreport.nonneg
      supported_le := by rw [hsupported, hsame]; exact hreport.supported_le
      denominator_le := by rw [hsame, hcheckable]; exact hreport.denominator_le
      score := by rw [hscore, hsupported, hsame]; exact hreport.score }

theorem RealFraction.regradeToArms : RealFraction (regradeToArms pass report) := by
  unfold Faithfulness.regradeToArms
  split
  · exact hreport
  · rename_i result _
    split
    · have hle : (armsBranch pass.fns result).supported ≤
          (armsBranch pass.fns result).checkable := Nat.sub_le _ _
      have hpos : 0 < (armsBranch pass.fns result).checkable :=
        Nat.lt_of_lt_of_le (by decide) (Nat.le_add_left 6 _)
      exact
        { nonneg := Int.natCast_nonneg _
          supported_le := Int.ofNat_le.mpr hle
          denominator_le := le_refl _
          score := by
            have hne : ((armsBranch pass.fns result).checkable : ℤ) ≠ 0 := by
              exact_mod_cast hpos.ne'
            change _ = fraction (armsBranch pass.fns result).supported
              (armsBranch pass.fns result).checkable
            rfl }
    · exact hreport

theorem RealFraction.bump (name : String) (n : ℕ) : RealFraction (report.bump name n) :=
  hreport.of_tally rfl rfl rfl rfl

theorem RealFraction.stampScoreState : RealFraction (stampScoreState pass report) := by
  unfold Faithfulness.stampScoreState
  generalize resolveScoreState report.checkableClaims pass.finding.body = state
  have hstamped : RealFraction
      { report with scoreState := state.1, scoreStateReason := state.2 } :=
    hreport.of_tally rfl rfl rfl rfl
  dsimp only
  split
  · exact hstamped.bump _ _
  · exact hstamped

theorem RealFraction.close :
    RealFraction (Faithfulness.stampScoreState pass (countCaveats pass
      (Faithfulness.regradeToArms pass report))) := by
  have hregraded : RealFraction (Faithfulness.regradeToArms pass report) := hreport.regradeToArms
  have hcaveats : RealFraction (countCaveats pass (Faithfulness.regradeToArms pass report)) :=
    (hregraded.bump _ _).bump _ _
  exact hcaveats.stampScoreState

end

/-- After every override and fold and in the report returned, the tally is a
fraction exactly when every override call is affordable. -/
theorem tally_real_iff (pass : Pass) :
    (LabelledRun.VisitsOnly (foldStep pass) RealFraction (judged pass) (laterFolds pass) ∧
        RealFraction (verifyFinding pass) ∧
        0 ≤ (verifyFinding pass).faithfulnessScore ∧
        (verifyFinding pass).faithfulnessScore ≤ 1) ↔
      LabelledRun.StepsSatisfy (foldStep pass)
        (fun report fold _ => Affordable pass report fold) (judged pass)
        (laterFolds pass) := by
  obtain ⟨uncounted, hkeeps, hreal⟩ := judged_keepsTally pass
  have hkeep : ∀ report fold next, KeepsTally uncounted report →
      foldStep pass report fold = some next → KeepsTally uncounted next := by
    intro report fold next hreport hstep
    cases hstep
    exact hreport.perform pass.reader pass.fns fold
  have hexact : ∀ report fold next, KeepsTally uncounted report →
      RealFraction report → foldStep pass report fold = some next →
      (RealFraction next ↔ Affordable pass report fold) := by
    intro report fold next hreport hfraction hstep
    cases hstep
    rw [(hreport.perform pass.reader pass.fns fold).realFraction_iff]
    exact affordable_iff hfraction.nonneg fold
  have hvisits :
      LabelledRun.VisitsOnly (foldStep pass) RealFraction (judged pass) (laterFolds pass) ↔
        LabelledRun.StepsSatisfy (foldStep pass)
          (fun report fold _ => Affordable pass report fold) (judged pass)
          (laterFolds pass) :=
    LabelledRun.visitsOnly_iff_stepsSatisfy hkeep hexact hkeeps hreal
  rw [← hvisits]
  constructor
  · exact And.left
  · intro hall
    have hfinal := hall.final (performAll_eq_run (judged pass) (laterFolds pass))
    exact ⟨hall, hfinal.close, hfinal.close.score_mem⟩

end

/-- The judge left a claim the floor supports without a verdict and did not
support the other one; the metadata override then fails the former. -/
theorem mismatch_makes_tally_negative : ¬∀ pass : Pass, RealFraction (verifyFinding pass) := by
  intro hall
  have hnonneg := (hall mismatchPass).nonneg
  exact absurd hnonneg (by decide +kernel)

end Legba.Faithfulness
