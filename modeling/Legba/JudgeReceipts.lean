import Legba.FaithfulnessFolds

/-!
# The receipts of the judge

What the judge pass stamps on a report should ride every later rebuild.  Two
of the rebuilds leave fields out of their list, so the number and the names of
the unchecked claims fall back to their defaults at the first override or soft
failure.  The scores of the branches are moved by two stages on purpose, and
everything else is carried.
-/

namespace Legba.Faithfulness

open List

structure Receipts where
  judgeStatus : JudgeStatus
  judgeUnavailableReason : Option String
  judgeAttempts : Option ℕ
  judgeHttpStatuses : List String
  judgePartial : Option ℕ
  judgePartialClaims : List ℕ
  judgeMiscountClaims : ℤ
  branchScores : List (String × BranchScore)
  confidenceCeiling : Option ℚ
  deriving DecidableEq

def receipts (report : FaithfulnessReport) : Receipts where
  judgeStatus := report.judgeStatus
  judgeUnavailableReason := report.judgeUnavailableReason
  judgeAttempts := report.judgeAttempts
  judgeHttpStatuses := report.judgeHttpStatuses
  judgePartial := report.judgePartial
  judgePartialClaims := report.judgePartialClaims
  judgeMiscountClaims := report.judgeMiscountClaims
  branchScores := report.branchScores
  confidenceCeiling := report.confidenceCeiling

def Fold.rebuilds : Fold → Bool
  | .overrides list => decide (list ≠ [])
  | .soft _ _ => true
  | .bump _ _ => false
  | .rescoreCitationBranch _ => false
  | .assemblyBranch _ => false

def Fold.movesBranches : Fold → Bool
  | .rescoreCitationBranch _ => true
  | .assemblyBranch _ => true
  | .overrides _ => false
  | .soft _ _ => false
  | .bump _ _ => false

def Receipts.forget (receipts : Receipts) : Receipts :=
  { receipts with judgePartial := none, judgePartialClaims := [] }

section

variable (reader : ClaimReader) (fns : JudgeFns)

def Fold.onBranches (scores : List (String × BranchScore)) : Fold → List (String × BranchScore)
  | .rescoreCitationBranch lifted => rescoredBranches reader fns scores lifted
  | .assemblyBranch branch => setBranch scores "assembly" branch
  | .overrides _ => scores
  | .soft _ _ => scores
  | .bump _ _ => scores

def branchesAfter (scores : List (String × BranchScore))
    (folds : List Fold) : List (String × BranchScore) :=
  folds.foldl (Fold.onBranches reader fns) scores

def Fold.lifted : Fold → List String
  | .rescoreCitationBranch lifted => lifted
  | .assemblyBranch _ => []
  | .overrides _ => []
  | .soft _ _ => []
  | .bump _ _ => []

def liftedClaims (folds : List Fold) : List String :=
  folds.flatMap Fold.lifted

variable {reader} {fns}

theorem receipts_applyClaimOverrides {overrides : List ClaimOverride}
    (hsome : overrides ≠ []) (report : FaithfulnessReport) (text : TextFns) :
    receipts (applyClaimOverrides text report overrides) = (receipts report).forget := by
  simp [applyClaimOverrides, hsome, receipts, Receipts.forget]

variable (reader fns) in
theorem receipts_perform (report : FaithfulnessReport) (fold : Fold) :
    receipts (perform reader fns report fold) =
      { (if fold.rebuilds then (receipts report).forget else receipts report)
        with branchScores :=
          fold.onBranches reader fns report.branchScores } := by
  cases fold with
  | overrides list =>
    by_cases hlist : list = []
    · subst list
      rfl
    · simp only [perform, Fold.rebuilds, hlist, ne_eq, not_false_eq_true,
        decide_true, if_true, Fold.onBranches]
      rw [receipts_applyClaimOverrides hlist]
      rfl
  | soft span counter => rfl
  | bump name n => rfl
  | rescoreCitationBranch lifted => rfl
  | assemblyBranch branch => rfl

theorem receipts_performAll (report : FaithfulnessReport) (folds : List Fold) :
    receipts (performAll reader fns report folds) =
      { (if folds.any Fold.rebuilds then (receipts report).forget
          else receipts report)
        with branchScores :=
          branchesAfter reader fns report.branchScores folds } := by
  induction folds generalizing report with
  | nil => rfl
  | cons fold rest ih =>
    have hstep := receipts_perform reader fns report fold
    have hbranches :
        (perform reader fns report fold).branchScores =
          fold.onBranches reader fns report.branchScores :=
      congrArg Receipts.branchScores hstep
    change receipts (performAll reader fns (perform reader fns report fold) rest) = _
    rw [ih, hstep, hbranches]
    cases hfold : fold.rebuilds with
    | true => cases hrest : rest.any Fold.rebuilds <;> simp [hfold, hrest,
        Receipts.forget, branchesAfter]
    | false => cases hrest : rest.any Fold.rebuilds <;> simp [hfold, hrest,
        Receipts.forget, branchesAfter]

theorem branchesAfter_append (scores : List (String × BranchScore)) (first second : List Fold) :
    branchesAfter reader fns scores (first ++ second) =
      branchesAfter reader fns (branchesAfter reader fns scores first) second :=
  foldl_append

theorem liftedClaims_append (first second : List Fold) :
    liftedClaims (first ++ second) = liftedClaims first ++ liftedClaims second := by
  simp [liftedClaims]

def BranchFree (folds : List Fold) : Prop :=
  ∀ fold ∈ folds, fold.movesBranches = false

theorem BranchFree.append {first second : List Fold} (hfirst : BranchFree first)
    (hsecond : BranchFree second) : BranchFree (first ++ second) := by
  intro fold hfold
  rcases mem_append.mp hfold with hfold | hfold
  · exact hfirst fold hfold
  · exact hsecond fold hfold

theorem BranchFree.bumpAll (counts : List Count) : BranchFree (bumpAll counts) := by
  intro fold hfold
  obtain ⟨count, _, rfl⟩ := mem_map.mp hfold
  rfl

theorem BranchFree.overrides (list : List ClaimOverride) : BranchFree [.overrides list] := by
  intro fold hfold
  rw [mem_singleton] at hfold
  subst fold
  rfl

theorem BranchFree.branchesAfter {folds : List Fold} (hfree : BranchFree folds)
    (scores : List (String × BranchScore)) : branchesAfter reader fns scores folds = scores := by
  induction folds with
  | nil => rfl
  | cons fold rest ih =>
    have hfold := hfree fold mem_cons_self
    have hrest : BranchFree rest := fun other hother => hfree other (mem_cons_of_mem fold hother)
    change Faithfulness.branchesAfter reader fns (fold.onBranches reader fns scores) rest = scores
    cases fold with
    | overrides list => exact ih hrest
    | soft span counter => exact ih hrest
    | bump name n => exact ih hrest
    | rescoreCitationBranch lifted => cases hfold
    | assemblyBranch branch => cases hfold

theorem BranchFree.liftedClaims {folds : List Fold}
    (hfree : BranchFree folds) : liftedClaims folds = [] := by
  unfold Faithfulness.liftedClaims
  rw [flatMap_eq_nil_iff]
  intro fold hfold
  have hmoves := hfree fold hfold
  cases fold with
  | overrides list => rfl
  | soft span counter => rfl
  | bump name n => rfl
  | rescoreCitationBranch lifted => cases hmoves
  | assemblyBranch branch => cases hmoves

theorem rescoredBranches_nil (scores : List (String × BranchScore)) :
    rescoredBranches reader fns scores [] = scores := by
  unfold rescoredBranches
  simp

variable (reader fns) in
theorem rescoredBranches_keys (scores : List (String × BranchScore)) (lifted : List String) :
    (rescoredBranches reader fns scores lifted).map Prod.fst = scores.map Prod.fst := by
  unfold rescoredBranches
  rw [map_map]
  apply map_congr_left
  intro entry _
  simp only [Function.comp_apply]
  split <;> rfl

theorem setBranch_new {scores : List (String × BranchScore)} {name : String}
    (hnew : name ∉ scores.map Prod.fst) (branch : BranchScore) :
    setBranch scores name branch = scores ++ [(name, branch)] := by
  unfold setBranch
  rw [if_neg]
  simpa using hnew

end

/-! ## The stages -/

section

variable (pass : Pass) (report : FaithfulnessReport)

theorem metadataFolds_branchFree : BranchFree (metadataFolds pass report) := by
  unfold metadataFolds
  split
  · exact fun _ hfold => absurd hfold not_mem_nil
  · exact (BranchFree.bumpAll _).append (.overrides _)

theorem markerlessFolds_branchFree : BranchFree (markerlessFolds pass report) := by
  unfold markerlessFolds
  split
  · exact fun _ hfold => absurd hfold not_mem_nil
  · exact .overrides _

theorem absenceFolds_branchFree : BranchFree (absenceFolds pass report) := by
  unfold absenceFolds
  split
  · exact fun _ hfold => absurd hfold not_mem_nil
  · dsimp only
    split
    · exact .bumpAll _
    · split
      · exact .bumpAll _
      · exact (BranchFree.bumpAll _).append (.overrides _)

theorem inputFolds_branchFree : BranchFree (inputFolds pass report) := by
  apply BranchFree.append
  · intro fold hfold
    split at hfold
    · rw [mem_singleton] at hfold
      subst fold
      rfl
    · obtain ⟨lead, _, rfl⟩ := mem_map.mp hfold
      rfl
  · intro fold hfold
    obtain ⟨pair, _, rfl⟩ := mem_map.mp hfold
    split <;> rfl

theorem compositionClaimFolds_branchFree (claim : String) :
    BranchFree (compositionClaimFolds pass claim) := by
  unfold compositionClaimFolds
  intro fold hfold
  split at hfold
  · cases hfold
  · simp only [mem_cons, not_mem_nil, or_false] at hfold
    rcases hfold with rfl | rfl <;> rfl
  · simp only [mem_cons, not_mem_nil, or_false] at hfold
    rcases hfold with rfl | rfl
    · rfl
    · split <;> rfl
  · rcases mem_cons.mp hfold with rfl | hfold
    · rfl
    · obtain ⟨detail, _, rfl⟩ := mem_map.mp hfold
      rfl

theorem compositionFolds_branchFree : BranchFree (compositionFolds pass report) := by
  unfold compositionFolds
  split
  · intro fold hfold
    obtain ⟨claim, _, hclaim⟩ := mem_flatMap.mp hfold
    exact compositionClaimFolds_branchFree pass claim fold hclaim
  · exact fun _ hfold => absurd hfold not_mem_nil

theorem weightingFolds_branches (scores : List (String × BranchScore)) :
    branchesAfter pass.reader pass.fns scores (weightingFolds pass report) =
      rescoredBranches pass.reader pass.fns scores (liftedClaims (weightingFolds pass report)) := by
  unfold weightingFolds
  split
  · dsimp only
    split
    · rw [append_nil, (BranchFree.bumpAll _).branchesAfter,
        (BranchFree.bumpAll _).liftedClaims, rescoredBranches_nil]
    · rw [branchesAfter_append, (BranchFree.bumpAll _).branchesAfter,
        liftedClaims_append, (BranchFree.bumpAll _).liftedClaims,
        ← singleton_append, append_assoc, branchesAfter_append,
        (BranchFree.overrides _).branchesAfter, liftedClaims_append,
        (BranchFree.overrides _).liftedClaims, branchesAfter_append,
        (BranchFree.bumpAll _).branchesAfter, liftedClaims_append,
        (BranchFree.bumpAll _).liftedClaims]
      simp [branchesAfter, Fold.onBranches, liftedClaims, Fold.lifted]
  · exact (rescoredBranches_nil scores).symm

theorem assemblyFolds_branches {result : ArmResult} (hresult : pass.checks.assembly = some result)
    (scores : List (String × BranchScore)) :
    branchesAfter pass.reader pass.fns scores (assemblyFolds pass report) =
        setBranch scores "assembly" (armsBranch pass.fns result) ∧
      liftedClaims (assemblyFolds pass report) = [] := by
  have hsoft : BranchFree (result.findings.map fun span =>
      Fold.soft { span with text := clip 2000 span.text } none) := by
    intro fold hfold
    obtain ⟨span, _, rfl⟩ := mem_map.mp hfold
    rfl
  simp only [assemblyFolds, hresult]
  constructor
  · rw [branchesAfter_append, branchesAfter_append,
      (BranchFree.bumpAll _).branchesAfter, hsoft.branchesAfter]
    rfl
  · rw [liftedClaims_append, liftedClaims_append,
      (BranchFree.bumpAll _).liftedClaims, hsoft.liftedClaims]
    rfl

theorem assemblyFolds_none (hnone : pass.checks.assembly = none) :
    assemblyFolds pass report = [] := by
  simp [assemblyFolds, hnone]

theorem stageFolds_skip {stage : FaithfulnessReport → List Fold}
    (hfree : ∀ report, BranchFree (stage report)) (rest : List (FaithfulnessReport → List Fold))
    (scores : List (String × BranchScore)) :
    let next := performAll pass.reader pass.fns report (stage report)
    branchesAfter pass.reader pass.fns scores (stageFolds pass report (stage :: rest)) =
        branchesAfter pass.reader pass.fns scores (stageFolds pass next rest) ∧
      liftedClaims (stageFolds pass report (stage :: rest)) =
        liftedClaims (stageFolds pass next rest) := by
  intro next
  have hcons : stageFolds pass report (stage :: rest) =
      stage report ++ stageFolds pass next rest := rfl
  rw [hcons, branchesAfter_append, (hfree report).branchesAfter,
    liftedClaims_append, (hfree report).liftedClaims, nil_append]
  exact ⟨rfl, rfl⟩

theorem tail_branches (scores : List (String × BranchScore)) :
    let tail := stageFolds pass report
      [absenceFolds pass, inputFolds pass, compositionFolds pass, assemblyFolds pass]
    liftedClaims tail = [] ∧
      branchesAfter pass.reader pass.fns scores tail =
        match pass.checks.assembly with
        | none => scores
        | some result =>
          setBranch scores "assembly" (armsBranch pass.fns result) := by
  intro tail
  obtain ⟨hscores₁, hlifted₁⟩ := stageFolds_skip pass report (absenceFolds_branchFree pass)
    [inputFolds pass, compositionFolds pass, assemblyFolds pass] scores
  obtain ⟨hscores₂, hlifted₂⟩ := stageFolds_skip pass (performAll pass.reader
    pass.fns report (absenceFolds pass report)) (inputFolds_branchFree pass)
    [compositionFolds pass, assemblyFolds pass] scores
  obtain ⟨hscores₃, hlifted₃⟩ := stageFolds_skip pass _
    (compositionFolds_branchFree pass) [assemblyFolds pass] scores
  rw [hscores₁, hlifted₁, hscores₂, hlifted₂, hscores₃, hlifted₃]
  simp only [stageFolds, append_nil]
  cases hassembly : pass.checks.assembly with
  | none =>
    rw [assemblyFolds_none pass _ hassembly]
    exact ⟨rfl, rfl⟩
  | some result =>
    obtain ⟨hbranches, hlifted⟩ := assemblyFolds_branches pass _ hassembly scores
    exact ⟨hlifted, hbranches⟩

theorem laterFolds_branches (scores : List (String × BranchScore)) :
    branchesAfter pass.reader pass.fns scores (laterFolds pass) =
      match pass.checks.assembly with
      | none => rescoredBranches pass.reader pass.fns scores (liftedClaims (laterFolds pass))
      | some result =>
        setBranch
          (rescoredBranches pass.reader pass.fns scores (liftedClaims (laterFolds pass)))
          "assembly" (armsBranch pass.fns result) := by
  unfold laterFolds stages
  obtain ⟨hscores₁, hlifted₁⟩ := stageFolds_skip pass (judged pass)
    (metadataFolds_branchFree pass)
    [markerlessFolds pass, weightingFolds pass, absenceFolds pass,
      inputFolds pass, compositionFolds pass, assemblyFolds pass] scores
  obtain ⟨hscores₂, hlifted₂⟩ := stageFolds_skip pass _
    (markerlessFolds_branchFree pass)
    [weightingFolds pass, absenceFolds pass, inputFolds pass,
      compositionFolds pass, assemblyFolds pass] scores
  rw [hscores₁, hlifted₁, hscores₂, hlifted₂]
  generalize performAll pass.reader pass.fns _ _ = current
  have hcons : stageFolds pass current
      [weightingFolds pass, absenceFolds pass, inputFolds pass,
        compositionFolds pass, assemblyFolds pass] =
      weightingFolds pass current ++
        stageFolds pass
          (performAll pass.reader pass.fns current (weightingFolds pass current))
          [absenceFolds pass, inputFolds pass, compositionFolds pass, assemblyFolds pass] := rfl
  obtain ⟨hlifted, hbranches⟩ := tail_branches pass
    (performAll pass.reader pass.fns current (weightingFolds pass current))
    (branchesAfter pass.reader pass.fns scores (weightingFolds pass current))
  rw [hcons, branchesAfter_append, hbranches, liftedClaims_append, hlifted,
    append_nil, weightingFolds_branches]

theorem foldedFloor_branchScores (reader : ClaimReader) (finding : Finding) :
    (foldedFloor reader finding).branchScores = [] := by
  have hguards : ∀ (groups : List (List UnsupportedSpan))
      (floor : FaithfulnessReport), floor.branchScores = [] →
      (groups.foldl foldGuardSpans floor).branchScores = [] := by
    intro groups
    induction groups with
    | nil => exact fun _ hfloor => hfloor
    | cons spans rest ih =>
      intro floor hfloor
      apply ih
      unfold foldGuardSpans
      split
      · exact hfloor
      · rfl
  apply hguards
  unfold foldIndicators
  dsimp only
  split
  · unfold countDropped deterministicFloor
    split <;> rfl
  · rfl

theorem stamp_branchScores (telem : Telemetry) :
    (telem.stamp report).branchScores = report.branchScores := by
  unfold Telemetry.stamp
  split
  · rfl
  · dsimp only
    split <;> rfl

theorem runJudge_branchScores {reader : ClaimReader} {fns : JudgeFns}
    {judge : Judge} {body : String} {telem : Telemetry} {run : JudgeRun}
    (hrun : runJudge reader fns judge body = (telem, some run)) :
    "assembly" ∉ run.branchScores.map Prod.fst := by
  have hkinds : ∀ verdicts : List GradedClaim,
      "assembly" ∉ (branchScoresOf reader fns verdicts).map Prod.fst := by
    intro verdicts hmem
    simp only [branchScoresOf, map_map, mem_map] at hmem
    obtain ⟨kind, _, hkind⟩ := hmem
    cases kind <;> simp [ClaimKind.label] at hkind
  unfold runJudge at hrun
  dsimp only at hrun
  split at hrun
  · cases hrun
    exact not_mem_nil
  · split at hrun
    · unfold runSurvey at hrun
      split at hrun
      · cases hrun
      · cases hrun
        exact not_mem_nil
    · unfold runPartitions at hrun
      split at hrun
      · cases hrun
      · split at hrun
        · cases hrun
        · dsimp only at hrun
          split at hrun
          · cases hrun
            exact not_mem_nil
          · cases hrun
            exact hkinds _

theorem judged_branchScores : "assembly" ∉ (judged pass).branchScores.map Prod.fst := by
  have hfloor := foldedFloor_branchScores pass.reader pass.finding
  unfold judged
  split
  · unfold maybeLlmJudge
    split
    · simp [hfloor]
    · split
      · simp [hfloor]
      · split
        · rw [stamp_branchScores]
          simp [hfloor]
        · rename_i hrun
          split
          · simp [stamp_branchScores, hfloor]
          · exact runJudge_branchScores hrun
  · simp [FaithfulnessReport.bump, hfloor]

end

theorem receipts_regradeToArms (pass : Pass) (report : FaithfulnessReport) :
    receipts (regradeToArms pass report) = receipts report := by
  unfold regradeToArms
  split
  · rfl
  · split <;> rfl

theorem receipts_stampScoreState (pass : Pass) (report : FaithfulnessReport) :
    receipts (stampScoreState pass report) = receipts report := by
  unfold stampScoreState
  dsimp only
  split <;> rfl

theorem receipts_verifyFinding (pass : Pass) :
    receipts (verifyFinding pass) =
      receipts (performAll pass.reader pass.fns (judged pass) (laterFolds pass)) := by
  unfold verifyFinding
  rw [receipts_stampScoreState]
  change receipts (regradeToArms pass _) = _
  rw [receipts_regradeToArms]

def HasNoGap (report : FaithfulnessReport) : Prop :=
  report.judgePartial = none ∧ report.judgePartialClaims = []

instance (report : FaithfulnessReport) : Decidable (HasNoGap report) :=
  inferInstanceAs (Decidable (_ ∧ _))

def BranchesKept (pass : Pass) : Prop :=
  pass.checks.assembly = none ∧
    rescoredBranches pass.reader pass.fns (judged pass).branchScores
        (liftedClaims (laterFolds pass)) =
      (judged pass).branchScores

theorem branchesKept_iff (pass : Pass) :
    branchesAfter pass.reader pass.fns (judged pass).branchScores
        (laterFolds pass) = (judged pass).branchScores ↔
      BranchesKept pass := by
  rw [laterFolds_branches]
  unfold BranchesKept
  cases hassembly : pass.checks.assembly with
  | none => simp
  | some result =>
    have hkeys := rescoredBranches_keys pass.reader pass.fns
      (judged pass).branchScores (liftedClaims (laterFolds pass))
    have hnew : "assembly" ∉ (rescoredBranches pass.reader pass.fns
        (judged pass).branchScores
        (liftedClaims (laterFolds pass))).map Prod.fst := by
      rw [hkeys]
      exact judged_branchScores pass
    simp only [reduceCtorEq, false_and, iff_false]
    rw [setBranch_new hnew]
    intro hsame
    have hlength := congrArg length hsame
    have hlengthKeys := congrArg length hkeys
    simp only [length_append, length_map, length_cons, length_nil] at hlength hlengthKeys
    omega

/-- The receipts the judge pass left are the receipts returned exactly when
no override and no soft failure rebuilt a report with an ungraded claim, and
the two stages which score branches of their own left those alone. -/
theorem receipts_survive_iff (pass : Pass) :
    receipts (verifyFinding pass) = receipts (judged pass) ↔
      ((laterFolds pass).any Fold.rebuilds = true → HasNoGap (judged pass)) ∧
        BranchesKept pass := by
  rw [receipts_verifyFinding, receipts_performAll, ← branchesKept_iff]
  cases hrebuilds : (laterFolds pass).any Fold.rebuilds with
  | true =>
    constructor
    · intro hsame
      have hungraded := congrArg Receipts.judgePartial hsame
      have hclaims := congrArg Receipts.judgePartialClaims hsame
      have hbranches := congrArg Receipts.branchScores hsame
      exact ⟨fun _ => ⟨hungraded.symm, hclaims.symm⟩, hbranches⟩
    · rintro ⟨hgap, hbranches⟩
      obtain ⟨hungraded, hclaims⟩ := hgap rfl
      rw [hbranches]
      simp [receipts, Receipts.forget, hungraded, hclaims]
  | false =>
    constructor
    · intro hsame
      have hbranches := congrArg Receipts.branchScores hsame
      exact ⟨fun h => absurd h Bool.false_ne_true, hbranches⟩
    · rintro ⟨_, hbranches⟩
      rw [hbranches]
      rfl

/-- One claim was left ungraded; the metadata override then forgets it. -/
theorem unchecked_claim_forgotten :
    ¬∀ pass : Pass, (judged pass).judgeAttempts ≠ none →
      pass.checks.assembly = none → pass.checks.weightingApplies = false →
      receipts (verifyFinding pass) = receipts (judged pass) := by
  intro hall
  have hsame := hall mismatchPass (by decide +kernel) rfl rfl
  have hungraded := congrArg Receipts.judgePartial hsame
  exact absurd hungraded (by decide +kernel)

end Legba.Faithfulness
