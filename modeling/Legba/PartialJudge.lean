import Legba.FaithfulnessFolds
import Mathlib.Algebra.Order.Field.Basic
import Mathlib.Algebra.Order.Field.Rat
import Mathlib.Tactic.Ring

/-!
# A partial pass beside the full one

Two judge passes over one finding give the same answers, but in the second one
a partition's reply is empty or leaves claims without a verdict.  An ungraded
claim leaves the numerator and the denominator, and the floor charges for it
only when it had a charged span of that text.  So the second score exceeds the
first when the lost claims did worse than the finding as a whole and the floor
exempts enough of them.
-/

namespace Legba.Faithfulness

open List

inductive Outage where
  | none
  | emptyReply (partition : Partition)
  | droppedVerdicts (partition : Partition) (kept : ℕ → Bool)

section

variable (reader : ClaimReader) (fns : JudgeFns) (body : String)

def partitionOf (claim : NumberedClaim) : Partition :=
  if isNullResultFinding reader body then .survey
  else if isAbsence reader claim then .absence
  else .citationSupport

def partitionClaims (partition : Partition) : List NumberedClaim :=
  (judgeableClaims reader body).filter fun claim =>
    decide (partitionOf reader body claim = partition)

def isLost (outage : Outage) (claim : NumberedClaim) : Bool :=
  match outage with
  | .none => false
  | .emptyReply partition => decide (partitionOf reader body claim = partition)
  | .droppedVerdicts partition kept =>
    decide (partitionOf reader body claim = partition) && !kept claim.2

def Outage.empties (partition : Partition) : Outage → Bool
  | .none => false
  | .emptyReply other => decide (other = partition)
  | .droppedVerdicts _ _ => false

def replySlots (assign : ℕ → Answer) (outage : Outage) (partition : Partition) : List Slot :=
  if outage.empties partition then []
  else
    (partitionClaims reader body partition).map fun claim =>
      if isLost reader body outage claim then none
      else some (assign claim.2)

structure Transport where
  statuses : Partition → List String
  replyDelta : Partition → ℤ

def answeringJudge (assign : ℕ → Answer) (transport : Transport)
    (outage : Outage) : Judge := fun partition =>
  { statuses := transport.statuses partition
    replyDelta := transport.replyDelta partition
    reply := some (replySlots reader body assign outage partition) }

def gradedClaims (outage : Outage) : List NumberedClaim :=
  (judgeableClaims reader body).filter fun claim => !isLost reader body outage claim

def gradedPairs (assign : ℕ → Answer) (outage : Outage)
    (claims : List NumberedClaim) : List (NumberedClaim × Answer) :=
  (claims.filter fun claim => !isLost reader body outage claim).map
    fun claim => (claim, assign claim.2)

def passVerdicts (assign : ℕ → Answer) (outage : Outage) : List GradedClaim :=
  (gradedClaims reader body outage).map fun claim => gradeAnswer fns claim.1 (assign claim.2)

/-! ## What the judge returns -/

variable {reader} {fns} {body}

theorem judgeableClaims_unique {first second : NumberedClaim}
    (hfirst : first ∈ judgeableClaims reader body) (hsecond : second ∈ judgeableClaims reader body)
    (hsame : first.2 = second.2) : first = second := by
  obtain ⟨other, position⟩ := second
  unfold judgeableClaims at hfirst hsecond
  rw [mk_mem_zipIdx_iff_getElem?] at hfirst hsecond
  simp only at hsame
  subst position
  rw [hfirst] at hsecond
  cases hsecond
  rfl

variable {outage : Outage} {claim : NumberedClaim} {assign : ℕ → Answer}
  {graded : List (NumberedClaim × Answer)} {part whole : ℤ}

theorem isLost_of_empties {partition : Partition} (hempties : outage.empties partition)
    (hclaim : claim ∈ partitionClaims reader body partition) : isLost reader body outage claim := by
  have hpartition : partitionOf reader body claim = partition := by
    simpa using (mem_filter.mp hclaim).2
  cases outage with
  | none => cases hempties
  | emptyReply other =>
    simp only [Outage.empties, decide_eq_true_eq] at hempties
    subst other
    simp [isLost, hpartition]
  | droppedVerdicts other kept => cases hempties

theorem gradedSlots_replySlots (assign : ℕ → Answer) (outage : Outage) (partition : Partition) :
    gradedSlots (partitionClaims reader body partition)
        (replySlots reader body assign outage partition) =
      gradedPairs reader body assign outage (partitionClaims reader body partition) := by
  unfold replySlots gradedSlots gradedPairs
  cases hempties : outage.empties partition with
  | true =>
    have hnone : (partitionClaims reader body partition).filter
        (fun claim => !isLost reader body outage claim) = [] := by
      rw [filter_eq_nil_iff]
      intro claim hclaim
      simp [isLost_of_empties hempties hclaim]
    simp [hnone]
  | false =>
    generalize partitionClaims reader body partition = claims
    induction claims with
    | nil => rfl
    | cons claim rest ih =>
      cases hlost : isLost reader body outage claim with
      | true => simpa [hlost] using ih
      | false => simpa [hlost] using ih

variable (reader body) in
theorem askPartition_answering (assign : ℕ → Answer) (transport : Transport)
    (outage : Outage) (partition : Partition) (telem : Telemetry) :
    ∃ next floored, askPartition
        (answeringJudge reader body assign transport outage) partition
        (partitionClaims reader body partition) telem =
      (next, some
        (gradedPairs reader body assign outage
          (partitionClaims reader body partition), floored)) := by
  unfold askPartition
  split
  · rename_i hnil
    exact ⟨telem, false, by rw [hnil]; rfl⟩
  · simp only [answeringJudge]
    rw [gradedSlots_replySlots]
    exact ⟨_, _, rfl⟩

section

variable
  (hgraded : ∀ entry, entry ∈ graded ↔ entry.1 ∈ gradedClaims reader body outage ∧ entry.2 = assign entry.1.2)

include hgraded

theorem find_graded (hclaim : claim ∈ judgeableClaims reader body) :
    (graded.find? fun entry => decide (entry.1.2 = claim.2)).map Prod.snd =
      if isLost reader body outage claim then none
      else some (assign claim.2) := by
  cases hfind : graded.find? fun entry => decide (entry.1.2 = claim.2) with
  | none =>
    cases hlost : isLost reader body outage claim with
    | true => rfl
    | false =>
      have hmem : (claim, assign claim.2) ∈ graded := by
        rw [hgraded]
        exact ⟨mem_filter.mpr ⟨hclaim, by simp [hlost]⟩, rfl⟩
      have hno := find?_eq_none.mp hfind _ hmem
      simp at hno
  | some entry =>
    obtain ⟨hentry, hanswer⟩ := (hgraded entry).mp (mem_of_find?_eq_some hfind)
    have hindex : entry.1.2 = claim.2 := by simpa using find?_some hfind
    obtain ⟨hjudgeable, hkept⟩ := mem_filter.mp hentry
    have hsame : entry.1 = claim := judgeableClaims_unique hjudgeable hclaim hindex
    rw [hsame] at hkept hanswer
    simp only [Bool.not_eq_true'] at hkept
    simp [hkept, hanswer]

theorem rezip_graded :
    rezip fns (judgeableClaims reader body) graded =
      passVerdicts reader fns body assign outage := by
  have hpoint : rezip fns (judgeableClaims reader body) graded =
      (judgeableClaims reader body).filterMap fun claim =>
        if isLost reader body outage claim then none
        else some (gradeAnswer fns claim.1 (assign claim.2)) := by
    apply filterMap_congr
    intro claim hclaim
    have hfind := find_graded hgraded hclaim
    have hmap := congrArg (Option.map (gradeAnswer fns claim.1)) hfind
    rw [Option.map_map] at hmap
    refine Eq.trans ?_ (hmap.trans ?_)
    · rfl
    · split <;> rfl
  rw [hpoint]
  unfold passVerdicts gradedClaims
  generalize judgeableClaims reader body = claims
  induction claims with
  | nil => rfl
  | cons claim rest ih =>
    cases hlost : isLost reader body outage claim with
    | true => simpa [hlost] using ih
    | false => simpa [hlost] using ih

end

theorem partitionClaims_of_survey (hsurvey : isNullResultFinding reader body) :
    partitionClaims reader body .survey = judgeableClaims reader body := by
  unfold partitionClaims partitionOf
  simp [hsurvey]

theorem partitionClaims_of_kinds (hkinds : isNullResultFinding reader body = false) :
    partitionClaims reader body .citationSupport =
        (judgeableClaims reader body).filter
          (fun claim => !isAbsence reader claim) ∧
      partitionClaims reader body .absence =
        (judgeableClaims reader body).filter (isAbsence reader) := by
  unfold partitionClaims partitionOf
  constructor
  · apply filter_congr
    intro claim _
    cases isAbsence reader claim <;> simp [hkinds]
  · apply filter_congr
    intro claim _
    cases isAbsence reader claim <;> simp [hkinds]

variable (reader body) in
theorem mem_gradedPairs (assign : ℕ → Answer) (outage : Outage) (entry : NumberedClaim × Answer) :
    entry ∈
        gradedPairs reader body assign outage
            ((judgeableClaims reader body).filter fun claim => !isAbsence reader claim) ++
          gradedPairs reader body assign outage
            ((judgeableClaims reader body).filter (isAbsence reader)) ↔
      entry.1 ∈ gradedClaims reader body outage ∧ entry.2 = assign entry.1.2 := by
  obtain ⟨claim, answer⟩ := entry
  have hpairs : ∀ claims : List NumberedClaim,
      (claim, answer) ∈ gradedPairs reader body assign outage claims ↔
        (claim ∈ claims ∧ isLost reader body outage claim = false) ∧ answer = assign claim.2 := by
    intro claims
    unfold gradedPairs
    rw [mem_map]
    constructor
    · rintro ⟨other, hother, hsame⟩
      cases hsame
      simpa using hother
    · rintro ⟨hclaim, rfl⟩
      exact ⟨claim, by simpa using hclaim, rfl⟩
  unfold gradedClaims
  rw [mem_append, hpairs, hpairs]
  simp only [mem_filter, Bool.not_eq_true']
  cases isAbsence reader claim <;> simp

variable (reader fns body) in
theorem runJudge_answering (assign : ℕ → Answer) (transport : Transport) (outage : Outage) :
    ∃ telem run, runJudge reader fns
        (answeringJudge reader body assign transport outage) body = (telem, some run) ∧
      run.verdicts = passVerdicts reader fns body assign outage := by
  unfold runJudge
  dsimp only
  split
  · rename_i hnil
    refine ⟨_, _, rfl, ?_⟩
    simp [passVerdicts, gradedClaims, hnil]
  · cases hroute : isNullResultFinding reader body with
    | true =>
      obtain ⟨telem, floored, hask⟩ := askPartition_answering
        reader body assign transport outage .survey {}
      rw [partitionClaims_of_survey hroute] at hask
      unfold runSurvey
      rw [hask]
      refine ⟨_, _, rfl, ?_⟩
      simp [passVerdicts, gradedClaims, gradedPairs]
    | false =>
      simp only [Bool.false_eq_true, if_false]
      obtain ⟨hshared, habsence⟩ := partitionClaims_of_kinds hroute
      obtain ⟨telem, sharedFloored, hask⟩ := askPartition_answering reader body
        assign transport outage .citationSupport {}
      obtain ⟨last, absenceFloored, hlast⟩ := askPartition_answering reader body
        assign transport outage .absence telem
      rw [hshared] at hask
      rw [habsence] at hlast
      unfold runPartitions
      rw [hask]
      dsimp only
      rw [hlast]
      dsimp only
      have hmem := mem_gradedPairs reader body assign outage
      have hrezip : _ = passVerdicts reader fns body assign outage := rezip_graded hmem
      split
      · rename_i hempty
        refine ⟨_, _, rfl, ?_⟩
        rw [← hrezip, hempty]
        simp [rezip]
      · exact ⟨_, _, rfl, hrezip⟩

section

variable (reader) (fns) (finding : Finding)

def passReport (assign : ℕ → Answer) (transport : Transport)
    (outage : Outage) (floor : FaithfulnessReport) : FaithfulnessReport :=
  maybeLlmJudge reader fns finding true
    (some (answeringJudge reader finding.body assign transport outage)) floor

def claimTexts (claims : List NumberedClaim) : List String :=
  claims.map fun claim => reader.strip claim.1

def supportedCount (assign : ℕ → Answer) (claims : List NumberedClaim) : ℕ :=
  claims.countP fun claim => isSupported (gradeAnswer fns claim.1 (assign claim.2))

def countedCount (assign : ℕ → Answer) (claims : List NumberedClaim) : ℕ :=
  claims.countP fun claim => !isNonproposition (gradeAnswer fns claim.1 (assign claim.2))

def chargedOutside (floor : FaithfulnessReport) (claims : List NumberedClaim) : ℕ :=
  floor.unsupportedSpans.countP fun span =>
    isCharged span && !decide (reader.strip span.text ∈ claimTexts reader claims)

def newlyCharged (floor : FaithfulnessReport) (claims graded : List NumberedClaim) : ℕ :=
  floor.unsupportedSpans.countP fun span =>
    isCharged span &&
      (decide (reader.strip span.text ∈ claimTexts reader claims) &&
        !decide (reader.strip span.text ∈ claimTexts reader graded))

variable {reader} {fns} {finding}

theorem judgedTexts_passVerdicts (assign : ℕ → Answer) (outage : Outage) :
    judgedTexts reader (passVerdicts reader fns body assign outage) =
      claimTexts reader (gradedClaims reader body outage) := by
  unfold judgedTexts passVerdicts claimTexts
  rw [map_map]
  rfl

theorem stamp_unsupportedSpans (telem : Telemetry) (report : FaithfulnessReport) :
    (telem.stamp report).unsupportedSpans = report.unsupportedSpans ∧
      (telem.stamp report).faithfulnessScore = report.faithfulnessScore := by
  unfold Telemetry.stamp
  split
  · exact ⟨rfl, rfl⟩
  · dsimp only
    split
    · exact ⟨rfl, rfl⟩
    · exact ⟨rfl, rfl⟩

theorem countCitationless_unsupportedSpans (report : FaithfulnessReport) :
    (countCitationless finding report).unsupportedSpans = report.unsupportedSpans := by
  rcases countCitationless_cases finding report with hsame | ⟨name, hbumped⟩
  · rw [hsame]
  · rw [hbumped]
    rfl

theorem countP_passVerdicts (p : GradedClaim → Bool) (assign : ℕ → Answer) (outage : Outage) :
    (passVerdicts reader fns body assign outage).countP p =
      (gradedClaims reader body outage).countP fun claim =>
        p (gradeAnswer fns claim.1 (assign claim.2)) := by
  unfold passVerdicts
  rw [countP_map]
  rfl

theorem residual_passVerdicts (assign : ℕ → Answer) (outage : Outage)
    (telem : Telemetry) (floor : FaithfulnessReport) :
    (residualFloorSpans reader
        (countCitationless finding (telem.stamp floor))
        (passVerdicts reader fns body assign outage)).length =
      chargedOutside reader floor (gradedClaims reader body outage) := by
  unfold residualFloorSpans chargedOutside isUnjudged
  rw [judgedTexts_passVerdicts, countCitationless_unsupportedSpans,
    (stamp_unsupportedSpans _ _).1, ← countP_eq_length_filter]

theorem passReport_score (assign : ℕ → Answer) (transport : Transport)
    (outage : Outage) (floor : FaithfulnessReport) :
    (passReport reader fns finding assign transport outage floor).faithfulnessScore =
      if gradedClaims reader finding.body outage = [] then
        floor.faithfulnessScore
      else
        fraction
          (supportedCount fns assign (gradedClaims reader finding.body outage))
          (countedCount fns assign (gradedClaims reader finding.body outage) +
            chargedOutside reader floor (gradedClaims reader finding.body outage)) := by
  obtain ⟨telem, run, hrun, hverdicts⟩ := runJudge_answering reader fns
    finding.body assign transport outage
  have hempty : run.verdicts = [] ↔ gradedClaims reader finding.body outage = [] := by
    rw [hverdicts]
    exact map_eq_nil_iff
  unfold passReport maybeLlmJudge
  simp only [Bool.not_true, Bool.false_eq_true, if_false, hrun, hempty]
  split
  · exact (stamp_unsupportedSpans telem floor).2
  · simp only [judgedReport]
    rw [hverdicts, ← countP_eq_length_filter, residual_passVerdicts,
      countP_passVerdicts, countP_passVerdicts]
    rfl

variable (reader body) in
theorem countP_graded_add_lost (p : NumberedClaim → Bool) (outage : Outage) :
    (gradedClaims reader body outage).countP p +
        ((judgeableClaims reader body).filter
          (isLost reader body outage)).countP p =
      (judgeableClaims reader body).countP p := by
  unfold gradedClaims
  generalize judgeableClaims reader body = claims
  induction claims with
  | nil => rfl
  | cons claim rest ih =>
    cases hlost : isLost reader body outage claim with
    | true =>
      rw [filter_cons_of_neg (by simp [hlost]), filter_cons_of_pos hlost,
        countP_cons, countP_cons, ← ih]
      omega
    | false =>
      rw [filter_cons_of_pos (by simp [hlost]), filter_cons_of_neg (by simp
        [hlost]), countP_cons, countP_cons, ← ih]
      omega

variable (reader body) in
theorem chargedOutside_graded (floor : FaithfulnessReport) (outage : Outage) :
    chargedOutside reader floor (gradedClaims reader body outage) =
      chargedOutside reader floor (judgeableClaims reader body) +
        newlyCharged reader floor (judgeableClaims reader body)
          (gradedClaims reader body outage) := by
  have hsubset : ∀ text,
      text ∈ claimTexts reader (gradedClaims reader body outage) →
      text ∈ claimTexts reader (judgeableClaims reader body) := by
    intro text htext
    obtain ⟨claim, hclaim, rfl⟩ := mem_map.mp htext
    exact mem_map_of_mem (mem_of_mem_filter hclaim)
  unfold chargedOutside newlyCharged
  induction floor.unsupportedSpans with
  | nil => rfl
  | cons span rest ih =>
    rw [countP_cons, countP_cons, countP_cons, ih]
    have hspan := hsubset (reader.strip span.text)
    by_cases hgraded : reader.strip span.text ∈ claimTexts reader (gradedClaims reader body outage)
    · simp [hgraded, hspan hgraded]
    · by_cases hall : reader.strip span.text ∈ claimTexts reader (judgeableClaims reader body)
      · simp only [hgraded, hall, decide_true, decide_false]
        simp
        omega
      · simp only [hgraded, hall, decide_false]
        simp
        omega

variable (fns) in
theorem supportedCount_le_countedCount (assign : ℕ → Answer) (claims : List NumberedClaim) :
    supportedCount fns assign claims ≤ countedCount fns assign claims := by
  apply countP_mono_left
  intro claim _ hsupported
  simp only [isSupported, decide_eq_true_eq] at hsupported
  simp [isNonproposition, hsupported]

end

/-! ## When the second score is no higher -/

theorem fraction_le_fraction_iff {share total : ℤ} (hpart : 0 ≤ part)
    (hwhole : part ≤ whole) (hshare : 0 ≤ share) (htotal : share ≤ total) :
    fraction part whole ≤ fraction share total ↔
      if whole = 0 then share = total else part * total ≤ share * whole := by
  unfold fraction
  by_cases hwholeZero : whole = 0
  · rw [if_pos hwholeZero, if_pos hwholeZero]
    by_cases htotalZero : total = 0
    · rw [if_pos htotalZero]
      exact iff_of_true (le_refl 1) (by omega)
    · have hpos : (0 : ℚ) < total := by exact_mod_cast (show 0 < total by omega)
      rw [if_neg htotalZero, one_le_div hpos]
      constructor
      · intro hle
        have hleInt : total ≤ share := by exact_mod_cast hle
        omega
      · rintro rfl
        exact le_refl _
  · rw [if_neg hwholeZero, if_neg hwholeZero]
    have hwholePos : (0 : ℚ) < whole := by exact_mod_cast (show 0 < whole by omega)
    by_cases htotalZero : total = 0
    · have hshareZero : share = 0 := by omega
      have hle : (part : ℚ) ≤ whole := by exact_mod_cast hwhole
      rw [if_pos htotalZero, div_le_one hwholePos, htotalZero, hshareZero]
      exact iff_of_true hle (by simp)
    · have htotalPos : (0 : ℚ) < total := by exact_mod_cast (show 0 < total by omega)
      rw [if_neg htotalZero, div_le_div_iff₀ hwholePos htotalPos]
      constructor
      · intro hle
        exact_mod_cast hle
      · intro hle
        exact_mod_cast hle

theorem le_fraction_iff {score : ℚ} (hwhole : 0 ≤ whole) :
    score ≤ fraction part whole ↔
      if whole = 0 then score ≤ 1 else score * whole ≤ part := by
  unfold fraction
  by_cases hzero : whole = 0
  · rw [if_pos hzero, if_pos hzero]
  · have hpos : (0 : ℚ) < whole := by exact_mod_cast (show 0 < whole by omega)
    rw [if_neg hzero, if_neg hzero, le_div_iff₀ hpos]

theorem mul_le_mul_of_leaving {lost leaving share total : ℤ}
    (hpart : part + lost = share) (hwhole : whole + leaving = total) :
    part * total ≤ share * whole ↔ share * leaving ≤ lost * total := by
  obtain rfl : part = share - lost := by omega
  obtain rfl : whole = total - leaving := by omega
  rw [sub_mul, mul_sub, sub_le_sub_iff_left]

section

variable (reader) (fns) (body)

def lostClaims (outage : Outage) : List NumberedClaim :=
  (judgeableClaims reader body).filter (isLost reader body outage)

/-- The pass with the outage does not gain by what it lost: the lost claims
held at least the share of the supported which their leave takes out of the
denominator.  When nothing is left to divide by, the full pass must have
supported everything; when no verdict is left, the floor decides. -/
def DoesNotGain (assign : ℕ → Answer) (outage : Outage) (floor : FaithfulnessReport) : Prop :=
  let claims := judgeableClaims reader body
  let lost := lostClaims reader body outage
  let graded := gradedClaims reader body outage
  let supported : ℤ := supportedCount fns assign claims
  let denominator : ℤ := countedCount fns assign claims + chargedOutside reader floor claims
  let leaving : ℤ := countedCount fns assign lost - newlyCharged reader floor claims graded
  if graded = [] then
    claims = [] ∨
      if denominator = 0 then floor.faithfulnessScore ≤ 1
      else floor.faithfulnessScore * denominator ≤ supported
  else if denominator - leaving = 0 then supported = denominator
  else supported * leaving ≤ supportedCount fns assign lost * denominator

theorem supportedCount_add_lost (assign : ℕ → Answer) (outage : Outage) :
    (supportedCount fns assign (gradedClaims reader body outage) : ℤ) +
        supportedCount fns assign (lostClaims reader body outage) =
      supportedCount fns assign (judgeableClaims reader body) := by
  have hcount := countP_graded_add_lost reader body (fun claim => isSupported
    (gradeAnswer fns claim.1 (assign claim.2))) outage
  exact_mod_cast hcount

theorem denominator_add_leaving (assign : ℕ → Answer) (outage : Outage)
    (floor : FaithfulnessReport) :
    (countedCount fns assign (gradedClaims reader body outage) +
          chargedOutside reader floor (gradedClaims reader body outage) : ℤ) +
        (countedCount fns assign (lostClaims reader body outage) -
          newlyCharged reader floor (judgeableClaims reader body)
            (gradedClaims reader body outage)) =
      countedCount fns assign (judgeableClaims reader body) +
        chargedOutside reader floor (judgeableClaims reader body) := by
  have hcounted := countP_graded_add_lost reader body
    (fun claim => !isNonproposition (gradeAnswer fns claim.1 (assign claim.2))) outage
  have hcharged := chargedOutside_graded reader body floor outage
  unfold countedCount lostClaims
  omega

end

theorem gradedClaims_none : gradedClaims reader body .none = judgeableClaims reader body := by
  unfold gradedClaims
  rw [filter_eq_self]
  exact fun _ _ => rfl

end

/-- A second pass with the same answers and an outage scores no higher than
the full one exactly when it does not gain by what it lost. -/
theorem partial_score_le_iff (reader : ClaimReader) (fns : JudgeFns)
    (finding : Finding) (assign : ℕ → Answer) (first second : Transport)
    (outage : Outage) (floor : FaithfulnessReport) :
    (passReport reader fns finding assign second outage floor).faithfulnessScore ≤
        (passReport reader fns finding assign first .none floor).faithfulnessScore ↔
      DoesNotGain reader fns finding.body assign outage floor := by
  rw [passReport_score, passReport_score, gradedClaims_none]
  unfold DoesNotGain
  by_cases hgraded : gradedClaims reader finding.body outage = []
  · rw [if_pos hgraded, if_pos hgraded]
    by_cases hclaims : judgeableClaims reader finding.body = []
    · rw [if_pos hclaims]
      exact iff_of_true (le_refl _) (.inl hclaims)
    · rw [if_neg hclaims, or_iff_right hclaims]
      exact le_fraction_iff (by omega)
  · have hclaims : judgeableClaims reader finding.body ≠ [] := by
      intro hnil
      apply hgraded
      unfold gradedClaims
      rw [hnil]
      rfl
    have hpart := supportedCount_le_countedCount fns assign
      (gradedClaims reader finding.body outage)
    have hshare := supportedCount_le_countedCount fns assign (judgeableClaims reader finding.body)
    have hsupported := supportedCount_add_lost reader fns finding.body assign outage
    have hleaving := denominator_add_leaving reader fns finding.body assign outage floor
    rw [if_neg hgraded, if_neg hgraded, if_neg hclaims, fraction_le_fraction_iff (Int.natCast_nonneg
      _) (by omega) (Int.natCast_nonneg _) (by omega), mul_le_mul_of_leaving hsupported hleaving, ←
      hleaving, add_sub_cancel_right]

def lawSentence : String :=
  "Iran's parliament approved a new inspection law [1]."

def troopSentence : String :=
  "No troop movements appear in the collected reporting."

def threeSentences : String :=
  enrichmentSentence ++ " " ++ lawSentence ++ " " ++ troopSentence

def threeSentenceReader : ClaimReader where
  strip := id
  segmentClaims := fun body =>
    if body = threeSentences then
      [enrichmentSentence, lawSentence, troopSentence]
    else []
  droppedClaims := fun _ => []
  isJsonSyntaxClaim := fun _ => false
  isFactAsserting := fun claim => decide (claim ≠ troopSentence)
  isJudgeableClaim := fun _ => true
  isHedgedAttributed := fun _ => false
  claimKind := fun claim =>
    if claim = troopSentence then .absence else .citationSupport
  readsAsSurvey := fun _ => false
  markersInClaim := fun subclaim claim =>
    if subclaim || decide (claim = troopSentence) then [] else [1]

def threeSentenceFinding : Finding where
  body := threeSentences
  citations := oneSignal

def troopsUnsupported (index : ℕ) : Answer :=
  if index = 2 then ⟨.unsupported, "", "claim_index"⟩
  else ⟨.supported, "", "claim_index"⟩

def plainTransport : Transport where
  statuses := fun _ => ["ok"]
  replyDelta := fun _ => 0

/-- The full pass fails the absence claim; the pass whose absence reply came
back empty has nothing against the finding. -/
theorem empty_absence_reply_gains :
    ¬∀ (reader : ClaimReader) (fns : JudgeFns) (finding : Finding)
        (assign : ℕ → Answer) (first second : Transport) (outage : Outage),
      (passReport reader fns finding assign second outage
          (foldedFloor reader finding)).faithfulnessScore ≤
        (passReport reader fns finding assign first .none
          (foldedFloor reader finding)).faithfulnessScore := by
  intro hall
  have hle := hall threeSentenceReader plainJudgeFns threeSentenceFinding
    troopsUnsupported plainTransport plainTransport (.emptyReply .absence)
  exact absurd hle (by decide +kernel)

end Legba.Faithfulness
