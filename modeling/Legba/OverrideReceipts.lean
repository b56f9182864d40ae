import Legba.OverrideLedger

/-!
# The receipts of the overrides

An override bumps its own counter, and the walk bumps a second one when it
erases the reason of a row.  The note over the overrides states that the first
counter of a reason is its surviving rows and its second counter together.
One call keeps that equation exactly when as many overrides name the reason as
their counter as rows receive it.
-/

namespace Legba.Faithfulness

section

variable (text : TextFns)

def rowsWith (reason : String) (rows : List ClaimVerdict) : ℕ :=
  rows.countP fun row => decide (row.reason = some reason)

def ReceiptsClose (reason : String) (report : FaithfulnessReport) : Prop :=
  report.counters reason =
    rowsWith reason report.claimVerdicts + report.counters (erasedCounter reason)

instance (reason : String) (report : FaithfulnessReport) :
    Decidable (ReceiptsClose reason report) :=
  inferInstanceAs (Decidable (_ = _))

def receives (overrides : List ClaimOverride) (reason : String) (row : ClaimVerdict) : Bool :=
  match replacing? text overrides row with
  | none => false
  | some ov =>
    !ov.supported && decide (ov.reason = some reason) && !decide (row.reason = some reason)

def losesUnseen (overrides : List ClaimOverride) (reason : String) (row : ClaimVerdict) : Bool :=
  match replacing? text overrides row with
  | none => false
  | some ov =>
    decide (reason = "") && decide (row.reason = some reason) &&
      (ov.supported || !decide (ov.reason = some reason))

def attempts (overrides : List ClaimOverride) (name : String) : ℕ :=
  overrides.countP fun ov => decide (ov.counter = name)

/-- The attempts of a reason are the rows which receive it, in place or as new
rows.  The other terms are for counters which are named like receipts and for
the empty reason. -/
def AttemptsLand (reason : String) (report : FaithfulnessReport)
    (overrides : List ClaimOverride) : Prop :=
  attempts overrides reason +
      report.claimVerdicts.countP (erasedInto text overrides reason) +
      report.claimVerdicts.countP (losesUnseen text overrides reason) =
    report.claimVerdicts.countP (receives text overrides reason) +
      (appendedFailures text report overrides).countP
        (fun ov => decide (ov.reason = some reason)) +
      attempts overrides (erasedCounter reason)

def overrideStep (report : FaithfulnessReport)
    (overrides : List ClaimOverride) : Option FaithfulnessReport :=
  some (applyClaimOverrides text report overrides)

variable {text}

theorem erasedCounter_inj {first second : String} :
    erasedCounter first = erasedCounter second ↔ first = second :=
  String.append_right_inj _

theorem overriddenRow_reason (ov : ClaimOverride) (row : ClaimVerdict) :
    (overriddenRow ov row).reason =
      if ov.supported then none else ov.reason := by
  unfold overriddenRow
  split <;> rfl

variable (text) in
theorem visitedRow_reason_balance (overrides : List ClaimOverride)
    (reason : String) (row : ClaimVerdict) :
    ((if (visitedRow text overrides row).reason = some reason then 1 else 0) +
        (if erasedInto text overrides (erasedCounter reason) row
          then 1 else 0) +
        if losesUnseen text overrides reason row then 1 else 0) =
      (if row.reason = some reason then 1 else 0) +
        if receives text overrides reason row then 1 else 0 := by
  cases hov : replacing? text overrides row with
  | none =>
    rw [(visitedRow_kept hov).2]
    simp [erasedInto, losesUnseen, receives, hov]
  | some ov =>
    rw [visitedRow_of_replacing hov, overriddenRow_reason]
    simp only [erasedInto, losesUnseen, receives, hov]
    cases hreason : row.reason with
    | none =>
      cases ov.supported with
      | true => simp
      | false => simp
    | some old =>
      by_cases hold : old = reason
      · subst old
        by_cases hempty : reason = ""
        · subst hempty
          by_cases hnew : ov.reason = some ""
          · cases hsupported : ov.supported with
            | true => simp [erases]
            | false => simp [erases, hnew]
          · simp [erases, hnew]
        · cases hsupported : ov.supported with
          | true => simp [erases, hempty, hsupported]
          | false =>
            by_cases hnew : ov.reason = some reason
            · simp [erases, hempty, hnew, hsupported]
            · simp [erases, hempty, hnew]
      · have hcounter : erasedCounter old ≠ erasedCounter reason :=
          fun h => hold (erasedCounter_inj.mp h)
        cases ov.supported with
        | true => simp [hcounter, hold]
        | false =>
          by_cases hnew : ov.reason = some reason
          · simp [hcounter, hold, hnew]
          · simp [hcounter, hold, hnew]

variable (text) in
theorem rowsWith_map_visitedRow (overrides : List ClaimOverride)
    (reason : String) (rows : List ClaimVerdict) :
    rowsWith reason (rows.map (visitedRow text overrides)) +
        rows.countP (erasedInto text overrides (erasedCounter reason)) +
        rows.countP (losesUnseen text overrides reason) =
      rowsWith reason rows + rows.countP (receives text overrides reason) := by
  induction rows with
  | nil => rfl
  | cons row rest ih =>
    have hrow := visitedRow_reason_balance text overrides reason row
    unfold rowsWith at ih ⊢
    simp only [List.map_cons, List.countP_cons, decide_eq_true_eq] at ih ⊢
    omega

theorem rowsWith_map_ungradedRow (reason : String) (failures : List ClaimOverride) :
    rowsWith reason (failures.map ungradedRow) =
      failures.countP fun ov => decide (ov.reason = some reason) := by
  unfold rowsWith
  rw [List.countP_map]
  rfl

theorem rowsWith_append (reason : String) (first second : List ClaimVerdict) :
    rowsWith reason (first ++ second) = rowsWith reason first + rowsWith reason second :=
  List.countP_append

theorem receiptsClose_apply_iff {reason : String} {report : FaithfulnessReport}
    (hclose : ReceiptsClose reason report) (overrides : List ClaimOverride) :
    ReceiptsClose reason (applyClaimOverrides text report overrides) ↔
      AttemptsLand text reason report overrides := by
  have hrows := rowsWith_map_visitedRow text overrides reason report.claimVerdicts
  unfold ReceiptsClose at hclose ⊢
  rw [applyClaimOverrides_counters, applyClaimOverrides_counters,
    applyClaimOverrides_claimVerdicts, rowsWith_append, rowsWith_map_ungradedRow]
  unfold AttemptsLand attempts
  omega

end

open LabelledRun

/-- Over any calls, the counter of a reason is its surviving rows and its erase
receipts together exactly when it is so at the start and the attempts of every
call land. -/
theorem receipts_close_iff (text : TextFns) (reason : String)
    (start : FaithfulnessReport) (calls : List (List ClaimOverride)) :
    VisitsOnly (overrideStep text) (ReceiptsClose reason) start calls ↔
      ReceiptsClose reason start ∧
        StepsSatisfy (overrideStep text)
          (fun report overrides _ =>
            AttemptsLand text reason report overrides) start calls := by
  have hexact : ∀ report overrides next, True → ReceiptsClose reason report →
      overrideStep text report overrides = some next →
      (ReceiptsClose reason next ↔ AttemptsLand text reason report overrides) := by
    intro report overrides next _ hclose hstep
    cases hstep
    exact receiptsClose_apply_iff hclose overrides
  have hkeep : ∀ report overrides next, True →
      overrideStep text report overrides = some next → True :=
    fun _ _ _ _ _ => trivial
  constructor
  · intro hvisits
    have hstart := hvisits.start
    exact ⟨hstart, (visitsOnly_iff_stepsSatisfy hkeep hexact trivial hstart).mp hvisits⟩
  · rintro ⟨hstart, hland⟩
    exact (visitsOnly_iff_stepsSatisfy hkeep hexact trivial hstart).mpr hland

def confidenceClaim : String := "Effective confidence is 0.68 [1]."

def repeatedClaim : FaithfulnessReport where
  faithfulnessScore := 1
  checkableClaims := 2
  supportedClaims := 2
  claimVerdicts :=
    [ClaimVerdict.ofSupported confidenceClaim [.inl 1],
      ClaimVerdict.ofSupported confidenceClaim [.inl 1]]

def mismatchOverride : ClaimOverride where
  text := confidenceClaim
  supported := false
  counter := "metadata_mismatch"
  reason := some "metadata_mismatch"

/-- The override is one attempt and leaves two rows. -/
theorem repeated_claim_opens_receipts :
    ¬∀ (text : TextFns) (reason : String) (start final : FaithfulnessReport)
        (calls : List (List ClaimOverride)),
      (∀ name, start.counters name = 0) →
      rowsWith reason start.claimVerdicts = 0 →
      run (overrideStep text) start calls = some final →
      ReceiptsClose reason final := by
  intro hall
  have hclose := hall ⟨id⟩ "metadata_mismatch" repeatedClaim
    (applyClaimOverrides ⟨id⟩ repeatedClaim [mismatchOverride])
    [[mismatchOverride]] (fun _ => rfl) rfl rfl
  exact absurd hclose (by decide)

end Legba.Faithfulness
