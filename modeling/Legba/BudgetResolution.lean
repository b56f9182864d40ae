import Legba.BudgetEnforcer

/-!
# The resolution order of a check

A check consults the global envelope of the day and the budget of the analyst.
The order in which they are resolved is stated here over both caps, each of
which may be absent, and the checks which follow it are described exactly: an
analyst without a budget passes before the projection over the global cap is
made.
-/

namespace Legba.Budget

open KeyedTable
open RowOrder (firstBy IsStrictOrder isStrictOrder_greater)

structure IsLatestRow (envelope : Envelope) (bucket latest : Bucket)
    (row : EnvelopeRow) : Prop where
  before : latest < bucket
  isRow : envelope.row? latest = some row
  last : ∀ day < bucket, (envelope.row? day).isSome → day ≤ latest

def IsCapOfDay (envelope : Envelope) (bucket : Bucket) (cap : Option ℤ) :
    Prop :=
  match envelope.row? bucket with
  | some row => cap = row.tokensCap
  | none =>
    (∃ latest row, IsLatestRow envelope bucket latest row ∧ cap = row.tokensCap) ∨
      (∀ day < bucket, envelope.row? day = none) ∧ cap = none

variable {bucket : Bucket} {cap globalCap : Option ℤ}
  {enforcer : BudgetEnforcer} {estimatedTokens : ℤ}

theorem IsLatestRow.unique {envelope : Envelope} {latest other : Bucket}
    {row otherRow : EnvelopeRow} (hlatest : IsLatestRow envelope bucket latest row)
    (hother : IsLatestRow envelope bucket other otherRow) : row = otherRow := by
  have hle : latest ≤ other := hother.last latest hlatest.before (by simp [hlatest.isRow])
  have hge : other ≤ latest := hlatest.last other hother.before (by simp [hother.isRow])
  have hrow := hlatest.isRow
  rw [le_antisymm hle hge, hother.isRow] at hrow
  exact (Option.some.inj hrow).symm

theorem Envelope.previous_cases (envelope : Envelope) (bucket : Bucket) :
    (∃ latest row, envelope.previous bucket = some row ∧ IsLatestRow envelope bucket latest row) ∨
      envelope.previous bucket = none ∧ ∀ day < bucket, envelope.row? day = none := by
  have hearlier : ∀ day, day ∈ envelope.keys.filter (· < bucket) ↔
      (envelope.row? day).isSome ∧ day < bucket := by
    intro day
    rw [List.mem_filter, envelope.mem_keys, decide_eq_true_eq]
  unfold Envelope.previous
  cases hfirst : firstBy (fun a b => decide (b < a)) (envelope.keys.filter (· < bucket)) with
  | none =>
    rw [RowOrder.firstBy_eq_none] at hfirst
    refine .inr ⟨rfl, fun day hday => ?_⟩
    by_contra hrow
    have hmem := (hearlier day).mpr ⟨Option.isSome_iff_ne_none.mpr hrow, hday⟩
    rw [hfirst] at hmem
    exact List.not_mem_nil hmem
  | some latest =>
    obtain ⟨hsome, hbefore⟩ := (hearlier latest).mp (RowOrder.firstBy_mem hfirst)
    obtain ⟨row, hrow⟩ := Option.isSome_iff_exists.mp hsome
    refine .inl ⟨latest, row, hrow, hbefore, hrow, ?_⟩
    intro day hday hdayRow
    have hnot := (isStrictOrder_greater (fun day : Bucket => day)).not_before
      hfirst ((hearlier day).mpr ⟨hdayRow, hday⟩)
    exact not_lt.mp (of_decide_eq_false hnot)

theorem isCapOfDay_iff {envelope : Envelope} :
    IsCapOfDay envelope bucket cap ↔ cap = envelope.tokensCap bucket := by
  unfold IsCapOfDay Envelope.tokensCap Envelope.resolve
  cases htoday : envelope.row? bucket with
  | some row => exact Iff.rfl
  | none =>
    rcases envelope.previous_cases bucket with
      ⟨latest, row, hprevious, hlatest⟩ | ⟨hprevious, hnone⟩
    · have hcap : (if row.tokensCap.isSome then
          (envelope.put bucket row, some row)
        else (envelope, none)).2.bind EnvelopeRow.tokensCap = row.tokensCap := by
        cases hset : row.tokensCap with
        | none => rfl
        | some amount => exact hset
      simp only [hprevious, hcap]
      constructor
      · rintro (⟨other, otherRow, hother, rfl⟩ | ⟨hnone, -⟩)
        · rw [hlatest.unique hother]
        · have hrow := hlatest.isRow
          rw [hnone latest hlatest.before] at hrow
          cases hrow
      · intro hcap
        exact .inl ⟨latest, row, hlatest, hcap⟩
    · simp only [hprevious, Option.bind_none]
      constructor
      · rintro (⟨latest, row, hlatest, -⟩ | ⟨-, hcap⟩)
        · have hrow := hlatest.isRow
          rw [hnone latest hlatest.before] at hrow
          cases hrow
        · exact hcap
      · intro hcap
        exact .inr ⟨hnone, hcap⟩

/-! ## The order -/

def Reached (cap : Option ℤ) (tokens : ℤ) : Prop :=
  ∃ amount ∈ cap, amount ≤ tokens

def Exceeded (cap : Option ℤ) (tokens : ℤ) : Prop :=
  ∃ amount ∈ cap, amount < tokens

instance (cap : Option ℤ) (tokens : ℤ) : Decidable (Reached cap tokens) :=
  decidable_of_iff (cap.any (· ≤ tokens) = true) (by cases cap <;> simp [Reached])

instance (cap : Option ℤ) (tokens : ℤ) : Decidable (Exceeded cap tokens) :=
  decidable_of_iff (cap.any (· < tokens) = true) (by cases cap <;> simp [Exceeded])

/-- The documented order: the global envelope, the budget of the analyst, and
then the projection over either. -/
def resolutionOrder (globalCap budget : Option ℤ)
    (globalUsed used estimatedTokens : ℤ) : BudgetOutcome :=
  if Reached globalCap globalUsed then .globalExhausted
  else if Reached budget used then .exhausted
  else if Exceeded globalCap (globalUsed + estimatedTokens) ∨
      Exceeded budget (used + estimatedTokens) then .throttle
  else .ok

def BudgetEnforcer.budget (enforcer : BudgetEnforcer) : Option ℤ :=
  enforcer.budgetTokensPerDay.filter (· ≠ 0)

def dayUsed (ledger : Ledger) (bucket : Bucket) : ℤ :=
  tokensUsed ledger fun key => decide (key.bucket = bucket)

def BudgetEnforcer.used (enforcer : BudgetEnforcer) (ledger : Ledger) (bucket : Bucket) : ℤ :=
  tokensUsed ledger fun key => decide (key = enforcer.key bucket)

/-- The check passes at the early return, over a projection it has not made:
there is no budget, and the estimate goes over the global cap. -/
def PassesUnprojected (globalCap budget : Option ℤ) (globalUsed estimatedTokens : ℤ) : Prop :=
  budget = none ∧ ¬Reached globalCap globalUsed ∧ Exceeded globalCap (globalUsed + estimatedTokens)

theorem filter_reached {tokens : ℤ} : cap.filter (· ≤ tokens) = none ↔ ¬Reached cap tokens := by
  cases cap <;> simp [Reached]

theorem filter_exceeded {tokens : ℤ} : cap.filter (· < tokens) = none ↔ ¬Exceeded cap tokens := by
  cases cap <;> simp [Exceeded]

theorem perAnalystCheck_resolves (enforcer : BudgetEnforcer) (used estimatedTokens : ℤ)
    (globalCap : Option ℤ) (globalUsed : ℤ) {budget : ℤ} (hglobal : ¬Reached globalCap globalUsed) :
    (perAnalystCheck enforcer used estimatedTokens globalCap globalUsed budget).outcome =
      resolutionOrder globalCap (some budget) globalUsed used
        estimatedTokens := by
  have hused : Reached (some budget) used ↔ budget ≤ used := by simp [Reached]
  have hover : Exceeded (some budget) (used + estimatedTokens) ↔
      budget < used + estimatedTokens := by
    simp [Exceeded]
  unfold perAnalystCheck resolutionOrder
  simp only [if_neg hglobal, hused, hover]
  by_cases hexhausted : budget ≤ used
  · simp [if_pos hexhausted]
  · simp only [if_neg hexhausted]
    cases hprojected : globalCap.filter (· < globalUsed + estimatedTokens) with
    | some cap =>
      have hexceeded : Exceeded globalCap (globalUsed + estimatedTokens) := by
        by_contra hwithin
        rw [filter_exceeded.mpr hwithin] at hprojected
        cases hprojected
      rw [if_pos (Or.inl hexceeded)]
    | none =>
      have hwithin := filter_exceeded.mp hprojected
      simp only [hwithin, false_or]
      by_cases hbudget : budget < used + estimatedTokens
      · rw [if_pos hbudget, if_pos hbudget]
      · rw [if_neg hbudget, if_neg hbudget]

theorem precallDecision_of_reached {ledger : Ledger}
    (hreached : Reached globalCap (dayUsed ledger bucket)) :
    (precallDecision ledger globalCap enforcer estimatedTokens
        bucket).outcome = .globalExhausted := by
  unfold precallDecision
  cases hcap : globalCap.filter (· ≤ tokensUsed ledger fun key => decide (key.bucket = bucket)) with
  | some cap => simp [hcap]
  | none => exact absurd hreached (filter_reached.mp hcap)

theorem precallDecision_of_not_reached {ledger : Ledger}
    (hopen : ¬Reached globalCap (dayUsed ledger bucket)) :
    (precallDecision ledger globalCap enforcer estimatedTokens bucket).outcome =
      match enforcer.budget with
      | none => .ok
      | some _ =>
        resolutionOrder globalCap enforcer.budget (dayUsed ledger bucket)
          (enforcer.used ledger bucket) estimatedTokens := by
  have hcap := filter_reached.mpr hopen
  unfold dayUsed at hcap
  unfold precallDecision
  simp only [hcap]
  cases hbudget : enforcer.budget with
  | none =>
    unfold BudgetEnforcer.budget at hbudget
    rw [hbudget]
  | some budget =>
    unfold BudgetEnforcer.budget at hbudget
    rw [hbudget]
    exact perAnalystCheck_resolves enforcer _ estimatedTokens globalCap _ hopen

/-- A check follows the documented order unless the analyst has no budget and
the estimate alone takes the day over the global cap. -/
theorem precallCheck_follows_order_iff (state : State)
    (enforcer : BudgetEnforcer) (estimatedTokens : ℤ) (bucket : Bucket)
    {cap : Option ℤ} (hcap : IsCapOfDay state.envelope bucket cap) :
    (state.precallCheck enforcer estimatedTokens bucket).2.outcome =
        resolutionOrder cap enforcer.budget (dayUsed state.ledger bucket)
          (enforcer.used state.ledger bucket) estimatedTokens ↔
      ¬PassesUnprojected cap enforcer.budget (dayUsed state.ledger bucket)
        estimatedTokens := by
  have hday := isCapOfDay_iff.mp hcap
  unfold State.precallCheck
  simp only [← hday]
  by_cases hreached : Reached cap (dayUsed state.ledger bucket)
  · simp [precallDecision_of_reached hreached, resolutionOrder, PassesUnprojected, hreached]
  · rw [precallDecision_of_not_reached hreached]
    cases hbudget : enforcer.budget with
    | some budget => simp [PassesUnprojected]
    | none =>
      have hused : ∀ tokens, ¬Reached none tokens := by simp [Reached]
      have hover : ∀ tokens, ¬Exceeded none tokens := by simp [Exceeded]
      by_cases hexceeded : Exceeded cap (dayUsed state.ledger bucket + estimatedTokens)
      · simp [resolutionOrder, PassesUnprojected, hreached, hexceeded, hused]
      · simp [resolutionOrder, PassesUnprojected, hreached, hexceeded, hused, hover]

def nearTheCap : State where
  ledger := Table.empty.put ⟨"a", .descriptor "v", 1⟩ ⟨90, 1⟩
  envelope := Table.empty.put 0 ⟨some 100, none, "demote"⟩
  enforcers := []
  commits := []

theorem isCapOfDay_nearTheCap : IsCapOfDay nearTheCap.envelope 1 (some 100) :=
  isCapOfDay_iff.mpr rfl

theorem precallCheck_follows_order_iff_budgeted :
    IsCapOfDay nearTheCap.envelope 1 (some 100) ∧
      (nearTheCap.precallCheck ⟨"a", "v", some 500⟩ 20 1).2.outcome =
        resolutionOrder (some 100) (some 500) 90 90 20 :=
  ⟨isCapOfDay_nearTheCap,
    (precallCheck_follows_order_iff nearTheCap ⟨"a", "v", some 500⟩ 20 1
      isCapOfDay_nearTheCap).mpr fun hpasses => nomatch hpasses.1⟩

/-- The estimate goes over the global cap, and the check says `ok`. -/
theorem precallCheck_passes_over_cap :
    ¬∀ (state : State) (enforcer : BudgetEnforcer) (estimatedTokens : ℤ)
      (bucket : Bucket) (cap : Option ℤ), 0 ≤ estimatedTokens →
        IsCapOfDay state.envelope bucket cap →
        (state.precallCheck enforcer estimatedTokens bucket).2.outcome =
          resolutionOrder cap enforcer.budget (dayUsed state.ledger bucket)
            (enforcer.used state.ledger bucket) estimatedTokens := by
  intro hfollows
  have hthrottle := hfollows nearTheCap ⟨"a", "v", none⟩ 20 1 (some 100)
    (by decide) isCapOfDay_nearTheCap
  revert hthrottle
  decide

end Legba.Budget
