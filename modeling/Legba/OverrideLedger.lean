import Legba.FaithfulnessReport

/-!
# What an override leaves of a ledger

The walk of an override call goes over the ledger once, row by row, and reads
the overrides only through the last one of each text.  So its ledger is a map
of the old rows, its numerator and its counters are sums over them, and the
keys it has applied are the texts of the replaced rows.
-/

namespace Legba.Faithfulness

open List

section

variable (text : TextFns)

def visitedRow (overrides : List ClaimOverride) (row : ClaimVerdict) :
    ClaimVerdict :=
  match byText text overrides (text.strip row.text) with
  | none => row
  | some ov =>
    if ov.annotateOnly then annotatedRow ov row else overriddenRow ov row

def rowGain (overrides : List ClaimOverride) (row : ClaimVerdict) : ℤ :=
  match replacing? text overrides row with
  | none => 0
  | some ov => overrideGain ov row

/-- The walk bumps the counter `name` for an erased reason of the row. -/
def erasedInto (overrides : List ClaimOverride) (name : String) (row : ClaimVerdict) : Bool :=
  match replacing? text overrides row, row.reason with
  | some ov, some reason => erases ov reason && decide (erasedCounter reason = name)
  | _, _ => false

variable {text}

variable {overrides : List ClaimOverride} {row : ClaimVerdict}
  {ov : ClaimOverride}

theorem replacing?_of_none (hnone : byText text overrides (text.strip row.text) = none) :
    replacing? text overrides row = none := by
  simp [replacing?, hnone]

theorem replacing?_of_annotate (hsome : byText text overrides (text.strip row.text) = some ov)
    (hannotate : ov.annotateOnly) : replacing? text overrides row = none := by
  simp [replacing?, hsome, hannotate]

theorem replacing?_of_replace (hsome : byText text overrides (text.strip row.text) = some ov)
    (hannotate : ov.annotateOnly = false) : replacing? text overrides row = some ov := by
  simp [replacing?, hsome, hannotate]

theorem replacing?_eq_some :
    replacing? text overrides row = some ov ↔
      byText text overrides (text.strip row.text) = some ov ∧ ov.annotateOnly = false := by
  simp [replacing?, Option.filter_eq_some_iff]

theorem visitedRow_of_replacing (hov : replacing? text overrides row = some ov) :
    visitedRow text overrides row = overriddenRow ov row := by
  obtain ⟨hsome, hannotate⟩ := replacing?_eq_some.mp hov
  simp [visitedRow, hsome, hannotate]

section

variable (ov : ClaimOverride) (row : ClaimVerdict)

@[simp] theorem overriddenRow_text : (overriddenRow ov row).text = row.text := by
  unfold overriddenRow
  split <;> rfl

@[simp] theorem annotatedRow_text : (annotatedRow ov row).text = row.text := rfl

@[simp] theorem annotatedRow_verdict : (annotatedRow ov row).verdict = row.verdict := rfl

@[simp] theorem annotatedRow_reason : (annotatedRow ov row).reason = row.reason := rfl

end

theorem visitedRow_kept (hnone : replacing? text overrides row = none) :
    (visitedRow text overrides row).verdict = row.verdict ∧
      (visitedRow text overrides row).reason = row.reason := by
  unfold visitedRow
  cases hov : byText text overrides (text.strip row.text) with
  | none => exact ⟨rfl, rfl⟩
  | some ov =>
    cases hannotate : ov.annotateOnly with
    | true => simp [hannotate]
    | false =>
      rw [replacing?_of_replace hov hannotate] at hnone
      exact absurd hnone (Option.some_ne_none ov)

/-! ## The walk -/

section

variable (overrides : List ClaimOverride) (walk : LedgerWalk) (row : ClaimVerdict)

theorem visit_ledger :
    (walk.visit text overrides row).ledger = walk.ledger ++ [visitedRow text overrides row] := by
  cases hov : byText text overrides (text.strip row.text) with
  | none => simp [LedgerWalk.visit, visitedRow, hov]
  | some ov =>
    cases hannotate : ov.annotateOnly with
    | true => simp [LedgerWalk.visit, visitedRow, hov, hannotate]
    | false => simp [LedgerWalk.visit, visitedRow, hov, hannotate]

theorem visit_supported :
    (walk.visit text overrides row).supported = walk.supported + rowGain text overrides row := by
  cases hov : byText text overrides (text.strip row.text) with
  | none => simp [LedgerWalk.visit, rowGain, replacing?_of_none hov, hov]
  | some ov =>
    cases hannotate : ov.annotateOnly with
    | true => simp [LedgerWalk.visit, rowGain, replacing?_of_annotate hov hannotate, hov, hannotate]
    | false => simp [LedgerWalk.visit, rowGain, replacing?_of_replace hov hannotate, hov, hannotate]

theorem visit_counters (name : String) :
    (walk.visit text overrides row).counters name =
      walk.counters name +
        if erasedInto text overrides name row then 1 else 0 := by
  cases hov : byText text overrides (text.strip row.text) with
  | none => simp [LedgerWalk.visit, erasedInto, replacing?_of_none hov, hov]
  | some ov =>
    cases hannotate : ov.annotateOnly with
    | true =>
      simp [LedgerWalk.visit, erasedInto, replacing?_of_annotate hov hannotate, hov, hannotate]
    | false =>
      simp only [LedgerWalk.visit, hov, hannotate, erasedInto,
        replacing?_of_replace hov hannotate, bumpErased]
      cases hreason : row.reason with
      | none => simp
      | some reason =>
        by_cases herases : erases ov reason = true
        · simp [herases, Counters.bump_apply, eq_comm]
        · simp [herases]

theorem mem_visit_applied (key : String) :
    key ∈ (walk.visit text overrides row).applied ↔
      key ∈ walk.applied ∨
        (replacing? text overrides row).isSome = true ∧ text.strip row.text = key := by
  cases hov : byText text overrides (text.strip row.text) with
  | none => simp [LedgerWalk.visit, replacing?_of_none hov, hov]
  | some ov =>
    cases hannotate : ov.annotateOnly with
    | true => simp [LedgerWalk.visit, replacing?_of_annotate hov hannotate, hov, hannotate]
    | false =>
      simp only [LedgerWalk.visit, hov, hannotate, replacing?_of_replace hov hannotate]
      by_cases hmem : text.strip row.text ∈ walk.applied
      · simp only [Bool.false_eq_true, if_false, hmem, if_true, Option.isSome_some, true_and]
        constructor
        · exact Or.inl
        · rintro (hkey | hkey)
          · exact hkey
          · exact hkey ▸ hmem
      · simp [hmem, eq_comm]

end

variable (text) in
def walkFrom (overrides : List ClaimOverride) (walk : LedgerWalk)
    (rows : List ClaimVerdict) : LedgerWalk :=
  rows.foldl (LedgerWalk.visit text overrides) walk

section

variable (overrides : List ClaimOverride) (walk : LedgerWalk) (rows : List ClaimVerdict)

variable (text) in
theorem walkFrom_ledger :
    (walkFrom text overrides walk rows).ledger =
      walk.ledger ++ rows.map (visitedRow text overrides) := by
  induction rows generalizing walk with
  | nil => simp [walkFrom]
  | cons row rest ih =>
    have hrest := ih (walk.visit text overrides row)
    simpa [walkFrom, visit_ledger] using hrest

theorem walkFrom_supported :
    (walkFrom text overrides walk rows).supported =
      walk.supported + (rows.map (rowGain text overrides)).sum := by
  induction rows generalizing walk with
  | nil => simp [walkFrom]
  | cons row rest ih =>
    have hrest := ih (walk.visit text overrides row)
    rw [visit_supported] at hrest
    simpa [walkFrom, add_assoc] using hrest

theorem walkFrom_counters (name : String) :
    (walkFrom text overrides walk rows).counters name =
      walk.counters name + rows.countP (erasedInto text overrides name) := by
  induction rows generalizing walk with
  | nil => simp [walkFrom]
  | cons row rest ih =>
    have hrest := ih (walk.visit text overrides row)
    rw [visit_counters] at hrest
    rw [countP_cons, Nat.add_comm (rest.countP _), ← Nat.add_assoc]
    exact hrest

end

variable (text) in
theorem mem_walkFrom_applied (overrides : List ClaimOverride)
    (walk : LedgerWalk) (rows : List ClaimVerdict) (key : String) :
    key ∈ (walkFrom text overrides walk rows).applied ↔
      key ∈ walk.applied ∨ ∃ row ∈ rows,
        (replacing? text overrides row).isSome = true ∧ text.strip row.text = key := by
  induction rows generalizing walk with
  | nil => simp [walkFrom]
  | cons row rest ih =>
    have hrest := ih (walk.visit text overrides row)
    rw [mem_visit_applied] at hrest
    simpa [walkFrom, or_assoc] using hrest

theorem countOverrides_apply (overrides : List ClaimOverride)
    (counters : Counters) (name : String) :
    countOverrides overrides counters name =
      counters name + overrides.countP fun ov =>
        decide (ov.counter = name) := by
  induction overrides generalizing counters with
  | nil => simp [countOverrides]
  | cons ov rest ih =>
    have hrest := ih (counters.bump ov.counter 1)
    rw [Counters.bump_apply] at hrest
    simp only [countOverrides, foldl_cons] at hrest ⊢
    rw [hrest, countP_cons]
    by_cases hname : ov.counter = name
    · simp [hname, Nat.add_assoc, Nat.add_comm]
    · simp [hname, Ne.symm hname]

/-! ## The call -/

section

variable (text) (report : FaithfulnessReport)
variable (overrides : List ClaimOverride)

theorem walkLedger_ledger :
    (walkLedger text report overrides).ledger =
      report.claimVerdicts.map (visitedRow text overrides) := by
  have hwalk := walkFrom_ledger text overrides
    { supported := report.supportedClaims
      counters := countOverrides overrides report.counters
      applied := []
      ledger := [] } report.claimVerdicts
  simpa [walkLedger, walkFrom] using hwalk

theorem walkLedger_supported :
    (walkLedger text report overrides).supported =
      report.supportedClaims + (report.claimVerdicts.map (rowGain text overrides)).sum :=
  walkFrom_supported overrides _ report.claimVerdicts

theorem walkLedger_counters (name : String) :
    (walkLedger text report overrides).counters name =
      report.counters name +
        (overrides.countP fun ov => decide (ov.counter = name)) +
        report.claimVerdicts.countP (erasedInto text overrides name) := by
  rw [← countOverrides_apply]
  exact walkFrom_counters overrides _ report.claimVerdicts name

theorem mem_walkLedger_applied (key : String) :
    key ∈ (walkLedger text report overrides).applied ↔
      ∃ row ∈ report.claimVerdicts,
        (replacing? text overrides row).isSome = true ∧ text.strip row.text = key := by
  have hwalk := mem_walkFrom_applied text overrides
    { supported := report.supportedClaims
      counters := countOverrides overrides report.counters
      applied := []
      ledger := [] } report.claimVerdicts key
  simpa [walkLedger, walkFrom] using hwalk

def appendedFailures : List ClaimOverride :=
  ungradedFailures text overrides (report.claimVerdicts.map fun row => text.strip row.text)

theorem ungradedFailures_applied :
    ungradedFailures text overrides (walkLedger text report overrides).applied =
      appendedFailures text report overrides := by
  apply filterMap_congr
  intro key _
  cases hov : byText text overrides key with
  | none => rfl
  | some ov =>
    cases hannotate : ov.annotateOnly with
    | true => simp [Option.filter, hannotate]
    | false =>
      have hiff : key ∈ (walkLedger text report overrides).applied ↔
          key ∈ report.claimVerdicts.map fun row =>
            text.strip row.text := by
        rw [mem_walkLedger_applied, mem_map]
        constructor
        · rintro ⟨row, hrow, _, hkey⟩
          exact ⟨row, hrow, hkey⟩
        · rintro ⟨row, hrow, hkey⟩
          refine ⟨row, hrow, ?_, hkey⟩
          have hbyText : byText text overrides (text.strip row.text) = some ov := by
            rw [hkey]
            exact hov
          simp [replacing?_of_replace hbyText hannotate]
      simp [Option.filter, hannotate, hiff]

theorem applyClaimOverrides_nil : applyClaimOverrides text report [] = report := rfl

theorem appendedFailures_nil : appendedFailures text report [] = [] := rfl

theorem applyClaimOverrides_claimVerdicts :
    (applyClaimOverrides text report overrides).claimVerdicts =
      report.claimVerdicts.map (visitedRow text overrides) ++
        (appendedFailures text report overrides).map ungradedRow := by
  by_cases hnil : overrides = []
  · subst overrides
    have hmap : report.claimVerdicts.map (visitedRow text []) =
        report.claimVerdicts := map_id _
    rw [applyClaimOverrides_nil, appendedFailures_nil, hmap]
    simp
  · simp [applyClaimOverrides, hnil, walkLedger_ledger, ungradedFailures_applied]

theorem applyClaimOverrides_supported :
    (applyClaimOverrides text report overrides).supportedClaims =
      report.supportedClaims + (report.claimVerdicts.map (rowGain text overrides)).sum := by
  by_cases hnil : overrides = []
  · subst overrides
    have hgain : report.claimVerdicts.map (rowGain text []) =
        report.claimVerdicts.map fun _ => 0 := rfl
    rw [applyClaimOverrides_nil, hgain]
    simp
  · simp [applyClaimOverrides, hnil, walkLedger_supported]

theorem applyClaimOverrides_counters (name : String) :
    (applyClaimOverrides text report overrides).counters name =
      report.counters name +
        (overrides.countP fun ov => decide (ov.counter = name)) +
        report.claimVerdicts.countP (erasedInto text overrides name) := by
  by_cases hnil : overrides = []
  · subst overrides
    have hcount : report.claimVerdicts.countP (erasedInto text [] name) = 0 :=
      countP_eq_zero.mpr fun _ _ => Bool.false_ne_true
    rw [applyClaimOverrides_nil, hcount]
    simp
  · simp [applyClaimOverrides, hnil, walkLedger_counters]

end

end

end Legba.Faithfulness
