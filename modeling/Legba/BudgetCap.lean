import Legba.BudgetEnforcer

/-!
# When a daily cap binds

A daily cap binds when no check passes an analyst which has used up its
budget, under whatever versions of its descriptor.  The check counts the
tokens of one version, and the checks at which this is enough are described
exactly, for every sequence of edits, commits and checks.
-/

namespace Legba.Budget

open KeyedTable LabelledRun Option

def committed (commits : List Commit) (condition : LedgerKey → Bool) : ℤ :=
  (commits.map fun commit =>
    if condition commit.key then commit.tokens else 0).sum

def ofAnalyst (analystId : String) (bucket : Bucket) (key : LedgerKey) : Bool :=
  decide (key.analystId = analystId ∧ key.bucket = bucket) &&
    match key.analystVersion with
    | .descriptor _ => true
    | .judge _ => false

def CapBinds (state : State) : Event → State → Prop
  | .check enforcer estimatedTokens bucket, _ =>
    ∀ budget ∈ enforcer.budgetTokensPerDay, 0 < budget →
      budget ≤ committed state.commits (ofAnalyst enforcer.analystId bucket) →
      (state.precallCheck enforcer estimatedTokens bucket).2.outcome ≠ .ok ∧
        (state.precallCheck enforcer estimatedTokens bucket).2.outcome ≠ .throttle
  | _, _ => True

/-- An analyst which has used its budget has used it under the version which
is checked, or the global envelope is used up. -/
def SpentByOneVersion (state : State) : Event → State → Prop
  | .check enforcer _ bucket, _ =>
    ∀ budget ∈ enforcer.budgetTokensPerDay, 0 < budget →
      budget ≤ committed state.commits (ofAnalyst enforcer.analystId bucket) →
      budget ≤ committed state.commits
          (fun key => decide (key = enforcer.key bucket)) ∨
        ∃ cap ∈ state.envelope.tokensCap bucket,
          cap ≤ committed state.commits
            fun key => decide (key.bucket = bucket)
  | _, _ => True

def State.Balanced (state : State) : Prop :=
  ∀ condition, tokensUsed state.ledger condition = committed state.commits condition

theorem tokensUsed_recordBudget (ledger : Ledger) (key : LedgerKey)
    (tokens runsIncrement : ℤ) (condition : LedgerKey → Bool) :
    tokensUsed (recordBudget ledger key tokens runsIncrement) condition =
      tokensUsed ledger condition +
        if condition key then tokens else 0 := by
  unfold recordBudget tokensUsed
  split
  next hrow =>
    have hsum := ledger.sumOf_put
      (fun key row => if condition key then row.tokensUsed else 0) key
      ⟨tokens, runsIncrement⟩
    simpa [Table.weightAt, hrow] using hsum
  next row hrow =>
    have hsum := ledger.sumOf_put
      (fun key row => if condition key then row.tokensUsed else 0) key
      ⟨row.tokensUsed + tokens, row.runs + runsIncrement⟩
    simp only [Table.weightAt, hrow, map_some, getD_some] at hsum
    split at hsum
    next hkey =>
      simp only [if_pos hkey]
      omega
    next hkey =>
      simp only [if_neg hkey]
      omega

theorem State.Balanced.commit {state : State} (hbalanced : state.Balanced) (key : LedgerKey)
    (tokens runsIncrement : ℤ) : (state.commit key tokens runsIncrement).Balanced := by
  intro condition
  have hbefore := hbalanced condition
  simp [State.commit, tokensUsed_recordBudget, hbefore, committed]

theorem State.Balanced.step {state next : State} (hbalanced : state.Balanced) {event : Event}
    (hstep : Budget.step state event = some next) : next.Balanced := by
  cases event with
  | edit enforcer =>
    cases hstep
    exact hbalanced
  | record enforcer bucket tokens runsIncrement =>
    simp only [Budget.step, ite_none_right_eq_some] at hstep
    obtain ⟨_, hstep⟩ := hstep
    cases hstep
    exact hbalanced.commit _ _ _
  | recordJudge analystId componentId bucket tokens calls =>
    cases hstep
    exact hbalanced.commit _ _ _
  | setEnvelope bucket row =>
    cases hstep
    exact hbalanced
  | check enforcer estimatedTokens bucket =>
    simp only [Budget.step, ite_none_right_eq_some] at hstep
    obtain ⟨_, hstep⟩ := hstep
    cases hstep
    exact hbalanced

variable {enforcer : BudgetEnforcer} {estimatedTokens budget : ℤ}
  {globalCap : Option ℤ}

theorem perAnalystCheck_outcome {used : ℤ} {globalUsed : ℤ} :
    (perAnalystCheck enforcer used estimatedTokens globalCap globalUsed
        budget).outcome = .exhausted ↔ budget ≤ used := by
  unfold perAnalystCheck
  constructor
  · intro hexhausted
    by_contra hunder
    simp only [if_neg hunder] at hexhausted
    split at hexhausted
    · cases hexhausted
    · split at hexhausted <;> cases hexhausted
  · intro hover
    simp [hover]

theorem perAnalystCheck_ne_global {used : ℤ} {globalUsed : ℤ} :
    (perAnalystCheck enforcer used estimatedTokens globalCap globalUsed
        budget).outcome ≠ .globalExhausted := by
  unfold perAnalystCheck
  repeat' split
  all_goals simp

theorem precallDecision_stops_iff (ledger : Ledger) (globalCap : Option ℤ) (estimatedTokens : ℤ)
    (bucket : Bucket) (hbudget : enforcer.budgetTokensPerDay = some budget) (hpos : 0 < budget) :
    (precallDecision ledger globalCap enforcer estimatedTokens bucket).outcome ≠ .ok ∧
        (precallDecision ledger globalCap enforcer estimatedTokens bucket).outcome ≠ .throttle ↔
      budget ≤ tokensUsed ledger
          (fun key => decide (key = enforcer.key bucket)) ∨
        ∃ cap ∈ globalCap, cap ≤ tokensUsed ledger
          fun key => decide (key.bucket = bucket) := by
  unfold precallDecision
  simp only
  split
  next cap hcap =>
    obtain ⟨hglobal, hover⟩ := Option.filter_eq_some_iff.mp hcap
    simp only [ne_eq, reduceCtorEq, not_false_eq_true, and_self, true_iff]
    exact .inr ⟨cap, hglobal, of_decide_eq_true hover⟩
  next hcap =>
    have hunder : ¬∃ cap ∈ globalCap, cap ≤ tokensUsed ledger
        fun key => decide (key.bucket = bucket) := by
      rintro ⟨cap, hglobal, hover⟩
      rw [Option.mem_def] at hglobal
      simp [hglobal, Option.filter, hover] at hcap
    have hfilter : enforcer.budgetTokensPerDay.filter (· ≠ 0) = some budget := by
      simp [hbudget, Option.filter, hpos.ne']
    rw [hfilter]
    simp only [or_iff_left hunder]
    rw [← perAnalystCheck_outcome]
    constructor
    · rintro ⟨hok, hthrottle⟩
      generalize hdecision : perAnalystCheck _ _ _ _ _ _ = decision at *
      have hglobal : decision.outcome ≠ .globalExhausted := hdecision ▸ perAnalystCheck_ne_global
      cases houtcome : decision.outcome <;> simp_all
    · intro hexhausted
      rw [hexhausted]
      exact ⟨nofun, nofun⟩

/-- In every sequence of edits, commits and checks, the cap of the day binds
exactly when at each check of an analyst which has used its budget, it has
done so under the checked version, or the global envelope is used up. -/
theorem daily_cap_binds_iff (events : List Event) :
    StepsSatisfy step CapBinds initial events ↔
      StepsSatisfy step SpentByOneVersion initial events := by
  have hstart : initial.Balanced := fun _ => rfl
  have hkeep : ∀ state event next, state.Balanced →
      step state event = some next → True → SpentByOneVersion state event next → next.Balanced :=
    fun _ _ _ hbalanced hstep _ _ => hbalanced.step hstep
  have hiff : ∀ state event next, state.Balanced →
      step state event = some next → True →
        (CapBinds state event next ↔ SpentByOneVersion state event next) := by
    intro state event next hbalanced _ _
    cases event with
    | check enforcer estimatedTokens bucket =>
      refine forall_congr' fun budget => forall_congr' fun hbudget =>
        forall_congr' fun hpos => forall_congr' fun _ => ?_
      have hstops := precallDecision_stops_iff state.ledger
        (state.envelope.tokensCap bucket) estimatedTokens bucket hbudget hpos
      rw [hbalanced, hbalanced] at hstops
      exact hstops
    | _ => exact Iff.rfl
  exact stepsSatisfy_iff_of_invariant hkeep hiff hstart
    (stepsSatisfy_of_forall (fun _ _ _ _ => trivial) _ _)

/-- An edit in the middle of the day: the new version starts from zero. -/
theorem edit_resets_cap :
    ¬StepsSatisfy step CapBinds initial
      [.edit ⟨"a", "v1", some 100⟩, .record ⟨"a", "v1", some 100⟩ 0 100 1,
        .edit ⟨"a", "v2", some 100⟩, .check ⟨"a", "v2", some 100⟩ 10 0] := by
  rintro ⟨_, _, _, hbinds, _⟩
  exact (hbinds 100 rfl (by decide) (by decide)).1 rfl

end Legba.Budget
