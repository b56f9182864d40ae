import Legba.BudgetCap
import Legba.PackGovernor

/-!
# The two gates of the global envelope

The governor of a pack and the budget enforcer of an analyst both stop at the
token envelope of the day.  The enforcer carries the last earlier row over to
a day without one, and writes it; the governor reads the row of the day only.
They disagree exactly on a day which has no row yet, when the last earlier row
has a cap and the tokens of the day reach it.
-/

namespace Legba.Agency

open KeyedTable Option Table Budget

/-- `_global_exhausted`: the cap in the row of the day and the tokens of the
day. -/
def globalEnvelope (state : Budget.State) (bucket : Budget.Bucket) : Option (ℤ × ℤ) :=
  ((state.envelope.row? bucket).bind Budget.EnvelopeRow.tokensCap).map
    fun cap => (cap, tokensUsed state.ledger
      fun key => decide (key.bucket = bucket))

def Call.advance (governor : PackGovernor) (ledger : List Invocation)
    (envelope : Option (ℤ × ℤ)) (call : Call) : Call :=
  match gate governor ledger envelope call with
  | some phase => { call with phase := phase }
  | none => call

/-- `precall_check`: the statements of the gate one after the other. -/
def precallCheck (governor : PackGovernor) (ledger : List Invocation)
    (state : Budget.State) (estimatedCostUsd : ℚ) (estimatedUnits : ℤ)
    (now : Datetime) : Phase :=
  let envelope := globalEnvelope state (dayOf now)
  let advance := Call.advance governor ledger envelope
  (advance (advance (advance (advance (advance
    ⟨estimatedCostUsd, estimatedUnits, .envelope now⟩))))).phase

def Phase.globalExhausted : Phase → Bool
  | .blocked block => decide (block.cause = .globalExhausted)
  | _ => false

/-! ## The governor alone -/

def Phase.PastEnvelope (phase : Phase) : Prop :=
  (∀ now, phase ≠ .envelope now) ∧ phase.globalExhausted = false

section

variable (governor : PackGovernor)

include governor

theorem pastEnvelope_afterSources (now : Datetime) : (afterSources governor now).PastEnvelope := by
  unfold afterSources
  split <;> exact ⟨nofun, rfl⟩

theorem pastEnvelope_afterHour (now : Datetime) : (afterHour governor now).PastEnvelope := by
  unfold afterHour
  split
  · exact ⟨nofun, rfl⟩
  · exact pastEnvelope_afterSources governor now

theorem pastEnvelope_afterMinute (now : Datetime) : (afterMinute governor now).PastEnvelope := by
  unfold afterMinute
  split
  · exact ⟨nofun, rfl⟩
  · exact pastEnvelope_afterHour governor now

theorem pastEnvelope_afterEnvelope (now : Datetime) :
    (afterEnvelope governor now).PastEnvelope := by
  unfold afterEnvelope
  split
  · exact ⟨nofun, rfl⟩
  · exact pastEnvelope_afterMinute governor now

end

theorem pastEnvelope_checkCount (dimension : CapDimension) (limit : Option ℕ)
    (count : ℕ) {next : Phase} (hnext : next.PastEnvelope) :
    (checkCount dimension limit count next).PastEnvelope := by
  unfold checkCount
  split
  · exact hnext
  · split
    · exact ⟨nofun, rfl⟩
    · exact hnext

theorem Call.advance_pastEnvelope {call : Call} (hpast : call.phase.PastEnvelope)
    (governor : PackGovernor) (ledger : List Invocation) (envelope : Option (ℤ × ℤ)) :
    (call.advance governor ledger envelope).phase.PastEnvelope := by
  unfold Call.advance
  cases hphase : call.phase with
  | envelope now => exact absurd hphase (hpast.1 now)
  | minute now =>
    simp only [gate, hphase]
    exact pastEnvelope_checkCount _ _ _ (pastEnvelope_afterMinute _ _)
  | hour now =>
    simp only [gate, hphase]
    exact pastEnvelope_checkCount _ _ _ (pastEnvelope_afterHour _ _)
  | sources now =>
    simp only [gate, hphase]
    cases governor.maxSourcesPerWindow with
    | none => exact pastEnvelope_afterSources _ _
    | some limit =>
      by_cases hover : (limit : ℤ) < unitsSince ledger (now - seconds 3600) + call.estimatedUnits
      · simp only [if_pos hover]
        exact ⟨nofun, rfl⟩
      · simp only [if_neg hover]
        exact pastEnvelope_afterSources _ _
  | cost now =>
    simp only [gate, hphase]
    cases governor.maxCostUsdPerDay with
    | none => exact ⟨nofun, rfl⟩
    | some limit =>
      by_cases hover : limit < costToday ledger (dayOf now) + call.estimatedCostUsd
      · simp only [if_pos hover]
        exact ⟨nofun, rfl⟩
      · simp only [if_neg hover]
        exact ⟨nofun, rfl⟩
  | record => simpa [gate, hphase] using hpast
  | dispatched row => simpa [gate, hphase] using hpast
  | settled => simpa [gate, hphase] using hpast
  | blocked block => simpa [gate, hphase] using hpast
  | aborted => simpa [gate, hphase] using hpast

theorem Call.advance_blocked {call : Call} {block : Block} (hphase : call.phase = .blocked block)
    (governor : PackGovernor) (ledger : List Invocation) (envelope : Option (ℤ × ℤ)) :
    call.advance governor ledger envelope = call := by
  simp [Call.advance, gate, hphase]

theorem precallCheck_globalExhausted (governor : PackGovernor) (ledger : List Invocation)
    (state : Budget.State) (estimatedCostUsd : ℚ) (estimatedUnits : ℤ) (now : Datetime) :
    (precallCheck governor ledger state estimatedCostUsd estimatedUnits
        now).globalExhausted = true ↔
      ∃ row cap, state.envelope.row? (dayOf now) = some row ∧
        row.tokensCap = some cap ∧
        cap ≤ tokensUsed state.ledger
          fun key => decide (key.bucket = dayOf now) := by
  unfold precallCheck
  generalize hused : (tokensUsed state.ledger
    fun key => decide (key.bucket = dayOf now)) = used
  generalize hcall : (⟨estimatedCostUsd, estimatedUnits, .envelope now⟩ : Call) = call
  have hphase : call.phase = .envelope now := by rw [← hcall]
  have hread : ∀ cap, globalEnvelope state (dayOf now) = some (cap, used) ↔
      ∃ row, state.envelope.row? (dayOf now) = some row ∧ row.tokensCap = some cap := by
    intro cap
    simp [globalEnvelope, hused, bind_eq_some_iff]
  by_cases hover : ∃ row cap, state.envelope.row? (dayOf now) = some row ∧
      row.tokensCap = some cap ∧ cap ≤ used
  · obtain ⟨row, cap, hrow, hcap, hle⟩ := hover
    have hblock : (call.advance governor ledger (globalEnvelope state (dayOf now))).phase =
        .blocked ⟨.globalExhausted, .globalTokens, cap, used⟩ := by
      rw [(hread cap).mpr ⟨row, hrow, hcap⟩]
      simp [Call.advance, gate, hphase, hle]
    simp only [Call.advance_blocked hblock]
    rw [hblock]
    exact iff_of_true rfl ⟨row, cap, hrow, hcap, hle⟩
  · have hpast : (call.advance governor ledger
          (globalEnvelope state (dayOf now))).phase.PastEnvelope := by
      have hpass : gate governor ledger (globalEnvelope state (dayOf now))
          call = some (afterEnvelope governor now) := by
        simp only [gate, hphase]
        cases henvelope : globalEnvelope state (dayOf now) with
        | none => rfl
        | some pair =>
          obtain ⟨cap, found⟩ := pair
          have hfound : found = used := by
            simp only [globalEnvelope, hused, map_eq_some_iff, Prod.mk.injEq] at henvelope
            exact henvelope.choose_spec.2.2.symm
          subst hfound
          obtain ⟨row, hrow, hcap⟩ := (hread cap).mp henvelope
          exact if_neg fun hle => hover ⟨row, cap, hrow, hcap, hle⟩
      simp only [Call.advance, hpass]
      exact pastEnvelope_afterEnvelope governor now
    have hkeep : ∀ other : Call, other.phase.PastEnvelope →
        (other.advance governor ledger (globalEnvelope state (dayOf now))).phase.PastEnvelope := by
      intro other hother
      exact Call.advance_pastEnvelope hother governor ledger _
    have hlast := hkeep _ (hkeep _ (hkeep _ (hkeep _ hpast)))
    exact iff_of_false (by simp [hlast.2]) hover

theorem precallDecision_globalExhausted (ledger : Budget.Ledger) (globalCap : Option ℤ)
    (enforcer : Budget.BudgetEnforcer) (estimatedTokens : ℤ) (bucket : Budget.Bucket) :
    (precallDecision ledger globalCap enforcer estimatedTokens
        bucket).outcome = .globalExhausted ↔
      ∃ cap, globalCap = some cap ∧
        cap ≤ tokensUsed ledger
          fun key => decide (key.bucket = bucket) := by
  unfold precallDecision
  simp only
  split
  next cap hcap =>
    obtain ⟨hglobal, hover⟩ := Option.filter_eq_some_iff.mp hcap
    exact iff_of_true rfl ⟨cap, hglobal, of_decide_eq_true hover⟩
  next hcap =>
    have hunder : ¬∃ cap, globalCap = some cap ∧
        cap ≤ tokensUsed ledger
          fun key => decide (key.bucket = bucket) := by
      rintro ⟨cap, hglobal, hover⟩
      simp [hglobal, Option.filter, hover] at hcap
    refine iff_of_false ?_ hunder
    split
    · exact nofun
    · exact perAnalystCheck_ne_global

def LastBefore (envelope : Budget.Envelope) (bucket : Budget.Bucket)
    (row : Budget.EnvelopeRow) : Prop :=
  ∃ earlier, earlier < bucket ∧ envelope.row? earlier = some row ∧
    ∀ day, earlier < day → day < bucket → envelope.row? day = none

variable {envelope : Budget.Envelope} {bucket : Budget.Bucket}

theorem previous_eq_some {row : Budget.EnvelopeRow} :
    envelope.previous bucket = some row ↔ LastBefore envelope bucket row := by
  have horder := RowOrder.isStrictOrder_greater
    fun day : Budget.Bucket => day
  have hkeys : ∀ day, day ∈ envelope.keys.filter (· < bucket) ↔
      day < bucket ∧ ∃ found, envelope.row? day = some found := by
    intro day
    rw [List.mem_filter, envelope.mem_keys, isSome_iff_exists, decide_eq_true_eq, and_comm]
  constructor
  · intro hprevious
    obtain ⟨earlier, hfirst, hrow⟩ := bind_eq_some_iff.mp hprevious
    refine ⟨earlier, ((hkeys earlier).mp (RowOrder.firstBy_mem hfirst)).1, hrow, ?_⟩
    intro day hlater hday
    cases hfound : envelope.row? day with
    | none => rfl
    | some found =>
      have hnot := horder.not_before hfirst ((hkeys day).mpr ⟨hday, found, hfound⟩)
      exact absurd hlater (of_decide_eq_false hnot)
  · rintro ⟨earlier, hbefore, hrow, hnone⟩
    have hfirst := horder.firstBy_eq_some
      ((hkeys earlier).mpr ⟨hbefore, row, hrow⟩) (by
        intro day hday hne
        obtain ⟨hday, found, hfound⟩ := (hkeys day).mp hday
        rcases lt_trichotomy day earlier with hlt | heq | hgt
        · exact decide_eq_true hlt
        · exact absurd heq hne
        · rw [hnone day hgt hday] at hfound
          cases hfound)
    exact bind_eq_some_iff.mpr ⟨earlier, hfirst, hrow⟩

theorem tokensCap_eq_some {cap : ℤ} :
    envelope.tokensCap bucket = some cap ↔
      (∃ row, envelope.row? bucket = some row ∧ row.tokensCap = some cap) ∨
      (envelope.row? bucket = none ∧
        ∃ row, LastBefore envelope bucket row ∧ row.tokensCap = some cap) := by
  simp only [← previous_eq_some]
  unfold Budget.Envelope.tokensCap Budget.Envelope.resolve
  cases hrow : envelope.row? bucket with
  | some row => simp
  | none =>
    cases hprevious : envelope.previous bucket with
    | none => simp
    | some previous =>
      cases hcap : previous.tokensCap with
      | none => simp [hcap]
      | some found => simp [hcap]

theorem resolve_row {cap : ℤ} :
    (∃ row, (envelope.resolve bucket).1.row? bucket = some row ∧ row.tokensCap = some cap) ↔
      envelope.tokensCap bucket = some cap := by
  unfold Budget.Envelope.tokensCap Budget.Envelope.resolve
  cases hrow : envelope.row? bucket with
  | some row => simp [hrow]
  | none =>
    cases hprevious : envelope.previous bucket with
    | none => simp [hrow]
    | some previous =>
      cases hcap : previous.tokensCap with
      | none => simp [hcap, hrow]
      | some found => simp [hcap]

/-! ## One after the other -/

inductive FirstCalled where
  | governor
  | enforcer
deriving DecidableEq

structure GatedCalls where
  governor : PackGovernor
  invocations : List Invocation
  estimatedCostUsd : ℚ
  estimatedUnits : ℤ
  enforcer : Budget.BudgetEnforcer
  estimatedTokens : ℤ
  now : Datetime

def GatedCalls.governorBlocks (calls : GatedCalls) (state : Budget.State) :
    Bool :=
  (precallCheck calls.governor calls.invocations state calls.estimatedCostUsd
    calls.estimatedUnits calls.now).globalExhausted

def GatedCalls.enforcerCheck (calls : GatedCalls) (state : Budget.State) :
    Budget.State × Budget.BudgetDecision :=
  state.precallCheck calls.enforcer calls.estimatedTokens (dayOf calls.now)

def GatedCalls.enforcerBlocks (calls : GatedCalls) (state : Budget.State) :
    Bool :=
  decide ((calls.enforcerCheck state).2.outcome = .globalExhausted)

/-- The verdicts of the governor and of the enforcer are the same.  The
governor writes nothing. -/
def GatedCalls.Agree (calls : GatedCalls) (state : Budget.State) : FirstCalled → Prop
  | .governor => calls.governorBlocks state = calls.enforcerBlocks state
  | .enforcer => calls.governorBlocks (calls.enforcerCheck state).1 = calls.enforcerBlocks state

instance (calls : GatedCalls) (state : Budget.State) : ∀ first, Decidable (calls.Agree state first)
  | .governor => inferInstanceAs (Decidable
      (calls.governorBlocks state = calls.enforcerBlocks state))
  | .enforcer => inferInstanceAs (Decidable
      (calls.governorBlocks (calls.enforcerCheck state).1 = calls.enforcerBlocks state))

/-- The row of the day is missing, and the last earlier row has a cap which
the tokens of the day reach. -/
def ReachedBeforeRollover (state : Budget.State) (bucket : Budget.Bucket) :
    Prop :=
  state.envelope.row? bucket = none ∧
    ∃ row cap, LastBefore state.envelope bucket row ∧
      row.tokensCap = some cap ∧
      cap ≤ tokensUsed state.ledger
        fun key => decide (key.bucket = bucket)

section

variable (calls : GatedCalls) (state : Budget.State)

theorem GatedCalls.governorBlocks_iff :
    calls.governorBlocks state = true ↔
      ∃ cap, (∃ row, state.envelope.row? (dayOf calls.now) = some row ∧ row.tokensCap = some cap) ∧
        cap ≤ tokensUsed state.ledger
          fun key => decide (key.bucket = dayOf calls.now) := by
  unfold GatedCalls.governorBlocks
  rw [precallCheck_globalExhausted]
  constructor
  · rintro ⟨row, cap, hrow, hcap, hover⟩
    exact ⟨cap, ⟨row, hrow, hcap⟩, hover⟩
  · rintro ⟨cap, ⟨row, hrow, hcap⟩, hover⟩
    exact ⟨row, cap, hrow, hcap, hover⟩

theorem GatedCalls.enforcerBlocks_iff :
    calls.enforcerBlocks state = true ↔
      ∃ cap, state.envelope.tokensCap (dayOf calls.now) = some cap ∧
        cap ≤ tokensUsed state.ledger
          fun key => decide (key.bucket = dayOf calls.now) := by
  unfold GatedCalls.enforcerBlocks GatedCalls.enforcerCheck Budget.State.precallCheck
  rw [decide_eq_true_eq]
  exact precallDecision_globalExhausted _ _ _ _ _

theorem agree_enforcer_first : calls.Agree state .enforcer := by
  change calls.governorBlocks (calls.enforcerCheck state).1 = calls.enforcerBlocks state
  rw [Bool.eq_iff_iff, calls.governorBlocks_iff, calls.enforcerBlocks_iff]
  simp only [← resolve_row]
  rfl

theorem agree_governor_first_iff :
    calls.Agree state .governor ↔ ¬ReachedBeforeRollover state (dayOf calls.now) := by
  unfold GatedCalls.Agree ReachedBeforeRollover
  rw [Bool.eq_iff_iff, calls.governorBlocks_iff, calls.enforcerBlocks_iff]
  simp only [tokensCap_eq_some]
  constructor
  · rintro hagree ⟨hmissing, row, cap, hlast, hcap, hover⟩
    obtain ⟨_, ⟨found, hfound, _⟩, _⟩ := hagree.mpr ⟨cap, .inr ⟨hmissing, row, hlast, hcap⟩, hover⟩
    rw [hmissing] at hfound
    cases hfound
  · intro hnot
    constructor
    · rintro ⟨cap, hday, hover⟩
      exact ⟨cap, .inl hday, hover⟩
    · rintro ⟨cap, hday | ⟨hmissing, row, hlast, hcap⟩, hover⟩
      · exact ⟨cap, hday, hover⟩
      · exact absurd ⟨hmissing, row, cap, hlast, hcap, hover⟩ hnot

end

/-- On any tables and day, the two gates agree in both orders exactly when the
tokens of the day do not reach a cap which has still to be carried over. -/
theorem envelope_gates_agree_iff (calls : GatedCalls) (state : Budget.State) :
    (∀ first, calls.Agree state first) ↔ ¬ReachedBeforeRollover state (dayOf calls.now) := by
  constructor
  · intro hagree
    exact (agree_governor_first_iff calls state).mp (hagree .governor)
  · intro hnot first
    cases first with
    | governor => exact (agree_governor_first_iff calls state).mpr hnot
    | enforcer => exact agree_enforcer_first calls state

def capOfTheDayBefore : Budget.State where
  ledger := empty.put ⟨"a", .descriptor "v1", 1⟩ ⟨150, 1⟩
  envelope := empty.put 0 ⟨some 100, none, "demote"⟩
  enforcers := [⟨"a", "v1", none⟩]
  commits := []

def callsOnTheSecondDay : GatedCalls where
  governor := ⟨none, none, none, none⟩
  invocations := []
  estimatedCostUsd := 0
  estimatedUnits := 1
  enforcer := ⟨"a", "v1", none⟩
  estimatedTokens := 0
  now := seconds 90000

/-- The governor admits a call which the enforcer, at the same instant, stops
for the global envelope. -/
theorem governor_ignores_inherited_cap :
    ¬∀ first, callsOnTheSecondDay.Agree capOfTheDayBefore first := by
  intro hagree
  exact absurd (hagree .governor) (by decide +kernel)

/-! ## The envelope over whole runs -/

theorem lastBefore_put {row found : Budget.EnvelopeRow} {other : Budget.Bucket}
    (hrow : envelope.row? bucket = none) (hlast : LastBefore envelope bucket row)
    (hother : other ≠ bucket) :
    LastBefore (envelope.put bucket row) other found ↔ LastBefore envelope other found := by
  constructor
  · rintro ⟨earlier, hbefore, hfound, hnone⟩
    have hclear : ∀ day, earlier < day → day < other → envelope.row? day = none := by
      intro day hlater hday
      by_cases hsame : day = bucket
      · rw [hsame, hrow]
      · rw [← row?_put_of_ne _ hsame, hnone day hlater hday]
    by_cases hearlier : earlier = bucket
    · subst hearlier
      obtain ⟨first, hfirst, hfirstRow, hfirstNone⟩ := hlast
      rw [row?_put_self] at hfound
      refine ⟨first, hfirst.trans hbefore, hfirstRow.trans hfound, fun day hlater hday => ?_⟩
      rcases lt_trichotomy day earlier with hlt | rfl | hgt
      · exact hfirstNone day hlater hlt
      · exact hrow
      · exact hclear day hgt hday
    · rw [row?_put_of_ne _ hearlier] at hfound
      exact ⟨earlier, hbefore, hfound, hclear⟩
  · rintro ⟨earlier, hbefore, hfound, hnone⟩
    have hclear : ∀ day, earlier < day → day < other → day ≠ bucket →
        (envelope.put bucket row).row? day = none := by
      intro day hlater hday hne
      rw [row?_put_of_ne _ hne, hnone day hlater hday]
    by_cases hbetween : earlier < bucket ∧ bucket < other
    · obtain ⟨hlt, hgt⟩ := hbetween
      have hsame : LastBefore envelope bucket found :=
        ⟨earlier, hlt, hfound, fun day hlater hday => hnone day hlater (hday.trans hgt)⟩
      rw [← previous_eq_some, previous_eq_some.mpr hlast] at hsame
      refine ⟨bucket, hgt, (row?_put_self ..).trans hsame, fun day hlater hday => ?_⟩
      exact hclear day (hlt.trans hlater) hday hlater.ne'
    · have hearlier : earlier ≠ bucket := by
        rintro rfl
        simp [hrow] at hfound
      rw [← row?_put_of_ne envelope hearlier row] at hfound
      refine ⟨earlier, hbefore, hfound, fun day hlater hday => hclear day hlater hday ?_⟩
      rintro rfl
      exact hbetween ⟨hlater, hday⟩

/-- Writing the carried row for the day changes the cap of no day. -/
theorem tokensCap_resolve (envelope : Budget.Envelope) (bucket other : Budget.Bucket) :
    (envelope.resolve bucket).1.tokensCap other = envelope.tokensCap other := by
  cases hrow : envelope.row? bucket with
  | some row => simp [Budget.Envelope.resolve, hrow]
  | none =>
    cases hprevious : envelope.previous bucket with
    | none => simp [Budget.Envelope.resolve, hrow, hprevious]
    | some row =>
      by_cases hcap : row.tokensCap.isSome = true
      · have hput : (envelope.resolve bucket).1 = envelope.put bucket row := by
          simp [Budget.Envelope.resolve, hrow, hprevious, hcap]
        ext cap
        by_cases hother : other = bucket
        · subst hother
          rw [hput, tokensCap_eq_some, tokensCap_eq_some, row?_put_self, hrow]
          simp [← previous_eq_some, hprevious]
        · rw [hput, tokensCap_eq_some, tokensCap_eq_some, row?_put_of_ne _ hother]
          simp only [lastBefore_put hrow (previous_eq_some.mp hprevious) hother]
      · simp [Budget.Envelope.resolve, hrow, hprevious, hcap]

/-- In every run of edits, commits, checks and envelope edits, whatever the
versions and the judges, a check is stopped by the global envelope exactly when
the tokens committed for the day reach the cap in force, and it leaves the cap
of every day as it was. -/
theorem global_envelope_binds (events : List Budget.Event) :
    LabelledRun.VisitsOnly Budget.step
      (fun state => ∀ enforcer estimatedTokens bucket,
        ((state.precallCheck enforcer estimatedTokens bucket).2.outcome = .globalExhausted ↔
          ∃ cap, state.envelope.tokensCap bucket = some cap ∧
            cap ≤ Budget.committed state.commits fun key => decide (key.bucket = bucket)) ∧
        ∀ day, (state.precallCheck enforcer estimatedTokens bucket).1.envelope.tokensCap day =
          state.envelope.tokensCap day)
      Budget.initial events := by
  refine LabelledRun.visitsOnly_of_steps (?_ : ∀ state, Budget.State.Balanced state → _) ?_ ?_ _
  · intro state hbalanced enforcer estimatedTokens bucket
    rw [← hbalanced]
    exact ⟨precallDecision_globalExhausted .., tokensCap_resolve state.envelope bucket⟩
  · exact fun _ _ _ hbalanced hstep => hbalanced.step hstep
  · exact fun _ => rfl

end Legba.Agency
