import Mathlib.Data.Finset.Basic
import Legba.Datetime

/-!
# The coalescing-trigger policy kernel

The deterministic decision kernel of one (analyst, target) pair: the three
gates and the cooldown clamp (`TriggerPolicy`), the persisted dirty state
(`TriggerAccumulator`), its two mutators `applyDirty` and `applyFire`, and the
verdict `TriggerPolicy.decide`.  Everything is a pure function of the
accumulator, the policy and the instant `now` passed in.
-/

namespace Legba.Trigger

def severityOrder : List (String × ℤ) :=
  [("info", 0), ("low", 1), ("medium", 2), ("high", 3), ("critical", 4)]

/-- `str.lower`.  No letter outside ASCII lowers to a letter of the severity
labels, so the ASCII mapping decides membership in `severityOrder`. -/
def lower (value : String) : String :=
  String.ofList (value.toList.map Char.toLower)

/-- Rank a severity label; `none` stands for a value which is not a string. -/
def severityRank : Option String → ℤ
  | none => -1
  | some value => (severityOrder.lookup (lower value)).getD (-1)

theorem lookup_severityOrder_le {label : String} {rank : ℤ}
    (hlookup : severityOrder.lookup label = some rank) : rank ≤ 4 := by
  have hmem : (label, rank) ∈ severityOrder :=
    List.lookup_eq_some_iff.mp hlookup |>.elim fun before ⟨after, hsplit, _⟩ => by
      rw [hsplit]
      simp
  simp only [severityOrder, List.mem_cons, Prod.mk.injEq, List.not_mem_nil, or_false] at hmem
  omega

theorem severityRank_le (value : Option String) : severityRank value ≤ 4 := by
  cases value with
  | none => simp [severityRank]
  | some label =>
    simp only [severityRank]
    cases hlookup : severityOrder.lookup (lower label) with
    | none => simp
    | some rank => simpa using lookup_severityOrder_le hlookup

inductive TriggerReason where
  | severity
  | accumulation
  | cadence
  | cooldown
  | notDirty
  | belowThreshold
  deriving DecidableEq, Repr

/-- The three gates and the cooldown clamp of one (analyst, target) pair. -/
structure TriggerPolicy where
  cadenceSeconds : ℤ := 0
  accumulationThreshold : ℤ := 1
  severityGate : Option String := none
  cooldownSeconds : ℤ := 0
  isLlm : Bool := false
  allowLlmSeverityWake : Bool := false
  minLlmBatch : ℤ := 2
  deriving DecidableEq, Repr

def TriggerPolicy.effectiveAccumulation (policy : TriggerPolicy) : ℤ :=
  let base := max 1 policy.accumulationThreshold
  if policy.isLlm then max base policy.minLlmBatch else base

/-- The rank a signal must reach to wake immediately; `99` disables the
gate. -/
def TriggerPolicy.severityGateRank (policy : TriggerPolicy) : ℤ :=
  match policy.severityGate with
  | none => 99
  | some gate =>
    if policy.isLlm && !policy.allowLlmSeverityWake then 99
    else
      let rank := severityRank (some gate)
      if rank ≥ 0 then rank else 99

theorem TriggerPolicy.one_le_effectiveAccumulation (policy : TriggerPolicy) :
    1 ≤ policy.effectiveAccumulation := by
  unfold TriggerPolicy.effectiveAccumulation
  split <;> simp

variable {policy : TriggerPolicy} {now : Datetime}

theorem TriggerPolicy.minLlmBatch_le_effectiveAccumulation (hllm : policy.isLlm) :
    policy.minLlmBatch ≤ policy.effectiveAccumulation := by
  simp [TriggerPolicy.effectiveAccumulation, hllm]

theorem TriggerPolicy.severityGateRank_of_llm (hllm : policy.isLlm)
    (hwake : policy.allowLlmSeverityWake = false) : policy.severityGateRank = 99 := by
  unfold TriggerPolicy.severityGateRank
  split
  · rfl
  · simp [hllm, hwake]

structure TriggerAccumulator (Id : Type) where
  pendingCount : ℕ := 0
  maxPendingRank : ℤ := -1
  lastFiredAt : Option Datetime := none
  firstDirtyAt : Option Datetime := none
  seenSignalIds : Finset Id := ∅
  seenCap : ℕ := 10000
  seenOrder : List Id := []

variable {Id : Type}

def TriggerAccumulator.cooldownUntil (acc : TriggerAccumulator Id)
    (policy : TriggerPolicy) : Option Datetime :=
  match acc.lastFiredAt with
  | none => none
  | some lastFiredAt =>
    if policy.cooldownSeconds ≤ 0 then none
    else some (lastFiredAt + seconds policy.cooldownSeconds)

def TriggerAccumulator.cadenceAnchor (acc : TriggerAccumulator Id) : Option Datetime :=
  acc.lastFiredAt.or acc.firstDirtyAt

/-- When the next cadence tick is due, `none` if the cadence is disabled. -/
def TriggerAccumulator.cadenceDueAt (acc : TriggerAccumulator Id)
    (policy : TriggerPolicy) : Option Datetime :=
  if policy.cadenceSeconds ≤ 0 then none
  else acc.cadenceAnchor.map (· + seconds policy.cadenceSeconds)

def evictOldest [DecidableEq Id] (seenCap : ℕ) : Finset Id → List Id → Finset Id × List Id
  | seen, [] => (seen, [])
  | seen, evicted :: order =>
    if (evicted :: order).length > seenCap then
      evictOldest seenCap (seen.erase evicted) order
    else (seen, evicted :: order)

/-- Mark the pair dirty for one delivered matching signal; the flag is
`counted`. -/
def TriggerAccumulator.applyDirty [DecidableEq Id]
    (acc : TriggerAccumulator Id) (signalId : Id) (severityRankValue : ℤ)
    (now : Option Datetime) : TriggerAccumulator Id × Bool :=
  if signalId ∈ acc.seenSignalIds then (acc, false)
  else
    let (seen, order) := evictOldest acc.seenCap
      (insert signalId acc.seenSignalIds) (acc.seenOrder ++ [signalId])
    let firstDirty :=
      if acc.firstDirtyAt = none ∧ acc.pendingCount = 0 then now
      else acc.firstDirtyAt
    ({ pendingCount := acc.pendingCount + 1
       maxPendingRank := max acc.maxPendingRank severityRankValue
       lastFiredAt := acc.lastFiredAt
       firstDirtyAt := firstDirty
       seenSignalIds := seen
       seenCap := acc.seenCap
       seenOrder := order }, true)

def TriggerAccumulator.applyFire (acc : TriggerAccumulator Id)
    (firedAt : Datetime) : TriggerAccumulator Id where
  pendingCount := 0
  maxPendingRank := -1
  lastFiredAt := some firedAt
  firstDirtyAt := none
  seenSignalIds := ∅
  seenCap := acc.seenCap
  seenOrder := []

/-! ### What the mutators change -/

@[simp] theorem applyFire_lastFiredAt (acc : TriggerAccumulator Id)
    (firedAt : Datetime) : (acc.applyFire firedAt).lastFiredAt = some firedAt :=
  rfl

@[simp] theorem applyFire_pendingCount (acc : TriggerAccumulator Id)
    (firedAt : Datetime) : (acc.applyFire firedAt).pendingCount = 0 := rfl

section

variable [DecidableEq Id]

variable {acc : TriggerAccumulator Id}

theorem applyDirty_of_mem {signalId : Id} (hmem : signalId ∈ acc.seenSignalIds) (rank : ℤ)
    (now : Option Datetime) : acc.applyDirty signalId rank now = (acc, false) := by
  simp [TriggerAccumulator.applyDirty, hmem]

theorem applyDirty_counted_iff (acc : TriggerAccumulator Id) (signalId : Id)
    (rank : ℤ) (now : Option Datetime) :
    (acc.applyDirty signalId rank now).2 = true ↔ signalId ∉ acc.seenSignalIds := by
  unfold TriggerAccumulator.applyDirty
  split <;> simp_all

theorem applyDirty_pendingCount_of_counted {signalId : Id} {rank : ℤ}
    {now : Option Datetime} (hcounted : (acc.applyDirty signalId rank now).2) :
    (acc.applyDirty signalId rank now).1.pendingCount = acc.pendingCount + 1 := by
  have hfresh := (applyDirty_counted_iff acc signalId rank now).mp hcounted
  simp [TriggerAccumulator.applyDirty, hfresh]

section

variable (acc : TriggerAccumulator Id) (signalId : Id) (rank : ℤ) (now : Option Datetime)

theorem applyDirty_lastFiredAt :
    (acc.applyDirty signalId rank now).1.lastFiredAt = acc.lastFiredAt := by
  unfold TriggerAccumulator.applyDirty
  split <;> rfl

theorem applyDirty_seenCap : (acc.applyDirty signalId rank now).1.seenCap = acc.seenCap := by
  unfold TriggerAccumulator.applyDirty
  split <;> rfl

end

end

structure TriggerDecision where
  shouldFire : Bool
  reason : TriggerReason
  pendingCount : ℕ
  severityWake : Bool := false
  deriving DecidableEq, Repr

def TriggerAccumulator.coolingDown (acc : TriggerAccumulator Id)
    (policy : TriggerPolicy) (now : Datetime) : Bool :=
  match acc.cooldownUntil policy with
  | none => false
  | some cdUntil => now < cdUntil

def TriggerAccumulator.cadenceDue (acc : TriggerAccumulator Id)
    (policy : TriggerPolicy) (now : Datetime) : Bool :=
  match acc.cadenceDueAt policy with
  | none => false
  | some cadenceDue => now ≥ cadenceDue

def TriggerPolicy.decide (policy : TriggerPolicy) (acc : TriggerAccumulator Id)
    (now : Datetime) : TriggerDecision :=
  -- 1) cooldown clamp
  if acc.coolingDown policy now then
    { shouldFire := false, reason := .cooldown, pendingCount := acc.pendingCount }
  -- 2) severity gate
  else if acc.pendingCount > 0 ∧ acc.maxPendingRank ≥ policy.severityGateRank then
    { shouldFire := true, reason := .severity, pendingCount := acc.pendingCount
      severityWake := true }
  -- 3) accumulation gate
  else if (acc.pendingCount : ℤ) ≥ policy.effectiveAccumulation then
    { shouldFire := true, reason := .accumulation
      pendingCount := acc.pendingCount }
  -- 4) cadence gate
  else if acc.pendingCount > 0 ∧ acc.cadenceDue policy now then
    { shouldFire := true, reason := .cadence, pendingCount := acc.pendingCount }
  -- 5) hold
  else
    { shouldFire := false
      reason := if acc.pendingCount > 0 then .belowThreshold else .notDirty
      pendingCount := acc.pendingCount }

@[simp] theorem decide_pendingCount (policy : TriggerPolicy) (acc : TriggerAccumulator Id)
    (now : Datetime) : (policy.decide acc now).pendingCount = acc.pendingCount := by
  unfold TriggerPolicy.decide
  split_ifs <;> rfl

variable {acc : TriggerAccumulator Id}

theorem coolingDown_eq_false_iff :
    acc.coolingDown policy now = false ↔
      ∀ lastFiredAt, acc.lastFiredAt = some lastFiredAt →
        0 < policy.cooldownSeconds →
        lastFiredAt + seconds policy.cooldownSeconds ≤ now := by
  unfold TriggerAccumulator.coolingDown TriggerAccumulator.cooldownUntil
  cases acc.lastFiredAt with
  | none => simp
  | some lastFiredAt =>
    by_cases hcooldown : policy.cooldownSeconds ≤ 0
    · simp [hcooldown]
    · simp [hcooldown]
      omega

theorem cadenceDue_eq_true_iff :
    acc.cadenceDue policy now = true ↔
      0 < policy.cadenceSeconds ∧
        ∃ anchor, acc.cadenceAnchor = some anchor ∧
          anchor + seconds policy.cadenceSeconds ≤ now := by
  unfold TriggerAccumulator.cadenceDue TriggerAccumulator.cadenceDueAt
  by_cases hcadence : policy.cadenceSeconds ≤ 0
  · simp [hcadence]
  · cases hanchor : acc.cadenceAnchor with
    | none => simp [hcadence]
    | some anchor =>
      have hpos : 0 < policy.cadenceSeconds := by omega
      simp [hcadence, hpos]

theorem decide_fire_cases (hfire : (policy.decide acc now).shouldFire = true) :
    acc.coolingDown policy now = false ∧ 0 < acc.pendingCount ∧
      (policy.severityGateRank ≤ acc.maxPendingRank ∨
        policy.effectiveAccumulation ≤ acc.pendingCount ∨
        acc.cadenceDue policy now = true) := by
  unfold TriggerPolicy.decide at hfire
  split_ifs at hfire with hcooling hseverity haccumulation hcadence
  · exact ⟨by simpa using hcooling, hseverity.1, .inl hseverity.2⟩
  · have hone := policy.one_le_effectiveAccumulation
    exact ⟨by simpa using hcooling, by omega, .inr (.inl haccumulation)⟩
  · exact ⟨by simpa using hcooling, hcadence.1, .inr (.inr hcadence.2)⟩

def deterministicKinds : List String :=
  ["deterministic", "stat_forecaster", "dspy_compile"]

def cronToSeconds : List (String × ℤ) :=
  [("* * * * *", 60), ("*/5 * * * *", 300), ("*/10 * * * *", 600),
    ("*/15 * * * *", 900), ("*/30 * * * *", 1800), ("0 * * * *", 3600),
    ("0 */6 * * *", 21600), ("0 0 * * *", 86400)]

/-- A few common crons as a period; an unrecognised cron disables the
cadence.  The raw expression is taken after `strip`. -/
def coarseCadenceSeconds : Option String → ℤ
  | none => 0
  | some raw => (cronToSeconds.lookup raw).getD 0

def policyFromDescriptor (cooldownSeconds : Option ℤ)
    (fallbackSchedule : Option String) (methodKind : String)
    (accumulationThreshold : Option ℤ) (severityGate : Option String)
    (allowLlmSeverityWake : Bool) : TriggerPolicy :=
  let isLlm := !deterministicKinds.contains methodKind
  { cadenceSeconds := coarseCadenceSeconds fallbackSchedule
    accumulationThreshold := accumulationThreshold.getD (if isLlm then 2 else 1)
    severityGate := severityGate
    cooldownSeconds := cooldownSeconds.getD 0
    isLlm := isLlm
    allowLlmSeverityWake := allowLlmSeverityWake
    minLlmBatch := 2 }

theorem policyFromDescriptor_llm_batch {methodKind : String}
    (hllm : methodKind ∉ deterministicKinds) (cooldownSeconds : Option ℤ)
    (fallbackSchedule : Option String) (accumulationThreshold : Option ℤ)
    (severityGate : Option String) (allowLlmSeverityWake : Bool) :
    2 ≤ (policyFromDescriptor cooldownSeconds fallbackSchedule methodKind
      accumulationThreshold severityGate
      allowLlmSeverityWake).effectiveAccumulation := by
  apply TriggerPolicy.minLlmBatch_le_effectiveAccumulation
  simpa [policyFromDescriptor] using hllm

end Legba.Trigger
