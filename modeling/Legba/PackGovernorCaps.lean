import Legba.PackGovernor

/-!
# Caps and concurrent calls

The gate reads the ledger and the insert comes later, so calls which are
between the two do not see each other.  A window holds at most the cap and one
row for each further call which was between them at the same time.  Calls
which do not overlap keep the caps.
-/

namespace Legba.Agency

open LabelledRun List

def windowCount (ledger : List Invocation) (length : ℤ) (instant : Datetime) :
    ℕ :=
  ledger.countP fun row =>
    decide (instant - seconds length ≤ row.occurredAt ∧ row.occurredAt ≤ instant)

/-- A cap on the rows of a window, and the phases of the calls which have
passed its read and have not inserted their row. -/
structure RateCap where
  length : ℤ
  limit : Option ℕ
  past : Phase → Bool

def PackGovernor.minuteCap (governor : PackGovernor) : RateCap where
  length := 60
  limit := governor.apiRatePerMinute
  past
    | .hour _ | .sources _ | .cost _ | .record => true
    | _ => false

def PackGovernor.hourCap (governor : PackGovernor) : RateCap where
  length := 3600
  limit := governor.maxInvocationsPerHour
  past
    | .sources _ | .cost _ | .record => true
    | _ => false

def PackGovernor.caps (governor : PackGovernor) : List RateCap :=
  [governor.minuteCap, governor.hourCap]

def RateCap.overlap (cap : RateCap) (state : State) : ℕ :=
  state.calls.countP fun call => cap.past call.phase

/-- No window holds more than the cap and `excess` rows. -/
def RateCap.Within (cap : RateCap) (excess : ℕ) (ledger : List Invocation) :
    Prop :=
  ∀ limit ∈ cap.limit, ∀ instant, windowCount ledger cap.length instant ≤ limit + excess

variable {later clock : Datetime} {envelope : Option (ℤ × ℤ)} {next : Phase}
  {governor : PackGovernor} {limit : ℕ} {cap : RateCap}

theorem countSince_le (ledger : List Invocation) {since : Datetime}
    (hle : since ≤ later) : countSince ledger later ≤ countSince ledger since := by
  apply countP_mono_left
  intro row _ hrow
  simp only [decide_eq_true_eq] at hrow ⊢
  exact hle.trans hrow

theorem windowCount_le_countSince (ledger : List Invocation) (length : ℤ)
    {instant : Datetime} (hle : clock ≤ instant) :
    windowCount ledger length instant ≤ countSince ledger (clock - seconds length) := by
  apply countP_mono_left
  intro row _ hrow
  simp only [decide_eq_true_eq] at hrow ⊢
  exact (Int.sub_le_sub_right hle _).trans hrow.1

variable {ledger other : List Invocation} {governor : PackGovernor}

section

variable (hsame : other.map Invocation.occurredAt = ledger.map Invocation.occurredAt)

include hsame

theorem countSince_congr (since : Datetime) : countSince other since = countSince ledger since := by
  have hmap : ∀ rows : List Invocation, countSince rows since =
      (rows.map Invocation.occurredAt).countP
        fun occurredAt => decide (since ≤ occurredAt) := by
    intro rows
    rw [countP_map]
    rfl
  rw [hmap, hmap, hsame]

theorem windowCount_congr (length : ℤ) (instant : Datetime) :
    windowCount other length instant = windowCount ledger length instant := by
  have hmap : ∀ rows : List Invocation, windowCount rows length instant =
      (rows.map Invocation.occurredAt).countP fun occurredAt =>
        decide (instant - seconds length ≤ occurredAt ∧ occurredAt ≤ instant) := by
    intro rows
    rw [countP_map]
    rfl
  rw [hmap, hmap, hsame]

end

theorem map_occurredAt_modify (ledger : List Invocation) (row : ℕ)
    (outcome : InvocationOutcome) (costUsd : Option ℚ) (units : Option ℤ) :
    (ledger.modify row fun invocation =>
        invocation.settle outcome costUsd units).map Invocation.occurredAt =
      ledger.map Invocation.occurredAt := by
  apply ext_getElem?
  intro index
  rw [getElem?_map, getElem?_map, getElem?_modify]
  cases ledger[index]? with
  | none => rfl
  | some invocation =>
    by_cases hrow : row = index <;> simp [hrow, Invocation.settle]

theorem map_occurredAt_reconcile (ledger : List Invocation) (before : Datetime) :
    (ledger.map fun row => row.reconcile before).map Invocation.occurredAt =
      ledger.map Invocation.occurredAt := by
  rw [map_map]
  congr 1
  funext row
  by_cases hrow : row.outcome = .admitted ∧ row.occurredAt < before <;>
    simp [Invocation.reconcile, hrow]

/-! ## The gate -/

def Phase.now : Phase → Option Datetime
  | .envelope now | .minute now | .hour now | .sources now | .cost now => some now
  | _ => none

structure RateCap.Gates (cap : RateCap) (governor : PackGovernor) (limit : ℕ) : Prop where
  room : ∀ ledger envelope call next,
    gate governor ledger envelope call = some next → cap.past next = true →
      cap.past call.phase = true ∨ ∃ now ∈ call.phase.now,
        countSince ledger (now - seconds cap.length) + 1 ≤ limit
  record : cap.past .record = true
  started : ∀ now, cap.past (.envelope now) = false
  dispatched : ∀ row, cap.past (.dispatched row) = false
  settled : cap.past .settled = false
  aborted : cap.past .aborted = false

inductive Passes (governor : PackGovernor) (ledger : List Invocation) : Phase → Phase → Prop
  | envelope (now : Datetime) : Passes governor ledger (.envelope now) (afterEnvelope governor now)
  | minute (now : Datetime)
      (room : ∀ limit ∈ governor.apiRatePerMinute,
        countSince ledger (now - seconds 60) + 1 ≤ limit) :
      Passes governor ledger (.minute now) (afterMinute governor now)
  | hour (now : Datetime)
      (room : ∀ limit ∈ governor.maxInvocationsPerHour,
        countSince ledger (now - seconds 3600) + 1 ≤ limit) :
      Passes governor ledger (.hour now) (afterHour governor now)
  | sources (now : Datetime) : Passes governor ledger (.sources now) (afterSources governor now)
  | cost (now : Datetime) : Passes governor ledger (.cost now) .record

theorem checkCount_cases (dimension : CapDimension) (limit : Option ℕ) (count : ℕ) (next : Phase) :
    (∃ block, checkCount dimension limit count next = .blocked block) ∨
      checkCount dimension limit count next = next ∧ ∀ cap ∈ limit, count + 1 ≤ cap := by
  cases limit with
  | none =>
    refine .inr ⟨rfl, ?_⟩
    intro cap hcap
    cases hcap
  | some cap =>
    simp only [checkCount]
    split
    · exact .inl ⟨_, rfl⟩
    · refine .inr ⟨rfl, ?_⟩
      intro other hother
      cases hother
      omega

theorem gate_cases {call : Call} (hgate : gate governor ledger envelope call = some next) :
    (∃ block, next = .blocked block) ∨ Passes governor ledger call.phase next := by
  cases hphase : call.phase with
  | envelope now =>
    simp only [gate, hphase] at hgate
    split at hgate
    · split at hgate
      · cases hgate
        exact .inl ⟨_, rfl⟩
      · cases hgate
        exact .inr (.envelope now)
    · cases hgate
      exact .inr (.envelope now)
  | minute now =>
    simp only [gate, hphase, Option.some.injEq] at hgate
    subst hgate
    rcases checkCount_cases .apiRatePerMinute governor.apiRatePerMinute
        (countSince ledger (now - seconds 60)) (afterMinute governor now) with
      hblock | ⟨hnext, hroom⟩
    · exact .inl hblock
    · rw [hnext]
      exact .inr (.minute now hroom)
  | hour now =>
    simp only [gate, hphase, Option.some.injEq] at hgate
    subst hgate
    rcases checkCount_cases .maxInvocationsPerHour
        governor.maxInvocationsPerHour
        (countSince ledger (now - seconds 3600)) (afterHour governor now) with
      hblock | ⟨hnext, hroom⟩
    · exact .inl hblock
    · rw [hnext]
      exact .inr (.hour now hroom)
  | sources now =>
    simp only [gate, hphase] at hgate
    split at hgate
    · cases hgate
      exact .inr (.sources now)
    · split at hgate
      · cases hgate
        exact .inl ⟨_, rfl⟩
      · cases hgate
        exact .inr (.sources now)
  | cost now =>
    simp only [gate, hphase] at hgate
    split at hgate
    · cases hgate
      exact .inr (.cost now)
    · split at hgate
      · cases hgate
        exact .inl ⟨_, rfl⟩
      · cases hgate
        exact .inr (.cost now)
  | record => simp [gate, hphase] at hgate
  | dispatched row => simp [gate, hphase] at hgate
  | settled => simp [gate, hphase] at hgate
  | blocked block => simp [gate, hphase] at hgate
  | aborted => simp [gate, hphase] at hgate

theorem minuteCap_gates (hlimit : governor.apiRatePerMinute = some limit) :
    governor.minuteCap.Gates governor limit where
  room := by
    intro ledger envelope call next hgate hpast
    rcases gate_cases hgate with ⟨block, rfl⟩ | hpasses
    · cases hpast
    · generalize call.phase = phase at hpasses ⊢
      cases hpasses with
      | envelope now =>
        have hminute : afterEnvelope governor now = .minute now := by simp [afterEnvelope, hlimit]
        rw [hminute] at hpast
        cases hpast
      | minute now hroom => exact .inr ⟨now, rfl, hroom limit hlimit⟩
      | hour now hroom => exact .inl rfl
      | sources now => exact .inl rfl
      | cost now => exact .inl rfl
  record := rfl
  started := fun _ => rfl
  dispatched := fun _ => rfl
  settled := rfl
  aborted := rfl

theorem hourCap_gates (hlimit : governor.maxInvocationsPerHour = some limit) :
    governor.hourCap.Gates governor limit where
  room := by
    intro ledger envelope call next hgate hpast
    have hhour : ∀ now, afterMinute governor now = .hour now := by
      intro now
      simp [afterMinute, hlimit]
    rcases gate_cases hgate with ⟨block, rfl⟩ | hpasses
    · cases hpast
    · generalize call.phase = phase at hpasses ⊢
      cases hpasses with
      | envelope now =>
        unfold afterEnvelope at hpast
        rw [hhour] at hpast
        split at hpast
        · cases hpast
        · cases hpast
      | minute now hroom =>
        rw [hhour] at hpast
        cases hpast
      | hour now hroom => exact .inr ⟨now, rfl, hroom limit hlimit⟩
      | sources now => exact .inl rfl
      | cost now => exact .inl rfl
  record := rfl
  started := fun _ => rfl
  dispatched := fun _ => rfl
  settled := rfl
  aborted := rfl

variable {now : Datetime}

theorem now_afterSources (hnow : (afterSources governor now).now = some later) : later = now := by
  unfold afterSources at hnow
  split at hnow <;> simp_all [Phase.now]

theorem now_afterHour (hnow : (afterHour governor now).now = some later) : later = now := by
  unfold afterHour at hnow
  split at hnow
  · simp_all [Phase.now]
  · exact now_afterSources hnow

theorem now_afterMinute (hnow : (afterMinute governor now).now = some later) : later = now := by
  unfold afterMinute at hnow
  split at hnow
  · simp_all [Phase.now]
  · exact now_afterHour hnow

theorem now_afterEnvelope (hnow : (afterEnvelope governor now).now = some later) : later = now := by
  unfold afterEnvelope at hnow
  split at hnow
  · simp_all [Phase.now]
  · exact now_afterMinute hnow

theorem gate_now {ledger : List Invocation} {call : Call}
    (hgate : gate governor ledger envelope call = some next)
    (hnow : next.now = some later) : call.phase.now = some later := by
  rcases gate_cases hgate with ⟨block, rfl⟩ | hpasses
  · cases hnow
  · generalize call.phase = phase at hpasses ⊢
    cases hpasses with
    | envelope now => rw [now_afterEnvelope hnow, Phase.now]
    | minute now hroom => rw [now_afterMinute hnow, Phase.now]
    | hour now hroom => rw [now_afterHour hnow, Phase.now]
    | sources now => rw [now_afterSources hnow, Phase.now]
    | cost now => cases hnow

/-! ## The invariant -/

/-- The recent rows and the calls past the read are together within the cap
and the excess. -/
structure RateCap.Inv (cap : RateCap) (limit overlap : ℕ) (state : State) : Prop where
  recent : countSince state.ledger (state.clock - seconds cap.length) +
    cap.overlap state ≤ limit + (overlap - 1)
  windows : ∀ instant, windowCount state.ledger cap.length instant ≤ limit + (overlap - 1)
  clock : ∀ row ∈ state.ledger, row.occurredAt ≤ state.clock
  started : ∀ call ∈ state.calls, ∀ now ∈ call.phase.now, now ≤ state.clock

section

variable {cap : RateCap} {governor : PackGovernor} {limit overlap : ℕ}
  {state : State}

variable {index : ℕ} {phase : Phase}

theorem RateCap.overlap_setPhase (cap : RateCap) {call : Call}
    (hcall : state.calls[index]? = some call) (phase : Phase) :
    cap.overlap (state.setPhase index call phase) + (if cap.past call.phase then 1 else 0) =
      cap.overlap state + if cap.past phase then 1 else 0 := by
  obtain ⟨hindex, hget⟩ := List.getElem?_eq_some_iff.mp hcall
  have hle : (if cap.past call.phase then 1 else 0) ≤ cap.overlap state := by
    split
    next hpast => exact countP_pos_iff.mpr ⟨call, mem_of_getElem? hcall, hpast⟩
    next => exact Nat.zero_le _
  unfold RateCap.overlap at hle ⊢
  simp only [State.setPhase, countP_set hindex, hget]
  omega

section

variable (hinv : cap.Inv limit overlap state)

include hinv

section

variable {call : Call} (hcall : state.calls[index]? = some call)
  (hnow : ∀ now, phase.now = some now → call.phase.now = some now)

include hcall hnow

theorem RateCap.Inv.started_setPhase :
    ∀ other ∈ (state.setPhase index call phase).calls,
      ∀ now ∈ other.phase.now, now ≤ state.clock := by
  intro other hother now hothernow
  rcases mem_or_eq_of_mem_set hother with hold | heq
  · exact hinv.started other hold now hothernow
  · subst heq
    exact hinv.started call (mem_of_getElem? hcall) now (hnow now hothernow)

theorem RateCap.Inv.setPhase
    (hpast : cap.past phase = true → cap.past call.phase = true ∨ countSince state.ledger
      (state.clock - seconds cap.length) + 1 ≤ limit ∧ cap.overlap (state.setPhase index call
      phase) ≤ overlap) : cap.Inv limit overlap (state.setPhase index call phase) := by
  refine ⟨?_, hinv.windows, hinv.clock, hinv.started_setPhase hcall hnow⟩
  have hcount := cap.overlap_setPhase hcall phase
  have hrecent := hinv.recent
  simp only [State.setPhase] at hcount hpast ⊢
  cases hphase : cap.past phase with
  | false =>
    simp only [hphase] at hcount
    split at hcount <;> simp at hcount <;> omega
  | true =>
    simp only [hphase, if_true] at hcount
    rcases hpast hphase with hold | ⟨hroom, hoverlap⟩
    · simp only [hold, if_true] at hcount
      omega
    · split at hcount <;> omega

end

theorem RateCap.Inv.congr {ledger : List Invocation}
    (hsame : ledger.map Invocation.occurredAt = state.ledger.map Invocation.occurredAt) :
    cap.Inv limit overlap { state with ledger := ledger } := by
  refine ⟨?_, ?_, ?_, hinv.started⟩
  · simp only
    rw [countSince_congr hsame]
    exact hinv.recent
  · intro instant
    rw [windowCount_congr hsame]
    exact hinv.windows instant
  · intro row hrow
    have hmem : row.occurredAt ∈ state.ledger.map Invocation.occurredAt := by
      rw [← hsame]
      exact mem_map_of_mem hrow
    obtain ⟨old, hold, hinstant⟩ := mem_map.mp hmem
    rw [← hinstant]
    exact hinv.clock old hold

theorem RateCap.Inv.tick (elapsed : ℕ) :
    cap.Inv limit overlap { state with clock := state.clock + elapsed } := by
  have hle : state.clock ≤ state.clock + elapsed := by simp
  refine ⟨?_, hinv.windows, ?_, ?_⟩
  · have hcount := countSince_le state.ledger (Int.sub_le_sub_right hle (seconds cap.length))
    exact (Nat.add_le_add_right hcount _).trans hinv.recent
  · exact fun row hrow => (hinv.clock row hrow).trans hle
  · exact fun call hcall now hnow => (hinv.started call hcall now hnow).trans hle

section

variable (hgates : cap.Gates governor limit)

include hgates

theorem RateCap.Inv.call (estimatedCostUsd : ℚ) (estimatedUnits : ℤ) :
    cap.Inv limit overlap { state with
      calls := state.calls ++
        [⟨estimatedCostUsd, estimatedUnits, .envelope state.clock⟩] } := by
  refine ⟨?_, hinv.windows, hinv.clock, ?_⟩
  · simpa [RateCap.overlap, hgates.started] using hinv.recent
  · intro call hcall now hnow
    rcases mem_append.mp hcall with hold | hnew
    · exact hinv.started call hold now hnow
    · rw [mem_singleton] at hnew
      subst hnew
      cases hnow
      exact le_refl _

theorem RateCap.Inv.record {call : Call} (hcall : state.calls[index]? = some call)
    (hphase : call.phase = .record) (row : ℕ) {invocation : Invocation}
    (hclock : invocation.occurredAt = state.clock) :
    cap.Inv limit overlap { state.setPhase index call (.dispatched row) with
      ledger := state.ledger ++ [invocation] } := by
  have hcount := cap.overlap_setPhase hcall (.dispatched row)
  rw [hphase, hgates.record, hgates.dispatched] at hcount
  have hmore : countSince (state.ledger ++ [invocation])
      (state.clock - seconds cap.length) ≤
        countSince state.ledger (state.clock - seconds cap.length) + 1 := by
    unfold countSince
    rw [countP_append]
    exact Nat.add_le_add_left countP_le_length _
  have hrecent := hinv.recent
  simp only [if_true, Bool.false_eq_true, if_false, add_zero] at hcount
  have hbound : countSince (state.ledger ++ [invocation])
      (state.clock - seconds cap.length) +
        cap.overlap (state.setPhase index call (.dispatched row)) ≤
      limit + (overlap - 1) := by
    omega
  refine ⟨hbound, ?_, ?_, hinv.started_setPhase hcall ?_⟩
  · intro instant
    simp only
    by_cases hle : state.clock ≤ instant
    · have hwindow := windowCount_le_countSince (state.ledger ++ [invocation]) cap.length hle
      omega
    · have hout : windowCount (state.ledger ++ [invocation]) cap.length
          instant = windowCount state.ledger cap.length instant := by
        unfold windowCount
        simp [hclock, hle]
      rw [hout]
      exact hinv.windows instant
  · intro other hother
    rcases mem_append.mp hother with hold | hnew
    · exact hinv.clock other hold
    · rw [mem_singleton] at hnew
      subst hnew
      exact hclock.le
  · intro now hnow
    cases hnow

theorem RateCap.Inv.step {event : Event} {next : State}
    (hstep : Agency.step governor state event = some next)
    (hoverlap : cap.overlap next ≤ overlap) : cap.Inv limit overlap next := by
  cases event with
  | tick elapsed =>
    cases hstep
    exact hinv.tick elapsed
  | call estimatedCostUsd estimatedUnits =>
    cases hstep
    exact hinv.call hgates estimatedCostUsd estimatedUnits
  | read index envelope =>
    obtain ⟨call, hcall, hgated⟩ := Option.bind_eq_some_iff.mp hstep
    obtain ⟨phase, hgate, rfl⟩ := Option.map_eq_some_iff.mp hgated
    refine hinv.setPhase hcall (fun now => gate_now hgate) ?_
    intro hpast
    rcases hgates.room _ _ _ _ hgate hpast with hold | ⟨now, hnow, hroom⟩
    · exact .inl hold
    · refine .inr ⟨?_, hoverlap⟩
      have hstarted := hinv.started call (mem_of_getElem? hcall) now hnow
      have hcount := countSince_le state.ledger (Int.sub_le_sub_right hstarted (seconds cap.length))
      omega
  | record index =>
    obtain ⟨call, hcall, hrecord⟩ := Option.bind_eq_some_iff.mp hstep
    simp only [Option.ite_none_right_eq_some, Option.some.injEq] at hrecord
    obtain ⟨hphase, rfl⟩ := hrecord
    exact hinv.record hgates hcall hphase _ rfl
  | settle index outcome costUsd units =>
    obtain ⟨call, hcall, hsettle⟩ := Option.bind_eq_some_iff.mp hstep
    split at hsettle
    next row hphase =>
      cases hsettle
      have hset : cap.Inv limit overlap (state.setPhase index call .settled) := by
        apply hinv.setPhase hcall
        · intro now hnow
          cases hnow
        · intro hpast
          rw [hgates.settled] at hpast
          cases hpast
      exact hset.congr (map_occurredAt_modify _ _ _ _ _)
    next => cases hsettle
  | abort index =>
    obtain ⟨call, hcall, rfl⟩ := Option.map_eq_some_iff.mp hstep
    apply hinv.setPhase hcall
    · intro now hnow
      cases hnow
    · intro hpast
      rw [hgates.aborted] at hpast
      cases hpast
  | reconcileStale olderThan =>
    cases hstep
    exact hinv.congr (map_occurredAt_reconcile _ _)

end

end

end

theorem inv_start {overlap : ℕ} (hlimit : cap.limit = some limit)
    (hclock : ∀ row ∈ ledger, row.occurredAt ≤ clock) (hwithin : cap.Within 0 ledger) :
    cap.Inv limit overlap (start clock ledger) := by
  have hwindows := hwithin limit hlimit
  refine ⟨?_, ?_, hclock, by simp [start]⟩
  · have hsame : countSince ledger (clock - seconds cap.length) =
        windowCount ledger cap.length clock := by
      apply countP_congr
      intro row hrow
      simp [hclock row hrow]
    have hzero : cap.overlap (start clock ledger) = 0 := rfl
    have hbound := hwindows clock
    simp only [start] at hzero ⊢
    omega
  · intro instant
    have hbound := hwindows instant
    simp only [start]
    omega

theorem gates_of_mem (hcap : cap ∈ governor.caps)
    (hlimit : cap.limit = some limit) : cap.Gates governor limit := by
  simp only [PackGovernor.caps, mem_cons, not_mem_nil, or_false] at hcap
  rcases hcap with rfl | rfl
  · exact minuteCap_gates hlimit
  · exact hourCap_gates hlimit

/-- The caps hold up to the overlap of the calls: once the starting ledger is
within them, no window of a cap holds more rows than the cap and one for each
call but the first which is past its read and has not inserted its row. -/
theorem pack_caps_up_to_overlap (governor : PackGovernor) (clock : Datetime)
    (ledger : List Invocation) (hclock : ∀ row ∈ ledger, row.occurredAt ≤ clock)
    (events : List Event) (cap : RateCap) (hcap : cap ∈ governor.caps)
    (hwithin : cap.Within 0 ledger) (overlap : ℕ)
    (hoverlap : VisitsOnly (step governor) (fun state => cap.overlap state ≤
      overlap) (start clock ledger) events) :
    VisitsOnly (step governor)
      (fun state => cap.Within (overlap - 1) state.ledger)
      (start clock ledger) events := by
  have hsteps := (visitsOnly_iff_start_and_steps.mp hoverlap).2
  have hstart : ∀ limit ∈ cap.limit, cap.Inv limit overlap (start clock ledger) :=
    fun limit hlimit => inv_start hlimit hclock hwithin
  have hwindows : ∀ state,
      (∀ limit ∈ cap.limit, cap.Inv limit overlap state) →
      cap.Within (overlap - 1) state.ledger := by
    intro state hinv limit hlimit
    exact (hinv limit hlimit).windows
  have hkeep : ∀ state event next,
      (∀ limit ∈ cap.limit, cap.Inv limit overlap state) →
      step governor state event = some next →
      cap.overlap next ≤ overlap →
      ∀ limit ∈ cap.limit, cap.Inv limit overlap next := by
    intro state event next hinv hstep hnext limit hlimit
    exact (hinv limit hlimit).step (gates_of_mem hcap hlimit) hstep hnext
  exact visitsOnly_of_goodSteps hwindows hkeep hstart hsteps

def oneAnHour : PackGovernor := ⟨some 1, none, none, none⟩

def twoCallsAtOnce : List Event :=
  [.call 0 1, .call 0 1, .read 0 none, .read 1 none, .read 0 none,
    .read 1 none, .record 0, .record 1]

theorem pack_caps_up_to_overlap_twoCalls :
    VisitsOnly (step oneAnHour)
      (fun state => oneAnHour.hourCap.Within (2 - 1) state.ledger)
      (start 0 []) twoCallsAtOnce := by
  apply pack_caps_up_to_overlap oneAnHour 0 [] (by simp) twoCallsAtOnce
    oneAnHour.hourCap (by simp [PackGovernor.caps])
  · intro limit _ instant
    exact Nat.zero_le _
  · decide

/-- Both calls read an empty hour, and both insert. -/
theorem two_calls_exceed_cap :
    ¬VisitsOnly (step oneAnHour)
      (fun state => oneAnHour.hourCap.Within 0 state.ledger)
      (start 0 []) twoCallsAtOnce := by
  intro hvisits
  have hfinal := hvisits.final rfl 1 rfl 0
  have hcount : ¬2 ≤ 1 := by decide
  exact hcount hfinal

end Legba.Agency
