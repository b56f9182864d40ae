import Mathlib.Tactic.NormNum

/-!
# The lifecycle of an event

An event is in one of five states.  Each tick measures it and evaluates which
transition fires, if any; the table of legal transitions gives the state that
follows.  Where the measurement does not change the ticks should come to rest.

They do, outside of two ranges of measurements.  Acceleration and
stabilisation both include their bound, and a new actor accelerates whatever
the rate is.  And a link which is new but carries old evidence reopens a
resolved event, which silence then closes again.
-/

namespace Legba.EventLifecycle

inductive LifecycleState where
  | emerging
  | developing
  | active
  | evolving
  | resolved
  deriving DecidableEq, Repr

inductive LifecycleTransition where
  | opened
  | advanced
  | accelerated
  | stabilised
  | resolved
  | reactivated
  deriving DecidableEq, Repr

def LifecycleState.text : LifecycleState → String
  | .emerging => "emerging"
  | .developing => "developing"
  | .active => "active"
  | .evolving => "evolving"
  | .resolved => "resolved"

def LifecycleTransition.text : LifecycleTransition → String
  | .opened => "opened"
  | .advanced => "advanced"
  | .accelerated => "accelerated"
  | .stabilised => "stabilised"
  | .resolved => "resolved"
  | .reactivated => "reactivated"

structure EventTransitionError where
  message : String
  deriving DecidableEq, Repr

def nextStateTable : List ((LifecycleState × LifecycleTransition) × LifecycleState) :=
  [((.emerging, .opened), .emerging),
    ((.emerging, .advanced), .developing),
    ((.developing, .advanced), .active),
    ((.active, .accelerated), .evolving),
    ((.evolving, .stabilised), .active),
    ((.emerging, .resolved), .resolved),
    ((.developing, .resolved), .resolved),
    ((.active, .resolved), .resolved),
    ((.evolving, .resolved), .resolved),
    ((.resolved, .reactivated), .developing)]

def nextState (current : LifecycleState) (transition : LifecycleTransition) :
    Except EventTransitionError LifecycleState :=
  match nextStateTable.lookup (current, transition) with
  | some next => .ok next
  | none => .error ⟨"transition '" ++ transition.text ++
      "' is not legal from state '" ++ current.text ++ "'"⟩

structure EventMeasurement where
  signalCount : ℤ := 0
  confidence : ℚ := 0
  linkRate24h : ℚ := 0
  baselineRate7d : ℚ := 0
  newActorOrGeo : Bool := false
  newLinkArrived : Bool := false
  silenceHours : ℚ := 0

def emergingAdvanceSignalCount : ℤ := 3
def developingAdvanceSignalCount : ℤ := 5
def developingAdvanceConfidence : ℚ := 6 / 10
def accelerateRateFactor : ℚ := 2
def stabiliseRateBand : ℚ × ℚ := (1 / 2, 2)
def emergingSilenceHours : ℚ := 48
def developingSilenceHours : ℚ := 72
def activeSilenceHours : ℚ := 7 * 24
def evolvingSilenceHours : ℚ := 7 * 24

def Activates (m : EventMeasurement) : Prop :=
  developingAdvanceSignalCount ≤ m.signalCount ∧ developingAdvanceConfidence ≤ m.confidence

def Accelerates (m : EventMeasurement) : Prop :=
  (accelerateRateFactor * m.baselineRate7d ≤ m.linkRate24h ∧
      0 < m.linkRate24h) ∨ m.newActorOrGeo = true

def Stabilises (m : EventMeasurement) : Prop :=
  stabiliseRateBand.1 * m.baselineRate7d ≤ m.linkRate24h ∧
    m.linkRate24h ≤ stabiliseRateBand.2 * m.baselineRate7d

instance (m : EventMeasurement) : Decidable (Activates m) :=
  inferInstanceAs (Decidable (_ ∧ _))

instance (m : EventMeasurement) : Decidable (Accelerates m) :=
  inferInstanceAs (Decidable (_ ∨ _))

instance (m : EventMeasurement) : Decidable (Stabilises m) :=
  inferInstanceAs (Decidable (_ ∧ _))

def evaluateTransition (current : LifecycleState) (m : EventMeasurement) :
    Option LifecycleTransition :=
  match current with
  | .resolved => if m.newLinkArrived then some .reactivated else none
  | .emerging =>
    if emergingSilenceHours ≤ m.silenceHours then some .resolved
    else if emergingAdvanceSignalCount ≤ m.signalCount then some .advanced
    else none
  | .developing =>
    if developingSilenceHours ≤ m.silenceHours then some .resolved
    else if Activates m then some .advanced
    else none
  | .active =>
    if activeSilenceHours ≤ m.silenceHours then some .resolved
    else if Accelerates m then some .accelerated
    else none
  | .evolving =>
    if evolvingSilenceHours ≤ m.silenceHours then some .resolved
    else if Stabilises m then some .stabilised
    else none

def tick (m : EventMeasurement) (current : LifecycleState) :
    Except EventTransitionError (Option LifecycleState) :=
  match evaluateTransition current m with
  | none => .ok none
  | some transition => (nextState current transition).map some

inductive Progress where
  | rested (state : LifecycleState)
  | moving (state : LifecycleState)
  deriving DecidableEq, Repr

def ticks (m : EventMeasurement) : ℕ → LifecycleState → Except EventTransitionError Progress
  | 0, current => .ok (.moving current)
  | count + 1, current =>
    match tick m current with
    | .error error => .error error
    | .ok none => .ok (.rested current)
    | .ok (some next) => ticks m count next

def NeverRaises (m : EventMeasurement) (current : LifecycleState) : Prop :=
  ∀ count, ∃ progress, ticks m count current = .ok progress

def Settles (m : EventMeasurement) (current : LifecycleState) : Prop :=
  ∃ count state, ticks m count current = .ok (.rested state)

def moved (m : EventMeasurement) : LifecycleState → Option LifecycleState
  | .resolved => if m.newLinkArrived then some .developing else none
  | .emerging =>
    if emergingSilenceHours ≤ m.silenceHours then some .resolved
    else if emergingAdvanceSignalCount ≤ m.signalCount then some .developing
    else none
  | .developing =>
    if developingSilenceHours ≤ m.silenceHours then some .resolved
    else if Activates m then some .active
    else none
  | .active =>
    if activeSilenceHours ≤ m.silenceHours then some .resolved
    else if Accelerates m then some .evolving
    else none
  | .evolving =>
    if evolvingSilenceHours ≤ m.silenceHours then some .resolved
    else if Stabilises m then some .active
    else none

theorem tick_eq (m : EventMeasurement) (current : LifecycleState) :
    tick m current = .ok (moved m current) := by
  cases current <;> simp only [tick, evaluateTransition, moved] <;> split_ifs <;> rfl

theorem ticks_succ (m : EventMeasurement) (count : ℕ) (current : LifecycleState) :
    ticks m (count + 1) current =
      match moved m current with
      | none => .ok (.rested current)
      | some next => ticks m count next := by
  rw [ticks, tick_eq]
  cases moved m current <;> rfl

theorem neverRaises (m : EventMeasurement) (current : LifecycleState) : NeverRaises m current := by
  intro count
  induction count generalizing current with
  | zero => exact ⟨_, rfl⟩
  | succ count ih =>
    rw [ticks_succ]
    cases moved m current with
    | none => exact ⟨_, rfl⟩
    | some next => exact ih next

/-! ## Measurements which never come to rest -/

def Swings (m : EventMeasurement) : Prop :=
  Accelerates m ∧ Stabilises m

def Reopens (m : EventMeasurement) : Prop :=
  m.newLinkArrived = true ∧ (developingSilenceHours ≤ m.silenceHours ∨ (Activates m ∧ Swings m))

def Cycles (m : EventMeasurement) : LifecycleState → Prop
  | .emerging =>
    if emergingSilenceHours ≤ m.silenceHours then Reopens m
    else Activates m ∧ Swings m
  | .developing =>
    if developingSilenceHours ≤ m.silenceHours then m.newLinkArrived = true
    else Activates m ∧ Swings m
  | .active =>
    if activeSilenceHours ≤ m.silenceHours then m.newLinkArrived = true
    else Swings m
  | .evolving =>
    if evolvingSilenceHours ≤ m.silenceHours then m.newLinkArrived = true
    else Swings m
  | .resolved => Reopens m

instance (m : EventMeasurement) : Decidable (Swings m) :=
  inferInstanceAs (Decidable (_ ∧ _))

instance (m : EventMeasurement) : Decidable (Reopens m) :=
  inferInstanceAs (Decidable (_ ∧ _))

variable {m : EventMeasurement} {current next : LifecycleState}

theorem developing_silence_of_active (hsilence : activeSilenceHours ≤ m.silenceHours) :
    developingSilenceHours ≤ m.silenceHours := by
  refine le_trans ?_ hsilence
  norm_num [developingSilenceHours, activeSilenceHours]

theorem emerging_silence_of_developing (hsilence : developingSilenceHours ≤ m.silenceHours) :
    emergingSilenceHours ≤ m.silenceHours := by
  refine le_trans ?_ hsilence
  norm_num [emergingSilenceHours, developingSilenceHours]

theorem advances_of_activates (hactivates : Activates m) :
    emergingAdvanceSignalCount ≤ m.signalCount := by
  refine le_trans ?_ hactivates.1
  norm_num [emergingAdvanceSignalCount, developingAdvanceSignalCount]

theorem cycles_developing_of_reopens (hreopens : Reopens m) : Cycles m .developing := by
  by_cases hsilence : developingSilenceHours ≤ m.silenceHours
  · simpa only [Cycles, if_pos hsilence] using hreopens.1
  · simpa only [Cycles, if_neg hsilence] using hreopens.2.resolve_left hsilence

theorem Cycles.moved (hcycles : Cycles m current) :
    ∃ next, moved m current = some next ∧ Cycles m next := by
  cases current with
  | emerging =>
    by_cases hsilence : emergingSilenceHours ≤ m.silenceHours
    · simp only [Cycles, if_pos hsilence] at hcycles
      exact ⟨.resolved, if_pos hsilence, hcycles⟩
    · simp only [Cycles, if_neg hsilence] at hcycles
      have hdeveloping : ¬developingSilenceHours ≤ m.silenceHours :=
        fun hlong => hsilence (emerging_silence_of_developing hlong)
      refine ⟨.developing, ?_, ?_⟩
      · simp only [EventLifecycle.moved, if_neg hsilence, if_pos (advances_of_activates hcycles.1)]
      · simpa only [Cycles, if_neg hdeveloping] using hcycles
  | developing =>
    by_cases hsilence : developingSilenceHours ≤ m.silenceHours
    · simp only [Cycles, if_pos hsilence] at hcycles
      exact ⟨.resolved, if_pos hsilence, hcycles, .inl hsilence⟩
    · simp only [Cycles, if_neg hsilence] at hcycles
      have hactive : ¬activeSilenceHours ≤ m.silenceHours :=
        fun hlong => hsilence (developing_silence_of_active hlong)
      refine ⟨.active, ?_, ?_⟩
      · simp only [EventLifecycle.moved, if_neg hsilence, if_pos hcycles.1]
      · simpa only [Cycles, if_neg hactive] using hcycles.2
  | active =>
    by_cases hsilence : activeSilenceHours ≤ m.silenceHours
    · simp only [Cycles, if_pos hsilence] at hcycles
      exact ⟨.resolved, if_pos hsilence, hcycles, .inl (developing_silence_of_active hsilence)⟩
    · simp only [Cycles, if_neg hsilence] at hcycles
      refine ⟨.evolving, ?_, ?_⟩
      · simp only [EventLifecycle.moved, if_neg hsilence, if_pos hcycles.1]
      · exact (if_neg hsilence).mpr hcycles
  | evolving =>
    by_cases hsilence : evolvingSilenceHours ≤ m.silenceHours
    · simp only [Cycles, if_pos hsilence] at hcycles
      exact ⟨.resolved, if_pos hsilence, hcycles, .inl (developing_silence_of_active hsilence)⟩
    · simp only [Cycles, if_neg hsilence] at hcycles
      refine ⟨.active, ?_, ?_⟩
      · simp only [EventLifecycle.moved, if_neg hsilence, if_pos hcycles.2]
      · exact (if_neg hsilence).mpr hcycles
  | resolved =>
    have hreopens : Reopens m := hcycles
    exact ⟨.developing, if_pos hreopens.1, cycles_developing_of_reopens hreopens⟩

theorem Cycles.ticks (hcycles : Cycles m current) (count : ℕ) :
    ∃ state, ticks m count current = .ok (.moving state) := by
  induction count generalizing current with
  | zero => exact ⟨current, rfl⟩
  | succ count ih =>
    obtain ⟨next, hmoved, hnext⟩ := hcycles.moved
    rw [ticks_succ, hmoved]
    exact ih hnext

theorem Cycles.not_settles (hcycles : Cycles m current) : ¬ Settles m current := by
  rintro ⟨count, state, hrested⟩
  obtain ⟨moving, hmoving⟩ := hcycles.ticks count
  cases hmoving.symm.trans hrested

/-! ## The others come to rest -/

/-- What is left to do for an event which does not cycle.  An active event
comes last where it does not accelerate, and an evolving one where it
does. -/
def rank (m : EventMeasurement) : LifecycleState → ℕ
  | .emerging => 5
  | .resolved => if m.newLinkArrived then 4 else 0
  | .developing => 3
  | .active => if Accelerates m then 2 else 1
  | .evolving => if Accelerates m then 1 else 2

section

variable (m : EventMeasurement)

theorem rank_active_bounds : 1 ≤ rank m .active ∧ rank m .active ≤ 2 := by
  simp only [rank]
  split_ifs <;> omega

theorem rank_evolving_bounds : 1 ≤ rank m .evolving ∧ rank m .evolving ≤ 2 := by
  simp only [rank]
  split_ifs <;> omega

theorem rank_resolved_le : rank m .resolved ≤ 4 := by
  simp only [rank]
  split_ifs <;> omega

theorem rank_le (current : LifecycleState) : rank m current ≤ 5 := by
  cases current with
  | emerging => exact le_refl 5
  | resolved => exact (rank_resolved_le m).trans (by omega)
  | developing => simp only [rank]; omega
  | active => exact (rank_active_bounds m).2.trans (by omega)
  | evolving => exact (rank_evolving_bounds m).2.trans (by omega)

end

theorem rank_resolved (hlink : ¬ m.newLinkArrived) : rank m .resolved = 0 ∧ ¬ Cycles m .resolved :=
  ⟨if_neg hlink, fun hreopens => hlink hreopens.1⟩

theorem not_cycles_moved (hcycles : ¬ Cycles m current) (hmoved : moved m current = some next) :
    ¬ Cycles m next ∧ rank m next < rank m current := by
  cases current with
  | emerging =>
    by_cases hsilence : emergingSilenceHours ≤ m.silenceHours
    · simp only [moved, if_pos hsilence, Option.some.injEq] at hmoved
      simp only [Cycles, if_pos hsilence] at hcycles
      subst hmoved
      exact ⟨hcycles, Nat.lt_succ_of_le (rank_resolved_le m)⟩
    · have hdeveloping : ¬developingSilenceHours ≤ m.silenceHours :=
        fun hlong => hsilence (emerging_silence_of_developing hlong)
      simp only [moved, if_neg hsilence] at hmoved
      simp only [Cycles, if_neg hsilence] at hcycles
      split_ifs at hmoved
      cases hmoved
      refine ⟨?_, by simp only [rank]; omega⟩
      simpa only [Cycles, if_neg hdeveloping] using hcycles
  | developing =>
    by_cases hsilence : developingSilenceHours ≤ m.silenceHours
    · simp only [moved, if_pos hsilence, Option.some.injEq] at hmoved
      simp only [Cycles, if_pos hsilence] at hcycles
      subst hmoved
      obtain ⟨hrank, hrest⟩ := rank_resolved hcycles
      refine ⟨hrest, ?_⟩
      rw [hrank, rank]
      omega
    · have hactive : ¬activeSilenceHours ≤ m.silenceHours :=
        fun hlong => hsilence (developing_silence_of_active hlong)
      simp only [moved, if_neg hsilence] at hmoved
      simp only [Cycles, if_neg hsilence] at hcycles
      split_ifs at hmoved with hactivates
      cases hmoved
      refine ⟨?_, ?_⟩
      · simp only [Cycles, if_neg hactive]
        exact fun hswings => hcycles ⟨hactivates, hswings⟩
      · exact Nat.lt_succ_of_le (rank_active_bounds m).2
  | active =>
    by_cases hsilence : activeSilenceHours ≤ m.silenceHours
    · simp only [moved, if_pos hsilence, Option.some.injEq] at hmoved
      simp only [Cycles, if_pos hsilence] at hcycles
      subst hmoved
      obtain ⟨hrank, hrest⟩ := rank_resolved hcycles
      refine ⟨hrest, ?_⟩
      rw [hrank]
      exact (rank_active_bounds m).1
    · simp only [moved, if_neg hsilence] at hmoved
      split_ifs at hmoved with haccelerates
      cases hmoved
      refine ⟨fun hnext => hcycles hnext, ?_⟩
      simp only [rank, if_pos haccelerates]
      omega
  | evolving =>
    by_cases hsilence : evolvingSilenceHours ≤ m.silenceHours
    · simp only [moved, if_pos hsilence, Option.some.injEq] at hmoved
      simp only [Cycles, if_pos hsilence] at hcycles
      subst hmoved
      obtain ⟨hrank, hrest⟩ := rank_resolved hcycles
      refine ⟨hrest, ?_⟩
      rw [hrank]
      exact (rank_evolving_bounds m).1
    · simp only [moved, if_neg hsilence] at hmoved
      simp only [Cycles, if_neg hsilence] at hcycles
      split_ifs at hmoved with hstabilises
      cases hmoved
      have haccelerates : ¬ Accelerates m := fun haccelerates => hcycles ⟨haccelerates, hstabilises⟩
      refine ⟨?_, ?_⟩
      · exact fun hnext => hcycles ((if_neg hsilence).mp hnext)
      · simp only [rank, if_neg haccelerates]
        omega
  | resolved =>
    simp only [moved] at hmoved
    split_ifs at hmoved with hlink
    cases hmoved
    refine ⟨?_, ?_⟩
    · intro hnext
      refine hcycles ⟨hlink, ?_⟩
      by_cases hsilence : developingSilenceHours ≤ m.silenceHours
      · exact .inl hsilence
      · exact .inr ((if_neg hsilence).mp hnext)
    · simp only [rank, if_pos hlink]
      omega

theorem rested_of_rank (hcycles : ¬ Cycles m current) {count : ℕ}
    (hcount : rank m current < count) : ∃ state, ticks m count current = .ok (.rested state) := by
  induction count generalizing current with
  | zero => omega
  | succ count ih =>
    rw [ticks_succ]
    cases hmoved : moved m current with
    | none => exact ⟨current, rfl⟩
    | some next =>
      obtain ⟨hnext, hrank⟩ := not_cycles_moved hcycles hmoved
      exact ih hnext (by omega)

/-- No tick raises, and the ticks come to rest, within six of them, unless
the measurement cycles. -/
theorem settles_iff (m : EventMeasurement) (current : LifecycleState) :
    NeverRaises m current ∧ (Settles m current ↔ ¬ Cycles m current) ∧
      (¬ Cycles m current → ∃ state, ticks m 6 current = .ok (.rested state)) := by
  have hrested : ¬ Cycles m current → ∃ state, ticks m 6 current = .ok (.rested state) := by
    intro hcycles
    exact rested_of_rank hcycles (Nat.lt_succ_of_le (rank_le m current))
  refine ⟨neverRaises m current, ⟨?_, ?_⟩, hrested⟩
  · exact fun hsettles hcycles => hcycles.not_settles hsettles
  · exact fun hcycles => ⟨6, hrested hcycles⟩

def doubled : EventMeasurement where
  signalCount := 168
  confidence := 7 / 10
  linkRate24h := 2
  baselineRate7d := 1

def relinked : EventMeasurement where
  signalCount := 3
  newLinkArrived := true
  silenceHours := 100

theorem not_settles_doubled :
    (¬ Settles doubled .active ∧ ¬ Settles doubled .evolving) ∧
      ¬ Settles relinked .resolved ∧ ¬ Settles relinked .developing := by
  have hactive : Cycles doubled .active := by
    norm_num [Cycles, Swings, Accelerates, Stabilises, doubled,
      activeSilenceHours, accelerateRateFactor, stabiliseRateBand]
  have hresolved : Cycles relinked .resolved := by
    norm_num [Cycles, Reopens, relinked, developingSilenceHours]
  exact ⟨⟨hactive.not_settles, Cycles.not_settles hactive⟩,
    hresolved.not_settles, (cycles_developing_of_reopens hresolved).not_settles⟩

end Legba.EventLifecycle
