import Mathlib.Data.Finset.Card
import Mathlib.Data.List.Chain
import Mathlib.Tactic.Linarith
import Legba.TriggerPolicy

/-!
# Sequential runs of the trigger kernel

Signals and cadence ticks of one pair are processed one at a time from the
zero accumulator: a counted signal and every tick evaluate the policy, and a
fire verdict resets the accumulator.  `KernelState` carries, beside the
accumulator, the history the accumulator is meant to summarise: the deliveries
since the last fire and the fires so far.
-/

namespace Legba.Trigger

open List Prod

variable {Id : Type} [DecidableEq Id]

theorem evictOldest_eq_drop (seenCap : ℕ) (order : List Id) (hnodup : order.Nodup) :
    evictOldest seenCap order.toFinset order =
      ((order.drop (order.length - seenCap)).toFinset,
        order.drop (order.length - seenCap)) := by
  induction order with
  | nil => simp [evictOldest]
  | cons oldest order ih =>
    obtain ⟨hoverlap, hrest⟩ := nodup_cons.mp hnodup
    unfold evictOldest
    split
    · rename_i hlong
      have hdrop : (oldest :: order).length - seenCap = (order.length - seenCap) + 1 := by
        simp only [length_cons] at hlong ⊢
        omega
      have herase : (oldest :: order).toFinset.erase oldest = order.toFinset := by
        simpa using hoverlap
      rw [herase, ih hrest, hdrop, drop_succ_cons]
    · rename_i hshort
      have hdrop : (oldest :: order).length - seenCap = 0 := by omega
      rw [hdrop, drop_zero]

/-- The seen set is the set of the insertion order, which has no duplicates
and respects the cap. -/
structure SeenInvariant (acc : TriggerAccumulator Id) : Prop where
  seen_eq : acc.seenSignalIds = acc.seenOrder.toFinset
  nodup : acc.seenOrder.Nodup
  length_le : acc.seenOrder.length ≤ acc.seenCap

theorem seenInvariant_zero (seenCap : ℕ) :
    SeenInvariant ({ seenCap := seenCap } : TriggerAccumulator Id) := by
  constructor <;> simp

theorem SeenInvariant.applyFire (acc : TriggerAccumulator Id)
    (firedAt : Datetime) : SeenInvariant (acc.applyFire firedAt) := by
  constructor <;> simp [TriggerAccumulator.applyFire]

variable {acc : TriggerAccumulator Id}

theorem SeenInvariant.applyDirty_seenOrder (hseen : SeenInvariant acc) {signalId : Id}
    (hfresh : signalId ∉ acc.seenSignalIds) (rank : ℤ) (now : Option Datetime) :
    (acc.applyDirty signalId rank now).1.seenOrder =
        (acc.seenOrder ++ [signalId]).drop (acc.seenOrder.length + 1 - acc.seenCap) ∧
      (acc.applyDirty signalId rank now).1.seenSignalIds =
        (acc.applyDirty signalId rank now).1.seenOrder.toFinset := by
  have hinsert : insert signalId acc.seenSignalIds = (acc.seenOrder ++ [signalId]).toFinset := by
    rw [hseen.seen_eq]
    ext other
    simp
  have hnodup : (acc.seenOrder ++ [signalId]).Nodup := by
    rw [hseen.seen_eq, mem_toFinset] at hfresh
    simpa [nodup_append] using ⟨hseen.nodup, fun other hother heq => hfresh (heq ▸ hother)⟩
  have hevict := evictOldest_eq_drop acc.seenCap _ hnodup
  rw [← hinsert, length_append, length_singleton] at hevict
  simp [TriggerAccumulator.applyDirty, hfresh, hevict]

theorem SeenInvariant.applyDirty (hseen : SeenInvariant acc) (signalId : Id) (rank : ℤ)
    (now : Option Datetime) : SeenInvariant (acc.applyDirty signalId rank now).1 := by
  by_cases hmem : signalId ∈ acc.seenSignalIds
  · rw [applyDirty_of_mem hmem]
    exact hseen
  · obtain ⟨horder, hset⟩ := hseen.applyDirty_seenOrder hmem rank now
    refine ⟨hset, ?_, ?_⟩
    · rw [horder]
      apply Nodup.sublist (drop_sublist _ _)
      rw [hseen.seen_eq, mem_toFinset] at hmem
      simpa [nodup_append] using ⟨hseen.nodup, fun other hother heq => hmem (heq ▸ hother)⟩
    · rw [horder, applyDirty_seenCap]
      simp only [length_drop, length_append, length_singleton]
      omega

def firstDeliveries (deliveries : List (Id × ℤ)) : List (Id × ℤ) :=
  deliveries.foldl
    (fun kept delivery =>
      if delivery.1 ∈ kept.map fst then kept else kept ++ [delivery]) []

def maxRank (ranks : List ℤ) : ℤ :=
  ranks.foldl max (-1)

theorem maxRank_append_singleton (ranks : List ℤ) (rank : ℤ) :
    maxRank (ranks ++ [rank]) = max (maxRank ranks) rank := by
  simp [maxRank]

theorem firstDeliveries_append_singleton (deliveries : List (Id × ℤ)) (delivery : Id × ℤ) :
    firstDeliveries (deliveries ++ [delivery]) =
      if delivery.1 ∈ (firstDeliveries deliveries).map fst then
        firstDeliveries deliveries
      else firstDeliveries deliveries ++ [delivery] := by
  unfold firstDeliveries
  rw [foldl_append]
  rfl

theorem firstDeliveries_ids (deliveries : List (Id × ℤ)) :
    ((firstDeliveries deliveries).map fst).Nodup ∧
      ((firstDeliveries deliveries).map fst).toFinset =
        (deliveries.map fst).toFinset := by
  induction deliveries using reverseRecOn with
  | nil => simp [firstDeliveries]
  | append_singleton deliveries delivery ih =>
    obtain ⟨hnodup, hset⟩ := ih
    rw [firstDeliveries_append_singleton]
    split
    · rename_i hold
      refine ⟨hnodup, ?_⟩
      rw [hset, map_append, toFinset_append]
      have hmem : delivery.1 ∈ (deliveries.map fst).toFinset := by
        rw [← hset]
        exact mem_toFinset.mpr hold
      rw [map_singleton, toFinset_cons, toFinset_nil,
        insert_empty_eq, Finset.union_eq_left.mpr (Finset.singleton_subset_iff.mpr hmem)]
    · rename_i hfresh
      refine ⟨?_, ?_⟩
      · rw [map_append, nodup_append]
        refine ⟨hnodup, by simp, ?_⟩
        intro other hother last hlast heq
        simp only [map_cons, map_nil, mem_singleton] at hlast
        exact hfresh (hlast ▸ heq ▸ hother)
      · rw [map_append, toFinset_append, hset, map_append, toFinset_append]

theorem card_deliveredIds (deliveries : List (Id × ℤ)) :
    (deliveries.map fst).toFinset.card = (firstDeliveries deliveries).length := by
  obtain ⟨hnodup, hset⟩ := firstDeliveries_ids deliveries
  rw [← hset, toFinset_card_of_nodup hnodup, length_map]

inductive KernelEvent (Id : Type) where
  | signal (canonicalId : Id) (severity : Option String) (now : Datetime)
  | cadenceTick (now : Datetime)
  deriving Repr

def KernelEvent.now : KernelEvent Id → Datetime
  | .signal _ _ now => now
  | .cadenceTick now => now

/-- A fire, with what the history and the accumulator said when it was
decided. -/
structure KernelFire where
  decision : TriggerDecision
  firedAt : Datetime
  previousFireAt : Option Datetime
  firstDirtyAt : Option Datetime
  deriving Repr

structure KernelState (Id : Type) where
  acc : TriggerAccumulator Id
  deliveries : List (Id × ℤ) := []
  fires : List KernelFire := []

def KernelState.initial (seenCap : ℕ) : KernelState Id where
  acc := { seenCap := seenCap }

def KernelState.lastFireAt (state : KernelState Id) : Option Datetime :=
  state.fires.getLast?.map KernelFire.firedAt

def KernelState.evaluate (policy : TriggerPolicy) (now : Datetime)
    (state : KernelState Id) : KernelState Id :=
  let decision := policy.decide state.acc now
  if decision.shouldFire then
    { acc := state.acc.applyFire now
      deliveries := []
      fires := state.fires ++
        [{ decision := decision
           firedAt := now
           previousFireAt := state.lastFireAt
           firstDirtyAt := state.acc.firstDirtyAt }] }
  else state

def KernelState.process (policy : TriggerPolicy) (state : KernelState Id) :
    KernelEvent Id → KernelState Id
  | .signal canonicalId severity now =>
    let rank := severityRank severity
    let (acc, counted) := state.acc.applyDirty canonicalId rank (some now)
    let dirtied : KernelState Id :=
      { state with
        acc := acc
        deliveries := state.deliveries ++ [(canonicalId, rank)] }
    if counted then dirtied.evaluate policy now else dirtied
  | .cadenceTick now => state.evaluate policy now

def KernelState.run (policy : TriggerPolicy) (seenCap : ℕ)
    (events : List (KernelEvent Id)) : KernelState Id :=
  events.foldl (KernelState.process policy) (KernelState.initial seenCap)

/-! ## The joint invariant of accumulator and history -/

/-- While the cap is not exceeded, the accumulator counts the distinct ids
delivered since the last fire and holds the maximum rank of their first
deliveries. -/
structure WindowInvariant (state : KernelState Id) : Prop where
  order_eq : (firstDeliveries state.deliveries).length ≤ state.acc.seenCap →
    state.acc.seenOrder = (firstDeliveries state.deliveries).map fst
  pending_eq : (firstDeliveries state.deliveries).length ≤ state.acc.seenCap →
    state.acc.pendingCount = (firstDeliveries state.deliveries).length
  rank_eq : (firstDeliveries state.deliveries).length ≤ state.acc.seenCap →
    state.acc.maxPendingRank = maxRank ((firstDeliveries state.deliveries).map snd)

def KernelFire.LlmGate (policy : TriggerPolicy) (fire : KernelFire) : Prop :=
  policy.minLlmBatch ≤ fire.decision.pendingCount ∨
    ∃ anchor, fire.previousFireAt.or fire.firstDirtyAt = some anchor ∧
      anchor + seconds policy.cadenceSeconds ≤ fire.firedAt

structure FireLaws (policy : TriggerPolicy) (fires : List KernelFire) : Prop where
  llmGate : policy.isLlm = true → policy.allowLlmSeverityWake = false →
    ∀ fire ∈ fires, fire.LlmGate policy
  cooldown : fires.IsChain fun fire later =>
    fire.firedAt + seconds policy.cooldownSeconds ≤ later.firedAt
  pending_ne_zero : ∀ fire ∈ fires, fire.decision.pendingCount ≠ 0

structure KernelInvariant (policy : TriggerPolicy) (seenCap : ℕ)
    (state : KernelState Id) : Prop where
  cap_eq : state.acc.seenCap = seenCap
  anchor_eq : state.acc.lastFiredAt = state.lastFireAt
  rank_le : state.acc.maxPendingRank ≤ 4
  seen : SeenInvariant state.acc
  window : WindowInvariant state
  laws : FireLaws policy state.fires

theorem KernelInvariant.initial (policy : TriggerPolicy) (seenCap : ℕ) :
    KernelInvariant policy seenCap (KernelState.initial seenCap : KernelState Id) := by
  refine ⟨rfl, rfl, by simp [KernelState.initial], seenInvariant_zero seenCap, ?_, ?_⟩
  · constructor <;> simp [KernelState.initial, firstDeliveries, maxRank]
  · constructor <;> simp [KernelState.initial]

variable {state : KernelState Id} {policy : TriggerPolicy} {seenCap : ℕ}
  {now : Datetime}

/-- Recording a delivery through `applyDirty` keeps the window invariant:
below the cap nothing is evicted, so the seen order is the list of distinct
ids. -/
theorem WindowInvariant.applyDirty (hwindow : WindowInvariant state)
    (hseen : SeenInvariant state.acc) (canonicalId : Id) (rank : ℤ) (now : Option Datetime) :
    WindowInvariant
      ({ state with
          acc := (state.acc.applyDirty canonicalId rank now).1
          deliveries := state.deliveries ++ [(canonicalId, rank)] } :
        KernelState Id) := by
  have hbelow :
      (firstDeliveries (state.deliveries ++ [(canonicalId, rank)])).length ≤ state.acc.seenCap →
        (firstDeliveries state.deliveries).length ≤ state.acc.seenCap := by
    rw [firstDeliveries_append_singleton]
    split
    · exact id
    · simp only [length_append, length_singleton]
      omega
  have hknown : (firstDeliveries state.deliveries).length ≤ state.acc.seenCap →
      (canonicalId ∈ state.acc.seenSignalIds ↔
        canonicalId ∈ (firstDeliveries state.deliveries).map fst) := by
    intro hcap
    rw [hseen.seen_eq, hwindow.order_eq hcap, mem_toFinset]
  by_cases hmem : canonicalId ∈ state.acc.seenSignalIds
  · rw [applyDirty_of_mem hmem]
    have hsame : (firstDeliveries
          (state.deliveries ++ [(canonicalId, rank)])).length ≤
          state.acc.seenCap →
        firstDeliveries (state.deliveries ++ [(canonicalId, rank)]) =
          firstDeliveries state.deliveries := by
      intro hcap
      rw [firstDeliveries_append_singleton, if_pos ((hknown (hbelow hcap)).mp hmem)]
    refine ⟨?_, ?_, ?_⟩ <;> intro hcap <;> dsimp only at hcap ⊢ <;> rw [hsame hcap]
    · exact hwindow.order_eq (hbelow hcap)
    · exact hwindow.pending_eq (hbelow hcap)
    · exact hwindow.rank_eq (hbelow hcap)
  · obtain ⟨horder, _⟩ := hseen.applyDirty_seenOrder hmem rank now
    have hgrown : (firstDeliveries
          (state.deliveries ++ [(canonicalId, rank)])).length ≤
          state.acc.seenCap →
        firstDeliveries (state.deliveries ++ [(canonicalId, rank)]) =
          firstDeliveries state.deliveries ++ [(canonicalId, rank)] := by
      intro hcap
      rw [firstDeliveries_append_singleton, if_neg (mt (hknown (hbelow hcap)).mpr hmem)]
    refine ⟨?_, ?_, ?_⟩ <;> intro hcap <;> dsimp only at hcap ⊢ <;> rw [applyDirty_seenCap] at hcap
    · have hlength := hcap
      rw [hgrown hcap, length_append, length_singleton] at hlength
      rw [horder, hgrown hcap, hwindow.order_eq (hbelow hcap), length_map,
        Nat.sub_eq_zero_of_le hlength, drop_zero, map_append]
      rfl
    · rw [hgrown hcap, length_append, length_singleton, ← hwindow.pending_eq (hbelow hcap)]
      exact applyDirty_pendingCount_of_counted ((applyDirty_counted_iff _ _ _ _).mpr hmem)
    · rw [hgrown hcap, map_append, map_singleton,
        maxRank_append_singleton, ← hwindow.rank_eq (hbelow hcap)]
      simp [TriggerAccumulator.applyDirty, hmem]

theorem applyDirty_maxPendingRank_le (hrank : acc.maxPendingRank ≤ 4)
    (signalId : Id) (severity : Option String) (now : Option Datetime) :
    (acc.applyDirty signalId (severityRank severity) now).1.maxPendingRank ≤ 4 := by
  have hle := severityRank_le severity
  unfold TriggerAccumulator.applyDirty
  split
  · exact hrank
  · exact max_le hrank hle

section

variable (hinv : KernelInvariant policy seenCap state)

include hinv

theorem KernelInvariant.applyDirty (canonicalId : Id) (severity : Option String)
    (now : Option Datetime) :
    KernelInvariant policy seenCap
      ({ state with
          acc := (state.acc.applyDirty canonicalId
            (severityRank severity) now).1
          deliveries := state.deliveries ++
            [(canonicalId, severityRank severity)] } : KernelState Id) where
  cap_eq := (applyDirty_seenCap _ _ _ _).trans hinv.cap_eq
  anchor_eq := (applyDirty_lastFiredAt _ _ _ _).trans hinv.anchor_eq
  rank_le := applyDirty_maxPendingRank_le hinv.rank_le _ _ _
  seen := hinv.seen.applyDirty _ _ _
  window := hinv.window.applyDirty hinv.seen _ _ _
  laws := hinv.laws

theorem llmGate_of_fire (hfire : (policy.decide state.acc now).shouldFire = true)
    (hllm : policy.isLlm) (hwake : policy.allowLlmSeverityWake = false) :
    KernelFire.LlmGate policy
      { decision := policy.decide state.acc now
        firedAt := now
        previousFireAt := state.lastFireAt
        firstDirtyAt := state.acc.firstDirtyAt } := by
  obtain ⟨_, _, hgate | hgate | hgate⟩ := decide_fire_cases hfire
  · have hrank := hinv.rank_le
    rw [policy.severityGateRank_of_llm hllm hwake] at hgate
    omega
  · left
    rw [decide_pendingCount]
    exact (policy.minLlmBatch_le_effectiveAccumulation hllm).trans hgate
  · right
    obtain ⟨_, anchor, hanchor, hdue⟩ := cadenceDue_eq_true_iff.mp hgate
    refine ⟨anchor, ?_, hdue⟩
    rw [← hanchor, TriggerAccumulator.cadenceAnchor, hinv.anchor_eq]

section

variable (hclock : ∀ fire ∈ state.fires, fire.firedAt ≤ now)

include hclock

theorem cooldown_of_fire (hfire : (policy.decide state.acc now).shouldFire = true)
    {last : KernelFire} (hlast : state.fires.getLast? = some last) :
    last.firedAt + seconds policy.cooldownSeconds ≤ now := by
  obtain ⟨hcooling, _, _⟩ := decide_fire_cases hfire
  by_cases hcooldown : 0 < policy.cooldownSeconds
  · apply coolingDown_eq_false_iff.mp hcooling _ ?_ hcooldown
    rw [hinv.anchor_eq, KernelState.lastFireAt, hlast, Option.map_some]
  · have hle := hclock last (mem_of_getLast? hlast)
    have hnonpos := seconds_nonpos (not_lt.mp hcooldown)
    linarith

theorem FireLaws.append (hfire : (policy.decide state.acc now).shouldFire = true) :
    FireLaws policy (state.fires ++
      [{ decision := policy.decide state.acc now
         firedAt := now
         previousFireAt := state.lastFireAt
         firstDirtyAt := state.acc.firstDirtyAt }]) := by
  refine ⟨?_, ?_, ?_⟩
  · intro hllm hwake fire hmem
    rcases mem_append.mp hmem with hold | hnew
    · exact hinv.laws.llmGate hllm hwake fire hold
    · rw [mem_singleton.mp hnew]
      exact llmGate_of_fire hinv hfire hllm hwake
  · rw [isChain_append]
    refine ⟨hinv.laws.cooldown, by simp, ?_⟩
    intro last hlast first hfirst
    simp only [head?_cons, Option.mem_def, Option.some.injEq] at hfirst
    subst first
    exact cooldown_of_fire hinv hclock hfire hlast
  · intro fire hmem
    rcases mem_append.mp hmem with hold | hnew
    · exact hinv.laws.pending_ne_zero fire hold
    · rw [mem_singleton.mp hnew]
      simp only [decide_pendingCount]
      exact (decide_fire_cases hfire).2.1.ne'

theorem KernelInvariant.evaluate : KernelInvariant policy seenCap (state.evaluate policy now) := by
  unfold KernelState.evaluate
  dsimp only
  split
  · rename_i hfire
    refine ⟨hinv.cap_eq, ?_, ?_, SeenInvariant.applyFire _ _, ?_, FireLaws.append hinv hclock hfire⟩
    · simp [KernelState.lastFireAt]
    · simp [TriggerAccumulator.applyFire]
    · constructor <;> simp [TriggerAccumulator.applyFire, firstDeliveries, maxRank]
  · exact hinv

end

end

omit [DecidableEq Id] in
theorem evaluate_firedAt_le (hclock : ∀ fire ∈ state.fires, fire.firedAt ≤ now) :
    ∀ fire ∈ (state.evaluate policy now).fires, fire.firedAt ≤ now := by
  unfold KernelState.evaluate
  dsimp only
  split
  · intro fire hmem
    rcases mem_append.mp hmem with hold | hnew
    · exact hclock fire hold
    · rw [mem_singleton.mp hnew]
  · exact hclock

theorem KernelInvariant.process (hinv : KernelInvariant policy seenCap state)
    (event : KernelEvent Id) (hclock : ∀ fire ∈ state.fires, fire.firedAt ≤ event.now) :
    KernelInvariant policy seenCap (state.process policy event) ∧
      ∀ fire ∈ (state.process policy event).fires, fire.firedAt ≤ event.now := by
  cases event with
  | signal canonicalId severity now =>
    have hdirty := hinv.applyDirty canonicalId severity (some now)
    simp only [KernelState.process]
    split
    · exact ⟨hdirty.evaluate hclock, evaluate_firedAt_le hclock⟩
    · exact ⟨hdirty, hclock⟩
  | cadenceTick now => exact ⟨hinv.evaluate hclock, evaluate_firedAt_le hclock⟩

theorem KernelInvariant.foldl (hinv : KernelInvariant policy seenCap state)
    (events : List (KernelEvent Id))
    (hsorted : events.Pairwise fun event later => event.now ≤ later.now)
    (hclock : ∀ event ∈ events, ∀ fire ∈ state.fires, fire.firedAt ≤ event.now) :
    KernelInvariant policy seenCap (events.foldl (KernelState.process policy) state) := by
  induction events generalizing state with
  | nil => exact hinv
  | cons event rest ih =>
    obtain ⟨hlater, hrest⟩ := pairwise_cons.mp hsorted
    obtain ⟨hnext, hfires⟩ := hinv.process event (hclock event mem_cons_self)
    apply ih hnext hrest
    intro later hmem fire hfire
    exact (hfires fire hfire).trans (hlater later hmem)

theorem run_kernelInvariant (policy : TriggerPolicy) (seenCap : ℕ) (events : List (KernelEvent Id))
    (hsorted : events.Pairwise fun event later => event.now ≤ later.now) :
    KernelInvariant policy seenCap (KernelState.run policy seenCap events) :=
  (KernelInvariant.initial policy seenCap).foldl events hsorted (by simp [KernelState.initial])

structure WindowAccount (state : KernelState Id) : Prop where
  pendingCount_eq : state.acc.pendingCount = (state.deliveries.map fst).toFinset.card
  maxPendingRank_eq : state.acc.maxPendingRank =
    maxRank ((firstDeliveries state.deliveries).map snd)
  seenSignalIds_eq : state.acc.seenSignalIds = state.acc.seenOrder.toFinset
  seenOrder_nodup : state.acc.seenOrder.Nodup
  seenOrder_length_le : state.acc.seenOrder.length ≤ state.acc.seenCap

theorem KernelInvariant.windowAccount (hinv : KernelInvariant policy seenCap state)
    (hfew : (state.deliveries.map fst).toFinset.card < seenCap) : WindowAccount state := by
  have hcap : (firstDeliveries state.deliveries).length ≤ state.acc.seenCap := by
    rw [hinv.cap_eq, ← card_deliveredIds]
    exact hfew.le
  exact ⟨(hinv.window.pending_eq hcap).trans (card_deliveredIds _).symm, hinv.window.rank_eq hcap,
    hinv.seen.seen_eq, hinv.seen.nodup, hinv.seen.length_le⟩

/-- Every sequential run: LLM fires rest on a batch or on an elapsed cadence,
consecutive fires keep the cooldown, no fire is empty, and below the cap the
accumulator is the account of its window.  The rank is the maximum over the
first delivery of each id: a later delivery of a known id changes nothing. -/
theorem sequential_run_laws (policy : TriggerPolicy) (seenCap : ℕ) (events : List (KernelEvent Id))
    (hsorted : events.Pairwise fun event later => event.now ≤ later.now) :
    FireLaws policy (KernelState.run policy seenCap events).fires ∧
      (((KernelState.run policy seenCap events).deliveries.map fst).toFinset.card < seenCap →
        WindowAccount (KernelState.run policy seenCap events)) :=
  ⟨(run_kernelInvariant policy seenCap events hsorted).laws,
    (run_kernelInvariant policy seenCap events hsorted).windowAccount⟩

/-- Two fires a minute apart under a sixty-second cooldown, with one signal
pending afterwards. -/
theorem sequential_run_laws_two_fires :
    let policy : TriggerPolicy := { accumulationThreshold := 2
                                    cooldownSeconds := 60 }
    let state := KernelState.run policy 10000
      [.signal "a" (some "low") 0, .signal "b" none 1,
        .signal "a" none 2, .signal "c" (some "high") 3,
        .cadenceTick (seconds 60 + 1), .signal "a" (some "medium") (seconds 61)]
    state.fires.length = 2 ∧ FireLaws policy state.fires ∧ WindowAccount state := by
  intro policy state
  have hlaws := sequential_run_laws policy 10000
    [.signal "a" (some "low") 0, .signal "b" none 1,
      .signal "a" none 2, .signal "c" (some "high") 3,
      .cadenceTick (seconds 60 + 1), .signal "a" (some "medium") (seconds 61)]
    (by decide)
  exact ⟨by decide, hlaws.1, hlaws.2 (by decide)⟩

/-- A later delivery of a known id with a higher severity is not counted, so
the pending rank is not the maximum over all deliveries of the window. -/
theorem maxPendingRank_ne_maxRank_deliveries :
    ¬ ∀ (policy : TriggerPolicy) (seenCap : ℕ) (events : List (KernelEvent String)),
      (events.Pairwise fun event later => event.now ≤ later.now) →
      ((KernelState.run policy seenCap events).deliveries.map
        fst).toFinset.card < seenCap →
      (KernelState.run policy seenCap events).acc.maxPendingRank =
        maxRank ((KernelState.run policy seenCap events).deliveries.map snd) := by
  intro hall
  have hrank := hall { accumulationThreshold := 5 } 10000
    [.signal "a" (some "low") 0, .signal "a" (some "critical") 1]
    (by decide) (by decide)
  revert hrank
  decide

end Legba.Trigger
