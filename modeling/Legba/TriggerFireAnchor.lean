import Mathlib.Tactic.Linarith
import Legba.TriggerPendingAccounting

/-!
# The fire anchor as a compare-and-set token

`claim_fire` compares and sets `last_fired_at`, so a win consumes the anchor
it expected and installs its own `fired_at`.  No anchor is consumed twice as
long as every win installs an instant the column has not held before.  A
positive cooldown enforces this: a win then lies a whole cooldown after the
anchor it consumes.  Without one, two wins may share an instant.
-/

namespace Legba.Trigger

open TriggerStateStore LabelledRun List

variable {Worker : Type} [DecidableEq Worker]

/-! ## What a step does to the anchor -/

variable {system next : TriggerSystem Worker} {coalescer : Coalescer}
  {label : TriggerLabel Worker}

theorem forall_become {Q : Coroutine → Prop} (hall : ∀ worker, Q (system.coroutines worker))
    (worker : Worker) {coroutine : Coroutine} (hnew : Q coroutine) :
    ∀ other, Q ((system.become worker coroutine).coroutines other) := by
  intro other
  by_cases hother : other = worker
  · subst other
    simpa [TriggerSystem.become] using hnew
  · simpa [TriggerSystem.become, Function.update_of_ne hother] using hall other

def Coroutine.SavesNoAnchor : Coroutine → Prop
  | .dirtied newAcc _ _ _ => newAcc.lastFiredAt = none
  | _ => True

def Coroutine.ClaimDecided (policy : TriggerPolicy) : Coroutine → Prop
  | .claiming acc _ _ now _ => (policy.decide acc now).shouldFire = true
  | _ => True

section

variable (coalescer : Coalescer) (acc : TriggerAccumulator (Option Uuid))
  (tenant : String) (now : Datetime) (signalIds : List (Option Uuid))

theorem savesNoAnchor_maybeFire : (coalescer.maybeFire acc tenant now signalIds).SavesNoAnchor := by
  rcases coalescer.maybeFire_cases acc tenant now signalIds with
    ⟨hstate, _⟩ | ⟨hstate, _⟩ <;> rw [hstate] <;> trivial

theorem claimDecided_maybeFire :
    (coalescer.maybeFire acc tenant now signalIds).ClaimDecided coalescer.policy := by
  rcases coalescer.maybeFire_cases acc tenant now signalIds with ⟨hstate, _⟩ | ⟨hstate, hfire⟩
  · rw [hstate]
    trivial
  · rw [hstate]
    exact hfire

end

theorem savesNoAnchor_start (task : CoalescerTask) : task.start.SavesNoAnchor := by
  rcases task.start_cases with ⟨_, _, _, _, hstate⟩ | ⟨_, hstate⟩ | hstate <;>
    rw [hstate] <;> trivial

theorem claimDecided_start (policy : TriggerPolicy) (task : CoalescerTask) :
    task.start.ClaimDecided policy := by
  rcases task.start_cases with ⟨_, _, _, _, hstate⟩ | ⟨_, hstate⟩ | hstate <;>
    rw [hstate] <;> trivial

/-- Before the row exists nobody holds an anchor, and every claim in progress
was decided by the policy. -/
structure CoroutineInvariant (coalescer : Coalescer) (system : TriggerSystem Worker) : Prop where
  insert_none : system.row = none → ∀ worker, (system.coroutines worker).SavesNoAnchor
  claims_decided : ∀ worker, (system.coroutines worker).ClaimDecided coalescer.policy

theorem CoroutineInvariant.step (hinv : CoroutineInvariant coalescer system)
    (hstep : coalescer.step system label = some next) : CoroutineInvariant coalescer next := by
  cases Coalescer.step_transition hstep with
  | started worker task hworker =>
    exact ⟨fun hnone => forall_become (hinv.insert_none hnone) worker (savesNoAnchor_start task),
      forall_become hinv.claims_decided worker (claimDecided_start _ task)⟩
  | counted worker canon sev tenant now hworker hcounted =>
    refine ⟨fun hnone => forall_become (hinv.insert_none hnone) worker ?_,
      forall_become hinv.claims_decided worker trivial⟩
    have hrow : system.row = none := hnone
    change (TriggerAccumulator.applyDirty _ _ _ _).1.lastFiredAt = none
    rw [applyDirty_lastFiredAt, get_lastFiredAt, hrow]
    rfl
  | duplicate worker canon sev tenant now hworker =>
    exact ⟨fun hnone => forall_become (hinv.insert_none hnone) worker trivial,
      forall_become hinv.claims_decided worker trivial⟩
  | tickRead worker tenant now hworker =>
    exact ⟨fun hnone => forall_become (hinv.insert_none hnone) worker (savesNoAnchor_maybeFire ..),
      forall_become hinv.claims_decided worker (claimDecided_maybeFire ..)⟩
  | saved worker newAcc canon tenant now hworker =>
    exact ⟨fun hnone => by contradiction,
      forall_become hinv.claims_decided worker (claimDecided_maybeFire ..)⟩
  | listed worker withinLimit tenant now hworker =>
    exact ⟨fun hnone => forall_become (hinv.insert_none hnone) worker trivial,
      forall_become hinv.claims_decided worker trivial⟩
  | skipped worker withinLimit now hworker =>
    exact ⟨fun hnone => forall_become (hinv.insert_none hnone) worker trivial,
      forall_become hinv.claims_decided worker trivial⟩
  | won worker acc decision tenant now signalIds hworker hwon =>
    exact ⟨fun hnone => by contradiction, forall_become hinv.claims_decided worker trivial⟩
  | lost worker acc decision tenant now signalIds hworker hlost =>
    exact ⟨fun hnone => by contradiction, forall_become hinv.claims_decided worker trivial⟩
  | dispatched worker fire hworker =>
    exact ⟨fun hnone => forall_become (hinv.insert_none hnone) worker trivial,
      forall_become hinv.claims_decided worker trivial⟩

omit [DecidableEq Worker] in
theorem coroutineInvariant_initial (coalescer : Coalescer) :
    CoroutineInvariant coalescer (TriggerSystem.initial Worker) :=
  ⟨fun _ _ => trivial, fun _ => trivial⟩

theorem anchor_step (hinv : CoroutineInvariant coalescer system)
    (hstep : coalescer.step system label = some next) :
    (next.wins = system.wins ∧ lastFiredAt next.row = lastFiredAt system.row) ∨
    ∃ worker acc decision tenant now signalIds,
      label = .claimFire worker ∧
      system.coroutines worker = .claiming acc decision tenant now signalIds ∧
      acc.lastFiredAt = lastFiredAt system.row ∧
      next.wins = system.wins ++ [(lastFiredAt system.row,
        coalescer.fireOf decision tenant now signalIds)] ∧
      lastFiredAt next.row = some now := by
  cases Coalescer.step_transition hstep with
  | started => exact .inl ⟨rfl, rfl⟩
  | counted => exact .inl ⟨rfl, rfl⟩
  | duplicate => exact .inl ⟨rfl, rfl⟩
  | tickRead => exact .inl ⟨rfl, rfl⟩
  | listed => exact .inl ⟨rfl, rfl⟩
  | skipped => exact .inl ⟨rfl, rfl⟩
  | dispatched => exact .inl ⟨rfl, rfl⟩
  | saved worker newAcc canon tenant now hworker =>
    refine .inl ⟨rfl, lastFiredAt_saveDirty ?_ tenant⟩
    intro hnone
    have hsaves := hinv.insert_none hnone worker
    rw [hworker] at hsaves
    exact hsaves
  | lost worker acc decision tenant now signalIds hworker hlost =>
    exact .inl ⟨rfl, (claimFire_lost hlost).2⟩
  | won worker acc decision tenant now signalIds hworker hwon =>
    have hanchor := (claimFire_won_iff _ _ _).mp hwon
    refine .inr ⟨worker, acc, decision, tenant, now, signalIds, rfl, hworker,
      hanchor.symm, ?_, (claimFire_won hwon).2⟩
    rw [hanchor]

def TriggerSystem.consumed (system : TriggerSystem Worker) : List (Option Datetime) :=
  system.wins.map Prod.fst

/-- A winning `claim_fire` installs an instant the anchor column has not held
before. -/
def WritesFreshAnchor (system : TriggerSystem Worker)
    (label : TriggerLabel Worker) (_next : TriggerSystem Worker) : Prop :=
  match label with
  | .claimFire worker =>
    match system.coroutines worker with
    | .claiming acc _ _ now _ =>
      lastFiredAt system.row = acc.lastFiredAt →
        some now ∉ lastFiredAt system.row :: system.consumed
    | _ => True
  | _ => True

structure UnconsumedAnchor (coalescer : Coalescer) (system : TriggerSystem Worker) : Prop where
  coroutines : CoroutineInvariant coalescer system
  nodup : system.consumed.Nodup
  current : lastFiredAt system.row ∉ system.consumed

theorem UnconsumedAnchor.step (hinv : UnconsumedAnchor coalescer system)
    (hstep : coalescer.step system label = some next)
    (hfresh : WritesFreshAnchor system label next) : UnconsumedAnchor coalescer next := by
  refine ⟨hinv.coroutines.step hstep, ?_, ?_⟩ <;>
    rcases anchor_step hinv.coroutines hstep with
      ⟨hwins, hanchor⟩ | ⟨worker, acc, decision, tenant, now, signalIds, hlabel,
        hworker, hexpected, hwins, hanchor⟩ <;>
    simp only [TriggerSystem.consumed, hwins, hanchor]
  · exact hinv.nodup
  · rw [map_append, map_singleton, nodup_append]
    refine ⟨hinv.nodup, by simp, ?_⟩
    intro earlier hearlier last hlast heq
    rw [mem_singleton] at hlast
    rw [heq, hlast] at hearlier
    exact hinv.current hearlier
  · exact hinv.current
  · simp only [hlabel, WritesFreshAnchor, hworker] at hfresh
    have hnew := hfresh hexpected.symm
    rw [mem_cons, not_or] at hnew
    rw [map_append, map_singleton, mem_append, not_or, mem_singleton]
    exact ⟨hnew.2, hnew.1⟩

omit [DecidableEq Worker] in
theorem unconsumedAnchor_initial (coalescer : Coalescer) :
    UnconsumedAnchor coalescer (TriggerSystem.initial Worker) :=
  ⟨coroutineInvariant_initial coalescer, by
    simp [TriggerSystem.consumed, TriggerSystem.initial], by
    simp [TriggerSystem.consumed, TriggerSystem.initial]⟩

/-! ## A positive cooldown makes every anchor fresh -/

/-- Successive wins lie a cooldown apart, and the anchor is the last win. -/
structure SpacedWins (coalescer : Coalescer) (system : TriggerSystem Worker) : Prop where
  coroutines : CoroutineInvariant coalescer system
  anchor_eq : lastFiredAt system.row = system.wins.getLast?.map fun win => win.2.firedAt
  spaced : system.wins.Pairwise fun win later =>
    win.2.firedAt + seconds coalescer.policy.cooldownSeconds ≤ later.2.firedAt
  consumed_fired : ∀ win ∈ system.wins, ∀ instant, win.1 = some instant →
    ∃ earlier ∈ system.wins, earlier.2.firedAt = instant

omit [DecidableEq Worker] in
theorem SpacedWins.cooldown_le (hcooldown : 0 < coalescer.policy.cooldownSeconds)
    (hinv : SpacedWins coalescer system) {worker : Worker} {acc : TriggerAccumulator (Option Uuid)}
    {decision : TriggerDecision} {tenant : String} {now : Datetime} {signalIds : List (Option Uuid)}
    (hworker : system.coroutines worker = .claiming acc decision tenant now signalIds)
    (hexpected : acc.lastFiredAt = lastFiredAt system.row) :
    ∀ win ∈ system.wins, win.2.firedAt + seconds coalescer.policy.cooldownSeconds ≤ now := by
  have hdecided := hinv.coroutines.claims_decided worker
  rw [hworker] at hdecided
  have hcooling := (decide_fire_cases hdecided).1
  have hnonneg := seconds_nonneg hcooldown.le
  intro win hwin
  cases hlast : system.wins.getLast? with
  | none =>
    rw [getLast?_eq_none_iff.mp hlast] at hwin
    simp at hwin
  | some last =>
    have hdue : last.2.firedAt + seconds coalescer.policy.cooldownSeconds ≤ now := by
      apply coolingDown_eq_false_iff.mp hcooling _ ?_ hcooldown
      rw [hexpected, hinv.anchor_eq, hlast, Option.map_some]
    obtain ⟨before, hsplit⟩ := getLast?_eq_some_iff.mp hlast
    have hspaced := hinv.spaced
    rw [hsplit, pairwise_append] at hspaced
    rw [hsplit, mem_append, mem_singleton] at hwin
    rcases hwin with hearlier | hsame
    · have hle := hspaced.2.2 win hearlier last (by simp)
      linarith
    · rw [hsame]
      exact hdue

omit [DecidableEq Worker] in
theorem SpacedWins.writesFreshAnchor (hcooldown : 0 < coalescer.policy.cooldownSeconds)
    (hinv : SpacedWins coalescer system) : WritesFreshAnchor system label next := by
  unfold WritesFreshAnchor
  split
  · split
    · rename_i worker _ acc decision tenant now signalIds hworker
      intro hexpected
      have hlate := hinv.cooldown_le hcooldown hworker hexpected.symm
      have hpos := seconds_pos hcooldown
      have hnotFired : ∀ win ∈ system.wins, win.2.firedAt ≠ now := by
        intro win hwin heq
        have hle := hlate win hwin
        linarith
      rw [mem_cons, not_or]
      constructor
      · rw [hinv.anchor_eq]
        intro heq
        obtain ⟨last, hlast, hfired⟩ := Option.map_eq_some_iff.mp heq.symm
        exact hnotFired last (mem_of_getLast? hlast) hfired
      · intro hmem
        obtain ⟨win, hwin, heq⟩ := mem_map.mp hmem
        obtain ⟨earlier, hearlier, hfired⟩ := hinv.consumed_fired win hwin now heq
        exact hnotFired earlier hearlier hfired
    · trivial
  · trivial

theorem SpacedWins.step (hcooldown : 0 < coalescer.policy.cooldownSeconds)
    (hinv : SpacedWins coalescer system) (hstep : coalescer.step system label = some next) :
    SpacedWins coalescer next := by
  have hcoroutines := hinv.coroutines.step hstep
  rcases anchor_step hinv.coroutines hstep with
    ⟨hwins, hanchor⟩ | ⟨worker, acc, decision, tenant, now, signalIds, hlabel,
      hworker, hexpected, hwins, hanchor⟩
  · refine ⟨hcoroutines, ?_, ?_, ?_⟩
    · rw [hanchor, hwins, hinv.anchor_eq]
    · rw [hwins]
      exact hinv.spaced
    · rw [hwins]
      exact hinv.consumed_fired
  · have hlate := hinv.cooldown_le hcooldown hworker hexpected
    refine ⟨hcoroutines, ?_, ?_, ?_⟩
    · rw [hanchor, hwins, getLast?_concat]
      rfl
    · rw [hwins, pairwise_append]
      refine ⟨hinv.spaced, by simp, ?_⟩
      intro win hwin last hlast
      rw [mem_singleton.mp hlast]
      exact hlate win hwin
    · rw [hwins]
      intro win hwin instant heq
      rw [mem_append, mem_singleton] at hwin
      rcases hwin with hold | hnew
      · obtain ⟨earlier, hearlier, hfired⟩ := hinv.consumed_fired win hold instant heq
        exact ⟨earlier, mem_append_left _ hearlier, hfired⟩
      · rw [hnew, hinv.anchor_eq] at heq
        obtain ⟨last, hlast, hfired⟩ := Option.map_eq_some_iff.mp heq
        exact ⟨last, mem_append_left _ (mem_of_getLast? hlast), hfired⟩

omit [DecidableEq Worker] in
theorem spacedWins_initial (coalescer : Coalescer) :
    SpacedWins coalescer (TriggerSystem.initial Worker) := by
  refine ⟨coroutineInvariant_initial coalescer, rfl, ?_, ?_⟩ <;> simp [TriggerSystem.initial]

def Apart (policy : TriggerPolicy) (fire other : TriggerFire) : Prop :=
  fire.firedAt + seconds policy.cooldownSeconds ≤ other.firedAt ∨
    other.firedAt + seconds policy.cooldownSeconds ≤ fire.firedAt

omit [DecidableEq Worker] in
theorem dispatched_apart [Fintype Worker] (hfires : system.FiresConserved)
    (hinv : SpacedWins coalescer system) : system.dispatched.Pairwise (Apart coalescer.policy) := by
  have hwins : (system.wins.map Prod.snd).Pairwise (Apart coalescer.policy) := by
    rw [pairwise_map]
    exact hinv.spaced.imp fun hle => .inl hle
  have hle : (system.dispatched : Multiset TriggerFire) ≤
      (system.wins.map Prod.snd : List TriggerFire) := by
    rw [← hfires]
    exact Multiset.le_add_right _ _
  obtain ⟨fires, hperm, hsub⟩ := Multiset.coe_le.mp hle
  exact (hperm.pairwise_iff fun hapart => hapart.symm).mp (hwins.sublist hsub)

/-- In a run whose wins install fresh instants no anchor value is consumed
twice.  A positive cooldown is enough for that, and it keeps any two
dispatched fires a cooldown apart. -/
theorem anchor_consumed_at_most_once [Fintype Worker] (coalescer : Coalescer)
    (labels : List (TriggerLabel Worker)) (final : TriggerSystem Worker)
    (hrun : run coalescer.step (TriggerSystem.initial Worker) labels = some final) :
    (StepsSatisfy coalescer.step WritesFreshAnchor
        (TriggerSystem.initial Worker) labels → final.consumed.Nodup) ∧
    (0 < coalescer.policy.cooldownSeconds →
      final.consumed.Nodup ∧ final.dispatched.Pairwise (Apart coalescer.policy)) := by
  have hfresh : StepsSatisfy coalescer.step WritesFreshAnchor
      (TriggerSystem.initial Worker) labels → final.consumed.Nodup :=
    fun hgood => (invariant_of_goodSteps
      (fun _ _ _ hinv hstep hfresh => UnconsumedAnchor.step hinv hstep hfresh)
      (unconsumedAnchor_initial coalescer) hrun hgood).nodup
  refine ⟨hfresh, fun hcooldown => ⟨hfresh ?_, ?_⟩⟩
  · have hall : StepsSatisfy coalescer.step (fun _ _ _ => True)
        (TriggerSystem.initial Worker) labels :=
      stepsSatisfy_of_forall (fun _ _ _ _ => trivial) _ _
    exact stepsSatisfy_of_invariant (fun _ _ _ hinv hstep _ => SpacedWins.step hcooldown hinv hstep)
      (fun _ _ _ hinv _ _ => hinv.writesFreshAnchor hcooldown) (spacedWins_initial coalescer) hall
  · exact dispatched_apart (run_firesConserved hrun)
      (invariant_of_steps
        (fun _ _ _ hinv hstep => SpacedWins.step hcooldown hinv hstep)
        (spacedWins_initial coalescer) hrun)

theorem anchor_consumed_at_most_once_two_fires :
    ∃ final, run (Coalescer.step { policy := { cooldownSeconds := 60 } })
        (TriggerSystem.initial (Fin 2))
        (signalLabels 0 1 0 ++ [.claimFire 0, .dispatch 0] ++
          signalLabels 1 2 (seconds 60) ++ [.claimFire 1, .dispatch 1]) =
        some final ∧
      final.dispatched.length = 2 ∧ final.consumed.Nodup ∧
      final.dispatched.Pairwise (Apart { cooldownSeconds := 60 }) :=
  ⟨_, rfl, rfl, (anchor_consumed_at_most_once
    { policy := { cooldownSeconds := 60 } }
    (signalLabels 0 1 0 ++ [.claimFire 0, .dispatch 0] ++
      signalLabels 1 2 (seconds 60) ++ [.claimFire 1, .dispatch 1])
    _ rfl).2 (by decide)⟩

/-- Three signals of one instant and no cooldown: the first fire installs the
instant as the anchor, and the two others both expect it and both win. -/
theorem anchor_consumed_twice_at_one_instant :
    ∃ final, run (Coalescer.step { policy := {} })
        (TriggerSystem.initial (Fin 3))
        (signalLabels 0 1 0 ++ [.claimFire 0, .dispatch 0] ++
          signalLabels 1 2 0 ++ signalLabels 2 3 0 ++
          [.claimFire 1, .claimFire 2, .dispatch 1, .dispatch 2]) =
        some final ∧
      final.consumed = [none, some 0, some 0] ∧
      final.dispatched.length = 3 :=
  ⟨_, rfl, rfl, rfl⟩

/-! ## The fires form one chain -/

/-- Every win consumed the instant the win before it installed, the first one
the empty anchor, and the column shows the last one. -/
def TriggerSystem.AnchorsChained (system : TriggerSystem Worker) : Prop :=
  system.consumed ++ [lastFiredAt system.row] =
    none :: system.wins.map fun win => some win.2.firedAt

theorem anchorsChained_step (hinv : CoroutineInvariant coalescer system)
    (hchained : system.AnchorsChained)
    (hstep : coalescer.step system label = some next) : next.AnchorsChained := by
  unfold TriggerSystem.AnchorsChained TriggerSystem.consumed at hchained ⊢
  rcases anchor_step hinv hstep with
    ⟨hwins, hanchor⟩ | ⟨_, _, decision, tenant, now, signalIds, _, _, _, hwins, hanchor⟩
  · rw [hwins, hanchor]
    exact hchained
  · rw [hwins, hanchor, map_append, map_append, map_singleton, map_singleton, hchained]
    rfl

/-- Whatever the policy and the clocks, in every state of every run the won
fires form one chain of compare-and-sets from the empty anchor to the anchor
the column shows, and each of them is dispatched once or still in the hands of
the worker that won it. -/
theorem fires_form_one_chain [Fintype Worker] (coalescer : Coalescer)
    (labels : List (TriggerLabel Worker)) :
    VisitsOnly coalescer.step
      (fun system => system.AnchorsChained ∧ system.FiresConserved)
      (TriggerSystem.initial Worker) labels :=
  visitsOnly_of_steps
    (fun system (hinv : CoroutineInvariant coalescer system ∧
      system.AnchorsChained ∧ system.FiresConserved) => hinv.2)
    (fun _ _ _ hinv hstep => ⟨hinv.1.step hstep,
      anchorsChained_step hinv.1 hinv.2.1 hstep, firesConserved_step hinv.2.2 hstep⟩)
    ⟨coroutineInvariant_initial coalescer, rfl, firesConserved_initial⟩ labels

end Legba.Trigger
