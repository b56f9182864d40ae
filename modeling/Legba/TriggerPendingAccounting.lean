import Legba.TriggerCoalescer

/-!
# Accounting for counted signals

A counted signal is in a dispatched fire, in a fire that was won and not yet
dispatched, in the pending count of the row, or in the hands of a coroutine
that has not saved it.  The sum of the four equals the number of counted
signals exactly as long as no statement overwrites a pending count it has not
read: `save_dirty` checks nothing, and `claim_fire` checks only the fire
anchor.
-/

namespace Legba.Trigger

open TriggerStateStore LabelledRun Multiset

variable {Worker : Type} [DecidableEq Worker]

def Coroutine.inFlight : Coroutine → Multiset TriggerFire
  | .dispatching fire => {fire}
  | _ => 0

def Coroutine.unsaved : Coroutine → ℕ
  | .dirtied _ _ _ _ => 1
  | _ => 0

def pendingOf (fires : Multiset TriggerFire) : ℕ :=
  (fires.map TriggerFire.pendingCount).sum

@[simp] theorem pendingOf_add (fires others : Multiset TriggerFire) :
    pendingOf (fires + others) = pendingOf fires + pendingOf others := by
  simp [pendingOf]

@[simp] theorem pendingOf_singleton (fire : TriggerFire) :
    pendingOf {fire} = fire.pendingCount := by
  simp [pendingOf]

@[simp] theorem pendingOf_zero : pendingOf 0 = 0 := rfl

def Coroutine.Neutral (coroutine : Coroutine) : Prop :=
  coroutine.inFlight = 0 ∧ coroutine.unsaved = 0

theorem neutral_maybeFire (coalescer : Coalescer) (acc : TriggerAccumulator (Option Uuid))
    (tenant : String) (now : Datetime) (signalIds : List (Option Uuid)) :
    (coalescer.maybeFire acc tenant now signalIds).Neutral := by
  rcases coalescer.maybeFire_cases acc tenant now signalIds with
    ⟨hstate, _⟩ | ⟨hstate, _⟩ <;> rw [hstate] <;> exact ⟨rfl, rfl⟩

theorem neutral_start (task : CoalescerTask) : task.start.Neutral := by
  rcases task.start_cases with ⟨_, _, _, _, hstate⟩ | ⟨_, hstate⟩ | hstate <;>
    rw [hstate] <;> exact ⟨rfl, rfl⟩

theorem neutral_finished : Coroutine.finished.Neutral := ⟨rfl, rfl⟩

section

variable [Fintype Worker]

def TriggerSystem.inFlight (system : TriggerSystem Worker) : Multiset TriggerFire :=
  ∑ worker, (system.coroutines worker).inFlight

def TriggerSystem.unsaved (system : TriggerSystem Worker) : ℕ :=
  ∑ worker, (system.coroutines worker).unsaved

theorem inFlight_become (system : TriggerSystem Worker) (worker : Worker) (coroutine : Coroutine) :
    (system.become worker coroutine).inFlight + (system.coroutines worker).inFlight =
      system.inFlight + coroutine.inFlight :=
  sum_update_add system.coroutines Coroutine.inFlight worker coroutine

theorem unsaved_become (system : TriggerSystem Worker) (worker : Worker) (coroutine : Coroutine) :
    (system.become worker coroutine).unsaved + (system.coroutines worker).unsaved =
      system.unsaved + coroutine.unsaved :=
  sum_update_add system.coroutines Coroutine.unsaved worker coroutine

variable {system next : TriggerSystem Worker} {worker : Worker}
  {coroutine : Coroutine} {coalescer : Coalescer}
  {label : TriggerLabel Worker}

omit [DecidableEq Worker] in
theorem TriggerSystem.Completed.inFlight_eq_zero (hdone : system.Completed) :
    system.inFlight = 0 := by
  apply Finset.sum_eq_zero
  intro worker _
  rcases hdone worker with hworker | hworker <;> rw [hworker] <;> rfl

omit [DecidableEq Worker] in
theorem TriggerSystem.Completed.unsaved_eq_zero (hdone : system.Completed) :
    system.unsaved = 0 := by
  apply Finset.sum_eq_zero
  intro worker _
  rcases hdone worker with hworker | hworker <;> rw [hworker] <;> rfl

theorem inFlight_become_of_zero (hbefore : (system.coroutines worker).inFlight = 0)
    (hafter : coroutine.inFlight = 0) :
    (system.become worker coroutine).inFlight = system.inFlight := by
  have hbecome := inFlight_become system worker coroutine
  simpa [hbefore, hafter] using hbecome

theorem unsaved_become_of_zero (hbefore : (system.coroutines worker).unsaved = 0)
    (hafter : coroutine.unsaved = 0) :
    (system.become worker coroutine).unsaved = system.unsaved := by
  have hbecome := unsaved_become system worker coroutine
  simpa [hbefore, hafter] using hbecome

def TriggerSystem.FiresConserved (system : TriggerSystem Worker) : Prop :=
  (system.dispatched : Multiset TriggerFire) + system.inFlight =
    (system.wins.map Prod.snd : List TriggerFire)

omit [DecidableEq Worker] in
theorem firesConserved_initial : (TriggerSystem.initial Worker).FiresConserved := by
  simp [TriggerSystem.FiresConserved, TriggerSystem.initial,
    TriggerSystem.inFlight, Coroutine.inFlight]

theorem firesConserved_become (hfires : system.FiresConserved)
    (hbefore : (system.coroutines worker).inFlight = 0) (hafter : coroutine.inFlight = 0) :
    (system.become worker coroutine).FiresConserved := by
  unfold TriggerSystem.FiresConserved at hfires ⊢
  rw [inFlight_become_of_zero hbefore hafter]
  exact hfires

theorem firesConserved_step (hfires : system.FiresConserved)
    (hstep : coalescer.step system label = some next) : next.FiresConserved := by
  cases Coalescer.step_transition hstep with
  | started worker task hworker =>
    exact firesConserved_become hfires (by rw [hworker]; rfl) (neutral_start task).1
  | counted worker canon sev tenant now hworker =>
    exact firesConserved_become hfires (by rw [hworker]; rfl) rfl
  | duplicate worker canon sev tenant now hworker =>
    exact firesConserved_become hfires (by rw [hworker]; rfl) rfl
  | tickRead worker tenant now hworker =>
    exact firesConserved_become hfires (by rw [hworker]; rfl) (neutral_maybeFire ..).1
  | saved worker newAcc canon tenant now hworker =>
    exact firesConserved_become hfires (by rw [hworker]; rfl) (neutral_maybeFire ..).1
  | listed worker withinLimit tenant now hworker =>
    exact firesConserved_become hfires (by rw [hworker]; rfl) rfl
  | skipped worker withinLimit now hworker =>
    exact firesConserved_become hfires (by rw [hworker]; rfl) rfl
  | lost worker acc decision tenant now signalIds hworker hlost =>
    exact firesConserved_become hfires (by rw [hworker]; rfl) rfl
  | won worker acc decision tenant now signalIds hworker hwon =>
    have hbecome := inFlight_become system worker (.dispatching
      (coalescer.fireOf decision tenant now signalIds))
    simp only [hworker, Coroutine.inFlight, add_zero] at hbecome
    change (system.dispatched : Multiset TriggerFire) + (system.become worker _).inFlight =
      ((system.wins ++ [(acc.lastFiredAt,
        coalescer.fireOf decision tenant now signalIds)]).map Prod.snd : List TriggerFire)
    rw [hbecome, ← add_assoc, hfires, List.map_append, ← coe_add]
    rfl
  | dispatched worker fire hworker =>
    have hbecome := inFlight_become system worker .finished
    simp only [hworker, Coroutine.inFlight, add_zero] at hbecome
    change ((system.dispatched ++ [fire] : List TriggerFire) :
          Multiset TriggerFire) + (system.become worker _).inFlight =
      (system.wins.map Prod.snd : List TriggerFire)
    rw [← coe_add, coe_singleton, add_assoc,
      add_comm ({fire} : Multiset TriggerFire), hbecome]
    exact hfires

theorem run_firesConserved {final : TriggerSystem Worker}
    {labels : List (TriggerLabel Worker)}
    (hrun : run coalescer.step (TriggerSystem.initial Worker) labels =
      some final) : final.FiresConserved :=
  invariant_of_steps (fun _ _ _ hfires hstep => firesConserved_step hfires hstep)
    firesConserved_initial hrun

/-! ## The account of counted signals -/

def TriggerSystem.Accounted (system : TriggerSystem Worker) : Prop :=
  pendingOf system.dispatched + pendingOf system.inFlight +
      pendingCount system.row + system.unsaved =
    system.counted

omit [Fintype Worker] in
/-- The statement overwrites only a pending count it has read: `save_dirty`
runs while the row still shows the count its coroutine read, and a winning
`claim_fire` while the row still shows the count the fire was decided on. -/
def OverwritesReadCount (system : TriggerSystem Worker)
    (label : TriggerLabel Worker) (_next : TriggerSystem Worker) : Prop :=
  match label with
  | .saveDirty worker =>
    match system.coroutines worker with
    | .dirtied newAcc _ _ _ => newAcc.pendingCount = pendingCount system.row + 1
    | _ => True
  | .claimFire worker =>
    match system.coroutines worker with
    | .claiming acc decision _ _ _ =>
      lastFiredAt system.row = acc.lastFiredAt → decision.pendingCount = pendingCount system.row
    | _ => True
  | _ => True

omit [DecidableEq Worker] in
theorem accounted_initial : (TriggerSystem.initial Worker).Accounted := by
  simp [TriggerSystem.Accounted, TriggerSystem.initial, TriggerSystem.inFlight,
    TriggerSystem.unsaved, Coroutine.inFlight, Coroutine.unsaved, pendingCount]

theorem accounted_become_iff (hbefore : (system.coroutines worker).Neutral)
    (hafter : coroutine.Neutral) :
    (system.become worker coroutine).Accounted ↔ system.Accounted := by
  unfold TriggerSystem.Accounted
  rw [inFlight_become_of_zero hbefore.1 hafter.1, unsaved_become_of_zero hbefore.2 hafter.2]
  simp

theorem accounted_step_iff (haccount : system.Accounted)
    (hstep : coalescer.step system label = some next) :
    next.Accounted ↔ OverwritesReadCount system label next := by
  cases Coalescer.step_transition hstep with
  | started worker task hworker =>
    exact iff_of_true ((accounted_become_iff (by rw [hworker]; exact ⟨rfl, rfl⟩)
      (neutral_start task)).mpr haccount) trivial
  | duplicate worker canon sev tenant now hworker =>
    exact iff_of_true ((accounted_become_iff (by rw [hworker]; exact ⟨rfl, rfl⟩)
      neutral_finished).mpr haccount) trivial
  | tickRead worker tenant now hworker =>
    exact iff_of_true ((accounted_become_iff (by rw [hworker]; exact ⟨rfl, rfl⟩)
      (neutral_maybeFire ..)).mpr haccount) trivial
  | listed worker withinLimit tenant now hworker =>
    exact iff_of_true ((accounted_become_iff (by rw [hworker]; exact ⟨rfl, rfl⟩)
      ⟨rfl, rfl⟩).mpr haccount) trivial
  | skipped worker withinLimit now hworker =>
    exact iff_of_true ((accounted_become_iff (by rw [hworker]; exact ⟨rfl, rfl⟩)
      neutral_finished).mpr haccount) trivial
  | counted worker canon sev tenant now hworker hcounted =>
    have hunsaved := unsaved_become system worker (.dirtied
      ((get system.row coalescer.seenCap).applyDirty canon sev
        (some now)).1 canon tenant now)
    simp only [hworker, Coroutine.unsaved, add_zero] at hunsaved
    unfold TriggerSystem.Accounted at haccount ⊢
    change pendingOf system.dispatched +
        pendingOf (system.become worker _).inFlight +
        pendingCount system.row + (system.become worker _).unsaved =
      system.counted + 1 ↔ True
    rw [inFlight_become_of_zero (by rw [hworker]; rfl) rfl, hunsaved]
    simp only [iff_true]
    omega
  | saved worker newAcc canon tenant now hworker =>
    have hunsaved := unsaved_become system worker (coalescer.maybeFire newAcc tenant now [canon])
    rw [hworker, (neutral_maybeFire ..).2, add_zero] at hunsaved
    unfold TriggerSystem.Accounted at haccount ⊢
    change pendingOf system.dispatched +
        pendingOf (system.become worker _).inFlight +
        pendingCount (some (saveDirty system.row newAcc tenant)) +
        (system.become worker _).unsaved = system.counted ↔ _
    rw [inFlight_become_of_zero (by rw [hworker]; rfl)
      (neutral_maybeFire ..).1, pendingCount_saveDirty]
    simp only [OverwritesReadCount, hworker]
    simp only [Coroutine.unsaved] at hunsaved
    omega
  | won worker acc decision tenant now signalIds hworker hwon =>
    have hinFlight := inFlight_become system worker (.dispatching
      (coalescer.fireOf decision tenant now signalIds))
    simp only [hworker, Coroutine.inFlight, add_zero] at hinFlight
    unfold TriggerSystem.Accounted at haccount ⊢
    change pendingOf system.dispatched +
        pendingOf (system.become worker _).inFlight +
        pendingCount (some (claimFire system.row acc.lastFiredAt now).1) +
        (system.become worker _).unsaved = system.counted ↔ _
    rw [hinFlight, (claimFire_won hwon).1,
      unsaved_become_of_zero (by rw [hworker]; rfl) rfl, pendingOf_add,
      pendingOf_singleton]
    simp only [OverwritesReadCount, hworker,
      (claimFire_won_iff _ _ _).mp hwon, forall_const, Coalescer.fireOf]
    omega
  | lost worker acc decision tenant now signalIds hworker hlost =>
    have hanchor : lastFiredAt system.row ≠ acc.lastFiredAt := by
      intro heq
      rw [(claimFire_won_iff _ _ _).mpr heq] at hlost
      contradiction
    unfold TriggerSystem.Accounted at haccount ⊢
    change pendingOf system.dispatched +
        pendingOf (system.become worker _).inFlight +
        pendingCount (some (claimFire system.row acc.lastFiredAt now).1) +
        (system.become worker _).unsaved = system.counted ↔ _
    rw [inFlight_become_of_zero (by rw [hworker]; rfl) rfl,
      unsaved_become_of_zero (by rw [hworker]; rfl) rfl,
      (claimFire_lost hlost).1]
    simpa [OverwritesReadCount, hworker, hanchor] using haccount
  | dispatched worker fire hworker =>
    have hinFlight := inFlight_become system worker .finished
    simp only [hworker, Coroutine.inFlight, add_zero] at hinFlight
    unfold TriggerSystem.Accounted at haccount ⊢
    change pendingOf ((system.dispatched ++ [fire] : List TriggerFire)) +
        pendingOf (system.become worker _).inFlight +
        pendingCount system.row + (system.become worker _).unsaved =
      system.counted ↔ True
    rw [unsaved_become_of_zero (by rw [hworker]; rfl) rfl, ← coe_add,
      pendingOf_add, coe_singleton, pendingOf_singleton]
    rw [← hinFlight, pendingOf_add, pendingOf_singleton] at haccount
    simp only [iff_true]
    omega

/-- A run keeps the account in every state it visits exactly when each of its
statements overwrites a count it has read; a completed such run has every
counted signal in a dispatched fire or in the row. -/
theorem counted_signals_accounted (coalescer : Coalescer)
    (labels : List (TriggerLabel Worker)) (final : TriggerSystem Worker)
    (hrun : run coalescer.step (TriggerSystem.initial Worker) labels = some final) :
    (VisitsOnly coalescer.step TriggerSystem.Accounted (TriggerSystem.initial Worker) labels ↔
      StepsSatisfy coalescer.step OverwritesReadCount (TriggerSystem.initial Worker) labels) ∧
    (StepsSatisfy coalescer.step OverwritesReadCount
        (TriggerSystem.initial Worker) labels → final.Completed →
      pendingOf final.dispatched + pendingCount final.row = final.counted) := by
  have hexact : VisitsOnly coalescer.step TriggerSystem.Accounted
        (TriggerSystem.initial Worker) labels ↔
      StepsSatisfy coalescer.step OverwritesReadCount (TriggerSystem.initial Worker) labels := by
    have htrue : ∀ (system : TriggerSystem Worker) label next, True →
        coalescer.step system label = some next → True :=
      fun _ _ _ _ _ => trivial
    have hexactStep : ∀ (system : TriggerSystem Worker) label next, True →
        system.Accounted → coalescer.step system label = some next →
        (next.Accounted ↔ OverwritesReadCount system label next) :=
      fun _ _ _ _ haccount hstep => accounted_step_iff haccount hstep
    exact visitsOnly_iff_stepsSatisfy htrue hexactStep trivial accounted_initial
  refine ⟨hexact, fun hgood hdone => ?_⟩
  have haccount := (hexact.mpr hgood).final hrun
  unfold TriggerSystem.Accounted at haccount
  rw [hdone.inFlight_eq_zero, hdone.unsaved_eq_zero] at haccount
  simpa using haccount

end

def signalLabels {n : ℕ} (worker : Fin n) (id : Uuid) (now : Datetime) :
    List (TriggerLabel (Fin n)) :=
  [.start worker (.onSignal { id := some id } "default" now), .get worker, .saveDirty worker]

/-- Two signals one after the other fill a batch of two, which is dispatched
whole. -/
theorem counted_signals_accounted_batch_of_two :
    ∃ final, run (Coalescer.step { policy := { accumulationThreshold := 2 } })
        (TriggerSystem.initial (Fin 2))
        (signalLabels 0 1 0 ++ signalLabels 1 2 5 ++ [.claimFire 1, .dispatch 1]) = some final ∧
      final.counted = 2 ∧ final.dispatched.length = 1 ∧
      pendingOf final.dispatched + pendingCount final.row = final.counted := by
  refine ⟨_, rfl, rfl, rfl, (counted_signals_accounted
    { policy := { accumulationThreshold := 2 } }
    (signalLabels 0 1 0 ++ signalLabels 1 2 5 ++ [.claimFire 1, .dispatch 1])
    _ rfl).2 ?_ ?_⟩
  · exact ⟨trivial, trivial, rfl, trivial, trivial, rfl, fun _ => rfl, trivial, trivial⟩
  · exact fun
      | 0 => .inr rfl
      | 1 => .inr rfl

/-- Two coroutines read the row before either saves: both signals are
counted, one upsert overwrites the other, and the completed run has one of
them nowhere. -/
theorem counted_signal_lost_by_concurrent_saves :
    ∃ final, run (Coalescer.step { policy := { accumulationThreshold := 5 } })
        (TriggerSystem.initial (Fin 2))
        [.start 0 (.onSignal { id := some 1 } "default" 0),
          .start 1 (.onSignal { id := some 2 } "default" 0),
          .get 0, .get 1, .saveDirty 0, .saveDirty 1] = some final ∧
      final.Completed ∧ final.counted = 2 ∧
      pendingOf final.dispatched + pendingCount final.row = 1 := by
  refine ⟨_, rfl, ?_, rfl, rfl⟩
  exact fun
    | 0 => .inr rfl
    | 1 => .inr rfl

end Legba.Trigger
