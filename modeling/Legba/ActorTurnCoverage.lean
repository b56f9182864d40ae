import Legba.ActorTurnWitness

/-!
# When a fire is called coalesced

A fire is coalesced only when another call could have absorbed it.  The
dispatch's own call passes the same middleware, so what the witness shows may
be that call alone; the dispatches for which it is not are described exactly,
for every interleaving and every clock.
-/

namespace Legba.Turns

open KeyedTable LabelledRun Option Table List

def Call.OccupiedSince (call : Call) (since : Datetime) : Prop :=
  call.endedAt = none ∨ ∃ ended ∈ call.endedAt, since ≤ ended

def State.OtherOccupied (state : State) (index : ℕ) (dispatch : Dispatch) :
    Prop :=
  ∃ call ∈ state.calls, call.actorId = dispatch.actorId ∧
    call.dispatch ≠ some index ∧ call.OccupiedSince dispatch.fire.firedAt

/-- The entry of the actor shows a call of the dispatch itself: one still in
flight, or one which was the last to leave, not before the fire. -/
def State.OwnTrace (state : State) (index : ℕ) (dispatch : Dispatch) : Prop :=
  ∃ entry ∈ state.witness.row? dispatch.actorId, ∃ call ∈ state.calls,
    call.actorId = dispatch.actorId ∧ call.dispatch = some index ∧
      (0 < entry.inFlight ∧ call.endedAt = none ∨
        ∃ ended ∈ entry.endedAt, call.endedAt = some ended ∧ dispatch.fire.firedAt ≤ ended)

def CoalescedRightly (state : State) : Event → State → Prop
  | .raise index, next =>
    ∀ dispatch ∈ state.dispatches[index]?, ∀ coverage,
      next.dispatches[index]? = some { dispatch with outcome := some (.coalesced coverage) } →
        state.OtherOccupied index dispatch
  | _, _ => True

def Distinguishable (state : State) : Event → State → Prop
  | .raise index, _ =>
    ∀ dispatch ∈ state.dispatches[index]?,
      state.OtherOccupied index dispatch ∨ ¬state.OwnTrace index dispatch
  | _, _ => True

def Call.openOn (actorId : String) (call : Call) : Bool :=
  decide (call.actorId = actorId ∧ call.endedAt = none)

structure Entry.Backed (entry : Entry) (calls : List Call) (actorId : String) : Prop where
  inFlight_le : entry.inFlight ≤ calls.countP (Call.openOn actorId)
  ended : ∀ ended ∈ entry.endedAt, ∃ call ∈ calls,
    call.actorId = actorId ∧ call.endedAt = some ended

def State.Backed (state : State) : Prop :=
  ∀ actorId, ∀ entry ∈ state.witness.row? actorId, entry.Backed state.calls actorId

variable {witness : Witness} {actorId : String} {entry : Entry}
  {state next : State} {index : ℕ}

variable {retention now : Datetime} {calls : List Call} {call : Call}
  {event : Event} {dispatch : Dispatch}

theorem Witness.prune_subset (hentry : (witness.prune retention now).row? actorId = some entry) :
    witness.row? actorId = some entry := by
  simp only [prune] at hentry
  split at hentry
  · exact (row?_deleteMatching_eq_some.mp hentry).1
  · split at hentry
    · exact (row?_deleteMatching_eq_some.mp hentry).1
    · have hkept := (row?_deleteMatching_eq_some.mp hentry).1
      exact (row?_deleteMatching_eq_some.mp hkept).1

theorem Witness.begin_cases {other : String} {pruneNow : Datetime}
    (hentry : (witness.beginAfter retention actorId pruneNow now).row? other = some entry) :
    witness.row? other = some entry ∨
      other = actorId ∧
        ((∃ before, witness.row? actorId = some before ∧
            entry = { before with
              inFlight := before.inFlight + 1
              startedAt := some now }) ∨
          entry = ⟨1, some now, none⟩) := by
  unfold Witness.beginAfter at hentry
  split at hentry
  next before hbefore =>
    rcases row?_put_eq_some.mp hentry with ⟨hother, heq⟩ | ⟨_, hold⟩
    · exact .inr ⟨hother, .inl ⟨before, hbefore, heq⟩⟩
    · exact .inl hold
  next =>
    rcases row?_put_eq_some.mp hentry with ⟨hother, heq⟩ | ⟨_, hold⟩
    · exact .inr ⟨hother, .inr heq⟩
    · exact .inl (Witness.prune_subset hold)

theorem Entry.Backed.append (hbacked : entry.Backed calls actorId) (call : Call) :
    entry.Backed (calls ++ [call]) actorId where
  inFlight_le := by
    rw [countP_append]
    exact Nat.le_add_right_of_le hbacked.inFlight_le
  ended := by
    intro ended hended
    obtain ⟨found, hfound, hprops⟩ := hbacked.ended ended hended
    exact ⟨found, mem_append_left _ hfound, hprops⟩

theorem State.Backed.enter (hbacked : state.Backed) (retention : Datetime)
    (actorId : String) (dispatch : Option ℕ) (pruneNow now : Datetime) :
    State.Backed { state with
      witness := state.witness.beginAfter retention actorId pruneNow now
      calls := state.calls ++ [⟨actorId, dispatch, none⟩] } := by
  intro other entry hentry
  have hone : [(⟨actorId, dispatch, none⟩ : Call)].countP (Call.openOn actorId) = 1 := by
    simp [Call.openOn]
  rcases Witness.begin_cases hentry with hold | ⟨rfl, ⟨before, hbefore, rfl⟩ | rfl⟩
  · exact (hbacked other entry hold).append _
  · have happend := (hbacked other before hbefore).append ⟨other, dispatch, none⟩
    refine ⟨?_, happend.ended⟩
    rw [countP_append, hone]
    exact Nat.succ_le_succ (hbacked other before hbefore).inFlight_le
  · constructor
    · rw [countP_append, hone]
      exact Nat.le_add_left _ _
    · simp

theorem mem_set_of_ended {replacement found : Call} (hcall : calls[index]? = some call)
    (hopen : call.endedAt = none) (hfound : found ∈ calls) (hended : found.endedAt.isSome) :
    found ∈ calls.set index replacement := by
  obtain ⟨position, hposition⟩ := mem_iff_getElem?.mp hfound
  have hne : index ≠ position := by
    rintro rfl
    rw [hcall, some.injEq] at hposition
    subst hposition
    simp [hopen] at hended
  apply mem_of_getElem?
  rw [getElem?_set_ne hne]
  exact hposition

theorem State.Backed.leave (hbacked : state.Backed) (hcall : state.calls[index]? = some call)
    (hopen : call.endedAt = none) (now : Datetime) :
    State.Backed { state with
      witness := state.witness.endCall call.actorId now
      calls := state.calls.set index { call with endedAt := some now } } := by
  obtain ⟨hindex, hget⟩ := List.getElem?_eq_some_iff.mp hcall
  have hclosed : ∀ actorId, Call.openOn actorId { call with endedAt := some now } = false := by
    simp [Call.openOn]
  have hkeep : ∀ found ∈ state.calls, found.endedAt.isSome = true →
      found ∈ state.calls.set index { call with endedAt := some now } :=
    fun found hfound hended => mem_set_of_ended hcall hopen hfound hended
  intro actorId entry hentry
  by_cases hactor : actorId = call.actorId
  · subst hactor
    simp only [Witness.endCall, row?_update_self, mem_def, map_eq_some_iff] at hentry
    obtain ⟨before, hbefore, rfl⟩ := hentry
    have hopenOn : Call.openOn call.actorId state.calls[index] := by simp [hget, Call.openOn, hopen]
    constructor
    · rw [List.countP_set hindex, hclosed, if_pos hopenOn]
      have hle := (hbacked call.actorId before hbefore).inFlight_le
      simp only [Bool.false_eq_true, if_false, add_zero]
      omega
    · intro ended hended
      cases hended
      refine ⟨{ call with endedAt := some now }, ?_, rfl, rfl⟩
      exact List.mem_set hindex _
  · have hbefore : state.witness.row? actorId = some entry := by
      simpa [Witness.endCall, row?_update_of_ne _ hactor] using hentry
    have hopenOn : Call.openOn actorId state.calls[index] = false := by
      simp [hget, Call.openOn, Ne.symm hactor]
    constructor
    · rw [List.countP_set hindex, hclosed, hopenOn]
      simpa using (hbacked actorId entry hbefore).inFlight_le
    · intro ended hended
      obtain ⟨found, hfound, hfoundActor, hfoundEnded⟩ :=
        (hbacked actorId entry hbefore).ended ended hended
      exact ⟨found, hkeep found hfound (by simp [hfoundEnded]), hfoundActor, hfoundEnded⟩

theorem State.finish_frame {outcome : Dispatch → Outcome}
    (hfinish : state.finish index outcome = some next) :
    next.witness = state.witness ∧ next.calls = state.calls := by
  unfold finish at hfinish
  split at hfinish
  · cases hfinish
  · split at hfinish
    · cases hfinish
    · cases hfinish
      exact ⟨rfl, rfl⟩

theorem State.Backed.congr (hbacked : state.Backed)
    (hframe : next.witness = state.witness ∧ next.calls = state.calls) : next.Backed := by
  unfold State.Backed
  rw [hframe.1, hframe.2]
  exact hbacked

theorem State.Backed.step (hbacked : state.Backed)
    (hstep : Turns.step state event = some next) : next.Backed := by
  cases event with
  | remember analystId actorId =>
    cases hstep
    exact hbacked.congr ⟨rfl, rfl⟩
  | forget analystId actorId =>
    cases hstep
    exact hbacked.congr ⟨rfl, rfl⟩
  | enter actorId dispatch pruneNow now =>
    simp only [Turns.step, ite_none_right_eq_some] at hstep
    obtain ⟨_, hstep⟩ := hstep
    cases hstep
    exact hbacked.enter completedTurnRetention actorId dispatch pruneNow now
  | leave index now =>
    simp only [Turns.step] at hstep
    split at hstep
    next => cases hstep
    next call hcall =>
      simp only [ite_none_left_eq_some] at hstep
      obtain ⟨hopen, hstep⟩ := hstep
      cases hstep
      exact hbacked.leave hcall (by simpa using hopen) now
  | fire fire =>
    simp only [Turns.step] at hstep
    split at hstep
    · cases hstep
      exact hbacked
    · cases hstep
      exact hbacked.congr ⟨rfl, rfl⟩
  | answer index => exact hbacked.congr (State.finish_frame hstep)
  | raise index => exact hbacked.congr (State.finish_frame hstep)
  | cancel index => exact hbacked.congr (State.finish_frame hstep)

/-- The witness shows the actor occupied exactly when the entry is there and
counts a call in flight, or its last call left at or after the instant. -/
theorem Witness.covers_isSome_iff {since : Datetime} :
    (witness.covers actorId since).isSome = true ↔
      ∃ entry ∈ witness.row? actorId, 0 < entry.inFlight ∨
        ∃ ended ∈ entry.endedAt, since ≤ ended := by
  unfold covers
  split
  next hrow => simp [hrow]
  next entry hrow =>
    simp only [hrow, mem_def, some.injEq, exists_eq_left']
    split
    next hflight => simp [hflight]
    next hflight =>
      split
      next ended hended =>
        split <;> simp_all
      next hended => simp_all

theorem State.Backed.covers_cases (hbacked : state.Backed)
    (hcovers : (state.witness.covers dispatch.actorId dispatch.fire.firedAt).isSome) :
    state.OtherOccupied index dispatch ∨ state.OwnTrace index dispatch := by
  obtain ⟨entry, hentry, hshows⟩ := Witness.covers_isSome_iff.mp hcovers
  have hentryBacked := hbacked _ entry hentry
  rcases hshows with hflight | ⟨ended, hended, hsince⟩
  · have hcount : 0 < state.calls.countP (Call.openOn dispatch.actorId) :=
      lt_of_lt_of_le hflight hentryBacked.inFlight_le
    obtain ⟨call, hcall, hopenOn⟩ := countP_pos_iff.mp hcount
    obtain ⟨hactor, hopen⟩ := of_decide_eq_true hopenOn
    by_cases hown : call.dispatch = some index
    · exact .inr ⟨entry, hentry, call, hcall, hactor, hown, .inl ⟨hflight, hopen⟩⟩
    · exact .inl ⟨call, hcall, hactor, hown, .inl hopen⟩
  · obtain ⟨call, hcall, hactor, hcallEnded⟩ := hentryBacked.ended ended hended
    by_cases hown : call.dispatch = some index
    · exact .inr ⟨entry, hentry, call, hcall, hactor, hown,
        .inr ⟨ended, hended, hcallEnded, hsince⟩⟩
    · exact .inl ⟨call, hcall, hactor, hown, .inr ⟨ended, hcallEnded, hsince⟩⟩

theorem State.OwnTrace.covers (htrace : state.OwnTrace index dispatch) :
    (state.witness.covers dispatch.actorId dispatch.fire.firedAt).isSome := by
  obtain ⟨entry, hentry, call, _, _, _, hshows⟩ := htrace
  refine Witness.covers_isSome_iff.mpr ⟨entry, hentry, ?_⟩
  rcases hshows with ⟨hflight, _⟩ | ⟨ended, hended, _, hsince⟩
  · exact .inl hflight
  · exact .inr ⟨ended, hended, hsince⟩

theorem coalescedRightly_iff (hbacked : state.Backed) (hstep : Turns.step state event = some next) :
    CoalescedRightly state event next ↔ Distinguishable state event next := by
  cases event with
  | raise index =>
    simp only [Turns.step, State.finish] at hstep
    split at hstep
    next => cases hstep
    next dispatch hdispatch =>
      simp only [ite_none_left_eq_some] at hstep
      obtain ⟨_, hstep⟩ := hstep
      cases hstep
      have hindex : index < state.dispatches.length := (List.getElem?_eq_some_iff.mp hdispatch).1
      simp only [CoalescedRightly, Distinguishable, hdispatch, mem_def, some.injEq, forall_eq']
      rw [List.getElem?_set_self hindex]
      constructor
      · intro hright
        by_cases htrace : state.OwnTrace index dispatch
        · obtain ⟨coverage, hcoverage⟩ := isSome_iff_exists.mp htrace.covers
          exact .inl (hright coverage (by simp [raised, hcoverage]))
        · exact .inr htrace
      · intro hdistinct coverage hcoalesced
        have hcovers : (state.witness.covers dispatch.actorId dispatch.fire.firedAt).isSome := by
          unfold raised at hcoalesced
          split at hcoalesced
          next => cases hcoalesced
          next found hfound => simp [hfound]
        rcases hdistinct with hother | htrace
        · exact hother
        · exact (hbacked.covers_cases hcovers).resolve_right htrace
  | _ => exact Iff.rfl

/-- In every interleaving, the fires called coalesced are those which another
call could have absorbed exactly when no raising dispatch meets its own trace
alone. -/
theorem coalesced_only_into_another_turn_iff (events : List Event) :
    StepsSatisfy step CoalescedRightly initial events ↔
      StepsSatisfy step Distinguishable initial events := by
  have hstart : initial.Backed := by
    intro actorId entry hentry
    simp [initial] at hentry
  have hkeep : ∀ state event next, state.Backed →
      step state event = some next → True → Distinguishable state event next → next.Backed :=
    fun _ _ _ hbacked hstep _ _ => hbacked.step hstep
  exact stepsSatisfy_iff_of_invariant hkeep (fun _ _ _ hbacked hstep _ => coalescedRightly_iff
    hbacked hstep) hstart (stepsSatisfy_of_forall (fun _ _ _ _ => trivial) _ _)

/-- The dispatch's own call enters, leaves and raises: the fire is coalesced
although no other call was ever made. -/
theorem coalesced_into_own_call :
    ¬StepsSatisfy step CoalescedRightly initial
      [.remember "a" "analyst::a::1", .fire ⟨"a", "t", 0⟩,
        .enter "analyst::a::t" (some 0) 1 1, .leave 0 2, .raise 0] := by
  intro hsteps
  obtain ⟨_, _, _, _, hright, _⟩ := hsteps
  obtain ⟨call, hcall, _, hforeign, _⟩ := hright _ rfl .endedAfterFire rfl
  have hown : call ∈ [⟨"analyst::a::t", some 0, some 2⟩] := hcall
  rw [mem_singleton] at hown
  subst hown
  exact hforeign rfl

end Legba.Turns
