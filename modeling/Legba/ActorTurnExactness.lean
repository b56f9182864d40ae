import Legba.ActorTurnCoverage

/-!
# What the turn witness knows

The witness claims no coverage it has not observed: a call in flight is an
unfinished call, and a turn which ended after the fire is one which did.  It
forgets, when a new actor id arrives, the finished turns past the retention,
and under the cap nothing else, so that a fire within the retention which it
does not cover found its actor idle.
-/

namespace Legba.Turns

open KeyedTable LabelledRun List Table

/-- A witness, the calls which were made, and the last reading of the clock. -/
structure Record where
  witness : Witness
  calls : List Call
  clock : Datetime

def Record.initial (start : Datetime) : Record := ⟨Table.empty, [], start⟩

inductive TurnEvent where
  | begin (actorId : String) (pruneNow now : Datetime)
  /-- The end of a call, by its number. -/
  | finish (index : ℕ) (now : Datetime)

def Record.step (retention : Datetime) (record : Record) : TurnEvent → Option Record
  | .begin actorId pruneNow now =>
    if record.clock ≤ pruneNow ∧ pruneNow ≤ now then
      some {
        witness := record.witness.beginAfter retention actorId pruneNow now
        calls := record.calls ++ [⟨actorId, none, none⟩]
        clock := now }
    else none
  | .finish index now =>
    match record.calls[index]? with
    | none => none
    | some call =>
      if call.endedAt = none ∧ record.clock ≤ now then
        some {
          witness := record.witness.endCall call.actorId now
          calls := record.calls.set index { call with endedAt := some now }
          clock := now }
      else none

def recentActors (calls : List Call) (cutoff : Datetime) : Finset String :=
  ((calls.filter fun call =>
    decide (call.endedAt = none ∨ ∃ ended ∈ call.endedAt, cutoff ≤ ended)).map
      Call.actorId).toFinset

def HasRoom (retention : Datetime) (record : Record) : TurnEvent → Record → Prop
  | .begin actorId pruneNow _, _ =>
    record.witness.row? actorId = none →
      (recentActors record.calls (pruneNow - retention)).card < maxTracked
  | .finish _ _, _ => True

def Record.Sound (record : Record) : Prop :=
  ∀ actorId since,
    (record.witness.covers actorId since = some .inFlight →
      ∃ call ∈ record.calls, call.actorId = actorId ∧ call.endedAt = none) ∧
    (record.witness.covers actorId since = some .endedAfterFire →
      ∃ call ∈ record.calls, call.actorId = actorId ∧ ∃ ended ∈ call.endedAt, since ≤ ended)

def Record.Complete (retention : Datetime) (record : Record) : Prop :=
  ∀ actorId since, record.clock - retention ≤ since →
    record.witness.covers actorId since = none →
      ∀ call ∈ record.calls, call.actorId = actorId → ¬call.OccupiedSince since

def Record.state (record : Record) : State :=
  ⟨record.witness, Table.empty, record.calls, []⟩

variable {retention now : Datetime} {record next : Record} {event : TurnEvent}
  {actorId : String}

theorem Record.step_cases (hstep : record.step retention event = some next) :
    (∃ actorId pruneNow now, event = .begin actorId pruneNow now ∧
        record.clock ≤ pruneNow ∧ pruneNow ≤ now ∧
        next = ⟨record.witness.beginAfter retention actorId pruneNow now,
          record.calls ++ [⟨actorId, none, none⟩], now⟩) ∨
      ∃ index call now, event = .finish index now ∧
        record.calls[index]? = some call ∧ call.endedAt = none ∧
        record.clock ≤ now ∧
        next = ⟨record.witness.endCall call.actorId now,
          record.calls.set index { call with endedAt := some now }, now⟩ := by
  cases event with
  | begin actorId pruneNow now =>
    simp only [Record.step, Option.ite_none_right_eq_some, Option.some.injEq] at hstep
    obtain ⟨⟨hprune, hnow⟩, hnext⟩ := hstep
    exact .inl ⟨actorId, pruneNow, now, rfl, hprune, hnow, hnext.symm⟩
  | finish index now =>
    simp only [Record.step] at hstep
    cases hcall : record.calls[index]? with
    | none => simp [hcall] at hstep
    | some call =>
      simp only [hcall, Option.ite_none_right_eq_some, Option.some.injEq] at hstep
      obtain ⟨⟨hopen, hnow⟩, hnext⟩ := hstep
      exact .inr ⟨index, call, now, rfl, hcall, hopen, hnow, hnext.symm⟩

theorem Record.backed_step (hbacked : record.state.Backed)
    (hstep : record.step retention event = some next) : next.state.Backed := by
  rcases Record.step_cases hstep with
    ⟨actorId, pruneNow, now, -, -, -, rfl⟩ | ⟨index, call, now, -, hcall, hopen, -, rfl⟩
  · exact hbacked.enter retention actorId none pruneNow now
  · exact hbacked.leave hcall hopen now

theorem Record.sound_of_backed (hbacked : record.state.Backed) : record.Sound := by
  intro actorId since
  unfold Witness.covers
  cases hrow : record.witness.row? actorId with
  | none => simp
  | some entry =>
    have hentry : entry.Backed record.calls actorId := hbacked actorId entry hrow
    by_cases hflight : 0 < entry.inFlight
    · have hcount := lt_of_lt_of_le hflight hentry.inFlight_le
      obtain ⟨call, hcall, hopenOn⟩ := countP_pos_iff.mp hcount
      simp only [if_pos hflight, reduceCtorEq, Option.some.injEq, false_implies, and_true]
      exact fun _ => ⟨call, hcall, of_decide_eq_true hopenOn⟩
    · cases hended : entry.endedAt with
      | none => simp [hflight, hended]
      | some ended =>
        obtain ⟨call, hcall, hactor, hcallEnded⟩ := hentry.ended ended hended
        by_cases hsince : since ≤ ended
        · simp only [if_neg hflight, hended, if_pos hsince, reduceCtorEq,
            Option.some.injEq, false_implies, true_and]
          exact fun _ => ⟨call, hcall, hactor, ended, hcallEnded, hsince⟩
        · simp [hflight, hended, hsince]

/-! ## Exactness -/

/-- The entries count the unfinished calls, and no later end of a call than
the one they show, back to the retention, is forgotten. -/
structure Record.Exact (retention : Datetime) (record : Record) : Prop where
  counted : ∀ actorId, ∀ entry ∈ record.witness.row? actorId,
    entry.inFlight = record.calls.countP (Call.openOn actorId)
  unfinished : ∀ call ∈ record.calls, call.endedAt = none →
    (record.witness.row? call.actorId).isSome
  ended_le : ∀ call ∈ record.calls, ∀ ended ∈ call.endedAt, ended ≤ record.clock
  latest : ∀ call ∈ record.calls, ∀ ended ∈ call.endedAt,
    record.clock - retention ≤ ended →
      ∃ entry ∈ record.witness.row? call.actorId, ∃ last ∈ entry.endedAt, ended ≤ last

theorem Record.exact_initial (retention start : Datetime) :
    (Record.initial start).Exact retention := by
  constructor <;> simp [Record.initial]

theorem Record.Exact.complete (hexact : record.Exact retention) : record.Complete retention := by
  rintro _ since hsince hcovers call hcall rfl hoccupied
  have hidle : ∀ entry ∈ record.witness.row? call.actorId,
      entry.inFlight = 0 ∧ ∀ ended ∈ entry.endedAt, ended < since := by
    intro entry hentry
    have hnot : ¬(0 < entry.inFlight ∨ ∃ ended ∈ entry.endedAt, since ≤ ended) := by
      intro hshows
      have hsome := Witness.covers_isSome_iff.mpr ⟨entry, hentry, hshows⟩
      rw [hcovers] at hsome
      cases hsome
    constructor
    · omega
    · intro ended hended
      by_contra hge
      exact hnot (.inr ⟨ended, hended, not_lt.mp hge⟩)
  rcases hoccupied with hopen | ⟨ended, hended, hge⟩
  · obtain ⟨entry, hentry⟩ := Option.isSome_iff_exists.mp (hexact.unfinished call hcall hopen)
    have hcount := hexact.counted call.actorId entry hentry
    rw [(hidle entry hentry).1] at hcount
    have hpos : 0 < record.calls.countP (Call.openOn call.actorId) :=
      countP_pos_iff.mpr ⟨call, hcall, by simp [Call.openOn, hopen]⟩
    omega
  · obtain ⟨entry, hentry, last, hlast, hle⟩ :=
      hexact.latest call hcall ended hended (hsince.trans hge)
    have hlt := (hidle entry hentry).2 last hlast
    exact absurd (lt_of_le_of_lt hle hlt) (not_lt.mpr hge)

/-! ### A new id -/

def Entry.stale (entry : Entry) (cutoff : Datetime) : Prop :=
  entry.inFlight = 0 ∧ ∀ ended ∈ entry.endedAt, ended < cutoff

theorem Record.row_prune (hbacked : record.state.Backed)
    (hroom : (recentActors record.calls (now - retention)).card < maxTracked) {entry : Entry}
    (hentry : record.witness.row? actorId = some entry) (hfresh : ¬entry.stale (now - retention)) :
    (record.witness.prune retention now).row? actorId = some entry := by
  let kept := record.witness.deleteMatching fun _ entry =>
    decide (entry.inFlight = 0 ∧ ∀ ended ∈ entry.endedAt, ended < now - retention)
  have hkept : ∀ {other found}, kept.row? other = some found ↔
      record.witness.row? other = some found ∧ ¬found.stale (now - retention) := by
    intro other found
    rw [row?_deleteMatching_eq_some, decide_eq_false_iff_not]
    exact Iff.rfl
  have hsub : kept.keys.toFinset ⊆ recentActors record.calls (now - retention) := by
    intro other hother
    rw [mem_toFinset, kept.mem_keys] at hother
    obtain ⟨found, hfound⟩ := Option.isSome_iff_exists.mp hother
    obtain ⟨hrow, hnotStale⟩ := hkept.mp hfound
    have hfoundBacked : found.Backed record.calls other := hbacked other found hrow
    have hcall : ∃ call ∈ record.calls, call.actorId = other ∧
        (call.endedAt = none ∨ ∃ ended ∈ call.endedAt, now - retention ≤ ended) := by
      by_cases hflight : 0 < found.inFlight
      · have hcount := lt_of_lt_of_le hflight hfoundBacked.inFlight_le
        obtain ⟨call, hcall, hopenOn⟩ := countP_pos_iff.mp hcount
        obtain ⟨hactor, hopen⟩ := of_decide_eq_true hopenOn
        exact ⟨call, hcall, hactor, .inl hopen⟩
      · have hended : ∃ ended ∈ found.endedAt, now - retention ≤ ended := by
          by_contra hnone
          push Not at hnone
          exact hnotStale ⟨by omega, hnone⟩
        obtain ⟨ended, hended, hge⟩ := hended
        obtain ⟨call, hcall, hactor, hcallEnded⟩ := hfoundBacked.ended ended hended
        exact ⟨call, hcall, hactor, .inr ⟨ended, hcallEnded, hge⟩⟩
    obtain ⟨call, hcall, hactor, hrecent⟩ := hcall
    rw [recentActors, mem_toFinset, mem_map]
    exact ⟨call, mem_filter.mpr ⟨hcall, decide_eq_true hrecent⟩, hactor⟩
  have hlength : kept.keys.length < maxTracked := by
    rw [← toFinset_card_of_nodup kept.nodup_keys]
    exact lt_of_le_of_lt (Finset.card_le_card hsub) hroom
  have hprune : record.witness.prune retention now = kept := by exact if_pos hlength
  rw [hprune]
  exact hkept.mpr ⟨hentry, hfresh⟩

theorem countP_append_open (calls : List Call) (actorId other : String) :
    (calls ++ [(⟨actorId, none, none⟩ : Call)]).countP (Call.openOn other) =
      calls.countP (Call.openOn other) + if other = actorId then 1 else 0 := by
  by_cases hother : other = actorId
  · simp [Call.openOn, hother]
  · simp [Call.openOn, hother, Ne.symm hother]

theorem Record.Exact.count (hexact : record.Exact retention) (actorId : String) :
    ((record.witness.row? actorId).map Entry.inFlight).getD 0 =
      record.calls.countP (Call.openOn actorId) := by
  cases hrow : record.witness.row? actorId with
  | some entry => exact hexact.counted actorId entry hrow
  | none =>
    symm
    apply countP_eq_zero.mpr
    intro call hcall hopenOn
    obtain ⟨hactor, hopen⟩ := of_decide_eq_true hopenOn
    have hsome := hexact.unfinished call hcall hopen
    rw [hactor, hrow] at hsome
    cases hsome

/-- What `begin` makes of the entries: that of the id counts one call more,
and the others stay, unless they are stale. -/
structure Begun (witness next : Witness) (actorId : String) (cutoff : Datetime) : Prop where
  own : ∃ entry ∈ next.row? actorId,
    entry.inFlight = ((witness.row? actorId).map Entry.inFlight).getD 0 + 1 ∧
      entry.endedAt = (witness.row? actorId).bind Entry.endedAt
  kept : ∀ other ≠ actorId, ∀ entry ∈ witness.row? other,
    ¬entry.stale cutoff → next.row? other = some entry
  old : ∀ other ≠ actorId, ∀ entry ∈ next.row? other, witness.row? other = some entry

theorem Record.begun (hbacked : record.state.Backed) {pruneNow : Datetime}
    (hroom : record.witness.row? actorId = none →
      (recentActors record.calls (pruneNow - retention)).card < maxTracked) :
    Begun record.witness
      (record.witness.beginAfter retention actorId pruneNow now) actorId
      (pruneNow - retention) := by
  unfold Witness.beginAfter
  cases hrow : record.witness.row? actorId with
  | some entry =>
    constructor
    · exact ⟨_, row?_put_self _ _ _, by simp [hrow]⟩
    · intro other hother found hfound _
      rw [row?_put_of_ne _ hother]
      exact hfound
    · intro other hother found hfound
      rwa [Option.mem_def, row?_put_of_ne _ hother] at hfound
  | none =>
    constructor
    · exact ⟨_, row?_put_self _ _ _, by simp [hrow]⟩
    · intro other hother found hfound hfresh
      rw [row?_put_of_ne _ hother]
      exact Record.row_prune hbacked (hroom hrow) hfound hfresh
    · intro other hother found hfound
      rw [Option.mem_def, row?_put_of_ne _ hother] at hfound
      exact Witness.prune_subset hfound

section

variable (hexact : record.Exact retention)

include hexact

theorem Record.Exact.begin {pruneNow : Datetime} {witness : Witness}
    (hbegun : Begun record.witness witness actorId (pruneNow - retention))
    (hprune : record.clock ≤ pruneNow) (hnow : pruneNow ≤ now) :
    Record.Exact retention ⟨witness, record.calls ++ [(⟨actorId, none, none⟩ : Call)], now⟩ := by
  obtain ⟨own, hown, hflight, hended⟩ := hbegun.own
  have hfresh : ∀ {call}, call ∈ record.calls ++
      [(⟨actorId, none, none⟩ : Call)] → ∀ {ended}, ended ∈ call.endedAt →
        call ∈ record.calls := by
    intro call hcall ended hcallEnded
    rcases mem_append.mp hcall with hold | hnew
    · exact hold
    · rw [mem_singleton] at hnew
      subst hnew
      cases hcallEnded
  constructor
  · intro other entry hentry
    rw [countP_append_open]
    by_cases hother : other = actorId
    · subst hother
      rw [Option.mem_unique hentry hown, hflight, hexact.count, if_pos rfl]
    · have hold := hbegun.old other hother entry hentry
      rw [if_neg hother, hexact.counted other entry hold, Nat.add_zero]
  · intro call hcall hopen
    by_cases hactor : call.actorId = actorId
    · rw [hactor, hown]
      rfl
    · have hold : call ∈ record.calls := by
        rcases mem_append.mp hcall with hold | hnew
        · exact hold
        · rw [mem_singleton] at hnew
          exact absurd (hnew ▸ rfl) hactor
      obtain ⟨entry, hentry⟩ := Option.isSome_iff_exists.mp (hexact.unfinished call hold hopen)
      have hpos : 0 < record.calls.countP (Call.openOn call.actorId) :=
        countP_pos_iff.mpr ⟨call, hold, by simp [Call.openOn, hopen]⟩
      have hcount := hexact.counted call.actorId entry hentry
      have hfresh : ¬entry.stale (pruneNow - retention) := by
        intro hstale
        have hzero := hstale.1
        omega
      rw [hbegun.kept call.actorId hactor entry hentry hfresh]
      rfl
  · intro call hcall ended hcallEnded
    have hle := hexact.ended_le call (hfresh hcall hcallEnded) ended hcallEnded
    exact hle.trans (hprune.trans hnow)
  · intro call hcall ended hcallEnded hrecent
    have hcutoff : pruneNow - retention ≤ ended :=
      (Int.sub_le_sub_right hnow retention).trans hrecent
    obtain ⟨entry, hentry, last, hlast, hle⟩ :=
      hexact.latest call (hfresh hcall hcallEnded) ended hcallEnded
        ((Int.sub_le_sub_right hprune retention).trans hcutoff)
    by_cases hactor : call.actorId = actorId
    · rw [hactor] at hentry ⊢
      rw [Option.mem_def.mp hentry, Option.bind_some] at hended
      exact ⟨own, hown, last, hended ▸ hlast, hle⟩
    · have hfresh : ¬entry.stale (pruneNow - retention) := fun hstale =>
        absurd (hstale.2 last hlast) (not_lt.mpr (hcutoff.trans hle))
      exact ⟨entry, hbegun.kept call.actorId hactor entry hentry hfresh, last, hlast, hle⟩

/-! ### The end of a call -/

theorem Record.Exact.finish {index : ℕ} {call : Call} (hcall : record.calls[index]? = some call)
    (hopen : call.endedAt = none) (hnow : record.clock ≤ now) :
    Record.Exact retention
      ⟨record.witness.endCall call.actorId now,
        record.calls.set index { call with endedAt := some now }, now⟩ := by
  obtain ⟨hindex, hget⟩ := List.getElem?_eq_some_iff.mp hcall
  have hmem : call ∈ record.calls := mem_of_getElem? hcall
  obtain ⟨entry, hentry⟩ := Option.isSome_iff_exists.mp (hexact.unfinished call hmem hopen)
  have hown : (record.witness.endCall call.actorId now).row? call.actorId =
      some { entry with
        inFlight := entry.inFlight - 1
        endedAt := some now } := by
    rw [Witness.endCall, row?_update_self, hentry]
    rfl
  have hother : ∀ other ≠ call.actorId,
      (record.witness.endCall call.actorId now).row? other = record.witness.row? other := by
    intro other hother
    rw [Witness.endCall, row?_update_of_ne _ hother]
  have hclosed : ∀ actorId, Call.openOn actorId { call with endedAt := some now } = false := by
    simp [Call.openOn]
  constructor
  · intro actorId found hfound
    rw [countP_set hindex, hclosed, hget]
    by_cases hactor : actorId = call.actorId
    · subst hactor
      rw [Option.mem_unique hfound hown]
      have hopenOn : Call.openOn call.actorId call := by simp [Call.openOn, hopen]
      have hcount := hexact.counted call.actorId entry hentry
      simp only [hopenOn, if_true, Bool.false_eq_true, if_false, hcount]
      omega
    · rw [Option.mem_def, hother actorId hactor] at hfound
      have hopenOn : Call.openOn actorId call = false := by simp [Call.openOn, Ne.symm hactor]
      rw [hexact.counted actorId found hfound, hopenOn]
      simp
  · intro found hfound hfoundOpen
    by_cases hactor : found.actorId = call.actorId
    · rw [hactor, hown]
      rfl
    · rcases mem_or_eq_of_mem_set hfound with hold | hnew
      · rw [hother _ hactor]
        exact hexact.unfinished found hold hfoundOpen
      · exact absurd (hnew ▸ rfl) hactor
  · intro found hfound ended hended
    rcases mem_or_eq_of_mem_set hfound with hold | hnew
    · exact (hexact.ended_le found hold ended hended).trans hnow
    · subst hnew
      exact (Option.some.inj hended).ge
  · intro found hfound ended hended hrecent
    by_cases hactor : found.actorId = call.actorId
    · have hle : ended ≤ now := by
        rcases mem_or_eq_of_mem_set hfound with hold | hnew
        · exact (hexact.ended_le found hold ended hended).trans hnow
        · subst hnew
          exact (Option.some.inj hended).ge
      rw [hactor]
      exact ⟨_, hown, now, rfl, hle⟩
    · rw [hother _ hactor]
      rcases mem_or_eq_of_mem_set hfound with hold | hnew
      · exact hexact.latest found hold ended hended
          ((Int.sub_le_sub_right hnow retention).trans hrecent)
      · exact absurd (hnew ▸ rfl) hactor

theorem Record.Exact.step (hbacked : record.state.Backed)
    (hstep : record.step retention event = some next)
    (hroom : HasRoom retention record event next) : next.Exact retention := by
  rcases Record.step_cases hstep with
    ⟨actorId, pruneNow, now, rfl, hprune, hnow, rfl⟩ |
      ⟨index, call, now, rfl, hcall, hopen, hnow, rfl⟩
  · exact hexact.begin (Record.begun hbacked hroom) hprune hnow
  · exact hexact.finish hcall hopen hnow

end

/-- Whatever calls begin and end, the witness covers only what has happened;
and where every new id finds room, it covers all that has happened within the
retention. -/
theorem covers_sound_and_complete (retention start : Datetime) (events : List TurnEvent)
    {record : Record}
    (hrun : run (Record.step retention) (Record.initial start) events = some record) :
    record.Sound ∧
      (StepsSatisfy (Record.step retention) (HasRoom retention) (Record.initial start) events →
        record.Complete retention) := by
  have hstart : (Record.initial start).state.Backed := by
    intro actorId entry hentry
    simp [Record.initial, Record.state] at hentry
  constructor
  · have hbacked : record.state.Backed :=
      invariant_of_steps (P := fun record => record.state.Backed)
        (fun _ _ _ hbacked hstep => Record.backed_step hbacked hstep)
        hstart hrun
    exact Record.sound_of_backed hbacked
  · intro hroom
    have hexact : record.state.Backed ∧ record.Exact retention :=
      invariant_of_goodSteps
        (P := fun record => record.state.Backed ∧ record.Exact retention)
        (fun _ _ _ hinv hstep hroom =>
          ⟨Record.backed_step hinv.1 hstep, hinv.2.step hinv.1 hstep hroom⟩)
        ⟨hstart, Record.exact_initial retention start⟩ hrun hroom
    exact hexact.2.complete

/-- One call, which the witness covers for as long as it is kept. -/
theorem covers_sound_and_complete_one_call :
    ∃ record, run (Record.step completedTurnRetention) (Record.initial 0)
        [.begin "a" 1 1, .finish 0 2] = some record ∧
      record.Sound ∧ record.Complete completedTurnRetention := by
  refine ⟨_, rfl, ?_⟩
  have hboth := covers_sound_and_complete completedTurnRetention 0 [.begin "a" 1 1, .finish 0 2] rfl
  exact ⟨hboth.1, hboth.2 ⟨fun _ => by decide, trivial, trivial⟩⟩

end Legba.Turns
