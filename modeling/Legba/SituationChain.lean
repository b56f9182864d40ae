import Legba.LabelledRun
import Legba.SituationTracker

/-!
# Is the trajectory of a situation one chain?

A tick decides its rows from the state it reads, and appends them.  The next
tick reads the newest row by evidence time.  The rows of a situation form one
chain, whose end is the state read, exactly as long as no recorded move is
dated behind a row which is already on the ledger.
-/

namespace Legba.Situations

open LabelledRun RowOrder List

theorem isStrictOrder_newer : IsStrictOrder newer :=
  ((isStrictOrder_greater _).greaterThen _).greaterThen _

def endState (rows : Ledger) : TrajectoryState :=
  (rows.getLast?.map fun row => row.event.stateTo).getD initialState

structure Continuous (rows : Ledger) : Prop where
  chained : ∀ before row after, rows = before ++ row :: after →
    row.event.stateFrom = endState before
  current : (firstBy newer rows).map (fun row => row.event.stateTo) =
    rows.getLast?.map fun row => row.event.stateTo

theorem continuous_nil : Continuous [] where
  chained := by simp
  current := rfl

theorem continuous_append_iff {rows : Ledger} {row : EventRow} (hrows : Continuous rows)
    (hfrom : row.event.stateFrom = ((firstBy newer rows).map fun row => row.event.stateTo).getD
      initialState) :
    Continuous (rows ++ [row]) ↔
      row.event.stateTo = row.event.stateFrom ∨ ∀ other ∈ rows, newer row other = true := by
  have hchained : ∀ before other after,
      rows ++ [row] = before ++ other :: after → other.event.stateFrom = endState before := by
    intro before other after hsplit
    rcases eq_nil_or_concat after with rfl | ⟨init, last, rfl⟩
    · obtain ⟨rfl, hother⟩ := append_inj' hsplit rfl
      obtain rfl := singleton_inj.mp hother
      rw [hfrom, hrows.current, endState]
    · rw [concat_eq_append, ← cons_append, ← append_assoc] at hsplit
      exact hrows.chained before other init (append_inj' hsplit rfl).1
  have hlast : ((rows ++ [row]).getLast?.map fun row => row.event.stateTo) =
      some row.event.stateTo := by
    simp
  have hread := isStrictOrder_newer.firstBy_append_singleton rows row
  by_cases hnewest : ∀ other ∈ rows, newer row other = true
  · rw [if_pos hnewest] at hread
    have hcontinuous : Continuous (rows ++ [row]) :=
      ⟨hchained, by rw [hread, hlast, Option.map_some]⟩
    exact ⟨fun _ => .inr hnewest, fun _ => hcontinuous⟩
  · rw [if_neg hnewest] at hread
    obtain ⟨found, hfound⟩ : ∃ found, firstBy newer rows = some found := by
      cases hrows' : rows with
      | nil => simp [hrows'] at hnewest
      | cons head rest => exact firstBy_isSome newer mem_cons_self
    rw [hfound, Option.map_some, Option.getD_some] at hfrom
    constructor
    · intro hcontinuous
      have hcurrent := hcontinuous.current
      rw [hread, hlast, hfound, Option.map_some, Option.some.injEq] at hcurrent
      exact .inl (by rw [hfrom, hcurrent])
    · rintro (hsame | hall)
      · refine ⟨hchained, ?_⟩
        rw [hread, hlast, hfound, Option.map_some, hsame, hfrom]
      · exact absurd hall hnewest

theorem rowsOf_append (ledger more : Ledger) (situationId : Uuid) :
    rowsOf (ledger ++ more) situationId = rowsOf ledger situationId ++ rowsOf more situationId :=
  filter_append ..

def bound (recording : Recording) (ledger : Ledger) (situationId : Uuid) :
    Bool :=
  (rowsOf ledger situationId).any fun row => row.sourceOutputId = recording.sourceOutputId

def admittedFor (recording : Recording) (situationId : Uuid) (event : TrajectoryEvent) : Bool :=
  event.situationId = situationId && admits event recording.verification

theorem recordEvent_eq (recording : Recording) (ledger : Ledger) (event : TrajectoryEvent) :
    recordEvent recording ledger event =
      if admits event recording.verification = true ∧
          bound recording ledger event.situationId = false then
        ledger ++ [recording.row event]
      else ledger := by
  have hany : (ledger.any fun row => row.situationId = event.situationId &&
      row.sourceOutputId = recording.sourceOutputId) =
        bound recording ledger event.situationId := by
    unfold bound rowsOf
    rw [any_filter]
  unfold recordEvent
  rw [hany]
  cases admits event recording.verification <;>
    cases bound recording ledger event.situationId <;> simp

theorem rowsOf_recordEvent (recording : Recording) (ledger : Ledger)
    (event : TrajectoryEvent) (situationId : Uuid) :
    rowsOf (recordEvent recording ledger event) situationId =
      if admittedFor recording situationId event = true ∧
          bound recording ledger situationId = false then
        rowsOf ledger situationId ++ [recording.row event]
      else rowsOf ledger situationId := by
  rw [recordEvent_eq]
  unfold admittedFor
  by_cases hsituation : event.situationId = situationId
  · subst hsituation
    simp only [decide_true, Bool.true_and]
    split
    · rw [rowsOf_append]
      simp [rowsOf, Recording.row]
    · rfl
  · simp only [hsituation, decide_false, Bool.false_and, Bool.false_eq_true, false_and, if_false]
    split
    · rw [rowsOf_append]
      simp [rowsOf, Recording.row, hsituation]
    · rfl

theorem bound_recordEvent {recording : Recording} {ledger : Ledger}
    {event : TrajectoryEvent} {situationId : Uuid} :
    bound recording (recordEvent recording ledger event) situationId =
      (bound recording ledger situationId || admittedFor recording situationId event) := by
  unfold bound
  rw [rowsOf_recordEvent]
  split
  · rename_i hlands
    rw [any_append, hlands.1]
    simp [Recording.row]
  · rename_i hnot
    rw [not_and_or] at hnot
    rcases hnot with hnot | hbound
    · rw [Bool.not_eq_true] at hnot
      rw [hnot, Bool.or_false]
    · rw [Bool.not_eq_false, bound] at hbound
      rw [hbound, Bool.true_or]

theorem rowsOf_recordSituationEvents (recording : Recording) (ledger : Ledger)
    (events : List TrajectoryEvent) (situationId : Uuid) :
    rowsOf (recordSituationEvents recording ledger events) situationId =
      if bound recording ledger situationId then rowsOf ledger situationId
      else
        rowsOf ledger situationId ++
          ((events.find? (admittedFor recording situationId)).map
            recording.row).toList := by
  unfold recordSituationEvents
  induction events generalizing ledger with
  | nil => simp
  | cons event rest ih =>
    rw [foldl_cons, ih, bound_recordEvent, rowsOf_recordEvent, find?_cons]
    cases hbound : bound recording ledger situationId with
    | true => simp
    | false =>
      cases hadmitted : admittedFor recording situationId event with
      | true => simp
      | false => simp

variable {deps : TrackerDeps}

/-- The verdict a tick records for a situation: the first one admitted, if the
tick comes to its recording and its output is not on the ledger yet. -/
def Tick.recorded (tick : Tick) (deps : TrackerDeps) (tracker : Tracker)
    (situationId : Uuid) : Option Verdict :=
  if tick.idle || !tracker.seeded || bound tick.recording tracker.ledger situationId then none
  else (tick.verdicts deps tracker).find? fun verdict =>
    (verdict.event? tick.now).any (admittedFor tick.recording situationId)

/-- The date of the verdict is after that of the row; on equal dates the time
of writing decides, then the id. -/
def Verdict.AheadOf (verdict : Verdict) (tick : Tick) (situationId : Uuid)
    (row : EventRow) : Prop :=
  row.event.occurredAt < verdict.occurredAt tick.now ∨
    verdict.occurredAt tick.now = row.event.occurredAt ∧
      (row.createdAt < tick.recording.createdAt ∨
        tick.recording.createdAt = row.createdAt ∧
          row.id.toNat < (tick.recording.rowId situationId).toNat)

theorem rowsOf_runTick (deps : TrackerDeps) (tracker : Tracker) (tick : Tick) (situationId : Uuid) :
    tick.recorded deps tracker situationId = none ∧
        rowsOf (runTick deps tracker tick).ledger situationId = rowsOf tracker.ledger situationId ∨
      ∃ verdict event,
        tick.recorded deps tracker situationId = some verdict ∧
        verdict ∈ tick.verdicts deps tracker ∧
        verdict.event? tick.now = some event ∧
        event.situationId = situationId ∧
        rowsOf (runTick deps tracker tick).ledger situationId =
          rowsOf tracker.ledger situationId ++ [tick.recording.row event] := by
  rw [runTick_ledger]
  unfold Tick.recorded
  by_cases hskip : (tick.idle || !tracker.seeded) = true
  · rw [if_pos hskip, hskip, Bool.true_or, if_pos rfl]
    exact .inl ⟨rfl, rfl⟩
  · rw [if_neg hskip, rowsOf_recordSituationEvents, buildUpdate, find?_filterMap]
    rw [Bool.not_eq_true] at hskip
    rw [hskip, Bool.false_or]
    by_cases hbound : bound tick.recording tracker.ledger situationId = true
    · rw [if_pos hbound, if_pos hbound]
      exact .inl ⟨rfl, rfl⟩
    · rw [if_neg hbound, if_neg hbound]
      cases hfind : (tick.verdicts deps tracker).find? fun verdict =>
          (verdict.event? tick.now).any (admittedFor tick.recording situationId) with
      | none => exact .inl ⟨rfl, by simp⟩
      | some verdict =>
        have hadmitted := find?_some hfind
        obtain ⟨event, hevent, hfor⟩ := (Option.any_eq_true _ _).mp hadmitted
        simp only [admittedFor, Bool.and_eq_true, decide_eq_true_eq] at hfor
        refine .inr ⟨verdict, event, rfl, mem_of_find?_eq_some hfind, hevent, hfor.1, ?_⟩
        simp [hevent]

def TrajectoriesContinuous (tracker : Tracker) : Prop :=
  ∀ situationId, Continuous (rowsOf tracker.ledger situationId)

def MovesAhead (deps : TrackerDeps) (tracker : Tracker) (tick : Tick) (_ : Tracker) : Prop :=
  ∀ situationId verdict,
    tick.recorded deps tracker situationId = some verdict →
      verdict.stateTo ≠ verdict.candidate.state →
        ∀ row ∈ rowsOf tracker.ledger situationId, verdict.AheadOf tick situationId row

def trackerStep (deps : TrackerDeps) (tracker : Tracker) (tick : Tick) : Option Tracker :=
  some (runTick deps tracker tick)

theorem continuous_runTick_iff {tracker : Tracker} (hcontinuous : TrajectoriesContinuous tracker)
    (tick : Tick) (situationId : Uuid) :
    Continuous (rowsOf (runTick deps tracker tick).ledger situationId) ↔
      ∀ verdict, tick.recorded deps tracker situationId = some verdict →
        verdict.stateTo ≠ verdict.candidate.state →
          ∀ row ∈ rowsOf tracker.ledger situationId, verdict.AheadOf tick situationId row := by
  rcases rowsOf_runTick deps tracker tick situationId with
    ⟨hnone, hrows⟩ | ⟨verdict, event, hrecorded, hverdict, hevent, hfor, hrows⟩
  · rw [hrows, hnone]
    exact ⟨fun _ => by simp, fun _ => hcontinuous situationId⟩
  · obtain ⟨hsituation, hdate, _, hfrom, hto⟩ := TrajectoryEvent.build?_eq_some hevent
    have hread : event.stateFrom = ((firstBy newer
        (rowsOf tracker.ledger situationId)).map fun row =>
          row.event.stateTo).getD initialState := by
      rw [hfrom, state_of_mem_verdicts hverdict, ← hsituation, hfor]
      rfl
    have hahead : ∀ row, newer (tick.recording.row event) row = true ↔
        verdict.AheadOf tick situationId row := by
      intro row
      simp [newer, greaterThen, greater, Verdict.AheadOf, Recording.row, hdate, hfor]
    rw [hrows, continuous_append_iff (hcontinuous situationId) hread, hrecorded]
    simp only [Option.some.injEq, forall_eq', hahead]
    change event.stateTo = event.stateFrom ∨ _ ↔ _
    rw [hto, hfrom]
    exact Decidable.or_iff_not_imp_left

/-- From an empty ledger, every situation's trajectory is a chain whose end is
the state read, in every state of a run, exactly when no tick records a move
dated behind a row of its situation. -/
theorem trajectories_continuous_iff (deps : TrackerDeps) (seeded : Bool)
    (watermarks : Uuid → Option Datetime) (ticks : List Tick) :
    VisitsOnly (trackerStep deps) TrajectoriesContinuous ⟨seeded, watermarks, []⟩ ticks ↔
      StepsSatisfy (trackerStep deps) (MovesAhead deps) ⟨seeded, watermarks, []⟩ ticks := by
  have hkeep : ∀ tracker tick next, True → trackerStep deps tracker tick = some next → True :=
    fun _ _ _ _ _ => trivial
  apply visitsOnly_iff_stepsSatisfy hkeep
  · intro tracker tick next _ hcontinuous hstep
    obtain rfl := Option.some.inj hstep
    exact forall_congr' fun situationId => continuous_runTick_iff hcontinuous tick situationId
  · trivial
  · exact fun _ => continuous_nil

def sampleTicks : List Tick :=
  [sampleTick 100 21 20 ⟨some 1, "unchanged_checkpoint", "no change", [], false⟩,
    sampleTick 200 22 20 ⟨some 1, "escalates", "a clash", [1], false⟩]

/-- The checkpoint is dated by the last event of the situation, so the
escalation on older evidence is filed behind it. -/
theorem escalation_filed_behind_checkpoint :
    ¬VisitsOnly (trackerStep (sampleDeps 1)) TrajectoriesContinuous sampleTracker
      sampleTicks := by
  intro hvisits
  have hfinal : TrajectoriesContinuous (sampleTicks.foldl (runTick (sampleDeps 1))
      sampleTracker) := hvisits.2.2
  have hread : (firstBy newer (rowsOf (sampleTicks.foldl (runTick (sampleDeps 1))
      sampleTracker).ledger 1)).map (fun row => row.event.stateTo) =
        some .watching := by decide +kernel
  have hlast : (rowsOf (sampleTicks.foldl (runTick (sampleDeps 1))
      sampleTracker).ledger 1).getLast?.map (fun row => row.event.stateTo) =
        some .escalating := by decide +kernel
  have hcurrent := (hfinal 1).current
  rw [hread, hlast] at hcurrent
  simp at hcurrent

/-! ## Every recorded move is legal -/

/-- The rows of one situation: each is a move of `next_state` from the initial
state or from a state an earlier row reached, a dormant or closed situation is
left on evidence only, and no two rows are bound to one output. -/
structure LegalRows (rows : Ledger) : Prop where
  moves : ∀ row ∈ rows, ∃ resolution dormant, row.event.stateTo =
    nextState row.event.stateFrom row.event.delta resolution dormant
  reads : ∀ before row after, rows = before ++ row :: after →
    row.event.stateFrom = initialState ∨
      ∃ earlier ∈ before, earlier.event.stateTo = row.event.stateFrom
  reopens : ∀ row ∈ rows, reopenable row.event.stateFrom = true →
    row.event.stateTo ≠ row.event.stateFrom → row.event.derivedFrom ≠ []
  bound_once : (rows.map EventRow.sourceOutputId).Nodup

theorem derivedFrom_ne_of_reopens {event : TrajectoryEvent} {resolution dormant : Bool}
    (hto : event.stateTo = nextState event.stateFrom event.delta resolution dormant)
    (hclosed : reopenable event.stateFrom = true)
    (hmoved : event.stateTo ≠ event.stateFrom) : event.derivedFrom ≠ [] := by
  apply event.evidence
  cases hdelta : event.delta with
  | unchangedCheckpoint =>
    rw [hto, hdelta, nextState, hclosed] at hmoved
    simp at hmoved
  | _ => rfl

theorem LegalRows.append {rows : Ledger} {row : EventRow} {resolution dormant : Bool}
    (hlegal : LegalRows rows)
    (hto : row.event.stateTo = nextState row.event.stateFrom row.event.delta resolution dormant)
    (hfrom : row.event.stateFrom = ((firstBy newer rows).map fun row => row.event.stateTo).getD
      initialState) (hbound : ∀ other ∈ rows, other.sourceOutputId ≠ row.sourceOutputId) :
    LegalRows (rows ++ [row]) where
  moves := by
    intro other hother
    rcases mem_append.mp hother with hold | hnew
    · exact hlegal.moves other hold
    · rw [mem_singleton.mp hnew]
      exact ⟨resolution, dormant, hto⟩
  reads := by
    intro before other after hsplit
    rcases eq_nil_or_concat after with rfl | ⟨init, last, rfl⟩
    · obtain ⟨rfl, hother⟩ := append_inj' hsplit rfl
      obtain rfl := singleton_inj.mp hother
      cases hfirst : firstBy newer rows with
      | none => exact .inl (by rw [hfrom, hfirst]; rfl)
      | some found =>
        exact .inr ⟨found, firstBy_mem hfirst, by rw [hfrom, hfirst]; rfl⟩
    · rw [concat_eq_append, ← cons_append, ← append_assoc] at hsplit
      exact hlegal.reads before other init (append_inj' hsplit rfl).1
  reopens := by
    intro other hother
    rcases mem_append.mp hother with hold | hnew
    · exact hlegal.reopens other hold
    · rw [mem_singleton.mp hnew]
      exact derivedFrom_ne_of_reopens hto
  bound_once := by
    rw [map_append, map_singleton, ← concat_eq_append]
    exact hlegal.bound_once.concat (by simpa using hbound)

theorem not_bound_of_recorded {tick : Tick} {tracker : Tracker} {situationId : Uuid}
    {verdict : Verdict} (hrecorded : tick.recorded deps tracker situationId =
      some verdict) : bound tick.recording tracker.ledger situationId = false := by
  unfold Tick.recorded at hrecorded
  split at hrecorded
  · simp at hrecorded
  · rename_i hcomes
    simpa using (Bool.or_eq_false_iff.mp (Bool.eq_false_iff.mpr hcomes)).2

theorem legalRows_runTick {tracker : Tracker} {situationId : Uuid}
    (hlegal : LegalRows (rowsOf tracker.ledger situationId)) (tick : Tick) :
    LegalRows (rowsOf (runTick deps tracker tick).ledger situationId) := by
  rcases rowsOf_runTick deps tracker tick situationId with
    ⟨_, hrows⟩ | ⟨verdict, event, hrecorded, hverdict, hevent, hfor, hrows⟩
  · rw [hrows]
    exact hlegal
  · obtain ⟨hsituation, _, hdelta, hfrom, hto⟩ := TrajectoryEvent.build?_eq_some hevent
    have hunbound := not_bound_of_recorded hrecorded
    rw [hrows]
    have hmove : event.stateTo =
        nextState event.stateFrom event.delta verdict.resolution verdict.dormant := by
      rw [hto, hfrom, hdelta, Verdict.stateTo]
    apply hlegal.append hmove
    · change event.stateFrom = _
      rw [hfrom, state_of_mem_verdicts hverdict, ← hsituation, hfor]
      rfl
    · intro other hother heq
      rw [bound, any_eq_false] at hunbound
      exact hunbound other hother (decide_eq_true heq)

theorem rowsOf_prefix_runTick (tracker : Tracker) (tick : Tick) (situationId : Uuid) :
    rowsOf tracker.ledger situationId <+: rowsOf (runTick deps tracker tick).ledger situationId := by
  rcases rowsOf_runTick deps tracker tick situationId with ⟨_, hrows⟩ | ⟨_, _, _, _, _, _, hrows⟩
  · rw [hrows]
  · rw [hrows]
    exact prefix_append _ _

/-- In every state of every run from an empty ledger, whatever the ticks are
given, the rows of each situation are legal, and from there on they are only
appended to. -/
theorem ledger_records_legal_moves (deps : TrackerDeps) (seeded : Bool)
    (watermarks : Uuid → Option Datetime) (ticks : List Tick) :
    VisitsOnly (trackerStep deps) (fun tracker => ∀ situationId,
        LegalRows (rowsOf tracker.ledger situationId) ∧
          ∀ later, VisitsOnly (trackerStep deps)
            (fun next => rowsOf tracker.ledger situationId <+: rowsOf next.ledger situationId)
            tracker later)
      ⟨seeded, watermarks, []⟩ ticks := by
  refine visitsOnly_of_steps
    (?_ : ∀ tracker, (∀ situationId, LegalRows (rowsOf tracker.ledger situationId)) → _) ?_ ?_ _
  · refine fun tracker hlegal situationId => ⟨hlegal situationId,
      visitsOnly_of_steps (fun _ => id) ?_ (prefix_refl _)⟩
    intro later tick next hprefix hstep
    obtain rfl := Option.some.inj hstep
    exact hprefix.trans (rowsOf_prefix_runTick later tick situationId)
  · intro tracker tick next hlegal hstep situationId
    obtain rfl := Option.some.inj hstep
    exact legalRows_runTick (hlegal situationId) tick
  · exact fun _ => ⟨by simp [rowsOf], by simp [rowsOf], by simp [rowsOf], nodup_nil⟩

end Legba.Situations
