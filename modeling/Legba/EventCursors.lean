import Legba.CriticFold
import Legba.EventSlice
import Legba.LabelledRun

/-!
# The event-clustering cursors under arriving rows

Ticks of the clustering interleave with arriving signals, findings and
critiques.  The signal leg follows the arrival order, and its watermark passes
no signal which a write loop has not reached.  The findings leg pages by
production time over a predicate which turns true when the faithfulness verdict
lands: a finding which is verified behind the watermark is never read.
-/

namespace Legba.EventClustering

open CriticFold KeysetPage LabelledRun List

abbrev FindingPosition := Datetime ×ₗ String

def findingPosition (row : AnalystRow) : FindingPosition :=
  toLex (row.producedAt, row.id)

/-- `_NIL_UUID` as text. -/
def nilUuid : String := "00000000-0000-0000-0000-000000000000"

/-- The live findings whose latest faithfulness verdict is at or above the
floor: `_FINDING_CANDIDATES_SQL` without its watermark. -/
def verifiedFindings (floor : ℚ) (outputs : List AnalystRow) : List AnalystRow :=
  outputs.filter fun row =>
    row.kind == "finding" && row.supersededBy.isNone && meetsFloor outputs floor row

/-- The findings of `fetch_tower_candidates`. -/
def findingsPage (floor : ℚ) (outputs : List AnalystRow) (since : Datetime)
    (maxCandidates : ℤ) (cursor : Option FindingPosition) : List AnalystRow :=
  page findingPosition (coerceInt maxCandidates)
    ((verifiedFindings floor outputs).filter
      (after findingPosition since cursor))

/-- One tick: its options, where the budget cuts it, whether the tower leg
runs, which findings yield a candidate, and how many of the candidates the
tower loop attempts. -/
structure Tick where
  linked : Linkage
  since : Datetime
  maxSignals : ℤ
  cut : Cut
  towerRuns : Bool
  towerSince : Datetime
  maxTower : ℤ
  signable : AnalystRow → Bool
  attempted : ℕ

inductive Label where
  | signal (row : SignalRow)
  | output (row : AnalystRow)
  | supersede (id : String) (newer : String)
  | tick (tick : Tick)

/-- The tables and the cursors, with the signals which a write loop reached,
the ids of the findings which the tower examined, and the findings which were
verified at the last tick. -/
structure State where
  signals : List SignalRow
  outputs : List AnalystRow
  signalLeg : Leg Datetime ℕ
  findingsLeg : Leg Datetime String
  reached : List EventEvidence
  examined : List String
  verifiedAtTick : List AnalystRow

def State.canonical (state : State) : List EventEvidence :=
  state.signals.filterMap canonicalText

def State.slice (state : State) (tick : Tick) : List EventEvidence :=
  signalSlice state.canonical tick.since tick.maxSignals state.signalLeg.cursor

def State.signalPass (state : State) (tick : Tick) : SignalPass :=
  EventClustering.signalPass tick.linked (state.slice tick) tick.cut

def readSignals (state : State) (tick : Tick) : State :=
  { state with
    signalLeg := (state.signalLeg.opened tick.since).moved
      ((state.signalPass tick).nextCursor state.signalLeg.cursor)
    reached := state.reached ++ (state.signalPass tick).reachedSignals }

def State.findingsPage (floor : ℚ) (state : State) (tick : Tick) : List AnalystRow :=
  EventClustering.findingsPage floor state.outputs tick.towerSince
    tick.maxTower state.findingsLeg.cursor

/-- The candidates which the tower loop leaves unprocessed.  A parked finding
yields no candidate. -/
def State.findingsLeft (floor : ℚ) (state : State) (tick : Tick) : List AnalystRow :=
  ((state.findingsPage floor tick).filter tick.signable).drop tick.attempted

def readFindings (floor : ℚ) (state : State) (tick : Tick) : State :=
  if tick.towerRuns then
    let read := state.findingsPage floor tick
    { state with
      findingsLeg := (state.findingsLeg.opened tick.towerSince).moved
        (resume findingPosition nilUuid state.findingsLeg.cursor read
          (state.findingsLeft floor tick))
      examined := state.examined ++
        (read.filter fun row => !tick.signable row).map AnalystRow.id ++
        ((read.filter tick.signable).take tick.attempted).map AnalystRow.id }
  else state

def step (floor : ℚ) (state : State) : Label → Option State
  | .signal row => some { state with signals := state.signals ++ [row] }
  | .output row =>
    if row.id ∈ state.outputs.map AnalystRow.id then none
    else some { state with outputs := state.outputs ++ [row] }
  | .supersede id newer =>
    some { state with
      outputs := state.outputs.map fun row =>
        if row.id = id then { row with supersededBy := some newer }
        else row }
  | .tick tick =>
    some { readFindings floor (readSignals state tick) tick with
      verifiedAtTick := verifiedFindings floor state.outputs }

/-- Every canonical text signal after the initial bound was a member of a
candidate a write loop reached, or is after the saved signal cursor. -/
def SignalsKept (state : State) : Prop :=
  state.signalLeg.Keeps EventEvidence.position state.canonical (· ∈ state.reached)

/-- Every live finding which was verified at the last tick, and is after the
initial bound, was examined or is after the saved findings cursor. -/
def FindingsKept (state : State) : Prop :=
  state.findingsLeg.Keeps findingPosition state.verifiedAtTick
    fun row => row.id ∈ state.examined

def SignalsInOrder (state : State) (label : Label) (_ : State) : Prop :=
  match label with
  | .signal row =>
    ∀ arriving, canonicalText row = some arriving →
      ∀ present ∈ state.canonical, present.position < arriving.position
  | _ => True

def SignalIdsOwed (state : State) (label : Label) (next : State) : Prop :=
  match label with
  | .tick tick =>
    ∀ signal ∈ state.canonical,
      next.signalLeg.InScope EventEvidence.position signal →
      owedInstant EventEvidence.position (state.signalPass tick).unprocessed.flatten =
        some signal.fetchedAt →
      signal ∉ next.reached → signal.id ≠ 0
  | _ => True

def ResumesAt (floor : ℚ) (state : State) (tick : Tick) (row : AnalystRow) :
    Prop :=
  tick.towerRuns = true ∧
    owedInstant findingPosition (state.findingsLeft floor tick) = some row.producedAt

/-- A finding which a tick finds verified, and the tick before did not, was
examined earlier or is not passed by the findings cursor, unless the tick
resumes at its instant; and no unexamined finding has an id up to the nil one
at that instant. -/
def VerdictInTime (floor : ℚ) (state : State) (label : Label) (next : State) :
    Prop :=
  match label with
  | .tick tick =>
    ∀ row ∈ verifiedFindings floor state.outputs,
      next.findingsLeg.InScope findingPosition row →
      (row ∉ state.verifiedAtTick →
        row.id ∈ state.examined ∨
          state.findingsLeg.Ahead findingPosition row ∨
          ResumesAt floor state tick row) ∧
      (ResumesAt floor state tick row → row.id ∉ next.examined → nilUuid < row.id)
  | _ => True

/-! ## The signal leg -/

theorem inclusive_lt_position_iff (signal : EventEvidence) :
    toLex (signal.fetchedAt, 0) < signal.position ↔ signal.id ≠ 0 := by
  have hid : 0 < signal.id.toNat ↔ signal.id ≠ 0 := by
    rw [Nat.pos_iff_ne_zero, ne_eq, ne_eq, ← BitVec.toNat_inj]
    rfl
  rw [Prod.Lex.lt_iff, ← hid]
  exact ⟨fun hlt => hlt.elim (fun h => absurd h (lt_irrefl _)) And.right,
    fun hpos => .inr ⟨rfl, hpos⟩⟩

section

variable (linked : Linkage) (slice : List EventEvidence) (cursor : Option Position) {cut : Cut}

theorem lifecycle_or_cluster_nextCursor (hcut : cut = .lifecycle ∨ cut = .cluster) :
    (signalPass linked slice cut).nextCursor cursor = cursor ∧
      (signalPass linked slice cut).unprocessed = [] := by
  rcases hcut with rfl | rfl
  · exact ⟨rfl, rfl⟩
  · refine ⟨?_, rfl⟩
    cases slice with
    | nil => rfl
    | cons signal rest =>
      cases (signal :: rest).getLast? <;> rfl

theorem matching_or_write_nextCursor (hcut : cut = .matching ∨ ∃ allowed, cut = .write allowed) :
    (signalPass linked slice cut).nextCursor cursor =
        resume EventEvidence.position 0 cursor slice
          (signalPass linked slice cut).unprocessed.flatten ∧
      (∀ signal ∈ (signalPass linked slice cut).unprocessed.flatten, signal ∈ slice) ∧
      (∀ signal ∈ slice,
        signal ∉ (signalPass linked slice cut).unprocessed.flatten →
          signal ∈ (signalPass linked slice cut).reachedSignals) ∧
      ∀ signal ∈ (signalPass linked slice cut).reachedSignals, signal ∈ slice := by
  rcases hcut with rfl | ⟨allowed, rfl⟩
  · refine ⟨matching_nextCursor, fun signal hsignal =>
      mem_clusterEvidence_flatten.mp hsignal, fun signal hsignal hnot => ?_,
      fun signal hsignal => absurd hsignal not_mem_nil⟩
    exact absurd (mem_clusterEvidence_flatten.mpr hsignal) hnot
  · exact ⟨write_nextCursor, fun signal hsignal =>
      mem_slice_of_mem_unprocessed hsignal, fun signal hsignal hnot =>
      (mem_reached_or_unprocessed hsignal).resolve_right hnot, fun _ hsignal =>
      mem_slice_of_mem_reachedSignals hsignal⟩

end

theorem cut_cases (cut : Cut) :
    (cut = .lifecycle ∨ cut = .cluster) ∨ (cut = .matching ∨ ∃ allowed, cut = .write allowed) := by
  cases cut with
  | lifecycle => exact .inl (.inl rfl)
  | cluster => exact .inl (.inr rfl)
  | matching => exact .inr (.inl rfl)
  | write allowed => exact .inr (.inr ⟨allowed, rfl⟩)

variable {state next : State} {floor : ℚ} {label : Label}

theorem readSignals_kept_iff (hkept : SignalsKept state) (tick : Tick) :
    SignalsKept (readSignals state tick) ↔
      SignalIdsOwed state (.tick tick) (readSignals state tick) := by
  have hdone : ∀ signal, signal ∈ state.reached → signal ∈ (readSignals state tick).reached :=
    fun signal hsignal => mem_append_left _ hsignal
  rcases cut_cases tick.cut with hcut | hcut
  · obtain ⟨hcursor, hnil⟩ := lifecycle_or_cluster_nextCursor tick.linked
      (state.slice tick) state.signalLeg.cursor hcut
    refine iff_of_true ?_ fun signal _ _ howed _ => ?_
    · have hnext : (readSignals state tick).signalLeg = state.signalLeg.opened tick.since := by
        simp only [readSignals, State.signalPass, hcursor, Leg.moved_cursor]
      unfold SignalsKept
      rw [hnext]
      exact Leg.Keeps.unmoved hkept hdone
    · rw [State.signalPass, hnil] at howed
      exact absurd howed (by simp [owedInstant])
  · obtain ⟨hcursor, hsub, hread, hreached⟩ :=
      matching_or_write_nextCursor tick.linked (state.slice tick) state.signalLeg.cursor hcut
    have hnext : (readSignals state tick).signalLeg =
        (state.signalLeg.opened tick.since).moved
          (resume EventEvidence.position 0 state.signalLeg.cursor
            (state.slice tick)
            (state.signalPass tick).unprocessed.flatten) := by
      simp only [readSignals, State.signalPass, hcursor]
    have hiff := Leg.Keeps.moved_iff 0 (coerceInt_pos tick.maxSignals)
      (fun _ _ _ _ heq => position_injective heq) hsub hdone
      (fun signal hsignal hnot => mem_append_right state.reached (hread signal hsignal hnot))
      (fun signal hsignal => (mem_append.mp hsignal).imp_right (hreached signal))
      hkept
    simp only [instantOf_position, inclusive_lt_position_iff] at hiff
    unfold SignalsKept SignalIdsOwed
    rw [hnext]
    exact hiff

def SignalCursorBounded (state : State) : Prop :=
  ∀ bound, state.signalLeg.cursor = some bound →
    state.signalLeg.start = some bound ∨ ∃ signal ∈ state.canonical, bound ≤ signal.position

theorem readSignals_bounded (hbounded : SignalCursorBounded state) (tick : Tick) :
    SignalCursorBounded (readSignals state tick) := by
  have hsame : ∀ bound, state.signalLeg.cursor = some bound →
      (readSignals state tick).signalLeg.start = some bound ∨
        ∃ signal ∈ state.canonical, bound ≤ signal.position := by
    intro bound hbound
    have hopened := Leg.opened_of_cursor_eq_some tick.since hbound
    simp only [readSignals, Leg.moved, hopened]
    exact hbounded bound hbound
  intro bound hbound
  rcases cut_cases tick.cut with hcut | hcut
  · obtain ⟨hcursor, _⟩ := lifecycle_or_cluster_nextCursor tick.linked
      (state.slice tick) state.signalLeg.cursor hcut
    exact hsame bound (hcursor.symm.trans hbound)
  · obtain ⟨hcursor, hsub, _, _⟩ := matching_or_write_nextCursor tick.linked
      (state.slice tick) state.signalLeg.cursor hcut
    rcases resume_cases hsub (hcursor.symm.trans hbound) with
      hold | ⟨signal, hsignal, rfl⟩ | ⟨signal, hsignal, rfl⟩
    · exact hsame bound hold
    · exact .inr ⟨signal, (mem_signalSlice hsignal).1, inclusiveAt_le_iff.mpr le_rfl⟩
    · exact .inr ⟨signal, (mem_signalSlice hsignal).1, le_rfl⟩

theorem mem_canonical_append {row : SignalRow} {signal : EventEvidence} :
    signal ∈ (state.signals ++ [row]).filterMap canonicalText ↔
      signal ∈ state.canonical ∨ canonicalText row = some signal := by
  rw [filterMap_append, mem_append]
  refine or_congr Iff.rfl ?_
  simp

theorem signalsKept_arrival {row : SignalRow} (hkept : SignalsKept state)
    (hbounded : SignalCursorBounded state)
    (horder : ∀ arriving, canonicalText row = some arriving →
      ∀ present ∈ state.canonical, present.position < arriving.position) :
    SignalsKept { state with signals := state.signals ++ [row] } := by
  intro signal hsignal hscope
  rcases mem_canonical_append.mp hsignal with hold | harriving
  · exact hkept signal hold hscope
  · refine .inr fun bound hbound => ?_
    rcases hbounded bound hbound with hstart | ⟨present, hpresent, hle⟩
    · change after _ state.signalLeg.lookback state.signalLeg.start signal = true at hscope
      rw [hstart, after_some] at hscope
      exact hscope
    · exact hle.trans_lt (horder signal harriving present hpresent)

theorem readFindings_signal (floor : ℚ) (state : State) (tick : Tick) :
    (readFindings floor state tick).signalLeg = state.signalLeg ∧
      (readFindings floor state tick).signals = state.signals ∧
      (readFindings floor state tick).reached = state.reached := by
  unfold readFindings
  split <;> exact ⟨rfl, rfl, rfl⟩

theorem signalsKept_readFindings {tick : Tick} :
    SignalsKept (readFindings floor state tick) ↔ SignalsKept state := by
  obtain ⟨hleg, hsignals, hreached⟩ := readFindings_signal floor state tick
  unfold SignalsKept State.canonical
  rw [hleg, hsignals, hreached]

theorem signalsKept_step_iff (hkept : SignalsKept state) (hbounded : SignalCursorBounded state)
    (hstep : step floor state label = some next) (horder : SignalsInOrder state label next) :
    SignalsKept next ↔ SignalIdsOwed state label next := by
  cases label with
  | signal row =>
    simp only [step, Option.some.injEq] at hstep
    subst hstep
    exact iff_of_true (signalsKept_arrival hkept hbounded horder) trivial
  | output row =>
    simp only [step, Option.ite_none_left_eq_some, Option.some.injEq] at hstep
    obtain ⟨_, rfl⟩ := hstep
    exact iff_of_true hkept trivial
  | supersede id newer =>
    simp only [step, Option.some.injEq] at hstep
    subst hstep
    exact iff_of_true hkept trivial
  | tick tick =>
    simp only [step, Option.some.injEq] at hstep
    subst hstep
    refine (signalsKept_readFindings.trans (readSignals_kept_iff hkept tick)).trans ?_
    obtain ⟨hleg, _, hreached⟩ := readFindings_signal floor (readSignals state tick) tick
    simp only [SignalIdsOwed, hleg, hreached]

theorem signalCursorBounded_step (hbounded : SignalCursorBounded state)
    (hstep : step floor state label = some next) : SignalCursorBounded next := by
  cases label with
  | signal row =>
    simp only [step, Option.some.injEq] at hstep
    subst hstep
    intro bound hbound
    refine (hbounded bound hbound).imp_right fun ⟨signal, hsignal, hle⟩ => ?_
    exact ⟨signal, mem_canonical_append.mpr (.inl hsignal), hle⟩
  | output row =>
    simp only [step, Option.ite_none_left_eq_some, Option.some.injEq] at hstep
    obtain ⟨_, rfl⟩ := hstep
    exact hbounded
  | supersede id newer =>
    simp only [step, Option.some.injEq] at hstep
    subst hstep
    exact hbounded
  | tick tick =>
    simp only [step, Option.some.injEq] at hstep
    subst hstep
    obtain ⟨hleg, hsignals, _⟩ := readFindings_signal floor (readSignals state tick) tick
    have hread := readSignals_bounded hbounded tick
    simp only [hleg, hsignals]
    exact hread

/-! ## The findings leg -/

theorem nilUuid_lt_position_iff (row : AnalystRow) :
    toLex (row.producedAt, nilUuid) < findingPosition row ↔ nilUuid < row.id := by
  rw [Prod.Lex.lt_iff]
  exact ⟨fun hlt => hlt.elim (fun h => absurd h (lt_irrefl _)) And.right,
    fun hpos => .inr ⟨rfl, hpos⟩⟩

theorem verifiedFindings_inj {outputs : List AnalystRow}
    (hnodup : (outputs.map AnalystRow.id).Nodup) :
    ∀ a ∈ verifiedFindings floor outputs, ∀ b ∈ verifiedFindings floor outputs,
      findingPosition a = findingPosition b → a = b := by
  intro a ha b hb heq
  exact inj_on_of_nodup_map hnodup (mem_filter.mp ha).1
    (mem_filter.mp hb).1 (congrArg (fun p => (ofLex p).2) heq)

section

variable {floor : ℚ} {state : State} {tick : Tick} {row : AnalystRow}

theorem examined_of_not_left (hruns : tick.towerRuns) (hrow : row ∈ state.findingsPage floor tick)
    (hnot : row ∉ state.findingsLeft floor tick) :
    row.id ∈ (readFindings floor state tick).examined := by
  simp only [readFindings, hruns, if_true]
  by_cases hsignable : tick.signable row = true
  · have hcandidate : row ∈ (state.findingsPage floor tick).filter tick.signable :=
      mem_filter.mpr ⟨hrow, hsignable⟩
    rw [← take_append_drop tick.attempted ((state.findingsPage floor
      tick).filter tick.signable), mem_append] at hcandidate
    exact mem_append_right _ (mem_map_of_mem (hcandidate.resolve_right hnot))
  · refine mem_append_left _ (mem_append_right _ ?_)
    exact mem_map_of_mem (mem_filter.mpr
      ⟨hrow, by rw [Bool.not_eq_true] at hsignable; rw [hsignable]; rfl⟩)

theorem mem_page_of_examined (hruns : tick.towerRuns)
    (hnodup : (state.outputs.map AnalystRow.id).Nodup)
    (hrow : row ∈ verifiedFindings floor state.outputs)
    (hexamined : row.id ∈ (readFindings floor state tick).examined) :
    row.id ∈ state.examined ∨ row ∈ state.findingsPage floor tick := by
  have hpage : ∀ other ∈ state.findingsPage floor tick, other.id = row.id →
      row ∈ state.findingsPage floor tick := by
    intro other hother heq
    have hverified := (mem_filter.mp (mem_of_mem_page hother)).1
    have hsame := inj_on_of_nodup_map hnodup (mem_filter.mp hverified).1 (mem_filter.mp hrow).1 heq
    exact hsame ▸ hother
  simp only [readFindings, hruns, if_true, mem_append] at hexamined
  rcases hexamined with (hold | hparked) | htaken
  · exact .inl hold
  · obtain ⟨other, hother, heq⟩ := mem_map.mp hparked
    exact .inr (hpage other (mem_of_mem_filter hother) heq)
  · obtain ⟨other, hother, heq⟩ := mem_map.mp htaken
    exact .inr (hpage other (mem_of_mem_filter (mem_of_mem_take hother)) heq)

theorem readFindings_row_iff (hnodup : (state.outputs.map AnalystRow.id).Nodup)
    (hrow : row ∈ verifiedFindings floor state.outputs)
    (hscope : (readFindings floor state tick).findingsLeg.InScope findingPosition row) :
    (row.id ∈ (readFindings floor state tick).examined ∨
        (readFindings floor state tick).findingsLeg.Ahead findingPosition row) ↔
      (row.id ∈ state.examined ∨
        state.findingsLeg.Ahead findingPosition row ∨
        ResumesAt floor state tick row) ∧
      (ResumesAt floor state tick row →
        row.id ∉ (readFindings floor state tick).examined →
        nilUuid < row.id) := by
  by_cases hruns : tick.towerRuns = true
  · have hleg : (readFindings floor state tick).findingsLeg =
        (state.findingsLeg.opened tick.towerSince).moved
          (resume findingPosition nilUuid state.findingsLeg.cursor
            (state.findingsPage floor tick)
            (state.findingsLeft floor tick)) := by
      simp only [readFindings, hruns, if_true]
    have hresumes : ResumesAt floor state tick row ↔
        owedInstant findingPosition (state.findingsLeft floor tick) =
          some (instantOf (findingPosition row)) := and_iff_right hruns
    rw [hleg] at hscope ⊢
    rw [hresumes, ← nilUuid_lt_position_iff]
    refine Leg.moved_row_iff nilUuid (coerceInt_pos tick.maxTower)
      (verifiedFindings_inj hnodup)
      (fun owed howed => mem_of_mem_filter (mem_of_mem_drop howed)) ?_
      (examined_of_not_left hruns) (mem_page_of_examined hruns hnodup hrow)
      hrow hscope
    intro hold
    simp only [readFindings, hruns, if_true, append_assoc]
    exact mem_append_left _ hold
  · have hsame : readFindings floor state tick = state := by simp only [readFindings, if_neg hruns]
    have hnever : ¬ResumesAt floor state tick row := fun h => hruns h.1
    rw [hsame]
    simp only [hnever, or_false, false_imp_iff, and_true]

theorem kept_of_verifiedAtTick (hkept : FindingsKept state) (hrow : row ∈ state.verifiedAtTick)
    (hscope : (readFindings floor state tick).findingsLeg.InScope findingPosition row) :
    row.id ∈ state.examined ∨ state.findingsLeg.Ahead findingPosition row := by
  by_cases hruns : tick.towerRuns = true
  · simp only [readFindings, hruns, if_true] at hscope
    exact (Leg.Keeps.opened hkept row hrow hscope).imp_right And.left
  · simp only [readFindings, if_neg hruns] at hscope
    exact hkept row hrow hscope

end

theorem findingsKept_step_iff (hnodup : (state.outputs.map AnalystRow.id).Nodup)
    (hkept : FindingsKept state) (hstep : step floor state label = some next) :
    FindingsKept next ↔ VerdictInTime floor state label next := by
  cases label with
  | signal row =>
    simp only [step, Option.some.injEq] at hstep
    subst hstep
    exact iff_of_true hkept trivial
  | output row =>
    simp only [step, Option.ite_none_left_eq_some, Option.some.injEq] at hstep
    obtain ⟨_, rfl⟩ := hstep
    exact iff_of_true hkept trivial
  | supersede id newer =>
    simp only [step, Option.some.injEq] at hstep
    subst hstep
    exact iff_of_true hkept trivial
  | tick tick =>
    simp only [step, Option.some.injEq] at hstep
    subst hstep
    have hids : ((readSignals state tick).outputs.map AnalystRow.id).Nodup := hnodup
    have hbefore : FindingsKept (readSignals state tick) := hkept
    refine forall₂_congr fun row hrow => forall_congr' fun hscope => ?_
    refine (readFindings_row_iff hids hrow hscope).trans (and_congr_left fun _ => ?_)
    refine ⟨fun hold _ => hold, fun hnew => ?_⟩
    by_cases hold : row ∈ state.verifiedAtTick
    · exact (kept_of_verifiedAtTick hbefore hold hscope).imp_right .inl
    · exact hnew hold

theorem outputs_nodup_step (hnodup : (state.outputs.map AnalystRow.id).Nodup)
    (hstep : step floor state label = some next) : (next.outputs.map AnalystRow.id).Nodup := by
  cases label with
  | signal row =>
    simp only [step, Option.some.injEq] at hstep
    subst hstep
    exact hnodup
  | output row =>
    simp only [step, Option.ite_none_left_eq_some, Option.some.injEq] at hstep
    obtain ⟨hfresh, rfl⟩ := hstep
    rw [map_append, nodup_append]
    refine ⟨hnodup, nodup_singleton _, ?_⟩
    rintro a ha b hb rfl
    exact hfresh (mem_singleton.mp hb ▸ ha)
  | supersede id newer =>
    simp only [step, Option.some.injEq] at hstep
    subst hstep
    have hids : (state.outputs.map fun row =>
        if row.id = id then { row with supersededBy := some newer }
        else row).map AnalystRow.id = state.outputs.map AnalystRow.id := by
      rw [map_map]
      refine map_congr_left fun row _ => ?_
      rw [Function.comp_apply]
      split <;> rfl
    rw [hids]
    exact hnodup
  | tick tick =>
    simp only [step, Option.some.injEq] at hstep
    subst hstep
    have houtputs : (readFindings floor (readSignals state tick) tick).outputs = state.outputs := by
      unfold readFindings
      split <;> rfl
    rw [houtputs]
    exact hnodup

structure CursorRun where
  floor : ℚ
  signals : List SignalRow
  outputs : List AnalystRow
  outputs_nodup : (outputs.map AnalystRow.id).Nodup
  signalCursor : Option Position
  findingsCursor : Option FindingPosition
  labels : List Label

namespace CursorRun

def start (r : CursorRun) : State where
  signals := r.signals
  outputs := r.outputs
  signalLeg := { cursor := r.signalCursor, start := r.signalCursor,
                 lookback := 0 }
  findingsLeg := { cursor := r.findingsCursor, start := r.findingsCursor,
                   lookback := 0 }
  reached := []
  examined := []
  verifiedAtTick := []

/-- If the signals arrive in order then no signal is skipped, and no verified
finding is skipped, whatever the delay of its verdict. -/
def SkipsNothing (r : CursorRun) : Prop :=
  (StepsSatisfy (step r.floor) SignalsInOrder r.start r.labels →
    VisitsOnly (step r.floor) SignalsKept r.start r.labels) ∧
  VisitsOnly (step r.floor) FindingsKept r.start r.labels

def NothingPassed (r : CursorRun) : Prop :=
  (StepsSatisfy (step r.floor) SignalsInOrder r.start r.labels →
    StepsSatisfy (step r.floor) SignalIdsOwed r.start r.labels) ∧
  StepsSatisfy (step r.floor) (VerdictInTime r.floor) r.start r.labels

theorem signalsKept_iff (r : CursorRun)
    (horder : StepsSatisfy (step r.floor) SignalsInOrder r.start r.labels) :
    VisitsOnly (step r.floor) SignalsKept r.start r.labels ↔
      StepsSatisfy (step r.floor) SignalIdsOwed r.start r.labels := by
  refine visitsOnly_iff_goodSteps
    (fun state (hinv : SignalsKept state ∧ SignalCursorBounded state) => hinv.1) ?_ ?_
    ⟨Leg.keeps_of_start_eq rfl, fun _ hbound => .inl hbound⟩ horder
  · intro state label next hinv hstep hinOrder hgood
    exact ⟨(signalsKept_step_iff hinv.1 hinv.2 hstep hinOrder).mpr hgood,
      signalCursorBounded_step hinv.2 hstep⟩
  · intro state label next hinv hstep hinOrder hbad hkept
    exact hbad ((signalsKept_step_iff hinv.1 hinv.2 hstep hinOrder).mp hkept)

theorem findingsKept_iff (r : CursorRun) :
    VisitsOnly (step r.floor) FindingsKept r.start r.labels ↔
      StepsSatisfy (step r.floor) (VerdictInTime r.floor) r.start r.labels :=
  visitsOnly_iff_stepsSatisfy
    (fun _ _ _ hnodup hstep => outputs_nodup_step hnodup hstep)
    (fun _ _ _ hnodup hkept hstep => findingsKept_step_iff hnodup hkept hstep)
    r.outputs_nodup (Leg.keeps_of_start_eq rfl)

theorem skipsNothing_iff_nothingPassed (r : CursorRun) : r.SkipsNothing ↔ r.NothingPassed :=
  and_congr (forall_congr' r.signalsKept_iff) r.findingsKept_iff

def towerTick : Tick where
  linked := fun _ _ _ => false
  since := 0
  maxSignals := 500
  cut := .write 500
  towerRuns := true
  towerSince := 0
  maxTower := 50
  signable := fun _ => true
  attempted := 50

def lateFinding : AnalystRow :=
  { id := "a", kind := "finding", analystId := none, producedAt := 1 }

def lateVerdictRun : CursorRun where
  floor := 1 / 2
  signals := []
  outputs :=
    [lateFinding,
      { id := "b", kind := "finding", analystId := none, producedAt := 2 },
      { id := "v", kind := "critique", analystId := none, producedAt := 3
        title := some "Faithfulness verify", analyzedOutputId := some "b"
        overallScore := some 1 }]
  outputs_nodup := by decide
  signalCursor := none
  findingsCursor := none
  labels :=
    [.tick towerTick,
      .output { id := "w", kind := "critique", analystId := none
                producedAt := 4, title := some "Faithfulness verify"
                analyzedOutputId := some "a", overallScore := some 1 },
      .tick towerTick]

/-- The finding verified late is neither examined nor after the cursor. -/
theorem not_forall_skipsNothing : ¬∀ r : CursorRun, r.SkipsNothing := by
  intro hall
  have hkept := (hall lateVerdictRun).2.final rfl
  have hfinding := hkept lateFinding (by decide +kernel) (by unfold Leg.InScope; decide +kernel)
  rcases hfinding with hexamined | hahead
  · exact absurd hexamined (by decide +kernel)
  · exact absurd (hahead (toLex (2, "b")) (by decide +kernel)) (by decide +kernel)

end CursorRun
end Legba.EventClustering
