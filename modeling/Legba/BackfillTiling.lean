import Legba.LabelledRun
import Legba.BackfillHandoff

/-!
# Tiling the stream

The replay takes the signals stamped up to the capture and written before the
pool was read, the consumer takes the signals published after the boundary was
read.  The stamp of a signal and its place in the stream are two axes, so the
two halves do not tile: a signal stamped before the capture and published
after the boundary can be in both, and one stamped after the capture and
published before the boundary is in neither.
-/

namespace Legba.Subscriptions

open List Nat
namespace Handoff

open KeyedTable LabelledRun SubjectTokens

/-- Every published signal which is not backfilled and which the target
matches has reached it exactly once. -/
def DeliversExactlyOnce (handoff : Handoff) (state : HandoffState) : Prop :=
  ∀ id entry, state.signals.row? id = some entry → entry.published.isSome →
    handoff.Matches entry.signal → ¬ IsBackfill entry.signal.row →
    handoff.deliveries state id = 1

def InReach (handoff : Handoff) (schedule : Schedule) (entry : SourceEntry) :
    Prop :=
  entry.signal.fetchedAt ≤ schedule.capturedAt ∧
    ∃ select ∈ schedule.selects,
      readSliceKeeps handoff.evalResidual select.1.subscription
        entry.signal.row select.1.sourceId select.1.ownerTenant ∧
      ∃ w, entry.writtenAt = some w ∧ w < select.2

/-- Published before the boundary and stamped up to the capture, or published
after the boundary and not within reach of the replay. -/
def Tiles (handoff : Handoff) (schedule : Schedule) (entry : SourceEntry)
    (publication : Publication) : Prop :=
  publication.step < schedule.boundary ∧ entry.signal.fetchedAt ≤ schedule.capturedAt ∨
    schedule.boundary < publication.step ∧ ¬ handoff.InReach schedule entry

variable {row : SignalRow} {after : SourceEntry} {schedule : Schedule}

theorem mem_readSlice {evalResidual : String → SignalRow → Bool}
    {b : ResolvedBinding} {pool : List SignalRow} :
    row ∈ readSlice evalResidual b pool ↔
      row ∈ pool ∧ readSliceKeeps evalResidual b.subscription row b.sourceId b.ownerTenant := by
  have hselected : row ∈ (buildSqlFilter b.sourceId b.ownerTenant
      b.subscription).selectSignals pool ↔
      row ∈ pool ∧ (buildSqlFilter b.sourceId b.ownerTenant b.subscription).Keeps row := by
    unfold SqlFilter.selectSignals
    rw [mem_insertionSort, mem_filter, decide_eq_true_eq]
  unfold readSlice readSliceKeeps residualMatches
  dsimp only
  cases b.subscription.predicate with
  | none =>
    rw [hselected]
    simp
  | some pred =>
    by_cases hempty : pred = ""
    · simp [hempty, hselected, and_true]
    · simp [hempty, mem_filter, hselected, and_assoc]

variable {signals : Table Uuid SourceEntry} {handoff : Handoff}
  {state next : HandoffState} {id : Uuid} {entry : SourceEntry}
  {cursor : BackfillCursor} {remaining : List ResolvedBinding}
  {rows merged delivered : List SignalRow} {binding : ResolvedBinding}
  {consumer : Option ConsumerConfig} {p : Publication}

theorem mem_pool :
    row ∈ pool signals ↔
      ∃ id entry, signals.row? id = some entry ∧
        entry.writtenAt.isSome = true ∧ entry.signal.row = row := by
  unfold pool
  rw [mem_map]
  constructor
  · rintro ⟨⟨id, entry⟩, hselected, hrow⟩
    obtain ⟨hentry, hwritten⟩ := Table.mem_select.mp hselected
    exact ⟨id, entry, hentry, hwritten, hrow⟩
  · rintro ⟨id, entry, hentry, hwritten, hrow⟩
    exact ⟨(id, entry), Table.mem_select.mpr ⟨hentry, hwritten⟩, hrow⟩

theorem mem_ids_readBindingHistory
    (hids : ∀ id entry, signals.row? id = some entry → entry.signal.signalId = id)
    (cursor : BackfillCursor) (b : ResolvedBinding) (id : Uuid) :
    some id ∈ (readBindingHistory handoff.evalResidual cursor b (pool signals)).map SignalRow.id ↔
      ∃ entry, signals.row? id = some entry ∧
        entry.writtenAt.isSome = true ∧
        readSliceKeeps handoff.evalResidual b.subscription entry.signal.row
          b.sourceId b.ownerTenant ∧
        entry.signal.fetchedAt ≤ cursor.capturedAt := by
  unfold readBindingHistory
  simp only [mem_map, mem_filter, mem_readSlice, mem_pool]
  constructor
  · rintro ⟨_, ⟨⟨⟨other, entry, hentry, hwritten, rfl⟩, hkeeps⟩, htime⟩, hid⟩
    have hother : other = id := by
      rw [← hids other entry hentry]
      exact Option.some.inj hid
    subst other
    exact ⟨entry, hentry, hwritten, hkeeps, by simpa [Signal.row] using htime⟩
  · rintro ⟨entry, hentry, hwritten, hkeeps, htime⟩
    refine ⟨entry.signal.row, ⟨⟨⟨id, entry, hentry, hwritten, rfl⟩, hkeeps⟩, ?_⟩, ?_⟩
    · simpa [Signal.row] using htime
    · exact congrArg some (hids id entry hentry)

theorem perm_chronological (rows : List SignalRow) : (chronological rows).Perm rows :=
  perm_insertionSort _ rows

def progress : HandoffPhase → Option (BackfillCursor × List ResolvedBinding × List SignalRow)
  | .reading cursor remaining merged => some (cursor, remaining, merged)
  | .replayed cursor delivered => some (cursor, [], delivered)
  | .forwarding cursor delivered _ => some (cursor, [], delivered)
  | _ => none

structure EntryInvariant (state : HandoffState) (id : Uuid) (entry : SourceEntry) : Prop where
  id_eq : entry.signal.signalId = id
  written_lt : ∀ w, entry.writtenAt = some w → w < state.steps
  published_lt : ∀ p, entry.published = some p → p.step < state.steps
  seq_pos : ∀ p, entry.published = some p → 0 < p.seq
  seq_le : ∀ p, entry.published = some p → p.seq ≤ state.lastSeq
  written_first : ∀ p, entry.published = some p → ∃ w, entry.writtenAt = some w ∧ w < p.step

structure CursorInvariant (handoff : Handoff) (state : HandoffState)
    (cursor : BackfillCursor) (remaining : List ResolvedBinding)
    (rows : List SignalRow) : Prop where
  capturedAt_eq : cursor.capturedAt = state.schedule.capturedAt
  boundarySeq_le : cursor.boundarySeq ≤ state.lastSeq
  boundary_lt : state.schedule.boundary < state.steps
  split : ∀ id entry p, state.signals.row? id = some entry →
    entry.published = some p →
      p.seq ≤ cursor.boundarySeq ∧ p.step < state.schedule.boundary ∨
        cursor.boundarySeq < p.seq ∧ state.schedule.boundary < p.step
  selected : state.schedule.selects.map Prod.fst ++ remaining = handoff.bindings
  selects_after : ∀ select ∈ state.schedule.selects, state.schedule.boundary < select.2
  selects_lt : ∀ select ∈ state.schedule.selects, select.2 < state.steps
  nodup : (rows.map SignalRow.id).Nodup
  mem_rows : ∀ id, some id ∈ rows.map SignalRow.id ↔
    ∃ entry, state.signals.row? id = some entry ∧ handoff.InReach state.schedule entry

structure HandoffInvariant (handoff : Handoff) (state : HandoffState) : Prop where
  entries : ∀ id entry, state.signals.row? id = some entry → EntryInvariant state id entry
  cursor : ∀ cursor remaining rows,
    progress state.phase = some (cursor, remaining, rows) →
      CursorInvariant handoff state cursor remaining rows
  capturing : ∀ capturedAt, state.phase = .capturing capturedAt →
    capturedAt = state.schedule.capturedAt
  unread : progress state.phase = none → state.schedule.selects = []
  consumer : ∀ cursor delivered consumer,
    state.phase = .forwarding cursor delivered consumer →
      consumer = Subscriptions.bindForward handoff.targetId handoff.bindings cursor

theorem handoffInvariant_initial (handoff : Handoff) (start : Datetime) :
    HandoffInvariant handoff (initial start) where
  entries := by
    intro id entry habsurd
    cases habsurd
  cursor := by
    intro cursor remaining rows habsurd
    cases habsurd
  capturing := by
    intro capturedAt habsurd
    cases habsurd
  unread := fun _ => rfl
  consumer := by
    intro cursor delivered consumer habsurd
    cases habsurd

theorem EntryInvariant.later (hentry : EntryInvariant state id entry)
    (hsteps : state.steps ≤ next.steps) (hlast : state.lastSeq ≤ next.lastSeq) :
    EntryInvariant next id entry where
  id_eq := hentry.id_eq
  written_lt w hw := (hentry.written_lt w hw).trans_le hsteps
  published_lt p hp := (hentry.published_lt p hp).trans_le hsteps
  seq_pos := hentry.seq_pos
  seq_le p hp := (hentry.seq_le p hp).trans hlast
  written_first := hentry.written_first

/-! ## Steps of the sources -/

theorem CursorInvariant.frame (hinv : CursorInvariant handoff state cursor remaining rows)
    (hpublished : ∀ id entry p, next.signals.row? id = some entry → entry.published = some p → (∃
      before, state.signals.row? id = some before ∧ before.published = some p) ∨ state.lastSeq <
      p.seq ∧ p.step = state.steps)
    (hreach : ∀ id, (∃ entry, next.signals.row? id = some entry ∧ handoff.InReach state.schedule
      entry) ↔ ∃ entry, state.signals.row? id = some entry ∧ handoff.InReach state.schedule entry)
    (hlast : state.lastSeq ≤ next.lastSeq) (hsteps : state.steps ≤ next.steps)
    (hschedule : next.schedule = state.schedule) :
    CursorInvariant handoff next cursor remaining rows where
  capturedAt_eq := hschedule ▸ hinv.capturedAt_eq
  boundarySeq_le := hinv.boundarySeq_le.trans hlast
  boundary_lt := by
    rw [hschedule]
    exact hinv.boundary_lt.trans_le hsteps
  split := by
    intro id entry p hentry hp
    rw [hschedule]
    rcases hpublished id entry p hentry hp with ⟨before, hbefore, hsame⟩ | ⟨hseq, hstep⟩
    · exact hinv.split id before p hbefore hsame
    · right
      have hcursor := hinv.boundarySeq_le
      have hboundary := hinv.boundary_lt
      exact ⟨by omega, by omega⟩
  selected := by
    rw [hschedule]
    exact hinv.selected
  selects_after := by
    rw [hschedule]
    exact hinv.selects_after
  selects_lt := by
    rw [hschedule]
    intro select hselect
    exact (hinv.selects_lt select hselect).trans_le hsteps
  nodup := hinv.nodup
  mem_rows := by
    intro id
    rw [hinv.mem_rows, hschedule]
    exact (hreach id).symm

theorem CursorInvariant.put (hinv : CursorInvariant handoff state cursor remaining rows)
    (hreach : handoff.InReach state.schedule after ↔ ∃ before, state.signals.row? id = some before ∧
      handoff.InReach state.schedule before)
    (hpublished : ∀ p, after.published = some p → (∃ before, state.signals.row? id = some before ∧
      before.published = some p) ∨ state.lastSeq < p.seq ∧ p.step = state.steps)
    (hsignals : next.signals = state.signals.put id after) (hlast : state.lastSeq ≤ next.lastSeq)
    (hsteps : state.steps ≤ next.steps) (hschedule : next.schedule = state.schedule) :
    CursorInvariant handoff next cursor remaining rows := by
  apply hinv.frame _ _ hlast hsteps hschedule
  · intro other entry p hentry hp
    rw [hsignals, Table.row?_put_eq_some] at hentry
    rcases hentry with ⟨rfl, rfl⟩ | ⟨_, hold⟩
    · exact hpublished p hp
    · exact .inl ⟨entry, hold, hp⟩
  · intro other
    simp only [hsignals, Table.row?_put_eq_some]
    by_cases hother : other = id
    · subst other
      rw [← hreach]
      simp
    · simp [hother]

section

variable (hinv : HandoffInvariant handoff state)

include hinv

theorem HandoffInvariant.put (hafter : EntryInvariant next id after)
    (hreach : handoff.InReach state.schedule after ↔ ∃ before, state.signals.row? id = some before ∧
      handoff.InReach state.schedule before)
    (hpublished : ∀ p, after.published = some p → (∃ before, state.signals.row? id = some before ∧
      before.published = some p) ∨ state.lastSeq < p.seq ∧ p.step = state.steps)
    (hsignals : next.signals = state.signals.put id after) (hlast : state.lastSeq ≤ next.lastSeq)
    (hsteps : state.steps ≤ next.steps) (hphase : next.phase = state.phase)
    (hschedule : next.schedule = state.schedule) :
    HandoffInvariant handoff next where
  entries := by
    intro other entry hentry
    rw [hsignals, Table.row?_put_eq_some] at hentry
    rcases hentry with ⟨rfl, rfl⟩ | ⟨_, hold⟩
    · exact hafter
    · exact (hinv.entries other entry hold).later hsteps hlast
  cursor := by
    rw [hphase]
    intro cursor remaining rows hprogress
    exact (hinv.cursor cursor remaining rows hprogress).put hreach hpublished
      hsignals hlast hsteps hschedule
  capturing := by
    rw [hphase, hschedule]
    exact hinv.capturing
  unread := by
    rw [hphase, hschedule]
    exact hinv.unread
  consumer := by
    rw [hphase]
    exact hinv.consumer

theorem HandoffInvariant.selects_lt :
    ∀ select ∈ state.schedule.selects, select.2 < state.steps := by
  cases hprogress : progress state.phase with
  | none =>
    rw [hinv.unread hprogress]
    simp
  | some found =>
    obtain ⟨cursor, remaining, rows⟩ := found
    exact (hinv.cursor cursor remaining rows hprogress).selects_lt

theorem not_inReach_written (entry : SourceEntry) :
    ¬ handoff.InReach state.schedule (entry.written state.steps) := by
  rintro ⟨_, select, hselect, _, w, hw, hlt⟩
  have hstep : state.steps = w := Option.some.inj hw
  have hbefore := hinv.selects_lt select hselect
  omega

end

theorem not_inReach_unwritten (hunwritten : entry.writtenAt = none) :
    ¬ handoff.InReach schedule entry := by
  rintro ⟨_, select, _, _, w, hw, _⟩
  rw [hunwritten] at hw
  cases hw

section

variable (hinv : HandoffInvariant handoff state)

include hinv

theorem HandoffInvariant.stamp {signal : Signal}
    (hfresh : state.signals.row? signal.signalId = none) :
    HandoffInvariant handoff
      { state with
        signals := state.signals.put signal.signalId { signal := signal }
        steps := state.steps + 1 } := by
  refine hinv.put ?_ ?_ ?_ (by rfl) le_rfl (le_succ _) (by rfl) (by rfl)
  · constructor
    · rfl
    · intro w habsurd
      cases habsurd
    all_goals
      intro p habsurd
      cases habsurd
  · constructor
    · intro hreach
      exact absurd hreach (not_inReach_unwritten rfl)
    · rintro ⟨before, hbefore, _⟩
      rw [hfresh] at hbefore
      cases hbefore
  · intro p habsurd
    cases habsurd

theorem HandoffInvariant.write (hentry : state.signals.row? id = some entry)
    (hunwritten : entry.writtenAt = none) :
    HandoffInvariant handoff
      { state with
        signals := state.signals.put id (entry.written state.steps)
        steps := state.steps + 1 } := by
  have hold := hinv.entries id entry hentry
  have hunsent : ∀ p, entry.published ≠ some p := by
    intro p hp
    obtain ⟨w, hw, _⟩ := hold.written_first p hp
    rw [hunwritten] at hw
    cases hw
  refine hinv.put ?_ ?_ ?_ (by rfl) le_rfl (le_succ _) (by rfl) (by rfl)
  · constructor
    · exact hold.id_eq
    · intro w hw
      rw [← Option.some.inj hw]
      exact lt_succ_self _
    all_goals
      intro p hp
      exact absurd hp (hunsent p)
  · constructor
    · intro hreach
      exact absurd hreach (not_inReach_written hinv entry)
    · rintro ⟨before, hbefore, hreach⟩
      obtain rfl := Option.some.inj (hentry.symm.trans hbefore)
      exact absurd hreach (not_inReach_unwritten hunwritten)
  · intro p hp
    exact absurd hp (hunsent p)

theorem HandoffInvariant.publish {w : ℕ} (hentry : state.signals.row? id = some entry)
    (hwritten : entry.writtenAt = some w) :
    HandoffInvariant handoff
      { state with
        signals := state.signals.put id
          (entry.sent { seq := state.lastSeq + 1, step := state.steps })
        lastSeq := state.lastSeq + 1
        steps := state.steps + 1 } := by
  have hold := hinv.entries id entry hentry
  refine hinv.put ?_ ?_ ?_ (by rfl) (le_succ _) (le_succ _) (by rfl) (by rfl)
  · constructor
    · exact hold.id_eq
    · intro w' hw'
      exact (hold.written_lt w' hw').trans (lt_succ_self _)
    all_goals
      intro p hp
      obtain rfl := Option.some.inj hp
    · exact lt_succ_self _
    · exact succ_pos _
    · exact le_rfl
    · exact ⟨w, hwritten, hold.written_lt w hwritten⟩
  · constructor
    · intro hreach
      exact ⟨entry, hentry, hreach⟩
    · rintro ⟨before, hbefore, hreach⟩
      obtain rfl := Option.some.inj (hentry.symm.trans hbefore)
      exact hreach
  · intro p hp
    obtain rfl := Option.some.inj hp
    exact .inr ⟨lt_succ_self _, rfl⟩

end

/-! ## Steps of the target -/

theorem CursorInvariant.later (hinv : CursorInvariant handoff state cursor remaining rows)
    (hsignals : next.signals = state.signals) (hlast : next.lastSeq = state.lastSeq)
    (hsteps : state.steps ≤ next.steps) (hschedule : next.schedule = state.schedule) :
    CursorInvariant handoff next cursor remaining rows := by
  apply hinv.frame _ _ hlast.ge hsteps hschedule
  · intro id entry p hentry hp
    rw [hsignals] at hentry
    exact .inl ⟨entry, hentry, hp⟩
  · intro id
    rw [hsignals]

theorem CursorInvariant.chronological (hinv : CursorInvariant handoff state cursor remaining rows) :
    CursorInvariant handoff state cursor remaining (Subscriptions.chronological rows) :=
  have hperm := (perm_chronological rows).map SignalRow.id
  { hinv with
    nodup := hperm.nodup_iff.mpr hinv.nodup
    mem_rows := fun id => hperm.mem_iff.trans (hinv.mem_rows id) }

theorem entries_later (hinv : HandoffInvariant handoff state)
    (hsignals : next.signals = state.signals)
    (hlast : next.lastSeq = state.lastSeq) (hsteps : state.steps ≤ next.steps) :
    ∀ id entry, next.signals.row? id = some entry → EntryInvariant next id entry := by
  intro id entry hentry
  rw [hsignals] at hentry
  exact (hinv.entries id entry hentry).later hsteps hlast.ge

theorem cursorInvariant_boundary (hinv : HandoffInvariant handoff state)
    {capturedAt : Datetime} (hphase : state.phase = .capturing capturedAt) :
    CursorInvariant handoff
      { state with
        phase := .reading
          { boundarySeq := state.lastSeq, capturedAt := capturedAt,
            streamPresent := true } handoff.bindings []
        schedule := { state.schedule with boundary := state.steps }
        steps := state.steps + 1 }
      { boundarySeq := state.lastSeq, capturedAt := capturedAt,
        streamPresent := true } handoff.bindings [] := by
  have hunread : state.schedule.selects = [] := by
    apply hinv.unread
    rw [hphase]
    rfl
  constructor
  · exact hinv.capturing capturedAt hphase
  · exact le_rfl
  · exact lt_succ_self _
  · intro id entry p hentry hp
    have hold := hinv.entries id entry hentry
    exact .inl ⟨hold.seq_le p hp, hold.published_lt p hp⟩
  · simp [hunread]
  · simp [hunread]
  · simp [hunread]
  · exact nodup_nil
  · intro id
    simp [InReach, hunread]

theorem inReach_select_iff {step : ℕ} (hwritten : ∀ w, entry.writtenAt = some w → w < step) :
    handoff.InReach { schedule with
        selects := schedule.selects ++ [(binding, step)] } entry ↔
      handoff.InReach schedule entry ∨
        (entry.writtenAt.isSome = true ∧
          readSliceKeeps handoff.evalResidual binding.subscription
            entry.signal.row binding.sourceId binding.ownerTenant ∧
          entry.signal.fetchedAt ≤ schedule.capturedAt) := by
  have hnow : (∃ w, entry.writtenAt = some w ∧ w < step) ↔ entry.writtenAt.isSome = true := by
    rw [Option.isSome_iff_exists]
    constructor
    · rintro ⟨w, hw, _⟩
      exact ⟨w, hw⟩
    · rintro ⟨w, hw⟩
      exact ⟨w, hw, hwritten w hw⟩
  unfold InReach
  simp only [mem_append, mem_singleton, or_and_right, exists_or, exists_eq_left, hnow, and_or_left]
  apply or_congr_right
  constructor
  · rintro ⟨htime, hkeeps, hsome⟩
    exact ⟨hsome, hkeeps, htime⟩
  · rintro ⟨hsome, hkeeps, htime⟩
    exact ⟨htime, hkeeps, hsome⟩

theorem CursorInvariant.select (hstate : HandoffInvariant handoff state)
    (hinv : CursorInvariant handoff state cursor (binding :: remaining) merged) :
    CursorInvariant handoff
      { state with
        phase := .reading cursor remaining
          (mergeNew SignalRow.id merged
            (readBindingHistory handoff.evalResidual cursor binding (pool state.signals)))
        schedule := { state.schedule with
          selects := state.schedule.selects ++ [(binding, state.steps)] }
        steps := state.steps + 1 }
      cursor remaining
      (mergeNew SignalRow.id merged
        (readBindingHistory handoff.evalResidual cursor binding (pool state.signals))) := by
  have hids : ∀ id entry, state.signals.row? id = some entry → entry.signal.signalId = id :=
    fun id entry hentry => (hstate.entries id entry hentry).id_eq
  constructor
  · exact hinv.capturedAt_eq
  · exact hinv.boundarySeq_le
  · exact hinv.boundary_lt.trans (lt_succ_self _)
  · exact hinv.split
  · have hselected := hinv.selected
    simpa using hselected
  · intro select hselect
    rcases mem_append.mp hselect with hold | hnew
    · exact hinv.selects_after select hold
    · rw [mem_singleton.mp hnew]
      exact hinv.boundary_lt
  · intro select hselect
    rcases mem_append.mp hselect with hold | hnew
    · exact (hinv.selects_lt select hold).trans (lt_succ_self _)
    · rw [mem_singleton.mp hnew]
      exact lt_succ_self _
  · exact nodup_keys_mergeNew hinv.nodup _
  · intro id
    rw [mem_keys_mergeNew, hinv.mem_rows, mem_ids_readBindingHistory hids, hinv.capturedAt_eq]
    change _ ↔ ∃ entry, state.signals.row? id = some entry ∧ _
    rw [← exists_or]
    apply exists_congr
    intro entry
    rw [← and_or_left]
    apply and_congr_right
    intro hentry
    exact (inReach_select_iff (hstate.entries id entry hentry).written_lt).symm

section

variable (hinv : HandoffInvariant handoff state)

include hinv

theorem HandoffInvariant.reading (hphase : state.phase = .reading cursor remaining merged) :
    CursorInvariant handoff state cursor remaining merged := by
  apply hinv.cursor
  rw [hphase]
  rfl

theorem HandoffInvariant.replayed (hphase : state.phase = .replayed cursor delivered) :
    CursorInvariant handoff state cursor [] delivered := by
  apply hinv.cursor
  rw [hphase]
  rfl

theorem HandoffInvariant.forwarding (hphase : state.phase = .forwarding cursor delivered consumer) :
    CursorInvariant handoff state cursor [] delivered := by
  apply hinv.cursor
  rw [hphase]
  rfl

theorem HandoffInvariant.advance (hprogress : progress next.phase = some (cursor, remaining, rows))
    (hcursor : CursorInvariant handoff next cursor remaining rows)
    (hconsumer : ∀ cursor delivered consumer, next.phase = .forwarding cursor delivered consumer →
      consumer = Subscriptions.bindForward handoff.targetId handoff.bindings cursor)
    (hsignals : next.signals = state.signals) (hlast : next.lastSeq = state.lastSeq)
    (hsteps : state.steps ≤ next.steps) :
    HandoffInvariant handoff next where
  entries := entries_later hinv hsignals hlast hsteps
  cursor := by
    intro cursor' remaining' rows' hprogress'
    rw [hprogress] at hprogress'
    cases hprogress'
    exact hcursor
  capturing := by
    intro capturedAt hcapturing
    rw [hcapturing] at hprogress
    cases hprogress
  unread := by
    intro hnone
    rw [hprogress] at hnone
    cases hnone
  consumer := hconsumer

theorem HandoffInvariant.step {label : HandoffLabel}
    (hstep : handoff.step state label = some next) : HandoffInvariant handoff next := by
  have htransition := step_transition hstep
  cases htransition with
  | ticked elapsed =>
    constructor
    · exact entries_later hinv (by rfl) (by rfl) (le_succ _)
    · intro cursor remaining rows hprogress
      have hcursor := hinv.cursor cursor remaining rows hprogress
      exact hcursor.later (by rfl) (by rfl) (le_succ _) (by rfl)
    · exact hinv.capturing
    · exact hinv.unread
    · exact hinv.consumer
  | stamped signal hfresh => exact hinv.stamp hfresh
  | wrote id entry hentry hunwritten => exact hinv.write hentry hunwritten
  | published id entry w hentry hwritten => exact hinv.publish hentry hwritten
  | captured hphase =>
    constructor
    · exact entries_later hinv (by rfl) (by rfl) (le_succ _)
    · intro cursor remaining rows habsurd
      cases habsurd
    · intro capturedAt hcapturing
      cases hcapturing
      rfl
    · intro _
      rfl
    · intro cursor delivered consumer habsurd
      cases habsurd
  | boundaryRead capturedAt hphase =>
    have hcursor := cursorInvariant_boundary hinv hphase
    refine hinv.advance (by rfl) hcursor ?_ (by rfl) (by rfl) (le_succ _)
    intro cursor delivered consumer habsurd
    cases habsurd
  | selected cursor binding remaining merged hphase =>
    have hcursor := CursorInvariant.select hinv (hinv.reading hphase)
    refine hinv.advance (by rfl) hcursor ?_ (by rfl) (by rfl) (le_succ _)
    intro cursor' delivered consumer habsurd
    cases habsurd
  | replayed cursor merged hphase =>
    have hcursor := (hinv.reading hphase).chronological
    refine hinv.advance (by rfl) (hcursor.later (by rfl) (by rfl) (le_succ
      _) (by rfl)) ?_ (by rfl) (by rfl) (le_succ _)
    intro cursor' delivered consumer habsurd
    cases habsurd
  | bound cursor delivered hphase =>
    have hcursor := hinv.replayed hphase
    refine hinv.advance (by rfl) (hcursor.later (by rfl) (by rfl) (le_succ
      _) (by rfl)) ?_ (by rfl) (by rfl) (le_succ _)
    intro cursor' delivered' consumer hforwarding
    cases hforwarding
    rfl

end

/-! ## What has reached the target -/

theorem forwards_iff (hpublished : entry.published = some p)
    (hmatches : handoff.Matches entry.signal) :
    handoff.forwards (Subscriptions.bindForward handoff.targetId
        handoff.bindings cursor) entry = true ↔
      cursor.boundarySeq < p.seq := by
  obtain ⟨b, hb, hrow⟩ := hmatches
  have hbindings : handoff.bindings.isEmpty = false := isEmpty_eq_false_iff_exists_mem.mpr ⟨b, hb⟩
  have hdelivers : handoff.delivers entry.signal.row := any_eq_true.mpr ⟨b, hb, hrow⟩
  obtain ⟨filter, hfilter, hsubject⟩ :=
    wantedFilters_covers handoff.evalResidual handoff.bindings b hb
      entry.signal.row entry.signal.ownerTenant entry.signal.sourceId
      entry.signal.modality hrow rfl rfl rfl entry.signal.modality_known "raw"
  have hne : "" ∉ wantedFilters (subjectFiltersFor handoff.bindings) :=
    empty_notMem_wantedFilters (empty_notMem_subjectFiltersFor handoff.bindings)
  unfold forwards Subscriptions.bindForward
  rw [hbindings, hpublished]
  simp only [Bool.false_eq_true, if_false, hdelivers, Bool.and_true]
  unfold ConsumerConfig.receives
  have hany : (ensureConsumerFromSeq (targetConsumerName handoff.targetId)
      (subjectFiltersFor handoff.bindings) cursor.forwardStartSeq).filters.any
        (fun filter => subjectMatches filter entry.signal.subject) = true := by
    apply any_eq_true.mpr
    exact ⟨filter, (mem_filters_withFilters rfl rfl hne).mpr hfilter, hsubject⟩
  have hstart : (ensureConsumerFromSeq (targetConsumerName handoff.targetId)
      (subjectFiltersFor handoff.bindings)
        cursor.forwardStartSeq).optStartSeq = some (cursor.boundarySeq + 1) := by
    unfold ensureConsumerFromSeq ConsumerConfig.withFilters
    split <;> simp [BackfillCursor.forwardStartSeq]
  rw [hany, hstart, Bool.and_true, decide_eq_true_eq]
  rfl

theorem count_append_eq_one_iff {Key : Type*} [BEq Key] [LawfulBEq Key] {first second : List Key}
    (hfirst : first.Nodup) (hsecond : second.Nodup) (key : Key) :
    (first ++ second).count key = 1 ↔ (key ∈ first ↔ key ∉ second) := by
  rw [count_append, hfirst.count, hsecond.count]
  by_cases hmem : key ∈ first <;> by_cases hmem' : key ∈ second <;> simp [hmem, hmem']

section

variable (hinv : HandoffInvariant handoff state)

include hinv

section

variable (consumer : Option ConsumerConfig)

theorem ids_forwarded :
    (handoff.forwarded state consumer).map SignalRow.id =
      ((state.signals.select fun entry =>
        handoff.forwards consumer entry).map Prod.fst).map some := by
  unfold forwarded
  rw [map_map, map_map]
  apply map_congr_left
  rintro ⟨id, entry⟩ hselected
  have hentry := (Table.mem_select.mp hselected).1
  exact congrArg some (hinv.entries id entry hentry).id_eq

theorem nodup_forwarded : ((handoff.forwarded state consumer).map SignalRow.id).Nodup := by
  rw [ids_forwarded hinv]
  exact (state.signals.nodup_select_keys _).map (Option.some_injective _)

theorem mem_forwarded_iff (hentry : state.signals.row? id = some entry) :
    some id ∈ (handoff.forwarded state consumer).map SignalRow.id ↔
      handoff.forwards consumer entry = true := by
  rw [ids_forwarded hinv, mem_map]
  constructor
  · rintro ⟨other, hother, hid⟩
    obtain rfl := Option.some.inj hid
    obtain ⟨⟨_, found⟩, hfound, rfl⟩ := mem_map.mp hother
    obtain ⟨hrow, hforwards⟩ := Table.mem_select.mp hfound
    obtain rfl := Option.some.inj (hentry.symm.trans hrow)
    exact hforwards
  · intro hforwards
    have hselected := Table.mem_select.mpr ⟨hentry, hforwards⟩
    exact ⟨id, mem_map.mpr ⟨(id, entry), hselected, rfl⟩, rfl⟩

end

end

theorem CursorInvariant.mem_rows_iff (hinv : CursorInvariant handoff state cursor remaining rows)
    (hentry : state.signals.row? id = some entry) :
    some id ∈ rows.map SignalRow.id ↔ handoff.InReach state.schedule entry := by
  rw [hinv.mem_rows]
  constructor
  · rintro ⟨other, hother, hreach⟩
    obtain rfl := Option.some.inj (hentry.symm.trans hother)
    exact hreach
  · intro hreach
    exact ⟨entry, hentry, hreach⟩

section

variable (hinv : HandoffInvariant handoff state)

include hinv

/-- A published signal which matches is delivered once exactly when the
replay had it within reach or it lies behind the boundary, but not both. -/
theorem deliveries_eq_one_iff (hphase : state.phase = .forwarding cursor delivered consumer)
    (hentry : state.signals.row? id = some entry) (hpublished : entry.published = some p)
    (hmatches : handoff.Matches entry.signal) :
    handoff.deliveries state id = 1 ↔
      (handoff.InReach state.schedule entry ↔ ¬ cursor.boundarySeq < p.seq) := by
  have hcursor := hinv.forwarding hphase
  have hconsumer := hinv.consumer cursor delivered consumer hphase
  have hreceived : handoff.received state = delivered ++ handoff.forwarded state consumer := by
    unfold received
    rw [hphase]
  unfold deliveries
  rw [hreceived, map_append, count_append_eq_one_iff hcursor.nodup (nodup_forwarded
    hinv consumer), hcursor.mem_rows_iff hentry, mem_forwarded_iff hinv consumer
    hentry, hconsumer, forwards_iff hpublished hmatches]

/-- A signal published before the boundary is within reach exactly when it is
stamped up to the capture: its row was written before it was published. -/
theorem inReach_of_before_boundary (hcursor : CursorInvariant handoff state cursor [] rows)
    (hentry : state.signals.row? id = some entry) (hpublished : entry.published = some p)
    (hmatches : handoff.Matches entry.signal) (hlive : ¬ IsBackfill entry.signal.row)
    (hbefore : p.step < state.schedule.boundary) :
    handoff.InReach state.schedule entry ↔ entry.signal.fetchedAt ≤ state.schedule.capturedAt := by
  constructor
  · exact And.left
  · intro htime
    obtain ⟨b, hb, hrow⟩ := hmatches
    have hselected := hcursor.selected
    rw [append_nil] at hselected
    rw [← hselected] at hb
    obtain ⟨select, hselect, rfl⟩ := mem_map.mp hb
    obtain ⟨w, hw, hlt⟩ := (hinv.entries id entry hentry).written_first p hpublished
    have hafter := hcursor.selects_after select hselect
    exact ⟨htime, select, hselect,
      (readSliceKeeps_iff_of_live hlive _ _ _ _).mpr hrow, w, hw, by omega⟩

theorem deliveries_eq_one_iff_tiles (hphase : state.phase = .forwarding cursor delivered consumer)
    (hentry : state.signals.row? id = some entry) (hpublished : entry.published = some p)
    (hmatches : handoff.Matches entry.signal) (hlive : ¬ IsBackfill entry.signal.row) :
    handoff.deliveries state id = 1 ↔ handoff.Tiles state.schedule entry p := by
  have hcursor := hinv.forwarding hphase
  rw [deliveries_eq_one_iff hinv hphase hentry hpublished hmatches]
  unfold Tiles
  rcases hcursor.split id entry p hentry hpublished with ⟨hseq, hbefore⟩ | ⟨hseq, hafter⟩
  · have hreach := inReach_of_before_boundary hinv hcursor hentry hpublished hmatches hlive hbefore
    have hnotAfter : ¬ state.schedule.boundary < p.step := by omega
    have hnotSeq : ¬ cursor.boundarySeq < p.seq := by omega
    simp [hreach, hbefore, hnotAfter, hnotSeq]
  · have hnotBefore : ¬ p.step < state.schedule.boundary := by omega
    simp [hafter, hnotBefore, hseq]

end

/-- In every state of a run where the handoff is complete, every published
live signal which matches has been delivered exactly once if and only if each
of them was stamped up to the capture and published before the boundary, or
published after the boundary and out of reach of the replay. -/
theorem delivers_exactly_once_iff {handoff : Handoff} {start : Datetime}
    {labels : List HandoffLabel} {final : HandoffState}
    (hrun : run handoff.step (initial start) labels = some final) {cursor : BackfillCursor}
    {delivered : List SignalRow} {consumer : Option ConsumerConfig}
    (hphase : final.phase = .forwarding cursor delivered consumer) :
    handoff.DeliversExactlyOnce final ↔
      ∀ id entry p, final.signals.row? id = some entry →
        entry.published = some p → handoff.Matches entry.signal →
        ¬ IsBackfill entry.signal.row →
        handoff.Tiles final.schedule entry p := by
  have hinv : HandoffInvariant handoff final :=
    invariant_of_steps (fun _ _ _ hinv hstep => hinv.step hstep)
      (handoffInvariant_initial handoff start) hrun
  constructor
  · intro honce id entry p hentry hpublished hmatches hlive
    have hsome : entry.published.isSome := by
      rw [hpublished]
      rfl
    exact (deliveries_eq_one_iff_tiles hinv hphase hentry hpublished hmatches
      hlive).mp (honce id entry hentry hsome hmatches hlive)
  · intro htiles id entry hentry hsome hmatches hlive
    obtain ⟨p, hpublished⟩ := Option.isSome_iff_exists.mp hsome
    exact (deliveries_eq_one_iff_tiles hinv hphase hentry hpublished hmatches
      hlive).mpr (htiles id entry p hentry hpublished hmatches hlive)

def lateDesk : Handoff where
  targetId := "desk"
  bindings :=
    [{ sourceId := "source.reuters", ownerTenant := "default",
       subscription := {} }]
  evalResidual := fun _ _ => true

def earlySignal : Signal :=
  { signalId := 1, sourceId := "source.reuters", fetchedAt := 0 }

def lateSignal : Signal :=
  { signalId := 2, sourceId := "source.reuters", fetchedAt := 1 }

theorem delivers_exactly_once_iff_history :
    ∃ final cursor delivered consumer,
      run lateDesk.step (initial 0)
        [.stamp earlySignal, .write 1, .publish 1, .capture, .readBoundary,
          .select, .replay, .bindForward] = some final ∧
      final.phase = .forwarding cursor delivered consumer ∧
      lateDesk.DeliversExactlyOnce final := by
  let entry : SourceEntry := { signal := earlySignal }
  let sent := (entry.written 1).sent { seq := 1, step := 2 }
  obtain ⟨final, cursor, delivered, consumer, hrun, hphase, hsignals,
      hschedule⟩ : ∃ final cursor delivered consumer,
      run lateDesk.step (initial 0)
        [.stamp earlySignal, .write 1, .publish 1, .capture, .readBoundary,
          .select, .replay, .bindForward] = some final ∧
      final.phase = .forwarding cursor delivered consumer ∧
      final.signals = ((Table.empty.put 1 entry).put 1 (entry.written 1)).put 1 sent ∧
      final.schedule.capturedAt = 0 ∧ final.schedule.boundary = 4 :=
    ⟨_, _, _, _, rfl, rfl, rfl, rfl, rfl⟩
  refine ⟨final, cursor, delivered, consumer, hrun, hphase, ?_⟩
  apply (delivers_exactly_once_iff hrun hphase).mpr
  intro id found p hfound hpublished _ _
  rw [hsignals] at hfound
  simp only [Table.row?_put_eq_some] at hfound
  have hsent : found = sent := by
    rcases hfound with ⟨_, hsent⟩ | ⟨hne, ⟨hid, _⟩ | ⟨_, ⟨hid, _⟩ | ⟨_, hnone⟩⟩⟩
    · exact hsent
    · exact absurd hid hne
    · exact absurd hid hne
    · cases hnone
  subst found
  obtain rfl := Option.some.inj hpublished
  left
  rw [hschedule.1, hschedule.2]
  exact ⟨by decide, by decide⟩

/-- A signal written before the capture and published after the boundary is
read comes twice; one stamped after the capture and published before the
boundary is read does not come at all. -/
theorem signal_delivered_twice_and_signal_missed :
    ∃ final cursor delivered consumer,
      run lateDesk.step (initial 0)
        [.stamp earlySignal, .write 1, .capture, .tick 1, .stamp lateSignal,
          .write 2, .publish 2, .readBoundary, .select, .publish 1, .replay,
          .bindForward] = some final ∧
      final.phase = .forwarding cursor delivered consumer ∧
      ¬ lateDesk.DeliversExactlyOnce final ∧
      lateDesk.deliveries final 1 = 2 ∧ lateDesk.deliveries final 2 = 0 := by
  have hmatches : lateDesk.Matches earlySignal := ⟨_, mem_singleton_self _, by decide⟩
  have hlive : ¬ IsBackfill earlySignal.row := by
    intro habsurd
    cases habsurd
  refine ⟨_, _, _, _, rfl, rfl, ?_, by decide +kernel, by decide +kernel⟩
  intro honce
  have htwice := honce 1 _ rfl rfl hmatches hlive
  revert htwice
  decide +kernel

end Handoff
end Legba.Subscriptions
