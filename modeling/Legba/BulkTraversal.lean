import Legba.BulkSnapshot
import Legba.LabelledRun

/-!
# Does a bulk traversal lose a row?

Mid-snapshot the offset alone says what is still to be yielded, and a capped
pull never skips a row.  At the end of the stream the offset returns to zero
and the timestamps take over.  They are right when the stream was drained to
the last row of the snapshot; after a transfer which was cut off they hide
every remaining row which is not newer than the rows read.
-/

namespace Legba.Sources

open LabelledRun List Option

/-! ## The rows which are still ahead -/

theorem mem_drop_of_mem_drop_filter {α : Type*} {p : α → Bool} {rows : List α} {row : α} {n : ℕ}
    (hrow : row ∈ (rows.filter p).drop n) : row ∈ rows.drop n := by
  induction rows generalizing n with
  | nil => simp at hrow
  | cons head rest ih =>
    cases n with
    | zero => exact (mem_filter.mp hrow).1
    | succ n =>
      by_cases hhead : p head = true
      · rw [filter_cons_of_pos hhead, drop_succ_cons] at hrow
        exact ih hrow
      · rw [filter_cons_of_neg hhead] at hrow
        have hmem := ih hrow
        rw [← drop_drop] at hmem
        exact mem_of_mem_drop hmem

theorem prefix_delivered (transfer : Transfer) (rows : List BulkRow) :
    transfer.delivered rows <+: rows := by
  cases transfer with
  | complete => exact prefix_refl rows
  | raises count error => exact take_prefix count rows
  | cut count => exact take_prefix count rows

theorem prefix_bulkStream {delivered rows : List BulkRow}
    (hinitial : delivered <+: rows) (since : Option Datetime) (offset : ℕ) :
    bulkStream delivered since offset <+: bulkStream rows since offset := by
  unfold bulkStream
  split
  · exact hinitial.filter _
  · exact hinitial.drop offset

theorem prefix_yields (source : BulkSource) (stream : List BulkRow) :
    source.yields stream <+: stream := by
  unfold BulkSource.yields
  split
  · exact take_prefix _ stream
  · exact prefix_refl stream

theorem mem_drop_of_not_read {rows : List BulkRow} {since : Option Datetime}
    {offset count : ℕ} {row : BulkRow} (hrow : row ∈ bulkStream rows since offset)
    (hunread : row ∉ (bulkStream rows since offset).take count) :
    row ∈ rows.drop (offset + count) := by
  have hsplit := take_append_drop count (bulkStream rows since offset)
  rw [← hsplit, mem_append] at hrow
  have hdrop := hrow.resolve_left hunread
  unfold bulkStream at hdrop
  split at hdrop
  case isTrue hzero =>
    subst hzero
    rw [Nat.zero_add]
    exact mem_drop_of_mem_drop_filter hdrop
  case isFalse hpos =>
    rw [drop_drop] at hdrop
    exact hdrop

def BulkState.Ahead (state : BulkState) (rows : List BulkRow) (row : BulkRow) : Prop :=
  row ∈ bulkStream rows
    (effectiveSince state.cursor.lastPulledAt state.storedLastSeen)
    state.cursor.bulkOffset

def KeepsAhead (rows : List BulkRow) (watermark : Option Datetime) (state : BulkState) : Prop :=
  ∀ row ∈ rows, row.after watermark = true → row ∉ state.yielded → state.Ahead rows row

/-- The stream yields the row at the place `n`, and the actor comes to it. -/
def BulkPoll.ReadsRow (poll : BulkPoll) (hashing : Hashing)
    (source : BulkSource) (rows : List BulkRow) (state : BulkState) (n : ℕ)
    (row : BulkRow) : Prop :=
  (source.yields (poll.stream source rows state))[n]? = some row ∧
    Reaches hashing source.toSource poll.turns state.plane.tables n

def BulkPoll.Fails (poll : BulkPoll) (hashing : Hashing)
    (source : BulkSource) (rows : List BulkRow) (state : BulkState) : Prop :=
  (poll.poll source rows state.storedLastSeen).Fails hashing source.toSource
    state.cursor state.plane

/-- The actor comes to all that the transfer delivers, nothing raises, and the
handler's cap is not reached. -/
def BulkPoll.Drains (poll : BulkPoll) (hashing : Hashing)
    (source : BulkSource) (rows : List BulkRow) (state : BulkState) : Prop :=
  (poll.poll source rows state.storedLastSeen).Finishes hashing
      source.toSource state.cursor state.plane ∧
    source.hitsCap (poll.stream source rows state) = false ∧ poll.transfer.error = none

def BulkPoll.Leaves (poll : BulkPoll) (hashing : Hashing)
    (source : BulkSource) (rows : List BulkRow) (watermark : Option Datetime)
    (state : BulkState) (row : BulkRow) : Prop :=
  row ∈ rows ∧ row.after watermark = true ∧ row ∉ state.yielded ∧
    ∀ n, ¬poll.ReadsRow hashing source rows state n row

/-- The row is newer than all that the stream holds, and than the cursor and
the watermark where nothing in it moves them. -/
structure BulkPoll.Outdates (poll : BulkPoll) (source : BulkSource)
    (rows : List BulkRow) (state : BulkState) (row : BulkRow) : Prop where
  read : ∀ n other, (poll.stream source rows state)[n]? = some other →
    row.after (some (entryLogicalTs (poll.turns n).now (other.signal (poll.stamp other)))) = true
  lastSeen : ∀ other ∈ poll.stream source rows state, row.after other.lastSeen = true
  cursor : poll.stream source rows state = [] →
    row.after (some (state.cursor.lastPulledAt.getD poll.finishedAt)) = true
  stored : (∀ other ∈ poll.stream source rows state, other.lastSeen = none) →
    row.after state.storedLastSeen = true

/-- A pull which drains a transfer leaves only rows newer than what it read.
A pull which fails or reads nothing at offset zero, while no cursor is stored,
leaves only rows newer than its end. -/
def LeavesOnlyAhead (hashing : Hashing) (source : BulkSource)
    (rows : List BulkRow) (watermark : Option Datetime) (state : BulkState)
    (poll : BulkPoll) (_ : BulkState) : Prop :=
  ∀ row, poll.Leaves hashing source rows watermark state row →
    (poll.Drains hashing source rows state → poll.Outdates source rows state row) ∧
    (¬poll.Drains hashing source rows state →
      state.cursor.bulkOffset = 0 → state.cursor.lastPulledAt = none →
      (poll.Fails hashing source rows state ∨
        ∀ n other, ¬poll.ReadsRow hashing source rows state n other) →
      row.after (some poll.finishedAt) = true)

section

variable {hashing : Hashing} {source : BulkSource} {rows : List BulkRow}
variable {state next : BulkState} {poll : BulkPoll}

theorem since_eq_none_or (poll : Poll) (cursor : Cursor) :
    poll.since cursor = none ∨ poll.since cursor = cursor.lastPulledAt := by
  unfold Poll.since
  cases hlast : cursor.lastPulledAt with
  | none => exact .inl rfl
  | some last =>
    rw [filter_some]
    split
    · exact .inr rfl
    · exact .inl rfl

variable {row : BulkRow} {stored watermark : Option Datetime}
  {later : List BulkPoll}

theorem after_since {poll : Poll} {cursor : Cursor}
    (hrow : row.after (effectiveSince cursor.lastPulledAt stored)) :
    row.after (effectiveSince (poll.since cursor) stored) := by
  rw [after_effectiveSince, Bool.and_eq_true] at hrow ⊢
  rcases since_eq_none_or poll cursor with hnone | hlast
  · rw [hnone]
    exact ⟨rfl, hrow.2⟩
  · rw [hlast]
    exact hrow

def BulkPoll.fullStream (poll : BulkPoll) (source : BulkSource)
    (rows : List BulkRow) (state : BulkState) : List BulkRow :=
  bulkStream rows
    (effectiveSince
      ((poll.poll source rows state.storedLastSeen).since state.cursor)
      state.storedLastSeen)
    state.cursor.bulkOffset

theorem BulkState.Ahead.mem_fullStream (hahead : state.Ahead rows row) (source : BulkSource)
    (poll : BulkPoll) : row ∈ poll.fullStream source rows state := by
  unfold BulkState.Ahead bulkStream at hahead
  unfold BulkPoll.fullStream bulkStream
  split at hahead
  case isTrue hzero =>
    rw [if_pos hzero]
    obtain ⟨hmem, hafter⟩ := mem_filter.mp hahead
    exact mem_filter.mpr ⟨hmem, after_since hafter⟩
  case isFalse hpos => rwa [if_neg hpos]

theorem served_poll :
    (poll.poll source rows state.storedLastSeen).served source.toSource state.cursor =
      poll.serveStream source (poll.stream source rows state) := by
  simp only [Poll.served, source.isBulk, if_true]
  rfl

theorem length_entries_serveStream (stream : List BulkRow) :
    (poll.serveStream source stream).entries.length = (source.yields stream).length := by
  simp [BulkPoll.serveStream]

theorem length_reads_le_yields :
    (poll.walk hashing source rows state).reads.length ≤
      (source.yields (poll.stream source rows state)).length := by
  have hreads : (poll.walk hashing source rows state).reads.length ≤
      ((poll.poll source rows state.storedLastSeen).served source.toSource
        state.cursor).entries.length :=
    Poll.length_reads_le _ _ _
  rwa [served_poll, length_entries_serveStream] at hreads

theorem rowsRead_eq_take :
    poll.rowsRead hashing source rows state =
        (poll.fullStream source rows state).take
          (poll.walk hashing source rows state).reads.length := by
  have hlength : (poll.walk hashing source rows state).reads.length ≤
      (source.yields (poll.stream source rows state)).length :=
    length_reads_le_yields
  have hinitial : source.yields (poll.stream source rows state) <+:
      poll.fullStream source rows state :=
    (prefix_yields source _).trans (prefix_bulkStream (prefix_delivered poll.transfer rows) _ _)
  obtain ⟨rest, hrest⟩ := hinitial
  rw [← hrest, take_append_of_le_length hlength]
  rfl

theorem entries_served_poll :
    ((poll.poll source rows state.storedLastSeen).served source.toSource state.cursor).entries =
      (source.yields (poll.stream source rows state)).map fun row =>
        row.signal (poll.stamp row) := by
  rw [served_poll]
  rfl

theorem mem_rowsRead_iff :
    row ∈ poll.rowsRead hashing source rows state ↔
      ∃ n, poll.ReadsRow hashing source rows state n row := by
  unfold BulkPoll.rowsRead BulkPoll.ReadsRow BulkPoll.walk
  rw [mem_iff_getElem?]
  apply exists_congr
  intro n
  have hlength : n < ((poll.poll source rows state.storedLastSeen).walk
      hashing source.toSource state.cursor state.plane).reads.length ↔
        n < (source.yields (poll.stream source rows state)).length ∧
          Reaches hashing source.toSource poll.turns state.plane.tables n := by
    rw [Poll.lt_length_reads_iff, entries_served_poll, length_map]
    rfl
  rw [getElem?_take]
  split
  case isTrue hlt => rw [and_iff_left (hlength.mp hlt).2]
  case isFalse hge =>
    refine iff_of_false (by simp) ?_
    rintro ⟨hrow, hreaches⟩
    exact hge (hlength.mpr ⟨(List.getElem?_eq_some_iff.mp hrow).1, hreaches⟩)

theorem reads_eq_nil_iff :
    (poll.walk hashing source rows state).reads = [] ↔
      ∀ n row, ¬poll.ReadsRow hashing source rows state n row := by
  have hread : (poll.walk hashing source rows state).reads = [] ↔
      poll.rowsRead hashing source rows state = [] := by
    unfold BulkPoll.rowsRead
    rw [take_eq_nil_iff, length_eq_zero_iff]
    refine ⟨.inl, ?_⟩
    rintro (hnil | hnil)
    · exact hnil
    · have hlength : (poll.walk hashing source rows state).reads.length ≤
          (source.yields (poll.stream source rows state)).length :=
        length_reads_le_yields
      rw [hnil, length_nil, Nat.le_zero] at hlength
      exact length_eq_zero_iff.mp hlength
  rw [hread, eq_nil_iff_forall_not_mem, forall_comm]
  simp [mem_rowsRead_iff]

theorem leaves_iff :
    poll.Leaves hashing source rows watermark state row ↔
      row ∈ rows ∧ row.after watermark = true ∧
        row ∉ state.yielded ++ poll.rowsRead hashing source rows state := by
  rw [mem_append, not_or, mem_rowsRead_iff, not_exists]
  rfl

theorem fails_iff :
    poll.Fails hashing source rows state ↔ (poll.walk hashing source rows state).errored.isSome :=
  Poll.fails_iff

theorem drains_iff :
    poll.Drains hashing source rows state ↔
      (poll.walk hashing source rows state).errored = none ∧
        (poll.walk hashing source rows state).capped = false ∧
          source.hitsCap (poll.stream source rows state) = false := by
  unfold BulkPoll.Drains
  cases hcap : source.hitsCap (poll.stream source rows state) with
  | true => simp
  | false =>
    have hraises : poll.transfer.error =
        ((poll.poll source rows state.storedLastSeen).served source.toSource
          state.cursor).raises := by
      rw [served_poll, BulkPoll.serveStream, hcap]
      rfl
    rw [hraises, eq_self, true_and, and_true]
    exact Poll.finishes_and_raises_iff

/-! ## One pull -/

section

variable (herrored : (poll.walk hashing source rows state).errored = none)
  (hcapped : (poll.walk hashing source rows state).capped = false)

include herrored hcapped

theorem length_reads_of_not_capped :
    (poll.walk hashing source rows state).reads.length =
      (source.yields (poll.stream source rows state)).length := by
  have hreads : (poll.walk hashing source rows state).reads.length =
      ((poll.poll source rows state.storedLastSeen).served source.toSource
        state.cursor).entries.length :=
    Poll.length_reads_of_finishes (Poll.finishes_and_raises_iff.mpr ⟨herrored, hcapped⟩).1
  rwa [served_poll, length_entries_serveStream] at hreads

theorem rowsRead_of_not_capped :
    poll.rowsRead hashing source rows state = source.yields (poll.stream source rows state) := by
  unfold BulkPoll.rowsRead
  rw [length_reads_of_not_capped herrored hcapped, take_length]

end

theorem yields_pos_of_hitsCap {stream : List BulkRow}
    (hcap : source.hitsCap stream) : 0 < (source.yields stream).length := by
  unfold BulkSource.yields
  rw [if_pos hcap, length_take]
  simp only [BulkSource.hitsCap, Bool.and_eq_true, decide_eq_true_eq] at hcap
  omega

theorem bulkStep_eq_some (hstep : bulkStep hashing source rows state poll = some next) :
    next =
      { cursor :=
          (poll.poll source rows state.storedLastSeen).newCursor
            source.toSource state.cursor (poll.walk hashing source rows state)
        storedLastSeen := poll.nextLastSeen source rows state (poll.walk hashing source rows state)
        plane := (poll.walk hashing source rows state).plane
        yielded := state.yielded ++ poll.rowsRead hashing source rows state } :=
  (some.inj hstep).symm

theorem reachedEnd_poll (walk : Walk) :
    (poll.poll source rows state.storedLastSeen).reachedEnd source.toSource state.cursor walk =
      !(walk.capped || source.hitsCap (poll.stream source rows state)) := by
  unfold Poll.reachedEnd
  rw [served_poll]
  cases walk.capped <;> simp [BulkPoll.serveStream]

theorem bulkStep_offset (hstep : bulkStep hashing source rows state poll = some next) :
    next.cursor.bulkOffset =
      if (poll.walk hashing source rows state).errored.isSome then
        state.cursor.bulkOffset
      else if (poll.walk hashing source rows state).capped ||
          source.hitsCap (poll.stream source rows state) then
        state.cursor.bulkOffset + (poll.walk hashing source rows state).reads.length
      else 0 := by
  rw [bulkStep_eq_some hstep]
  simp only [Poll.newCursor]
  rw [Poll.nextOffset_of_bulk _ source.isBulk, reachedEnd_poll]
  cases (poll.walk hashing source rows state).capped ||
    source.hitsCap (poll.stream source rows state) <;> rfl

theorem lastPulledAt_of_idle
    (hidle : (poll.walk hashing source rows state).errored.isSome ∨ (poll.walk hashing source rows
      state).reads = []) (hstep : bulkStep hashing source rows state poll = some next) :
    next.cursor.lastPulledAt = some (state.cursor.lastPulledAt.getD poll.finishedAt) := by
  have hconsistent : (poll.walk hashing source rows state).Consistent := Poll.consistent_walk _ _ _
  rw [bulkStep_eq_some hstep]
  simp only [Poll.newCursor, Poll.lastPulledAt, some.injEq]
  rcases hidle with herrored | hreads
  · obtain ⟨error, herror⟩ := isSome_iff_exists.mp herrored
    rw [herror]
    rfl
  · rw [hconsistent.1.mpr hreads]
    cases (poll.walk hashing source rows state).errored <;> rfl

theorem ahead_iff_of_kept (hahead : state.Ahead rows row)
    (hoffset : next.cursor.bulkOffset = state.cursor.bulkOffset)
    (hstored : next.storedLastSeen = state.storedLastSeen)
    (hlast : next.cursor.lastPulledAt = some (state.cursor.lastPulledAt.getD poll.finishedAt)) :
    next.Ahead rows row ↔
      (state.cursor.bulkOffset = 0 → state.cursor.lastPulledAt = none →
        row.after (some poll.finishedAt) = true) := by
  unfold BulkState.Ahead bulkStream at hahead ⊢
  rw [hoffset, hstored, hlast]
  split at hahead
  case isTrue hzero =>
    simp only [hzero, if_true, true_implies]
    obtain ⟨hmem, hafter⟩ := mem_filter.mp hahead
    rw [after_effectiveSince, Bool.and_eq_true] at hafter
    rw [mem_filter, after_effectiveSince, Bool.and_eq_true]
    cases hnone : state.cursor.lastPulledAt with
    | none => simp [hmem, hafter.2]
    | some last =>
      rw [hnone] at hafter
      simp [hmem, hafter.1, hafter.2]
  case isFalse hpos => simp [hpos, hahead]

theorem after_some_iff {since : Datetime} :
    row.after (some since) = true ↔
      ∀ lastSeen, row.lastSeen = some lastSeen → since < lastSeen := by
  unfold BulkRow.after
  cases row.lastSeen with
  | none => simp
  | some lastSeen => simp

theorem after_lastPulledAt_iff (row : BulkRow) (poll : Poll) (cursor : Cursor)
    {walk : Walk} (hconsistent : walk.Consistent) (herrored : walk.errored = none) :
    row.after (some (poll.lastPulledAt cursor walk)) = true ↔
      (∀ entry ∈ walk.reads, row.after (some entry.logicalTs) = true) ∧
        (walk.reads = [] → row.after (some (cursor.lastPulledAt.getD poll.finishedAt)) = true) := by
  unfold Poll.lastPulledAt
  rw [herrored]
  cases hlast : walk.lastProcessedTs with
  | none =>
    have hnil := hconsistent.1.mp hlast
    simp [hnil]
  | some ts =>
    have hreads : walk.reads ≠ [] := by
      intro hnil
      rw [hconsistent.1.mpr hnil] at hlast
      cases hlast
    simp only [hreads, false_implies, and_true, after_some_iff]
    constructor
    · intro hts entry hentry lastSeen hseen
      exact (hconsistent.2 ts hlast lastSeen).mp (hts lastSeen hseen) entry hentry
    · intro hall lastSeen hseen
      rw [hconsistent.2 ts hlast lastSeen]
      exact fun entry hentry => hall entry hentry lastSeen hseen

theorem foldl_newest (rows : List BulkRow) (newest : Option Datetime) :
    rows.foldl laterSeen newest = none ↔ newest = none ∧ ∀ row ∈ rows, row.lastSeen = none := by
  induction rows generalizing newest with
  | nil => simp
  | cons head rest ih =>
    rw [foldl_cons, ih, forall_mem_cons]
    cases hseen : head.lastSeen with
    | none => simp [laterSeen, hseen]
    | some lastSeen => simp [laterSeen, hseen]

theorem foldl_newest_lt {rows : List BulkRow} {newest : Option Datetime}
    {last bound : Datetime} (hlast : rows.foldl laterSeen newest = some last) :
    last < bound ↔
      (∀ ts, newest = some ts → ts < bound) ∧
        ∀ row ∈ rows, ∀ lastSeen, row.lastSeen = some lastSeen → lastSeen < bound := by
  induction rows generalizing newest with
  | nil =>
    simp only [foldl_nil] at hlast
    simp [hlast]
  | cons head rest ih =>
    rw [ih hlast, forall_mem_cons]
    cases hseen : head.lastSeen with
    | none => simp [laterSeen, hseen]
    | some lastSeen => simp [laterSeen, hseen, le_laterTs_iff, and_assoc]

theorem after_newestLastSeen_iff {read : List BulkRow} :
    row.after ((newestLastSeen read).or stored) = true ↔
      (∀ other ∈ read, row.after other.lastSeen = true) ∧
        ((∀ other ∈ read, other.lastSeen = none) →
          row.after stored = true) := by
  cases hnewest : newestLastSeen read with
  | none =>
    have hundated := (foldl_newest read none).mp hnewest
    constructor
    · intro hstored
      refine ⟨?_, fun _ => hstored⟩
      intro other hother
      rw [hundated.2 other hother]
      rfl
    · exact fun h => h.2 hundated.2
  | some last =>
    have hdated : ¬∀ other ∈ read, other.lastSeen = none := by
      intro hall
      have hnone := (foldl_newest read none).mpr ⟨rfl, hall⟩
      rw [newestLastSeen, hnone] at hnewest
      cases hnewest
    simp only [some_or, hdated, false_implies, and_true, after_some_iff]
    constructor
    · intro hlast other hother
      cases hseen : other.lastSeen with
      | none => rfl
      | some lastSeen =>
        rw [after_some_iff]
        intro ts hts
        exact ((foldl_newest_lt hnewest).mp (hlast ts hts)).2 other hother lastSeen hseen
    · intro hall ts hts
      rw [foldl_newest_lt hnewest]
      refine ⟨by simp, ?_⟩
      intro other hother lastSeen hseen
      have hafter := hall other hother
      rw [hseen, after_some_iff] at hafter
      exact hafter ts hts

theorem forall_reads_iff_of_drains (hdrains : poll.Drains hashing source rows state)
    {p : Datetime → Prop} :
    (∀ entry ∈ (poll.walk hashing source rows state).reads, p entry.logicalTs) ↔
      ∀ n other, (poll.stream source rows state)[n]? = some other →
        p (entryLogicalTs (poll.turns n).now (other.signal (poll.stamp other))) := by
  have hentries : ((poll.poll source rows state.storedLastSeen).served
      source.toSource state.cursor).entries =
        (poll.stream source rows state).map fun row =>
          row.signal (poll.stamp row) := by
    rw [entries_served_poll, BulkSource.yields, hdrains.2.1]
    rfl
  constructor
  · intro hall n other hother
    refine hall (readAt hashing source.toSource poll.turns state.plane.tables n
      (other.signal (poll.stamp other))) (Poll.mem_reads_walk.mpr ⟨n, _, ⟨?_, ?_⟩, rfl⟩)
    · rw [hentries, getElem?_map, hother]
      rfl
    · refine (hdrains.1 n ?_).1
      rw [hentries, length_map]
      exact (List.getElem?_eq_some_iff.mp hother).1
  · intro hall entry hentry
    obtain ⟨n, raw, ⟨hraw, _⟩, rfl⟩ := Poll.mem_reads_walk.mp hentry
    rw [hentries, getElem?_map, map_eq_some_iff] at hraw
    obtain ⟨other, hother, rfl⟩ := hraw
    exact hall n other hother

theorem ahead_iff_of_drains (hrow : row ∈ rows) (hdrains : poll.Drains hashing source rows state)
    (hstep : bulkStep hashing source rows state poll = some next) :
    next.Ahead rows row ↔ poll.Outdates source rows state row := by
  obtain ⟨herrored, hcapped, hcap⟩ := drains_iff.mp hdrains
  have hconsistent : (poll.walk hashing source rows state).Consistent := Poll.consistent_walk _ _ _
  have hoffset : next.cursor.bulkOffset = 0 := by
    rw [bulkStep_offset hstep, herrored, hcapped, hcap]
    rfl
  have hyields : source.yields (poll.stream source rows state) = poll.stream source rows state := by
    rw [BulkSource.yields, hcap]
    rfl
  have hread : poll.rowsRead hashing source rows state = poll.stream source rows state :=
    (rowsRead_of_not_capped herrored hcapped).trans hyields
  have hnone : (poll.walk hashing source rows state).reads = [] ↔
      poll.stream source rows state = [] := by
    rw [← hread, ← length_eq_zero_iff, length_reads_of_not_capped herrored
      hcapped, length_eq_zero_iff, hyields, hread]
  have hstored : next.storedLastSeen =
      (newestLastSeen (poll.stream source rows state)).or state.storedLastSeen := by
    rw [bulkStep_eq_some hstep, ← hyields]
    simp only [BulkPoll.nextLastSeen, herrored, hcapped]
    rfl
  have hlast : next.cursor.lastPulledAt =
      some ((poll.poll source rows state.storedLastSeen).lastPulledAt
        state.cursor (poll.walk hashing source rows state)) := by
    rw [bulkStep_eq_some hstep]
    rfl
  have hcursor := after_lastPulledAt_iff row (poll.poll source rows
    state.storedLastSeen) state.cursor hconsistent herrored
  rw [forall_reads_iff_of_drains (p := fun ts => row.after (some ts) = true)
    hdrains, hnone] at hcursor
  unfold BulkState.Ahead bulkStream
  rw [hoffset, if_pos rfl, mem_filter, after_effectiveSince,
    Bool.and_eq_true, hlast, hstored, hcursor, after_newestLastSeen_iff]
  constructor
  · rintro ⟨_, ⟨hreads, hidle⟩, hseen, hundated⟩
    exact ⟨hreads, hseen, hidle, hundated⟩
  · intro houtdates
    exact ⟨hrow, ⟨houtdates.read, houtdates.cursor⟩, houtdates.lastSeen, houtdates.stored⟩

theorem offset_of_not_drains (hdrains : ¬poll.Drains hashing source rows state)
    (herrored : (poll.walk hashing source rows state).errored = none)
    (hstep : bulkStep hashing source rows state poll = some next) :
    next.cursor.bulkOffset =
      state.cursor.bulkOffset + (poll.walk hashing source rows state).reads.length := by
  rw [bulkStep_offset hstep, herrored]
  cases hcapped : (poll.walk hashing source rows state).capped with
  | true => rfl
  | false =>
    have hcap : source.hitsCap (poll.stream source rows state) := by
      by_contra hnot
      rw [Bool.not_eq_true] at hnot
      exact hdrains (drains_iff.mpr ⟨herrored, hcapped, hnot⟩)
    rw [hcap]
    rfl

theorem stored_of_not_drains (hdrains : ¬poll.Drains hashing source rows state)
    (hidle : (poll.walk hashing source rows state).errored.isSome ∨ (poll.walk hashing source rows
      state).reads = []) (hstep : bulkStep hashing source rows state poll = some next) :
    next.storedLastSeen = state.storedLastSeen := by
  rw [bulkStep_eq_some hstep]
  apply if_pos
  rw [Bool.or_eq_true]
  rcases hidle with herrored | hreads
  · exact .inr herrored
  · by_contra hnot
    simp only [not_or, Bool.not_eq_true] at hnot
    have herrored : (poll.walk hashing source rows state).errored = none := by
      rw [← not_isSome_iff_eq_none, hnot.2]
      simp
    have hcap : source.hitsCap (poll.stream source rows state) := by
      by_contra hnocap
      rw [Bool.not_eq_true] at hnocap
      exact hdrains (drains_iff.mpr ⟨herrored, hnot.1, hnocap⟩)
    have hlength := length_reads_of_not_capped herrored hnot.1
    rw [hreads, length_nil] at hlength
    have hpos := yields_pos_of_hitsCap hcap
    omega

theorem keepsAhead_iff_leavesOnlyAhead (hkeeps : KeepsAhead rows watermark state)
    (hstep : bulkStep hashing source rows state poll = some next) :
    KeepsAhead rows watermark next ↔
      LeavesOnlyAhead hashing source rows watermark state poll next := by
  have hyielded : next.yielded = state.yielded ++ poll.rowsRead hashing source rows state := by
    rw [bulkStep_eq_some hstep]
  have hleaves : KeepsAhead rows watermark next ↔
      ∀ row, poll.Leaves hashing source rows watermark state row → next.Ahead rows row := by
    unfold KeepsAhead
    rw [hyielded]
    simp only [leaves_iff]
    constructor
    · intro hnext row hrow
      exact hnext row hrow.1 hrow.2.1 hrow.2.2
    · intro hnext row hrow hafter hunread
      exact hnext row ⟨hrow, hafter, hunread⟩
  rw [hleaves]
  apply forall_congr'
  intro row
  apply imp_congr_right
  intro hleft
  obtain ⟨hrow, hafter, hunread⟩ := leaves_iff.mp hleft
  rw [mem_append, not_or] at hunread
  rw [fails_iff, ← reads_eq_nil_iff]
  have hahead : state.Ahead rows row := hkeeps row hrow hafter hunread.1
  by_cases hdrains : poll.Drains hashing source rows state
  · simp only [hdrains, true_implies, not_true, false_implies, and_true]
    exact ahead_iff_of_drains hrow hdrains hstep
  · simp only [hdrains, false_implies, true_and, not_false_iff, true_implies]
    by_cases hidle : (poll.walk hashing source rows state).errored.isSome ∨
        (poll.walk hashing source rows state).reads = []
    · have hoffset : next.cursor.bulkOffset = state.cursor.bulkOffset := by
        cases herrored : (poll.walk hashing source rows state).errored with
        | some error =>
          rw [bulkStep_offset hstep, herrored]
          rfl
        | none =>
          have hreads := hidle.resolve_left (by simp [herrored])
          rw [offset_of_not_drains hdrains herrored hstep, hreads]
          rfl
      simp only [hidle, true_implies]
      exact ahead_iff_of_kept hahead hoffset (stored_of_not_drains hdrains hidle
        hstep) (lastPulledAt_of_idle hidle hstep)
    · simp only [hidle, false_implies, implies_true, iff_true]
      rw [not_or, not_isSome_iff_eq_none] at hidle
      have hoffset := offset_of_not_drains hdrains hidle.1 hstep
      have hpos : 0 < (poll.walk hashing source rows state).reads.length :=
        length_pos_of_ne_nil hidle.2
      have hmem := hahead.mem_fullStream source poll
      rw [rowsRead_eq_take] at hunread
      have hdrop := mem_drop_of_not_read hmem hunread.2
      unfold BulkState.Ahead bulkStream
      rw [if_neg (by omega), hoffset]
      exact hdrop

/-! ## Pulls which succeed -/

def BulkPoll.Completes (poll : BulkPoll) : Prop :=
  poll.transfer = .complete ∧ (poll.turns 0).late = false ∧ ∀ n, (poll.turns n).Succeeds

/-- More pulls than there are rows, all of which complete, yield every row
newer than the watermark. -/
def EventuallyYields (hashing : Hashing) (source : BulkSource)
    (rows : List BulkRow) (watermark : Option Datetime)
    (state : BulkState) : Prop :=
  ∀ later : List BulkPoll, (∀ poll ∈ later, poll.Completes) →
    rows.length < later.length →
    ∀ final, run (bulkStep hashing source rows) state later = some final →
      ∀ row ∈ rows, row.after watermark = true → row ∈ final.yielded

theorem errored_of_completes (hcompletes : poll.Completes) :
    (poll.walk hashing source rows state).errored = none := by
  apply Poll.errored_of_succeeds _ hcompletes.2.2
  rw [served_poll]
  simp only [BulkPoll.serveStream, hcompletes.1, Transfer.error]
  split <;> rfl

theorem stream_of_completes (hcompletes : poll.Completes) :
    poll.stream source rows state = poll.fullStream source rows state := by
  unfold BulkPoll.stream BulkPoll.fullStream
  rw [hcompletes.1]
  rfl

theorem reads_pos_of_completes (hcompletes : poll.Completes)
    (hdrains : ¬poll.Drains hashing source rows state) :
    0 < (poll.walk hashing source rows state).reads.length := by
  by_cases hentries : source.yields (poll.stream source rows state) = []
  · have hcap : source.hitsCap (poll.stream source rows state) = false := by
      by_contra hcap
      rw [Bool.not_eq_false] at hcap
      have hpos := yields_pos_of_hitsCap hcap
      rw [hentries] at hpos
      exact absurd hpos (Nat.lt_irrefl 0)
    have hserved : ((poll.poll source rows state.storedLastSeen).served
        source.toSource state.cursor).entries = [] := by
      rw [served_poll, BulkPoll.serveStream, hentries]
      rfl
    have hcapped : (poll.walk hashing source rows state).capped = false := by
      unfold BulkPoll.walk
      rw [Poll.capped_walk, Poll.loop, hserved]
      rfl
    exact absurd (drains_iff.mpr ⟨errored_of_completes hcompletes, hcapped, hcap⟩) hdrains
  · apply Poll.reads_pos _ hcompletes.2.1
    rw [served_poll]
    simpa [BulkPoll.serveStream] using hentries

theorem mem_yielded_of_step (hstep : bulkStep hashing source rows state poll = some next)
    (hrow : row ∈ state.yielded) : row ∈ next.yielded := by
  rw [bulkStep_eq_some hstep]
  exact mem_append_left _ hrow

theorem progress_of_completes (hkeeps : KeepsAhead rows watermark state)
    (hcompletes : poll.Completes) (hstep : bulkStep hashing source rows state poll = some next) :
    (∀ row ∈ rows, row.after watermark = true → row ∈ next.yielded) ∨
      KeepsAhead rows watermark next ∧ state.cursor.bulkOffset < next.cursor.bulkOffset := by
  have herrored : (poll.walk hashing source rows state).errored = none :=
    errored_of_completes hcompletes
  by_cases hdrains : poll.Drains hashing source rows state
  · left
    intro row hrow hafter
    by_cases hyielded : row ∈ state.yielded
    · exact mem_yielded_of_step hstep hyielded
    · have hmem := (hkeeps row hrow hafter hyielded).mem_fullStream source poll
      obtain ⟨_, hcapped, hcap⟩ := drains_iff.mp hdrains
      have hread := rowsRead_of_not_capped herrored hcapped
      have hall : source.yields (poll.stream source rows state) =
          poll.fullStream source rows state := by
        unfold BulkSource.yields
        rw [hcap]
        exact stream_of_completes hcompletes
      rw [bulkStep_eq_some hstep]
      apply mem_append_right
      rw [hread, hall]
      exact hmem
  · right
    have hpos : 0 < (poll.walk hashing source rows state).reads.length :=
      reads_pos_of_completes hcompletes hdrains
    refine ⟨(keepsAhead_iff_leavesOnlyAhead hkeeps hstep).mpr ?_, ?_⟩
    · intro row hleaves
      refine ⟨fun h => absurd h hdrains, ?_⟩
      rintro - - - (hfails | hreads)
      · rw [fails_iff, herrored] at hfails
        cases hfails
      · rw [reads_eq_nil_iff.mpr hreads] at hpos
        exact absurd hpos (Nat.lt_irrefl 0)
    · rw [offset_of_not_drains hdrains herrored hstep]
      omega

theorem mem_yielded_of_run {final : BulkState}
    (hrun : run (bulkStep hashing source rows) state later = some final)
    (hrow : row ∈ state.yielded) : row ∈ final.yielded := by
  have hkeep : ∀ state poll next, row ∈ state.yielded →
      bulkStep hashing source rows state poll = some next →
      row ∈ next.yielded :=
    fun _ _ _ hmem hstep => mem_yielded_of_step hstep hmem
  exact invariant_of_steps hkeep hrow hrun

theorem yields_all_of_keepsAhead {final : BulkState} (hkeeps : KeepsAhead rows watermark state)
    (hcompletes : ∀ poll ∈ later, poll.Completes)
    (hlong : rows.length < state.cursor.bulkOffset + later.length)
    (hrun : run (bulkStep hashing source rows) state later = some final) :
    ∀ row ∈ rows, row.after watermark = true → row ∈ final.yielded := by
  induction later generalizing state with
  | nil =>
    simp only [run_nil, some.injEq] at hrun
    subst final
    intro row hrow hafter
    by_contra hyielded
    have hahead := hkeeps row hrow hafter hyielded
    rw [length_nil, Nat.add_zero] at hlong
    unfold BulkState.Ahead bulkStream at hahead
    rw [if_neg (by omega), drop_of_length_le hlong.le] at hahead
    cases hahead
  | cons poll rest ih =>
    obtain ⟨next, hstep, hrest⟩ := run_cons_eq_some.mp hrun
    rw [forall_mem_cons] at hcompletes
    rcases progress_of_completes hkeeps hcompletes.1 hstep with hall | ⟨hnext, hmoves⟩
    · intro row hrow hafter
      exact mem_yielded_of_run hrest (hall row hrow hafter)
    · rw [length_cons] at hlong
      exact ih hnext hcompletes.2 (by omega) hrest

theorem KeepsAhead.eventuallyYields (hkeeps : KeepsAhead rows watermark state) :
    EventuallyYields hashing source rows watermark state := by
  intro later hcompletes hlong final hrun
  exact yields_all_of_keepsAhead hkeeps hcompletes (by omega) hrun

theorem keepsAhead_start (last stored : Option Datetime) (plane : Plane) :
    KeepsAhead rows (effectiveSince last stored) (BulkState.start last stored plane) := by
  intro row hrow hafter _
  exact mem_filter.mpr ⟨hrow, hafter⟩

theorem keepsAhead_iff (last stored : Option Datetime) (plane : Plane) (polls : List BulkPoll) :
    VisitsOnly (bulkStep hashing source rows)
        (KeepsAhead rows (effectiveSince last stored))
        (BulkState.start last stored plane) polls ↔
      StepsSatisfy (bulkStep hashing source rows)
        (LeavesOnlyAhead hashing source rows (effectiveSince last stored))
        (BulkState.start last stored plane) polls := by
  have hkeep : ∀ state poll next, True →
      bulkStep hashing source rows state poll = some next → True :=
    fun _ _ _ _ _ => trivial
  exact visitsOnly_iff_stepsSatisfy hkeep (fun _ _ _ _ hkeeps hstep =>
    keepsAhead_iff_leavesOnlyAhead hkeeps hstep) trivial (keepsAhead_start last stored plane)

/-- In every state of a run whose pulls leave only rows which stay ahead, every
row is yielded once pulls keep completing. -/
theorem bulk_traversal_loses_nothing (hashing : Hashing) (source : BulkSource) (rows : List BulkRow)
    (last stored : Option Datetime) (plane : Plane) (polls : List BulkPoll)
    (hleaves : StepsSatisfy (bulkStep hashing source rows) (LeavesOnlyAhead hashing source rows
      (effectiveSince last stored)) (BulkState.start last stored plane) polls) :
    VisitsOnly (bulkStep hashing source rows)
      (EventuallyYields hashing source rows (effectiveSince last stored))
      (BulkState.start last stored plane) polls := by
  have hvisits := (keepsAhead_iff last stored plane polls).mpr hleaves
  exact hvisits.mono fun _ hkeeps => hkeeps.eventuallyYields

def dayRows : List BulkRow :=
  [⟨"first", some 10, none, "a"⟩, ⟨"second", some 10, none, "b"⟩]

def oneRowSource : BulkSource where
  toSource := plainSource 1 Nat.one_pos true
  isBulk := rfl
  maxBulkRows := 0

def bulkPull (transfer : Transfer) : BulkPoll where
  startedAt := 1000
  finishedAt := 1000
  transfer := transfer
  stamp := fun _ => (1, 1000)
  turns := fun _ => plainTurn .dropped

/-- A capped pull is followed by one which completes. -/
theorem bulk_traversal_loses_nothing_twoPulls :
    VisitsOnly (bulkStep plainHashing oneRowSource dayRows)
      (EventuallyYields plainHashing oneRowSource dayRows (effectiveSince none none))
      (BulkState.start none none emptyPlane)
      [bulkPull .complete, bulkPull .complete] := by
  apply bulk_traversal_loses_nothing
  refine ⟨?_, ?_, trivial⟩
  · rintro row -
    refine ⟨fun hdrains => ?_, ?_⟩
    · exact absurd (drains_iff.mp hdrains).2.1 (by decide)
    · rintro - - - (hfails | hreads)
      · exact absurd (fails_iff.mp hfails) (by decide)
      · have hnone := congrArg length (reads_eq_nil_iff.mpr hreads)
        exact absurd hnone (by decide)
  · intro row hleft
    obtain ⟨hrow, _, hunread⟩ := leaves_iff.mp hleft
    refine absurd ?_ hunread
    rcases mem_pair.mp hrow with rfl | rfl
    · exact mem_cons_self
    · exact mem_cons_of_mem _ mem_cons_self

/-- A transfer cut after its first row hides the second for good. -/
theorem cut_transfer_loses_row :
    ¬VisitsOnly (bulkStep plainHashing oneRowSource dayRows)
      (EventuallyYields plainHashing oneRowSource dayRows (effectiveSince none none))
      (BulkState.start none none emptyPlane) [bulkPull (.cut 1)] := by
  intro hvisits
  have hafter := ((visitsOnly_cons rfl).mp hvisits).2.start
  have hcompletes : ∀ poll ∈ replicate 3 (bulkPull .complete), poll.Completes := by
    intro poll hpoll
    rw [eq_of_mem_replicate hpoll]
    exact ⟨rfl, rfl, fun _ => ⟨fun _ => by simp [bulkPull, plainTurn], rfl⟩⟩
  have hyielded := hafter (replicate 3 (bulkPull .complete)) hcompletes
    (by decide) _ rfl ⟨"second", some 10, none, "b"⟩ (by decide) rfl
  exact absurd hyielded (by decide)

end

end Legba.Sources
