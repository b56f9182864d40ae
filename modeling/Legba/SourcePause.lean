import Legba.DescriptorLifecycle
import Legba.KeyedTable
import Legba.LabelledRun
import Legba.LeadingRun
import Legba.SignalRow
import Mathlib.Data.String.Basic

/-!
# The pause of failing sources and the re-probe of paused ones

`_pause_failing_sources` reads the newest poll outcomes of each active source
and pauses the sources whose leading error run is long enough.
`_reprobe_paused_sources` activates paused sources again whose content has
become fresh.  Both legs write the head descriptor only; the poll outcomes and
the signals are written by the polls.
-/

namespace Legba.SourceGc

open KeyedTable
open Descriptors (LifecycleState)
open List

def sourceFailureThreshold : ℕ := 20

def sourceStreakWindow : ℕ := max (sourceFailureThreshold + 5) 25

def sourceRecentSignalHours : ℤ := 48

def reprobeMinPausedAge : ℤ := seconds (24 * 3600)

def reprobeMaxPerRun : ℕ := 10

def reprobeFreshnessWindow : ℤ := seconds (14 * 24 * 3600)

inductive PollResult where
  | success
  | empty
  | error
  deriving DecidableEq, Repr

structure PollOutcome where
  sourceId : String
  outcome : PollResult
  occurredAt : Datetime
  deriving DecidableEq, Repr

structure Landing where
  sourceId : String
  fetchedAt : Datetime
  createdAt : Datetime
  deriving DecidableEq, Repr

/-- The head descriptor of a source: its state and the two markers of its
body. -/
structure SourceHead where
  state : LifecycleState
  autoPausedAt : Option Datetime
  autoPausedReason : Option String
  deriving DecidableEq, Repr

/-- The rows the two legs read, and the instant at which each source was last
activated by the re-probe leg. -/
structure SourceTables where
  sources : Table String SourceHead
  outcomes : Table Uuid PollOutcome
  signals : List Landing
  unpausedAt : String → Option Datetime

structure StreakRow where
  sourceId : String
  outcome : PollResult
  occurredAt : Datetime
  lastSignal : Option Datetime
  lastIngest : Option Datetime
  deriving DecidableEq, Repr

def countsAsError (lastSignal : Option Datetime) (row : StreakRow) : Bool :=
  row.outcome = .error && !lastSignal.any fun signal => row.occurredAt ≤ signal

def streakOf (threshold : ℕ) (recentCutoff : Datetime) (rows : List StreakRow)
    (sourceId : String) : Option (String × ℕ) :=
  let outcomes := rows.filter fun row => row.sourceId = sourceId
  let lastSignal := outcomes.head?.bind StreakRow.lastSignal
  let lastIngest := outcomes.head?.bind StreakRow.lastIngest
  if lastIngest.any fun ingest => recentCutoff ≤ ingest then none
  else
    let streak := LeadingRun.leadingRun (countsAsError lastSignal) outcomes
    if threshold ≤ streak then some (sourceId, streak) else none

def consecutiveErrorStreaks (rows : List StreakRow) (threshold : ℕ)
    (now : Datetime) (recentSignalHours : ℤ) : List (String × ℕ) :=
  if threshold ≤ 0 then []
  else
    let recentCutoff := now - seconds (3600 * max 0 recentSignalHours)
    let order := ((rows.map StreakRow.sourceId).filter fun id => id ≠ "").eraseDups
    order.filterMap (streakOf threshold recentCutoff rows)

/-- What the pause leg meets: the order in which the database reads the poll
outcomes, which decides among outcomes of one instant, and its instants. -/
structure PauseLeg where
  readOrder : List Uuid
  now : Datetime
  pausedAt : String → Datetime

def SourceTables.signalsOf (tables : SourceTables) (sourceId : String) : List Landing :=
  tables.signals.filter fun signal => signal.sourceId = sourceId

def SourceTables.lastSignal (tables : SourceTables) (sourceId : String) : Option Datetime :=
  ((tables.signalsOf sourceId).map Landing.fetchedAt).max?

def SourceTables.lastIngest (tables : SourceTables) (sourceId : String) : Option Datetime :=
  ((tables.signalsOf sourceId).map Landing.createdAt).max?

def outcomeOf (outcomes : Table Uuid PollOutcome) (sourceId : String)
    (id : Uuid) : Option (Uuid × PollOutcome) :=
  ((outcomes.row? id).filter fun row => row.sourceId = sourceId).map (id, ·)

/-- The poll outcomes of a source, `ORDER BY occurred_at DESC`. -/
def newestFirst (outcomes : Table Uuid PollOutcome) (readOrder : List Uuid)
    (sourceId : String) : List (Uuid × PollOutcome) :=
  (readOrder.filterMap (outcomeOf outcomes sourceId)).insertionSort
    fun a b => b.2.occurredAt ≤ a.2.occurredAt

def SourceTables.activeHeads (tables : SourceTables) : List String :=
  (tables.sources.keys.filter fun id =>
    (tables.sources.row? id).any fun head => head.state = .active).insertionSort (· ≤ ·)

def streakRow (tables : SourceTables) (sourceId : String)
    (entry : Uuid × PollOutcome) : StreakRow :=
  ⟨entry.2.sourceId, entry.2.outcome, entry.2.occurredAt,
    tables.lastSignal sourceId, tables.lastIngest sourceId⟩

def streakRows (tables : SourceTables) (leg : PauseLeg) : List StreakRow :=
  tables.activeHeads.flatMap fun id =>
    ((newestFirst tables.outcomes leg.readOrder id).take
      sourceStreakWindow).map (streakRow tables id)

def pauseReason (streak : ℕ) : String :=
  "Exceeded " ++ toString sourceFailureThreshold ++
    " consecutive failed polls (" ++ toString streak ++ " error outcomes)"

def pauseSource (leg : PauseLeg) (sources : Table String SourceHead)
    (failing : String × ℕ) : Table String SourceHead :=
  sources.update failing.1 fun _ =>
    { state := .paused
      autoPausedAt := some (leg.pausedAt failing.1)
      autoPausedReason := some (pauseReason failing.2) }

def failingSources (tables : SourceTables) (leg : PauseLeg) : List (String × ℕ) :=
  consecutiveErrorStreaks (streakRows tables leg) sourceFailureThreshold
    leg.now sourceRecentSignalHours

def pauseFailingSources (tables : SourceTables) (leg : PauseLeg) : SourceTables × ℕ :=
  let failing := failingSources tables leg
  ({ tables with sources := failing.foldl (pauseSource leg) tables.sources }, failing.length)

/-- What the re-probe leg meets: the order in which the database reads the
descriptors, the newest item each source serves, if the pull succeeds and finds
a date, and its instants. -/
structure ReprobeLeg where
  readOrder : List String
  now : Datetime
  newest : String → Option Datetime
  probedAt : String → Datetime
  writtenAt : String → Datetime

def SourceHead.eligible (head : SourceHead) (now : Datetime) : Bool :=
  head.state = .paused && head.autoPausedReason.isSome &&
    head.autoPausedAt.any fun pausedAt => pausedAt ≤ now - reprobeMinPausedAge

def fetchReprobeCandidates (tables : SourceTables) (leg : ReprobeLeg) :
    List (String × SourceHead) :=
  let eligible := leg.readOrder.filterMap fun id =>
    ((tables.sources.row? id).filter fun head => head.eligible leg.now).map
      (id, ·)
  (eligible.insertionSort fun a b =>
    a.2.autoPausedAt.getD 0 ≤ b.2.autoPausedAt.getD 0).take reprobeMaxPerRun

/-- The verdict of `_probe_source_health`. -/
def probeFresh (newest autoPausedAt : Option Datetime) (now : Datetime) :
    Bool :=
  match newest with
  | none => false
  | some item => now - reprobeFreshnessWindow ≤ item ∧ ∀ pausedAt ∈ autoPausedAt, pausedAt < item

def SourceHead.stillAutoPaused (head : SourceHead) : Bool :=
  head.state = .paused && head.autoPausedAt.isSome

def reprobeSource (leg : ReprobeLeg) (tables : SourceTables)
    (candidate : String × SourceHead) : SourceTables :=
  if probeFresh (leg.newest candidate.1) candidate.2.autoPausedAt (leg.probedAt candidate.1) then
    match (tables.sources.row? candidate.1).filter SourceHead.stillAutoPaused with
    | none => tables
    | some _ =>
      { tables with
        sources := tables.sources.update candidate.1 fun _ => ⟨.active, none, none⟩
        unpausedAt := Function.update tables.unpausedAt candidate.1
          (some (leg.writtenAt candidate.1)) }
  else tables

def reprobePausedSources (tables : SourceTables) (leg : ReprobeLeg) :
    SourceTables :=
  (fetchReprobeCandidates tables leg).foldl (reprobeSource leg) tables

/-- A poll writes its outcome, a signal lands, a descriptor is written by
somebody else, and the two legs.  A leg whose read order does not list each row
once is no step. -/
inductive Event where
  | poll (id : Uuid) (outcome : PollOutcome)
  | land (signal : Landing)
  | describe (sourceId : String) (head : SourceHead)
  | pause (leg : PauseLeg)
  | reprobe (leg : ReprobeLeg)

def step (tables : SourceTables) : Event → Option SourceTables
  | .poll id outcome =>
    if (tables.outcomes.row? id).isNone then
      some { tables with outcomes := tables.outcomes.put id outcome }
    else none
  | .land signal => some { tables with signals := signal :: tables.signals }
  | .describe sourceId head => some { tables with sources := tables.sources.put sourceId head }
  | .pause leg =>
    if leg.readOrder.Perm tables.outcomes.keys then
      some (pauseFailingSources tables leg).1
    else none
  | .reprobe leg =>
    if leg.readOrder.Perm tables.sources.keys then
      some (reprobePausedSources tables leg)
    else none

variable {tables : SourceTables} {leg : PauseLeg} {sourceId : String}
  {entry : Uuid × PollOutcome} {cutoff : Datetime}

theorem step_pause (hread : leg.readOrder.Perm tables.outcomes.keys) :
    step tables (.pause leg) = some (pauseFailingSources tables leg).1 := by
  exact if_pos hread

theorem step_reprobe {leg : ReprobeLeg} (hread : leg.readOrder.Perm tables.sources.keys) :
    step tables (.reprobe leg) = some (reprobePausedSources tables leg) := by
  exact if_pos hread

/-! ## What the pause leg judges -/

section

variable {Row : Type*} {key : Row → String} {rowsOf : String → List Row}

section

variable (hkey : ∀ id, ∀ row ∈ rowsOf id, key row = id) {ids : List String}

include hkey

theorem filter_flatMap_of_notMem {id : String} (hid : id ∉ ids) :
    (ids.flatMap rowsOf).filter (fun row => key row = id) = [] := by
  rw [filter_eq_nil_iff]
  intro row hrow
  obtain ⟨other, hother, hmem⟩ := mem_flatMap.mp hrow
  rw [decide_eq_true_eq, hkey other row hmem]
  intro heq
  exact hid (heq ▸ hother)

theorem filter_flatMap_of_mem (hnodup : ids.Nodup) {id : String} (hid : id ∈ ids) :
    (ids.flatMap rowsOf).filter (fun row => key row = id) = rowsOf id := by
  induction ids with
  | nil => simp at hid
  | cons head rest ih =>
    obtain ⟨hhead, hrest⟩ := nodup_cons.mp hnodup
    rw [flatMap_cons, filter_append]
    by_cases heq : head = id
    · subst heq
      have hall : (rowsOf head).filter (fun row => key row = head) = rowsOf head := by
        rw [filter_eq_self]
        intro row hrow
        simpa using hkey head row hrow
      rw [hall, filter_flatMap_of_notMem hkey hhead, append_nil]
    · have hnone : (rowsOf head).filter (fun row => key row = id) = [] := by
        rw [filter_eq_nil_iff]
        intro row hrow
        rw [decide_eq_true_eq, hkey head row hrow]
        exact heq
      have hmem : id ∈ rest := (mem_cons.mp hid).resolve_left (Ne.symm heq)
      rw [hnone, nil_append, ih hrest hmem]

end

end

theorem mem_activeHeads :
    sourceId ∈ tables.activeHeads ↔
      ∃ head, tables.sources.row? sourceId = some head ∧ head.state = .active := by
  unfold SourceTables.activeHeads
  rw [mem_insertionSort, mem_filter, tables.sources.mem_keys]
  cases hrow : tables.sources.row? sourceId with
  | none => simp
  | some head => simp

theorem nodup_activeHeads (tables : SourceTables) : tables.activeHeads.Nodup := by
  unfold SourceTables.activeHeads
  rw [(perm_insertionSort _ _).nodup_iff]
  exact tables.sources.nodup_keys.filter _

theorem mem_newestFirst {outcomes : Table Uuid PollOutcome} {readOrder : List Uuid} :
    entry ∈ newestFirst outcomes readOrder sourceId ↔
      entry.1 ∈ readOrder ∧ outcomes.row? entry.1 = some entry.2 ∧ entry.2.sourceId = sourceId := by
  unfold newestFirst
  rw [mem_insertionSort, mem_filterMap]
  constructor
  · intro hmem
    obtain ⟨id, hid, houtcome⟩ := hmem
    obtain ⟨row, hrow, hpair⟩ := Option.map_eq_some_iff.mp houtcome
    obtain ⟨hfound, hsource⟩ := Option.filter_eq_some_iff.mp hrow
    subst hpair
    exact ⟨hid, hfound, by simpa using hsource⟩
  · intro hmem
    obtain ⟨hid, hfound, hsource⟩ := hmem
    refine ⟨entry.1, hid, ?_⟩
    unfold outcomeOf
    rw [hfound]
    simp [Option.filter, hsource]

theorem newestFirst_sorted (outcomes : Table Uuid PollOutcome)
    (readOrder : List Uuid) (sourceId : String) :
    (newestFirst outcomes readOrder sourceId).Pairwise
      fun newer older => older.2.occurredAt ≤ newer.2.occurredAt := by
  exact pairwise_insertionSort _ _

/-- An active source, with no signal landed of late, whose newest poll outcomes
are all errors, later than every signal it has fetched. -/
structure JudgedFailing (tables : SourceTables) (leg : PauseLeg) (sourceId : String) : Prop where
  named : sourceId ≠ ""
  active : ∃ head, tables.sources.row? sourceId = some head ∧ head.state = .active
  quiet : ∀ signal ∈ tables.signalsOf sourceId,
    signal.createdAt < leg.now - seconds (3600 * sourceRecentSignalHours)
  enough : sourceFailureThreshold ≤ (newestFirst tables.outcomes leg.readOrder sourceId).length
  errors : ∀ entry ∈ (newestFirst tables.outcomes leg.readOrder
    sourceId).take sourceFailureThreshold,
    entry.2.outcome = .error ∧ ∀ signal ∈ tables.signalsOf sourceId,
      signal.fetchedAt < entry.2.occurredAt

theorem any_le_max?_iff {instants : List Datetime} {bound : Datetime} :
    (instants.max?.any fun newest => bound ≤ newest) = true ↔
      ∃ instant ∈ instants, bound ≤ instant := by
  cases hmax : instants.max? with
  | none =>
    rw [max?_eq_none_iff] at hmax
    simp [hmax]
  | some newest =>
    obtain ⟨hmem, hle⟩ := max?_eq_some_iff.mp hmax
    rw [Option.any_some, decide_eq_true_eq]
    constructor
    · intro hbound
      exact ⟨newest, hmem, hbound⟩
    · intro hexists
      obtain ⟨instant, hinstant, hbound⟩ := hexists
      exact le_trans hbound (hle instant hinstant)

theorem filter_streakRows (hactive : sourceId ∈ tables.activeHeads) :
    (streakRows tables leg).filter (fun row => row.sourceId = sourceId) =
      ((newestFirst tables.outcomes leg.readOrder sourceId).take
        sourceStreakWindow).map (streakRow tables sourceId) := by
  apply filter_flatMap_of_mem _ (nodup_activeHeads tables) hactive
  intro id row hrow
  obtain ⟨entry, hentry, hstreak⟩ := mem_map.mp hrow
  subst hstreak
  exact (mem_newestFirst.mp (mem_of_mem_take hentry)).2.2

theorem countsAsError_streakRow :
    countsAsError (tables.lastSignal sourceId) (streakRow tables sourceId entry) = true ↔
      entry.2.outcome = .error ∧ ∀ signal ∈ tables.signalsOf sourceId,
        signal.fetchedAt < entry.2.occurredAt := by
  have hstale : ((tables.lastSignal sourceId).any fun signal =>
      entry.2.occurredAt ≤ signal) = true ↔
      ∃ signal ∈ tables.signalsOf sourceId, entry.2.occurredAt ≤ signal.fetchedAt := by
    unfold SourceTables.lastSignal
    rw [any_le_max?_iff]
    simp
  unfold countsAsError streakRow
  rw [Bool.and_eq_true, decide_eq_true_eq, Bool.not_eq_true', ← Bool.not_eq_true, hstale]
  apply and_congr_right
  intro _
  constructor
  · intro hnone signal hsignal
    exact Int.not_le.mp fun hle => hnone ⟨signal, hsignal, hle⟩
  · intro hall hexists
    obtain ⟨signal, hsignal, hle⟩ := hexists
    exact absurd hle (Int.not_le.mpr (hall signal hsignal))

theorem producing_iff :
    ((tables.lastIngest sourceId).any fun ingest => cutoff ≤ ingest) = true ↔
      ∃ signal ∈ tables.signalsOf sourceId, cutoff ≤ signal.createdAt := by
  unfold SourceTables.lastIngest
  rw [any_le_max?_iff]
  simp

theorem longRun_iff {entries : List (Uuid × PollOutcome)} :
    sourceFailureThreshold ≤ LeadingRun.leadingRun
        (countsAsError (tables.lastSignal sourceId))
        ((entries.take sourceStreakWindow).map (streakRow tables sourceId)) ↔
      sourceFailureThreshold ≤ entries.length ∧
        ∀ entry ∈ entries.take sourceFailureThreshold,
          entry.2.outcome = .error ∧
          ∀ signal ∈ tables.signalsOf sourceId, signal.fetchedAt < entry.2.occurredAt := by
  have hwindow : sourceFailureThreshold ≤ sourceStreakWindow := by decide
  rw [LeadingRun.leadingRun_map, LeadingRun.le_leadingRun_take_iff hwindow,
    LeadingRun.le_leadingRun_iff]
  apply and_congr_right
  intro _
  exact forall₂_congr fun entry _ => countsAsError_streakRow

theorem streakOf_streakRows (hactive : sourceId ∈ tables.activeHeads)
    (hentries : newestFirst tables.outcomes leg.readOrder sourceId ≠ []) :
    streakOf sourceFailureThreshold cutoff (streakRows tables leg) sourceId =
      if (tables.lastIngest sourceId).any fun ingest => cutoff ≤ ingest then
        none
      else
        let streak := LeadingRun.leadingRun
          (countsAsError (tables.lastSignal sourceId))
          (((newestFirst tables.outcomes leg.readOrder sourceId).take
            sourceStreakWindow).map (streakRow tables sourceId))
        if sourceFailureThreshold ≤ streak then some (sourceId, streak)
        else none := by
  unfold streakOf
  rw [filter_streakRows hactive]
  cases hrows : newestFirst tables.outcomes leg.readOrder sourceId with
  | nil => exact absurd hrows hentries
  | cons first rest => rfl

theorem streakOf_eq_some_iff (hnamed : sourceId ≠ "") (hactive : sourceId ∈ tables.activeHeads)
    (hentries : newestFirst tables.outcomes leg.readOrder sourceId ≠ []) :
    (∃ streak, streakOf sourceFailureThreshold
        (leg.now - seconds (3600 * sourceRecentSignalHours))
        (streakRows tables leg) sourceId = some (sourceId, streak)) ↔
      JudgedFailing tables leg sourceId := by
  rw [streakOf_streakRows hactive hentries]
  dsimp only
  by_cases hproducing : ((tables.lastIngest sourceId).any fun ingest =>
      leg.now - seconds (3600 * sourceRecentSignalHours) ≤ ingest) = true
  · obtain ⟨signal, hsignal, hrecent⟩ := producing_iff.mp hproducing
    rw [if_pos hproducing]
    constructor
    · intro hsome
      obtain ⟨_, hstreak⟩ := hsome
      simp at hstreak
    · intro hjudged
      exact absurd hrecent (Int.not_le.mpr (hjudged.quiet signal hsignal))
  · rw [if_neg hproducing]
    constructor
    · intro hsome
      obtain ⟨_, hstreak⟩ := hsome
      split at hstreak
      · rename_i hlong
        obtain ⟨henough, herrors⟩ := longRun_iff.mp hlong
        refine ⟨hnamed, mem_activeHeads.mp hactive, ?_, henough, herrors⟩
        intro signal hsignal
        exact Int.not_le.mp fun hrecent => hproducing (producing_iff.mpr ⟨signal, hsignal, hrecent⟩)
      · simp at hstreak
    · intro hjudged
      exact ⟨_, if_pos (longRun_iff.mpr ⟨hjudged.enough, hjudged.errors⟩)⟩

theorem streakOf_sourceId {threshold : ℕ} {rows : List StreakRow} {failing : String × ℕ}
    (hstreak : streakOf threshold cutoff rows sourceId = some failing) : failing.1 = sourceId := by
  unfold streakOf at hstreak
  dsimp only at hstreak
  split at hstreak
  · simp at hstreak
  · split at hstreak
    · exact (congrArg Prod.fst (Option.some.inj hstreak)).symm
    · simp at hstreak

theorem mem_order_streakRows :
    sourceId ∈ (((streakRows tables leg).map StreakRow.sourceId).filter
        fun id => id ≠ "").eraseDups ↔
      sourceId ≠ "" ∧ sourceId ∈ tables.activeHeads ∧
        newestFirst tables.outcomes leg.readOrder sourceId ≠ [] := by
  rw [mem_eraseDups, mem_filter, decide_eq_true_eq, and_comm]
  apply and_congr_right
  intro _
  rw [mem_map]
  constructor
  · intro hexists
    obtain ⟨row, hrow, hsource⟩ := hexists
    obtain ⟨id, hid, hmem⟩ := mem_flatMap.mp hrow
    obtain ⟨entry, hentry, hstreak⟩ := mem_map.mp hmem
    have hread := mem_of_mem_take hentry
    have hid' : id = sourceId := by
      rw [← hsource, ← hstreak]
      exact (mem_newestFirst.mp hread).2.2.symm
    subst hid'
    exact ⟨hid, ne_nil_of_mem hread⟩
  · intro hboth
    obtain ⟨hactive, hentries⟩ := hboth
    obtain ⟨first, rest, hrows⟩ := exists_cons_of_ne_nil hentries
    have hfirst : first ∈ newestFirst tables.outcomes leg.readOrder
        sourceId := by
      rw [hrows]
      exact mem_cons_self
    refine ⟨streakRow tables sourceId first, ?_, (mem_newestFirst.mp hfirst).2.2⟩
    refine mem_flatMap.mpr ⟨sourceId, hactive, ?_⟩
    apply mem_map_of_mem
    rw [hrows]
    exact mem_cons_self

theorem mem_failingSources_iff :
    (∃ streak, (sourceId, streak) ∈ failingSources tables leg) ↔
      JudgedFailing tables leg sourceId := by
  have hfailing : failingSources tables leg =
      ((((streakRows tables leg).map StreakRow.sourceId).filter
        fun id => id ≠ "").eraseDups).filterMap
        (streakOf sourceFailureThreshold
          (leg.now - seconds (3600 * sourceRecentSignalHours))
          (streakRows tables leg)) := rfl
  constructor
  · intro hexists
    obtain ⟨streak, hmem⟩ := hexists
    obtain ⟨id, horder, hstreak⟩ := mem_filterMap.mp hmem
    have hid : sourceId = id := streakOf_sourceId hstreak
    subst hid
    obtain ⟨hnamed, hactive, hentries⟩ := mem_order_streakRows.mp horder
    exact (streakOf_eq_some_iff hnamed hactive hentries).mp ⟨streak, hstreak⟩
  · intro hjudged
    have hactive := mem_activeHeads.mpr hjudged.active
    have hentries : newestFirst tables.outcomes leg.readOrder sourceId ≠ [] := by
      intro hnil
      have henough := hjudged.enough
      rw [hnil] at henough
      exact absurd henough (by decide)
    obtain ⟨streak, hstreak⟩ := (streakOf_eq_some_iff hjudged.named hactive hentries).mpr hjudged
    have horder := mem_order_streakRows.mpr ⟨hjudged.named, hactive, hentries⟩
    exact ⟨streak, mem_filterMap.mpr ⟨sourceId, horder, hstreak⟩⟩

theorem foldl_pauseSource_row? (leg : PauseLeg) (failing : List (String × ℕ))
    (sources : Table String SourceHead) {head : SourceHead}
    (hhead : sources.row? sourceId = some head) :
    ∃ last, (failing.foldl (pauseSource leg) sources).row? sourceId = some last ∧
      (last = head ∧ (∀ streak, (sourceId, streak) ∉ failing) ∨
        last.state = .paused ∧ ∃ streak, (sourceId, streak) ∈ failing) := by
  induction failing generalizing sources head with
  | nil => exact ⟨head, hhead, .inl ⟨rfl, fun _ => not_mem_nil⟩⟩
  | cons first rest ih =>
    by_cases hfirst : sourceId = first.1
    · subst hfirst
      have hnext : (pauseSource leg sources first).row? first.1 =
          some ⟨.paused, some (leg.pausedAt first.1), some (pauseReason first.2)⟩ := by
        unfold pauseSource
        rw [Table.row?_update_self, hhead]
        rfl
      obtain ⟨last, hlast, hcase⟩ := ih (pauseSource leg sources first) hnext
      refine ⟨last, hlast, .inr ⟨?_, first.2, mem_cons_self⟩⟩
      rcases hcase with ⟨hsame, _⟩ | ⟨hpaused, _⟩
      · rw [hsame]
      · exact hpaused
    · have hnext : (pauseSource leg sources first).row? sourceId = some head := by
        unfold pauseSource
        rw [Table.row?_update_of_ne _ hfirst, hhead]
      obtain ⟨last, hlast, hcase⟩ := ih (pauseSource leg sources first) hnext
      refine ⟨last, hlast, ?_⟩
      rcases hcase with ⟨hsame, hnone⟩ | ⟨hpaused, streak, hmem⟩
      · refine .inl ⟨hsame, fun streak hmem => ?_⟩
        rcases mem_cons.mp hmem with heq | hrest
        · exact hfirst (congrArg Prod.fst heq)
        · exact hnone streak hrest
      · exact .inr ⟨hpaused, streak, mem_cons_of_mem _ hmem⟩

def Pauses (before after : SourceTables) (sourceId : String) : Prop :=
  (∃ head, before.sources.row? sourceId = some head ∧ head.state = .active) ∧
  ∃ head, after.sources.row? sourceId = some head ∧ head.state = .paused

theorem pauses_iff :
    Pauses tables (pauseFailingSources tables leg).1 sourceId ↔
      JudgedFailing tables leg sourceId := by
  rw [← mem_failingSources_iff]
  constructor
  · intro hpauses
    obtain ⟨⟨head, hhead, hactive⟩, after, hafter, hpaused⟩ := hpauses
    obtain ⟨last, hlast, hcase⟩ := foldl_pauseSource_row? leg
      (failingSources tables leg) tables.sources hhead
    obtain rfl : last = after := Option.some.inj (hlast.symm.trans hafter)
    rcases hcase with ⟨hsame, _⟩ | ⟨_, hmem⟩
    · rw [hsame, hactive] at hpaused
      simp at hpaused
    · exact hmem
  · intro hmem
    obtain ⟨head, hhead, hactive⟩ := (mem_failingSources_iff.mp hmem).active
    obtain ⟨last, hlast, hcase⟩ := foldl_pauseSource_row? leg
      (failingSources tables leg) tables.sources hhead
    refine ⟨⟨head, hhead, hactive⟩, last, hlast, ?_⟩
    rcases hcase with ⟨_, hnone⟩ | ⟨hpaused, _⟩
    · obtain ⟨streak, hstreak⟩ := hmem
      exact absurd hstreak (hnone streak)
    · exact hpaused

end Legba.SourceGc
