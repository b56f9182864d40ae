import Legba.IngestDedupe

/-!
# One poll of a source

A poll reads the entries its handler yields since the cursor, writes and
publishes each of them, and moves the cursor to the newest logical timestamp it
read.  A source which streams one large snapshot also carries the number of
rows it has walked.

A poll is given what it meets: the clock, what the handler serves, and for each
entry what the baseline makes of it and what the database does.
-/

namespace Legba.Sources

open List Nat

/-- The `cursor` of a source in its state store. -/
structure Cursor where
  lastPulledAt : Option Datetime
  rowsPulled : ℕ
  lastError : Option String
  bulkOffset : ℕ

def Cursor.initial : Cursor where
  lastPulledAt := none
  rowsPulled := 0
  lastError := none
  bulkOffset := 0

/-- A source descriptor with the bounds of `resolve_poll_bounds`. -/
structure Source where
  ownerTenant : String
  maxEntries : ℕ
  maxEntries_pos : 0 < maxEntries
  /-- `_bulk_resume_field` is not `None`. -/
  bulk : Bool
  collapse : CollapseSettings
  dedupe : Option IngestDedupe

def maxFutureSkew : ℤ := seconds (26 * 3600)

def entryLogicalTs (now : Datetime) (signal : Signal) : Datetime :=
  match signal.publishedAt with
  | some ts => if now + maxFutureSkew < ts then now else ts
  | none => signal.fetchedAt

def bulkHighwaterAdvance (priorOffset rowsTraversed : ℤ) (reachedEnd : Bool) : ℤ :=
  if reachedEnd then 0 else max 0 priorOffset + max 0 rowsTraversed

@[simp] theorem bulkHighwaterAdvance_reachedEnd (priorOffset walked : ℤ) :
    bulkHighwaterAdvance priorOffset walked true = 0 := rfl

@[simp] theorem bulkHighwaterAdvance_midSnapshot (priorOffset walked : ℕ) :
    (bulkHighwaterAdvance priorOffset walked false).toNat = priorOffset + walked := by
  simp only [bulkHighwaterAdvance, Bool.false_eq_true, if_false]
  omega

inductive BaselineResult where
  | timedOut
  | dropped
  | enriched (signal : Signal)
  | raised (error : String)

/-- What one entry meets.  `late` says that the deadline has passed when the
handler yields it, `now` is the clock at its logical timestamp, and a failing
dedupe raises before it links. -/
structure EntryTurn where
  late : Bool
  now : Datetime
  baseline : BaselineResult
  write : WriteTurn
  dedupeFails : Bool
  publishFails : Bool

inductive EntryOutcome where
  | timedOut
  | dropped
  | collapsed
  | conflict
  | written (id : Uuid)
  | raised (error : String)
deriving DecidableEq

def EntryOutcome.settles : EntryOutcome → Bool
  | .timedOut => false
  | .raised _ => false
  | _ => true

def stampTenant (source : Source) (signal : Signal) : Signal :=
  if source.ownerTenant = "" then signal
  else { signal with ownerTenant := source.ownerTenant }

def linkWritten (hashing : Hashing) (source : Source) (turn : EntryTurn)
    (tables : Tables) (signal : Signal) : Tables :=
  match source.dedupe with
  | some dedupe =>
    if turn.dedupeFails then tables else dedupe.apply hashing tables signal
  | none => tables

def processOne (hashing : Hashing) (source : Source) (turn : EntryTurn)
    (tables : Tables) : Tables × EntryOutcome :=
  match turn.baseline with
  | .timedOut => (tables, .timedOut)
  | .dropped => (tables, .dropped)
  | .raised error => (tables, .raised error)
  | .enriched signal =>
    let stamped := stampTenant source signal
    match writeCanonicalSignal source.collapse source.ownerTenant
        turn.write tables.pool stamped with
    | (pool, .inserted) =>
      (linkWritten hashing source turn { tables with pool := pool } stamped,
        .written stamped.signalId)
    | (pool, .collapsed) => ({ tables with pool := pool }, .collapsed)
    | (pool, .conflict) => ({ tables with pool := pool }, .conflict)
    | (pool, .raised) => ({ tables with pool := pool }, .raised "database")

/-! ## The walk over the entries -/

structure ReadEntry where
  raw : Signal
  logicalTs : Datetime
  outcome : EntryOutcome

structure Plane where
  tables : Tables
  published : List Uuid

structure Walk where
  plane : Plane
  reads : List ReadEntry
  lastProcessedTs : Option Datetime
  capped : Bool
  errored : Option String

def Walk.start (plane : Plane) : Walk where
  plane := plane
  reads := []
  lastProcessedTs := none
  capped := false
  errored := none

def laterTs (last : Option Datetime) (ts : Datetime) : Datetime :=
  match last with
  | some last => if last < ts then ts else last
  | none => ts

/-- `_publish` of what was written. -/
def publishOutcome (turn : EntryTurn) (published : List Uuid) : EntryOutcome → List Uuid
  | .written id => if turn.publishFails then published else published ++ [id]
  | _ => published

def EntryOutcome.error : EntryOutcome → Option String
  | .raised error => some error
  | _ => none

def Walk.read (walk : Walk) (hashing : Hashing) (source : Source)
    (turn : EntryTurn) (raw : Signal) : Walk :=
  let result := processOne hashing source turn walk.plane.tables
  let ts := entryLogicalTs turn.now raw
  { plane :=
      { tables := result.1
        published := publishOutcome turn walk.plane.published result.2 }
    reads := walk.reads ++ [⟨raw, ts, result.2⟩]
    lastProcessedTs := some (laterTs walk.lastProcessedTs ts)
    capped := walk.capped
    errored := result.2.error }

def walkEntries (hashing : Hashing) (source : Source)
    (turns : ℕ → EntryTurn) : Walk → List Signal → Walk
  | walk, [] => walk
  | walk, raw :: rest =>
    if source.maxEntries ≤ walk.reads.length || (turns walk.reads.length).late then
      { walk with capped := true }
    else
      let next := walk.read hashing source (turns walk.reads.length) raw
      if next.errored.isSome then next
      else walkEntries hashing source turns next rest

/-- What a handler yields, whether it then raises, and whether it reports the
end of its stream. -/
structure Served where
  entries : List Signal
  raises : Option String
  reachedEnd : Option Bool

structure Poll where
  startedAt : Datetime
  finishedAt : Datetime
  serve : Option Datetime → ℕ → Served
  turns : ℕ → EntryTurn
  cursorSaved : Bool

def Poll.since (poll : Poll) (cursor : Cursor) : Option Datetime :=
  cursor.lastPulledAt.filter fun last => decide (last ≤ poll.startedAt + maxFutureSkew)

def Poll.served (poll : Poll) (source : Source) (cursor : Cursor) : Served :=
  poll.serve (poll.since cursor) (if source.bulk then cursor.bulkOffset else 0)

def Poll.loop (poll : Poll) (hashing : Hashing) (source : Source)
    (cursor : Cursor) (plane : Plane) : Walk :=
  walkEntries hashing source poll.turns (Walk.start plane) (poll.served source cursor).entries

def Poll.walk (poll : Poll) (hashing : Hashing) (source : Source)
    (cursor : Cursor) (plane : Plane) : Walk :=
  let walk := poll.loop hashing source cursor plane
  if walk.capped || walk.errored.isSome then walk
  else { walk with errored := (poll.served source cursor).raises }

def Poll.lastPulledAt (poll : Poll) (cursor : Cursor) (walk : Walk) :
    Datetime :=
  match walk.errored, walk.lastProcessedTs with
  | none, some ts => ts
  | _, _ => cursor.lastPulledAt.getD poll.finishedAt

/-- `_read_bulk_reached_end`. -/
def Poll.reachedEnd (poll : Poll) (source : Source) (cursor : Cursor) (walk : Walk) : Bool :=
  if walk.capped then false
  else (poll.served source cursor).reachedEnd.getD true

def Poll.nextOffset (poll : Poll) (source : Source) (cursor : Cursor) (walk : Walk) : ℕ :=
  if source.bulk then
    if walk.errored.isSome then cursor.bulkOffset
    else (bulkHighwaterAdvance cursor.bulkOffset walk.reads.length
      (poll.reachedEnd source cursor walk)).toNat
  else 0

def Walk.writtenCount (walk : Walk) : ℕ :=
  walk.reads.countP fun entry =>
    match entry.outcome with
    | .written _ => true
    | _ => false

def Poll.newCursor (poll : Poll) (source : Source) (cursor : Cursor) (walk : Walk) : Cursor where
  lastPulledAt := some (poll.lastPulledAt cursor walk)
  rowsPulled := cursor.rowsPulled + walk.writtenCount
  lastError := walk.errored
  bulkOffset := poll.nextOffset source cursor walk

def Poll.savedCursor (poll : Poll) (source : Source) (cursor : Cursor) (walk : Walk) : Cursor :=
  if poll.cursorSaved then poll.newCursor source cursor walk else cursor

def pullOnce (hashing : Hashing) (source : Source) (poll : Poll)
    (cursor : Cursor) (plane : Plane) : Cursor × Walk :=
  let walk := poll.walk hashing source cursor plane
  (poll.savedCursor source cursor walk, walk)

def isNotAfter (signal : Signal) (since : Datetime) : Bool :=
  match signal.publishedAt with
  | some published => decide (published ≤ since)
  | none => false

/-- `pull` of the RSS handler on the entries of the feed document, which is
missing when the fetch fails, the feed did not change, or it does not parse. -/
def rssPull (document : Option (List Signal)) (since : Option Datetime) (_offset : ℕ) : Served where
  entries :=
    (document.getD []).filter fun signal => !since.any fun since => isNotAfter signal since
  raises := none
  reachedEnd := none

def plainSource (maxEntries : ℕ) (hpos : 0 < maxEntries) (bulk : Bool) : Source where
  ownerTenant := "default"
  maxEntries := maxEntries
  maxEntries_pos := hpos
  bulk := bulk
  collapse := ⟨true, 168⟩
  dedupe := none

def plainHashing : Hashing where
  canonicalUrl := id
  bodyHash := fun _ => ""

def emptyPlane : Plane where
  tables := ⟨KeyedTable.Table.empty, []⟩
  published := []

def plainSignal (id : Uuid) (externalId : String) (publishedAt : Option Datetime) : Signal where
  signalId := id
  sourceId := "feed"
  ownerTenant := "default"
  fetchedAt := 1000
  externalId := externalId
  publishedAt := publishedAt
  canonicalUrl := none
  payloadUrl := ""
  contentHash := externalId
  canonicalSignalId := none

def plainTurn (baseline : BaselineResult) : EntryTurn where
  late := false
  now := 1000
  baseline := baseline
  write := ⟨1000, false, false⟩
  dedupeFails := false
  publishFails := false

/-! ## What a walk reads -/

section

variable {hashing : Hashing} {source : Source} {turns : ℕ → EntryTurn}

theorem le_laterTs_iff {last : Option Datetime} {ts bound : Datetime} :
    laterTs last ts < bound ↔ (∀ earlier, last = some earlier → earlier < bound) ∧ ts < bound := by
  cases last with
  | none => simp [laterTs]
  | some earlier =>
    simp only [laterTs, Option.some.injEq, forall_eq']
    by_cases hlt : earlier < ts
    · rw [if_pos hlt]
      constructor
      · intro hts
        exact ⟨lt_trans hlt hts, hts⟩
      · exact fun h => h.2
    · rw [if_neg hlt]
      constructor
      · intro hearlier
        exact ⟨hearlier, lt_of_le_of_lt (not_lt.mp hlt) hearlier⟩
      · exact fun h => h.1

def Walk.Consistent (walk : Walk) : Prop :=
  (walk.lastProcessedTs = none ↔ walk.reads = []) ∧
    ∀ ts, walk.lastProcessedTs = some ts → ∀ bound,
      ts < bound ↔ ∀ entry ∈ walk.reads, entry.logicalTs < bound

theorem Walk.consistent_start (plane : Plane) : (Walk.start plane).Consistent := by
  constructor
  · simp [Walk.start]
  · intro ts hts
    simp [Walk.start] at hts

variable {walk : Walk} {tables : Tables}

theorem Walk.Consistent.read (hwalk : walk.Consistent) (turn : EntryTurn)
    (raw : Signal) : (walk.read hashing source turn raw).Consistent := by
  constructor
  · simp [Walk.read]
  · intro ts hts bound
    simp only [Walk.read, Option.some.injEq] at hts
    subst ts
    simp only [le_laterTs_iff, Walk.read, forall_mem_append, forall_mem_singleton]
    apply and_congr_left
    intro _
    cases hlast : walk.lastProcessedTs with
    | none =>
      have hnil := hwalk.1.mp hlast
      simp [hnil]
    | some earlier =>
      simp only [Option.some.injEq, forall_eq']
      exact hwalk.2 earlier hlast bound

theorem Walk.Consistent.walkEntries (hwalk : walk.Consistent) (entries : List Signal) :
    (walkEntries hashing source turns walk entries).Consistent := by
  induction entries generalizing walk with
  | nil => exact hwalk
  | cons raw rest ih =>
    unfold Sources.walkEntries
    split
    · exact hwalk
    · dsimp only
      have hnext : (walk.read hashing source (turns walk.reads.length)
          raw).Consistent := hwalk.read _ _
      split
      · exact hnext
      · exact ih hnext

def tablesBefore (hashing : Hashing) (source : Source)
    (turns : ℕ → EntryTurn) (tables : Tables) : ℕ → Tables
  | 0 => tables
  | n + 1 => (processOne hashing source (turns n) (tablesBefore hashing source turns tables n)).1

def outcomeAt (hashing : Hashing) (source : Source) (turns : ℕ → EntryTurn)
    (tables : Tables) (n : ℕ) : EntryOutcome :=
  (processOne hashing source (turns n) (tablesBefore hashing source turns tables n)).2

/-- The actor comes to an entry: it reaches neither bound by then, and no entry
before it raises. -/
structure Reaches (hashing : Hashing) (source : Source)
    (turns : ℕ → EntryTurn) (tables : Tables) (n : ℕ) : Prop where
  within : ∀ i ≤ n, i < source.maxEntries ∧ (turns i).late = false
  before : ∀ i < n, (outcomeAt hashing source turns tables i).error = none

def readAt (hashing : Hashing) (source : Source) (turns : ℕ → EntryTurn)
    (tables : Tables) (n : ℕ) (raw : Signal) : ReadEntry :=
  ⟨raw, entryLogicalTs (turns n).now raw, outcomeAt hashing source turns tables n⟩

/-- What a walk makes of the entries from the `first` on. -/
structure Walk.Covers (hashing : Hashing) (source : Source)
    (turns : ℕ → EntryTurn) (tables : Tables) (entries : List Signal)
    (first : ℕ) (walk after : Walk) : Prop where
  kept : walk.reads <+: after.reads
  length : ∀ n, first + n < after.reads.length ↔
    n < entries.length ∧ Reaches hashing source turns tables (first + n)
  reads : ∀ entry, entry ∈ after.reads ↔ entry ∈ walk.reads ∨
    ∃ n raw, entries[n]? = some raw ∧
      Reaches hashing source turns tables (first + n) ∧
      entry = readAt hashing source turns tables (first + n) raw
  errored : after.errored.isSome ↔ ∃ n, n < entries.length ∧
    Reaches hashing source turns tables (first + n) ∧
    (outcomeAt hashing source turns tables (first + n)).error.isSome
  finished : after.errored = none ∧ after.capped = false ↔
    ∀ n < entries.length,
      Reaches hashing source turns tables (first + n) ∧
        (outcomeAt hashing source turns tables (first + n)).error = none

theorem exists_getElem?_cons {α : Type*} {head : α} {rest : List α} {p : ℕ → α → Prop} :
    (∃ n value, (head :: rest)[n]? = some value ∧ p n value) ↔
      p 0 head ∨ ∃ n value, rest[n]? = some value ∧ p (n + 1) value := by
  constructor
  · rintro ⟨n, value, hvalue, hp⟩
    cases n with
    | zero =>
      obtain rfl := Option.some.inj hvalue
      exact Or.inl hp
    | succ n => exact Or.inr ⟨n, value, hvalue, hp⟩
  · rintro (hp | ⟨n, value, hvalue, hp⟩)
    · exact ⟨0, head, rfl, hp⟩
    · exact ⟨n + 1, value, hvalue, hp⟩

theorem Walk.Covers.cons {next after : Walk} {first : ℕ} {raw : Signal} {rest : List Signal}
    (hrest : Walk.Covers hashing source turns tables rest (first + 1) next after)
    (hlength : walk.reads.length = first)
    (hreads : next.reads = walk.reads ++ [readAt hashing source turns tables first raw])
    (hreached : Reaches hashing source turns tables first)
    (hraised : (outcomeAt hashing source turns tables first).error = none) :
    Walk.Covers hashing source turns tables (raw :: rest) first walk after := by
  have hshift : ∀ n, first + 1 + n = first + (n + 1) := by
    intro n
    omega
  refine ⟨?_, ?_, ?_, ?_, ?_⟩
  · refine IsPrefix.trans ?_ hrest.kept
    exact ⟨_, hreads.symm⟩
  · intro n
    cases n with
    | zero =>
      have hkept := hrest.kept.length_le
      rw [hreads, length_append, hlength, length_singleton] at hkept
      simp only [add_zero, length_cons, zero_lt_succ, hreached, and_self, iff_true]
      omega
    | succ n => rw [← hshift, hrest.length n, length_cons, succ_lt_succ_iff]
  · intro entry
    rw [hrest.reads, hreads, exists_getElem?_cons]
    simp only [hshift, mem_append, mem_singleton, or_assoc, add_zero, hreached, true_and]
  · rw [hrest.errored, length_cons, exists_lt_succ_left]
    simp [hshift, hraised]
  · rw [hrest.finished, length_cons, forall_lt_succ_left]
    simp [hshift, hraised, hreached]

theorem covers_walkEntries {first : ℕ} (entries : List Signal) (hlength : walk.reads.length = first)
    (htables : walk.plane.tables = tablesBefore hashing source turns tables first)
    (hopen : walk.errored = none ∧ walk.capped = false)
    (hbefore : ∀ i < first, (i < source.maxEntries ∧ (turns i).late = false) ∧ (outcomeAt hashing
      source turns tables i).error = none) :
    Walk.Covers hashing source turns tables entries first walk
      (walkEntries hashing source turns walk entries) := by
  induction entries generalizing walk first with
  | nil =>
    refine ⟨prefix_refl _, ?_, ?_, ?_, ?_⟩
    · simp [walkEntries, hlength]
    · simp [walkEntries]
    · simp [walkEntries, hopen.1]
    · simp [walkEntries, hopen]
  | cons raw rest ih =>
    unfold walkEntries
    rw [hlength]
    by_cases hbound : (decide (source.maxEntries ≤ first) || (turns first).late) = true
    · have hnot : ∀ n, ¬Reaches hashing source turns tables (first + n) := by
        intro n hreaches
        obtain ⟨hlt, hlate⟩ := hreaches.within first (le_add_right first n)
        rw [hlate, Bool.or_false, decide_eq_true_eq] at hbound
        omega
      rw [if_pos hbound]
      refine ⟨prefix_refl _, ?_, ?_, ?_, ?_⟩
      · simp [hnot, hlength]
      · simp [hnot]
      · simp [hnot, hopen.1]
      · refine iff_of_false (fun hfinished => ?_) fun hall => ?_
        · cases hfinished.2
        · exact hnot 0 (hall 0 (succ_pos _)).1
    · rw [if_neg hbound]
      rw [Bool.not_eq_true, Bool.or_eq_false_iff, decide_eq_false_iff_not] at hbound
      have hreached : Reaches hashing source turns tables first := by
        refine ⟨?_, fun i hi => (hbefore i hi).2⟩
        intro i hi
        rcases lt_or_eq_of_le hi with hlt | rfl
        · exact (hbefore i hlt).1
        · exact ⟨by omega, hbound.2⟩
      have herrored : (walk.read hashing source (turns first) raw).errored =
          (outcomeAt hashing source turns tables first).error := by
        rw [outcomeAt, ← htables]
        rfl
      have hreads : (walk.read hashing source (turns first) raw).reads =
          walk.reads ++ [readAt hashing source turns tables first raw] := by
        rw [readAt, outcomeAt, ← htables]
        rfl
      by_cases hraised : (outcomeAt hashing source turns tables first).error = none
      · rw [if_neg (by simp [herrored, hraised])]
        have htablesNext :
            (walk.read hashing source (turns first) raw).plane.tables =
              tablesBefore hashing source turns tables (first + 1) := by
          rw [tablesBefore, ← htables]
          rfl
        have hbeforeNext : ∀ i < first + 1,
            (i < source.maxEntries ∧ (turns i).late = false) ∧
              (outcomeAt hashing source turns tables i).error = none := by
          intro i hi
          rcases lt_or_eq_of_le (le_of_lt_succ hi) with hlt | rfl
          · exact hbefore i hlt
          · exact ⟨hreached.within i le_rfl, hraised⟩
        have hrest := ih (by simp [hreads, hlength]) htablesNext
          ⟨herrored.trans hraised, hopen.2⟩ hbeforeNext
        exact hrest.cons hlength hreads hreached hraised
      · rw [if_pos (by simp [herrored, Option.isSome_iff_ne_none, hraised])]
        have honly : ∀ n, ¬Reaches hashing source turns tables (first + (n + 1)) :=
          fun n hreaches => hraised (hreaches.before first (by omega))
        refine ⟨⟨_, hreads.symm⟩, ?_, ?_, ?_, ?_⟩
        · intro n
          rw [hreads, length_append, hlength]
          cases n with
          | zero => simp [hreached]
          | succ n => simp [honly]
        · intro entry
          rw [hreads, exists_getElem?_cons]
          simp [honly, hreached]
        · rw [herrored, length_cons, exists_lt_succ_left]
          simp [honly, hreached]
        · rw [herrored, length_cons, forall_lt_succ_left]
          simp [hraised]

theorem settles_processOne_iff {turn : EntryTurn} :
    (processOne hashing source turn tables).2.settles = true ↔
      turn.baseline ≠ .timedOut ∧ (processOne hashing source turn tables).2.error = none := by
  unfold processOne
  cases turn.baseline with
  | timedOut => simp [EntryOutcome.settles]
  | dropped => simp [EntryOutcome.settles, EntryOutcome.error]
  | raised error => simp [EntryOutcome.settles, EntryOutcome.error]
  | enriched signal =>
    dsimp only
    generalize writeCanonicalSignal source.collapse source.ownerTenant
      turn.write tables.pool (stampTenant source signal) = result
    obtain ⟨pool, outcome⟩ := result
    cases outcome with
    | inserted => simp [EntryOutcome.settles, EntryOutcome.error]
    | collapsed => simp [EntryOutcome.settles, EntryOutcome.error]
    | conflict => simp [EntryOutcome.settles, EntryOutcome.error]
    | raised => simp [EntryOutcome.settles, EntryOutcome.error]

def EntryTurn.Succeeds (turn : EntryTurn) : Prop :=
  (∀ error, turn.baseline ≠ .raised error) ∧ turn.write.insertFails = false

theorem processOne_error_of_succeeds {turn : EntryTurn} (hsucceeds : turn.Succeeds)
    (tables : Tables) : (processOne hashing source turn tables).2.error = none := by
  unfold processOne
  cases hbaseline : turn.baseline with
  | timedOut => rfl
  | dropped => rfl
  | raised error => exact absurd hbaseline (hsucceeds.1 error)
  | enriched signal =>
    dsimp only
    generalize hwrite : writeCanonicalSignal source.collapse
      source.ownerTenant turn.write tables.pool (stampTenant source signal) = result
    obtain ⟨pool, outcome⟩ := result
    cases outcome with
    | inserted => rfl
    | collapsed => rfl
    | conflict => rfl
    | raised => exact absurd hwrite (write_not_raised hsucceeds.2)

end

section

variable {hashing : Hashing} {source : Source} {turn : EntryTurn}
variable {tables after : Tables} {id : Uuid}

theorem isSome_row?_linkWritten (signal : Signal) :
    ((linkWritten hashing source turn tables signal).pool.row? id).isSome =
      (tables.pool.row? id).isSome := by
  unfold linkWritten
  split
  · split
    · rfl
    · exact isSome_row?_apply _ _ _
  · rfl

theorem isSome_row?_processOne (hrow : (tables.pool.row? id).isSome) :
    ((processOne hashing source turn tables).1.pool.row? id).isSome := by
  unfold processOne
  cases turn.baseline with
  | timedOut => exact hrow
  | dropped => exact hrow
  | raised error => exact hrow
  | enriched signal =>
    dsimp only
    have hwrite : ((writeCanonicalSignal source.collapse source.ownerTenant
        turn.write tables.pool (stampTenant source signal)).1.row?
          id).isSome := isSome_row?_write hrow
    generalize writeCanonicalSignal source.collapse source.ownerTenant
      turn.write tables.pool (stampTenant source signal) = result at hwrite ⊢
    obtain ⟨pool, outcome⟩ := result
    cases outcome with
    | inserted =>
      rw [isSome_row?_linkWritten]
      exact hwrite
    | collapsed => exact hwrite
    | conflict => exact hwrite
    | raised => exact hwrite

theorem processOne_written
    (hresult : processOne hashing source turn tables = (after, .written id)) :
    tables.pool.row? id = none ∧ (after.pool.row? id).isSome := by
  unfold processOne at hresult
  cases hbaseline : turn.baseline with
  | timedOut => simp [hbaseline] at hresult
  | dropped => simp [hbaseline] at hresult
  | raised error => simp [hbaseline] at hresult
  | enriched signal =>
    rw [hbaseline] at hresult
    dsimp only at hresult
    generalize hwrite : writeCanonicalSignal source.collapse
      source.ownerTenant turn.write tables.pool (stampTenant source signal) = result at hresult
    obtain ⟨pool, outcome⟩ := result
    cases outcome with
    | inserted =>
      obtain ⟨hfresh, hpool⟩ := write_inserted hwrite
      obtain ⟨rfl, rfl⟩ := hresult
      refine ⟨hfresh, ?_⟩
      rw [isSome_row?_linkWritten, hpool, KeyedTable.Table.row?_put_self]
      rfl
    | collapsed => simp at hresult
    | conflict => simp at hresult
    | raised => simp at hresult

end

/-! ## The walk of a poll -/

/-- The handler yields the entry at the place `n`, and the actor comes to
it. -/
def Poll.Reads (poll : Poll) (hashing : Hashing) (source : Source)
    (cursor : Cursor) (plane : Plane) (n : ℕ) (raw : Signal) : Prop :=
  (poll.served source cursor).entries[n]? = some raw ∧
    Reaches hashing source poll.turns plane.tables n

def Poll.outcomeAt (poll : Poll) (hashing : Hashing) (source : Source)
    (plane : Plane) (n : ℕ) : EntryOutcome :=
  Sources.outcomeAt hashing source poll.turns plane.tables n

def Poll.Finishes (poll : Poll) (hashing : Hashing) (source : Source)
    (cursor : Cursor) (plane : Plane) : Prop :=
  ∀ n < (poll.served source cursor).entries.length,
    Reaches hashing source poll.turns plane.tables n ∧
      (poll.outcomeAt hashing source plane n).error = none

def Poll.Fails (poll : Poll) (hashing : Hashing) (source : Source)
    (cursor : Cursor) (plane : Plane) : Prop :=
  (∃ n raw, poll.Reads hashing source cursor plane n raw ∧
      (poll.outcomeAt hashing source plane n).error.isSome) ∨
    poll.Finishes hashing source cursor plane ∧ (poll.served source cursor).raises.isSome

section

variable {hashing : Hashing} {source : Source}

section

variable (poll : Poll) (cursor : Cursor) (plane : Plane)

@[simp] theorem Poll.reads_walk :
    (poll.walk hashing source cursor plane).reads =
      (poll.loop hashing source cursor plane).reads := by
  simp only [Poll.walk]
  split <;> rfl

@[simp] theorem Poll.capped_walk :
    (poll.walk hashing source cursor plane).capped =
      (poll.loop hashing source cursor plane).capped := by
  simp only [Poll.walk]
  split <;> rfl

theorem Poll.consistent_walk : (poll.walk hashing source cursor plane).Consistent := by
  have hloop : (poll.loop hashing source cursor plane).Consistent :=
    (Walk.consistent_start plane).walkEntries _
  simp only [Poll.walk]
  split
  · exact hloop
  · exact hloop

end

theorem Poll.nextOffset_of_bulk (poll : Poll) (hbulk : source.bulk)
    (cursor : Cursor) (walk : Walk) :
    poll.nextOffset source cursor walk =
      if walk.errored.isSome then cursor.bulkOffset
      else if poll.reachedEnd source cursor walk then 0
      else cursor.bulkOffset + walk.reads.length := by
  unfold Poll.nextOffset
  rw [if_pos hbulk]
  cases poll.reachedEnd source cursor walk <;> simp

theorem Poll.covers_loop (hashing : Hashing) (source : Source) (poll : Poll)
    (cursor : Cursor) (plane : Plane) :
    Walk.Covers hashing source poll.turns plane.tables
      (poll.served source cursor).entries 0 (Walk.start plane)
      (poll.loop hashing source cursor plane) :=
  covers_walkEntries _ rfl rfl ⟨rfl, rfl⟩
    fun i hi => absurd hi (not_lt_zero i)

variable {poll : Poll} {cursor : Cursor} {plane : Plane}

theorem Poll.lt_length_reads_iff {n : ℕ} :
    n < (poll.walk hashing source cursor plane).reads.length ↔
      n < (poll.served source cursor).entries.length ∧
        Reaches hashing source poll.turns plane.tables n := by
  have hlength := (poll.covers_loop hashing source cursor plane).length
  simp only [zero_add] at hlength
  rw [Poll.reads_walk]
  exact hlength n

theorem Poll.length_reads_le (poll : Poll) (cursor : Cursor) (plane : Plane) :
    (poll.walk hashing source cursor plane).reads.length ≤
      (poll.served source cursor).entries.length := by
  by_contra hlonger
  exact absurd (Poll.lt_length_reads_iff.mp (not_le.mp hlonger)).1 (lt_irrefl _)

theorem Poll.length_reads_of_finishes (hfinishes : poll.Finishes hashing source cursor plane) :
    (poll.walk hashing source cursor plane).reads.length =
      (poll.served source cursor).entries.length := by
  refine le_antisymm (poll.length_reads_le cursor plane) ?_
  by_contra hshorter
  rw [not_le] at hshorter
  have hreached := (hfinishes _ hshorter).1
  exact absurd (Poll.lt_length_reads_iff.mpr ⟨hshorter, hreached⟩) (lt_irrefl _)

theorem Poll.mem_reads_walk {entry : ReadEntry} :
    entry ∈ (poll.walk hashing source cursor plane).reads ↔
      ∃ n raw, poll.Reads hashing source cursor plane n raw ∧
        entry = readAt hashing source poll.turns plane.tables n raw := by
  have hreads := (poll.covers_loop hashing source cursor plane).reads
  simp only [zero_add] at hreads
  rw [Poll.reads_walk, hreads]
  simp only [Walk.start, not_mem_nil, false_or, Poll.Reads, and_assoc]

theorem Poll.reads_walk_eq_nil_iff :
    (poll.walk hashing source cursor plane).reads = [] ↔
      ∀ n raw, ¬poll.Reads hashing source cursor plane n raw := by
  rw [eq_nil_iff_forall_not_mem]
  simp only [Poll.mem_reads_walk, not_exists, not_and]
  constructor
  · intro hnone n raw hreads
    exact hnone _ n raw hreads rfl
  · intro hnone entry n raw hreads
    exact absurd hreads (hnone n raw)

theorem Poll.finishes_iff :
    poll.Finishes hashing source cursor plane ↔
      (poll.loop hashing source cursor plane).errored = none ∧
        (poll.loop hashing source cursor plane).capped = false := by
  have hfinished := (poll.covers_loop hashing source cursor plane).finished
  simp only [zero_add] at hfinished
  exact hfinished.symm

theorem Poll.fails_iff :
    poll.Fails hashing source cursor plane ↔
      (poll.walk hashing source cursor plane).errored.isSome := by
  have herrored := (poll.covers_loop hashing source cursor plane).errored
  simp only [zero_add] at herrored
  have hentry : (∃ n raw, poll.Reads hashing source cursor plane n raw ∧
      (poll.outcomeAt hashing source plane n).error.isSome) ↔
        (poll.loop hashing source cursor plane).errored.isSome := by
    rw [herrored]
    constructor
    · rintro ⟨n, raw, ⟨hraw, hreaches⟩, hraises⟩
      exact ⟨n, (List.getElem?_eq_some_iff.mp hraw).1, hreaches, hraises⟩
    · rintro ⟨n, hn, hreaches, hraises⟩
      exact ⟨n, _, ⟨getElem?_eq_getElem hn, hreaches⟩, hraises⟩
  unfold Poll.Fails
  rw [hentry, Poll.finishes_iff]
  simp only [Poll.walk]
  cases (poll.loop hashing source cursor plane).capped with
  | true => simp
  | false =>
    cases hraised : (poll.loop hashing source cursor plane).errored with
    | none => simp
    | some error => simp [hraised]

theorem Poll.finishes_and_raises_iff :
    poll.Finishes hashing source cursor plane ∧ (poll.served source cursor).raises = none ↔
      (poll.walk hashing source cursor plane).errored = none ∧
        (poll.walk hashing source cursor plane).capped = false := by
  rw [Poll.finishes_iff, Poll.capped_walk]
  simp only [Poll.walk]
  cases (poll.loop hashing source cursor plane).capped with
  | true => simp
  | false =>
    cases herrored : (poll.loop hashing source cursor plane).errored with
    | none => simp
    | some error => simp [herrored]

theorem Poll.reads_pos (hentries : (poll.served source cursor).entries ≠ [])
    (hlate : (poll.turns 0).late = false) :
    0 < (poll.walk hashing source cursor plane).reads.length := by
  refine Poll.lt_length_reads_iff.mpr ⟨length_pos_of_ne_nil hentries, ?_⟩
  refine ⟨?_, fun i hi => absurd hi (not_lt_zero i)⟩
  intro i hi
  obtain rfl := le_zero.mp hi
  exact ⟨source.maxEntries_pos, hlate⟩

theorem Poll.errored_of_succeeds (hraises : (poll.served source cursor).raises = none)
    (hturns : ∀ n, (poll.turns n).Succeeds) :
    (poll.walk hashing source cursor plane).errored = none := by
  rw [← Option.not_isSome_iff_eq_none, ← Poll.fails_iff]
  rintro (⟨n, raw, _, hentry⟩ | ⟨_, hhandler⟩)
  · have hnone : (poll.outcomeAt hashing source plane n).error = none :=
      processOne_error_of_succeeds (hturns n) _
    rw [hnone] at hentry
    cases hentry
  · rw [hraises] at hhandler
    cases hhandler

end

end Legba.Sources
