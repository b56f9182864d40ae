import Legba.SourcePoll

/-!
# Walking a bulk snapshot

The OpenSanctions handler streams one large snapshot in its `bulk_csv` mode.
At offset zero it filters the rows by the later of the actor's cursor and its
own watermark; after that the offset of rows already walked replaces the
filter.  A transfer may complete, raise, or be cut off, and a transfer which is
cut off looks to the handler like the end of the stream.

A snapshot is given as the rows which yield an entity of a wanted schema.
-/

namespace Legba.Sources

structure BulkRow where
  externalId : String
  lastSeen : Option Datetime
  canonicalUrl : Option String
  contentHash : String
deriving DecidableEq

structure BulkSource extends Source where
  isBulk : toSource.bulk = true
  /-- `max_bulk_rows`, where zero means none. -/
  maxBulkRows : ℕ

inductive Transfer where
  | complete
  | raises (rows : ℕ) (error : String)
  | cut (rows : ℕ)

def Transfer.delivered (rows : List BulkRow) : Transfer → List BulkRow
  | .complete => rows
  | .raises count _ => rows.take count
  | .cut count => rows.take count

def Transfer.error : Transfer → Option String
  | .raises _ error => some error
  | _ => none

def effectiveSince (hint stored : Option Datetime) : Option Datetime :=
  match hint, stored with
  | none, stored => stored
  | some hint, none => some hint
  | some hint, some stored => some (if hint < stored then stored else hint)

/-- `_entity_to_signal` yields a signal for the row. -/
def BulkRow.after (row : BulkRow) (since : Option Datetime) : Bool :=
  match since, row.lastSeen with
  | some since, some lastSeen => decide (since < lastSeen)
  | _, _ => true

theorem after_effectiveSince (row : BulkRow) (hint stored : Option Datetime) :
    row.after (effectiveSince hint stored) = (row.after hint && row.after stored) := by
  cases hint with
  | none => simp [effectiveSince, BulkRow.after]
  | some hint =>
    cases stored with
    | none => simp [effectiveSince, BulkRow.after]
    | some stored =>
      cases hseen : row.lastSeen with
      | none => simp [effectiveSince, BulkRow.after, hseen]
      | some lastSeen =>
        by_cases hlt : hint < stored
        · simp only [effectiveSince, hlt, BulkRow.after, hseen, if_true]
          by_cases hstored : stored < lastSeen
          · simp [hstored, lt_trans hlt hstored]
          · simp [hstored]
        · simp only [effectiveSince, hlt, BulkRow.after, hseen, if_false]
          by_cases hhint : hint < lastSeen
          · simp [hhint, lt_of_le_of_lt (not_lt.mp hlt) hhint]
          · simp [hhint]

def bulkStream (rows : List BulkRow) (since : Option Datetime) (offset : ℕ) : List BulkRow :=
  if offset = 0 then rows.filter fun row => row.after since
  else rows.drop offset

def BulkSource.hitsCap (source : BulkSource) (stream : List BulkRow) : Bool :=
  source.maxBulkRows ≠ 0 && decide (source.maxBulkRows ≤ stream.length)

def BulkSource.yields (source : BulkSource) (stream : List BulkRow) : List BulkRow :=
  if source.hitsCap stream then stream.take source.maxBulkRows else stream

/-- One pull of a bulk source: its transfer, the ids and fetch times of the
signals made of the rows, and what the actor meets. -/
structure BulkPoll where
  startedAt : Datetime
  finishedAt : Datetime
  transfer : Transfer
  stamp : BulkRow → Uuid × Datetime
  turns : ℕ → EntryTurn

def BulkRow.signal (row : BulkRow) (stamp : Uuid × Datetime) : Signal where
  signalId := stamp.1
  sourceId := "opensanctions"
  ownerTenant := "default"
  fetchedAt := stamp.2
  externalId := row.externalId
  publishedAt := row.lastSeen
  canonicalUrl := row.canonicalUrl
  payloadUrl := row.canonicalUrl.getD ""
  contentHash := row.contentHash
  canonicalSignalId := none

/-- What `_pull_bulk_csv` does with the stream. -/
def BulkPoll.serveStream (poll : BulkPoll) (source : BulkSource)
    (stream : List BulkRow) : Served where
  entries := (source.yields stream).map fun row => row.signal (poll.stamp row)
  raises := if source.hitsCap stream then none else poll.transfer.error
  reachedEnd := some (!source.hitsCap stream)

def BulkPoll.poll (poll : BulkPoll) (source : BulkSource)
    (rows : List BulkRow) (stored : Option Datetime) : Poll where
  startedAt := poll.startedAt
  finishedAt := poll.finishedAt
  serve := fun since offset =>
    poll.serveStream source
      (bulkStream (poll.transfer.delivered rows) (effectiveSince since stored) offset)
  turns := poll.turns
  cursorSaved := true

/-- The actor's cursor, the handler's `last_seen`, the shared tables, and the
rows which were handed to the baseline so far. -/
structure BulkState where
  cursor : Cursor
  storedLastSeen : Option Datetime
  plane : Plane
  yielded : List BulkRow

def BulkState.start (last stored : Option Datetime) (plane : Plane) : BulkState where
  cursor := { Cursor.initial with lastPulledAt := last }
  storedLastSeen := stored
  plane := plane
  yielded := []

def BulkPoll.stream (poll : BulkPoll) (source : BulkSource)
    (rows : List BulkRow) (state : BulkState) : List BulkRow :=
  bulkStream (poll.transfer.delivered rows)
    (effectiveSince
      ((poll.poll source rows state.storedLastSeen).since state.cursor)
      state.storedLastSeen)
    state.cursor.bulkOffset

def BulkPoll.walk (poll : BulkPoll) (hashing : Hashing) (source : BulkSource)
    (rows : List BulkRow) (state : BulkState) : Walk :=
  (poll.poll source rows state.storedLastSeen).walk hashing source.toSource state.cursor state.plane

def laterSeen (newest : Option Datetime) (row : BulkRow) : Option Datetime :=
  match row.lastSeen with
  | some lastSeen => some (laterTs newest lastSeen)
  | none => newest

/-- The newest `last_seen` of the rows yielded. -/
def newestLastSeen (rows : List BulkRow) : Option Datetime :=
  rows.foldl laterSeen none

def BulkPoll.nextLastSeen (poll : BulkPoll) (source : BulkSource)
    (rows : List BulkRow) (state : BulkState) (walk : Walk) :
    Option Datetime :=
  if walk.capped || walk.errored.isSome then state.storedLastSeen
  else
    (newestLastSeen (source.yields (poll.stream source rows state))).or state.storedLastSeen

def BulkPoll.rowsRead (poll : BulkPoll) (hashing : Hashing)
    (source : BulkSource) (rows : List BulkRow) (state : BulkState) :
    List BulkRow :=
  (source.yields (poll.stream source rows state)).take
    (poll.walk hashing source rows state).reads.length

def bulkStep (hashing : Hashing) (source : BulkSource) (rows : List BulkRow)
    (state : BulkState) (poll : BulkPoll) : Option BulkState :=
  let result := pullOnce hashing source.toSource
    (poll.poll source rows state.storedLastSeen) state.cursor state.plane
  some
    { cursor := result.1
      storedLastSeen := poll.nextLastSeen source rows state result.2
      plane := result.2.plane
      yielded := state.yielded ++ poll.rowsRead hashing source rows state }

end Legba.Sources
