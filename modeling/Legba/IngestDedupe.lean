import Legba.SignalPool

/-!
# Linking a duplicate at ingest

After its row is written a signal is looked up in the pool, by its URL and then
by its content.  On a hit three statements link the row to the canonical of the
row found: the canonical is stamped as its own, the alias is recorded, and the
pointer of the new row is set.

The canonicalisation of URLs and the hash of a normalised body are parameters.
-/

namespace Legba.Sources

open KeyedTable RowOrder

structure Hashing where
  canonicalUrl : String → String
  bodyHash : Signal → String

structure IngestDedupe where
  urlTier : Bool
  contentTier : Bool
  ownerTenant : Option String

abbrev AliasLinks := List (Uuid × Uuid)

/-- The signals and the `signal_aliases`. -/
structure Tables where
  pool : Pool
  aliases : AliasLinks

def Hashing.urlKey (hashing : Hashing) (url : String) : Option String :=
  if url = "" then none
  else if hashing.canonicalUrl url = "" then none
  else some (hashing.canonicalUrl url)

def Hashing.urlProbe (hashing : Hashing) (signal : Signal) : Option String :=
  hashing.urlKey
    (match signal.canonicalUrl with
    | some url => if url = "" then signal.payloadUrl else url
    | none => signal.payloadUrl)

def Hashing.urlOfRow (hashing : Hashing) (row : PoolRow) : Option String :=
  row.canonicalUrl.bind hashing.urlKey

def Hashing.contentKey (hashing : Hashing) (signal : Signal) : String :=
  if signal.contentHash = "" then hashing.bodyHash signal
  else signal.contentHash

namespace IngestDedupe

def inTenant (dedupe : IngestDedupe) (row : PoolRow) : Bool :=
  dedupe.ownerTenant.all fun tenant => decide (row.ownerTenant = tenant)

/-- `ORDER BY fetched_at ASC, id ASC`. -/
def earlier (a b : Uuid × PoolRow) : Bool :=
  decide (a.2.fetchedAt < b.2.fetchedAt) ||
    (decide (a.2.fetchedAt = b.2.fetchedAt) && decide (a.1.toNat < b.1.toNat))

def lookupByUrlHash (dedupe : IngestDedupe) (hashing : Hashing) (pool : Pool)
    (signal : Signal) (canon : String) : Option (Uuid × PoolRow) :=
  firstBy earlier (pool.selectMatching fun id row =>
    decide (id ≠ signal.signalId) && dedupe.inTenant row &&
      decide (hashing.urlOfRow row = some canon))

def lookupByContentHash (dedupe : IngestDedupe) (pool : Pool)
    (signal : Signal) (contentHash : String) : Option (Uuid × PoolRow) :=
  firstBy earlier (pool.selectMatching fun id row =>
    decide (id ≠ signal.signalId) && decide (row.contentHash = contentHash) &&
      decide (row.contentHash ≠ "") && dedupe.inTenant row)

/-- `_hit`: the canonical of the row found, or the row itself. -/
def hit (found : Uuid × PoolRow) : Uuid :=
  found.2.canonicalSignalId.getD found.1

/-- The lookup of the first tier, `none` if it is not made. -/
def resolveByUrl (dedupe : IngestDedupe) (hashing : Hashing) (pool : Pool)
    (signal : Signal) : Option (Option Uuid) :=
  if dedupe.urlTier then
    (hashing.urlProbe signal).map fun canon =>
      (dedupe.lookupByUrlHash hashing pool signal canon).map hit
  else none

def resolveByContent (dedupe : IngestDedupe) (hashing : Hashing)
    (pool : Pool) (signal : Signal) : Option Uuid :=
  if dedupe.contentTier && hashing.contentKey signal ≠ "" then
    (dedupe.lookupByContentHash pool signal (hashing.contentKey signal)).map hit
  else none

def resolve (dedupe : IngestDedupe) (hashing : Hashing) (pool : Pool)
    (signal : Signal) : Option Uuid :=
  match dedupe.resolveByUrl hashing pool signal with
  | some (some canonical) => some canonical
  | _ => dedupe.resolveByContent hashing pool signal

end IngestDedupe

def setPointer (tables : Tables) (id canonical : Uuid) : Tables :=
  { tables with
    pool := tables.pool.update id fun row => { row with canonicalSignalId := some canonical } }

def stampCanonical (tables : Tables) (canonical : Uuid) : Tables :=
  setPointer tables canonical canonical

/-- `ON CONFLICT (alias_signal_id, canonical_signal_id) DO NOTHING`. -/
def insertAlias (tables : Tables) (id canonical : Uuid) : Tables :=
  if (id, canonical) ∈ tables.aliases then tables
  else { tables with aliases := tables.aliases ++ [(id, canonical)] }

def linkAlias (tables : Tables) (id canonical : Uuid) : Tables :=
  if id = canonical then stampCanonical tables canonical
  else setPointer (insertAlias (stampCanonical tables canonical) id canonical) id canonical

def IngestDedupe.apply (dedupe : IngestDedupe) (hashing : Hashing)
    (tables : Tables) (signal : Signal) : Tables :=
  match dedupe.resolve hashing tables.pool signal with
  | some canonical => linkAlias tables signal.signalId canonical
  | none => tables

section

variable {tables : Tables} {id other canonical : Uuid}

def Tables.pointer (tables : Tables) (id : Uuid) : Option (Option Uuid) :=
  (tables.pool.row? id).map PoolRow.canonicalSignalId

@[simp] theorem pointer_setPointer_self :
    (setPointer tables id canonical).pointer id =
      (tables.pointer id).map fun _ => some canonical := by
  simp only [Tables.pointer, setPointer, Table.row?_update_self, Option.map_map]
  rfl

theorem pointer_setPointer_of_ne (hother : other ≠ id) :
    (setPointer tables id canonical).pointer other = tables.pointer other := by
  simp only [Tables.pointer, setPointer, Table.row?_update_of_ne _ hother]

@[simp] theorem pool_insertAlias : (insertAlias tables id canonical).pool = tables.pool := by
  unfold insertAlias
  split <;> rfl

theorem isSome_row?_setPointer :
    ((setPointer tables id canonical).pool.row? other).isSome =
      (tables.pool.row? other).isSome := by
  by_cases hother : other = id
  · subst other
    simp [setPointer]
  · simp only [setPointer, Table.row?_update_of_ne _ hother]

theorem isSome_row?_linkAlias :
    ((linkAlias tables id canonical).pool.row? other).isSome =
      (tables.pool.row? other).isSome := by
  unfold linkAlias
  split
  · exact isSome_row?_setPointer
  · rw [isSome_row?_setPointer, pool_insertAlias]
    exact isSome_row?_setPointer

theorem isSome_row?_apply (dedupe : IngestDedupe) (hashing : Hashing) (signal : Signal) :
    ((dedupe.apply hashing tables signal).pool.row? other).isSome =
      (tables.pool.row? other).isSome := by
  unfold IngestDedupe.apply
  split
  · exact isSome_row?_linkAlias
  · rfl

end

end Legba.Sources
