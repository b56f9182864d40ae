import Legba.KeyedTable
import Legba.RowOrder
import Legba.SignalRow

/-!
# Writing one signal into the pool

A source actor writes each enriched signal as one row.  A row of the same
source with the same content which the source served recently is marked as
seen again instead, and a row with the same id stops the insert.

Of a signal and of its row only what the acquisition plane reads again is kept.
-/

namespace Legba.Sources

open KeyedTable RowOrder

structure Signal where
  signalId : Uuid
  sourceId : String
  ownerTenant : String
  fetchedAt : Datetime
  /-- `payload.external_id`, which names the item in its feed. -/
  externalId : String
  /-- The first `datetime` among `payload._published_at_dt`, `._last_seen_dt`
  and `._event_dt`. -/
  publishedAt : Option Datetime
  canonicalUrl : Option String
  /-- The first non-empty text among `payload.url`, `.link` and
  `.source_url`. -/
  payloadUrl : String
  contentHash : String
  canonicalSignalId : Option Uuid

structure PoolRow where
  sourceId : String
  ownerTenant : String
  fetchedAt : Datetime
  lastSeenAt : Option Datetime
  canonicalUrl : Option String
  contentHash : String
  canonicalSignalId : Option Uuid
deriving DecidableEq

abbrev Pool := Table Uuid PoolRow

/-- `COALESCE(last_seen_at, fetched_at)`. -/
def PoolRow.lastSeen (row : PoolRow) : Datetime :=
  row.lastSeenAt.getD row.fetchedAt

/-- `GREATEST(a, b)`. -/
def greatest (a b : Datetime) : Datetime := if a < b then b else a

structure CollapseSettings where
  enabled : Bool
  windowHours : ℕ

structure WriteTurn where
  now : Datetime
  bumpFails : Bool
  insertFails : Bool

inductive WriteResult where
  | inserted
  | collapsed
  | conflict
  | raised
deriving DecidableEq

/-- The row `_bump_intrasource_sql` selects. -/
def reserved (settings : CollapseSettings) (now : Datetime) (pool : Pool)
    (signal : Signal) (tenant : String) : Option Uuid :=
  (firstBy
    (greaterThen (fun pair => pair.2.lastSeen) (greater fun pair : Uuid × PoolRow => pair.1.toNat))
    (pool.select fun row =>
      decide (row.sourceId = signal.sourceId) &&
        decide (row.contentHash = signal.contentHash) &&
        decide (row.contentHash ≠ "") &&
        decide (row.ownerTenant = tenant) &&
        decide (now - seconds (3600 * settings.windowHours) < row.lastSeen))).map Prod.fst

def resolvedTenant (ownerTenant : String) (signal : Signal) : String :=
  if ownerTenant = "" then signal.ownerTenant else ownerTenant

def Signal.row (signal : Signal) (tenant : String) : PoolRow where
  sourceId := signal.sourceId
  ownerTenant := tenant
  fetchedAt := signal.fetchedAt
  lastSeenAt := some signal.fetchedAt
  canonicalUrl := signal.canonicalUrl
  contentHash := signal.contentHash
  canonicalSignalId := signal.canonicalSignalId

/-- `_INSERT_SIGNAL`, with its `ON CONFLICT (id) DO NOTHING`. -/
def insertSignal (turn : WriteTurn) (pool : Pool) (signal : Signal)
    (tenant : String) : Pool × WriteResult :=
  if turn.insertFails then (pool, .raised)
  else
    match pool.row? signal.signalId with
    | some _ => (pool, .conflict)
    | none => (pool.put signal.signalId (signal.row tenant), .inserted)

def writeCanonicalSignal (settings : CollapseSettings) (ownerTenant : String)
    (turn : WriteTurn) (pool : Pool) (signal : Signal) : Pool × WriteResult :=
  let tenant := resolvedTenant ownerTenant signal
  if signal.contentHash ≠ "" && settings.enabled && !turn.bumpFails then
    match reserved settings turn.now pool signal tenant with
    | some id =>
      (pool.update id fun row =>
        { row with
          lastSeenAt := some (greatest row.lastSeen signal.fetchedAt) },
        .collapsed)
    | none => insertSignal turn pool signal tenant
  else insertSignal turn pool signal tenant

/-! ## What a write changes -/

section

variable {settings : CollapseSettings} {ownerTenant : String}
variable {turn : WriteTurn} {pool after : Pool} {signal : Signal}

theorem insertSignal_inserted {tenant : String}
    (hinsert : insertSignal turn pool signal tenant = (after, .inserted)) :
    pool.row? signal.signalId = none ∧ after = pool.put signal.signalId (signal.row tenant) := by
  unfold insertSignal at hinsert
  by_cases hfails : turn.insertFails = true
  · simp [hfails] at hinsert
  · rw [if_neg hfails] at hinsert
    cases hrow : pool.row? signal.signalId with
    | some row => simp [hrow] at hinsert
    | none =>
      simp only [hrow, Prod.mk.injEq, and_true] at hinsert
      exact ⟨rfl, hinsert.symm⟩

theorem insertSignal_of_not_inserted {tenant : String}
    (hresult : (insertSignal turn pool signal tenant).2 ≠ .inserted) :
    (insertSignal turn pool signal tenant).1 = pool := by
  unfold insertSignal at hresult ⊢
  by_cases hfails : turn.insertFails = true
  · rw [if_pos hfails]
  · rw [if_neg hfails] at hresult ⊢
    cases hrow : pool.row? signal.signalId with
    | some row => rfl
    | none => simp [hrow] at hresult

theorem write_inserted
    (hwrite : writeCanonicalSignal settings ownerTenant turn pool signal = (after, .inserted)) :
    pool.row? signal.signalId = none ∧
      after = pool.put signal.signalId (signal.row (resolvedTenant ownerTenant signal)) := by
  unfold writeCanonicalSignal at hwrite
  dsimp only at hwrite
  split at hwrite
  · cases hreserved : reserved settings turn.now pool signal
        (resolvedTenant ownerTenant signal) with
    | some id => simp [hreserved] at hwrite
    | none =>
      rw [hreserved] at hwrite
      exact insertSignal_inserted hwrite
  · exact insertSignal_inserted hwrite

theorem write_not_raised (hinsert : turn.insertFails = false) :
    writeCanonicalSignal settings ownerTenant turn pool signal ≠ (after, .raised) := by
  have hplain : ∀ tenant, (insertSignal turn pool signal tenant).2 ≠ .raised := by
    intro tenant
    unfold insertSignal
    rw [hinsert]
    cases pool.row? signal.signalId <;> simp
  intro hwrite
  unfold writeCanonicalSignal at hwrite
  dsimp only at hwrite
  split at hwrite
  · cases hreserved : reserved settings turn.now pool signal
        (resolvedTenant ownerTenant signal) with
    | some id => simp [hreserved] at hwrite
    | none =>
      rw [hreserved] at hwrite
      exact hplain _ (congrArg Prod.snd hwrite)
  · exact hplain _ (congrArg Prod.snd hwrite)

theorem write_not_inserted
    (hresult : (writeCanonicalSignal settings ownerTenant turn pool signal).2 ≠ .inserted)
    (id : Uuid) :
    ((writeCanonicalSignal settings ownerTenant turn pool signal).1.row?
        id).map (fun row => { row with lastSeenAt := none }) =
      (pool.row? id).map fun row => { row with lastSeenAt := none } := by
  unfold writeCanonicalSignal at hresult ⊢
  dsimp only at hresult ⊢
  split at hresult
  case isTrue hcollapses =>
    rw [if_pos hcollapses]
    cases hreserved : reserved settings turn.now pool signal
        (resolvedTenant ownerTenant signal) with
    | some other =>
      dsimp only
      by_cases hid : id = other
      · subst id
        rw [Table.row?_update_self, Option.map_map]
        rfl
      · rw [Table.row?_update_of_ne _ hid]
    | none =>
      rw [hreserved] at hresult
      dsimp only at hresult ⊢
      rw [insertSignal_of_not_inserted hresult]
  case isFalse hplain => rw [if_neg hplain, insertSignal_of_not_inserted hresult]

theorem isSome_row?_write {id : Uuid} (hrow : (pool.row? id).isSome) :
    ((writeCanonicalSignal settings ownerTenant turn pool signal).1.row?
      id).isSome := by
  generalize hwrite : writeCanonicalSignal settings ownerTenant turn pool signal = result
  obtain ⟨after, outcome⟩ := result
  by_cases houtcome : outcome = .inserted
  · subst outcome
    obtain ⟨hfresh, rfl⟩ := write_inserted hwrite
    have hid : id ≠ signal.signalId := by
      rintro rfl
      rw [hfresh] at hrow
      cases hrow
    rwa [Table.row?_put_of_ne _ hid]
  · have hsame : (after.row? id).map (fun row => { row with lastSeenAt := none }) =
        (pool.row? id).map fun row => { row with lastSeenAt := none } := by
      have hsame := @write_not_inserted settings ownerTenant turn pool signal
      rw [hwrite] at hsame
      exact hsame houtcome id
    have hisSome := congrArg Option.isSome hsame
    rw [Option.isSome_map, Option.isSome_map] at hisSome
    rwa [hisSome]

end

end Legba.Sources
