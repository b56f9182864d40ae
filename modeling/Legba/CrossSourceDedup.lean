import Legba.IngestDedupeRoots

/-!
# Batch dedup over the pool

A run resolves the duplicate content hashes first and then, with a vector
store, the rows without a canonical which have a real embedding.  Each group
and each candidate is one step, which may raise after some of its links; rows
arrive between the steps, linked to a then-canonical row or not at all.

A raise ends the pass.  That of the exact pass is caught, and the run goes on
with the semantic one.
-/

namespace Legba.Sources

open KeyedTable LabelledRun RowOrder

structure DedupRun where
  ownerTenant : Option String
  threshold : ℚ
  maxGroups : ℕ
  maxCandidates : ℕ

def DedupRun.inTenant (run : DedupRun) (row : PoolRow) : Bool :=
  run.ownerTenant.all fun tenant => decide (row.ownerTenant = tenant)

/-- The answers of the vector store, which of the rows have a uuid for an
`embedding_ref`, and the neighbours found for a candidate.  A query which
failed has none. -/
structure VectorStore where
  embedded : Uuid → Bool
  neighbours : Uuid → List (Uuid × ℚ)

/-- `ORDER BY fetched_at ASC, id ASC`. -/
def inOrder (rows : List (Uuid × PoolRow)) : List (Uuid × PoolRow) :=
  rows.insertionSort fun a b => IngestDedupe.earlier b a = false

/-- `COUNT(*) > 1`, and some row without a canonical. -/
def isUnresolvedGroup (rows : List (Uuid × PoolRow)) : Bool :=
  decide (1 < rows.length) && rows.any fun row => decide (row.2.canonicalSignalId = none)

def DedupRun.groupRows (run : DedupRun) (pool : Pool) (contentHash : String) :
    List (Uuid × PoolRow) :=
  inOrder (pool.select fun row => decide (row.contentHash = contentHash) && run.inTenant row)

def DedupRun.duplicateHashes (run : DedupRun) (pool : Pool) : List String :=
  let hashes := (pool.select fun row =>
    decide (row.contentHash ≠ "") && run.inTenant row).map
      fun row => row.2.contentHash
  ((hashes.dedup.filter fun contentHash =>
    isUnresolvedGroup (run.groupRows pool contentHash)).insertionSort (· ≤ ·)).take run.maxGroups

structure DuplicateSet where
  canonical : Uuid
  aliases : List Uuid

def pickCanonical (rows : List (Uuid × PoolRow)) : Option Uuid :=
  (firstBy IngestDedupe.earlier rows).map Prod.fst

def DedupRun.exactSet (run : DedupRun) (pool : Pool) (contentHash : String) : Option DuplicateSet :=
  let rows := run.groupRows pool contentHash
  if rows.length < 2 then none
  else
    (pickCanonical rows).map fun canonical =>
      ⟨canonical, (rows.map Prod.fst).filter (· ≠ canonical)⟩

structure Candidate where
  id : Uuid
  /-- The neighbours over the threshold which the gate lets pass. -/
  hits : List Uuid

def DedupRun.hits (run : DedupRun) (store : VectorStore) (pool : Pool) (id : Uuid) : List Uuid :=
  ((store.neighbours id).filter fun hit =>
    decide (hit.1 ≠ id) && decide (run.threshold ≤ hit.2)).map Prod.fst
    |>.filter fun hit => (pool.row? hit).isSome && store.embedded hit

def DedupRun.candidates (run : DedupRun) (store : VectorStore) (pool : Pool) : List Candidate :=
  ((inOrder (pool.selectMatching fun id row =>
      decide (row.canonicalSignalId = none) && store.embedded id &&
        run.inTenant row)).take run.maxCandidates).map
    fun row => ⟨row.1, run.hits store pool row.1⟩

def Candidate.semanticSet (candidate : Candidate)
    (linkedThisRun : List Uuid) : Option DuplicateSet :=
  if candidate.id ∈ linkedThisRun then none
  else if candidate.hits = [] then none
  else some ⟨candidate.id, candidate.hits⟩

/-- `_link_alias`. -/
def batchLink (tables : Tables) (id canonical : Uuid) : Tables :=
  setPointer (insertAlias tables id canonical) id canonical

def linkSet (tables : Tables) (set : DuplicateSet) : Tables :=
  set.aliases.foldl (fun tables id => batchLink tables id set.canonical)
    (stampCanonical tables set.canonical)

def DuplicateSet.upTo (set : DuplicateSet) (cut : Option ℕ) : DuplicateSet :=
  { set with aliases := set.aliases.take (cut.getD set.aliases.length) }

inductive DedupPhase where
  | idle
  | exact (run : DedupRun) (hashes : List String)
  | semantic (candidates : List Candidate) (linkedThisRun : List Uuid)

structure DedupState where
  tables : Tables
  phase : DedupPhase

def DedupState.start (tables : Tables) : DedupState := ⟨tables, .idle⟩

inductive DedupEvent where
  | begin (run : DedupRun)
  /-- The next group or candidate, with the number of links after which it
  raises if it does. -/
  | resolve (cut : Option ℕ)
  | search (store : VectorStore)
  | finish
  | ingest (signal : Signal) (tenant : String) (canonical : Option Uuid)

def DedupState.nextSet (state : DedupState) : Option DuplicateSet :=
  match state.phase with
  | .exact run (contentHash :: _) => run.exactSet state.tables.pool contentHash
  | .semantic (candidate :: _) linkedThisRun => candidate.semanticSet linkedThisRun
  | _ => none

def DedupPhase.afterNext (phase : DedupPhase) (set : Option DuplicateSet)
    (cut : Option ℕ) : DedupPhase :=
  match phase with
  | .exact run (_ :: rest) => .exact run (if cut.isSome then [] else rest)
  | .semantic (_ :: rest) linkedThisRun =>
    if cut.isSome then .idle
    else .semantic rest (linkedThisRun ++ (set.map DuplicateSet.aliases).getD [])
  | phase => phase

def DedupState.links (state : DedupState) (cut : Option ℕ) : Option DuplicateSet :=
  state.nextSet.map fun set => set.upTo cut

def DedupState.resolve (state : DedupState) (cut : Option ℕ) : DedupState where
  tables :=
    match state.links cut with
    | some set => linkSet state.tables set
    | none => state.tables
  phase := state.phase.afterNext state.nextSet cut

def insertNew (tables : Tables) (signal : Signal) (tenant : String) : Tables :=
  { tables with
    pool := tables.pool.put signal.signalId
      { signal.row tenant with canonicalSignalId := none } }

instance (tables : Tables) (id : Uuid) : Decidable (tables.IsRoot id) :=
  inferInstanceAs (Decidable (tables.pointer id = some none ∨ tables.pointer id = some (some id)))

def dedupStep (state : DedupState) : DedupEvent → Option DedupState
  | .begin run =>
    match state.phase with
    | .idle =>
      some { state with
        phase := .exact run (run.duplicateHashes state.tables.pool) }
    | _ => none
  | .resolve cut =>
    match state.phase with
    | .exact _ (_ :: _) => some (state.resolve cut)
    | .semantic (_ :: _) _ => some (state.resolve cut)
    | _ => none
  | .search store =>
    match state.phase with
    | .exact run [] =>
      some { state with
        phase := .semantic (run.candidates store state.tables.pool) [] }
    | _ => none
  | .finish =>
    match state.phase with
    | .exact _ [] => some { state with phase := .idle }
    | .semantic [] _ => some { state with phase := .idle }
    | _ => none
  | .ingest signal tenant canonical =>
    match state.tables.pool.row? signal.signalId with
    | some _ => none
    | none =>
      match canonical with
      | none => some { state with tables := insertNew state.tables signal tenant }
      | some canonical =>
        if state.tables.IsRoot canonical then
          some { state with
            tables := linkAlias (insertNew state.tables signal tenant)
              signal.signalId canonical }
        else none

end Legba.Sources
