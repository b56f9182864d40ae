import Legba.EventMatcher

/-!
# The prepared open events

The open events are folded once in a tick, with the names folded before read
from memos, and the bundles are kept across the ticks under the columns which
the fold reads, the least recently used being dropped.  A bundle which is
returned is the fold of the row it is returned for.
-/

namespace Legba.EventMatcher

open List

open JudgeReplies (Text isSpace strip)
open RowOrder (firstBy greater)

section

variable {K V : Type} [DecidableEq K] {f : K → V}

/-- A dictionary of values of `f`. -/
structure Memo (f : K → V) where
  entries : K → Option V
  sound : ∀ k v, entries k = some v → v = f k

def Memo.empty (f : K → V) : Memo f := ⟨fun _ => none, nofun⟩

def Memo.get (memo : Memo f) (k : K) : V × Memo f :=
  match memo.entries k with
  | some v => (v, memo)
  | none => (f k, {
      entries := Function.update memo.entries k (some (f k))
      sound := by
        intro key v hentry
        by_cases hkey : key = k
        · subst hkey
          rw [Function.update_self, Option.some.injEq] at hentry
          exact hentry.symm
        · rw [Function.update_of_ne hkey] at hentry
          exact memo.sound key v hentry })

@[simp] theorem Memo.get_fst (memo : Memo f) (k : K) : (memo.get k).1 = f k := by
  unfold Memo.get
  split
  case h_1 v hentry => exact memo.sound k v hentry
  case h_2 => rfl

end

/-- `datetime.fromisoformat`, and `UUID` of a text. -/
structure Readers extends Canon where
  fromisoformat : Text → Option ℤ
  uuid : Text → Option Uuid

/-- A column of names. -/
inductive Names where
  | null
  | text (value : Text)
  | many (values : List Text)
  deriving DecidableEq

/-- What iterating over the column gives. -/
def Names.items : Names → List Text
  | null => []
  | text value => value.map ([·])
  | many values => values

inductive Instant where
  | datetime (aware : Bool) (value : ℤ)
  | text (value : Text)
  deriving DecidableEq

structure EventRow where
  id : Option (Uuid ⊕ Text) := none
  eventSignature : Option Text := none
  title : Option Text := none
  category : Option Text := none
  geo : Names := .null
  entityNames : Names := .null
  latestLinkedAt : Option Instant := none
  timeEnd : Option Instant := none
  timeStart : Option Instant := none
  updatedAt : Option Instant := none
  deriving DecidableEq

structure PreparedEvent where
  row : EventRow
  prepared : Prepared

section

variable (canon : Canon) (members : List EventEvidence)

/-- The most frequent term, and of these the first in their order. -/
def aggregateCategory : Text :=
  let terms := members.flatMap (·.categoryTerms canon)
  (firstBy (greater fun term => terms.count term) (sortedSet terms)).getD []

def aggregateEntities : List Text :=
  let kept := (members.flatMap (·.entityNames)).foldl (fun acc name =>
    let fold := if canon.isJunkEntity name then []
      else canon.identityFold name
    if fold = [] ∨ fold ∈ acc.2 then acc
    else (acc.1 ++ [strip name], fold :: acc.2)) (([], []) : _ × List Text)
  kept.1.insertionSort fun a b => canon.identityFold a ≤ canon.identityFold b

/-- `datetime.min` -/
def earliest : ℤ := -62135596800000000

def clusterAggregate : Option EventEvidence :=
  (firstBy (greater fun member : EventEvidence =>
    toLex (member.fetchedAt.getD earliest, member.id.toNat)) members).map
    fun newest =>
      { id := (members.head?.getD newest).id
        title := newest.title
        category := aggregateCategory canon members
        tags := sortedSet (members.flatMap (·.tags))
        fetchedAt := (members.filterMap (·.fetchedAt)).max?
        entityNames := aggregateEntities canon members }

end

/-! ## The fold of a row -/

section

variable (readers : Readers)

def utc : Instant → Option ℤ
  | .datetime _ value => some value
  | .text value => if value = [] then none else readers.fromisoformat value

def eventLike (fallbackId : Uuid) (row : EventRow) : EventEvidence where
  id := (row.id.bind fun
    | .inl id => some id
    | .inr text => readers.uuid text).getD fallbackId
  title := strip (row.title.getD [])
  category := strip (row.category.getD [])
  tags := lowerList readers.toCanon (match row.geo with
    | .text value => if value = [] then [] else [value]
    | geo => geo.items)
  fetchedAt := (row.latestLinkedAt.bind (utc readers)).or
    ((row.timeEnd.bind (utc readers)).or
      ((row.timeStart.bind (utc readers)).or
        (row.updatedAt.bind (utc readers))))
  entityNames := row.entityNames.items.map strip

structure Memos where
  folds : Memo readers.identityFold
  junk : Memo readers.isJunkEntity
  probes : Memo (probeName readers.toCanon)

def Memos.empty : Memos readers := ⟨.empty _, .empty _, .empty _⟩

def entityFoldsMemoized : List Text → Finset Text → Memos readers → Finset Text × Memos readers
  | [], result, memos => (result, memos)
  | name :: rest, result, memos =>
    if strip name = [] then entityFoldsMemoized rest result memos
    else
      let (junk, junkMemo) := memos.junk.get name
      let memos := { memos with junk := junkMemo }
      if junk then entityFoldsMemoized rest result memos
      else
        let (fold, foldMemo) := memos.folds.get name
        let memos := { memos with folds := foldMemo }
        entityFoldsMemoized rest (if fold = [] then result else insert fold result) memos

def probeNamesMemoized : List Text → Memos readers → List NameProbe × Memos readers
  | [], memos => ([], memos)
  | name :: rest, memos =>
    if strip name = [] then probeNamesMemoized rest memos
    else
      let (probe, probeMemo) := memos.probes.get name
      let (probes, memos) := probeNamesMemoized rest { memos with probes := probeMemo }
      (probe :: probes, memos)

def foldOpenEvent (row : EventRow) (memos : Memos readers) : Prepared × Memos readers :=
  let event := eventLike readers 0 row
  let (probes, memos) := probeNamesMemoized readers event.entityNames memos
  let directionNames := probes.filter (·.hasDirection)
  let (folds, memos) := entityFoldsMemoized readers event.entityNames ∅ memos
  ({ row := event
     folds := folds
     terms := (event.categoryTerms readers.toCanon).toFinset
     title := normalizedTitle readers.toCanon event.title
     instant := event.fetchedAt
     subjects := event.factSubjects
     embedOk := validEmbeddingRef readers.toCanon event.embeddingRef
     hasDirection := !directionNames.isEmpty
     nameProbes := probes
     directionNames := directionNames }, memos)

/-- A fold without the memos of an earlier row. -/
def freshFold (row : EventRow) : Prepared :=
  (foldOpenEvent readers row (Memos.empty readers)).1

/-! ## The cache -/

/-- `_prepared_cache_key`: the nine columns. -/
def preparedCacheKey (row : EventRow) : EventRow :=
  let tupled
    | Names.null => Names.many []
    | column => column
  { row with
    eventSignature := none
    geo := tupled row.geo
    entityNames := tupled row.entityNames }

/-- The least recently used first. -/
structure Cache where
  entries : List (EventRow × Prepared) := []
  hits : ℕ := 0
  misses : ℕ := 0

def Cache.touch (cache : Cache) (key : EventRow) (bundle : Prepared) : List (EventRow × Prepared) :=
  cache.entries.filter (·.1 ≠ key) ++ [(key, bundle)]

def Cache.store (cache : Cache) (limit : ℕ) (key : EventRow)
    (bundle : Prepared) : List (EventRow × Prepared) :=
  let entries := cache.touch key bundle
  if limit = 0 then cache.entries else entries.drop (entries.length - limit)

def prepareFrom (limit : ℕ) : List EventRow → Memos readers → Cache → List PreparedEvent × Cache
  | [], _, cache => ([], cache)
  | row :: rest, memos, cache =>
    let key := preparedCacheKey row
    match cache.entries.find? (·.1 = key) with
    | some (_, bundle) =>
      let (prepared, last) := prepareFrom limit rest memos
        { cache with
          entries := cache.touch key bundle, hits := cache.hits + 1 }
      (⟨row, bundle⟩ :: prepared, last)
    | none =>
      let (bundle, memos) := foldOpenEvent readers row memos
      let (prepared, last) := prepareFrom limit rest memos
        { cache with
          entries := cache.store limit key bundle
          misses := cache.misses + 1 }
      (⟨row, bundle⟩ :: prepared, last)

def prepareOpenEvents (cache : Cache) (events : List EventRow)
    (cacheLimit : ℤ) : List PreparedEvent × Cache :=
  prepareFrom readers cacheLimit.toNat events (Memos.empty readers) cache

/-- The returned lists of calls one after the other. -/
def prepareCalls : Cache → List (List EventRow × ℤ) → List (List PreparedEvent) × Cache
  | cache, [] => ([], cache)
  | cache, (events, cacheLimit) :: rest =>
    let (prepared, cache) := prepareOpenEvents readers cache events cacheLimit
    let (later, cache) := prepareCalls cache rest
    (prepared :: later, cache)

/-! ## The three matches -/

def matchPreparedPair (threshold : ℚ) (aggregate event : Prepared) :
    EventMatch :=
  scorePrepared { threshold := threshold } aggregate event

def matchPreparedToEvent (threshold : ℚ) (aggregate : Prepared) (row : EventRow) : EventMatch :=
  scorePrepared { threshold := threshold } aggregate
    (prepare readers.toCanon (eventLike readers aggregate.row.id row))

def noMatch : EventMatch where
  score := 0
  linked := false
  entityOverlap := 0
  titleSimilarity := 0
  temporalProximity := 0
  categoryMatch := 0
  embeddingCosine := none
  sharedFactSubjects := 0
  viaEmbedding := false
  viaSharedFacts := false
  refusedByDirection := false

def matchClusterToEvent (threshold : ℚ) (members : List EventEvidence)
    (aggregate : Option EventEvidence) (row : EventRow) : EventMatch :=
  match aggregate.or (clusterAggregate readers.toCanon members) with
  | none => noMatch
  | some aggregate => scorePair readers.toCanon { threshold := threshold }
      aggregate (eventLike readers aggregate.id row)

/-! ## What the bundles hold -/

variable {readers}

theorem probeNamesMemoized_fst (names : List Text) (memos : Memos readers) :
    (probeNamesMemoized readers names memos).1 = probeNames readers.toCanon names := by
  induction names generalizing memos with
  | nil => rfl
  | cons name rest ih =>
    simp only [probeNames] at ih
    by_cases hblank : strip name = []
    · simp [probeNamesMemoized, probeNames, hblank, ih]
    · simp [probeNamesMemoized, probeNames, hblank, ih]

theorem entityFoldsMemoized_fst (names : List Text) (result : Finset Text) (memos : Memos readers) :
    (entityFoldsMemoized readers names result memos).1 =
      result ∪ entityFolds readers.toCanon names := by
  induction names generalizing result memos with
  | nil => exact (Finset.union_empty result).symm
  | cons name rest ih =>
    rw [entityFoldsMemoized]
    by_cases hblank : strip name = []
    · simp [hblank, ih, entityFolds]
    cases hjunk : readers.isJunkEntity name with
    | true => simp [hblank, hjunk, ih, entityFolds]
    | false =>
      by_cases hfold : readers.identityFold name = []
      · simp [hblank, hjunk, hfold, ih, entityFolds]
      · simp [hblank, hjunk, hfold, ih, entityFolds]

theorem foldOpenEvent_fst (row : EventRow) (memos : Memos readers) :
    (foldOpenEvent readers row memos).1 = prepare readers.toCanon (eventLike readers 0 row) := by
  simp only [foldOpenEvent, prepare, probeNamesMemoized_fst,
    entityFoldsMemoized_fst, Finset.empty_union]

theorem freshFold_preparedCacheKey (row : EventRow) :
    freshFold readers (preparedCacheKey row) = freshFold readers row := by
  have hlike : eventLike readers 0 (preparedCacheKey row) = eventLike readers 0 row := by
    rcases row with ⟨_, _, _, _, geo, names, _, _, _, _⟩
    cases geo <;> cases names <;> rfl
  rw [freshFold, foldOpenEvent_fst, hlike, freshFold, foldOpenEvent_fst]

variable (readers) in
/-- Each bundle is the fold of the rows with its key. -/
def Cache.Sound (cache : Cache) : Prop :=
  ∀ entry ∈ cache.entries, entry.2 = freshFold readers entry.1

variable {cache : Cache}

theorem Cache.Sound.touch (hsound : cache.Sound readers) (row : EventRow) :
    ∀ entry ∈ cache.touch (preparedCacheKey row) (freshFold readers row),
      entry.2 = freshFold readers entry.1 := by
  intro entry hentry
  rcases mem_append.mp hentry with hold | hnew
  · exact hsound entry (mem_of_mem_filter hold)
  · rw [mem_singleton.mp hnew, freshFold_preparedCacheKey]

theorem Cache.Sound.store (hsound : cache.Sound readers) (limit : ℕ)
    (row : EventRow) : ∀ entry ∈ cache.store limit (preparedCacheKey row)
      (freshFold readers row), entry.2 = freshFold readers entry.1 := by
  intro entry hentry
  unfold Cache.store at hentry
  split at hentry
  · exact hsound entry hentry
  · exact hsound.touch row entry (mem_of_mem_drop hentry)

theorem prepareFrom_spec (limit : ℕ) (rows : List EventRow)
    (memos : Memos readers) (hsound : cache.Sound readers) :
    (prepareFrom readers limit rows memos cache).1 =
        rows.map (fun row => ⟨row, freshFold readers row⟩) ∧
      (prepareFrom readers limit rows memos cache).2.Sound readers := by
  induction rows generalizing memos cache with
  | nil => exact ⟨rfl, hsound⟩
  | cons row rest ih =>
    have hfold : (foldOpenEvent readers row memos).1 = freshFold readers row := by
      rw [freshFold, foldOpenEvent_fst, foldOpenEvent_fst]
    rw [prepareFrom]
    dsimp only
    split
    · next key bundle hfound =>
        have hbundle : bundle = freshFold readers row := by
          have hkey : key = preparedCacheKey row := by simpa using find?_some hfound
          rw [← freshFold_preparedCacheKey row, ← hkey]
          exact hsound _ (mem_of_find?_eq_some hfound)
        rw [hbundle]
        have hnext := @ih { cache with
          entries := cache.touch (preparedCacheKey row) (freshFold readers row)
          hits := cache.hits + 1 } memos (hsound.touch row)
        exact ⟨congrArg _ hnext.1, hnext.2⟩
    · rw [hfold]
      have hnext := @ih { cache with
        entries := cache.store limit (preparedCacheKey row)
          (freshFold readers row)
        misses := cache.misses + 1 } (foldOpenEvent readers row memos).2
        (hsound.store limit row)
      exact ⟨congrArg _ hnext.1, hnext.2⟩

theorem prepareCalls_spec (calls : List (List EventRow × ℤ)) (hsound : cache.Sound readers) :
    (prepareCalls readers cache calls).1 = (calls.map fun call =>
        call.1.map fun row => ⟨row, freshFold readers row⟩) ∧
      (prepareCalls readers cache calls).2.Sound readers := by
  induction calls generalizing cache with
  | nil => exact ⟨rfl, hsound⟩
  | cons call rest ih =>
    obtain ⟨hprepared, hnext⟩ := prepareFrom_spec call.2.toNat call.1 (Memos.empty readers) hsound
    exact ⟨congrArg₂ _ hprepared (ih hnext).1, (ih hnext).2⟩

theorem Cache.sound_empty : Cache.Sound readers { } :=
  fun _ hentry => absurd hentry (by simp)

/-- The id of a row is in no feature. -/
theorem scorePrepared_eventLike (options : Options) (aggregate : Prepared)
    (fallbackId : Uuid) (row : EventRow) :
    scorePrepared options aggregate (prepare readers.toCanon (eventLike readers fallbackId row)) =
      scorePrepared options aggregate (prepare readers.toCanon (eventLike readers 0 row)) := by
  have hrow : ∀ (event : Prepared) (like : EventEvidence),
      scorePrepared options aggregate { event with row := like } =
        scorePrepared options aggregate event := fun _ _ => rfl
  exact hrow (prepare readers.toCanon (eventLike readers 0 row)) (eventLike readers fallbackId row)

variable (readers)

end

end Legba.EventMatcher
