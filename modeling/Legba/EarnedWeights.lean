import Legba.ContentionGroup
import Mathlib.Data.List.Dedup
import Mathlib.Data.List.MinMax

/-!
# Earned weights of the sides of a contention

A side is as proven as the best record among the sources which carry it.  The
record of a source counts the settled contentions, other than the one at hand,
which it was on the winning side of, and those it only lost.  One query for
each group reads the lineage through the live origin classes; the batch for a
whole pass reads every row.
-/

namespace Legba.EarnedWeights

open Contention (Status)
open List

inductive OriginClass where
  | live
  | webRetrieval
  | seed
  | backfillNative
  | backfillReconstructed
  | archive
  deriving DecidableEq, Repr

/-- `LIVE_CLASSES` -/
def OriginClass.isLive : OriginClass → Bool
  | .live | .webRetrieval | .seed => true
  | .backfillNative | .backfillReconstructed | .archive => false

/-- A row of `fact_contention`. -/
structure ContentionRow where
  id : Uuid
  status : Status
  surfacedFactId : Option Uuid
  surfacedAt : Option Datetime

/-- A row of `fact_contention_values`. -/
structure ValueClusterRow where
  contentionId : Uuid
  surfacedWinner : Bool
  isJunk : Bool
  supportingFactIds : List Uuid

/-- A row of `facts`. -/
structure FactLineage where
  id : Uuid
  derivedFrom : List Uuid
  originClass : OriginClass

/-- A row of `signals`. -/
structure SignalOrigin where
  id : Uuid
  sourceId : Option String
  originClass : OriginClass

structure Substrate where
  contentions : List ContentionRow
  values : List ValueClusterRow
  facts : List FactLineage
  signals : List SignalOrigin

/-! ## The record of a source -/

/-- `earned_side_weight`, with `PRIOR_STRENGTH` 4. -/
def earnedSideWeight (wins losses : ℕ) : ℚ :=
  let smoothed : ℚ := (wins + 2) / (wins + losses + 4)
  max 0 (2 * (smoothed - 1 / 2))

structure ClusterSource where
  contentionId : Uuid
  isWinner : Bool
  sourceId : Option String
  deriving DecidableEq

/-- A row of `per_contention_source`. -/
structure Outcome where
  contentionId : Uuid
  sourceId : Option String
  onWinningSide : Bool
  onLosingSide : Bool

def perContentionSource (sources : List ClusterSource) : List Outcome :=
  ((sources.map fun row => (row.contentionId, row.sourceId)).dedup).map
    fun pair =>
      { contentionId := pair.1
        sourceId := pair.2
        onWinningSide := sources.any fun row =>
          row.isWinner && decide ((row.contentionId, row.sourceId) = pair)
        onLosingSide := sources.any fun row =>
          !row.isWinner && decide ((row.contentionId, row.sourceId) = pair) }

namespace Substrate

variable (S : Substrate)

/-- The sources of the signals a fact is derived from, through the origin
classes which `keep` passes. -/
def lineage (keep : OriginClass → Bool) (factId : Uuid) : List (Option String) :=
  (S.facts.filter fun fact => fact.id == factId && keep fact.originClass).flatMap
    fun fact => fact.derivedFrom.flatMap fun sig =>
      (S.signals.filter fun signal =>
        signal.id == sig && keep signal.originClass).map SignalOrigin.sourceId

def resolved (cutoff : Datetime) (excluded : Option Uuid) : List Uuid :=
  (S.contentions.filter fun row =>
    decide (row.status = .surfaced) && row.surfacedFactId.isSome &&
      (row.surfacedAt.any fun surfacedAt => decide (surfacedAt < cutoff)) &&
      decide (excluded ≠ some row.id)).map ContentionRow.id

def clusterSources (keep : OriginClass → Bool)
    (allowed : Option String → Bool) (contentions : List Uuid) :
    List ClusterSource :=
  ((S.values.filter fun value => !value.isJunk && decide (value.contentionId ∈ contentions)).flatMap
    fun value => value.supportingFactIds.flatMap fun factId =>
      ((S.lineage keep factId).filter allowed).map fun sourceId =>
        { contentionId := value.contentionId
          isWinner := value.surfacedWinner
          sourceId := sourceId }).dedup

/-! ### One query for each group -/

structure SourceRecord where
  sourceId : Option String
  wins : ℕ
  losses : ℕ

def maxRecords : ℕ := 100000

/-- `_RECORDS_SQL`; `sortKey` is the collation. -/
def recordsSql (sortKey : String → String) (cutoff : Datetime)
    (excluded : Option Uuid) (allowlist : List String) : List SourceRecord :=
  let outcomes := perContentionSource
    (S.clusterSources OriginClass.isLive
      (fun sourceId => sourceId.any fun source => decide (source ∈ allowlist))
      (S.resolved cutoff excluded))
  let records := ((outcomes.map Outcome.sourceId).dedup).map fun sourceId =>
    { sourceId := sourceId
      wins := outcomes.countP fun row => decide (row.sourceId = sourceId) && row.onWinningSide
      losses := outcomes.countP fun row =>
        decide (row.sourceId = sourceId) &&
          (row.onLosingSide && !row.onWinningSide) : SourceRecord }
  let order := fun (record : SourceRecord) =>
    toLex (-((record.wins + record.losses : ℕ) : ℤ), (record.sourceId.map sortKey).getD "")
  (records.insertionSort fun a b => order a ≤ order b).take maxRecords

def earnedWeightsForSources (sortKey : String → String) (cutoff : Datetime)
    (excluded : Uuid) (sourceIds : List String) : List (String × ℚ) :=
  let ids := (sourceIds.dedup).filter fun source => decide (source ≠ "")
  if ids = [] then []
  else
    (S.recordsSql sortKey cutoff (some excluded) ids).filterMap fun record =>
      match record.sourceId with
      | some source =>
        if source = "" then none
        else some (source, earnedSideWeight record.wins record.losses)
      | none => none

/-- The sources of a fact, as `_FACT_SOURCES_SQL` gives them to the loop. -/
def factSources (factId : Uuid) : List String :=
  ((S.lineage (fun _ => true) factId).filterMap fun sourceId =>
    sourceId.filter fun source => decide (source ≠ "")).dedup

end Substrate

/-! ### One batch for the pass -/

structure EarnedWeightsBatch where
  factSources : Uuid → List String
  outcomesBySource : String → List Outcome

namespace EarnedWeightsBatch

/-- `fetch_earned_weights_batch` -/
def fetch (S : Substrate) (cutoff : Datetime) (factIds : List Uuid) : EarnedWeightsBatch where
  factSources := fun factId =>
    if factId ∈ factIds then S.factSources factId else []
  outcomesBySource := fun source =>
    if source = "" then []
    else
      (perContentionSource (S.clusterSources (fun _ => true) (fun _ => true)
        (S.resolved cutoff none))).filter fun row => decide (row.sourceId = some source)

/-- `earned_weights` for one source. -/
def earnedWeight (batch : EarnedWeightsBatch) (excluded : Uuid) (source : String) : ℚ :=
  let rows := batch.outcomesBySource source
  earnedSideWeight
    (rows.countP fun row => decide (row.contentionId ≠ excluded) && row.onWinningSide)
    (rows.countP fun row =>
      decide (row.contentionId ≠ excluded) && (!row.onWinningSide && row.onLosingSide))

end EarnedWeightsBatch

structure Side where
  supportingFactIds : List Uuid
  earnedWeight : ℚ := 0
  deriving DecidableEq

def best (weight : String → ℚ) (sources : List String) : ℚ :=
  ((sources.map weight).max?).getD 0

def Side.carriers (sources : Uuid → List String) (side : Side) : List String :=
  (side.supportingFactIds.flatMap sources).dedup

def stamp (sources : Uuid → List String) (weight : String → ℚ) (sides : List Side) : List Side :=
  sides.map fun side => { side with earnedWeight := best weight (side.carriers sources) }

def attachEarnedWeights (S : Substrate) (sortKey : String → String)
    (cutoff : Datetime) (contentionId : Uuid)
    (batch : Option EarnedWeightsBatch) (sides : List Side) : List Side :=
  let factIds := sides.flatMap Side.supportingFactIds
  if factIds = [] then sides
  else
    match batch with
    | some batch =>
      let all := (factIds.flatMap batch.factSources).dedup
      if all = [] then sides
      else
        stamp batch.factSources (fun source =>
          if source ∈ all then batch.earnedWeight contentionId source else 0)
          sides
    | none =>
      let all := (factIds.flatMap S.factSources).dedup
      if all = [] then sides
      else
        let weights := S.earnedWeightsForSources sortKey cutoff contentionId all
        stamp S.factSources (fun source => (weights.lookup source).getD 0) sides

/-! ## Wins and losses -/

/-- Among the resolved contentions, the source is on a side which `won` says,
through the rows which `keep` passes. -/
def carries (S : Substrate) (keep : OriginClass → Bool) (source : String)
    (won : Bool) (contentionId : Uuid) : Bool :=
  S.values.any fun value =>
    !value.isJunk && decide (value.contentionId = contentionId) &&
      decide (value.surfacedWinner = won) &&
      value.supportingFactIds.any fun factId => decide (some source ∈ S.lineage keep factId)

def contests (S : Substrate) (cutoff : Datetime) (excluded : Uuid) : List Uuid :=
  (S.resolved cutoff (some excluded)).dedup

def wins (S : Substrate) (keep : OriginClass → Bool) (cutoff : Datetime)
    (excluded : Uuid) (source : String) : ℕ :=
  (contests S cutoff excluded).countP (carries S keep source true)

def losses (S : Substrate) (keep : OriginClass → Bool) (cutoff : Datetime)
    (excluded : Uuid) (source : String) : ℕ :=
  (contests S cutoff excluded).countP fun contentionId =>
    carries S keep source false contentionId && !carries S keep source true contentionId

/-- The weight of a source by the rows which `keep` passes. -/
def signal (S : Substrate) (keep : OriginClass → Bool) (cutoff : Datetime)
    (excluded : Uuid) (source : String) : ℚ :=
  earnedSideWeight (wins S keep cutoff excluded source) (losses S keep cutoff excluded source)

section

variable {sources : List ClusterSource} {sourceId : Option String}

def appears (sources : List ClusterSource) (won : Bool) (pair : Uuid × Option String) : Bool :=
  sources.any fun row => (row.isWinner == won) && decide ((row.contentionId, row.sourceId) = pair)

theorem mem_pairs_of_appears {won : Bool} {pair : Uuid × Option String}
    (happears : appears sources won pair) :
    pair ∈ sources.map fun row => (row.contentionId, row.sourceId) := by
  obtain ⟨row, hrow, hpair⟩ := any_eq_true.mp happears
  rw [Bool.and_eq_true, decide_eq_true_eq] at hpair
  exact mem_map.mpr ⟨row, hrow, hpair.2⟩

theorem countP_outcomes {contentions : List Uuid} (hnodup : contentions.Nodup)
    (p : Uuid → Bool → Bool → Bool) (hp : ∀ id, p id false false = false)
    (hmem : ∀ row ∈ sources, ∀ won lost, p row.contentionId won lost = true →
      row.contentionId ∈ contentions) :
    (perContentionSource sources).countP (fun row =>
        decide (row.sourceId = sourceId) && p row.contentionId row.onWinningSide row.onLosingSide) =
      contentions.countP fun id =>
        p id (appears sources true (id, sourceId)) (appears sources false (id, sourceId)) := by
  have hflags : ∀ pair : Uuid × Option String,
      (sources.any fun row => row.isWinner &&
        decide ((row.contentionId, row.sourceId) = pair)) = appears sources true pair ∧
      (sources.any fun row => !row.isWinner &&
        decide ((row.contentionId, row.sourceId) = pair)) = appears sources false pair := by
    intro pair
    simp [appears]
  unfold perContentionSource
  rw [countP_map, countP_eq_length_filter, countP_eq_length_filter]
  set picked := ((sources.map fun row =>
    (row.contentionId, row.sourceId)).dedup).filter _ with hpicked
  have hmem_picked : ∀ pair, pair ∈ picked ↔
      pair ∈ (sources.map fun row => (row.contentionId, row.sourceId)) ∧
        pair.2 = sourceId ∧
        p pair.1 (appears sources true pair) (appears sources false pair) =
          true := by
    intro pair
    rw [hpicked, mem_filter, mem_dedup]
    simp [(hflags pair).1, (hflags pair).2]
  have hpicked_nodup : (picked.map Prod.fst).Nodup := by
    refine Nodup.map_on ?_ ((nodup_dedup _).filter _)
    intro a ha b hb hfst
    have ha2 := ((hmem_picked a).mp ha).2.1
    have hb2 := ((hmem_picked b).mp hb).2.1
    exact Prod.ext hfst (ha2.trans hb2.symm)
  have hperm : (picked.map Prod.fst).Perm (contentions.filter fun id =>
      p id (appears sources true (id, sourceId)) (appears sources false (id, sourceId))) := by
    rw [perm_ext_iff_of_nodup hpicked_nodup (hnodup.filter _)]
    intro id
    rw [mem_map, mem_filter]
    constructor
    · rintro ⟨⟨id', source'⟩, hpair, rfl⟩
      obtain ⟨hin, hsource, hholds⟩ := (hmem_picked _).mp hpair
      obtain ⟨row, hrow, hrow_eq⟩ := mem_map.mp hin
      simp only [Prod.mk.injEq] at hrow_eq hsource
      rw [← hsource]
      refine ⟨?_, hholds⟩
      rw [← hrow_eq.1] at hholds ⊢
      exact hmem row hrow _ _ hholds
    · rintro ⟨-, hholds⟩
      refine ⟨(id, sourceId), (hmem_picked _).mpr ⟨?_, rfl, hholds⟩, rfl⟩
      by_cases hwon : appears sources true (id, sourceId) = true
      · exact mem_pairs_of_appears hwon
      · by_cases hlost : appears sources false (id, sourceId) = true
        · exact mem_pairs_of_appears hlost
        · rw [Bool.not_eq_true] at hwon hlost
          rw [hwon, hlost, hp] at hholds
          simp at hholds
  rw [← hperm.length_eq, length_map]

end

section

variable {S : Substrate} {keep : OriginClass → Bool}
  {allowed : Option String → Bool} {cutoff : Datetime} {excluded : Uuid}
  {source : String}

theorem mem_resolved {excluded : Option Uuid} {id : Uuid} :
    id ∈ S.resolved cutoff excluded ↔ id ∈ S.resolved cutoff none ∧ excluded ≠ some id := by
  simp only [Substrate.resolved, mem_map, mem_filter, Bool.and_eq_true, decide_eq_true_eq]
  constructor
  · rintro ⟨row, ⟨hrow, hsettled, hexcluded⟩, rfl⟩
    exact ⟨⟨row, ⟨hrow, hsettled, Option.some_ne_none _ ∘ Eq.symm⟩, rfl⟩, hexcluded⟩
  · rintro ⟨⟨row, ⟨hrow, hsettled, -⟩, rfl⟩, hexcluded⟩
    exact ⟨row, ⟨hrow, hsettled, hexcluded⟩, rfl⟩

variable {contentions : List Uuid}

theorem mem_clusterSources {row : ClusterSource} :
    row ∈ S.clusterSources keep allowed contentions ↔
      ∃ value ∈ S.values, value.isJunk = false ∧
        value.contentionId ∈ contentions ∧
        ∃ factId ∈ value.supportingFactIds,
          ∃ sourceId ∈ S.lineage keep factId, allowed sourceId = true ∧
            row = ⟨value.contentionId, value.surfacedWinner, sourceId⟩ := by
  simp only [Substrate.clusterSources, mem_dedup, mem_flatMap, mem_filter,
    mem_map, Bool.and_eq_true, Bool.not_eq_true', decide_eq_true_eq]
  constructor
  · rintro ⟨value, ⟨hvalue, hjunk, hin⟩, factId, hfact, sourceId, ⟨hsource, hallowed⟩, rfl⟩
    exact ⟨value, hvalue, hjunk, hin, factId, hfact, sourceId, hsource, hallowed, rfl⟩
  · rintro ⟨value, hvalue, hjunk, hin, factId, hfact, sourceId, hsource, hallowed, rfl⟩
    exact ⟨value, ⟨hvalue, hjunk, hin⟩, factId, hfact, sourceId, ⟨hsource, hallowed⟩, rfl⟩

theorem contentionId_mem {row : ClusterSource}
    (hrow : row ∈ S.clusterSources keep allowed contentions) : row.contentionId ∈ contentions := by
  obtain ⟨value, -, -, hin, factId, -, sourceId, -, -, rfl⟩ := mem_clusterSources.mp hrow
  exact hin

theorem appears_clusterSources {won : Bool} {id : Uuid}
    (hallowed : allowed (some source)) (hid : id ∈ contentions) :
    appears (S.clusterSources keep allowed contentions) won (id, some source) =
      carries S keep source won id := by
  rw [Bool.eq_iff_iff]
  unfold appears carries
  simp only [any_eq_true, Bool.and_eq_true, beq_iff_eq, decide_eq_true_eq,
    Bool.not_eq_true', Prod.mk.injEq]
  constructor
  · rintro ⟨row, hrow, hwon, hcontention, hsource⟩
    obtain ⟨value, hvalue, hjunk, -, factId, hfact, sourceId, hlineage, -,
      rfl⟩ := mem_clusterSources.mp hrow
    exact ⟨value, hvalue, ⟨⟨hjunk, hcontention⟩, hwon⟩, factId, hfact, hsource ▸ hlineage⟩
  · rintro ⟨value, hvalue, ⟨⟨hjunk, rfl⟩, hwon⟩, factId, hfact, hlineage⟩
    exact ⟨⟨value.contentionId, value.surfacedWinner, some source⟩,
      mem_clusterSources.mpr ⟨value, hvalue, hjunk, hid, factId, hfact,
        some source, hlineage, hallowed, rfl⟩, hwon, rfl, rfl⟩

theorem countP_contests (allowed : Option String → Bool) (hallowed : allowed (some source))
    (p : Uuid → Bool → Bool → Bool) (hp : ∀ id, p id false false = false)
    (hpast : ∀ id ∈ contentions, ∀ won lost, p id won lost = true → id ∈ contests S cutoff excluded)
    (hcontests : ∀ id ∈ contests S cutoff excluded, id ∈ contentions) :
    (perContentionSource (S.clusterSources keep allowed contentions)).countP
        (fun row => decide (row.sourceId = some source) &&
          p row.contentionId row.onWinningSide row.onLosingSide) =
      (contests S cutoff excluded).countP fun id =>
        p id (carries S keep source true id) (carries S keep source false id) := by
  rw [countP_outcomes (nodup_dedup _) p hp
    (fun row hrow won lost hholds => hpast _ (contentionId_mem hrow) won lost hholds)]
  refine countP_congr fun id hid => ?_
  rw [appears_clusterSources hallowed (hcontests id hid),
    appears_clusterSources hallowed (hcontests id hid)]

end

section

variable {S : Substrate} {cutoff : Datetime} {excluded : Uuid}
  {source : String} {factIds : List Uuid}

theorem mem_contests {id : Uuid} :
    id ∈ contests S cutoff excluded ↔ id ∈ S.resolved cutoff none ∧ id ≠ excluded := by
  rw [contests, mem_dedup, mem_resolved]
  simp [eq_comm]

theorem earnedWeight_fetch (hsource : source ≠ "") :
    (EarnedWeightsBatch.fetch S cutoff factIds).earnedWeight excluded source =
      signal S (fun _ => true) cutoff excluded source := by
  have hpast : ∀ id ∈ S.resolved cutoff none, ∀ b : Bool,
      (decide (id ≠ excluded) && b) = true → id ∈ contests S cutoff excluded := by
    intro id hid b hholds
    rw [Bool.and_eq_true, decide_eq_true_eq] at hholds
    exact mem_contests.mpr ⟨hid, hholds.1⟩
  have hne : ∀ id ∈ contests S cutoff excluded, decide (id ≠ excluded) = true :=
    fun id hid => decide_eq_true (mem_contests.mp hid).2
  have hresolved : ∀ id ∈ contests S cutoff excluded,
      id ∈ S.resolved cutoff none := fun id hid => (mem_contests.mp hid).1
  unfold EarnedWeightsBatch.earnedWeight EarnedWeightsBatch.fetch signal
  simp only [if_neg hsource, countP_filter]
  congr 1
  · unfold wins
    rw [← countP_congr (p := fun id => decide (id ≠ excluded) &&
      carries S (fun _ => true) source true id) fun id hid => by
        rw [hne id hid, Bool.true_and],
      ← countP_contests (fun _ => true) rfl
        (fun id won _ => decide (id ≠ excluded) && won) (by simp)
        (fun id hid won _ => hpast id hid won) hresolved]
    refine countP_congr fun row _ => ?_
    rw [Bool.and_comm]
  · unfold losses
    rw [← countP_congr (p := fun id => decide (id ≠ excluded) &&
      (!carries S (fun _ => true) source true id &&
        carries S (fun _ => true) source false id)) fun id hid => by
        rw [hne id hid, Bool.true_and, Bool.and_comm],
      ← countP_contests (fun _ => true) rfl
        (fun id won lost => decide (id ≠ excluded) && (!won && lost)) (by simp)
        (fun id hid won lost => hpast id hid (!won && lost)) hresolved]
    refine countP_congr fun row _ => ?_
    rw [Bool.and_comm]

end

/-! ## The query -/

theorem mem_take_iff_countP {α β : Type*} [LinearOrder β] (f : α → β) {x : α} :
    ∀ {l : List α}, l.Pairwise (fun a b => f a < f b) → x ∈ l → ∀ n,
      (x ∈ l.take n ↔ l.countP (fun y => decide (f y < f x)) < n)
  | [], _, hx, _ => absurd hx List.not_mem_nil
  | a :: l, hsorted, hx, n => by
    rw [List.pairwise_cons] at hsorted
    rcases List.mem_cons.mp hx with rfl | hx
    · have hcount : (x :: l).countP (fun y => decide (f y < f x)) = 0 := by
        rw [countP_eq_zero]
        intro y hy
        rcases mem_cons.mp hy with rfl | hy
        · simp
        · simpa using (hsorted.1 y hy).le
      rw [hcount]
      cases n with
      | zero => simp
      | succ n => simp
    · have hlt : f a < f x := hsorted.1 x hx
      have hne : x ≠ a := fun h => lt_irrefl _ (h ▸ hlt)
      rw [countP_cons_of_pos (by simpa using hlt)]
      cases n with
      | zero => simp
      | succ n =>
        rw [take_succ_cons, mem_cons, mem_take_iff_countP f hsorted.2 hx n]
        simp only [hne, false_or]
        omega

theorem lookup_filterMap {β : Type*} {records : List Substrate.SourceRecord}
    {weight : Substrate.SourceRecord → β} {source : String} {v : β} (hsource : source ≠ "")
    (hv : ∀ record ∈ records, record.sourceId = some source → weight record = v) :
    (records.filterMap fun record =>
        match record.sourceId with
        | some s => if s = "" then none else some (s, weight record)
        | none => none).lookup source =
      if ∃ record ∈ records, record.sourceId = some source then some v
      else none := by
  induction records with
  | nil => simp
  | cons record records ih =>
    have ih := ih fun r hr => hv r (mem_cons_of_mem _ hr)
    have hhead := hv record mem_cons_self
    simp only [exists_mem_cons_iff]
    rw [filterMap_cons]
    rcases hid : record.sourceId with _ | s
    · simpa [hid] using ih
    · by_cases hempty : s = ""
      · subst hempty
        simpa [hid, hsource.symm] using ih
      · simp only [if_neg hempty, lookup_cons]
        by_cases hs : source = s
        · subst hs
          simp [hhead hid]
        · have hbeq : (source == s) = false := by simpa using hs
          rw [hbeq, ih]
          simp [Ne.symm hs]

section

variable {S : Substrate} {sortKey : String → String} {cutoff : Datetime}
  {excluded : Uuid} {allowlist : List String}

def contested (S : Substrate) (cutoff : Datetime) (excluded : Uuid) (source : String) : ℕ :=
  wins S OriginClass.isLive cutoff excluded source +
    losses S OriginClass.isLive cutoff excluded source

def rank (S : Substrate) (sortKey : String → String) (cutoff : Datetime)
    (excluded : Uuid) (source : String) : ℤ ×ₗ String :=
  toLex (-(contested S cutoff excluded source : ℤ), sortKey source)

/-- The weight by the live rows, or 0 when as many sources go before this one
as the query has place for. -/
def liveSignal (S : Substrate) (sortKey : String → String) (cutoff : Datetime)
    (excluded : Uuid) (group : List String) (source : String) : ℚ :=
  if Substrate.maxRecords ≤ group.countP fun other =>
      decide (rank S sortKey cutoff excluded other < rank S sortKey cutoff excluded source)
  then 0
  else signal S OriginClass.isLive cutoff excluded source

def liveOutcomes (S : Substrate) (cutoff : Datetime) (excluded : Uuid)
    (allowlist : List String) : List Outcome :=
  perContentionSource
    (S.clusterSources OriginClass.isLive
      (fun sourceId => sourceId.any fun source => decide (source ∈ allowlist))
      (S.resolved cutoff (some excluded)))

theorem flags_of_mem {sources : List ClusterSource} {row : Outcome}
    (hrow : row ∈ perContentionSource sources) :
    (row.onWinningSide || row.onLosingSide) = true ∧
      ∃ source ∈ sources, source.sourceId = row.sourceId := by
  obtain ⟨pair, hpair, rfl⟩ := mem_map.mp hrow
  obtain ⟨source, hsource, rfl⟩ := mem_map.mp (mem_dedup.mp hpair)
  refine ⟨?_, source, hsource, rfl⟩
  simp only [Bool.or_eq_true, any_eq_true, Bool.and_eq_true]
  cases hside : source.isWinner with
  | true => exact .inl ⟨source, hsource, by simp [hside]⟩
  | false => exact .inr ⟨source, hsource, by simp [hside]⟩

variable {source : String}

theorem wins_eq (hallowed : source ∈ allowlist) :
    (liveOutcomes S cutoff excluded allowlist).countP (fun row =>
        decide (row.sourceId = some source) && row.onWinningSide) =
      wins S OriginClass.isLive cutoff excluded source :=
  countP_contests _ (by simpa using hallowed) (fun _ won _ => won)
    (fun _ => rfl) (fun _ hid _ _ _ => mem_dedup.mpr hid)
    (fun _ hid => mem_dedup.mp hid)

theorem losses_eq (hallowed : source ∈ allowlist) :
    (liveOutcomes S cutoff excluded allowlist).countP (fun row =>
        decide (row.sourceId = some source) && (row.onLosingSide && !row.onWinningSide)) =
      losses S OriginClass.isLive cutoff excluded source :=
  countP_contests _ (by simpa using hallowed) (fun _ won lost => lost && !won)
    (fun _ => rfl) (fun _ hid _ _ _ => mem_dedup.mpr hid)
    (fun _ hid => mem_dedup.mp hid)

theorem mem_outcome_sources {sourceId : Option String} :
    sourceId ∈ (liveOutcomes S cutoff excluded allowlist).map Outcome.sourceId ↔
      ∃ source ∈ allowlist, sourceId = some source ∧ 0 < contested S cutoff excluded source := by
  constructor
  · intro hmem
    obtain ⟨row, hrow, rfl⟩ := mem_map.mp hmem
    obtain ⟨hflags, carrier, hcarrier, hsame⟩ := flags_of_mem hrow
    obtain ⟨value, -, -, -, factId, -, sourceId, -, hpassed, rfl⟩ := mem_clusterSources.mp hcarrier
    obtain ⟨source, rfl, hallowed⟩ : ∃ source, sourceId = some source ∧ source ∈ allowlist := by
      cases sourceId with
      | none => simp at hpassed
      | some source => exact ⟨source, rfl, by simpa using hpassed⟩
    refine ⟨source, hallowed, hsame.symm, ?_⟩
    unfold contested
    rw [← wins_eq hallowed, ← losses_eq hallowed]
    cases hwon : row.onWinningSide with
    | true =>
      have hpos : 0 < (liveOutcomes S cutoff excluded allowlist).countP
          (fun row => decide (row.sourceId = some source) && row.onWinningSide) :=
        countP_pos_iff.mpr ⟨row, hrow, by simp [hwon, ← hsame]⟩
      omega
    | false =>
      have hlost : row.onLosingSide := by simpa [hwon] using hflags
      have hpos : 0 < (liveOutcomes S cutoff excluded allowlist).countP
          (fun row => decide (row.sourceId = some source) &&
            (row.onLosingSide && !row.onWinningSide)) :=
        countP_pos_iff.mpr ⟨row, hrow, by simp [hwon, hlost, ← hsame]⟩
      omega
  · rintro ⟨source, hallowed, rfl, hcontested⟩
    unfold contested at hcontested
    rw [← wins_eq hallowed, ← losses_eq hallowed] at hcontested
    obtain ⟨row, hrow, hsource⟩ : ∃ row ∈ liveOutcomes S cutoff excluded
        allowlist, row.sourceId = some source := by
      rcases Nat.add_pos_iff_pos_or_pos.mp hcontested with hpos | hpos
      all_goals
        obtain ⟨row, hrow, hholds⟩ := countP_pos_iff.mp hpos
        rw [Bool.and_eq_true, decide_eq_true_eq] at hholds
        exact ⟨row, hrow, hholds.1⟩
    exact mem_map.mpr ⟨row, hrow, hsource⟩

def liveRecord (S : Substrate) (cutoff : Datetime) (excluded : Uuid)
    (source : String) : Substrate.SourceRecord where
  sourceId := some source
  wins := wins S OriginClass.isLive cutoff excluded source
  losses := losses S OriginClass.isLive cutoff excluded source

def named (S : Substrate) (cutoff : Datetime) (excluded : Uuid)
    (allowlist : List String) : List String :=
  allowlist.filter fun source => decide (0 < contested S cutoff excluded source)

def recordOrder (sortKey : String → String) (record : Substrate.SourceRecord) : ℤ ×ₗ String :=
  toLex (-((record.wins + record.losses : ℕ) : ℤ), (record.sourceId.map sortKey).getD "")

theorem recordsSql_eq (S : Substrate) (sortKey : String → String)
    (cutoff : Datetime) (excluded : Uuid) (hnodup : allowlist.Nodup) :
    ∃ records : List Substrate.SourceRecord,
      records.Perm ((named S cutoff excluded allowlist).map (liveRecord S cutoff excluded)) ∧
      S.recordsSql sortKey cutoff (some excluded) allowlist =
        (records.insertionSort fun a b =>
          recordOrder sortKey a ≤ recordOrder sortKey b).take Substrate.maxRecords := by
  refine ⟨_, ?_, rfl⟩
  have hnamed : (named S cutoff excluded allowlist).Nodup := hnodup.filter _
  have hsources : (((liveOutcomes S cutoff excluded allowlist).map
      Outcome.sourceId).dedup).Perm ((named S cutoff excluded allowlist).map some) := by
    rw [perm_ext_iff_of_nodup (nodup_dedup _) (hnamed.map (Option.some_injective _))]
    intro sourceId
    rw [mem_dedup, mem_outcome_sources]
    simp only [named, mem_map, mem_filter, decide_eq_true_eq]
    constructor
    · rintro ⟨source, hallowed, rfl, hpos⟩
      exact ⟨source, ⟨hallowed, hpos⟩, rfl⟩
    · rintro ⟨source, ⟨hallowed, hpos⟩, rfl⟩
      exact ⟨source, hallowed, rfl, hpos⟩
  refine (hsources.map _).trans ?_
  rw [map_map]
  refine Perm.of_eq (map_congr_left fun source hsource => ?_)
  have hallowed : source ∈ allowlist := (mem_filter.mp hsource).1
  simp only [Function.comp_apply, liveRecord]
  rw [← wins_eq hallowed, ← losses_eq hallowed]
  rfl

theorem rank_lt_iff {a b : String} :
    rank S sortKey cutoff excluded a < rank S sortKey cutoff excluded b ↔
      contested S cutoff excluded b < contested S cutoff excluded a ∨
        (contested S cutoff excluded a = contested S cutoff excluded b ∧
          sortKey a < sortKey b) := by
  unfold rank
  rw [Prod.Lex.toLex_lt_toLex]
  simp

theorem countP_named (hcontested : 0 < contested S cutoff excluded source) :
    (named S cutoff excluded allowlist).countP (fun other =>
        decide (rank S sortKey cutoff excluded other < rank S sortKey cutoff excluded source)) =
      allowlist.countP fun other =>
        decide (rank S sortKey cutoff excluded other < rank S sortKey cutoff excluded source) := by
  rw [named, countP_filter]
  refine countP_congr fun other _ => ?_
  rw [Bool.and_eq_true, decide_eq_true_eq, decide_eq_true_eq, rank_lt_iff]
  constructor
  · exact fun h => h.1
  · intro hbefore
    refine ⟨hbefore, ?_⟩
    rcases hbefore with h | ⟨h, -⟩ <;> omega

theorem mem_recordsSql (hcollation : Function.Injective sortKey)
    (hnodup : allowlist.Nodup) {record : Substrate.SourceRecord} :
    record ∈ S.recordsSql sortKey cutoff (some excluded) allowlist ↔
      ∃ source ∈ allowlist, record = liveRecord S cutoff excluded source ∧
        0 < contested S cutoff excluded source ∧
        allowlist.countP (fun other =>
          decide (rank S sortKey cutoff excluded other < rank S sortKey cutoff excluded source)) <
          Substrate.maxRecords := by
  obtain ⟨records, hperm, hquery⟩ := recordsSql_eq S sortKey cutoff excluded hnodup
  rw [hquery]
  set sorted := records.insertionSort fun a b =>
    recordOrder sortKey a ≤ recordOrder sortKey b with hsorted
  have hsorted_perm : sorted.Perm ((named S cutoff excluded allowlist).map
      (liveRecord S cutoff excluded)) :=
    (perm_insertionSort _ _).trans hperm
  have hnamed : (named S cutoff excluded allowlist).Nodup := hnodup.filter _
  have hrank_injective : Function.Injective (rank S sortKey cutoff excluded) := by
    intro a b hab
    exact hcollation (congrArg (fun p => (ofLex p).2) hab)
  have hstrict : sorted.Pairwise fun a b =>
      recordOrder sortKey a < recordOrder sortKey b := by
    have hle : sorted.Pairwise fun a b =>
        recordOrder sortKey a ≤ recordOrder sortKey b :=
      pairwise_insertionSort _ _
    have hne : sorted.Pairwise fun a b =>
        recordOrder sortKey a ≠ recordOrder sortKey b := by
      have hnodup_order : (sorted.map (recordOrder sortKey)).Nodup := by
        rw [(hsorted_perm.map _).nodup_iff, map_map]
        exact hnamed.map hrank_injective
      exact pairwise_map.mp hnodup_order
    exact hle.imp₂ (fun a b => lt_of_le_of_ne) hne
  have hrank : ∀ {source}, source ∈ allowlist →
      0 < contested S cutoff excluded source →
      (liveRecord S cutoff excluded source ∈ sorted.take Substrate.maxRecords ↔
        allowlist.countP (fun other =>
          decide (rank S sortKey cutoff excluded other < rank S sortKey cutoff excluded source)) <
          Substrate.maxRecords) := by
    intro source hallowed hcontested
    have hmem : liveRecord S cutoff excluded source ∈ sorted :=
      hsorted_perm.mem_iff.mpr (mem_map_of_mem (mem_filter.mpr
        ⟨hallowed, decide_eq_true hcontested⟩))
    rw [mem_take_iff_countP (recordOrder sortKey) hstrict hmem,
      hsorted_perm.countP_eq, countP_map, ← countP_named hcontested]
    rfl
  constructor
  · intro hrecord
    obtain ⟨source, hsource, rfl⟩ := mem_map.mp (hsorted_perm.mem_iff.mp (mem_of_mem_take hrecord))
    obtain ⟨hallowed, hpos⟩ := mem_filter.mp hsource
    have hcontested := of_decide_eq_true hpos
    exact ⟨source, hallowed, rfl, hcontested, (hrank hallowed hcontested).mp hrecord⟩
  · rintro ⟨source, hallowed, rfl, hcontested, hbefore⟩
    exact (hrank hallowed hcontested).mpr hbefore

theorem signal_of_not_contested (hcontested : contested S cutoff excluded source = 0) :
    signal S OriginClass.isLive cutoff excluded source = 0 := by
  unfold contested at hcontested
  rw [Nat.add_eq_zero_iff] at hcontested
  rw [signal, hcontested.1, hcontested.2]
  norm_num [earnedSideWeight]

theorem lookup_earnedWeights (hcollation : Function.Injective sortKey) (hnodup : allowlist.Nodup)
    (hnonempty : "" ∉ allowlist) (hallowed : source ∈ allowlist) :
    ((S.earnedWeightsForSources sortKey cutoff excluded allowlist).lookup source).getD 0 =
      liveSignal S sortKey cutoff excluded allowlist source := by
  have hsource : source ≠ "" := fun h => hnonempty (h ▸ hallowed)
  have hids : (allowlist.dedup).filter (fun s => decide (s ≠ "")) =
      allowlist := by
    rw [hnodup.dedup, filter_eq_self]
    exact fun s hs => decide_eq_true fun h => hnonempty (h ▸ hs)
  unfold Substrate.earnedWeightsForSources
  rw [hids, if_neg (ne_nil_of_mem hallowed),
    lookup_filterMap (v := signal S OriginClass.isLive cutoff excluded source) hsource]
  · unfold liveSignal
    by_cases hcontested : 0 < contested S cutoff excluded source
    · by_cases hbefore : allowlist.countP (fun other =>
          decide (rank S sortKey cutoff excluded other <
            rank S sortKey cutoff excluded source)) < Substrate.maxRecords
      · rw [if_pos ⟨_, (mem_recordsSql hcollation hnodup).mpr
          ⟨source, hallowed, rfl, hcontested, hbefore⟩, rfl⟩,
          if_neg (not_le.mpr hbefore), Option.getD_some]
      · rw [if_neg, if_pos (not_lt.mp hbefore), Option.getD_none]
        rintro ⟨record, hrecord, hid⟩
        obtain ⟨other, -, rfl, -, hother⟩ := (mem_recordsSql hcollation hnodup).mp hrecord
        obtain rfl : other = source := Option.some.inj hid
        exact hbefore hother
    · have hzero : contested S cutoff excluded source = 0 := by omega
      rw [signal_of_not_contested hzero, ite_self, if_neg, Option.getD_none]
      rintro ⟨record, hrecord, hid⟩
      obtain ⟨other, -, rfl, hother, -⟩ := (mem_recordsSql hcollation hnodup).mp hrecord
      obtain rfl : other = source := Option.some.inj hid
      exact hcontested hother
  · intro record hrecord hid
    obtain ⟨other, -, rfl, -, -⟩ := (mem_recordsSql hcollation hnodup).mp hrecord
    obtain rfl : other = source := Option.some.inj hid
    rfl

end

/-! ## The two paths -/

section

variable {S : Substrate} {sortKey : String → String} {cutoff : Datetime}
  {contentionId : Uuid} {sides : List Side}

def group (S : Substrate) (sides : List Side) : List String :=
  ((sides.flatMap Side.supportingFactIds).flatMap S.factSources).dedup

theorem group_nodup : (group S sides).Nodup := nodup_dedup _

theorem ne_empty_of_mem_factSources {factId : Uuid} {source : String}
    (hsource : source ∈ S.factSources factId) : source ≠ "" := by
  obtain ⟨sourceId, -, hfilter⟩ := mem_filterMap.mp (mem_dedup.mp hsource)
  obtain ⟨-, hne⟩ := Option.filter_eq_some_iff.mp hfilter
  exact of_decide_eq_true hne

theorem empty_notMem_group : "" ∉ group S sides := by
  intro hempty
  obtain ⟨factId, -, hsource⟩ := mem_flatMap.mp (mem_dedup.mp hempty)
  exact ne_empty_of_mem_factSources hsource rfl

theorem carrier_mem_group {side : Side} (hside : side ∈ sides) {source : String}
    (hcarrier : source ∈ side.carriers S.factSources) : source ∈ group S sides := by
  obtain ⟨factId, hfact, hsource⟩ := mem_flatMap.mp (mem_dedup.mp hcarrier)
  exact mem_dedup.mpr (mem_flatMap.mpr ⟨factId, mem_flatMap.mpr ⟨side, hside, hfact⟩, hsource⟩)

variable {f g : String → ℚ}

theorem best_congr {sources : List String} (h : ∀ source ∈ sources, f source = g source) :
    best f sources = best g sources := by
  rw [best, best, map_congr_left h]

def stamped (S : Substrate) (weight : String → ℚ) (sides : List Side) : List Side :=
  if group S sides = [] then sides else stamp S.factSources weight sides

theorem stamped_eq_iff :
    stamped S f sides = stamped S g sides ↔
      ∀ side ∈ sides, best f (side.carriers S.factSources) =
        best g (side.carriers S.factSources) := by
  unfold stamped
  by_cases hgroup : group S sides = []
  · simp only [if_pos hgroup, true_iff]
    intro side hside
    refine best_congr fun source hsource => ?_
    have hmem := carrier_mem_group hside hsource
    rw [hgroup] at hmem
    exact absurd hmem not_mem_nil
  · simp [if_neg hgroup, stamp]

theorem stamp_congr (h : ∀ source ∈ group S sides, f source = g source) :
    stamp S.factSources f sides = stamp S.factSources g sides := by
  refine map_congr_left fun side hside => ?_
  rw [best_congr fun source hsource => h source (carrier_mem_group hside hsource)]

theorem group_eq_nil_of_no_facts
    (hfacts : sides.flatMap Side.supportingFactIds = []) : group S sides = [] := by
  rw [group, hfacts]
  rfl

theorem attach_query (hcollation : Function.Injective sortKey) :
    attachEarnedWeights S sortKey cutoff contentionId none sides =
      stamped S (liveSignal S sortKey cutoff contentionId (group S sides))
        sides := by
  unfold attachEarnedWeights stamped
  by_cases hfacts : sides.flatMap Side.supportingFactIds = []
  · rw [if_pos hfacts, if_pos (group_eq_nil_of_no_facts hfacts)]
  · rw [if_neg hfacts]
    refine if_congr Iff.rfl rfl (stamp_congr fun source hsource => ?_)
    exact lookup_earnedWeights hcollation group_nodup empty_notMem_group hsource

theorem attach_batch {factIds : List Uuid}
    (hcover : ∀ side ∈ sides, ∀ factId ∈ side.supportingFactIds, factId ∈ factIds) :
    attachEarnedWeights S sortKey cutoff contentionId
        (some (EarnedWeightsBatch.fetch S cutoff factIds)) sides =
      stamped S (signal S (fun _ => true) cutoff contentionId) sides := by
  have hsources : ∀ factId ∈ sides.flatMap Side.supportingFactIds,
      (EarnedWeightsBatch.fetch S cutoff factIds).factSources factId = S.factSources factId := by
    intro factId hfact
    obtain ⟨side, hside, hfact⟩ := mem_flatMap.mp hfact
    exact if_pos (hcover side hside factId hfact)
  have hgroup : ((sides.flatMap Side.supportingFactIds).flatMap
      (EarnedWeightsBatch.fetch S cutoff factIds).factSources).dedup = group S sides := by
    rw [group, flatMap_congr hsources]
  have hcarriers : ∀ side ∈ sides,
      side.carriers (EarnedWeightsBatch.fetch S cutoff factIds).factSources =
        side.carriers S.factSources := by
    intro side hside
    rw [Side.carriers, Side.carriers, flatMap_congr fun factId hfact =>
      hsources factId (mem_flatMap.mpr ⟨side, hside, hfact⟩)]
  unfold attachEarnedWeights stamped
  by_cases hfacts : sides.flatMap Side.supportingFactIds = []
  · rw [if_pos hfacts, if_pos (group_eq_nil_of_no_facts hfacts)]
  · rw [if_neg hfacts]
    simp only [hgroup]
    refine if_congr Iff.rfl rfl ?_
    rw [← stamp_congr (f := fun source => if source ∈ group S sides then
      (EarnedWeightsBatch.fetch S cutoff factIds).earnedWeight contentionId source else 0)]
    · refine map_congr_left fun side hside => ?_
      rw [hcarriers side hside]
    · intro source hsource
      have hne : source ≠ "" := fun h => empty_notMem_group (h ▸ hsource)
      rw [if_pos hsource, earnedWeight_fetch hne]

end

def archivedWin : Substrate where
  contentions := [⟨1, .surfaced, some 11, some 0⟩]
  values := [⟨1, true, false, [11]⟩]
  facts := [⟨11, [21], .archive⟩, ⟨12, [22], .live⟩]
  signals := [⟨21, some "wire", .archive⟩, ⟨22, some "wire", .live⟩]

end Legba.EarnedWeights
