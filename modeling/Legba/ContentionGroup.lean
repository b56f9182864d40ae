import Legba.SignalRow
import Mathlib.Data.Int.ConditionallyCompleteOrder
import Mathlib.Data.List.Sort
import Mathlib.Data.Multiset.MapFold
import Mathlib.Data.Prod.Lex
import Mathlib.Data.Rat.Floor
import Mathlib.Data.String.Basic

/-!
# One contention group

The arbiter clusters the open facts of one group key into values, sets aside
the junk clusters, scores the others by quorum, credibility, recency and
confidence, and surfaces at most one of them.  A near tie is decided behind a
soak window by accumulated weight, or by a language model whose verdicts are
cached.  A pass skips a group whose stored answer carries the fingerprint of
its current inputs.

The scores live in an ordered field.
-/

namespace Legba.Contention

/-- A row of the open-fact scan; `roleKey` is set by the role scan only. -/
structure FactRow where
  id : Uuid
  subject : String
  predicate : String
  value : String
  confidence : ℚ
  sourceType : Option String := none
  sourceCredibility : Option ℚ := none
  producedAt : Option Datetime
  derivedFrom : List String := []
  roleKey : String := ""
  deriving DecidableEq

abbrev GroupKey := String × String

/-- `sourceCred` is keyed by the distinct lineage. -/
structure ValueAgg where
  valueKey : String
  representativeFactId : Option Uuid := none
  representativeValue : String := ""
  supportingFactIds : List Uuid := []
  sourceTypes : List String := []
  sourceCred : List (String × ℚ) := []
  credSum : ℚ := 0
  confidenceSum : ℚ := 0
  latestAssertedAt : Option Datetime := none
  rowCount : ℕ := 0
  deriving DecidableEq

def unknownSourceCred : ℚ := 1 / 2

/-- `self._source_cred[ref] = max(self._source_cred.get(ref, 0.0), cred)` -/
def castVote (cred : ℚ) (votes : List (String × ℚ)) (ref : String) : List (String × ℚ) :=
  if ref ∈ votes.map Prod.fst then
    votes.map fun vote => if vote.1 = ref then (ref, max vote.2 cred) else vote
  else votes ++ [(ref, max 0 cred)]

def lineageRefs (row : FactRow) : List String :=
  if row.derivedFrom.isEmpty then ["fact:" ++ toString row.id.toNat]
  else row.derivedFrom

def isNewer (producedAt latest : Option Datetime) : Bool :=
  match producedAt, latest with
  | some produced, some newest => decide (newest < produced)
  | _, _ => false

def ValueAgg.add (agg : ValueAgg) (row : FactRow) : ValueAgg :=
  let represents := agg.representativeFactId.isNone ||
    isNewer row.producedAt agg.latestAssertedAt ||
    agg.latestAssertedAt.isNone
  let nominal := row.sourceCredibility.getD unknownSourceCred
  { agg with
    representativeFactId :=
      if represents then some row.id else agg.representativeFactId
    representativeValue :=
      if represents then row.value else agg.representativeValue
    supportingFactIds := agg.supportingFactIds ++ [row.id]
    sourceTypes :=
      match row.sourceType with
      | some kind =>
        if kind = "" ∨ kind ∈ agg.sourceTypes then agg.sourceTypes
        else agg.sourceTypes ++ [kind]
      | none => agg.sourceTypes
    sourceCred := (lineageRefs row).foldl (castVote nominal) agg.sourceCred
    credSum := agg.credSum + row.sourceCredibility.getD 0
    confidenceSum := agg.confidenceSum + row.confidence
    latestAssertedAt :=
      if row.producedAt.isSome &&
          (agg.latestAssertedAt.isNone || isNewer row.producedAt agg.latestAssertedAt) then
        row.producedAt
      else agg.latestAssertedAt
    rowCount := agg.rowCount + 1 }

def ValueAgg.distinctSourceCount (agg : ValueAgg) : ℕ := agg.sourceCred.length

def ValueAgg.credibilityWeightedSourceCount (agg : ValueAgg) : ℚ :=
  if agg.sourceCred.isEmpty then agg.distinctSourceCount
  else (agg.sourceCred.map Prod.snd).sum

def safeDiv {K : Type*} [Field K] [LinearOrder K] (num den : K) : K :=
  if 0 < den then num / den else 0

def ValueAgg.confidenceMean (agg : ValueAgg) : ℚ :=
  safeDiv agg.confidenceSum agg.rowCount

/-! ## The arbiter -/

/-- What the arbiter delegates, and its settings: the canon and the fuzzy
merge of values, the junk gates, the logarithm of the quorum and the factor of
recency decay, the soak window, the refresh width and the weight ratio. -/
structure Arbiter (K : Type*) [Field K] [LinearOrder K] where
  canonicalValueKey : String → String
  sameClaim : String → String → Bool
  junkReason : String → String → String → Option String
  unsurfaceable : String → Bool
  log1p : K → K
  decay : K
  decay_pos : 0 < decay
  decay_le_one : decay ≤ 1
  soak : ℤ
  refresh : ℤ
  refresh_pos : 0 < refresh
  weightRatio : ℚ
  version : String

variable {K : Type*} [Field K] [LinearOrder K]

/-! ### Clusters -/

structure ValueCluster where
  key : String
  members : List FactRow

def placeRow (sameClaim : String → String → Bool) (key : String)
    (row : FactRow) : List ValueCluster → List ValueCluster
  | [] => [{ key := key, members := [row] }]
  | cluster :: rest =>
    if key = cluster.key || sameClaim key cluster.key then
      { cluster with members := cluster.members ++ [row] } :: rest
    else cluster :: placeRow sameClaim key row rest

namespace Arbiter

variable (A : Arbiter K)

def clusterValues (rows : List FactRow) : List ValueCluster :=
  rows.foldl (fun clusters row =>
    placeRow A.sameClaim (A.canonicalValueKey row.value) row clusters) []

def aggregate (cluster : ValueCluster) : ValueAgg :=
  cluster.members.foldl ValueAgg.add { valueKey := cluster.key }

def clusterJunkReason (cluster : ValueCluster) : Option String :=
  match cluster.members.head? with
  | none => none
  | some row => A.junkReason row.subject row.predicate (aggregate cluster).representativeValue

/-- The first part of `_aggregate_group`. -/
def nonJunk (rows : List FactRow) : List ValueAgg :=
  ((A.clusterValues rows).filter fun cluster => (A.clusterJunkReason cluster).isNone).map aggregate

/-- The second part of `_aggregate_group`. -/
def junk (rows : List FactRow) : List ValueAgg :=
  ((A.clusterValues rows).filter fun cluster => (A.clusterJunkReason cluster).isSome).map aggregate

/-! ### Scores -/

def minSurfaceScore : K := 3 / 20
def dominanceRatio : K := 5 / 4
def tieTolerance : K := 1 / 10 ^ 9
def weightTiebreakMinSources : ℕ := 2

def quorum (sources maxSources : ℚ) : K :=
  if maxSources ≤ 0 then 0
  else safeDiv (A.log1p ((max sources 0 : ℚ) : K)) (A.log1p (maxSources : K))

def recency (latest : Option Datetime) (now : Datetime) : K :=
  match latest with
  | none => 0
  | some asserted => A.decay ^ (max (now - asserted) 0).toNat

/-- One entry of `_score_group`; the keys of the clusters are distinct. -/
def score (aggs : List ValueAgg) (now : Datetime) (agg : ValueAgg) : K :=
  let maxDistinct := (aggs.map ValueAgg.credibilityWeightedSourceCount).foldl max 0
  let total := (aggs.map ValueAgg.credSum).sum
  A.quorum agg.credibilityWeightedSourceCount maxDistinct *
    ((safeDiv agg.credSum total : ℚ) : K) *
    A.recency agg.latestAssertedAt now *
    ((agg.confidenceMean : ℚ) : K)

end Arbiter

/-! ### The winner by score -/

/-- The key by which `_select_winner` sorts. -/
def rankKey (scores : ValueAgg → K) (agg : ValueAgg) : K ×ₗ ℕ ×ₗ ℚ ×ₗ WithBot Datetime :=
  toLex (scores agg, toLex (agg.distinctSourceCount,
    toLex (agg.credSum, (agg.latestAssertedAt : WithBot Datetime))))

/-- `sorted(…, reverse=True)` -/
def ranked (scores : ValueAgg → K) (aggs : List ValueAgg) : List ValueAgg :=
  aggs.insertionSort fun a b => rankKey scores b ≤ rankKey scores a

def tieKey (agg : ValueAgg) : ℤ ×ₗ ℚ ×ₗ (WithBot Datetime)ᵒᵈ ×ₗ String :=
  toLex (-(agg.distinctSourceCount : ℤ), toLex (-agg.credSum,
    toLex (OrderDual.toDual (agg.latestAssertedAt : WithBot Datetime), agg.valueKey)))

def runnerUpScore (scores : ValueAgg → K) (ordered : List ValueAgg) : K :=
  match ordered with
  | _ :: second :: _ => scores second
  | _ => 0

def scoreAbstains (best runnerUp : K) : Bool :=
  decide (best < Arbiter.minSurfaceScore) ||
    (decide (0 < runnerUp) && decide (best < Arbiter.dominanceRatio * runnerUp))

namespace Arbiter

variable (A : Arbiter K)

def selectWinner (aggs : List ValueAgg) (scores : ValueAgg → K) : Option ValueAgg :=
  match ranked scores aggs with
  | [] => none
  | head :: rest =>
    let tied := aggs.filter fun agg => decide (|scores agg - scores head| ≤ tieTolerance)
    let best :=
      if 1 < tied.length then
        ((tied.insertionSort fun a b => tieKey a ≤ tieKey b).head?).getD head
      else head
    if scoreAbstains (scores head) (runnerUpScore scores (head :: rest)) then
      none
    else if A.unsurfaceable best.representativeValue then none
    else some best

inductive AbstainCause where
  | weak
  | nearTie
  deriving DecidableEq, Repr

def abstainCause (aggs : List ValueAgg) (scores : ValueAgg → K) : Option AbstainCause :=
  match (aggs.map scores).insertionSort fun a b => b ≤ a with
  | [] => none
  | best :: rest =>
    let runnerUp := rest.head?.getD 0
    if best < minSurfaceScore then some .weak
    else if 0 < runnerUp ∧ best < dominanceRatio * runnerUp then some .nearTie
    else none

/-! ### The tie-break by weight -/

/-- `_tiebreak_weight`, with the earned-record seam off. -/
def tiebreakWeight (agg : ValueAgg) : ℚ :=
  agg.distinctSourceCount + agg.sourceTypes.length + agg.credSum

def selectWeightWinner (aggs : List ValueAgg) : Option ValueAgg :=
  match aggs.insertionSort fun a b =>
      toLex (-tiebreakWeight a, a.valueKey) ≤ toLex (-tiebreakWeight b, b.valueKey) with
  | best :: runner :: _ =>
    if best.distinctSourceCount < weightTiebreakMinSources then none
    else if tiebreakWeight best ≤ 0 then none
    else if 0 < tiebreakWeight runner ∧
        tiebreakWeight best < A.weightRatio * tiebreakWeight runner then none
    else if A.unsurfaceable best.representativeValue then none
    else some best
  | _ => none

end Arbiter

/-! ## The tie-break by a language model -/

/-- `round(x, places)` as a number of units of the last place, half to even. -/
def roundTo (places : ℕ) (x : ℚ) : ℤ :=
  let scaled := x * 10 ^ places
  let below := ⌊scaled⌋
  if scaled - below < 1 / 2 then below
  else if 1 / 2 < scaled - below then below + 1
  else if below % 2 = 0 then below else below + 1

/-- One side of `_evidence_fingerprint`. -/
structure SideEvidence where
  key : String
  sources : ℕ
  types : Multiset String
  cred : ℤ
  asserted : Option Datetime
  confidence : ℤ
  deriving DecidableEq

def sideEvidence (agg : ValueAgg) : SideEvidence where
  key := agg.valueKey
  sources := agg.distinctSourceCount
  types := agg.sourceTypes
  cred := roundTo 3 agg.credSum
  asserted := agg.latestAssertedAt
  confidence := roundTo 3 agg.confidenceMean

/-- `_evidence_fingerprint` before it is hashed. -/
abbrev Evidence := Multiset SideEvidence

def evidence (aggs : List ValueAgg) : Evidence := aggs.map sideEvidence

/-- A row of `fact_contention_tiebreak`. -/
structure Verdict where
  winnerKey : Option String
  justification : String
  modelId : Option String

abbrev VerdictCache := List (Evidence × Verdict)

/-- A parsed reply: its stripped `winner` and its `why`. -/
structure Reply where
  winner : String
  why : String
  modelId : Option String

structure TiebreakOutcome where
  winnerKey : Option String
  justification : String
  modelId : Option String
  cacheable : Bool

/-- `_llm_tiebreak`; a call that times out, fails or does not parse has no
reply. -/
def llmTiebreak (aggs : List ValueAgg) : Option Reply → TiebreakOutcome
  | none => { winnerKey := none, justification := "", modelId := none,
              cacheable := false }
  | some reply =>
    if reply.winner.toUpper = "ABSTAIN" then
      { winnerKey := none, justification := reply.why
        modelId := reply.modelId, cacheable := true }
    else if reply.winner ∈ aggs.map ValueAgg.valueKey then
      { winnerKey := some reply.winner, justification := reply.why
        modelId := reply.modelId, cacheable := true }
    else
      { winnerKey := none, justification := reply.why
        modelId := reply.modelId, cacheable := false }

/-- The language model as one group of one pass meets it: the calls left under
the cap of the pass, whether the budget can pay for a call, and the reply. -/
structure LlmTurn where
  callsLeft : ℕ
  affordable : Bool
  reply : Option Reply

inductive Decider where
  | deterministic
  | llm
  deriving DecidableEq, Repr

inductive Rationale where
  | qcrf (valueKey : String)
  | weight (valueKey : String)
  | llm (justification : String) (modelId : Option String)
  | cachedLlm (justification : String) (modelId : Option String)
  deriving DecidableEq, Repr

structure SurfaceDecision where
  winner : Option ValueAgg := none
  surfacedBy : Option Decider := none
  rationale : Option Rationale := none

def aggOf (aggs : List ValueAgg) (key : Option String) : Option ValueAgg :=
  key.bind fun wanted => aggs.find? fun agg => agg.valueKey == wanted

namespace Arbiter

variable (A : Arbiter K)

/-- The gray zone of `_resolve_tiebreak`: the cached verdict, or one call. -/
def consultLlm (aggs : List ValueAgg) (cache : VerdictCache) (turn : LlmTurn) :
    SurfaceDecision × VerdictCache :=
  match cache.lookup (evidence aggs) with
  | some verdict =>
    match aggOf aggs verdict.winnerKey with
    | some winner =>
      ({ winner := some winner, surfacedBy := some .llm
         rationale :=
           some (.cachedLlm verdict.justification verdict.modelId) },
        cache)
    | none => ({}, cache)
  | none =>
    if turn.callsLeft = 0 || !turn.affordable then ({}, cache)
    else
      let outcome := llmTiebreak aggs turn.reply
      let stored : VerdictCache :=
        if outcome.cacheable then
          (evidence aggs,
            { winnerKey := outcome.winnerKey
              justification := outcome.justification
              modelId := outcome.modelId }) :: cache
        else cache
      match aggOf aggs outcome.winnerKey with
      | some winner =>
        ({ winner := some winner, surfacedBy := some .llm
           rationale := some (.llm outcome.justification outcome.modelId) },
          stored)
      | none => ({}, stored)

def resolveTiebreak (llm : Bool) (aggs : List ValueAgg)
    (scores : ValueAgg → K) (soaked : Bool) (cache : VerdictCache)
    (turn : LlmTurn) : SurfaceDecision × VerdictCache :=
  if abstainCause aggs scores ≠ some .nearTie then ({}, cache)
  else if !soaked then ({}, cache)
  else
    match A.selectWeightWinner aggs with
    | some winner =>
      ({ winner := some winner, surfacedBy := some .deterministic
         rationale := some (.weight winner.valueKey) }, cache)
    | none => if llm then consultLlm aggs cache turn else ({}, cache)

/-- The surfacing decision of `_process_group`. -/
def decideGroup (llm : Bool) (aggs : List ValueAgg) (now : Datetime)
    (soaked : Bool) (cache : VerdictCache) (turn : LlmTurn) :
    SurfaceDecision × VerdictCache :=
  match A.selectWinner aggs (A.score aggs now) with
  | some winner =>
    ({ winner := some winner, surfacedBy := some .deterministic
       rationale := some (.qcrf winner.valueKey) }, cache)
  | none => A.resolveTiebreak llm aggs (A.score aggs now) soaked cache turn

end Arbiter

/-! ## The stored group -/

inductive Status where
  | contested
  | surfaced
  | collapsed
  deriving DecidableEq, Repr

/-- `_row_token` before it is flattened. -/
structure RowToken where
  id : Uuid
  value : String
  confidence : ℤ
  sourceType : String
  sourceCredibility : Option ℤ
  producedAt : Option Datetime
  lineage : Multiset String
  roleKey : String
  deriving DecidableEq

def rowToken (row : FactRow) : RowToken where
  id := row.id
  value := row.value
  confidence := roundTo 6 row.confidence
  sourceType := row.sourceType.getD ""
  sourceCredibility := row.sourceCredibility.map (roundTo 6)
  producedAt := row.producedAt
  lineage := row.derivedFrom
  roleKey := row.roleKey

/-- `group_fingerprint` before it is hashed.  The tunables are the settings of
the arbiter, which one history does not change. -/
structure Fingerprint where
  version : String
  ageBucket : ℤ
  soaked : Bool
  tokens : Multiset RowToken
  deriving DecidableEq

/-- An entry of `surface_history`. -/
structure SurfaceRecord where
  surfacedValue : Option String
  surfacedFactId : Uuid
  surfacedBy : Option Decider
  surfacedAt : Option Datetime
  rationale : Option Rationale
  supersededAt : Datetime
  supersededByStatus : Status
  deriving DecidableEq

/-- A row of `fact_contention_values`. -/
structure ValueRow where
  valueKey : String
  supportingFactIds : List Uuid
  surfacedWinner : Bool
  isJunk : Bool
  deriving DecidableEq

/-- A row of `fact_contention` with its value rows. -/
structure Group where
  openedAt : Datetime
  status : Status := .contested
  surfacedValue : Option String := none
  surfacedFactId : Option Uuid := none
  surfacedBy : Option Decider := none
  surfacedAt : Option Datetime := none
  rationale : Option Rationale := none
  history : List SurfaceRecord := []
  arbiterVersion : Option String := none
  fingerprint : Option Fingerprint := none
  values : List ValueRow := []

/-- A group key: its row, and the verdicts cached under the id of the row. -/
structure Slot where
  group : Option Group := none
  cache : VerdictCache := []

def surfaceHistoryCap : ℕ := 50

namespace Arbiter

variable (A : Arbiter K)

def pastSoak (openedAt : Option Datetime) (now : Datetime) : Bool :=
  match openedAt with
  | none => true
  | some opened => decide (A.soak ≤ 0) || decide (A.soak ≤ now - opened)

def ageBucket (rows : List FactRow) (now : Datetime) : ℤ :=
  match (rows.filterMap FactRow.producedAt).max? with
  | none => 0
  | some newest => max (now - newest) 0 / A.refresh

def groupFingerprint (rows : List FactRow) (now : Datetime) (soaked : Bool) : Fingerprint where
  version := A.version
  ageBucket := A.ageBucket rows now
  soaked := soaked
  tokens := rows.map rowToken

def unchanged (prior : Option Group) (fingerprint : Fingerprint) : Bool :=
  match prior with
  | none => false
  | some group =>
    decide (group.fingerprint = some fingerprint) &&
      decide (group.arbiterVersion = some A.version) &&
      decide (group.status ≠ .collapsed)

/-- The row `_process_group` decides over: a new row, or one which re-emerges
from a collapse, is opened now. -/
def openGroup (prior : Option Group) (now : Datetime) : Group :=
  match prior with
  | none => { openedAt := now }
  | some group =>
    if group.status = .collapsed then { group with openedAt := now }
    else group

end Arbiter

/-- `_prior_surface_record`, with what `_finalize_group` adds to it. -/
def priorSurfaceRecord (prior : Group) (now : Datetime) (status : Status) : Option SurfaceRecord :=
  if prior.status = .surfaced then
    prior.surfacedFactId.map fun factId =>
      { surfacedValue := prior.surfacedValue
        surfacedFactId := factId
        surfacedBy := prior.surfacedBy
        surfacedAt := prior.surfacedAt
        rationale := prior.rationale
        supersededAt := now
        supersededByStatus := status }
  else none

/-- `_replace_group_values` -/
def groupValues (nonJunk junk : List ValueAgg) (winner : Option ValueAgg) : List ValueRow :=
  nonJunk.map (fun agg =>
    { valueKey := agg.valueKey
      supportingFactIds := agg.supportingFactIds
      surfacedWinner := decide (some agg.valueKey = winner.map
        ValueAgg.valueKey)
      isJunk := false }) ++
  junk.map fun agg =>
    { valueKey := agg.valueKey
      supportingFactIds := agg.supportingFactIds
      surfacedWinner := false
      isJunk := true }

namespace Arbiter

variable (A : Arbiter K)

/-- `_finalize_group`, the row and its value rows. -/
def finalizeGroup (prior : Group) (nonJunk junk : List ValueAgg)
    (decision : SurfaceDecision) (now : Datetime)
    (fingerprint : Fingerprint) : Group :=
  let status := if decision.winner.isSome then Status.surfaced else .contested
  let factId := decision.winner.bind ValueAgg.representativeFactId
  let record := priorSurfaceRecord prior now status
  let sameWinner := decision.winner.isSome &&
    decide (record.map SurfaceRecord.surfacedFactId = factId) && record.isSome
  let stands := sameWinner && prior.surfacedAt.isSome
  let stamped : Group :=
    { prior with
      status := status
      surfacedValue := decision.winner.map ValueAgg.valueKey
      surfacedFactId := factId
      arbiterVersion := some A.version
      fingerprint := some fingerprint
      values := groupValues nonJunk junk decision.winner }
  if stands then
    { stamped with
      surfacedBy := prior.surfacedBy.or decision.surfacedBy
      rationale := prior.rationale.or decision.rationale }
  else
    { stamped with
      surfacedBy := decision.surfacedBy
      surfacedAt := if decision.winner.isSome then some now else none
      rationale := decision.rationale
      history :=
        match record with
        | some entry =>
          if sameWinner then prior.history
          else (entry :: prior.history).eraseIdx surfaceHistoryCap
        | none => prior.history }

section

variable (prior : Group) (nonJunk junk : List ValueAgg)
variable (decision : SurfaceDecision) (now : Datetime)
variable (fingerprint : Fingerprint)

@[simp] theorem finalizeGroup_status :
    (A.finalizeGroup prior nonJunk junk decision now fingerprint).status =
      if decision.winner.isSome then .surfaced else .contested := by
  simp [finalizeGroup, apply_ite Group.status]

@[simp] theorem finalizeGroup_surfacedFactId :
    (A.finalizeGroup prior nonJunk junk decision now fingerprint).surfacedFactId =
      decision.winner.bind ValueAgg.representativeFactId := by
  simp [finalizeGroup, apply_ite Group.surfacedFactId]

@[simp] theorem finalizeGroup_openedAt :
    (A.finalizeGroup prior nonJunk junk decision now fingerprint).openedAt = prior.openedAt := by
  simp [finalizeGroup, apply_ite Group.openedAt]

@[simp] theorem finalizeGroup_fingerprint :
    (A.finalizeGroup prior nonJunk junk decision now fingerprint).fingerprint =
      some fingerprint := by
  simp [finalizeGroup, apply_ite Group.fingerprint]

theorem finalizeGroup_not_collapsed :
    (A.finalizeGroup prior nonJunk junk decision now fingerprint).status ≠ .collapsed := by
  rw [finalizeGroup_status]
  split <;> simp

end

/-- `_collapse_group`, the row and its value rows. -/
def collapseGroup (group : Group) : Group :=
  { group with
    status := .collapsed, surfacedValue := none, surfacedFactId := none
    arbiterVersion := some A.version, values := [] }

def collapseSlot (slot : Slot) : Slot :=
  { slot with group := slot.group.map A.collapseGroup }

def processGroup (llm : Bool) (rows : List FactRow) (now : Datetime)
    (turn : LlmTurn) (fingerprint : Fingerprint) (slot : Slot) : Slot :=
  let nonJunk := A.nonJunk rows
  if nonJunk.length < 2 then A.collapseSlot slot
  else
    let prior := openGroup slot.group now
    let decided := A.decideGroup llm nonJunk now
      (A.pastSoak (some prior.openedAt) now) slot.cache turn
    { group := some (A.finalizeGroup prior nonJunk (A.junk rows) decided.1 now fingerprint)
      cache := decided.2 }

def passFingerprint (rows : List FactRow) (now : Datetime) (slot : Slot) :
    Fingerprint :=
  A.groupFingerprint rows now (A.pastSoak (slot.group.map Group.openedAt) now)

def skips (rows : List FactRow) (now : Datetime) (slot : Slot) : Bool :=
  A.unchanged slot.group (A.passFingerprint rows now slot)

/-- One group in the loop of `_run_arbiter`. -/
def visitGroup (llm : Bool) (rows : List FactRow) (now : Datetime)
    (turn : LlmTurn) (slot : Slot) : Slot :=
  if A.skips rows now slot then slot
  else A.processGroup llm rows now turn (A.passFingerprint rows now slot) slot

end Arbiter

/-- The arbiter at its settings, over values which the canon leaves as they are
and which pass the gates.  The half-life is thirty days. -/
def plainArbiter (soak : ℤ) : Arbiter ℚ where
  canonicalValueKey := id
  sameClaim := fun _ _ => false
  junkReason := fun _ _ _ => none
  unsurfaceable := fun _ => false
  log1p := id
  decay := 1 - 267 / 10 ^ 15
  decay_pos := by norm_num
  decay_le_one := by norm_num
  soak := soak
  refresh := seconds 86400
  refresh_pos := by norm_num [seconds]
  weightRatio := 3 / 2
  version := "fact_contention_arbiter/1.1.0"

def disputed (id : Uuid) (value : String) (producedAt : Datetime) : FactRow where
  id := id
  subject := "port of aden"
  predicate := "controlled by"
  value := value
  confidence := 9 / 10
  sourceType := some "news"
  sourceCredibility := some (4 / 5)
  producedAt := some producedAt

end Legba.Contention
