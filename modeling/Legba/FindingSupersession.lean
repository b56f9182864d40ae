import Legba.FindingSignature
import Legba.LabelledRun
import Legba.PointerForest
import Legba.RowOrder

/-!
# Superseding the findings of a situation

A run fetches the open findings of its window, the newest first and up to a
cap, clusters them by signature and producing analyst, and points the other
members of each cluster at its latest one.  Reports of the composition
analysts are not fetched.  A run whose signatures cannot be derived raises
before it writes anything, and the handler goes on.
-/

namespace Legba.Findings

open JsonValue KeyedTable LabelledRun RowOrder

def compositionAnalystIds : List String :=
  ["country_composition", "region_composition", "escalation_composition",
    "world_assessor", "world_assessment", "country_assessment",
    "cross_correlator"]

def maxFindings : ℕ := 50000

structure PoolRun where
  analystId : Option String
  ownerTenant : Option String
  lookbackDays : ℤ
  topicFallback : Option String
  now : Datetime

def asked (option : Option String) (test : String → Bool) : Bool :=
  (option.filter (· ≠ "")).all test

/-- The `WHERE` clause of `_fetch_findings`.  A finding without an analyst is
not kept: `NULL <> ALL (…)` is unknown. -/
def PoolRun.eligible (run : PoolRun) (row : OutputRow) : Bool :=
  row.isFinding && decide (row.supersededBy = none) &&
    decide (run.now - seconds (86400 * run.lookbackDays) < row.producedAt) &&
    row.analystId.any (fun analyst => decide (analyst ∉ compositionAnalystIds)) &&
    asked run.analystId (fun analyst => decide (row.analystId = some analyst)) &&
    asked run.ownerTenant fun tenant => decide (memberText row.data "owner_tenant" = some tenant)

/-- `produced_at DESC, id DESC`, which is also the order of `_pick_latest`. -/
def later : Uuid × OutputRow → Uuid × OutputRow → Bool :=
  greaterThen (fun finding => finding.2.producedAt) (greater fun finding => finding.1.toNat)

def PoolRun.fetchFindings (run : PoolRun) (outputs : Outputs) : List (Uuid × OutputRow) :=
  ((outputs.select run.eligible).insertionSort
    fun a b => later b a = false).take maxFindings

abbrev ClusterKey := String × Option String

def clusterKey (text : PythonText) (fallback : Option String)
    (row : OutputRow) : Option (Option ClusterKey) :=
  if decide (row.analystId.getD "" ∈ compositionAnalystIds) then some none
  else (signatureOf text fallback row).map fun signature => signature.map (·, row.analystId)

structure Cluster where
  key : ClusterKey
  rows : List (Uuid × OutputRow)

/-- The clusters of more than one finding, `none` if a signature raises. -/
def clusters (text : PythonText) (fallback : Option String)
    (findings : List (Uuid × OutputRow)) : Option (List Cluster) :=
  (findings.mapM fun finding => (clusterKey text fallback finding.2).map (·, finding)).map
    fun keyed =>
      ((keyed.filterMap Prod.fst).dedup.map fun key =>
        (⟨key, (keyed.filter fun entry =>
          decide (entry.1 = some key)).map Prod.snd⟩ : Cluster)).filter
        fun cluster => decide (1 < cluster.rows.length)

def pickLatest (rows : List (Uuid × OutputRow)) : Option Uuid :=
  (firstBy later rows).map Prod.fst

def reasonOf (signature : String) : String :=
  if startsWith signature "sit:" then "situation_id" else "signature_match"

def Cluster.link (cluster : Cluster) (latest superseded : Uuid) : SupersessionLink where
  supersededId := superseded
  supersedingId := latest
  situationSignature := cluster.key.1
  reason := reasonOf cluster.key.1

def resolveCluster (tables : Tables) (cluster : Cluster) : Tables :=
  match pickLatest cluster.rows with
  | none => tables
  | some latest =>
    ((cluster.rows.map Prod.fst).filter (· ≠ latest)).foldl
      (fun tables id => linkSupersession tables (cluster.link latest id))
      (stampSignature tables latest cluster.key.1)

def PoolRun.clusters (run : PoolRun) (text : PythonText) (outputs : Outputs) :
    Option (List Cluster) :=
  Findings.clusters text run.topicFallback (run.fetchFindings outputs)

/-- `_resolve_pool`, a run which raises leaving the tables as they are. -/
def resolvePool (text : PythonText) (tables : Tables) (run : PoolRun) :
    Tables :=
  match run.clusters text tables.outputs with
  | none => tables
  | some clusters => clusters.foldl resolveCluster tables

inductive FindingEvent where
  | write (id : Uuid) (row : OutputRow)
  | run (run : PoolRun)

def findingStep (text : PythonText) (tables : Tables) : FindingEvent → Option Tables
  | .write id row =>
    match tables.outputs.row? id with
    | some _ => none
    | none =>
      some { tables with
        outputs := tables.outputs.put id { row with supersededBy := none } }
  | .run run => some (resolvePool text tables run)

/-- Every pointer goes to a strictly later finding of the same analyst and the
same signature. -/
def PointersGoLater (text : PythonText) (tables : Tables) : Prop :=
  ∀ id row target, tables.outputs.row? id = some row →
    row.supersededBy = some target →
    ∃ successor signature, tables.outputs.row? target = some successor ∧
      later (target, successor) (id, row) = true ∧
      successor.analystId = row.analystId ∧
      ∀ fallback,
        signatureOf text fallback row = some (some signature) ∧
          signatureOf text fallback successor = some (some signature)

structure Ordered (text : PythonText) (tables : Tables) : Prop where
  later : PointersGoLater text tables
  acyclic : PointerForest.Acyclic tables.successor

def Tables.IsOpen (tables : Tables) (id : Uuid) : Prop :=
  ∃ row, tables.outputs.row? id = some row ∧ row.supersededBy = none

/-- The run fetches all its findings, and none of their signatures raises. -/
structure PoolRun.Completes (run : PoolRun) (text : PythonText) (outputs : Outputs) : Prop where
  uncapped : (outputs.select run.eligible).length ≤ maxFindings
  derived : (run.clusters text outputs).isSome

def PoolRun.InClass (run : PoolRun) (text : PythonText) (outputs : Outputs)
    (key : ClusterKey) (id : Uuid) : Prop :=
  ∃ row, outputs.row? id = some row ∧ run.eligible row = true ∧
    signatureOf text run.topicFallback row = some (some key.1) ∧
    row.analystId = key.2

end Legba.Findings
