import Legba.FactTable
import Legba.LabelledRun

/-!
# The two fact writers

`_insert_fact` writes the facts of analysts and seed batches,
`_insert_ingestion_fact` those of the ingest stage.  Both close the prior rows
of another value, refresh the open row of the triple if there is one, and
insert a row otherwise.  The statements of a write are committed one by one,
so a refused statement leaves the earlier ones applied.
-/

namespace Legba.Facts

open JsonValue KeyedTable RowOrder

def predicateCanonical : List (String × String) :=
  [("leaderof", "leader of"),
    ("headofstate", "head of state"),
    ("head of state", "head of state"),
    ("headofgovernment", "head of government"),
    ("head of government", "head of government"),
    ("memberof", "member of"),
    ("locatedin", "located in"),
    ("alliedwith", "allied with"),
    ("hostileto", "hostile to"),
    ("inactiveconflictwith", "in active conflict with"),
    ("in active conflict with", "in active conflict with"),
    ("sanctions", "sanctions"),
    ("armstransferto", "arms transfer to"),
    ("involvedinconflictevent", "involved in conflict event"),
    ("partof", "part of"),
    ("cooccurswith", "co occurs with"),
    ("operatesin", "operates in"),
    ("partyto", "party to"),
    ("targets", "targets"),
    ("conductedvia", "conducted via"),
    ("suppliesweaponsto", "supplies weapons to"),
    ("affiliatedwith", "affiliated with"),
    ("involvedin", "involved in")]

def normalizePredicate (text : TextFns) (predicate : String) : String :=
  if predicate = "" ∨ text.strip predicate = "" then predicate
  else
    (predicateCanonical.lookup (text.casefold (text.strip predicate))).getD predicate

def sourceTierCredibilityTable : List (String × ℚ) :=
  [("seed", 9 / 10), ("curated", 9 / 10), ("ingestion", 1 / 2),
    ("agent", 1 / 2)]

def sourceTierCredibility (text : TextFns) (sourceType : String) : ℚ :=
  if sourceType = "" then 1 / 2
  else (sourceTierCredibilityTable.lookup (text.lowercase (text.strip sourceType))).getD (1 / 2)

/-- `backed` is the greatest credibility of the backing signals. -/
def resolveFactSourceCredibility (text : TextFns) (backed : Option ℚ) (sourceType : String) : ℚ :=
  backed.getD (sourceTierCredibility text sourceType)

/-- The arguments of `_insert_fact` with what it reads from its surroundings:
the credibility of the backing signals, the contention flag and the clock. -/
structure FactWrite where
  rowId : Uuid
  subject : String
  predicate : String
  value : String
  confidence : ℚ
  payloadSourceType : String
  validFrom : Option Datetime
  validUntil : Option Datetime
  data : List (String × Json)
  derivedFrom : List Uuid
  sourceType : Option String
  seedBatchId : Option Uuid
  originClass : Option OriginClass
  backed : Option ℚ
  contention : Bool
  now : Datetime

/-- The arguments of `_insert_ingestion_fact`, likewise. -/
structure IngestionWrite extends Triple where
  factId : Uuid
  confidence : ℚ
  validFrom : Option Datetime
  data : List (String × Json)
  derivedFrom : List Uuid
  sourceId : Option String
  backed : Option ℚ
  contention : Bool
  now : Datetime

inductive Write where
  | fact (w : FactWrite)
  | ingestion (w : IngestionWrite)

section

variable (text : TextFns)

def FactWrite.triple (w : FactWrite) : Triple where
  subject := w.subject
  predicate := normalizePredicate text w.predicate
  value := w.value

def FactWrite.effectiveSourceType (w : FactWrite) : String :=
  match w.sourceType with
  | none => w.payloadSourceType
  | some sourceType =>
    if sourceType = "" then w.payloadSourceType else sourceType

def FactWrite.effectiveOriginClass (w : FactWrite) : OriginClass :=
  w.originClass.getD (if w.seedBatchId.isSome then .seed else .live)

def FactWrite.row (w : FactWrite) : FactRow where
  toTriple := w.triple text
  confidence := w.confidence
  sourceType := w.effectiveSourceType
  validFrom := w.validFrom
  validUntil := w.validUntil
  supersededBy := none
  supersededAt := none
  createdAt := w.now
  updatedAt := w.now
  data := w.data
  derivedFrom := w.derivedFrom
  originClass := w.effectiveOriginClass
  sourceCredibility := some (resolveFactSourceCredibility text w.backed w.effectiveSourceType)

def IngestionWrite.row (w : IngestionWrite) : FactRow where
  toTriple := w.toTriple
  confidence := w.confidence
  sourceType := "ingestion"
  validFrom := w.validFrom
  validUntil := none
  supersededBy := none
  supersededAt := none
  createdAt := w.now
  updatedAt := w.now
  data := w.data
  derivedFrom := w.derivedFrom
  originClass := .live
  sourceCredibility := some (resolveFactSourceCredibility text w.backed "ingestion")

def FactWrite.reassertion (w : FactWrite) : Reassertion :=
  (w.row text).reassertion w.now

def IngestionWrite.reassertion (w : IngestionWrite) : Reassertion :=
  (w.row text).reassertion w.now

/-- `COALESCE(valid_from, '1970-01-01')`, the epoch being the origin of
time. -/
def coalesceEpoch (validFrom : Option Datetime) : Datetime :=
  validFrom.getD 0

def conflicts (row : FactRow) (_ : Uuid) (other : FactRow) : Bool :=
  row.isOpen && other.isOpen && sameTriple text other.toTriple row.toTriple &&
    decide (coalesceEpoch other.validFrom = coalesceEpoch row.validFrom)

/-- `INSERT … ON CONFLICT … DO UPDATE`.  A history class fails the check of the
table, an update to `none` a `NOT NULL`, an id in use the primary key; all
three leave the table as it is. -/
def insertRow (id : Uuid) (row : FactRow) (set : FactRow → Option FactRow)
    (table : FactTable) : FactTable :=
  if row.isLive = false then table
  else
    match table.selectFirst (conflicts text row) with
    | some found =>
      match set found.2 with
      | some updated => table.update found.1 fun _ => updated
      | none => table
    | none =>
      if (table.row? id).isSome then table else table.put id row

/-! ## The writers -/

def isAuthoritative (sourceType : String) : Bool :=
  decide (text.lowercase sourceType ∈ ["seed", "curated"])

def FactWrite.supersedeRole (w : FactWrite) (newId : Uuid) (table : FactTable) : Option FactTable :=
  if isAuthoritative text w.effectiveSourceType then
    supersedePriorFunctionalRoleFacts text w.now (w.triple text)
      (field? w.data "role") newId (some w.effectiveSourceType) table
  else some table

def FactWrite.supersedePrior (w : FactWrite) (table : FactTable) : FactTable :=
  supersedePriorFacts text w.contention w.now (w.triple text) w.rowId
    (some w.effectiveSourceType) table

def insertFact (w : FactWrite) (table : FactTable) : FactTable :=
  let (collapsed, collapsedInto) :=
    collapseOpenTriple text (w.triple text) w.rowId (w.reassertion text)
      (w.supersedePrior text table)
  match w.supersedeRole text (collapsedInto.getD w.rowId) collapsed with
  | none => collapsed
  | some closed =>
    match collapsedInto with
    | some _ => closed
    | none =>
      insertRow text w.rowId (w.row text)
        (fun row => some (upsertSet (w.row text) row w.now)) closed

def IngestionWrite.supersedePrior (w : IngestionWrite) (table : FactTable) :
    FactTable :=
  supersedePriorFacts text w.contention w.now w.toTriple w.factId (some "ingestion") table

def IngestionWrite.upsert (w : IngestionWrite) (row : FactRow) : Option FactRow :=
  if unionRefs row.derivedFrom w.derivedFrom = [] then none
  else some (ingestionUpsertSet w.sourceId (w.row text) row w.now)

/-- A fact without an event time is refused before the first statement, and a
refresh which would leave no lineage by the column's `NOT NULL`. -/
def insertIngestionFact (w : IngestionWrite) (table : FactTable) : FactTable :=
  if w.validFrom.isNone then table
  else
    let superseded := w.supersedePrior text table
    match openTriple text w.toTriple none superseded with
    | some found =>
      if unionRefs found.2.derivedFrom w.derivedFrom = [] then superseded
      else
        superseded.update found.1 (ingestionRefreshSet (w.reassertion text) w.sourceId)
    | none => insertRow text w.factId (w.row text) (w.upsert text) superseded

def writeStep (table : FactTable) : Write → Option FactTable
  | .fact w => some (insertFact text w table)
  | .ingestion w => some (insertIngestionFact text w table)

end

variable {text : TextFns}

variable {w : IngestionWrite} {table : FactTable} {found : Uuid × FactRow}

theorem insertFact_of_open {w : FactWrite}
    (hfound : openTriple text (w.triple text) (some w.rowId)
      (w.supersedePrior text table) = some found) :
    insertFact text w table =
      (w.supersedeRole text found.1
          ((w.supersedePrior text table).update found.1
            (collapseSet (w.reassertion text)))).getD
        ((w.supersedePrior text table).update found.1
          (collapseSet (w.reassertion text))) := by
  unfold insertFact collapseOpenTriple
  simp only [hfound, Option.getD_some]
  cases w.supersedeRole text found.1 _ with
  | none => rfl
  | some closed => rfl

theorem insertFact_of_refused {w : FactWrite}
    (hnone : openTriple text (w.triple text) (some w.rowId) (w.supersedePrior text table) = none)
    (hrole : w.supersedeRole text w.rowId (w.supersedePrior text table) = none) :
    insertFact text w table = w.supersedePrior text table := by
  unfold insertFact collapseOpenTriple
  simp only [hnone, Option.getD_none, hrole]

theorem insertFact_of_new {w : FactWrite} {closed : FactTable}
    (hnone : openTriple text (w.triple text) (some w.rowId) (w.supersedePrior text table) = none)
    (hrole : w.supersedeRole text w.rowId (w.supersedePrior text table) = some closed) :
    insertFact text w table =
      insertRow text w.rowId (w.row text)
        (fun row => some (upsertSet (w.row text) row w.now)) closed := by
  unfold insertFact collapseOpenTriple
  simp only [hnone, Option.getD_none, hrole]

theorem insertIngestionFact_of_noTime (htime : w.validFrom = none)
    (table : FactTable) : insertIngestionFact text w table = table := by
  unfold insertIngestionFact
  simp [htime]

theorem insertIngestionFact_of_open (htime : w.validFrom ≠ none)
    (hfound : openTriple text w.toTriple none (w.supersedePrior text table) = some found) :
    insertIngestionFact text w table =
      if unionRefs found.2.derivedFrom w.derivedFrom = [] then
        w.supersedePrior text table
      else
        (w.supersedePrior text table).update found.1
          (ingestionRefreshSet (w.reassertion text) w.sourceId) := by
  unfold insertIngestionFact
  simp [htime, hfound]

theorem insertIngestionFact_of_new (htime : w.validFrom ≠ none)
    (hnone : openTriple text w.toTriple none (w.supersedePrior text table) = none) :
    insertIngestionFact text w table =
      insertRow text w.factId (w.row text) (w.upsert text) (w.supersedePrior text table) := by
  unfold insertIngestionFact
  simp [htime, hnone]

def capitalWrite (rowId : Uuid) (value sourceType : String) (now : Datetime) : FactWrite where
  rowId := rowId
  subject := "utopia"
  predicate := "capital"
  value := value
  confidence := 1 / 2
  payloadSourceType := "agent"
  validFrom := none
  validUntil := none
  data := []
  derivedFrom := []
  sourceType := some sourceType
  seedBatchId := none
  originClass := none
  backed := none
  contention := false
  now := now

end Legba.Facts
