import Legba.FactWrites

/-!
# Nexuses and their mirror in the edge store

A nexus is a signed relation between two names, possibly through a third one.
`_insert_nexus` writes it to `nexuses` and, in the same transaction, to
`entity_edges`, which is keyed by the entities the names resolve to.  Both
tables keep one open row per key: a write closes the open rows of its key with
another value, and then refreshes the open row of its key or inserts one.

The resolution of names is a parameter.
-/

namespace Legba.Nexus

open Facts (normalizePredicate unionRefs)
open KeyedTable

/-- The case mappings are those of the facts.  `btrim` is the function of the
database, `spaceCamel` puts a blank at every boundary of a camel-case word, and
`collapseSeparators` makes each run of separators one blank and strips the
result. -/
structure TextFns extends Facts.TextFns where
  btrim : String → String
  spaceCamel : String → String
  collapseSeparators : String → String

inductive Polarity where
  | antagonistic
  | neutral
  | supportive
  deriving DecidableEq, Repr

inductive EdgeFamily where
  | relation
  | reference
  | cooccurrence
  | structural
  deriving DecidableEq, Repr

inductive Outcome where
  | written
  | srcUnresolved
  | dstUnresolved
  | ambiguous
  | selfEdge
  deriving DecidableEq, Repr

structure NexusRow where
  subject : String
  intermediary : Option String
  object : String
  relType : String
  label : String
  polarity : Polarity
  confidence : ℚ
  validFrom : Option Datetime
  validUntil : Option Datetime
  supersededBy : Option Uuid
  derivedFrom : List Uuid
  sourceSignalIds : List Uuid

structure EdgeRow where
  srcId : Uuid
  dstId : Uuid
  intermediaryId : Option Uuid
  edgeType : String
  edgeFamily : EdgeFamily
  polarity : Polarity
  confidence : ℚ
  validFrom : Option Datetime
  validUntil : Option Datetime
  supersededBy : Option Uuid
  observedCount : ℕ
  firstSeenAt : Datetime
  lastSeenAt : Datetime
  derivedFrom : List Uuid
  sourceSignalIds : List Uuid

structure ParkedPair where
  srcText : String
  dstText : String
  edgeType : String
  edgeFamily : EdgeFamily
  reason : Outcome
  srcMatches : ℕ
  dstMatches : ℕ

structure Store where
  nexuses : Table Uuid NexusRow
  edges : Table Uuid EdgeRow
  parked : Table (String × String × String) ParkedPair

def Store.empty : Store := ⟨Table.empty, Table.empty, Table.empty⟩

def NexusRow.isOpen (row : NexusRow) : Bool :=
  row.validUntil.isNone && row.supersededBy.isNone

def EdgeRow.isOpen (row : EdgeRow) : Bool :=
  row.validUntil.isNone && row.supersededBy.isNone

def nilUuid : Uuid := 0

/-- The arguments of `_insert_nexus`, with the identifier drawn for the edge
and the clock. -/
structure NexusWrite where
  rowId : Uuid
  edgeId : Uuid
  subject : String
  intermediary : Option String
  object : String
  relType : String
  label : String
  polarity : Polarity
  confidence : ℚ
  validFrom : Option Datetime
  validUntil : Option Datetime
  payloadSourceType : String
  sourceType : Option String
  analystId : Option String
  derivedFrom : List Uuid
  sourceSignalIds : List Uuid
  payloadSignalIds : List Uuid
  producedAt : Datetime
  now : Datetime

section

variable (text : TextFns)

def canonicalRelType (relType : String) : String :=
  if relType = "" ∨ text.strip relType = "" then relType
  else
    let spaced := text.collapseSeparators (text.spaceCamel relType)
    let mappedSpaced := normalizePredicate text.toTextFns spaced
    if mappedSpaced ≠ spaced then mappedSpaced
    else
      let tight := String.ofList (spaced.toList.filter (· ≠ ' '))
      let mappedTight := normalizePredicate text.toTextFns tight
      if mappedTight ≠ tight then mappedTight
      else text.casefold spaced

def coOccurrenceRelType : String := "co occurs with"

def referenceSourceTypes : List String := ["seed", "manual"]

def edgeFamilyFor (sourceType analystId : Option String) (relType : String) :
    EdgeFamily :=
  let sourceType := text.lowercase (text.strip (sourceType.getD ""))
  let analystId := text.lowercase (text.strip (analystId.getD ""))
  if sourceType ∈ referenceSourceTypes ∨ "seed.".toList.isPrefixOf analystId.toList then .reference
  else if text.lowercase (text.strip relType) = coOccurrenceRelType then
    .cooccurrence
  else .relation

def appendDerivedFrom (existing newIds : List Uuid) : List Uuid :=
  (existing ++ newIds).eraseDups

def NexusWrite.canonicalType (w : NexusWrite) : String :=
  canonicalRelType text w.relType

def NexusWrite.effectiveSourceType (w : NexusWrite) : String :=
  match w.sourceType with
  | none => w.payloadSourceType
  | some sourceType =>
    if sourceType = "" then w.payloadSourceType else sourceType

def NexusWrite.lineageUnion (w : NexusWrite) : List Uuid :=
  appendDerivedFrom w.derivedFrom (w.sourceSignalIds ++ w.payloadSignalIds)

def NexusWrite.signalUnion (w : NexusWrite) : List Uuid :=
  appendDerivedFrom w.sourceSignalIds (w.payloadSignalIds ++ w.derivedFrom)

def NexusWrite.row (w : NexusWrite) : NexusRow where
  subject := w.subject
  intermediary := w.intermediary
  object := w.object
  relType := w.canonicalType text
  label := w.label
  polarity := w.polarity
  confidence := w.confidence
  validFrom := w.validFrom
  validUntil := w.validUntil
  supersededBy := none
  derivedFrom := w.lineageUnion
  sourceSignalIds := w.signalUnion

structure Ends where
  srcId : Uuid
  dstId : Uuid
  intermediaryId : Option Uuid

def NexusWrite.edgeFamily (w : NexusWrite) : EdgeFamily :=
  edgeFamilyFor text (some w.effectiveSourceType) w.analystId (w.canonicalType text)

def NexusWrite.edge (w : NexusWrite) (ends : Ends) : EdgeRow where
  srcId := ends.srcId
  dstId := ends.dstId
  intermediaryId := ends.intermediaryId
  edgeType := w.canonicalType text
  edgeFamily := w.edgeFamily text
  polarity := w.polarity
  confidence := w.confidence
  validFrom := w.validFrom
  validUntil := w.validUntil
  supersededBy := none
  observedCount := 1
  firstSeenAt := w.producedAt
  lastSeenAt := w.producedAt
  derivedFrom := w.lineageUnion
  sourceSignalIds := w.signalUnion

def sameNexus (left right : NexusRow) : Bool :=
  decide (text.lower left.subject = text.lower right.subject) &&
    decide (text.lower (left.intermediary.getD "") = text.lower (right.intermediary.getD "")) &&
    decide (text.lower left.object = text.lower right.object) &&
    decide (text.lower left.relType = text.lower right.relType)

/-- The rows `supersede_prior_nexuses` closes. -/
def supersedes (incoming : NexusRow) (newId key : Uuid) (row : NexusRow) :
    Bool :=
  sameNexus text row incoming &&
    (decide (row.polarity ≠ incoming.polarity) ||
      decide (text.lower row.label ≠ text.lower incoming.label)) &&
    row.isOpen && decide (key ≠ newId)

def supersedePriorNexuses (now : Datetime) (incoming : NexusRow)
    (newId : Uuid) (nexuses : Table Uuid NexusRow) : Table Uuid NexusRow :=
  nexuses.updateMatching (supersedes text incoming newId) fun row =>
    { row with validUntil := some now, supersededBy := some newId }

def nexusConflicts (incoming : NexusRow) (_ : Uuid) (row : NexusRow) : Bool :=
  incoming.isOpen && row.isOpen && sameNexus text row incoming

def coalesce (first second : Option Datetime) : Option Datetime :=
  first.or second

def refreshNexus (excluded row : NexusRow) : NexusRow :=
  { row with
    confidence := max row.confidence excluded.confidence
    derivedFrom := unionRefs row.derivedFrom excluded.derivedFrom
    sourceSignalIds := unionRefs row.sourceSignalIds excluded.sourceSignalIds
    validUntil := coalesce excluded.validUntil row.validUntil }

/-- `none` where the primary key refuses the row. -/
def upsertNexus (id : Uuid) (row : NexusRow) (nexuses : Table Uuid NexusRow) :
    Option (Table Uuid NexusRow) :=
  match nexuses.selectFirst (nexusConflicts text row) with
  | some found => some (nexuses.update found.1 (refreshNexus row))
  | none =>
    if (nexuses.row? id).isSome then none else some (nexuses.put id row)

variable (terminals : String → List Uuid)

def resolveSlot (name : String) : ℕ × Option Uuid :=
  if text.btrim name = "" then (0, none)
  else
    let ids := unionRefs (terminals (text.lower (text.btrim name))) []
    (ids.length, ids.head?)

def resolvedEntity? (name : String) : Option Uuid :=
  let slot := resolveSlot text terminals name
  if slot.1 = 1 then slot.2 else none

def NexusWrite.ends (w : NexusWrite) : Except Outcome Ends :=
  let src := resolveSlot text terminals w.subject
  let dst := resolveSlot text terminals w.object
  if 1 < src.1 ∨ 1 < dst.1 then .error .ambiguous
  else
    match src.2, dst.2 with
    | none, _ => .error .srcUnresolved
    | some _, none => .error .dstUnresolved
    | some srcId, some dstId =>
      if srcId = dstId then .error .selfEdge
      else .ok ⟨srcId, dstId, w.intermediary.bind (resolvedEntity? text terminals)⟩

def parkReasons : List Outcome := [.srcUnresolved, .dstUnresolved, .ambiguous]

def NexusWrite.park (w : NexusWrite) (reason : Outcome)
    (parked : Table (String × String × String) ParkedPair) :
    Table (String × String × String) ParkedPair :=
  let edgeType := w.canonicalType text
  let key := (text.lower w.subject, text.lower w.object, text.lower edgeType)
  let srcMatches := (resolveSlot text terminals w.subject).1
  let dstMatches := (resolveSlot text terminals w.object).1
  match parked.row? key with
  | some row =>
    parked.put key
      { row with
        reason := reason
        srcMatches := srcMatches
        dstMatches := dstMatches }
  | none =>
    parked.put key ⟨w.subject, w.object, edgeType, w.edgeFamily text,
      reason, srcMatches, dstMatches⟩

/-- The rows `close_prior_entity_edges` closes. -/
def closesEdge (incoming : EdgeRow) (_ : Uuid) (row : EdgeRow) : Bool :=
  decide (row.srcId = incoming.srcId) &&
    decide (row.dstId = incoming.dstId) &&
    decide (row.intermediaryId.getD nilUuid = incoming.intermediaryId.getD nilUuid) &&
    decide (text.lower row.edgeType = text.lower incoming.edgeType) &&
    decide (row.polarity ≠ incoming.polarity) && row.isOpen

def closePriorEntityEdges (now : Datetime) (incoming : EdgeRow)
    (edges : Table Uuid EdgeRow) : Table Uuid EdgeRow × List Uuid :=
  (edges.updateMatching (closesEdge text incoming) fun row =>
      { row with validUntil := some now },
    (edges.selectMatching (closesEdge text incoming)).map Prod.fst)

def edgeConflicts (incoming : EdgeRow) (_ : Uuid) (row : EdgeRow) : Bool :=
  incoming.isOpen && row.isOpen && decide (row.srcId = incoming.srcId) &&
    decide (row.dstId = incoming.dstId) &&
    decide (row.edgeType = incoming.edgeType) &&
    decide (row.intermediaryId.getD nilUuid = incoming.intermediaryId.getD nilUuid)

def refreshEdge (excluded row : EdgeRow) : EdgeRow :=
  { row with
    confidence := max row.confidence excluded.confidence
    observedCount := row.observedCount + 1
    lastSeenAt := max row.lastSeenAt excluded.lastSeenAt
    sourceSignalIds := unionRefs row.sourceSignalIds excluded.sourceSignalIds
    derivedFrom := unionRefs row.derivedFrom excluded.derivedFrom
    validUntil := coalesce excluded.validUntil row.validUntil }

def upsertEdge (id : Uuid) (row : EdgeRow) (edges : Table Uuid EdgeRow) :
    Option (Table Uuid EdgeRow × Uuid) :=
  match edges.selectFirst (edgeConflicts row) with
  | some found => some (edges.update found.1 (refreshEdge row), found.1)
  | none =>
    if (edges.row? id).isSome then none else some (edges.put id row, id)

def linkEdges (closed : List Uuid) (landed : Uuid)
    (edges : Table Uuid EdgeRow) : Table Uuid EdgeRow :=
  edges.updateMatching
    (fun key _ => decide (key ∈ closed) && decide (key ≠ landed))
    fun row => { row with supersededBy := some landed }

def mirrorEdge (now : Datetime) (id : Uuid) (row : EdgeRow)
    (edges : Table Uuid EdgeRow) : Option (Table Uuid EdgeRow) := do
  let (closedEdges, closed) := closePriorEntityEdges text now row edges
  let (upserted, landed) ← upsertEdge id row closedEdges
  return linkEdges closed landed upserted

def writeEntityEdgeForNexus (w : NexusWrite) (store : Store) : Option (Store × Outcome) :=
  match w.ends text terminals with
  | .error outcome =>
    if outcome ∈ parkReasons then
      some ({ store with
        parked := w.park text terminals outcome store.parked }, outcome)
    else some (store, outcome)
  | .ok ends =>
    (mirrorEdge text w.now w.edgeId (w.edge text ends) store.edges).map
      fun edges => ({ store with edges := edges }, .written)

/-- `none` where a statement of the transaction fails. -/
def insertNexus (w : NexusWrite) (store : Store) : Option Store := do
  let (mirrored, _) ← writeEntityEdgeForNexus text terminals w store
  let superseded := supersedePriorNexuses text w.now (w.row text) w.rowId mirrored.nexuses
  let nexuses ← upsertNexus text w.rowId (w.row text) superseded
  return { mirrored with nexuses := nexuses }

def writeStep (store : Store) (w : NexusWrite) : Option Store :=
  some ((insertNexus text terminals w store).getD store)

end

end Legba.Nexus
