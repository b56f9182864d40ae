import Legba.FactTable
import Legba.LabelledRun

/-!
# Compaction of merged entities

A merge sets `merged_into` on the loser.  `_compact_merged_edges` then re-points
the open nexuses, the open live facts and the proposed edges which carry the
loser's name to the name of the terminal keeper.  The three tables name
entities by text, so the sweep goes by name alone.  `lower` is the case folding
of names, in the statements and in the code.
-/

namespace Legba.EntityGc

open KeyedTable Option Table List

structure ProfileRow where
  canonicalName : String
  entityClass : String
  mergedInto : Option Uuid
  compactedAt : Option Datetime
  deriving DecidableEq, Repr

structure NexusRow where
  subject : String
  object : String
  intermediary : Option String
  relType : String
  validUntil : Option Datetime
  supersededBy : Option Uuid
  deriving DecidableEq, Repr

structure FactRow where
  subject : String
  predicate : String
  value : Option String
  validFrom : Option Datetime
  validUntil : Option Datetime
  supersededBy : Option Uuid
  originClass : Facts.OriginClass
  deriving DecidableEq, Repr

structure ProposedEdgeRow where
  sourceEntity : String
  targetEntity : String
  relationshipType : String
  status : String
  confidence : ℚ
  evidenceText : String
  derivedFrom : List Uuid
  deriving DecidableEq, Repr

structure EdgeTables where
  profiles : Table Uuid ProfileRow
  nexuses : Table Uuid NexusRow
  facts : Table Uuid FactRow
  proposedEdges : Table Uuid ProposedEdgeRow

section

variable (lower : String → String) (now : Datetime) (loser keeper : String)

def hasName (name : String) : Bool := lower name = lower loser

def renamed (name : String) : String :=
  if hasName lower loser name then keeper else name

def NexusRow.isOpen (row : NexusRow) : Bool :=
  row.validUntil.isNone && row.supersededBy.isNone

def namesNexus (_ : Uuid) (row : NexusRow) : Bool :=
  row.isOpen && (hasName lower loser row.subject ||
    hasName lower loser row.object ||
    hasName lower loser (row.intermediary.getD ""))

def repointedNexus (row : NexusRow) : NexusRow :=
  { row with
    subject := renamed lower loser keeper row.subject
    object := renamed lower loser keeper row.object
    intermediary :=
      if hasName lower loser (row.intermediary.getD "") then some keeper
      else row.intermediary }

def isSelfLoop (left right : String) : Bool :=
  left ≠ "" ∧ right ≠ "" ∧ lower left = lower right

def collidesNexus (id : Uuid) (wanted : NexusRow) (key : Uuid) (row : NexusRow) : Bool :=
  row.isOpen ∧ key ≠ id ∧ lower row.subject = lower wanted.subject ∧
    lower (row.intermediary.getD "") = lower (wanted.intermediary.getD "") ∧
    lower row.object = lower wanted.object ∧
    lower row.relType = lower wanted.relType

def repointNexus (nexuses : Table Uuid NexusRow) (fetched : Uuid × NexusRow) :
    Table Uuid NexusRow :=
  let wanted := repointedNexus lower loser keeper fetched.2
  if isSelfLoop lower wanted.subject wanted.object then
    nexuses.update fetched.1 fun row => { row with validUntil := some now }
  else
    match nexuses.selectFirst (collidesNexus lower fetched.1 wanted) with
    | some survivor =>
      nexuses.update fetched.1 fun row =>
        { row with validUntil := some now, supersededBy := some survivor.1 }
    | none =>
      nexuses.update fetched.1 fun row =>
        { row with
          subject := wanted.subject
          object := wanted.object
          intermediary := wanted.intermediary }

def repointNexuses (nexuses : Table Uuid NexusRow) : Table Uuid NexusRow × ℕ :=
  let fetched := nexuses.selectMatching (namesNexus lower loser)
  (fetched.foldl (repointNexus lower now loser keeper) nexuses, fetched.length)

def FactRow.isOpenLive (row : FactRow) : Bool :=
  row.validUntil.isNone && row.supersededBy.isNone && Facts.liveClasses.contains row.originClass

def namesFact (_ : Uuid) (row : FactRow) : Bool :=
  row.isOpenLive && hasName lower loser row.subject

def collidesFact (id : Uuid) (wanted : FactRow) (key : Uuid) (row : FactRow) :
    Bool :=
  row.isOpenLive ∧ key ≠ id ∧ lower row.subject = lower keeper ∧
    lower row.predicate = lower wanted.predicate ∧
    lower (row.value.getD "") = lower (wanted.value.getD "") ∧
    row.validFrom.getD 0 = wanted.validFrom.getD 0

def repointFact (facts : Table Uuid FactRow) (fetched : Uuid × FactRow) : Table Uuid FactRow :=
  match facts.selectFirst (collidesFact lower keeper fetched.1 fetched.2) with
  | some survivor =>
    facts.update fetched.1 fun row =>
      { row with validUntil := some now, supersededBy := some survivor.1 }
  | none => facts.update fetched.1 fun row => { row with subject := keeper }

def repointFacts (facts : Table Uuid FactRow) : Table Uuid FactRow × ℕ :=
  let fetched := facts.selectMatching (namesFact lower loser)
  (fetched.foldl (repointFact lower now keeper) facts, fetched.length)

def proposedEdgeMergedStatus : String := "merged"

def namesProposedEdge (_ : Uuid) (row : ProposedEdgeRow) : Bool :=
  hasName lower loser row.sourceEntity || hasName lower loser row.targetEntity

def collidesProposedEdge (id : Uuid) (source target relationshipType : String)
    (key : Uuid) (row : ProposedEdgeRow) : Bool :=
  lower row.sourceEntity = lower source ∧
    lower row.targetEntity = lower target ∧
    row.relationshipType = relationshipType ∧ key ≠ id

def foldedOnto (row survivor : ProposedEdgeRow) : ProposedEdgeRow :=
  { survivor with
    confidence := max survivor.confidence row.confidence
    derivedFrom := (survivor.derivedFrom ++ row.derivedFrom).dedup.insertionSort (· ≤ ·)
    evidenceText :=
      if survivor.evidenceText = "" then row.evidenceText
      else survivor.evidenceText
    status :=
      if survivor.status = "pending" ∨ row.status = "pending" then "pending"
      else survivor.status }

def repointProposedEdge (edges : Table Uuid ProposedEdgeRow)
    (fetched : Uuid × ProposedEdgeRow) : Table Uuid ProposedEdgeRow :=
  let source := renamed lower loser keeper fetched.2.sourceEntity
  let target := renamed lower loser keeper fetched.2.targetEntity
  if isSelfLoop lower source target then
    edges.update fetched.1 fun row =>
      if row.status ≠ "rejected" then { row with status := "rejected" }
      else row
  else
    match edges.selectFirst (collidesProposedEdge lower fetched.1 source target
      fetched.2.relationshipType) with
    | some survivor =>
      (edges.update survivor.1 (foldedOnto fetched.2)).update fetched.1
        fun row => { row with status := proposedEdgeMergedStatus }
    | none =>
      edges.update fetched.1 fun row => { row with sourceEntity := source, targetEntity := target }

def repointProposedEdges (edges : Table Uuid ProposedEdgeRow) : Table Uuid ProposedEdgeRow × ℕ :=
  let fetched := edges.selectMatching (namesProposedEdge lower loser)
  (fetched.foldl (repointProposedEdge lower loser keeper) edges, fetched.length)

end

/-- The redirects followed from a row which is there: at most `fuel` of them,
and none to a row already on the path. -/
def chase (profiles : Table Uuid ProfileRow) : ℕ → List Uuid → Uuid → Uuid
  | 0, _, id => id
  | fuel + 1, path, id =>
    match (profiles.row? id).bind (·.mergedInto) with
    | none => id
    | some next =>
      if (profiles.row? next).isNone || path.contains next then id
      else chase profiles fuel (next :: path) next

def resolveEntity (profiles : Table Uuid ProfileRow) (id : Uuid) : Uuid :=
  chase profiles 16 [id] id

structure Turn where
  id : Uuid
  loser : String
  keeperId : Uuid
  keeper : String
  deriving DecidableEq, Repr

def dueTurn (profiles : Table Uuid ProfileRow) (id : Uuid) : Option Turn :=
  match profiles.row? id with
  | none => none
  | some row =>
    match row.mergedInto with
    | none => none
    | some parent =>
      let keeperId := resolveEntity profiles parent
      match profiles.row? keeperId with
      | none => none
      | some kept =>
        if kept.mergedInto.isNone && row.compactedAt.isNone then
          some ⟨id, row.canonicalName, keeperId, kept.canonicalName⟩
        else none

/-- What one compaction meets: its instant, the order in which the database
reads the profiles, the batch limit and the losers whose transaction fails. -/
structure Sweep where
  now : Datetime
  readOrder : List Uuid
  batchLimit : ℕ
  fails : Uuid → Bool

def dueTurns (profiles : Table Uuid ProfileRow) (sweep : Sweep) : List Turn :=
  (sweep.readOrder.filterMap (dueTurn profiles)).take sweep.batchLimit

def markCompacted (now : Datetime) (profiles : Table Uuid ProfileRow)
    (id : Uuid) : Table Uuid ProfileRow :=
  profiles.update id fun row => { row with compactedAt := some now }

def Turn.moves (lower : String → String) (turn : Turn) : Bool :=
  turn.loser ≠ "" ∧ turn.keeper ≠ "" ∧ lower turn.loser ≠ lower turn.keeper

def compactOne (lower : String → String) (sweep : Sweep)
    (tables : EdgeTables) (turn : Turn) : EdgeTables × ℕ :=
  if sweep.fails turn.id then (tables, 0)
  else
    let profiles := markCompacted sweep.now tables.profiles turn.id
    if turn.moves lower then
      let nexuses := repointNexuses lower sweep.now turn.loser turn.keeper tables.nexuses
      let facts := repointFacts lower sweep.now turn.loser turn.keeper tables.facts
      let edges := repointProposedEdges lower turn.loser turn.keeper tables.proposedEdges
      (⟨profiles, nexuses.1, facts.1, edges.1⟩,
        nexuses.2 + facts.2 + edges.2)
    else ({ tables with profiles := profiles }, 0)

def compactStep (lower : String → String) (sweep : Sweep)
    (tables : EdgeTables) (turn : Turn) : Option EdgeTables :=
  some (compactOne lower sweep tables turn).1

def compactMergedEdges (lower : String → String) (sweep : Sweep)
    (tables : EdgeTables) : EdgeTables × ℕ :=
  (dueTurns tables.profiles sweep).foldl
    (fun done turn =>
      let next := compactOne lower sweep done.1 turn
      (next.1, done.2 + next.2))
    (tables, 0)

/-! ## Sweeps which touch one row at a time -/

section

variable {Row : Type*} {step : Table Uuid Row → Uuid × Row → Table Uuid Row}
  (hframe : ∀ table fetched key, key ≠ fetched.1 → (step table fetched).row? key = table.row? key)

include hframe

theorem foldl_row?_of_notMem {key : Uuid} (fetched : List (Uuid × Row))
    (hkey : key ∉ fetched.map Prod.fst) (table : Table Uuid Row) :
    (fetched.foldl step table).row? key = table.row? key := by
  induction fetched generalizing table with
  | nil => rfl
  | cons head rest ih =>
    rw [map_cons, mem_cons, not_or] at hkey
    rw [foldl_cons, ih hkey.2]
    exact hframe table head key hkey.1

theorem foldl_keeps_iff_nil {table : Table Uuid Row}
    {fetched : List (Uuid × Row)} (hkeys : (fetched.map Prod.fst).Nodup)
    (hchange : ∀ entry ∈ fetched, (step table entry).row? entry.1 ≠ some entry.2) :
    (∀ entry ∈ fetched, (fetched.foldl step table).row? entry.1 = some entry.2) ↔ fetched = [] := by
  constructor
  · intro hkeeps
    cases fetched with
    | nil => rfl
    | cons head rest =>
      rw [map_cons, nodup_cons] at hkeys
      have hhead := hkeeps head mem_cons_self
      rw [foldl_cons, foldl_row?_of_notMem hframe rest hkeys.1] at hhead
      exact absurd hhead (hchange head mem_cons_self)
  · intro hnil
    simp [hnil]

end

section

variable {lower : String → String} {now : Datetime} {loser keeper : String}

theorem hasName_iff {name : String} :
    hasName lower loser name = true ↔ lower name = lower loser := by
  simp [hasName]

theorem ne_keeper (hne : lower loser ≠ lower keeper) {name : String}
    (hname : hasName lower loser name) : keeper ≠ name := by
  intro heq
  subst heq
  exact hne (hasName_iff.mp hname).symm

theorem hasName_renamed (hne : lower loser ≠ lower keeper) (name : String) :
    hasName lower loser (renamed lower loser keeper name) = false := by
  unfold renamed
  by_cases hname : hasName lower loser name = true
  · rw [if_pos hname]
    simpa [hasName] using hne.symm
  · rw [if_neg hname]
    simpa using hname

theorem repointNexus_row?_of_ne (nexuses : Table Uuid NexusRow)
    (fetched : Uuid × NexusRow) (key : Uuid) (hkey : key ≠ fetched.1) :
    (repointNexus lower now loser keeper nexuses fetched).row? key = nexuses.row? key := by
  unfold repointNexus
  dsimp only
  split
  · exact row?_update_of_ne _ hkey _
  · split
    · exact row?_update_of_ne _ hkey _
    · exact row?_update_of_ne _ hkey _

theorem repointedNexus_ne (hne : lower loser ≠ lower keeper) {id : Uuid} {row : NexusRow}
    (hnames : namesNexus lower loser id row) : repointedNexus lower loser keeper row ≠ row := by
  intro heq
  obtain ⟨hsubject, hobject, hintermediary⟩ :
      renamed lower loser keeper row.subject = row.subject ∧
      renamed lower loser keeper row.object = row.object ∧
      (if hasName lower loser (row.intermediary.getD "") then some keeper
        else row.intermediary) = row.intermediary := by
    cases row
    simpa [repointedNexus] using heq
  unfold namesNexus at hnames
  rw [Bool.and_eq_true, Bool.or_eq_true, Bool.or_eq_true] at hnames
  rcases hnames.2 with (hname | hname) | hname
  · rw [renamed, if_pos hname] at hsubject
    exact ne_keeper hne hname hsubject
  · rw [renamed, if_pos hname] at hobject
    exact ne_keeper hne hname hobject
  · rw [if_pos hname] at hintermediary
    rw [← hintermediary] at hname
    exact ne_keeper hne hname rfl

theorem namesNexus_open {id : Uuid} {row : NexusRow}
    (hnames : namesNexus lower loser id row) : row.validUntil = none := by
  unfold namesNexus NexusRow.isOpen at hnames
  simp only [Bool.and_eq_true, isNone_iff_eq_none] at hnames
  exact hnames.1.1

theorem repointNexus_changes (hne : lower loser ≠ lower keeper) {nexuses : Table Uuid NexusRow}
    {entry : Uuid × NexusRow} (hrow : nexuses.row? entry.1 = some entry.2)
    (hnames : namesNexus lower loser entry.1 entry.2) :
    (repointNexus lower now loser keeper nexuses entry).row? entry.1 ≠ some entry.2 := by
  have hopen := namesNexus_open hnames
  unfold repointNexus
  dsimp only
  split
  · intro hkept
    rw [row?_update_self, hrow, map_some, some.injEq] at hkept
    have huntil := congrArg NexusRow.validUntil hkept
    rw [hopen] at huntil
    exact some_ne_none now huntil
  · split
    · intro hkept
      rw [row?_update_self, hrow, map_some, some.injEq] at hkept
      have huntil := congrArg NexusRow.validUntil hkept
      rw [hopen] at huntil
      exact some_ne_none now huntil
    · intro hkept
      rw [row?_update_self, hrow, map_some, some.injEq] at hkept
      exact repointedNexus_ne hne hnames hkept

theorem repointFact_row?_of_ne (facts : Table Uuid FactRow)
    (fetched : Uuid × FactRow) (key : Uuid) (hkey : key ≠ fetched.1) :
    (repointFact lower now keeper facts fetched).row? key = facts.row? key := by
  unfold repointFact
  split
  · exact row?_update_of_ne _ hkey _
  · exact row?_update_of_ne _ hkey _

theorem repointFact_changes (hne : lower loser ≠ lower keeper) {facts : Table Uuid FactRow}
    {entry : Uuid × FactRow} (hrow : facts.row? entry.1 = some entry.2)
    (hnames : namesFact lower loser entry.1 entry.2) :
    (repointFact lower now keeper facts entry).row? entry.1 ≠ some entry.2 := by
  unfold namesFact FactRow.isOpenLive at hnames
  simp only [Bool.and_eq_true, isNone_iff_eq_none] at hnames
  obtain ⟨⟨⟨hopen, _⟩, _⟩, hname⟩ := hnames
  unfold repointFact
  split
  · intro hkept
    rw [row?_update_self, hrow, map_some, some.injEq] at hkept
    have huntil := congrArg FactRow.validUntil hkept
    rw [hopen] at huntil
    exact some_ne_none now huntil
  · intro hkept
    rw [row?_update_self, hrow, map_some, some.injEq] at hkept
    exact ne_keeper hne hname (congrArg FactRow.subject hkept)

end

end Legba.EntityGc
