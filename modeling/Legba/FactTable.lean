import Legba.KeyedTable
import Legba.NoisyOr
import Legba.RowOrder
import Legba.SignalRow
import Mathlib.Data.List.Dedup
import Mathlib.Data.List.Sort

/-!
# The facts table

A fact is a triple `(subject, predicate, value)` with a confidence and the
class of its producer.  A row is open while it has neither an end nor a
successor.  The module has the statements the two fact writers are composed
of: closing the open rows of another value, closing the other holders of an
office, and refreshing the open row of the same triple.

The case mappings of Python and of the database, and the clustering of values,
are parameters.
-/

namespace Legba.Facts

open JsonValue KeyedTable NoisyOr RowOrder Option

/-- `lower` is the function of the database; the other three texts are those
of Python.  `apart` says that two values fall into different clusters. -/
structure TextFns where
  lower : String → String
  strip : String → String
  lowercase : String → String
  casefold : String → String
  apart : String → String → Bool

inductive OriginClass where
  | live
  | webRetrieval
  | seed
  | backfillNative
  | backfillReconstructed
  | archive
  deriving DecidableEq, Repr

def liveClasses : List OriginClass := [.live, .webRetrieval, .seed]

structure Triple where
  subject : String
  predicate : String
  value : String

structure FactRow extends Triple where
  confidence : ℚ
  sourceType : String
  validFrom : Option Datetime
  validUntil : Option Datetime
  supersededBy : Option Uuid
  supersededAt : Option Datetime
  createdAt : Datetime
  updatedAt : Datetime
  data : List (String × Json)
  derivedFrom : List Uuid
  originClass : OriginClass
  sourceCredibility : Option ℚ

abbrev FactTable := Table Uuid FactRow

/-- `valid_until IS NULL AND superseded_by IS NULL`. -/
def FactRow.isOpen (row : FactRow) : Bool :=
  row.validUntil.isNone && row.supersededBy.isNone

def FactRow.isLive (row : FactRow) : Bool :=
  decide (row.originClass ∈ liveClasses)

def sourceTierTable : List (String × ℕ) :=
  [("seed", 2), ("curated", 2), ("ingestion", 1), ("agent", 1)]

def defaultSourceTierRank : ℕ := 1

section

variable (text : TextFns)

def sourceTierRank (sourceType : String) : ℕ :=
  if sourceType = "" then defaultSourceTierRank
  else (sourceTierTable.lookup (text.lowercase (text.strip sourceType))).getD defaultSourceTierRank

/-- The `CASE lower(coalesce(source_type, ''))` of the statements. -/
def sqlTierRank (sourceType : String) : ℕ :=
  (sourceTierTable.lookup (text.lower sourceType)).getD 1

def samePair (left right : Triple) : Bool :=
  decide (text.lower left.subject = text.lower right.subject) &&
    decide (text.lower left.predicate = text.lower right.predicate)

def sameTriple (left right : Triple) : Bool :=
  samePair text left right && decide (text.lower left.value = text.lower right.value)

end

def declaredSourceTypes : List String :=
  ["seed", "curated", "ingestion", "agent"]

structure FixesSourceTypes (text : TextFns) : Prop where
  lower : ∀ name ∈ declaredSourceTypes, text.lower name = name
  strip : ∀ name ∈ declaredSourceTypes, text.strip name = name
  lowercase : ∀ name ∈ declaredSourceTypes, text.lowercase name = name

theorem FixesSourceTypes.rank_eq {text : TextFns} (hfixes : FixesSourceTypes text) {name : String}
    (hname : name ∈ declaredSourceTypes) : sqlTierRank text name = sourceTierRank text name := by
  have hne : name ≠ "" := by
    intro hempty
    rw [hempty] at hname
    exact absurd hname (by decide)
  unfold sqlTierRank sourceTierRank
  rw [if_neg hne, hfixes.lower name hname, hfixes.strip name hname, hfixes.lowercase name hname]
  rfl

def lowerCaseText : TextFns where
  lower := fun s => s
  strip := fun s => s
  lowercase := fun s => s
  casefold := fun s => s
  apart := fun a b => decide (a ≠ b)

theorem fixesSourceTypes_lowerCaseText : FixesSourceTypes lowerCaseText where
  lower := fun _ _ => rfl
  strip := fun _ _ => rfl
  lowercase := fun _ _ => rfl

section

variable (text : TextFns)

def closeRow (newId : Uuid) (now : Datetime) (row : FactRow) : FactRow :=
  { row with
    validUntil := some now
    supersededBy := some newId
    supersededAt := some now
    updatedAt := now }

def priorCandidate (triple : Triple) (newId key : Uuid) (row : FactRow) :
    Bool :=
  samePair text row.toTriple triple &&
    decide (text.lower row.value ≠ text.lower triple.value) &&
    row.isOpen && row.isLive && decide (key ≠ newId)

def incomingRank (incoming : Option String) : Option ℕ :=
  incoming.map (sourceTierRank text)

/-- The decision `_supersede_prior_facts_coexist` makes for one row. -/
def coexistCloses (value : String) (incoming : Option String) (row : FactRow) : Bool :=
  match incomingRank text incoming with
  | none => true
  | some rank =>
    let priorRank := sourceTierRank text row.sourceType
    if rank < priorRank then false
    else if priorRank = rank ∧ text.apart value row.value = true then false
    else true

def supersedePriorFactsCoexist (now : Datetime) (triple : Triple)
    (newId : Uuid) (incoming : Option String) (table : FactTable) :
    FactTable :=
  let rows := table.selectMatching (priorCandidate text triple newId)
  let toClose :=
    (rows.filter fun row => coexistCloses text triple.value incoming row.2).map Prod.fst
  if toClose = [] then table
  else
    table.updateMatching
      (fun key row => decide (key ∈ toClose) && row.isOpen && row.isLive)
      (closeRow newId now)

def guardAllows (incoming : Option String) (row : FactRow) : Bool :=
  match incomingRank text incoming with
  | none => true
  | some rank => decide (sqlTierRank text row.sourceType ≤ rank)

def supersedePriorFacts (contention : Bool) (now : Datetime) (triple : Triple)
    (newId : Uuid) (incoming : Option String) (table : FactTable) :
    FactTable :=
  if contention then
    supersedePriorFactsCoexist text now triple newId incoming table
  else
    table.updateMatching
      (fun key row => priorCandidate text triple newId key row && guardAllows text incoming row)
      (closeRow newId now)

/-- The rows `supersede_prior_facts` closes. -/
def closesPrior (contention : Bool) (triple : Triple) (newId : Uuid)
    (incoming : Option String) (key : Uuid) (row : FactRow) : Bool :=
  priorCandidate text triple newId key row &&
    if contention then coexistCloses text triple.value incoming row
    else guardAllows text incoming row

inductive CountrySide where
  | value
  | subject
  deriving DecidableEq

def functionalRoleCountrySide : List (String × CountrySide) :=
  [("leader of", .value), ("head of state", .subject),
    ("head of government", .subject)]

/-- `data->>'role'`, with `NULL` as the empty text. -/
def FactRow.role (row : FactRow) : String :=
  ((field? row.data "role").bind Json.asText).getD ""

def falsy : Json → Bool
  | .null => true
  | .bool value => !value
  | .number mantissa _ => decide (mantissa = 0)
  | .string value => decide (value = "")
  | .array items => items.isEmpty
  | .object fields => fields.isEmpty

def closesRole (side : CountrySide) (triple : Triple) (role : String)
    (newId : Uuid) (incoming : Option String) (key : Uuid) (row : FactRow) :
    Bool :=
  decide (text.lower row.predicate = triple.predicate) &&
    (match side with
      | .value =>
        decide (text.lower row.value = text.lower triple.value) &&
          decide (text.lower row.subject ≠ text.lower triple.subject) &&
          decide (text.lower row.role = text.lower role)
      | .subject =>
        decide (text.lower row.subject = text.lower triple.subject) &&
          decide (text.lower row.value ≠ text.lower triple.value)) &&
    row.isOpen && row.isLive && decide (key ≠ newId) &&
    guardAllows text incoming row

/-- `none` where the statement is refused, because the role is no text. -/
def supersedePriorFunctionalRoleFacts (now : Datetime) (triple : Triple)
    (role : Option Json) (newId : Uuid) (incoming : Option String)
    (table : FactTable) : Option FactTable :=
  match functionalRoleCountrySide.lookup triple.predicate with
  | none => some table
  | some .subject =>
    some (table.updateMatching
      (closesRole text .subject triple "" newId incoming)
      (closeRow newId now))
  | some .value =>
    match role with
    | none => some table
    | some value =>
      if falsy value then some table
      else
        value.string?.map fun role =>
          table.updateMatching
            (closesRole text .value triple role newId incoming)
            (closeRow newId now)

end

/-! ## Refreshing the open row of a triple -/

structure Reassertion where
  confidence : ℚ
  derivedFrom : List Uuid
  validFrom : Option Datetime
  sourceCredibility : Option ℚ
  now : Datetime

def FactRow.reassertion (excluded : FactRow) (now : Datetime) : Reassertion where
  confidence := excluded.confidence
  derivedFrom := excluded.derivedFrom
  validFrom := excluded.validFrom
  sourceCredibility := excluded.sourceCredibility
  now := now

/-- `LEAST`, which skips `NULL`. -/
def least (left right : Option Datetime) : Option Datetime :=
  match left, right with
  | some a, some b => some (min a b)
  | some a, none => some a
  | none, right => right

/-- `GREATEST`, which skips `NULL`. -/
def greatest (left right : Option ℚ) : Option ℚ :=
  match left, right with
  | some a, some b => some (max a b)
  | some a, none => some a
  | none, right => right

/-- `array_agg(DISTINCT e)` over two arrays. -/
def unionRefs (left right : List Uuid) : List Uuid :=
  (left ++ right).dedup.insertionSort fun a b => a.toNat ≤ b.toNat

/-- The `SET` list of `collapse_open_triple`. -/
def collapseSet (incoming : Reassertion) (row : FactRow) : FactRow :=
  { row with
    confidence := boundedNoisyOr (99 / 100) row.confidence incoming.confidence
    derivedFrom := unionRefs row.derivedFrom incoming.derivedFrom
    validFrom := least row.validFrom incoming.validFrom
    sourceCredibility := greatest row.sourceCredibility incoming.sourceCredibility
    updatedAt := incoming.now }

/-- The `DO UPDATE SET` list of `_insert_fact`. -/
def upsertSet (excluded row : FactRow) (now : Datetime) : FactRow :=
  { row with
    confidence := boundedNoisyOr (99 / 100) row.confidence excluded.confidence
    derivedFrom := unionRefs row.derivedFrom excluded.derivedFrom
    validUntil := excluded.validUntil.or row.validUntil
    sourceCredibility := greatest row.sourceCredibility excluded.sourceCredibility
    updatedAt := now }

/-- `data->'source_ids'`, with `NULL` as the empty array. -/
def sourceIds (data : List (String × Json)) : Json :=
  (field? data "source_ids").getD (.array [])

/-- The operator `?`: the text is a string of the array, a key of the object or
the string itself. -/
def hasText (ledger : Json) (value : String) : Bool :=
  match ledger with
  | .array items => items.any fun item => decide (item.string? = some value)
  | .object fields => (field? fields value).isSome
  | .string found => decide (found = value)
  | _ => false

/-- `ledger || to_jsonb(value)`. -/
def appendText (ledger : Json) (value : String) : Json :=
  match ledger with
  | .array items => .array (items ++ [.string value])
  | other => .array [other, .string value]

def backedBy (data : List (String × Json)) (sourceId : Option String) : Bool :=
  match sourceId with
  | none => false
  | some source => hasText (sourceIds data) source

def ledgerWith (data : List (String × Json)) (sourceId : Option String) : List (String × Json) :=
  match sourceId with
  | none => data
  | some source =>
    if hasText (sourceIds data) source then data
    else setField data "source_ids" (appendText (sourceIds data) source)

def floorCeiling (confidence : ℚ) : ℚ :=
  if confidence ≤ 1 / 2 then 3 / 4 else 99 / 100

/-- The confidence both statements of `_insert_ingestion_fact` store. -/
def ingestionConfidence (sourceId : Option String) (incoming : ℚ) (row : FactRow) : ℚ :=
  if backedBy row.data sourceId then row.confidence
  else
    max row.confidence (boundedNoisyOr (floorCeiling incoming) row.confidence incoming)

/-- The `SET` list of the refresh in `_insert_ingestion_fact`. -/
def ingestionRefreshSet (incoming : Reassertion) (sourceId : Option String)
    (row : FactRow) : FactRow :=
  { row with
    confidence := ingestionConfidence sourceId incoming.confidence row
    data := ledgerWith row.data sourceId
    derivedFrom := unionRefs row.derivedFrom incoming.derivedFrom
    validFrom := least row.validFrom incoming.validFrom
    sourceCredibility := greatest row.sourceCredibility incoming.sourceCredibility
    updatedAt := incoming.now }

/-- The `DO UPDATE SET` list of `_insert_ingestion_fact`. -/
def ingestionUpsertSet (sourceId : Option String) (excluded row : FactRow)
    (now : Datetime) : FactRow :=
  { row with
    confidence := ingestionConfidence sourceId excluded.confidence row
    data := ledgerWith row.data sourceId
    derivedFrom := unionRefs row.derivedFrom excluded.derivedFrom
    sourceCredibility := greatest row.sourceCredibility excluded.sourceCredibility
    updatedAt := now }

/-- `ORDER BY valid_from ASC, created_at ASC`; `NULL` comes last. -/
def earlierOpen (a b : Uuid × FactRow) : Bool :=
  match a.2.validFrom, b.2.validFrom with
  | some x, some y => decide (x < y) || (decide (x = y) && decide (a.2.createdAt < b.2.createdAt))
  | some _, none => true
  | none, some _ => false
  | none, none => decide (a.2.createdAt < b.2.createdAt)

section

variable (text : TextFns)

def openTripleCondition (triple : Triple) (exclude : Option Uuid) (key : Uuid)
    (row : FactRow) : Bool :=
  sameTriple text row.toTriple triple && row.isOpen && row.isLive && decide (exclude ≠ some key)

def openTriple (triple : Triple) (exclude : Option Uuid) (table : FactTable) :
    Option (Uuid × FactRow) :=
  firstBy earlierOpen (table.selectMatching (openTripleCondition text triple exclude))

def collapseOpenTriple (triple : Triple) (newId : Uuid)
    (incoming : Reassertion) (table : FactTable) :
    FactTable × Option Uuid :=
  match openTriple text triple (some newId) table with
  | none => (table, none)
  | some found => (table.update found.1 (collapseSet incoming), some found.1)

end

/-! ## The row a statement leaves -/

section

variable {text : TextFns}

theorem samePair_eq_true {left right : Triple} :
    samePair text left right = true ↔
      text.lower left.subject = text.lower right.subject ∧
        text.lower left.predicate = text.lower right.predicate := by
  simp only [samePair, Bool.and_eq_true, decide_eq_true_eq]

theorem sameTriple_eq_true {left right : Triple} :
    sameTriple text left right = true ↔
      samePair text left right = true ∧ text.lower left.value = text.lower right.value := by
  simp only [sameTriple, Bool.and_eq_true, decide_eq_true_eq]

theorem samePair_comm (left right : Triple) :
    samePair text left right = samePair text right left := by
  rw [Bool.eq_iff_iff, samePair_eq_true, samePair_eq_true, eq_comm,
    @eq_comm _ (text.lower left.predicate)]

theorem sameTriple_comm (left right : Triple) :
    sameTriple text left right = sameTriple text right left := by
  rw [Bool.eq_iff_iff, sameTriple_eq_true, sameTriple_eq_true,
    samePair_comm left right, @eq_comm _ (text.lower left.value)]

variable {triple : Triple} {newId key : Uuid} {incoming : Option String}
  {row : FactRow} {exclude : Option Uuid} {table : FactTable}

theorem closesPrior_eq_true {contention : Bool} :
    closesPrior text contention triple newId incoming key row = true ↔
      priorCandidate text triple newId key row = true ∧
        (if contention then coexistCloses text triple.value incoming row
          else guardAllows text incoming row) = true := by
  unfold closesPrior
  rw [Bool.and_eq_true]

theorem priorCandidate_eq_true :
    priorCandidate text triple newId key row = true ↔
      samePair text row.toTriple triple = true ∧
        text.lower row.value ≠ text.lower triple.value ∧
        row.isOpen = true ∧ row.isLive = true ∧ key ≠ newId := by
  simp only [priorCandidate, Bool.and_eq_true, decide_eq_true_eq, and_assoc]

theorem openTripleCondition_eq_true :
    openTripleCondition text triple exclude key row = true ↔
      sameTriple text row.toTriple triple = true ∧ row.isOpen = true ∧
        row.isLive = true ∧ exclude ≠ some key := by
  simp only [openTripleCondition, Bool.and_eq_true, decide_eq_true_eq, and_assoc]

theorem row?_supersedePriorFacts (contention : Bool) (now : Datetime) (triple : Triple)
    (newId : Uuid) (incoming : Option String) (table : FactTable) (key : Uuid) :
    (supersedePriorFacts text contention now triple newId incoming table).row? key =
      (table.row? key).map fun row =>
        if closesPrior text contention triple newId incoming key row then
          closeRow newId now row
        else row := by
  cases contention with
  | false => rfl
  | true =>
    have hclose : ∀ row, table.row? key = some row →
        (key ∈ (((table.selectMatching
            (priorCandidate text triple newId)).filter fun row =>
              coexistCloses text triple.value incoming row.2).map Prod.fst) ↔
          closesPrior text true triple newId incoming key row = true) := by
      intro row hrow
      rw [closesPrior_eq_true, List.mem_map]
      constructor
      · intro hmem
        obtain ⟨⟨other, found⟩, hfound, heq⟩ := hmem
        obtain ⟨hselected, hcloses⟩ := List.mem_filter.mp hfound
        subst heq
        have hrows := Table.mem_selectMatching.mp hselected
        rw [hrow, some.injEq] at hrows
        rw [hrows.1]
        exact ⟨hrows.2, hcloses⟩
      · intro hcloses
        exact ⟨(key, row), List.mem_filter.mpr
          ⟨Table.mem_selectMatching.mpr ⟨hrow, hcloses.1⟩, hcloses.2⟩, rfl⟩
    unfold supersedePriorFacts supersedePriorFactsCoexist
    simp only [if_true]
    cases hrow : table.row? key with
    | none =>
      split
      · simp [hrow]
      · simp [hrow]
    | some row =>
      have hiff := hclose row hrow
      split
      · rename_i hnone
        rw [hnone] at hiff
        have hkept : ¬closesPrior text true triple newId incoming key
            row = true := fun h => absurd (hiff.mpr h) (by simp)
        rw [hrow, map_some, if_neg hkept]
      · rw [Table.row?_updateMatching, hrow, map_some, map_some]
        by_cases hcloses : closesPrior text true triple newId incoming key row = true
        · have hcandidate := priorCandidate_eq_true.mp (closesPrior_eq_true.mp hcloses).1
          simp [hiff.mpr hcloses, hcloses, hcandidate.2.2.1, hcandidate.2.2.2.1]
        · simp [mt hiff.mp hcloses, hcloses]

/-- The rows `supersede_prior_functional_role_facts` closes. -/
def closesOffice (text : TextFns) (triple : Triple) (role : Option Json)
    (newId : Uuid) (incoming : Option String) (key : Uuid) (row : FactRow) :
    Bool :=
  match functionalRoleCountrySide.lookup triple.predicate with
  | none => false
  | some .subject => closesRole text .subject triple "" newId incoming key row
  | some .value =>
    match role.bind Json.string? with
    | none => false
    | some role => decide (role ≠ "") && closesRole text .value triple role newId incoming key row

theorem row?_supersedeOffice {now : Datetime} {role : Option Json} {next : FactTable}
    (hnext : supersedePriorFunctionalRoleFacts text now triple role newId incoming table = some
      next) (key : Uuid) :
    next.row? key =
      (table.row? key).map fun row =>
        if closesOffice text triple role newId incoming key row then
          closeRow newId now row
        else row := by
  have hsame : table.row? key = (table.row? key).map fun row =>
      if false = true then closeRow newId now row else row := by simp
  unfold supersedePriorFunctionalRoleFacts at hnext
  unfold closesOffice
  cases hside : functionalRoleCountrySide.lookup triple.predicate with
  | none =>
    simp only [hside, some.injEq] at hnext
    rw [← hnext]
    exact hsame
  | some side =>
    cases side with
    | subject =>
      simp only [hside, some.injEq] at hnext
      rw [← hnext]
      rfl
    | value =>
      simp only [hside] at hnext
      cases role with
      | none =>
        simp only [some.injEq] at hnext
        rw [← hnext]
        exact hsame
      | some value =>
        by_cases hfalsy : falsy value = true
        · simp only [hfalsy, if_true, some.injEq] at hnext
          rw [← hnext]
          cases hrole : value.string? with
          | none => simp [hrole]
          | some role =>
            rw [Json.string?_eq_some.mp hrole] at hfalsy
            have hempty : role = "" := of_decide_eq_true hfalsy
            simp [hrole, hempty]
        · simp only [hfalsy, Bool.false_eq_true, if_false, map_eq_some_iff] at hnext
          obtain ⟨role, hrole, hnext⟩ := hnext
          have hne : role ≠ "" := by
            intro hempty
            rw [Json.string?_eq_some.mp hrole] at hfalsy
            exact hfalsy (decide_eq_true hempty)
          rw [← hnext]
          simp [hrole, hne]

theorem openTriple_eq_some {found : Uuid × FactRow}
    (hfound : openTriple text triple exclude table = some found) :
    table.row? found.1 = some found.2 ∧
      openTripleCondition text triple exclude found.1 found.2 = true :=
  Table.mem_selectMatching.mp (firstBy_mem hfound)

theorem openTriple_eq_none :
    openTriple text triple exclude table = none ↔
      ∀ key row, table.row? key = some row →
        openTripleCondition text triple exclude key row = false := by
  unfold openTriple
  rw [firstBy_eq_none, Table.selectMatching_eq_nil]

end

end Legba.Facts
