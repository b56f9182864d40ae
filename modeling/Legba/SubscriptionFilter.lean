import Legba.SignalRow
import Legba.SqlLogic

/-!
# Subscription matching

The two implementations of a subscription's structured filter: the `WHERE`
clause of the batch read and the in-memory re-check of a delivered signal.
The Starlark engine which evaluates a residual predicate on a row is a
parameter, the same for both.

The `WHERE` clause also keeps backfilled observations out of the reactive
slice.  The re-check has no such clause, so the two agree on a row exactly
when it is not backfilled or misses the filter elsewhere.
-/

namespace Legba.Subscriptions

open JsonValue SqlLogic List

structure Subscription where
  geo : List String := []
  languages : List String := []
  tags : List String := []
  entityClasses : List String := []
  modalities : List String := []
  predicate : Option String := none
  canonicalOnly : Bool := true
  deriving DecidableEq, Repr

structure ResolvedBinding where
  sourceId : String
  ownerTenant : String
  subscription : Subscription
  viaSelector : Bool := false
  deriving DecidableEq, Repr

/-! ## The SQL path -/

inductive ScalarColumn where
  | sourceId
  | ownerTenant
  | language
  | modality
  deriving DecidableEq, Repr

inductive ArrayColumn where
  | geo
  | tags
  | entityClasses
  deriving DecidableEq, Repr

def ScalarColumn.read (row : SignalRow) : ScalarColumn → Option String
  | .sourceId => row.sourceId
  | .ownerTenant => row.ownerTenant
  | .language => row.language
  | .modality => row.modality

def ArrayColumn.read (row : SignalRow) : ArrayColumn → Option (List (Option String))
  | .geo => row.geo
  | .tags => row.tags
  | .entityClasses => row.entityClasses

inductive SqlParam where
  | text (value : String)
  | textArray (values : List String)
  deriving DecidableEq, Repr

inductive ParamTest where
  | equals (column : ScalarColumn)
  | overlaps (column : ArrayColumn)
  | oneOf (column : ScalarColumn)
  deriving DecidableEq, Repr

inductive SqlClause where
  | param (test : ParamTest) (n : ℕ)
  | canonical
  | excludeBackfill
  deriving DecidableEq, Repr

def ParamTest.eval (row : SignalRow) : ParamTest → SqlParam → Truth
  | .equals column, .text value => eq (column.read row) (some value)
  | .overlaps column, .textArray values => overlap (column.read row) values
  | .oneOf column, .textArray values => eqAny (column.read row) values
  | _, _ => none

/-- `payload->>'event_class'`. -/
def eventClassOf (row : SignalRow) : Option String :=
  (field? row.payload "event_class").bind Json.asText

def SqlClause.eval (args : ℕ → Option SqlParam) (row : SignalRow) : SqlClause → Truth
  | .param test n => (args n).bind (test.eval row)
  | .canonical => (isNull row.canonicalSignalId).or (eq row.canonicalSignalId row.id)
  | .excludeBackfill => isDistinctFrom (eventClassOf row) (some "backfill")

/-- A conjunction of clauses with its positional parameters, numbered from
`startParam`. -/
structure SqlFilter (startParam : ℕ) where
  clauses : List SqlClause
  params : List SqlParam
  inScope : ∀ test n, .param test n ∈ clauses → startParam ≤ n ∧ n < startParam + params.length

namespace SqlFilter

variable {startParam : ℕ}

def empty (startParam : ℕ) : SqlFilter startParam where
  clauses := []
  params := []
  inScope := by simp

def add (filter : SqlFilter startParam) (test : ParamTest)
    (value : SqlParam) : SqlFilter startParam where
  clauses := filter.clauses ++ [.param test (startParam + filter.params.length)]
  params := filter.params ++ [value]
  inScope := by
    intro other n hmem
    rw [length_append, length_singleton]
    rcases mem_append.mp hmem with hold | hnew
    · have hscope := filter.inScope other n hold
      omega
    · have hclause := mem_singleton.mp hnew
      injection hclause with _ hn
      omega

def addAnyOf (filter : SqlFilter startParam) (test : ParamTest)
    (values : List String) : SqlFilter startParam :=
  if values.isEmpty then filter else filter.add test (.textArray values)

def addFixed (filter : SqlFilter startParam) (clause : SqlClause)
    (hclause : ∀ test n, clause ≠ .param test n) : SqlFilter startParam where
  clauses := filter.clauses ++ [clause]
  params := filter.params
  inScope := by
    intro test n hmem
    rcases mem_append.mp hmem with hold | hnew
    · exact filter.inScope test n hold
    · exact absurd (mem_singleton.mp hnew).symm (hclause test n)

def arg (filter : SqlFilter startParam) (n : ℕ) : Option SqlParam :=
  filter.params[n - startParam]?

def Keeps (filter : SqlFilter startParam) (row : SignalRow) : Prop :=
  conj (filter.clauses.map (SqlClause.eval filter.arg row)) = some true

instance (filter : SqlFilter startParam) (row : SignalRow) : Decidable (filter.Keeps row) :=
  inferInstanceAs (Decidable (_ = _))

end SqlFilter

def buildSqlFilter (sourceId ownerTenant : String) (sub : Subscription)
    (startParam : ℕ := 1) : SqlFilter startParam :=
  let filter := SqlFilter.empty startParam
  let filter := filter.add (.equals .sourceId) (.text sourceId)
  let filter := filter.add (.equals .ownerTenant) (.text ownerTenant)
  let filter := filter.addAnyOf (.overlaps .geo) sub.geo
  let filter := filter.addAnyOf (.overlaps .tags) sub.tags
  let filter := filter.addAnyOf (.overlaps .entityClasses) sub.entityClasses
  let filter := filter.addAnyOf (.oneOf .language) sub.languages
  let filter := filter.addAnyOf (.oneOf .modality) sub.modalities
  let filter :=
    if sub.canonicalOnly then filter.addFixed .canonical (by simp) else filter
  filter.addFixed .excludeBackfill (by simp)

def residualMatches (evalResidual : String → SignalRow → Bool)
    (sub : Subscription) (row : SignalRow) : Bool :=
  match sub.predicate with
  | none => true
  | some pred => if pred = "" then true else evalResidual pred row

def sameUuid (a b : Option Uuid) : Bool :=
  decide (a = b)

def common (wanted : List String) (values : List (Option String)) : List String :=
  wanted.filter fun value => values.contains (some value)

/-- `matches`. -/
def matchesRow (evalResidual : String → SignalRow → Bool)
    (sub : Subscription) (row : SignalRow) (sourceId ownerTenant : String) :
    Bool :=
  if row.sourceId ≠ some sourceId then false
  else if row.ownerTenant ≠ some ownerTenant then false
  else
    let sigGeo := row.geo.getD []
    let sigTags := row.tags.getD []
    let sigEc := row.entityClasses.getD []
    if !sub.geo.isEmpty && (common sub.geo sigGeo).isEmpty then false
    else if !sub.tags.isEmpty && (common sub.tags sigTags).isEmpty then false
    else if !sub.entityClasses.isEmpty && (common sub.entityClasses sigEc).isEmpty then false
    else if !sub.languages.isEmpty && !(sub.languages.map some).contains row.language then false
    else if !sub.modalities.isEmpty && !(sub.modalities.map some).contains row.modality then false
    else if sub.canonicalOnly && row.canonicalSignalId.isSome &&
        !sameUuid row.canonicalSignalId row.id then false
    else residualMatches evalResidual sub row

def SharesAny (wanted : List String) (column : Option (List (Option String))) :
    Prop :=
  wanted = [] ∨ ∃ value ∈ wanted, some value ∈ column.getD []

def OneOf (wanted : List String) (column : Option String) : Prop :=
  wanted = [] ∨ ∃ value ∈ wanted, column = some value

structure MeetsFilter (sub : Subscription) (row : SignalRow)
    (sourceId ownerTenant : String) : Prop where
  source : row.sourceId = some sourceId
  tenant : row.ownerTenant = some ownerTenant
  geo : SharesAny sub.geo row.geo
  tags : SharesAny sub.tags row.tags
  entityClasses : SharesAny sub.entityClasses row.entityClasses
  languages : OneOf sub.languages row.language
  modalities : OneOf sub.modalities row.modality
  canonical : sub.canonicalOnly = true →
    row.canonicalSignalId = none ∨ row.canonicalSignalId = row.id

def IsBackfill (row : SignalRow) : Prop :=
  field? row.payload "event_class" = some (.string "backfill")

theorem eventClassOf_eq_backfill_iff (row : SignalRow) :
    eventClassOf row = some "backfill" ↔ IsBackfill row := by
  unfold eventClassOf IsBackfill
  cases hfield : field? row.payload "event_class" with
  | none => simp
  | some value =>
    rw [Option.bind_some, Option.some.injEq]
    exact asText_eq_some_iff rfl (by decide) (by decide) (by decide) value

/-! ## The SQL path accepts -/

namespace SqlFilter

variable {startParam : ℕ}

theorem keeps_iff (filter : SqlFilter startParam) (row : SignalRow) :
    filter.Keeps row ↔ ∀ clause ∈ filter.clauses, clause.eval filter.arg row = some true := by
  unfold Keeps
  rw [conj_eq_true_iff, forall_mem_map]

theorem keeps_empty (row : SignalRow) : (empty startParam).Keeps row := by
  rw [keeps_iff]
  simp [empty]

theorem eval_congr {args args' : ℕ → Option SqlParam} {row : SignalRow} {clause : SqlClause}
    (hargs : ∀ test n, clause = .param test n → args n = args' n) :
    clause.eval args row = clause.eval args' row := by
  cases clause with
  | param test n =>
    simp only [SqlClause.eval]
    rw [hargs test n rfl]
  | canonical => rfl
  | excludeBackfill => rfl

section

variable (filter : SqlFilter startParam)

include filter

section

variable (test : ParamTest) (value : SqlParam)

theorem arg_add_of_lt {n : ℕ} (hle : startParam ≤ n) (hlt : n < startParam + filter.params.length) :
    (filter.add test value).arg n = filter.arg n := by
  exact getElem?_append_left (by omega)

theorem arg_add_self :
    (filter.add test value).arg (startParam + filter.params.length) = some value := by
  simp [arg, add]

theorem keeps_add_iff (row : SignalRow) :
    (filter.add test value).Keeps row ↔ filter.Keeps row ∧ test.eval row value = some true := by
  have hold : ∀ clause ∈ filter.clauses,
      clause.eval (filter.add test value).arg row = clause.eval filter.arg row := by
    intro clause hclause
    apply eval_congr
    intro other n heq
    have hscope := filter.inScope other n (heq ▸ hclause)
    exact filter.arg_add_of_lt test value hscope.1 hscope.2
  have hnew : (SqlClause.param test (startParam + filter.params.length)).eval
      (filter.add test value).arg row = test.eval row value := by
    simp only [SqlClause.eval]
    rw [arg_add_self, Option.bind_some]
  rw [keeps_iff, keeps_iff]
  change (∀ clause ∈ filter.clauses ++ [_], _) ↔ _
  rw [forall_mem_append, forall_mem_singleton, hnew]
  exact and_congr_left fun _ => forall₂_congr fun clause hclause => by rw [hold clause hclause]

end

theorem keeps_addFixed_iff (clause : SqlClause)
    (hclause : ∀ test n, clause ≠ .param test n) (row : SignalRow) :
    (filter.addFixed clause hclause).Keeps row ↔
      filter.Keeps row ∧ clause.eval filter.arg row = some true := by
  rw [keeps_iff, keeps_iff]
  change (∀ other ∈ filter.clauses ++ [clause], _) ↔ _
  rw [forall_mem_append, forall_mem_singleton]
  rfl

theorem keeps_addAnyOf_overlaps_iff (column : ArrayColumn)
    (values : List String) (row : SignalRow) :
    (filter.addAnyOf (.overlaps column) values).Keeps row ↔
      filter.Keeps row ∧ SharesAny values (column.read row) := by
  unfold addAnyOf SharesAny
  cases values with
  | nil => simp
  | cons first rest =>
    simp only [isEmpty_cons, Bool.false_eq_true, if_false, keeps_add_iff,
      ParamTest.eval, overlap_eq_true_iff, reduceCtorEq, false_or]

theorem keeps_addAnyOf_oneOf_iff (column : ScalarColumn) (values : List String) (row : SignalRow) :
    (filter.addAnyOf (.oneOf column) values).Keeps row ↔
      filter.Keeps row ∧ OneOf values (column.read row) := by
  unfold addAnyOf OneOf
  cases values with
  | nil => simp
  | cons first rest =>
    simp only [isEmpty_cons, Bool.false_eq_true, if_false, keeps_add_iff,
      ParamTest.eval, eqAny_eq_true_iff, reduceCtorEq, false_or]

end

end SqlFilter

theorem canonical_eval_iff (args : ℕ → Option SqlParam) (row : SignalRow) :
    SqlClause.canonical.eval args row = some true ↔
      row.canonicalSignalId = none ∨ row.canonicalSignalId = row.id := by
  simp only [SqlClause.eval, Truth.or_eq_true_iff, isNull_eq_true_iff, eq_eq_true_iff]
  constructor
  · rintro (hnull | hequal)
    · exact .inl hnull
    · exact .inr hequal.1
  · rintro (hnull | hequal)
    · exact .inl hnull
    · by_cases hnull : row.canonicalSignalId = none
      · exact .inl hnull
      · exact .inr ⟨hequal, hnull⟩

theorem keeps_canonical_iff {startParam : ℕ} (filter : SqlFilter startParam)
    (canonicalOnly : Bool) (row : SignalRow) :
    (if canonicalOnly then filter.addFixed .canonical (by simp)
        else filter).Keeps row ↔
      filter.Keeps row ∧ (canonicalOnly = true →
        row.canonicalSignalId = none ∨ row.canonicalSignalId = row.id) := by
  cases canonicalOnly with
  | true => simp only [if_true, SqlFilter.keeps_addFixed_iff, canonical_eval_iff, forall_const]
  | false => simp

theorem buildSqlFilter_keeps_iff (sourceId ownerTenant : String)
    (sub : Subscription) (startParam : ℕ) (row : SignalRow) :
    (buildSqlFilter sourceId ownerTenant sub startParam).Keeps row ↔
      MeetsFilter sub row sourceId ownerTenant ∧ ¬ IsBackfill row := by
  have hbackfill : ∀ args, SqlClause.excludeBackfill.eval args row = some true ↔
      ¬ IsBackfill row := by
    intro args
    rw [← eventClassOf_eq_backfill_iff]
    simp [SqlClause.eval]
  unfold buildSqlFilter
  rw [SqlFilter.keeps_addFixed_iff, hbackfill]
  apply and_congr_left
  intro _
  rw [keeps_canonical_iff]
  simp only [SqlFilter.keeps_addAnyOf_oneOf_iff, SqlFilter.keeps_addAnyOf_overlaps_iff,
    SqlFilter.keeps_add_iff, SqlFilter.keeps_empty, ParamTest.eval, eq_eq_true_iff, true_and]
  constructor
  · rintro ⟨⟨⟨⟨⟨⟨⟨hsource, htenant⟩, hgeo⟩, htags⟩, hclasses⟩, hlanguages⟩,
      hmodalities⟩, hcanonical⟩
    exact ⟨hsource.1, htenant.1, hgeo, htags, hclasses, hlanguages, hmodalities, hcanonical⟩
  · intro hmeets
    have hsource : row.sourceId ≠ none := by
      rw [hmeets.source]
      simp
    have htenant : row.ownerTenant ≠ none := by
      rw [hmeets.tenant]
      simp
    exact ⟨⟨⟨⟨⟨⟨⟨⟨hmeets.source, hsource⟩, hmeets.tenant, htenant⟩, hmeets.geo⟩, hmeets.tags⟩,
      hmeets.entityClasses⟩, hmeets.languages⟩, hmeets.modalities⟩, hmeets.canonical⟩

theorem sharesAny_iff (wanted : List String) (column : Option (List (Option String))) :
    (!wanted.isEmpty && (common wanted (column.getD [])).isEmpty) = false ↔
      SharesAny wanted column := by
  unfold SharesAny
  cases wanted with
  | nil => simp
  | cons first rest =>
    have hcommon : (common (first :: rest) (column.getD [])).isEmpty = false ↔
        ∃ value ∈ first :: rest, some value ∈ column.getD [] := by
      rw [isEmpty_eq_false_iff_exists_mem]
      simp only [common, mem_filter, contains_iff_mem]
    simpa using hcommon

theorem oneOf_iff (wanted : List String) (column : Option String) :
    (!wanted.isEmpty && !(wanted.map some).contains column) = false ↔ OneOf wanted column := by
  unfold OneOf
  cases wanted with
  | nil => simp
  | cons first rest =>
    have hcontains : ((first :: rest).map some).contains column = true ↔
        ∃ value ∈ first :: rest, column = some value := by
      rw [contains_iff_mem, mem_map]
      exact exists_congr fun value => and_congr_right fun _ => eq_comm
    simp only [isEmpty_cons, Bool.not_false, Bool.true_and,
      Bool.not_eq_false', hcontains, reduceCtorEq, false_or]

theorem canonicalOnly_iff (sub : Subscription) (row : SignalRow) :
    (sub.canonicalOnly && row.canonicalSignalId.isSome &&
        !sameUuid row.canonicalSignalId row.id) = false ↔
      (sub.canonicalOnly = true →
        row.canonicalSignalId = none ∨ row.canonicalSignalId = row.id) := by
  unfold sameUuid
  cases sub.canonicalOnly with
  | false => simp
  | true => cases row.canonicalSignalId <;> simp

theorem early_return_iff (condition : Prop) [Decidable condition] (rest : Bool) :
    (if condition then false else rest) = true ↔ ¬ condition ∧ rest = true := by
  by_cases hcondition : condition <;> simp [hcondition]

theorem matchesRow_eq_true_iff (evalResidual : String → SignalRow → Bool)
    (sub : Subscription) (row : SignalRow) (sourceId ownerTenant : String) :
    matchesRow evalResidual sub row sourceId ownerTenant = true ↔
      MeetsFilter sub row sourceId ownerTenant ∧ residualMatches evalResidual sub row = true := by
  unfold matchesRow
  simp only [early_return_iff, ne_eq, not_not, Bool.not_eq_true,
    sharesAny_iff, oneOf_iff, canonicalOnly_iff]
  constructor
  · rintro ⟨hsource, htenant, hgeo, htags, hclasses, hlanguages, hmodalities, hcanonical, hresidual⟩
    exact ⟨⟨hsource, htenant, hgeo, htags, hclasses, hlanguages, hmodalities,
      hcanonical⟩, hresidual⟩
  · rintro ⟨hmeets, hresidual⟩
    exact ⟨hmeets.source, hmeets.tenant, hmeets.geo, hmeets.tags, hmeets.entityClasses,
      hmeets.languages, hmeets.modalities, hmeets.canonical, hresidual⟩

/-- The SQL path of one binding on one row: the `WHERE` clause, then the
residual. -/
def readSliceKeeps (evalResidual : String → SignalRow → Bool)
    (sub : Subscription) (row : SignalRow) (sourceId ownerTenant : String) :
    Prop :=
  (buildSqlFilter sourceId ownerTenant sub).Keeps row ∧ residualMatches evalResidual sub row = true

theorem readSliceKeeps_iff_of_live {row : SignalRow}
    (hlive : ¬ IsBackfill row) (evalResidual : String → SignalRow → Bool)
    (sub : Subscription) (sourceId ownerTenant : String) :
    readSliceKeeps evalResidual sub row sourceId ownerTenant ↔
      matchesRow evalResidual sub row sourceId ownerTenant = true := by
  unfold readSliceKeeps
  rw [matchesRow_eq_true_iff, buildSqlFilter_keeps_iff, and_iff_left hlive]

/-- The two paths agree on a row exactly when it is not backfilled, or misses
the structured filter or the residual. -/
theorem matches_agrees_with_sql_iff (evalResidual : String → SignalRow → Bool)
    (sub : Subscription) (row : SignalRow) (sourceId ownerTenant : String) :
    (matchesRow evalResidual sub row sourceId ownerTenant = true ↔
        readSliceKeeps evalResidual sub row sourceId ownerTenant) ↔
      (¬ IsBackfill row ∨ ¬ MeetsFilter sub row sourceId ownerTenant ∨
        residualMatches evalResidual sub row = false) := by
  unfold readSliceKeeps
  rw [matchesRow_eq_true_iff, buildSqlFilter_keeps_iff,
    ← Bool.not_eq_true (residualMatches evalResidual sub row)]
  tauto

/-- A backfilled row of the subscribed source: the in-memory path delivers it,
the `WHERE` clause excludes it. -/
theorem backfilled_row_matches_but_is_not_read :
    let row : SignalRow :=
      { id := some 1, sourceId := some "source.reuters",
        ownerTenant := some "default", modality := some "text",
        payload := [("event_class", .string "backfill")] }
    matchesRow (fun _ _ => true) {} row "source.reuters" "default" = true ∧
      ¬ readSliceKeeps (fun _ _ => true) {} row "source.reuters" "default" := by
  intro row
  refine ⟨by decide, ?_⟩
  intro hkeeps
  have hfilter := (buildSqlFilter_keeps_iff _ _ _ _ _).mp hkeeps.1
  exact hfilter.2 rfl

end Legba.Subscriptions
