import Legba.Datetime
import Legba.QuotaPass
import Mathlib.Algebra.Ring.Int.Defs
import Mathlib.Data.String.Basic

/-!
# The daily page budget

`apply_daily_page_budget` ranks the alert candidates of one scan worst first
and walks the ranked list once.  A liveness class passes; every other class
takes a place of the day while one is left and the class is below its cap.  The
places used up and the counts per class are read back from the alert rows
written since the start of the UTC day.
-/

namespace Legba.Alerts

open QuotaPass Function

def triggerBand : String := "band_crossing"
def triggerFinding : String := "verified_finding"
def triggerContention : String := "contention_flip"
def triggerBaseline : String := "baseline_deviation"
def triggerWatchlist : String := "watchlist_hit"
def triggerGeoConvergence : String := "geo_convergence"
def triggerProductionDeficit : String := "production_deficit"
def triggerSituationEscalation : String := "situation_escalation"
def triggerExternalAudit : String := "external_audit"

/-- The keys of `AlertCandidate.data` which a scan reads back. -/
structure AlertData where
  triggerClass : Option String
  severityDeltaTag : Option String
  guardSuppressed : Option Bool
  guardSuppressionReason : Option String
  budgetDeferred : Option Bool
  deriving DecidableEq, Repr

structure WatermarkState where
  severity : Option String
  pagedAt : Option Datetime
  deriving DecidableEq, Repr

structure WatermarkUpsert where
  triggerClass : String
  key : String
  state : WatermarkState
  deriving DecidableEq, Repr

/-- Every scan stamps the class of a candidate into its data, except that
geo-convergence candidates carry no stamp. -/
structure AlertCandidate where
  triggerClass : String
  severity : String
  title : String
  targetId : Option String
  data : AlertData
  watermarks : List WatermarkUpsert
  stamped : data.triggerClass.getD triggerGeoConvergence = triggerClass

def AlertCandidate.markDeferred (cand : AlertCandidate) (deferred : Bool) :
    AlertCandidate :=
  { cand with
    data := { cand.data with budgetDeferred := some deferred }
    stamped := cand.stamped }

def livenessExemptClasses : List String :=
  ["llm_route_dead", "liveness_stall", "analyst_cadence_stall", "source_cadence_stall"]

def isPageBudgetExempt (kind : String) : Bool :=
  livenessExemptClasses.contains kind

def perClassCap (kind : String) : Option ℤ :=
  if kind = triggerExternalAudit then some 2 else none

def capForKind (kind : String) (perKindCap : ℤ) : ℤ :=
  match perClassCap kind with
  | none => perKindCap
  | some override => min perKindCap override

def severityRank (severity : String) : ℤ :=
  if severity = "low" then 1
  else if severity = "medium" then 2
  else if severity = "high" then 3
  else if severity = "critical" then 4
  else 0

def budgetCrossingClasses : List String :=
  [triggerBand, triggerContention, triggerBaseline, triggerWatchlist,
    triggerGeoConvergence, triggerProductionDeficit,
    triggerSituationEscalation]

def budgetMagnitudeTier (cand : AlertCandidate) : ℤ :=
  if budgetCrossingClasses.contains cand.triggerClass then 2
  else if cand.triggerClass = "rollup" then 1
  else if cand.triggerClass = triggerFinding then
    match cand.data.severityDeltaTag with
    | some delta => if ["rose", "fell", "new"].contains delta then 1 else 0
    | none => 0
  else 1

def budgetSortKey (cand : AlertCandidate) : ℤ ×ₗ ℤ ×ₗ String :=
  toLex (-severityRank cand.severity, toLex (-budgetMagnitudeTier cand, cand.title))

/-- The walk over the ranked candidates.  `true` stands for a deferred one. -/
def budgetPass (remaining perKindCap : ℤ) : ℤ → (String → ℤ) → List AlertCandidate → List Bool
  | _, _, [] => []
  | taken, kindCounts, cand :: ranked =>
    let kind := cand.triggerClass
    if isPageBudgetExempt kind then
      false :: budgetPass remaining perKindCap taken kindCounts ranked
    else if taken < remaining ∧ kindCounts kind < capForKind kind perKindCap then
      false :: budgetPass remaining perKindCap (taken + 1)
        (update kindCounts kind (kindCounts kind + 1)) ranked
    else true :: budgetPass remaining perKindCap taken kindCounts ranked

def applyDailyPageBudget (candidates : List AlertCandidate)
    (alreadyPagedToday budget perKindCap : ℤ)
    (alreadyPagedTodayByKind : String → ℤ) : List AlertCandidate × ℕ :=
  let remaining := max 0 (budget - alreadyPagedToday)
  let decided := inRankOrder budgetSortKey
    (budgetPass remaining perKindCap 0 alreadyPagedTodayByKind) candidates
  (decided.map fun entry => entry.1.markDeferred (entry.2.getD false),
    decided.countP fun entry => entry.2.getD false)

structure AlertRow where
  analystId : String
  producedAt : Datetime
  triggerClass : Option String
  guardSuppressed : Option Bool
  killed : Option Bool
  budgetDeferred : Option Bool
  deriving DecidableEq, Repr

/-- `COALESCE(data -> 'data' ->> 'trigger_class', 'geo_convergence')` -/
def AlertRow.kind (row : AlertRow) : String :=
  row.triggerClass.getD triggerGeoConvergence

def writeAlertRow (analystId : String) (now : Datetime) (cand : AlertCandidate) : AlertRow where
  analystId := analystId
  producedAt := now
  triggerClass := cand.data.triggerClass
  guardSuppressed := cand.data.guardSuppressed
  killed := none
  budgetDeferred := cand.data.budgetDeferred

def pagedToday (analystId : String) (dayStart : Datetime) (row : AlertRow) :
    Bool :=
  row.analystId = analystId ∧ dayStart ≤ row.producedAt ∧
    row.guardSuppressed.getD false = false ∧ row.killed.getD false = false ∧
    row.budgetDeferred.getD false = false

def countPagedToday (rows : List AlertRow) (analystId : String) (dayStart : Datetime) : ℤ :=
  rows.countP (pagedToday analystId dayStart)

def countPagedTodayByKind (rows : List AlertRow) (analystId : String)
    (dayStart : Datetime) (kind : String) : ℤ :=
  rows.countP fun row => pagedToday analystId dayStart row && row.kind == kind

structure BudgetConfig where
  analystId : String
  dailyPageBudget : ℤ
  budgetPerKindCap : ℤ

def budgetOn (config : BudgetConfig) (rows : List AlertRow)
    (dayStart : Datetime) (pageable : List AlertCandidate) :
    List AlertCandidate :=
  (applyDailyPageBudget pageable
    (countPagedToday rows config.analystId dayStart)
    config.dailyPageBudget config.budgetPerKindCap
    (countPagedTodayByKind rows config.analystId dayStart)).1

/-! ## One call -/

section

variable (cand : AlertCandidate) (deferred : Bool)

@[simp] theorem markDeferred_triggerClass :
    (cand.markDeferred deferred).triggerClass = cand.triggerClass := rfl

@[simp] theorem markDeferred_data :
    (cand.markDeferred deferred).data =
      { cand.data with budgetDeferred := some deferred } := rfl

@[simp] theorem markDeferred_watermarks :
    (cand.markDeferred deferred).watermarks = cand.watermarks := rfl

end

def pageKind (cand : AlertCandidate) : Option String :=
  if isPageBudgetExempt cand.triggerClass then none
  else some cand.triggerClass

def placesLeft (config : BudgetConfig) (rows : List AlertRow) (dayStart : Datetime) : ℕ :=
  (config.dailyPageBudget - countPagedToday rows config.analystId dayStart).toNat

def roomLeft (config : BudgetConfig) (rows : List AlertRow)
    (dayStart : Datetime) (kind : String) : ℕ :=
  (capForKind kind config.budgetPerKindCap -
    countPagedTodayByKind rows config.analystId dayStart kind).toNat

def marked (places : ℕ) (room : String → ℕ)
    (candidates : List AlertCandidate) : List AlertCandidate :=
  (inRankOrder budgetSortKey (select pageKind places room) candidates).map
    fun entry => entry.1.markDeferred (!entry.2.getD true)

theorem budgetPass_eq (remaining perKindCap taken : ℤ)
    (kindCounts : String → ℤ) (ranked : List AlertCandidate) :
    budgetPass remaining perKindCap taken kindCounts ranked =
      (select pageKind (remaining - taken).toNat
        (fun kind => (capForKind kind perKindCap - kindCounts kind).toNat)
        ranked).map (!·) := by
  induction ranked generalizing taken kindCounts with
  | nil => rfl
  | cons cand ranked ih =>
    simp only [budgetPass, select, pageKind]
    cases hexempt : isPageBudgetExempt cand.triggerClass with
    | true => simp [ih]
    | false =>
      have hfits : (taken < remaining ∧ kindCounts cand.triggerClass <
          capForKind cand.triggerClass perKindCap) ↔
          0 < (remaining - taken).toNat ∧
            0 < (capForKind cand.triggerClass perKindCap - kindCounts cand.triggerClass).toNat := by
        omega
      have hplaces : (remaining - (taken + 1)).toNat = (remaining - taken).toNat - 1 := by omega
      have hroom : (fun kind => (capForKind kind perKindCap -
          update kindCounts cand.triggerClass
            (kindCounts cand.triggerClass + 1) kind).toNat) =
          update
            (fun kind => (capForKind kind perKindCap - kindCounts kind).toNat)
            cand.triggerClass
            ((capForKind cand.triggerClass perKindCap -
              kindCounts cand.triggerClass).toNat - 1) := by
        funext kind
        rcases eq_or_ne kind cand.triggerClass with rfl | hne
        · simp only [update_self]
          omega
        · simp only [update_of_ne hne]
      simp only [Bool.false_eq_true, if_false, hfits]
      split
      · rw [ih, hplaces, hroom]
        rfl
      · rw [ih]
        rfl

theorem budgetOn_eq (config : BudgetConfig) (rows : List AlertRow)
    (dayStart : Datetime) (pageable : List AlertCandidate) :
    budgetOn config rows dayStart pageable =
      marked (placesLeft config rows dayStart) (roomLeft config rows dayStart) pageable := by
  have hremaining : (max 0 (config.dailyPageBudget -
      countPagedToday rows config.analystId dayStart) - 0).toNat =
      placesLeft config rows dayStart := by
    unfold placesLeft
    omega
  have hpass : budgetPass (max 0 (config.dailyPageBudget -
        countPagedToday rows config.analystId dayStart))
        config.budgetPerKindCap 0
        (countPagedTodayByKind rows config.analystId dayStart) =
      fun ranked => (select pageKind (placesLeft config rows dayStart)
        (roomLeft config rows dayStart) ranked).map (!·) := by
    funext ranked
    rw [budgetPass_eq, hremaining]
    rfl
  simp only [budgetOn, applyDailyPageBudget, hpass, inRankOrder_map, List.map_map, marked]
  refine List.map_congr_left fun entry _ => ?_
  cases hverdict : entry.2 <;> simp [hverdict]

@[simp] theorem length_marked (places : ℕ) (room : String → ℕ) (candidates : List AlertCandidate) :
    (marked places room candidates).length = candidates.length := by
  simp [marked, inRankOrder]

theorem marked_eq (places : ℕ) (room : String → ℕ) (candidates : List AlertCandidate) :
    marked places room candidates =
      withContext (fun before cand after => cand.markDeferred (!admits places
        room ((ahead budgetSortKey before cand after).filterMap pageKind)
        (pageKind cand))) [] candidates := by
  refine eq_withContext (length_marked places room candidates) ?_
  rintro front cand after rfl
  rw [marked, List.getElem?_map, inRankOrder_select]
  rfl

variable {places : ℕ} {room : String → ℕ} {candidates : List AlertCandidate}

theorem marked_congr {room' : String → ℕ}
    (hroom : ∀ kind, isPageBudgetExempt kind = false → room kind = room' kind) :
    marked places room candidates = marked places room' candidates := by
  have hselect : select pageKind places room = select pageKind places room' := by
    funext ranked
    refine select_congr fun kind hkind => hroom kind ?_
    obtain ⟨cand, _, hcand⟩ := List.mem_filterMap.mp hkind
    unfold pageKind at hcand
    split at hcand
    · simp at hcand
    · simp_all
  rw [marked, hselect, marked]

@[simp] theorem pageKind_isSome (cand : AlertCandidate) :
    (pageKind cand).isSome = !isPageBudgetExempt cand.triggerClass := by
  unfold pageKind
  split <;> simp_all

theorem filter_marked (places : ℕ) (room : String → ℕ) (candidates : List AlertCandidate) :
    (marked places room candidates).filter
        (fun cand => !isPageBudgetExempt cand.triggerClass) =
      marked places room (candidates.filter
        fun cand => !isPageBudgetExempt cand.triggerClass) := by
  have hfilter := filter_inRankOrder_select budgetSortKey pageKind places room candidates
  simp only [pageKind_isSome] at hfilter
  rw [marked, List.filter_map, marked, ← hfilter]
  rfl

theorem map_snd_verdicts (places : ℕ) (room : String → ℕ) (candidates : List AlertCandidate) :
    (inRankOrder budgetSortKey (select pageKind places room) candidates).map Prod.snd =
      (marked places room candidates).map fun cand =>
        cand.data.budgetDeferred.map (!·) := by
  rw [marked, List.map_map]
  refine List.map_congr_left fun entry hentry => ?_
  obtain ⟨verdict, hverdict⟩ := inRankOrder_isSome (length_select places room) hentry
  simp [hverdict]

theorem marked_inj {places' : ℕ} (hle : places ≤ places') (room : String → ℕ)
    (candidates : List AlertCandidate) :
    marked places room candidates = marked places' room candidates ↔
      min places' (demand room (candidates.filterMap pageKind)) ≤ places := by
  have hkinds := (rank_fst_perm budgetSortKey candidates).filterMap pageKind
  rw [← demand_perm hkinds, ← select_eq_iff hle,
    ← inRankOrder_inj (length_select places room) (length_select places' room)]
  constructor
  · intro hmarked
    rw [← List.zip_unzip (inRankOrder budgetSortKey (select pageKind places room) candidates),
      ← List.zip_unzip (inRankOrder budgetSortKey (select pageKind places' room) candidates)]
    simp only [List.unzip_eq_map, map_fst_inRankOrder, map_snd_verdicts, hmarked]
  · intro hverdicts
    rw [marked, hverdicts, marked]

section

variable (places : ℕ) (room : String → ℕ) (candidates : List AlertCandidate)

theorem countP_marked_eq (q : AlertCandidate → Bool) (p : AlertCandidate → Bool → Bool)
    (hq : ∀ cand taken, q (cand.markDeferred (!taken)) = p cand taken) :
    (marked places room candidates).countP q =
      ((((rank budgetSortKey candidates).map Prod.fst).zip
        (select pageKind places room ((rank budgetSortKey candidates).map Prod.fst))).countP
        fun entry => p entry.1 entry.2) := by
  rw [marked, List.countP_map, (inRankOrder_perm (length_select places room)
    candidates).countP_eq, List.zip_map_right, List.countP_map]
  refine List.countP_congr fun entry _ => ?_
  simp [hq]

theorem countP_marked :
    (marked places room candidates).countP (fun cand =>
        !isPageBudgetExempt cand.triggerClass && cand.data.budgetDeferred == some false) =
      min places (demand room (candidates.filterMap pageKind)) := by
  have hkinds := (rank_fst_perm budgetSortKey candidates).filterMap pageKind
  rw [countP_marked_eq places room candidates _ (fun cand taken => (pageKind
    cand).isSome && taken) (by simp), countP_select, demand_perm hkinds]

theorem countP_marked_kind_le {kind : String} (hkind : isPageBudgetExempt kind = false) :
    (marked places room candidates).countP (fun cand =>
        cand.triggerClass == kind && cand.data.budgetDeferred == some false) ≤ room kind := by
  have hclass : ∀ cand : AlertCandidate,
      decide (pageKind cand = some kind) = (cand.triggerClass == kind) := by
    intro cand
    unfold pageKind
    split
    · have hne : cand.triggerClass ≠ kind := by
        intro heq
        simp_all
      simp [hne]
    · rw [beq_eq_decide]
      exact decide_eq_decide.mpr Option.some_inj
  rw [countP_marked_eq places room candidates _ (fun cand taken => decide
    (pageKind cand = some kind) && taken) (by simp [hclass])]
  exact countP_select_kind_le kind _

end

theorem marked_exempt {cand : AlertCandidate} (hcand : cand ∈ marked places room candidates)
    (hexempt : isPageBudgetExempt cand.triggerClass) : cand.data.budgetDeferred = some false := by
  rw [marked_eq] at hcand
  obtain ⟨front, ranked, after, rfl⟩ := mem_withContext hcand
  have hkind : pageKind ranked = none := by
    rw [markDeferred_triggerClass] at hexempt
    simp [pageKind, hexempt]
  simp [hkind, admits]

end Legba.Alerts
