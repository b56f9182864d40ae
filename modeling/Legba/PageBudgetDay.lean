import Legba.LabelledRun
import Legba.PageBudget

/-!
# The page budget over a UTC day

The scans of one day share the alert table.  Each reads the day's counts,
decides on its candidates and writes their rows; a rejected write leaves no
row.  `before` is the table the first of the scans finds.  The second run of
the comparison is the same day with the liveness candidates left out.
-/

namespace Legba.Alerts

open QuotaPass LabelledRun List

def dayStartUtc (now : Datetime) : Datetime := now - now % seconds 86400

/-- The candidates which reach the budget, each with whether the write of its
row lands.  The candidates of the steady-state guard are written apart. -/
structure PageScan (day : Datetime) where
  now : Datetime
  inDay : dayStartUtc now = day
  pageable : List (AlertCandidate × Bool)
  unsuppressed : ∀ item ∈ pageable, item.1.data.guardSuppressed ≠ some true

variable {day : Datetime}

def scanDecisions (config : BudgetConfig) (rows : List AlertRow)
    (scan : PageScan day) : List AlertCandidate :=
  budgetOn config rows (dayStartUtc scan.now) (scan.pageable.map Prod.fst)

def scanRows (config : BudgetConfig) (rows : List AlertRow) (scan : PageScan day) : List AlertRow :=
  (((scanDecisions config rows scan).zip
      (scan.pageable.map Prod.snd)).filter Prod.snd).map fun item =>
    writeAlertRow config.analystId scan.now item.1

def dayStep (config : BudgetConfig) (before : List AlertRow)
    (written : List AlertRow) (scan : PageScan day) :
    Option (List AlertRow) :=
  some (written ++ scanRows config (before ++ written) scan)

/-- The rows written by the scans, those in `written` included. -/
def dayRows (config : BudgetConfig) (before : List AlertRow) :
    List AlertRow → List (PageScan day) → List AlertRow
  | written, [] => written
  | written, scan :: rest =>
    dayRows config before (written ++ scanRows config (before ++ written) scan) rest

def dayDecisions (config : BudgetConfig) (before : List AlertRow) :
    List AlertRow → List (PageScan day) → List (List AlertCandidate)
  | _, [] => []
  | written, scan :: rest =>
    scanDecisions config (before ++ written) scan ::
      dayDecisions config before (written ++ scanRows config (before ++ written) scan) rest

def ordinary (cand : AlertCandidate) : Bool :=
  !isPageBudgetExempt cand.triggerClass

def ordinaryRow (row : AlertRow) : Bool := !isPageBudgetExempt row.kind

def ordinaryPage (row : AlertRow) : Bool :=
  ordinaryRow row && row.budgetDeferred == some false

def withoutLiveness (scan : PageScan day) : PageScan day where
  now := scan.now
  inDay := scan.inDay
  pageable := scan.pageable.filter fun item => ordinary item.1
  unsuppressed := fun item hitem => scan.unsuppressed item (List.mem_of_mem_filter hitem)

structure PageBudgetHolds (config : BudgetConfig) (before : List AlertRow)
    (scans : List (PageScan day)) : Prop where
  total : ((dayRows config before [] scans).countP ordinaryPage : ℤ) ≤ config.dailyPageBudget
  perKind : ∀ kind, isPageBudgetExempt kind = false →
    ((dayRows config before [] scans).countP
      (fun row => row.kind == kind && row.budgetDeferred == some false) : ℤ) ≤
      capForKind kind config.budgetPerKindCap
  livenessPaged : ∀ decided ∈ dayDecisions config before [] scans,
    ∀ cand ∈ decided, isPageBudgetExempt cand.triggerClass = true →
      cand.data.budgetDeferred = some false
  undisturbed : (dayDecisions config before [] scans).map (List.filter ordinary) =
    dayDecisions config before [] (scans.map withoutLiveness)

/-- The liveness rows written so far do not take a place which the ordinary
candidates of the scan could fill. -/
def Undisturbed (config : BudgetConfig) (before written : List AlertRow)
    (scan : PageScan day) : Prop :=
  min (placesLeft config (before ++ written.filter ordinaryRow) day)
      (demand (roomLeft config (before ++ written) day)
        ((scan.pageable.map Prod.fst).filterMap pageKind)) ≤
    placesLeft config (before ++ written) day

structure OwnRow (config : BudgetConfig) (day : Datetime) (row : AlertRow) : Prop where
  analyst : row.analystId = config.analystId
  inDay : day ≤ row.producedAt
  unsuppressed : row.guardSuppressed ≠ some true
  unkilled : row.killed = none
  decided : row.budgetDeferred ≠ none

variable {config : BudgetConfig} {rows written before : List AlertRow}
  {p : AlertRow → Bool}

theorem OwnRow.paged {row : AlertRow} (hown : OwnRow config day row) :
    pagedToday config.analystId day row = (row.budgetDeferred == some false) := by
  have hguard : row.guardSuppressed.getD false = false := by
    rcases hcase : row.guardSuppressed with _ | _ | _ <;> simp_all [hown.unsuppressed]
  rcases hcase : row.budgetDeferred with _ | _ | _
  · exact absurd hcase hown.decided
  · simp [pagedToday, hown.analyst, hown.inDay, hguard, hown.unkilled, hcase]
  · simp [pagedToday, hcase]

theorem dayStartUtc_le (now : Datetime) : dayStartUtc now ≤ now := by
  have hnonneg : 0 ≤ now % seconds 86400 := Int.emod_nonneg now (seconds_pos (by decide)).ne'
  exact Int.sub_le_self now hnonneg

theorem kind_writeAlertRow (analystId : String) (now : Datetime) (cand : AlertCandidate) :
    (writeAlertRow analystId now cand).kind = cand.triggerClass :=
  cand.stamped

theorem scanDecisions_eq (config : BudgetConfig) (rows : List AlertRow) (scan : PageScan day) :
    scanDecisions config rows scan =
      marked (placesLeft config rows day) (roomLeft config rows day)
        (scan.pageable.map Prod.fst) := by
  rw [scanDecisions, budgetOn_eq, scan.inDay]

theorem scanRows_own {scan : PageScan day} {row : AlertRow}
    (hrow : row ∈ scanRows config rows scan) : OwnRow config day row := by
  obtain ⟨⟨cand, lands⟩, hitem, rfl⟩ := mem_map.mp hrow
  have hcand := (of_mem_zip (mem_of_mem_filter hitem)).1
  obtain ⟨entry, hentry, rfl⟩ := mem_map.mp hcand
  have hsource : entry.1 ∈ scan.pageable.map Prod.fst := by
    have hfst := mem_map_of_mem hentry (f := Prod.fst)
    rwa [map_fst_inRankOrder] at hfst
  obtain ⟨item, hitem, hitemEq⟩ := mem_map.mp hsource
  refine ⟨rfl, ?_, ?_, rfl, by simp [writeAlertRow]⟩
  · exact scan.inDay.symm.le.trans (dayStartUtc_le scan.now)
  · exact hitemEq ▸ scan.unsuppressed item hitem

theorem countPagedToday_append (config : BudgetConfig) (before : List AlertRow)
    (hown : ∀ row ∈ written, OwnRow config day row) :
    countPagedToday (before ++ written) config.analystId day =
      countPagedToday before config.analystId day +
        written.countP fun row => row.budgetDeferred == some false := by
  have hwritten : written.countP (pagedToday config.analystId day) =
      written.countP fun row => row.budgetDeferred == some false :=
    countP_congr fun row hrow => by rw [(hown row hrow).paged]
  rw [countPagedToday, countP_append, hwritten, Nat.cast_add]
  rfl

theorem countPagedTodayByKind_append (config : BudgetConfig) (before : List AlertRow)
    (kind : String) (hown : ∀ row ∈ written, OwnRow config day row) :
    countPagedTodayByKind (before ++ written) config.analystId day kind =
      countPagedTodayByKind before config.analystId day kind +
        written.countP fun row =>
          row.kind == kind && row.budgetDeferred == some false := by
  have hwritten : written.countP (fun row =>
        pagedToday config.analystId day row && row.kind == kind) =
      written.countP fun row =>
        row.kind == kind && row.budgetDeferred == some false :=
    countP_congr fun row hrow => by rw [(hown row hrow).paged, Bool.and_comm]
  rw [countPagedTodayByKind, countP_append, hwritten, Nat.cast_add]
  rfl

theorem own_filter (hown : ∀ row ∈ written, OwnRow config day row) (p : AlertRow → Bool) :
    ∀ row ∈ written.filter p, OwnRow config day row :=
  fun row hrow => hown row (mem_of_mem_filter hrow)

section

variable (config : BudgetConfig) (before : List AlertRow)
  (hown : ∀ row ∈ written, OwnRow config day row)

include hown

theorem placesLeft_le_filter :
    placesLeft config (before ++ written) day ≤
      placesLeft config (before ++ written.filter ordinaryRow) day := by
  have hcount := Sublist.countP_le (p := fun row : AlertRow => row.budgetDeferred ==
    some false) (filter_sublist (p := ordinaryRow) (l := written))
  rw [placesLeft, placesLeft, countPagedToday_append config before hown,
    countPagedToday_append config before (own_filter hown _)]
  omega

theorem roomLeft_filter {kind : String} (hkind : isPageBudgetExempt kind = false) :
    roomLeft config (before ++ written.filter ordinaryRow) day kind =
      roomLeft config (before ++ written) day kind := by
  rw [roomLeft, roomLeft, countPagedTodayByKind_append config before kind hown,
    countPagedTodayByKind_append config before kind (own_filter hown _), countP_filter]
  congr 4
  refine countP_congr fun row _ => ?_
  simp only [ordinaryRow, Bool.and_eq_true, beq_iff_eq]
  constructor
  · exact fun h => h.1
  · intro h
    exact ⟨h, by rw [h.1, hkind]; rfl⟩

end

theorem filter_zip_snd {α β : Type} {p : α → Bool} {q : β → Bool} {xs : List (α × Bool)}
    {ys : List β} (haligned : ys.map q = xs.map fun x => p x.1) :
    (ys.zip (xs.map Prod.snd)).filter (fun entry => q entry.1) =
      (ys.filter q).zip ((xs.filter fun x => p x.1).map Prod.snd) := by
  induction xs generalizing ys with
  | nil => simp
  | cons x xs ih =>
    cases ys with
    | nil => simp at haligned
    | cons y ys =>
      rw [map_cons, map_cons, cons.injEq] at haligned
      cases hx : p x.1 with
      | true => simp [haligned.1, hx, ih haligned.2]
      | false => simp [haligned.1, hx, ih haligned.2]

section

variable (config : BudgetConfig) (rows : List AlertRow) (scan : PageScan day)

theorem map_ordinary_scanDecisions :
    (scanDecisions config rows scan).map ordinary =
      scan.pageable.map fun item => ordinary item.1 := by
  have hfst := congrArg (map ordinary)
    (map_fst_inRankOrder budgetSortKey
      (select pageKind (placesLeft config rows day)
        (roomLeft config rows day)) (scan.pageable.map Prod.fst))
  rw [map_map, map_map] at hfst
  rw [scanDecisions_eq, marked, map_map]
  exact hfst

theorem filter_scanRows :
    (scanRows config rows scan).filter ordinaryRow =
      ((((scanDecisions config rows scan).filter ordinary).zip
        ((withoutLiveness scan).pageable.map Prod.snd)).filter
          Prod.snd).map fun item =>
        writeAlertRow config.analystId scan.now item.1 := by
  have hrow : (ordinaryRow ∘ fun item : AlertCandidate × Bool =>
      writeAlertRow config.analystId scan.now item.1) =
      fun item => ordinary item.1 := by
    funext item
    simp only [Function.comp_apply, ordinaryRow, kind_writeAlertRow, ordinary]
  rw [scanRows, filter_map, hrow, filter_comm,
    filter_zip_snd (map_ordinary_scanDecisions config rows scan)]
  rfl

theorem filter_scanDecisions :
    (scanDecisions config rows scan).filter ordinary =
      marked (placesLeft config rows day) (roomLeft config rows day)
        ((scan.pageable.map Prod.fst).filter ordinary) := by
  rw [scanDecisions_eq]
  exact filter_marked _ _ _

end

theorem scanDecisions_withoutLiveness (config : BudgetConfig) (before : List AlertRow)
    (hown : ∀ row ∈ written, OwnRow config day row) (scan : PageScan day) :
    scanDecisions config (before ++ written.filter ordinaryRow) (withoutLiveness scan) =
      marked (placesLeft config (before ++ written.filter ordinaryRow) day)
        (roomLeft config (before ++ written) day)
        ((scan.pageable.map Prod.fst).filter ordinary) := by
  have hpageable : (withoutLiveness scan).pageable.map Prod.fst =
      (scan.pageable.map Prod.fst).filter ordinary := by
    rw [filter_map]
    rfl
  rw [scanDecisions_eq, hpageable]
  exact marked_congr fun kind hkind => roomLeft_filter config before hown hkind

theorem filterMap_pageKind_filter (candidates : List AlertCandidate) :
    (candidates.filter ordinary).filterMap pageKind = candidates.filterMap pageKind := by
  rw [filterMap_filter]
  refine filterMap_congr fun cand _ => ?_
  unfold ordinary pageKind
  cases isPageBudgetExempt cand.triggerClass <;> rfl

theorem scanDecisions_agree_iff (config : BudgetConfig) (before : List AlertRow)
    (hown : ∀ row ∈ written, OwnRow config day row) (scan : PageScan day) :
    (scanDecisions config (before ++ written) scan).filter ordinary =
        scanDecisions config (before ++ written.filter ordinaryRow) (withoutLiveness scan) ↔
      Undisturbed config before written scan := by
  rw [filter_scanDecisions, scanDecisions_withoutLiveness config before hown,
    marked_inj (placesLeft_le_filter config before hown), filterMap_pageKind_filter]
  rfl

theorem scanRows_agree {scan : PageScan day}
    (hagree : (scanDecisions config (before ++ written) scan).filter ordinary = scanDecisions
      config (before ++ written.filter ordinaryRow) (withoutLiveness scan)) :
    (scanRows config (before ++ written) scan).filter ordinaryRow =
      scanRows config (before ++ written.filter ordinaryRow) (withoutLiveness scan) := by
  rw [filter_scanRows, hagree]
  rfl

theorem own_append (hown : ∀ row ∈ written, OwnRow config day row) (scan : PageScan day) :
    ∀ row ∈ written ++ scanRows config rows scan, OwnRow config day row := by
  intro row hrow
  cases mem_append.mp hrow with
  | inl hwritten => exact hown row hwritten
  | inr hnew => exact scanRows_own hnew

/-! ## The day -/

theorem dayDecisions_agree_iff (config : BudgetConfig) (before : List AlertRow)
    (hown : ∀ row ∈ written, OwnRow config day row) (scans : List (PageScan day)) :
    (dayDecisions config before written scans).map (List.filter ordinary) =
        dayDecisions config before (written.filter ordinaryRow) (scans.map withoutLiveness) ↔
      StepsSatisfy (dayStep config before)
        (fun written scan _ => Undisturbed config before written scan)
        written scans := by
  induction scans generalizing written with
  | nil => simp [dayDecisions]
  | cons scan rest ih =>
    rw [stepsSatisfy_cons rfl, dayDecisions, map_cons, map_cons, dayDecisions,
      cons.injEq, scanDecisions_agree_iff config before hown]
    apply and_congr_right
    intro hundisturbed
    have hagree := scanRows_agree
      ((scanDecisions_agree_iff config before hown scan).mpr hundisturbed)
    rw [← ih (own_append hown scan), filter_append, hagree]

theorem countP_scanRows_le (scan : PageScan day) {q : AlertCandidate → Bool}
    (hp : ∀ cand, p (writeAlertRow config.analystId scan.now cand) = q cand) :
    (scanRows config rows scan).countP p ≤ (scanDecisions config rows scan).countP q := by
  have hrow : (p ∘ fun item : AlertCandidate × Bool =>
      writeAlertRow config.analystId scan.now item.1) =
      fun item => q item.1 := funext fun item => hp item.1
  have hlength : (scanDecisions config rows scan).length = (scan.pageable.map Prod.snd).length := by
    rw [scanDecisions_eq, length_marked, length_map, length_map]
  calc
    (scanRows config rows scan).countP p ≤
        ((scanDecisions config rows scan).zip
          (scan.pageable.map Prod.snd)).countP fun item => q item.1 := by
      rw [scanRows, countP_map, hrow]
      exact filter_sublist.countP_le
    _ = (((scanDecisions config rows scan).zip
          (scan.pageable.map Prod.snd)).map Prod.fst).countP q := by
      rw [countP_map]
      rfl
    _ = (scanDecisions config rows scan).countP q := by rw [map_fst_zip hlength.le]

theorem countP_dayRows_le {bound : ℤ}
    (hscan : ∀ (written : List AlertRow) (scan : PageScan day), (∀ row ∈ written, OwnRow config day
      row) → (written.countP p : ℤ) ≤ bound → ((written.countP p + (scanRows config (before ++
      written) scan).countP p : ℕ) : ℤ) ≤ bound) (hown : ∀ row ∈ written, OwnRow config day row)
    (hwritten : (written.countP p : ℤ) ≤ bound) (scans : List (PageScan day)) :
    ((dayRows config before written scans).countP p : ℤ) ≤ bound := by
  induction scans generalizing written with
  | nil => exact hwritten
  | cons scan rest ih =>
    refine ih (own_append hown scan) ?_
    rw [countP_append]
    exact hscan written scan hown hwritten

theorem dayRows_total_le (before : List AlertRow)
    (hbudget : 0 ≤ config.dailyPageBudget) (scans : List (PageScan day)) :
    ((dayRows config before [] scans).countP ordinaryPage : ℤ) ≤
      config.dailyPageBudget := by
  refine countP_dayRows_le ?_ (by simp) (by simpa using hbudget) scans
  intro written scan hown hwritten
  have hnew : (scanRows config (before ++ written) scan).countP ordinaryPage ≤
      placesLeft config (before ++ written) day := by
    refine (countP_scanRows_le scan (q := fun cand =>
      !isPageBudgetExempt cand.triggerClass &&
        cand.data.budgetDeferred == some false) fun cand => ?_).trans ?_
    · rw [ordinaryPage, ordinaryRow, kind_writeAlertRow]
      rfl
    · rw [scanDecisions_eq, countP_marked]
      exact min_le_left _ _
  have hcounted : written.countP ordinaryPage ≤
      written.countP fun row => row.budgetDeferred == some false :=
    countP_mono_left fun row _ hrow => by
      simp only [ordinaryPage, Bool.and_eq_true] at hrow
      exact hrow.2
  have hbefore : 0 ≤ countPagedToday before config.analystId day := Int.natCast_nonneg _
  rw [placesLeft, countPagedToday_append config before hown] at hnew
  omega

theorem dayRows_kind_le (before : List AlertRow) (hcap : 0 ≤ config.budgetPerKindCap)
    {kind : String} (hkind : isPageBudgetExempt kind = false) (scans : List (PageScan day)) :
    ((dayRows config before [] scans).countP (fun row =>
        row.kind == kind && row.budgetDeferred == some false) : ℤ) ≤
      capForKind kind config.budgetPerKindCap := by
  have hnonneg : 0 ≤ capForKind kind config.budgetPerKindCap := by
    unfold capForKind perClassCap
    split_ifs <;> simp [hcap]
  refine countP_dayRows_le ?_ (by simp) (by simpa using hnonneg) scans
  intro written scan hown hwritten
  have hnew : (scanRows config (before ++ written) scan).countP (fun row =>
        row.kind == kind && row.budgetDeferred == some false) ≤
      roomLeft config (before ++ written) day kind := by
    refine (countP_scanRows_le scan (q := fun cand =>
      cand.triggerClass == kind && cand.data.budgetDeferred == some false)
        fun cand => ?_).trans ?_
    · rw [kind_writeAlertRow]
      rfl
    · rw [scanDecisions_eq]
      exact countP_marked_kind_le _ _ _ hkind
  have hbefore : 0 ≤ countPagedTodayByKind before config.analystId day kind := Int.natCast_nonneg _
  rw [roomLeft, countPagedTodayByKind_append config before kind hown] at hnew
  omega

theorem dayDecisions_livenessPaged (config : BudgetConfig)
    (before written : List AlertRow) (scans : List (PageScan day)) :
    ∀ decided ∈ dayDecisions config before written scans, ∀ cand ∈ decided,
      isPageBudgetExempt cand.triggerClass = true → cand.data.budgetDeferred = some false := by
  induction scans generalizing written with
  | nil => simp [dayDecisions]
  | cons scan rest ih =>
    intro decided hdecided cand hcand hexempt
    cases mem_cons.mp hdecided with
    | inl hhead =>
      rw [hhead, scanDecisions_eq] at hcand
      exact marked_exempt hcand hexempt
    | inr htail => exact ih _ decided htail cand hcand hexempt

theorem page_budget_holds_iff (config : BudgetConfig) (before : List AlertRow)
    (scans : List (PageScan day)) :
    PageBudgetHolds config before scans ↔
      0 ≤ config.dailyPageBudget ∧ 0 ≤ config.budgetPerKindCap ∧
        StepsSatisfy (dayStep config before)
          (fun written scan _ => Undisturbed config before written scan)
          [] scans := by
  have hnil : ∀ row ∈ ([] : List AlertRow), OwnRow config day row := by simp
  have hagree := dayDecisions_agree_iff config before hnil scans
  constructor
  · intro hholds
    refine ⟨(Int.natCast_nonneg _).trans hholds.total, ?_, hagree.mp hholds.undisturbed⟩
    exact (Int.natCast_nonneg _).trans (hholds.perKind triggerBand (by decide))
  · rintro ⟨hbudget, hcap, hundisturbed⟩
    exact {
      total := dayRows_total_le before hbudget scans
      perKind := fun kind hkind => dayRows_kind_le before hcap hkind scans
      livenessPaged := dayDecisions_livenessPaged config before [] scans
      undisturbed := hagree.mpr hundisturbed }

def candidateOf (triggerClass severity title : String) : AlertCandidate where
  triggerClass := triggerClass
  severity := severity
  title := title
  targetId := none
  data := ⟨some triggerClass, none, none, none, none⟩
  watermarks := []
  stamped := rfl

def routeDeadScan : PageScan 0 where
  now := 0
  inDay := rfl
  pageable := [(candidateOf "llm_route_dead" "high" "grader gone", true)]
  unsuppressed := by simp [candidateOf]

def bandScan : PageScan 0 where
  now := 0
  inDay := rfl
  pageable := [(candidateOf triggerBand "high" "band crossed", true)]
  unsuppressed := by simp [candidateOf]

/-- Five liveness alerts of earlier scans use up the default budget. -/
theorem liveness_rows_take_places :
    ¬PageBudgetHolds ⟨"alert_trigger_scan", 5, 3⟩ []
      [routeDeadScan, routeDeadScan, routeDeadScan, routeDeadScan, routeDeadScan, bandScan] := by
  intro hholds
  have hmarks := congrArg (map (map fun cand => cand.data.budgetDeferred)) hholds.undisturbed
  exact absurd hmarks (by decide +kernel)

end Legba.Alerts
