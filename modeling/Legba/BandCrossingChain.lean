import Legba.BandCrossingScan
import Legba.TransitionChain

/-!
# Band-crossing reports form a chain

In one scan a desk and a dimension have one key, so at most one candidate
carries a change of theirs, and a key recorded silently has no candidate.  A
change starts at the band of the watermark.  When its row lands, the watermark
takes its target, and otherwise the watermark stays.  So the watermark is the
target of the last change carried, however the rows were capped, rolled up or
rejected.
-/

namespace Legba.Alerts

open KeyGroups LabelledRun TransitionChain List

theorem append_bar_inj {front front' back back' : List Char} (hfront : '|' ∉ front)
    (hfront' : '|' ∉ front') (heq : front ++ '|' :: back = front' ++ '|' :: back') :
    front = front' ∧ back = back' := by
  rcases append_eq_append_iff.mp heq with
    ⟨tail, rfl, htail⟩ | ⟨tail, rfl, htail⟩ <;>
    cases tail <;> simp_all

theorem bandKey_inj {desk desk' dimension dimension' : String} (hdesk : '|' ∉ desk.toList)
    (hdesk' : '|' ∉ desk'.toList) (hkey : bandKey desk dimension = bandKey desk' dimension') :
    desk = desk' ∧ dimension = dimension' := by
  have hlists := congrArg String.toList hkey
  simp only [bandKey, String.toList_append, append_assoc] at hlists
  have hbar : ∀ rest : List Char, "|".toList ++ rest = '|' :: rest := fun _ => rfl
  obtain ⟨hfront, hback⟩ := append_bar_inj hdesk hdesk' hlists
  exact ⟨String.toList_inj.mp hfront, String.toList_inj.mp hback⟩

def BandScan.cells (scan : BandScan) : List BandCell :=
  scan.desked.flatMap Scorecard.cells

variable {scan : BandScan} {cell : BandCell} {log : BandLog}

theorem mem_cells :
    cell ∈ scan.cells ↔ ∃ head ∈ scan.heads, head.desk ≠ "" ∧
      ∃ entry ∈ head.dimensions, entry.2 ≠ "" ∧
        cell = ⟨head.desk, entry.1, entry.2, head.rowId,
          head.bandingSemantics, head.dampingSemantics⟩ := by
  simp [BandScan.cells, BandScan.desked, Scorecard.cells, and_assoc, @eq_comm _ cell]

theorem cell_plain (hcell : cell ∈ scan.cells) : '|' ∉ cell.desk.toList := by
  obtain ⟨head, _, _, entry, _, _, rfl⟩ := mem_cells.mp hcell
  exact head.plainDesk

theorem scorecard_keys_nodup (head : Scorecard) : (head.cells.map BandCell.key).Nodup := by
  have hnames : ((head.dimensions.filter fun entry =>
      entry.2 != "").map Prod.fst).Nodup :=
    head.distinct.sublist (filter_sublist.map _)
  have hkeys : head.cells.map BandCell.key =
      ((head.dimensions.filter fun entry => entry.2 != "").map
        Prod.fst).map (bandKey head.desk) := by
    rw [Scorecard.cells, map_map, map_map]
    rfl
  rw [hkeys]
  exact hnames.map fun _ _ hkey => (bandKey_inj head.plainDesk head.plainDesk hkey).2

theorem cell_keys_nodup (scan : BandScan) : (scan.cells.map BandCell.key).Nodup := by
  have hdesks : (scan.desked.map Scorecard.desk).Nodup := by
    have hdistinct := scan.distinctDesks
    rw [filter_map] at hdistinct
    exact hdistinct
  rw [BandScan.cells, map_flatMap, nodup_flatMap]
  refine ⟨fun head _ => scorecard_keys_nodup head, ?_⟩
  refine (pairwise_map.mp hdesks).imp fun {head other} hne => ?_
  intro key hkey hother
  obtain ⟨cell, hcell, rfl⟩ := mem_map.mp hkey
  obtain ⟨twin, htwin, htwinKey⟩ := mem_map.mp hother
  simp only [Scorecard.cells, mem_map] at hcell htwin
  obtain ⟨_, _, rfl⟩ := hcell
  obtain ⟨_, _, rfl⟩ := htwin
  exact hne (bandKey_inj other.plainDesk head.plainDesk htwinKey).1.symm

theorem cell_unique {other : BandCell} (hcell : cell ∈ scan.cells)
    (hother : other ∈ scan.cells) (hkey : cell.key = other.key) :
    cell = other :=
  inj_on_of_nodup_map (cell_keys_nodup scan) hcell hother hkey

theorem setAll_apply {marks : List (String × BandState)} (hnodup : (marks.map Prod.fst).Nodup)
    (watermarks : BandWatermarks) (key : String) :
    setAll watermarks marks key = (marks.lookup key).or (watermarks key) := by
  induction marks generalizing watermarks with
  | nil => rfl
  | cons mark marks ih =>
    obtain ⟨name, state⟩ := mark
    rw [map_cons, nodup_cons] at hnodup
    have hrest := ih hnodup.2 (Function.update watermarks name (some state))
    refine hrest.trans ?_
    by_cases hkey : key = name
    · subst hkey
      have hnone : marks.lookup key = none := by
        rw [lookup_eq_none_iff]
        intro other hother
        rw [bne_iff_ne]
        exact fun heq => hnodup.1 (mem_map.mpr ⟨other, hother, heq.symm⟩)
      simp [hnone]
    · have hne : (key == name) = false := beq_false_of_ne hkey
      simp [lookup_cons, hne, Function.update_of_ne hkey]

/-! ## The changes of one scan -/

section

variable {log : BandLog} {scan : BandScan}

theorem reports_of_candidates (head : Scorecard) (seeded : Bool) (watermarks : BandWatermarks) :
    ((head.candidates seeded watermarks).flatMap BandAlert.reports).Perm
      (head.reports seeded watermarks) := by
  have hmigrations : ∀ reports : List BandReport,
      (migrationCandidates head.desk reports).flatMap BandAlert.reports =
        reports := by
    intro reports
    cases reports with
    | nil => rfl
    | cons first rest => exact append_nil _
  have hsingles : ∀ reports : List BandReport,
      (reports.map crossingCandidate).flatMap BandAlert.reports = reports := by
    intro reports
    rw [flatMap_map]
    exact flatMap_singleton' _
  rw [Scorecard.candidates, flatMap_append, hmigrations, hsingles]
  refine perm_append_comm.trans ?_
  exact filter_append_perm BandReport.isMigration _

def scanReports (log : BandLog) (scan : BandScan) : List BandReport :=
  scan.cells.filterMap (BandCell.report? log.seeded log.watermarks)

theorem bandPageable_reports (log : BandLog) (scan : BandScan) :
    ((bandPageable log scan).flatMap BandAlert.reports).Perm
      (scanReports log scan) := by
  have hothers : (scan.others.map fun cand =>
      (⟨cand, []⟩ : BandAlert)).flatMap BandAlert.reports = [] := by
    simp [flatMap_map]
  refine (capDesks_perm BandAlert.alert foldBands (fun _ _ _ _ => rfl)
    _ _).trans ?_
  rw [flatMap_append, hothers, append_nil, bandCandidates,
    flatMap_assoc, scanReports, BandScan.cells, filterMap_flatMap]
  exact Perm.flatMap_left _ fun head _ => reports_of_candidates head log.seeded log.watermarks

theorem landedReports_sublist (log : BandLog) (scan : BandScan) :
    (landedReports log scan).Sublist ((bandPageable log scan).flatMap BandAlert.reports) := by
  have hall : (bandPageable log scan).flatMap BandAlert.reports =
      (bandPageable log scan).zipIdx.flatMap fun item => item.1.reports := by
    rw [← flatMap_map Prod.fst, zipIdx_map_fst]
  rw [hall]
  exact filter_sublist.flatMap _

variable {report : BandReport} {watermarks : BandWatermarks}

theorem landed_subset (hlanded : report ∈ landedReports log scan) : report ∈ scanReports log scan :=
  (bandPageable_reports log scan).mem_iff.mp ((landedReports_sublist log scan).subset hlanded)

theorem report_key {cell : BandCell} {seeded : Bool}
    (hreport : cell.report? seeded watermarks = some report) : report.key = cell.key := by
  unfold BandCell.report? at hreport
  split at hreport <;> simp only [Option.some.injEq, reduceCtorEq] at hreport
  rw [← hreport]
  rfl

theorem silent_key {cell : BandCell} {mark : String × BandState} {seeded : Bool}
    (hmark : cell.silent? seeded watermarks = some mark) : mark = (cell.key, cell.current) := by
  unfold BandCell.silent? at hmark
  split at hmark <;> simp_all

theorem landed_keys_nodup (log : BandLog) (scan : BandScan) :
    ((landedReports log scan).map BandReport.key).Nodup := by
  have hall : ((scanReports log scan).map BandReport.key).Nodup :=
    filterMap_keys_nodup (fun _ _ hreport => report_key hreport) (cell_keys_nodup scan)
  have hpageable := ((bandPageable_reports log scan).map BandReport.key).nodup_iff.mpr hall
  exact hpageable.sublist ((landedReports_sublist log scan).map _)

theorem bandSilent_eq (log : BandLog) (scan : BandScan) :
    bandSilent log scan = scan.cells.filterMap (BandCell.silent? log.seeded log.watermarks) := by
  rw [bandSilent, BandScan.cells, filterMap_flatMap]

theorem silent_keys_nodup (log : BandLog) (scan : BandScan) :
    ((bandSilent log scan).map Prod.fst).Nodup := by
  rw [bandSilent_eq]
  exact filterMap_keys_nodup (fun _ _ hmark => by rw [silent_key hmark]) (cell_keys_nodup scan)

theorem landed_spec (hlanded : report ∈ landedReports log scan) :
    log.watermarks report.key = some report.before ∧
      report.fromBand ≠ report.toBand ∧ '|' ∉ report.desk.toList ∧
      (bandSilent log scan).lookup report.key = none := by
  obtain ⟨cell, hcell, hreport⟩ := mem_filterMap.mp (landed_subset hlanded)
  have hkey := report_key hreport
  have hsilent : (bandSilent log scan).lookup report.key = none := by
    rw [lookup_eq_none_iff]
    intro mark hmark
    rw [bne_iff_ne]
    intro heq
    rw [bandSilent_eq] at hmark
    obtain ⟨other, hother, hother?⟩ := mem_filterMap.mp hmark
    have hsame : cell = other := by
      refine cell_unique hcell hother ?_
      rw [← hkey, heq, silent_key hother?]
    unfold BandCell.report? at hreport
    unfold BandCell.silent? at hother?
    split at hreport <;> simp_all
  unfold BandCell.report? at hreport
  split at hreport <;> simp only [Option.some.injEq, reduceCtorEq] at hreport
  rename_i prev hcrossed
  subst hreport
  unfold BandCell.observed observeBand at hcrossed
  split at hcrossed
  · rename_i hprev
    split_ifs at hcrossed with hband
    rw [BandObservation.crossed.injEq] at hcrossed
    subst hcrossed
    exact ⟨hprev, hband, cell_plain hcell, hsilent⟩
  · simp at hcrossed

theorem silent_spec {key : String} {state : BandState}
    (hsilent : (bandSilent log scan).lookup key = some state) :
    log.seeded = false ∨ log.watermarks key = none ∨
      ∃ prev, log.watermarks key = some prev ∧ prev.band = state.band := by
  obtain ⟨before, after, hsplit, _⟩ := lookup_eq_some_iff.mp hsilent
  have hmem : (key, state) ∈ bandSilent log scan := by simp [hsplit]
  rw [bandSilent_eq] at hmem
  obtain ⟨cell, hcell, hmark⟩ := mem_filterMap.mp hmem
  have hcurrent := silent_key hmark
  rw [Prod.mk.injEq] at hcurrent
  unfold BandCell.silent? BandCell.observed observeBand at hmark
  rw [← hcurrent.1] at hmark
  rw [hcurrent.2]
  cases hseeded : log.seeded with
  | false => exact .inl rfl
  | true =>
    cases hprev : log.watermarks key with
    | none => exact .inr (.inl rfl)
    | some prev =>
      refine .inr (.inr ⟨prev, rfl, ?_⟩)
      simp only [hseeded, hprev] at hmark
      by_contra hband
      simp [hband] at hmark

end

/-! ## The chain -/

def BandLog.carriedAt (log : BandLog) (key : String) : List BandReport :=
  log.carried.filter fun report => report.key == key

def BandLog.carriedFor (log : BandLog) (desk dimension : String) : List BandReport :=
  log.carried.filter fun report => report.desk == desk && report.dimension == dimension

/-- The changes carried for a desk and a dimension start at the band first
recorded and follow one another, and a change from the same band comes only
after a change back to it. -/
structure BandLog.Chained (log : BandLog) : Prop where
  linked : ∀ desk dimension,
    Linked BandReport.fromBand BandReport.toBand
      (log.firstBand (bandKey desk dimension)) (log.carriedFor desk dimension)
  returns : ∀ desk dimension before middle after report again,
    log.carriedFor desk dimension = before ++ report :: (middle ++ again :: after) →
    again.fromBand = report.fromBand →
    ∃ back ∈ middle, back.toBand = report.fromBand

def RowsLand (log : BandLog) (scan : BandScan) : Prop :=
  ∀ position < (bandPageable log scan).length, scan.lands position = true

def HeadsRecorded (scan : BandScan) (next : BandLog) : Prop :=
  ∀ head ∈ scan.heads, head.desk ≠ "" → ∀ entry ∈ head.dimensions,
    entry.2 ≠ "" →
    (next.watermarks (bandKey head.desk entry.1)).map BandState.band = some entry.2

structure BandLog.Tracks (log : BandLog) : Prop where
  plain : ∀ report ∈ log.carried, '|' ∉ report.desk.toList
  unseeded : log.seeded = false → ∀ key, log.watermarks key = none
  linked : ∀ key, Linked BandReport.fromBand BandReport.toBand
    (log.firstBand key) (log.carriedAt key)
  current : ∀ key,
    lastValue BandReport.toBand (log.firstBand key) (log.carriedAt key) =
      (log.watermarks key).map BandState.band

theorem tracks_bandStart : BandLog.start.Tracks where
  plain := by simp [BandLog.start]
  unseeded := fun _ _ => rfl
  linked := fun _ => trivial
  current := fun _ => rfl

theorem firstBand_isSome (htracks : log.Tracks) {key : String} {state : BandState}
    (hstate : log.watermarks key = some state) : ∃ band, log.firstBand key = some band := by
  cases hfirst : log.firstBand key with
  | some band => exact ⟨band, rfl⟩
  | none =>
    have hlinked := htracks.linked key
    have hcurrent := htracks.current key
    rw [hfirst] at hlinked hcurrent
    cases hcarried : log.carriedAt key with
    | nil =>
      rw [hcarried, hstate] at hcurrent
      simp at hcurrent
    | cons report rest =>
      rw [hcarried] at hlinked
      exact absurd hlinked.1 (by simp)

section

variable {log next : BandLog} {scan : BandScan}

theorem lookup_landed (log : BandLog) (scan : BandScan) (key : String) :
    ((landedReports log scan).map fun report => (report.key, report.after)).lookup key =
      ((landedReports log scan).filter fun report =>
        report.key == key).head?.map BandReport.after := by
  induction landedReports log scan with
  | nil => rfl
  | cons report reports ih =>
    by_cases hkey : report.key = key
    · subst hkey
      simp
    · have hne : (key == report.key) = false := beq_false_of_ne fun heq => hkey heq.symm
      have hne' : (report.key == key) = false := beq_false_of_ne hkey
      simp [lookup_cons, hne, ih, hne']

section

variable (hstep : bandStep log scan = some next)

include hstep

theorem bandStep_watermarks (key : String) :
    next.watermarks key =
      (((landedReports log scan).filter fun report =>
        report.key == key).head?.map BandReport.after).or
        (((bandSilent log scan).lookup key).or (log.watermarks key)) := by
  have hlanded : (((landedReports log scan).map fun report =>
      (report.key, report.after)).map Prod.fst).Nodup := by
    rw [map_map]
    exact landed_keys_nodup log scan
  rw [← Option.some.inj hstep, ← lookup_landed]
  change setAll _ _ key = _
  rw [setAll_apply hlanded, setAll_apply (silent_keys_nodup log scan)]

theorem bandStep_carriedAt (key : String) :
    next.carriedAt key = log.carriedAt key ++
      (landedReports log scan).filter fun report => report.key == key := by
  rw [← Option.some.inj hstep, BandLog.carriedAt, filter_append]
  rfl

theorem bandStep_firstBand (key : String) :
    next.firstBand key = (log.firstBand key).or
      (((bandSilent log scan).lookup key).map BandState.band) := by
  rw [← Option.some.inj hstep]
  cases hfirst : log.firstBand key <;> simp [hfirst]

end

theorem tracks_bandStep_key (htracks : log.Tracks)
    (hstep : bandStep log scan = some next) (key : String) :
    Linked BandReport.fromBand BandReport.toBand (next.firstBand key) (next.carriedAt key) ∧
      lastValue BandReport.toBand (next.firstBand key) (next.carriedAt key) =
        (next.watermarks key).map BandState.band := by
  have hlinked := htracks.linked key
  have hcurrent := htracks.current key
  rw [bandStep_watermarks hstep, bandStep_carriedAt hstep, bandStep_firstBand hstep]
  rcases filter_key_cases (landed_keys_nodup log scan) key with hnone | ⟨report, hlanded, rfl, hone⟩
  · rw [hnone, append_nil]
    cases hsilent : (bandSilent log scan).lookup key with
    | none => simpa using ⟨hlinked, hcurrent⟩
    | some state =>
      have hfresh : log.watermarks key = none →
          Linked BandReport.fromBand BandReport.toBand
              ((log.firstBand key).or (some state.band))
              (log.carriedAt key) ∧
            lastValue BandReport.toBand
              ((log.firstBand key).or (some state.band))
              (log.carriedAt key) = some state.band := by
        intro hmark
        rw [hmark] at hcurrent
        obtain ⟨hnil, hfirst⟩ := eq_nil_of_lastValue_eq_none hcurrent
        simp [hnil, hfirst]
      rcases silent_spec hsilent with hunseeded | hmark | ⟨prev, hprev, hband⟩
      · simpa using hfresh (htracks.unseeded hunseeded key)
      · simpa using hfresh hmark
      · obtain ⟨band, hfirst⟩ := firstBand_isSome htracks hprev
        rw [hfirst] at hlinked hcurrent ⊢
        rw [hprev, Option.map_some, hband] at hcurrent
        simpa using ⟨hlinked, hcurrent⟩
  · obtain ⟨hbefore, hmoves, _, hsilent⟩ := landed_spec hlanded
    obtain ⟨band, hfirst⟩ := firstBand_isSome htracks hbefore
    rw [hfirst, hbefore] at hcurrent
    rw [hfirst] at hlinked
    rw [hone, hsilent, hfirst]
    refine ⟨linked_append_singleton.mpr ⟨hlinked, hcurrent, hmoves⟩, ?_⟩
    exact lastValue_append_singleton _ _ _

theorem tracks_bandStep (htracks : log.Tracks)
    (hstep : bandStep log scan = some next) : next.Tracks where
  plain := by
    intro report hreport
    rw [← Option.some.inj hstep] at hreport
    rcases mem_append.mp hreport with hold | hlanded
    · exact htracks.plain report hold
    · exact (landed_spec hlanded).2.2.1
  unseeded := by
    intro hseeded
    rw [← Option.some.inj hstep] at hseeded
    simp at hseeded
  linked := fun key => (tracks_bandStep_key htracks hstep key).1
  current := fun key => (tracks_bandStep_key htracks hstep key).2

theorem landed_of_rowsLand (hland : RowsLand log scan) {report : BandReport}
    (hreport : report ∈ scanReports log scan) : report ∈ landedReports log scan := by
  rw [← (bandPageable_reports log scan).mem_iff] at hreport
  obtain ⟨alert, halert, hcarries⟩ := mem_flatMap.mp hreport
  obtain ⟨position, hlt, hget⟩ := mem_iff_getElem.mp halert
  refine mem_flatMap.mpr ⟨(alert, position), ?_, hcarries⟩
  refine mem_filter.mpr ⟨?_, hland position hlt⟩
  rw [mk_mem_zipIdx_iff_getElem?, getElem?_eq_getElem hlt, hget]

variable {cell : BandCell}

theorem landed_at_cell (hcell : cell ∈ scan.cells) {report : BandReport}
    (hlanded : report ∈ landedReports log scan) (hkey : report.key = cell.key) :
    cell.report? log.seeded log.watermarks = some report := by
  obtain ⟨other, hother, hother?⟩ := mem_filterMap.mp (landed_subset hlanded)
  have heq : other = cell := by
    refine cell_unique hother hcell ?_
    rw [← report_key hother?, hkey]
  rw [← heq, hother?]

theorem lookup_of_mem {marks : List (String × BandState)}
    (hnodup : (marks.map Prod.fst).Nodup) {key : String} {state : BandState}
    (hmem : (key, state) ∈ marks) : marks.lookup key = some state := by
  obtain ⟨before, after, rfl⟩ := append_of_mem hmem
  refine lookup_eq_some_iff.mpr ⟨before, after, rfl, ?_⟩
  rw [map_append, nodup_append] at hnodup
  intro mark hmark
  rw [bne_iff_ne]
  exact fun heq => hnodup.2.2 _ (mem_map_of_mem hmark) key (by simp) heq.symm

theorem silent_at_cell (hcell : cell ∈ scan.cells) :
    (bandSilent log scan).lookup cell.key =
      (cell.silent? log.seeded log.watermarks).map Prod.snd := by
  cases hsilent : cell.silent? log.seeded log.watermarks with
  | some mark =>
    obtain rfl := silent_key hsilent
    refine lookup_of_mem (silent_keys_nodup log scan) ?_
    rw [bandSilent_eq]
    exact mem_filterMap.mpr ⟨cell, hcell, hsilent⟩
  | none =>
    rw [Option.map_none, lookup_eq_none_iff]
    intro mark hmark
    rw [bandSilent_eq] at hmark
    obtain ⟨other, hother, hother?⟩ := mem_filterMap.mp hmark
    rw [bne_iff_ne]
    intro heq
    have hsame : cell = other := by
      refine cell_unique hcell hother ?_
      rw [heq, silent_key hother?]
    rw [hsame, hother?] at hsilent
    simp at hsilent

theorem cell_recorded (hstep : bandStep log scan = some next)
    (hland : RowsLand log scan) (hcell : cell ∈ scan.cells) :
    (next.watermarks cell.key).map BandState.band = some cell.current.band := by
  rw [bandStep_watermarks hstep, silent_at_cell hcell]
  rcases filter_key_cases (landed_keys_nodup log scan) cell.key with
    hnone | ⟨report, hlanded, hkey, hone⟩
  · rw [hnone]
    cases hobserved : cell.observed log.seeded log.watermarks with
    | crossed prev =>
      have hreport : cell.report? log.seeded log.watermarks =
          some ⟨cell.desk, cell.dimension, prev, cell.current⟩ := by
        simp [BandCell.report?, hobserved]
      have hmem := landed_of_rowsLand hland (mem_filterMap.mpr ⟨cell, hcell, hreport⟩)
      rw [filter_eq_nil_iff] at hnone
      exact absurd (beq_iff_eq.mpr (report_key hreport)) (hnone _ hmem)
    | seeds => simp [BandCell.silent?, hobserved]
    | refreshed => simp [BandCell.silent?, hobserved]
    | unchanged =>
      have hsilent : cell.silent? log.seeded log.watermarks = none := by
        simp [BandCell.silent?, hobserved]
      rw [hsilent]
      unfold BandCell.observed observeBand at hobserved
      split at hobserved
      · rename_i prev _ hprev
        split_ifs at hobserved with hband
        simp [hprev, hband]
      · simp at hobserved
  · have hreport := landed_at_cell hcell hlanded hkey
    rw [hone]
    unfold BandCell.report? at hreport
    split at hreport <;> simp only [Option.some.injEq, reduceCtorEq] at hreport
    rw [← hreport]
    rfl

theorem headsRecorded_of_rowsLand (hstep : bandStep log scan = some next)
    (hland : RowsLand log scan) : HeadsRecorded scan next :=
  fun _ hhead hdesk _ hentry hband =>
    cell_recorded hstep hland (mem_cells.mpr ⟨_, hhead, hdesk, _, hentry, hband, rfl⟩)

end

theorem carriedFor_eq (htracks : log.Tracks) (desk dimension : String) :
    log.carriedFor desk dimension = [] ∨
      log.carriedFor desk dimension = log.carriedAt (bandKey desk dimension) := by
  by_cases hplain : '|' ∈ desk.toList
  · refine .inl (filter_eq_nil_iff.mpr fun report hreport hsame => ?_)
    rw [Bool.and_eq_true, beq_iff_eq] at hsame
    exact htracks.plain report hreport (hsame.1 ▸ hplain)
  · refine .inr (filter_congr fun report hreport => ?_)
    rw [Bool.eq_iff_iff, Bool.and_eq_true, beq_iff_eq, beq_iff_eq, beq_iff_eq]
    constructor
    · rintro ⟨rfl, rfl⟩
      rfl
    · exact bandKey_inj (htracks.plain report hreport) hplain

theorem chained_of_tracks (htracks : log.Tracks) : log.Chained := by
  have hlinked : ∀ desk dimension,
      Linked BandReport.fromBand BandReport.toBand
        (log.firstBand (bandKey desk dimension))
        (log.carriedFor desk dimension) := by
    intro desk dimension
    rcases carriedFor_eq htracks desk dimension with hnil | hat
    · rw [hnil]
      trivial
    · rw [hat]
      exact htracks.linked _
  refine ⟨hlinked, ?_⟩
  intro desk dimension before middle after report again hsplit hsame
  have hchain := hlinked desk dimension
  rw [hsplit] at hchain
  exact hchain.returns hsame

end Legba.Alerts
