import Legba.AlertScanRuns
import Legba.CriticFold
import Legba.DeskCap

/-!
# The verified findings a scan reads

A finding over the verified bar is alerted once: its watermark keeps it out of
every later scan.  The scan which seeds the class marks what it reads and
alerts nothing.  Two things break this.  The prune drops a watermark after
seven days, whatever the window of the query is, and the query reads at most
`maxFindingsPerScan` findings, also while it seeds.
-/

namespace Legba.Alerts

open CriticFold LabelledRun List

/-! ## The query -/

def structuralVerifyExemptAnalysts : List String :=
  ["graph_mining", "anomaly_detection", "band_calibration_tracker",
    "calibration_tracking", "unit_correctness_scorer",
    "composition_lineage_sweep", "adversarial_signals",
    "situation_clustering", "thematic_proposal", "indicator_tracker",
    "collection_gap", "hypothesis_lifecycle", "signals_retention",
    "analyst_traces_retention", "geo_convergence_scan", "fact_decay_scan",
    "source_track_record", "narrative_mapper", "desk_baseline",
    "desk_reference", "research_measurement", "correctness_grader"]

/-- What `str` does with a tag. -/
structure TagText where
  strip : String → String
  lower : String → String

def TagText.after? (text : TagText) (leading tag : String) : Option String :=
  let stripped := text.strip tag
  if leading.toList.isPrefixOf (text.lower stripped).toList then
    some (text.lower (text.strip (String.ofList (stripped.toList.drop leading.length))))
  else none

/-- `_SEVERITY_RANK` -/
def severityLevels : List (String × ℤ) :=
  [("info", 0), ("low", 1), ("moderate", 2), ("medium", 2), ("elevated", 3),
    ("high", 4), ("critical", 5)]

def severityFromTags (text : TagText) (tags : List String) : Option String :=
  (tags.foldl (fun best tag =>
    match text.after? "severity:" tag with
    | none => best
    | some level =>
      match severityLevels.lookup level with
      | none => best
      | some rank => if best.2 < rank then (some level, rank) else best)
    ((none, -1) : Option String × ℤ)).1

def severityDeltaNearMiss : List (String × String) :=
  [("rise", "rose"), ("rising", "rose"), ("fall", "fell"), ("falls", "fell"),
    ("falling", "fell"), ("fallen", "fell")]

def severityDeltaLevels : List String := ["rose", "fell", "steady", "new"]

def severityDeltaFromTags (text : TagText) (tags : List String) : Option String :=
  tags.foldl (fun level tag =>
    match text.after? "severity_delta:" tag with
    | none => level
    | some spelled =>
      let candidate := (severityDeltaNearMiss.lookup spelled).getD spelled
      if severityDeltaLevels.contains candidate then some candidate
      else level) none

def findingSeverity (text : TagText) (row : AnalystRow) : String :=
  let column := text.lower (text.strip (row.severity.getD ""))
  if ["high", "critical"].contains column then column
  else
    match severityFromTags text row.tags with
    | some tag => if ["high", "critical"].contains tag then tag else "high"
    | none => "high"

def severityGate (row : AnalystRow) : Bool :=
  row.severity.any (["high", "critical"].contains ·) ||
    row.tags.any (["severity:high", "severity:critical"].contains ·)

/-- The outer rows of `_VERIFIED_FINDINGS_SQL`, before its anti-join with the
watermarks. -/
def findingInWindow (now : Datetime) (windowHours : ℤ) (row : AnalystRow) :
    Bool :=
  row.kind == "finding" && row.supersededBy.isNone &&
    decide (now - seconds (3600 * windowHours) < row.producedAt) &&
    row.analystId.any (fun analyst => !structuralVerifyExemptAnalysts.contains analyst) &&
    severityGate row

def FindingRow.ofOutput (text : TagText) (row : AnalystRow) : FindingRow where
  findingId := row.id
  targetId := row.targetId
  title := row.title.getD ""
  severity := findingSeverity text row
  deltaTag := severityDeltaFromTags text row.tags

def findingsOverBar (now : Datetime) (windowHours : ℤ) (floor : ℚ)
    (rows : List AnalystRow) : List AnalystRow :=
  (rows.filter fun row =>
      findingInWindow now windowHours row && meetsFloor rows floor row).insertionSort
    fun a b => b.producedAt ≤ a.producedAt

structure Population where
  rows : List AnalystRow
  distinct : (rows.map AnalystRow.id).Nodup
  uuids : ∀ row ∈ rows, row.id ≠ seedKey

structure VerifiedScan where
  now : Datetime
  budgetNow : Datetime
  options : ScanOptions
  windowHours : ℤ
  floor : ℚ
  text : TagText
  population : Population
  others : List AlertCandidate
  silentOthers : List WatermarkUpsert
  othersOwn : ∀ cand ∈ others, ∀ mark ∈ cand.watermarks,
    mark.triggerClass ≠ triggerFinding ∧ mark.triggerClass ≠ triggerFindingState
  silentOwn : ∀ mark ∈ silentOthers, mark.triggerClass ≠ triggerFinding ∧
    mark.triggerClass ≠ triggerFindingState

def VerifiedScan.overBar (scan : VerifiedScan) : List FindingRow :=
  (findingsOverBar scan.now scan.windowHours scan.floor
    scan.population.rows).map (FindingRow.ofOutput scan.text)

def VerifiedScan.toAlertScan (scan : VerifiedScan) : AlertScan where
  now := scan.now
  budgetNow := scan.budgetNow
  options := scan.options
  findings := scan.overBar
  others := scan.others
  silentOthers := scan.silentOthers
  suppressedLands := fun _ => true
  lands := fun _ => true
  othersOwn := scan.othersOwn
  silentOwn := scan.silentOwn

def AlertCandidate.carriedFindings (cand : AlertCandidate) : List String :=
  (cand.watermarks.filter fun mark => mark.triggerClass == triggerFinding).map WatermarkUpsert.key

def writtenRows (state : AlertState) (scan : AlertScan) : List AlertCandidate :=
  (findingScan state scan).suppressed ++ (decidedItems state scan).map Prod.fst

def losesMark (watermarks : Watermarks) (now : Datetime) (findingId : String) : Bool :=
  (watermarks triggerFinding findingId).isSome &&
    (pruneFindings now watermarks triggerFinding findingId).isNone

/-- The tables of the scan, and the record of a run: the findings alerted so
far, those over the bar at the scan which seeded the class, those of them it
did not read, and those whose watermark was pruned. -/
structure FindingLog where
  alerts : AlertState
  alerted : List String
  atSeeding : List String
  unread : List String
  pruned : String → Bool

def FindingLog.start (rows : List AlertRow) (others : Watermarks) : FindingLog where
  alerts :=
    { watermarks := fun triggerClass key =>
        if triggerClass = triggerFinding then none else others triggerClass key
      rows := rows
      pages := [] }
  alerted := []
  atSeeding := []
  unread := []
  pruned := fun _ => false

def FindingLog.seeded (log : FindingLog) : Bool :=
  (log.alerts.watermarks triggerFinding seedKey).isSome

/-- The findings the scan reads: the newest of those over the bar which carry
no watermark. -/
def FindingLog.page (log : FindingLog) (scan : VerifiedScan) : List String :=
  (fetched log.alerts scan.toAlertScan).map FindingRow.findingId

def FindingLog.pruning (log : FindingLog) (scan : VerifiedScan) : String → Bool :=
  fun findingId => log.pruned findingId || losesMark log.alerts.watermarks scan.now findingId

def verifiedStep (log : FindingLog) (scan : VerifiedScan) : Option FindingLog :=
  let qualified := scan.overBar.map FindingRow.findingId
  some {
    alerts := handle log.alerts scan.toAlertScan
    alerted := log.alerted ++
      (writtenRows log.alerts scan.toAlertScan).flatMap AlertCandidate.carriedFindings
    atSeeding := if log.seeded then log.atSeeding else qualified
    unread :=
      if log.seeded then log.unread
      else qualified.filter fun findingId => !(log.page scan).contains findingId
    pruned := log.pruning scan }

/-- No finding was alerted twice, and none which was there at the seeding. -/
structure FindingLog.AlertedOnce (log : FindingLog) : Prop where
  once : log.alerted.Nodup
  notSeeded : ∀ findingId ∈ log.alerted, findingId ∉ log.atSeeding

/-- Nothing the scan reads lost its watermark to the prune, or was over the
bar when the class was seeded and not read. -/
def PageIsNew (log : FindingLog) (scan : VerifiedScan) (_ : FindingLog) :
    Prop :=
  log.seeded = true → ∀ findingId ∈ log.page scan,
    log.pruning scan findingId = false ∧ findingId ∉ log.unread

/-! ## What the written rows carry -/

theorem upsertAll_isSome (now : Datetime) (fired : Bool) (upserts : List WatermarkUpsert)
    (triggerClass key : String) (watermarks : Watermarks) :
    (upsertAll now fired watermarks upserts triggerClass key).isSome ↔
      (watermarks triggerClass key).isSome ∨ ∃ mark ∈ upserts,
        mark.triggerClass = triggerClass ∧ mark.key = key := by
  by_cases htouched : ∃ mark ∈ upserts, mark.triggerClass = triggerClass ∧ mark.key = key
  · obtain ⟨row, hrow, _⟩ := upsertAll_touched now fired htouched watermarks
    simp [hrow, htouched]
  · have huntouched : ∀ mark ∈ upserts, mark.triggerClass = triggerClass → mark.key ≠ key :=
      fun mark hmark hclass hkey => htouched ⟨mark, hmark, hclass, hkey⟩
    rw [upsertAll_untouched now fired huntouched]
    simp [htouched]

variable {findingId key : String} {state : AlertState} {scan : VerifiedScan}
  {log next : FindingLog}

theorem mem_carriedFindings {cand : AlertCandidate} :
    findingId ∈ cand.carriedFindings ↔ ∃ mark ∈ cand.watermarks,
      mark.triggerClass = triggerFinding ∧ mark.key = findingId := by
  simp [AlertCandidate.carriedFindings, and_assoc]

theorem carriedFindings_findingCandidate (options : ScanOptions)
    (watermarks : Watermarks) (now : Datetime) (row : FindingRow) :
    (findingCandidate options watermarks now row).carriedFindings = [row.findingId] := by
  have hne : (triggerFindingState == triggerFinding) = false := by decide
  have hdesk : ∀ suppressed, (deskMarks suppressed now row).filter
      (fun mark => mark.triggerClass == triggerFinding) = [] := by
    intro suppressed
    unfold deskMarks
    split <;> simp [hne]
  simp [AlertCandidate.carriedFindings, findingCandidate, findingMark, hdesk]

theorem carriedFindings_rollup (desk : String) (cap : ℕ)
    (first : AlertCandidate) (rest : List AlertCandidate) :
    (deskRollup desk cap first rest).carriedFindings =
      (first :: rest).flatMap AlertCandidate.carriedFindings := by
  simp only [AlertCandidate.carriedFindings, deskRollup, filter_flatMap, map_flatMap]
  rfl

theorem marked_watermarks (places : ℕ) (room : String → ℕ) (candidates : List AlertCandidate) :
    (marked places room candidates).map AlertCandidate.watermarks =
      candidates.map AlertCandidate.watermarks := by
  refine ext_getElem? fun position => ?_
  rw [getElem?_map, getElem?_map, marked_getElem?, Option.map_map]
  rfl

theorem decided_carried (state : AlertState) (scan : AlertScan) :
    ((decidedItems state scan).map Prod.fst).flatMap AlertCandidate.carriedFindings =
      (pageable state scan).flatMap AlertCandidate.carriedFindings := by
  have hcarried : ∀ candidates : List AlertCandidate,
      candidates.flatMap AlertCandidate.carriedFindings =
        (candidates.map AlertCandidate.watermarks).flatMap fun marks =>
          (marks.filter fun mark =>
            mark.triggerClass == triggerFinding).map WatermarkUpsert.key :=
    fun candidates => by
      rw [flatMap_map]
      rfl
  rw [decidedItems, zipIdx_map_fst, budgetOn_eq, hcarried, hcarried, marked_watermarks]

theorem others_carry_nothing (scan : AlertScan) :
    scan.others.flatMap AlertCandidate.carriedFindings = [] := by
  rw [flatMap_eq_nil_iff]
  intro cand hcand
  rw [eq_nil_iff_forall_not_mem]
  intro findingId hcarried
  obtain ⟨mark, hmark, hclass, _⟩ := mem_carriedFindings.mp hcarried
  exact (scan.othersOwn cand hcand mark hmark).1 hclass

theorem pruneFindings_seed (now : Datetime) (watermarks : Watermarks) :
    pruneFindings now watermarks triggerFinding seedKey = watermarks triggerFinding seedKey := by
  cases hrow : watermarks triggerFinding seedKey <;> simp [pruneFindings, hrow]

theorem written_carried_seeded {scan : AlertScan}
    (hseeded : (state.watermarks triggerFinding seedKey).isSome) :
    ((writtenRows state scan).flatMap AlertCandidate.carriedFindings).Perm
      ((fetched state scan).map FindingRow.findingId) := by
  have hscan : (pruneFindings scan.now state.watermarks triggerFinding seedKey).isSome := by
    rw [pruneFindings_seed]
    exact hseeded
  have hbuilt : ((fetched state scan).map (findingCandidate scan.options
      (pruneFindings scan.now state.watermarks) scan.now)).flatMap AlertCandidate.carriedFindings =
      (fetched state scan).map FindingRow.findingId := by
    simp only [flatMap_map, carriedFindings_findingCandidate]
    exact map_eq_flatMap.symm
  have hpageable : ((pageable state scan).flatMap
      AlertCandidate.carriedFindings).Perm
      ((findingScan state scan).candidates.flatMap
        AlertCandidate.carriedFindings) := by
    rw [pageable, applyDeskCap_eq]
    refine (capDesks_perm id deskRollup carriedFindings_rollup _ _).trans ?_
    rw [flatMap_append, others_carry_nothing, append_nil]
  rw [writtenRows, flatMap_append, decided_carried]
  refine (hpageable.append_left _).trans ?_
  rw [← flatMap_append, ← hbuilt]
  refine Perm.flatMap_right _ ?_
  simp only [findingScan, scanVerifiedFindings, if_pos hscan]
  refine perm_append_comm.trans ?_
  refine (Perm.of_eq ?_).trans (filter_append_perm
    (fun cand => cand.data.guardSuppressed != some true) _)
  simp [bne]

theorem written_carried_unseeded {scan : AlertScan}
    (hseeded : (state.watermarks triggerFinding seedKey).isSome = false) :
    (writtenRows state scan).flatMap AlertCandidate.carriedFindings = [] := by
  have hscan : ¬(pruneFindings scan.now state.watermarks triggerFinding seedKey).isSome = true := by
    rw [pruneFindings_seed, hseeded]
    exact Bool.false_ne_true
  have hpageable : ((pageable state scan).flatMap AlertCandidate.carriedFindings).Perm [] := by
    rw [pageable, applyDeskCap_eq]
    refine (capDesks_perm id deskRollup carriedFindings_rollup _ _).trans ?_
    simp [findingScan, scanVerifiedFindings, hscan, others_carry_nothing]
  rw [writtenRows, flatMap_append, decided_carried, hpageable.eq_nil]
  simp [findingScan, scanVerifiedFindings, hscan]

theorem landed_carried {lands : ℕ → Bool} (hlands : lands = fun _ => true)
    (items : List (AlertCandidate × ℕ)) (findingId : String) :
    (∃ mark ∈ landedMarks lands items, mark.triggerClass = triggerFinding ∧ mark.key = findingId) ↔
      findingId ∈ (items.map Prod.fst).flatMap AlertCandidate.carriedFindings := by
  subst hlands
  simp only [mem_landedMarks, mem_flatMap, mem_map, mem_carriedFindings]
  constructor
  · rintro ⟨mark, ⟨item, hitem, _, hmark⟩, hmatch⟩
    exact ⟨item.1, ⟨item, hitem, rfl⟩, mark, hmark, hmatch⟩
  · rintro ⟨_, ⟨item, hitem, rfl⟩, mark, hmark, hmatch⟩
    exact ⟨mark, ⟨item, hitem, trivial, hmark⟩, hmatch⟩

def seedingKeys (state : AlertState) (scan : AlertScan) : List String :=
  if (state.watermarks triggerFinding seedKey).isSome then []
  else (fetched state scan).map FindingRow.findingId ++ [seedKey]

theorem silent_keys {scan : AlertScan} :
    (∃ mark ∈ (findingScan state scan).silent ++ scan.silentOthers ++
        seedMarks (findingScan state scan),
      mark.triggerClass = triggerFinding ∧ mark.key = key) ↔
      key ∈ seedingKeys state scan := by
  have hothers : ¬∃ mark ∈ scan.silentOthers, mark.triggerClass = triggerFinding ∧ mark.key = key :=
    fun ⟨mark, hmark, hclass, _⟩ => (scan.silentOwn mark hmark).1 hclass
  simp only [mem_append, or_and_right, exists_or, hothers, or_false]
  unfold seedMarks findingScan scanVerifiedFindings seedingKeys
  rw [pruneFindings_seed]
  split
  · simp
  · simp [findingMark, eq_comm]

theorem beforePaging_marked {scan : AlertScan} (hlands : scan.suppressedLands = fun _ => true) :
    ((beforePaging state scan).watermarks triggerFinding key).isSome ↔
      ((pruneFindings scan.now state.watermarks triggerFinding key).isSome ∨
        key ∈ (findingScan state scan).suppressed.flatMap AlertCandidate.carriedFindings) ∨
      key ∈ seedingKeys state scan := by
  have hsuppressed := landed_carried hlands (findingScan state scan).suppressed.zipIdx key
  rw [zipIdx_map_fst] at hsuppressed
  rw [beforePaging, upsertAll_isSome, silent_keys,
    (writeSuppressed_watermarks _ _ _).1, upsertAll_isSome, hsuppressed]

theorem handle_marked {scan : AlertScan} (hsuppressed : scan.suppressedLands = fun _ => true)
    (hlands : scan.lands = fun _ => true) :
    ((handle state scan).watermarks triggerFinding key).isSome ↔
      (pruneFindings scan.now state.watermarks triggerFinding key).isSome ∨
        key ∈ seedingKeys state scan ∨
        key ∈ (writtenRows state scan).flatMap AlertCandidate.carriedFindings := by
  have hpaged := landed_carried hlands (decidedItems state scan) key
  have hhandle : ((handle state scan).watermarks triggerFinding key).isSome ↔
      ((beforePaging state scan).watermarks triggerFinding key).isSome ∨
        ∃ mark ∈ landedMarks scan.lands (decidedItems state scan),
          mark.triggerClass = triggerFinding ∧ mark.key = key := by
    rw [handle, writePageable_watermarks]
    exact upsertAll_isSome _ _ _ _ _ _
  rw [hhandle, hpaged, beforePaging_marked hsuppressed, writtenRows, flatMap_append, mem_append,
    or_assoc, or_assoc, or_left_comm (b := key ∈ seedingKeys state scan)]

theorem overBar_sublist (scan : VerifiedScan) :
    ∃ rows : List AnalystRow, rows.Perm
      (scan.population.rows.filter fun row =>
        findingInWindow scan.now scan.windowHours row &&
          meetsFloor scan.population.rows scan.floor row) ∧
      scan.overBar.map FindingRow.findingId = rows.map AnalystRow.id := by
  refine ⟨findingsOverBar scan.now scan.windowHours scan.floor
    scan.population.rows, perm_insertionSort _ _, ?_⟩
  rw [VerifiedScan.overBar, map_map]
  rfl

theorem overBar_nodup (scan : VerifiedScan) : (scan.overBar.map FindingRow.findingId).Nodup := by
  obtain ⟨rows, hperm, hids⟩ := overBar_sublist scan
  rw [hids, (hperm.map _).nodup_iff]
  exact scan.population.distinct.sublist (filter_sublist.map _)

theorem overBar_ne_seedKey (hmem : findingId ∈ scan.overBar.map FindingRow.findingId) :
    findingId ≠ seedKey := by
  obtain ⟨rows, hperm, hids⟩ := overBar_sublist scan
  rw [hids] at hmem
  obtain ⟨row, hrow, rfl⟩ := mem_map.mp hmem
  exact scan.population.uuids row (mem_of_mem_filter (hperm.mem_iff.mp hrow))

theorem page_sublist (log : FindingLog) (scan : VerifiedScan) :
    (log.page scan).Sublist (scan.overBar.map FindingRow.findingId) :=
  ((take_sublist _ _).trans filter_sublist).map _

theorem page_unmarked (hpage : findingId ∈ log.page scan) :
    (pruneFindings scan.now log.alerts.watermarks triggerFinding findingId).isSome = false := by
  obtain ⟨row, hrow, rfl⟩ := mem_map.mp hpage
  have hfilter := mem_of_mem_take hrow
  rw [mem_filter] at hfilter
  have hnone : (pruneFindings scan.now log.alerts.watermarks triggerFinding
      row.findingId).isNone := hfilter.2
  rw [← Option.not_isSome, Bool.not_eq_true'] at hnone
  exact hnone

theorem pruneFindings_isSome (now : Datetime) (watermarks : Watermarks) (key : String)
    (hkept : (pruneFindings now watermarks triggerFinding key).isSome) :
    (watermarks triggerFinding key).isSome := by
  unfold pruneFindings at hkept
  cases hrow : watermarks triggerFinding key with
  | none => simp [hrow] at hkept
  | some row => rfl

/-! ## Every scan -/

/-- A finding has been alerted or was there at the seeding exactly when it
carries its watermark, or has lost it, or was not read when the class was
seeded. -/
structure FindingLog.Tracks (log : FindingLog) : Prop where
  unseeded : log.seeded = false →
    (∀ key, log.alerts.watermarks triggerFinding key = none) ∧
      log.alerted = [] ∧ ∀ key, log.pruned key = false
  handled : log.seeded = true → ∀ findingId, findingId ≠ seedKey →
    ((findingId ∈ log.alerted ∨ findingId ∈ log.atSeeding) ↔
      (log.alerts.watermarks triggerFinding findingId).isSome = true ∨
        log.pruned findingId = true ∨ findingId ∈ log.unread)

theorem tracks_start (rows : List AlertRow) (others : Watermarks) :
    (FindingLog.start rows others).Tracks where
  unseeded := fun _ => ⟨fun _ => rfl, rfl, fun _ => rfl⟩
  handled := fun hseeded => by simp [FindingLog.seeded, FindingLog.start] at hseeded

section

variable (hstep : verifiedStep log scan = some next)

include hstep

theorem verifiedStep_seeded : next.seeded = true := by
  rw [← Option.some.inj hstep]
  refine (handle_marked rfl rfl).mpr ?_
  cases hseeded : (log.alerts.watermarks triggerFinding seedKey).isSome with
  | true =>
    rw [pruneFindings_seed]
    exact .inl hseeded
  | false =>
    refine .inr (.inl ?_)
    simp [seedingKeys, hseeded]

theorem alerted_verifiedStep :
    if log.seeded then
      ∃ carried, next.alerted = log.alerted ++ carried ∧ carried.Perm (log.page scan)
    else next.alerted = log.alerted := by
  rw [← Option.some.inj hstep]
  cases hseeded : log.seeded with
  | true => exact ⟨_, rfl, written_carried_seeded hseeded⟩
  | false =>
    change log.alerted ++ _ = log.alerted
    rw [written_carried_unseeded hseeded, append_nil]

theorem marked_verifiedStep (hne : findingId ≠ seedKey) :
    (next.alerts.watermarks triggerFinding findingId).isSome = true ↔
      (pruneFindings scan.now log.alerts.watermarks triggerFinding
        findingId).isSome = true ∨ findingId ∈ log.page scan := by
  rw [← Option.some.inj hstep]
  refine (handle_marked rfl rfl).trans (or_congr_right ?_)
  cases hseeded : (log.alerts.watermarks triggerFinding seedKey).isSome with
  | true =>
    rw [(written_carried_seeded hseeded).mem_iff]
    simp [seedingKeys, hseeded, FindingLog.page]
  | false =>
    rw [written_carried_unseeded hseeded]
    simp [seedingKeys, hseeded, FindingLog.page, hne]

end

theorem tracks_verifiedStep (htracks : log.Tracks)
    (hstep : verifiedStep log scan = some next) : next.Tracks := by
  have hnext := verifiedStep_seeded hstep
  refine ⟨fun hfalse => absurd hfalse (by simp [hnext]), fun _ => ?_⟩
  intro findingId hne
  have halerted := alerted_verifiedStep hstep
  rw [marked_verifiedStep hstep hne]
  have hpruned : next.pruned findingId = log.pruning scan findingId := by
    rw [← Option.some.inj hstep]
  rw [hpruned, FindingLog.pruning, losesMark]
  cases hseeded : log.seeded with
  | true =>
    have hrecord : next.atSeeding = log.atSeeding ∧ next.unread = log.unread := by
      rw [← Option.some.inj hstep]
      simp [hseeded]
    rw [if_pos hseeded] at halerted
    obtain ⟨carried, happend, hperm⟩ := halerted
    have hold := htracks.handled hseeded findingId hne
    have hkept := pruneFindings_isSome scan.now log.alerts.watermarks findingId
    rw [happend, mem_append, hperm.mem_iff, hrecord.1, hrecord.2, or_right_comm, hold]
    cases hmark : (log.alerts.watermarks triggerFinding findingId).isSome <;>
      cases hafter : (pruneFindings scan.now log.alerts.watermarks
        triggerFinding findingId).isSome <;>
      simp_all [or_comm, or_left_comm]
  | false =>
    obtain ⟨hnone, hempty, hunpruned⟩ := htracks.unseeded hseeded
    have hrecord : next.atSeeding = scan.overBar.map FindingRow.findingId ∧
        next.unread = (scan.overBar.map FindingRow.findingId).filter
          fun other => !(log.page scan).contains other := by
      rw [← Option.some.inj hstep]
      simp [hseeded]
    have hsubset := (page_sublist log scan).subset (a := findingId)
    rw [if_neg (by simp [hseeded])] at halerted
    rw [halerted, hempty, hrecord.1, hrecord.2]
    by_cases hpage : findingId ∈ log.page scan
    · simp [hpage, hsubset hpage]
    · simp [hpage, hunpruned, hnone, pruneFindings]

theorem alertedOnce_verifiedStep (htracks : log.Tracks) (honce : log.AlertedOnce)
    (hstep : verifiedStep log scan = some next) : next.AlertedOnce ↔ PageIsNew log scan next := by
  have halerted := alerted_verifiedStep hstep
  cases hseeded : log.seeded with
  | false =>
    rw [if_neg (by simp [hseeded])] at halerted
    have hempty := (htracks.unseeded hseeded).2.1
    refine iff_of_true ⟨?_, ?_⟩ fun hfalse => absurd hfalse (by simp [hseeded])
    · simp [halerted, hempty]
    · simp [halerted, hempty]
  | true =>
    rw [if_pos hseeded] at halerted
    obtain ⟨carried, happend, hperm⟩ := halerted
    have hrecord : next.atSeeding = log.atSeeding := by
      rw [← Option.some.inj hstep]
      simp [hseeded]
    have hpageNodup : carried.Nodup :=
      hperm.nodup_iff.mpr ((overBar_nodup scan).sublist (page_sublist log scan))
    have hnew : (∀ findingId ∈ log.page scan,
        findingId ∉ log.alerted ∧ findingId ∉ log.atSeeding) ↔
        PageIsNew log scan next := by
      simp only [PageIsNew, hseeded, true_implies]
      refine forall₂_congr fun findingId hpage => ?_
      have hne := overBar_ne_seedKey ((page_sublist log scan).subset hpage)
      have hold := htracks.handled hseeded findingId hne
      rw [← not_or, hold, FindingLog.pruning, losesMark, ← Option.not_isSome, page_unmarked hpage]
      simp [and_comm, and_left_comm]
    rw [← hnew]
    constructor
    · intro hnext findingId hpage
      have hcarried := hperm.mem_iff.mpr hpage
      have hnodup := hnext.once
      rw [happend, nodup_append] at hnodup
      refine ⟨fun hold => hnodup.2.2 _ hold _ hcarried rfl, ?_⟩
      rw [← hrecord]
      exact hnext.notSeeded findingId (happend ▸ mem_append_right _ hcarried)
    · intro hpage
      refine ⟨?_, fun findingId hmem => ?_⟩
      · rw [happend, nodup_append]
        refine ⟨honce.once, hpageNodup, ?_⟩
        rintro old hold _ hcarried rfl
        exact (hpage old (hperm.mem_iff.mp hcarried)).1 hold
      · rw [hrecord]
        rw [happend, mem_append] at hmem
        rcases hmem with hold | hcarried
        · exact honce.notSeeded findingId hold
        · exact (hpage findingId (hperm.mem_iff.mp hcarried)).2

def findingUuid : String := "0b9c6a1e-4c1d-4f0e-9a53-6d6e0f6f7a01"
def critiqueUuid : String := "5e0d2f34-8f57-4a0b-b8f4-2f1d3c9e7b02"

def verifiedPopulation : Population where
  rows :=
    [{ id := findingUuid, kind := "finding", analystId := some "escalation"
       title := some "strikes resumed", confidence := some 1
       severity := some "high", producedAt := seconds 3000 },
     { id := critiqueUuid, kind := "critique", analystId := some "verify"
       title := some "Faithfulness verify", producedAt := seconds 3300
       analyzedOutputId := some findingUuid, overallScore := some 1 }]
  distinct := by decide +kernel
  uuids := by decide +kernel

def wideWindowScan (now : Datetime) (population : Population) : VerifiedScan where
  now := now
  budgetNow := now
  options := ⟨3, 24, true, ⟨"alert_trigger_scan", 5, 3⟩⟩
  windowHours := 200
  floor := 1 / 2
  text := ⟨id, id⟩
  population := population
  others := []
  silentOthers := []
  othersOwn := fun _ hcand => absurd hcand List.not_mem_nil
  silentOwn := fun _ hmark => absurd hmark List.not_mem_nil

/-- The second scan alerts the finding, and the third one, seven days and ten
minutes later, prunes its watermark and alerts it again. -/
def wideWindowScans : List VerifiedScan :=
  [wideWindowScan 0 ⟨[], List.nodup_nil, by simp⟩,
    wideWindowScan (seconds 3600) verifiedPopulation,
    wideWindowScan (seconds (3600 + 7 * 86400 + 600)) verifiedPopulation]

end Legba.Alerts
