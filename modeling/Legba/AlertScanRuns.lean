import Legba.AlertScan

/-!
# What the steady-state cooldown counts from

Every row which lands advances the watermarks of its candidate, and of all the
candidates folded into it.  The desk's `paged_at` is therefore an instant at
which the desk was paged exactly when every scan which writes it hands a row of
that desk to the fan-out.
-/

namespace Legba.Alerts

open QuotaPass LabelledRun List

def CarriesFindingOf (findings : List FindingRow) (desk : String) (cand : AlertCandidate) : Prop :=
  ∃ row ∈ findings, row.desk = some desk ∧
    ∃ mark ∈ cand.watermarks, mark.triggerClass = triggerFinding ∧ mark.key = row.findingId

/-- A row which carried a finding of the desk was handed to the fan-out by a
scan at this instant. -/
def PagedAt (pages : List Page) (desk : String) (instant : Datetime) : Prop :=
  ∃ page ∈ pages, page.scannedAt = instant ∧ CarriesFindingOf page.findings desk page.alert

def PagedAtIsReal (state : AlertState) : Prop :=
  ∀ desk row pagedAt,
    state.watermarks triggerFindingState desk = some row →
    row.state.pagedAt = some pagedAt → PagedAt state.pages desk pagedAt

/-- Every finding suppressed by the scan belongs to a desk which was paged
within the cooldown. -/
def SuppressedWithinPage (state : AlertState) (scan : AlertScan) : Prop :=
  ∀ cand ∈ (findingScan state scan).suppressed,
    cand.data.guardSuppressionReason = some "steady_state_within_cooldown" ∧
    ∃ desk pagedAt, cand.targetId = some desk ∧
      PagedAt state.pages desk pagedAt ∧
      ((scan.now - pagedAt : ℤ) : ℚ) / (seconds 3600 : ℤ) <
        scan.options.steadyCooldownHours

def CooldownCountsPages (start : AlertState) (scans : List AlertScan) : Prop :=
  VisitsOnly alertStep PagedAtIsReal start scans ∧
    StepsSatisfy alertStep (fun state scan _ => SuppressedWithinPage state scan) start scans

/-- The candidate is exempt, or the candidates ranked ahead of it leave a place
of the day and room for its class. -/
def hasPlace (state : AlertState) (scan : AlertScan) (position : ℕ)
    (cand : AlertCandidate) : Bool :=
  let candidates := pageable state scan
  let ready := (beforePaging state scan).rows
  let dayStart := dayStartUtc scan.budgetNow
  admits (placesLeft scan.options.budget ready dayStart)
    (roomLeft scan.options.budget ready dayStart)
    ((ahead budgetSortKey (candidates.take position) cand
      (candidates.drop (position + 1))).filterMap pageKind)
    (pageKind cand)

/-- Each desk whose record is written by a row which lands has, in the same
scan, such a row with a place in the budget. -/
def DesksGetPlace (state : AlertState) (scan : AlertScan) : Prop :=
  ∀ desk, (∃ position cand, (pageable state scan)[position]? = some cand ∧
      scan.lands position = true ∧
      ∃ mark ∈ cand.watermarks, mark.triggerClass = triggerFindingState ∧ mark.key = desk) →
    (∃ position cand, (pageable state scan)[position]? = some cand ∧
      scan.lands position = true ∧ hasPlace state scan position cand = true ∧
      CarriesFindingOf (fetched state scan) desk cand) ∨
    PagedAt state.pages desk scan.now

variable {upserts : List WatermarkUpsert} {triggerClass desk : String}
  {watermarks : Watermarks} {mark : WatermarkUpsert} {state : AlertState}
  {scan : AlertScan} {cand : AlertCandidate} {candidates : List AlertCandidate}
  {findings : List FindingRow} {items : List (AlertCandidate × ℕ)}

theorem upsertAll_untouched (now : Datetime) (fired : Bool) {key : String}
    (huntouched : ∀ mark ∈ upserts, mark.triggerClass = triggerClass → mark.key ≠ key)
    (watermarks : Watermarks) :
    upsertAll now fired watermarks upserts triggerClass key = watermarks triggerClass key := by
  induction upserts generalizing watermarks with
  | nil => rfl
  | cons mark upserts ih =>
    rw [forall_mem_cons] at huntouched
    refine (ih huntouched.2 _).trans ?_
    refine if_neg fun heq => ?_
    exact huntouched.1 heq.1.symm heq.2.symm

theorem upsertAll_touched (now : Datetime) (fired : Bool) {key : String}
    (htouched : ∃ mark ∈ upserts, mark.triggerClass = triggerClass ∧ mark.key = key)
    (watermarks : Watermarks) :
    ∃ row, upsertAll now fired watermarks upserts triggerClass key = some row ∧
      ∃ mark ∈ upserts, (mark.triggerClass = triggerClass ∧ mark.key = key) ∧
        row.state = mark.state := by
  induction upserts generalizing watermarks with
  | nil => simp at htouched
  | cons mark upserts ih =>
    by_cases hrest : ∃ other ∈ upserts, other.triggerClass = triggerClass ∧ other.key = key
    · obtain ⟨row, hrow, other, hother, hmatch⟩ :=
        ih hrest (upsertWatermark now fired watermarks mark)
      exact ⟨row, hrow, other, mem_cons_of_mem _ hother, hmatch⟩
    · have hmark : mark.triggerClass = triggerClass ∧ mark.key = key := by
        obtain ⟨other, hother, hmatch⟩ := htouched
        cases mem_cons.mp hother with
        | inl hhead => exact hhead ▸ hmatch
        | inr htail => exact absurd ⟨other, htail, hmatch⟩ hrest
      have huntouched : ∀ other ∈ upserts, other.triggerClass = triggerClass → other.key ≠ key :=
        fun other hother hclass hkey => hrest ⟨other, hother, hclass, hkey⟩
      have hlast := upsertAll_untouched now fired huntouched
        (upsertWatermark now fired watermarks mark)
      rw [upsertWatermark, if_pos ⟨hmark.1.symm, hmark.2.symm⟩] at hlast
      exact ⟨_, hlast, mark, mem_cons_self, hmark, rfl⟩

theorem findingCandidate_marks {options : ScanOptions} {now : Datetime} {row : FindingRow}
    (hmark : mark ∈ (findingCandidate options watermarks now row).watermarks)
    (hclass : mark.triggerClass = triggerFindingState) :
    mark.state.pagedAt = some now ∧
      (suppression options watermarks now row).1 = false ∧
      row.desk = some mark.key := by
  have hne : triggerFinding ≠ triggerFindingState := by decide
  simp only [findingCandidate, mem_cons] at hmark
  cases hmark with
  | inl hfinding =>
    rw [hfinding] at hclass
    exact absurd hclass hne
  | inr hdesk =>
    unfold deskMarks at hdesk
    split at hdesk
    · rename_i hverdict hrow
      rw [mem_singleton] at hdesk
      exact ⟨by rw [hdesk], hverdict, by rw [hdesk, hrow]⟩
    · simp at hdesk

theorem suppressed_marks (hcand : cand ∈ (findingScan state scan).suppressed) :
    ∃ row ∈ fetched state scan, cand = findingCandidate scan.options
        (pruneFindings scan.now state.watermarks) scan.now row ∧
      (suppression scan.options (pruneFindings scan.now state.watermarks)
        scan.now row).1 = true := by
  unfold findingScan scanVerifiedFindings at hcand
  split at hcand
  · obtain ⟨hbuilt, hsuppressed⟩ := mem_filter.mp hcand
    obtain ⟨row, hrow, rfl⟩ := mem_map.mp hbuilt
    exact ⟨row, hrow, rfl, by simpa [findingCandidate] using hsuppressed⟩
  · simp at hcand

theorem scanned_marks (hcand : cand ∈ (findingScan state scan).candidates) :
    ∃ row ∈ fetched state scan, cand = findingCandidate scan.options
        (pruneFindings scan.now state.watermarks) scan.now row := by
  unfold findingScan scanVerifiedFindings at hcand
  split at hcand
  · obtain ⟨row, hrow, rfl⟩ := mem_map.mp (mem_of_mem_filter hcand)
    exact ⟨row, hrow, rfl⟩
  · simp at hcand

theorem deskOrdered_mem (hcand : cand ∈ deskOrdered candidates desk) : cand ∈ candidates := by
  rw [deskOrdered, mem_insertionSort] at hcand
  exact mem_of_mem_filter hcand

theorem applyDeskCap_marks {cap : ℕ}
    (hcand : cand ∈ (applyDeskCap candidates cap).1 ++ (applyDeskCap candidates cap).2)
    (hmark : mark ∈ cand.watermarks) :
    ∃ member ∈ candidates, mark ∈ member.watermarks ∧ member.watermarks ⊆ cand.watermarks := by
  cases mem_append.mp hcand with
  | inl hkept =>
    obtain ⟨desk, _, htaken⟩ := mem_flatMap.mp hkept
    exact ⟨cand, deskOrdered_mem (mem_of_mem_take htaken), hmark, Subset.refl _⟩
  | inr hrollup =>
    obtain ⟨desk, _, hrolled⟩ := mem_flatMap.mp hrollup
    unfold deskRollups at hrolled
    split at hrolled
    · simp at hrolled
    · rename_i first rest hdrop
      rw [mem_singleton] at hrolled
      subst hrolled
      obtain ⟨member, hmember, hmemberMark⟩ := mem_flatMap.mp hmark
      have hordered : member ∈ deskOrdered candidates desk := mem_of_mem_drop (hdrop ▸ hmember)
      refine ⟨member, deskOrdered_mem hordered, hmemberMark, ?_⟩
      intro other hother
      exact mem_flatMap.mpr ⟨member, hmember, hother⟩

theorem pageable_marks (hcand : cand ∈ pageable state scan) (hmark : mark ∈ cand.watermarks)
    (hclass : mark.triggerClass = triggerFindingState) :
    mark.state.pagedAt = some scan.now ∧ CarriesFindingOf (fetched state scan) mark.key cand := by
  obtain ⟨member, hmember, hown, hsubset⟩ := applyDeskCap_marks hcand hmark
  cases mem_append.mp hmember with
  | inl hfinding =>
    obtain ⟨row, hrow, rfl⟩ := scanned_marks hfinding
    obtain ⟨hpaged, _, hdesk⟩ := findingCandidate_marks hown hclass
    exact ⟨hpaged, row, hrow, hdesk, findingMark row, hsubset mem_cons_self, rfl, rfl⟩
  | inr hother => exact absurd hclass (scan.othersOwn member hother mark hown).2

theorem pruneFindings_record (now : Datetime) (watermarks : Watermarks) (desk : String) :
    pruneFindings now watermarks triggerFindingState desk =
      watermarks triggerFindingState desk := by
  have hclass : (triggerFindingState == triggerFinding) = false := by decide
  cases hrow : watermarks triggerFindingState desk <;> simp [pruneFindings, hclass, hrow]

theorem mem_writePageable_pages {page : Page} :
    page ∈ (writePageable scan findings state items).pages ↔
      page ∈ state.pages ∨ ∃ item ∈ items, scan.lands item.2 = true ∧
        item.1.data.budgetDeferred ≠ some true ∧
        page = ⟨scan.now, findings, item.1⟩ := by
  induction items generalizing state with
  | nil => simp [writePageable]
  | cons item items ih =>
    rw [writePageable]
    by_cases hlands : scan.lands item.2 = true
    · rw [if_pos hlands, ih]
      by_cases hdeferred : item.1.data.budgetDeferred = some true
      · simp [hdeferred]
      · simp [hdeferred, hlands, or_assoc]
    · rw [if_neg hlands, ih]
      simp [hlands]

def landedMarks (lands : ℕ → Bool) (items : List (AlertCandidate × ℕ)) : List WatermarkUpsert :=
  (items.filter fun item => lands item.2).flatMap fun item => item.1.watermarks

theorem landedMarks_cons (lands : ℕ → Bool) (item : AlertCandidate × ℕ)
    (items : List (AlertCandidate × ℕ)) :
    landedMarks lands (item :: items) =
      if lands item.2 then item.1.watermarks ++ landedMarks lands items
      else landedMarks lands items := by
  unfold landedMarks
  cases hlands : lands item.2 <;> simp [hlands]

theorem writePageable_watermarks (scan : AlertScan) (findings : List FindingRow)
    (items : List (AlertCandidate × ℕ)) (state : AlertState) :
    (writePageable scan findings state items).watermarks =
      upsertAll scan.budgetNow true state.watermarks (landedMarks scan.lands items) := by
  induction items generalizing state with
  | nil => rfl
  | cons item items ih =>
    rw [writePageable, landedMarks_cons]
    split
    · rw [ih, upsertAll, upsertAll, upsertAll, foldl_append]
    · exact ih state

theorem writeSuppressed_watermarks (scan : AlertScan)
    (items : List (AlertCandidate × ℕ)) (state : AlertState) :
    (writeSuppressed scan state items).watermarks =
        upsertAll scan.now false state.watermarks (landedMarks scan.suppressedLands items) ∧
      (writeSuppressed scan state items).pages = state.pages := by
  induction items generalizing state with
  | nil => exact ⟨rfl, rfl⟩
  | cons item items ih =>
    rw [writeSuppressed, landedMarks_cons]
    split
    · refine ⟨?_, (ih _).2⟩
      rw [(ih _).1, upsertAll, upsertAll, upsertAll, foldl_append]
    · exact ih state

theorem mem_landedMarks {lands : ℕ → Bool} :
    mark ∈ landedMarks lands items ↔
      ∃ item ∈ items, lands item.2 = true ∧ mark ∈ item.1.watermarks := by
  simp [landedMarks, and_assoc]

theorem beforePaging_record (state : AlertState) (scan : AlertScan) (desk : String) :
    (beforePaging state scan).watermarks triggerFindingState desk =
        state.watermarks triggerFindingState desk ∧
      (beforePaging state scan).pages = state.pages := by
  have hsuppressed : ∀ mark ∈ landedMarks scan.suppressedLands
      (findingScan state scan).suppressed.zipIdx,
      mark.triggerClass = triggerFindingState → mark.key ≠ desk := by
    intro mark hlanded hclass
    obtain ⟨item, hitem, _, hmark⟩ := mem_landedMarks.mp hlanded
    obtain ⟨row, _, hcand, hverdict⟩ := suppressed_marks (fst_mem_of_mem_zipIdx hitem)
    rw [hcand] at hmark
    rw [(findingCandidate_marks hmark hclass).2.1] at hverdict
    simp at hverdict
  have hmarks : ∀ mark ∈ (findingScan state scan).silent ++
      scan.silentOthers ++ seedMarks (findingScan state scan),
      mark.triggerClass = triggerFindingState → mark.key ≠ desk := by
    intro mark hmark hclass
    have hne : triggerFinding ≠ triggerFindingState := by decide
    rw [mem_append, mem_append] at hmark
    rcases hmark with (hsilent | hother) | hseed
    · unfold findingScan scanVerifiedFindings at hsilent
      split at hsilent
      · simp at hsilent
      · obtain ⟨row, _, rfl⟩ := mem_map.mp hsilent
        exact absurd hclass hne
    · exact absurd hclass (scan.silentOwn mark hother).2
    · unfold seedMarks at hseed
      split at hseed
      · simp at hseed
      · rw [mem_singleton] at hseed
        rw [hseed] at hclass
        exact absurd hclass hne
  obtain ⟨hwatermarks, hpages⟩ := writeSuppressed_watermarks scan
    (findingScan state scan).suppressed.zipIdx
    { state with watermarks := pruneFindings scan.now state.watermarks }
  refine ⟨(upsertAll_untouched _ _ hmarks _).trans ?_, hpages⟩
  rw [hwatermarks, upsertAll_untouched _ _ hsuppressed]
  exact pruneFindings_record _ _ _

/-! ## One scan -/

theorem marked_getElem? (places : ℕ) (room : String → ℕ)
    (candidates : List AlertCandidate) (position : ℕ) :
    (marked places room candidates)[position]? =
      candidates[position]?.map fun cand =>
        cand.markDeferred (!admits places room
          ((ahead budgetSortKey (candidates.take position) cand
            (candidates.drop (position + 1))).filterMap pageKind)
          (pageKind cand)) := by
  rcases Nat.lt_or_ge position candidates.length with hlt | hge
  · have hsplit : candidates.take position ++
        candidates[position] :: candidates.drop (position + 1) =
          candidates := by
      rw [cons_getElem_drop_succ, take_append_drop]
    have hfront : (candidates.take position).length = position := length_take_of_le hlt.le
    have hat := withContext_getElem? (fun before cand after =>
      cand.markDeferred (!admits places room
        ((ahead budgetSortKey before cand after).filterMap pageKind)
        (pageKind cand))) [] (candidates.take position) candidates[position]
      (candidates.drop (position + 1))
    rw [hsplit, hfront, nil_append] at hat
    rw [marked_eq, hat, getElem?_eq_getElem hlt, Option.map_some]
  · rw [getElem?_eq_none (by simpa using hge), getElem?_eq_none hge, Option.map_none]

def decidedItems (state : AlertState) (scan : AlertScan) : List (AlertCandidate × ℕ) :=
  (budgetOn scan.options.budget (beforePaging state scan).rows
    (dayStartUtc scan.budgetNow) (pageable state scan)).zipIdx

theorem mem_decidedItems {item : AlertCandidate × ℕ} :
    item ∈ decidedItems state scan ↔
      ∃ cand, (pageable state scan)[item.2]? = some cand ∧
        (item.1 = cand.markDeferred false ∧ hasPlace state scan item.2 cand = true ∨
          item.1 = cand.markDeferred true ∧ hasPlace state scan item.2 cand = false) := by
  rw [decidedItems, mem_zipIdx_iff_getElem?, budgetOn_eq, marked_getElem?, Option.map_eq_some_iff]
  refine exists_congr fun cand => and_congr_right fun _ => ?_
  change cand.markDeferred (!hasPlace state scan item.2 cand) = item.1 ↔ _
  cases hasPlace state scan item.2 cand <;> simp [eq_comm]

theorem handle_record_untouched (huntouched : ¬∃ position cand, (pageable state
      scan)[position]? = some cand ∧ scan.lands position = true ∧ ∃ mark ∈
      cand.watermarks, mark.triggerClass = triggerFindingState ∧ mark.key = desk) :
    (handle state scan).watermarks triggerFindingState desk =
      state.watermarks triggerFindingState desk := by
  rw [handle, writePageable_watermarks, upsertAll_untouched]
  · exact (beforePaging_record state scan desk).1
  · intro mark hlanded hclass hkey
    obtain ⟨item, hitem, hlands, hmark⟩ := mem_landedMarks.mp hlanded
    obtain ⟨cand, hcand, hverdict⟩ := mem_decidedItems.mp hitem
    have hwatermarks : item.1.watermarks = cand.watermarks := by
      rcases hverdict with ⟨heq, _⟩ | ⟨heq, _⟩ <;> rw [heq] <;> rfl
    exact huntouched ⟨item.2, cand, hcand, hlands, mark, hwatermarks ▸ hmark, hclass, hkey⟩

theorem handle_record_touched (htouched : ∃ position cand, (pageable state
      scan)[position]? = some cand ∧ scan.lands position = true ∧ ∃ mark ∈
      cand.watermarks, mark.triggerClass = triggerFindingState ∧ mark.key = desk) :
    ∃ row, (handle state scan).watermarks triggerFindingState desk =
        some row ∧ row.state.pagedAt = some scan.now := by
  obtain ⟨position, cand, hcand, hlands, mark, hmark, hmatch⟩ := htouched
  have hlanded : ∃ mark ∈ landedMarks scan.lands (decidedItems state scan),
      mark.triggerClass = triggerFindingState ∧ mark.key = desk := by
    refine ⟨mark, mem_landedMarks.mpr ?_, hmatch⟩
    cases hplace : hasPlace state scan position cand with
    | true =>
      exact ⟨(cand.markDeferred false, position), mem_decidedItems.mpr ⟨cand,
        hcand, .inl ⟨rfl, hplace⟩⟩, hlands, hmark⟩
    | false =>
      exact ⟨(cand.markDeferred true, position), mem_decidedItems.mpr ⟨cand,
        hcand, .inr ⟨rfl, hplace⟩⟩, hlands, hmark⟩
  obtain ⟨row, hrow, last, hlast, hlastMatch, hstate⟩ :=
    upsertAll_touched scan.budgetNow true hlanded (beforePaging state scan).watermarks
  refine ⟨row, ?_, ?_⟩
  · rw [handle, writePageable_watermarks]
    exact hrow
  · obtain ⟨item, hitem, _, hitemMark⟩ := mem_landedMarks.mp hlast
    obtain ⟨source, hsource, hverdict⟩ := mem_decidedItems.mp hitem
    have hwatermarks : item.1.watermarks = source.watermarks := by
      rcases hverdict with ⟨heq, _⟩ | ⟨heq, _⟩ <;> rw [heq] <;> rfl
    rw [hstate]
    exact (pageable_marks (mem_of_getElem? hsource) (hwatermarks ▸ hitemMark) hlastMatch.1).1

theorem mem_handle_pages {page : Page} :
    page ∈ (handle state scan).pages ↔
      page ∈ state.pages ∨ ∃ position cand,
        (pageable state scan)[position]? = some cand ∧
        scan.lands position = true ∧ hasPlace state scan position cand = true ∧
        page = ⟨scan.now, fetched state scan, cand.markDeferred false⟩ := by
  have hpages : page ∈ (handle state scan).pages ↔
      page ∈ (beforePaging state scan).pages ∨
        ∃ item ∈ decidedItems state scan, scan.lands item.2 = true ∧
          item.1.data.budgetDeferred ≠ some true ∧
          page = ⟨scan.now, fetched state scan, item.1⟩ :=
    mem_writePageable_pages
  rw [hpages, (beforePaging_record state scan seedKey).2]
  refine or_congr_right ⟨?_, ?_⟩
  · rintro ⟨⟨decided, position⟩, hitem, hlands, hundeferred, rfl⟩
    obtain ⟨cand, hcand, hverdict⟩ := mem_decidedItems.mp hitem
    rcases hverdict with ⟨rfl, hplace⟩ | ⟨rfl, _⟩
    · exact ⟨position, cand, hcand, hlands, hplace, rfl⟩
    · exact absurd rfl hundeferred
  · rintro ⟨position, cand, hcand, hlands, hplace, rfl⟩
    exact ⟨(cand.markDeferred false, position), mem_decidedItems.mpr ⟨cand,
      hcand, .inl ⟨rfl, hplace⟩⟩, hlands, by simp, rfl⟩

theorem carriesFindingOf_markDeferred {deferred : Bool} :
    CarriesFindingOf findings desk (cand.markDeferred deferred) ↔
      CarriesFindingOf findings desk cand := Iff.rfl

theorem pagedAt_handle {instant : Datetime} :
    PagedAt (handle state scan).pages desk instant ↔
      PagedAt state.pages desk instant ∨
        scan.now = instant ∧ ∃ position cand,
          (pageable state scan)[position]? = some cand ∧
          scan.lands position = true ∧
          hasPlace state scan position cand = true ∧
          CarriesFindingOf (fetched state scan) desk cand := by
  constructor
  · rintro ⟨page, hpage, hinstant, hcarries⟩
    rcases mem_handle_pages.mp hpage with hold | ⟨position, cand, hcand, hlands, hplace, rfl⟩
    · exact .inl ⟨page, hold, hinstant, hcarries⟩
    · exact .inr ⟨hinstant, position, cand, hcand, hlands, hplace,
        carriesFindingOf_markDeferred.mp hcarries⟩
  · rintro (⟨page, hold, hpaged⟩ | ⟨hinstant, position, cand, hcand, hlands, hplace, hcarries⟩)
    · exact ⟨page, mem_handle_pages.mpr (.inl hold), hpaged⟩
    · exact ⟨_, mem_handle_pages.mpr (.inr ⟨position, cand, hcand, hlands,
        hplace, rfl⟩), hinstant, carriesFindingOf_markDeferred.mpr hcarries⟩

theorem pagedAtIsReal_handle (hreal : PagedAtIsReal state)
    (hplace : DesksGetPlace state scan) : PagedAtIsReal (handle state scan) := by
  intro desk row pagedAt hrow hpagedAt
  rw [pagedAt_handle]
  by_cases htouched : ∃ position cand,
      (pageable state scan)[position]? = some cand ∧
      scan.lands position = true ∧ ∃ mark ∈ cand.watermarks,
        mark.triggerClass = triggerFindingState ∧ mark.key = desk
  · obtain ⟨written, hwritten, hnow⟩ := handle_record_touched htouched
    rw [hwritten, Option.some.injEq] at hrow
    rw [← hrow, hnow, Option.some.injEq] at hpagedAt
    subst hpagedAt
    cases hplace desk htouched with
    | inl hpaged => exact .inr ⟨rfl, hpaged⟩
    | inr hearlier => exact .inl hearlier
  · rw [handle_record_untouched htouched] at hrow
    exact .inl (hreal desk row pagedAt hrow hpagedAt)

theorem desksGetPlace_of_real (hnext : PagedAtIsReal (handle state scan)) :
    DesksGetPlace state scan := by
  intro desk htouched
  obtain ⟨row, hrow, hnow⟩ := handle_record_touched htouched
  rcases pagedAt_handle.mp (hnext desk row scan.now hrow hnow) with hearlier | ⟨_, hpaged⟩
  · exact .inr hearlier
  · exact .inl hpaged

theorem classify_suppresses {prevState : Option WatermarkState} {severity : String}
    {deltaTag : Option String} {now : Datetime} {cooldownHours : ℚ} {verdict : Bool × String}
    (hverdict : classifyFindingSuppression prevState severity deltaTag now cooldownHours = verdict)
    (hsuppressed : verdict.1) :
    verdict.2 = "steady_state_within_cooldown" ∧
      ∃ prev pagedAt, prevState = some prev ∧ prev.pagedAt = some pagedAt ∧
        ((now - pagedAt : ℤ) : ℚ) / (seconds 3600 : ℤ) < cooldownHours := by
  unfold classifyFindingSuppression at hverdict
  split at hverdict
  · simp [← hverdict] at hsuppressed
  · rename_i prev
    split at hverdict
    · simp [← hverdict] at hsuppressed
    · split_ifs at hverdict with hband
      · simp [← hverdict] at hsuppressed
      · split at hverdict
        · simp [← hverdict] at hsuppressed
        · rename_i pagedAt hpagedAt
          split_ifs at hverdict with hcooldown
          · simp [← hverdict] at hsuppressed
          · exact ⟨by rw [← hverdict], prev, pagedAt, rfl, hpagedAt, Rat.not_le.mp hcooldown⟩

theorem deskState_eq_some {prev : WatermarkState} (hprev : deskState watermarks desk = some prev) :
    ∃ row, watermarks triggerFindingState desk = some row ∧ row.state = prev := by
  unfold deskState at hprev
  split at hprev
  · simp at hprev
  · exact Option.map_eq_some_iff.mp hprev

theorem suppressedWithinPage_of_real (scan : AlertScan)
    (hreal : PagedAtIsReal state) : SuppressedWithinPage state scan := by
  intro cand hcand
  obtain ⟨row, _, rfl, hverdict⟩ := suppressed_marks hcand
  cases hdesk : row.desk with
  | none => simp [suppression, hdesk] at hverdict
  | some desk =>
    have hclassify : suppression scan.options
        (pruneFindings scan.now state.watermarks) scan.now row =
        classifyFindingSuppression
          (deskState (pruneFindings scan.now state.watermarks) desk)
          row.severity row.deltaTag scan.now
          scan.options.steadyCooldownHours := by
      unfold suppression at hverdict ⊢
      simp only [hdesk] at hverdict ⊢
      split_ifs at hverdict ⊢
      rfl
    obtain ⟨hreason, prev, pagedAt, hprev, hpagedAt, hcooldown⟩ :=
      classify_suppresses hclassify.symm hverdict
    obtain ⟨record, hrecord, hstate⟩ := deskState_eq_some hprev
    rw [pruneFindings_record] at hrecord
    exact ⟨congrArg some hreason, desk, pagedAt, hdesk,
      hreal desk record pagedAt hrecord (hstate ▸ hpagedAt), hcooldown⟩

def AlertState.initial (watermarks : Watermarks) (rows : List AlertRow) : AlertState where
  watermarks := fun triggerClass key =>
    if triggerClass = triggerFindingState then none
    else watermarks triggerClass key
  rows := rows
  pages := []

theorem pagedAtIsReal_initial (watermarks : Watermarks) (rows : List AlertRow) :
    PagedAtIsReal (AlertState.initial watermarks rows) := by
  intro desk row pagedAt hrow
  simp [AlertState.initial] at hrow

theorem cooldown_counts_pages_iff (watermarks : Watermarks)
    (rows : List AlertRow) (scans : List AlertScan) :
    CooldownCountsPages (AlertState.initial watermarks rows) scans ↔
      StepsSatisfy alertStep (fun state scan _ => DesksGetPlace state scan)
        (AlertState.initial watermarks rows) scans := by
  have hstart := pagedAtIsReal_initial watermarks rows
  have hkeep : ∀ state scan next, PagedAtIsReal state →
      alertStep state scan = some next → DesksGetPlace state scan →
      PagedAtIsReal next := by
    intro state scan next hreal hstep hplace
    rw [← Option.some.inj hstep]
    exact pagedAtIsReal_handle hreal hplace
  have hvisits : VisitsOnly alertStep PagedAtIsReal
      (AlertState.initial watermarks rows) scans ↔
      StepsSatisfy alertStep (fun state scan _ => DesksGetPlace state scan)
        (AlertState.initial watermarks rows) scans := by
    have htrue : ∀ state scan next, True → alertStep state scan = some next →
        True := fun _ _ _ _ _ => trivial
    refine visitsOnly_iff_stepsSatisfy htrue ?_ trivial hstart
    intro state scan next _ hreal hstep
    refine ⟨fun hnext => ?_, hkeep state scan next hreal hstep⟩
    rw [← Option.some.inj hstep] at hnext
    exact desksGetPlace_of_real hnext
  refine ⟨fun hcounts => hvisits.mp hcounts.1, fun hgood => ⟨hvisits.mpr hgood, ?_⟩⟩
  exact stepsSatisfy_of_invariant hkeep (fun state scan _ hreal _ _ =>
    suppressedWithinPage_of_real scan hreal) hstart hgood

def seededWatermarks : Watermarks := fun triggerClass key =>
  if triggerClass = triggerFinding ∧ key = seedKey then
    some ⟨⟨none, none⟩, none, 0⟩
  else none

def pagedRow (triggerClass : String) : AlertRow :=
  ⟨"alert_trigger_scan", 0, some triggerClass, none, none, some false⟩

def usedDay : AlertState := AlertState.initial seededWatermarks
  [pagedRow triggerBand, pagedRow triggerBand, pagedRow triggerBand,
    pagedRow triggerWatchlist, pagedRow triggerWatchlist]

def findingScanAtNoon : AlertScan where
  now := seconds 43200
  budgetNow := seconds 43200
  options := ⟨3, 24, true, ⟨"alert_trigger_scan", 5, 3⟩⟩
  findings := [⟨"f1", some "UA", "strikes resumed", "high", none⟩]
  others := []
  silentOthers := []
  suppressedLands := fun _ => true
  lands := fun _ => true
  othersOwn := by simp
  silentOwn := by simp

theorem deferred_finding_starts_cooldown : ¬CooldownCountsPages usedDay [findingScanAtNoon] := by
  intro hcounts
  have hnext : PagedAtIsReal (handle usedDay findingScanAtNoon) := hcounts.1.2
  have hrecord : (handle usedDay findingScanAtNoon).watermarks
      triggerFindingState "UA" = some ⟨⟨some "high", some (seconds 43200)⟩,
        some (seconds 43200), seconds 43200⟩ := by decide +kernel
  have hpages : (handle usedDay findingScanAtNoon).pages.isEmpty := by decide +kernel
  obtain ⟨page, hpage, _⟩ := hnext "UA" _ _ hrecord rfl
  exact absurd hpage not_mem_nil

end Legba.Alerts
