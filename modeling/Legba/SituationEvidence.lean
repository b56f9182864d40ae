import Legba.LabelledRun
import Legba.SituationTracker

/-!
# Does the tracker show every verified finding?

The evidence is read oldest first under a limit, and the watermark moves to the
newest item shown.  The order is by time and id, the watermark is a bare time:
a finding which the limit cuts off is read later exactly if it is strictly
newer than every item shown.

A run is followed for one situation together with the findings the model was
shown about it.
-/

namespace Legba.Situations

open LabelledRun List

/-! ## The page of a situation -/

theorem evidenceOrder_total (a b : FindingRow) : evidenceOrder a b ∨ evidenceOrder b a := by
  rcases lt_trichotomy a.producedAt b.producedAt with hlt | heq | hgt
  · exact .inl (.inl hlt)
  · rcases le_total a.id.toNat b.id.toNat with hle | hle
    · exact .inl (.inr ⟨heq, hle⟩)
    · exact .inr (.inr ⟨heq.symm, hle⟩)
  · exact .inr (.inl hgt)

theorem evidenceOrder_trans {a b c : FindingRow} (hab : evidenceOrder a b)
    (hbc : evidenceOrder b c) : evidenceOrder a c := by
  rcases hab with hlt | ⟨heq, hid⟩
  · rcases hbc with hlt' | ⟨heq', _⟩
    · exact .inl (hlt.trans hlt')
    · exact .inl (heq' ▸ hlt)
  · rcases hbc with hlt' | ⟨heq', hid'⟩
    · exact .inl (heq ▸ hlt')
    · exact .inr ⟨heq.trans heq', BitVec.le_trans hid hid'⟩

instance : Std.Total evidenceOrder := ⟨evidenceOrder_total⟩

instance : IsTrans FindingRow evidenceOrder :=
  ⟨fun _ _ _ => evidenceOrder_trans⟩

theorem cut_off_newEvidence {findings : List FindingRow} {members : List Uuid} {since : Datetime}
    {floor : ℚ} {limit : ℕ} {row : FindingRow} (hrow : row ∈ findings)
    (hqualifies : qualifies floor members row) (hnew : since < row.producedAt)
    (hcut : row ∉ newEvidence findings members since floor limit) :
    (newEvidence findings members since floor limit).length = limit ∧
      ∀ shown ∈ newEvidence findings members since floor limit,
        shown.producedAt ≤ row.producedAt := by
  unfold newEvidence at *
  have hsorted := pairwise_insertionSort evidenceOrder
    (findings.filter fun row => qualifies floor members row && decide (since < row.producedAt))
  have hmem : row ∈ (findings.filter fun row =>
      qualifies floor members row &&
        decide (since < row.producedAt)).insertionSort evidenceOrder := by
    rw [mem_insertionSort, mem_filter, Bool.and_eq_true, decide_eq_true_eq]
    exact ⟨hrow, hqualifies, hnew⟩
  generalize (findings.filter fun row => qualifies floor members row &&
    decide (since < row.producedAt)).insertionSort evidenceOrder = sorted at *
  have hdrop : row ∈ sorted.drop limit := by
    rw [← take_append_drop limit sorted, mem_append] at hmem
    exact hmem.resolve_left hcut
  constructor
  · rw [length_take, Nat.min_eq_left]
    by_contra hshort
    rw [drop_eq_nil_of_le (by omega)] at hdrop
    simp at hdrop
  · intro shown hshown
    rw [← take_append_drop limit sorted, pairwise_append] at hsorted
    rcases hsorted.2.2 shown hshown row hdrop with hlt | ⟨heq, _⟩
    · exact hlt.le
    · exact heq.le

def Tick.page (tick : Tick) (deps : TrackerDeps) (tracker : Tracker)
    (situation : SituationRow) : List FindingRow :=
  newEvidence tick.findings situation.derivedFrom
    ((tracker.watermarks situation.id).getD
      (tick.now - seconds (3600 * deps.windowHours)))
    deps.floor deps.maxEvidence

def Tick.pageMark (tick : Tick) (deps : TrackerDeps) (tracker : Tracker)
    (situation : SituationRow) : Datetime :=
  match ((tick.page deps tracker situation).map FindingRow.producedAt).max? with
  | some newest => newest
  | none => situation.lastEventAt.getD tick.now

def SituationCandidate.Carries (cand : SituationCandidate)
    (situation : SituationRow) (page : List FindingRow) : Prop :=
  cand.situationId = situation.id ∧
    cand.lastEventAt = situation.lastEventAt ∧
    cand.evidence.map EvidenceItem.findingId = page.map FindingRow.id ∧
    cand.evidence.map EvidenceItem.producedAt = page.map FindingRow.producedAt

theorem carries_candidatesFrom (deps : TrackerDeps) (tracker : Tracker)
    (tick : Tick) (situations : List SituationRow) (position ordinal : ℕ) :
    (∀ cand ∈ candidatesFrom deps tracker.watermarks tracker.ledger tick.now
        tick.findings situations position ordinal,
      ∃ situation ∈ situations, cand.Carries situation (tick.page deps tracker situation)) ∧
      ∀ situation ∈ situations,
        ∃ cand ∈ candidatesFrom deps tracker.watermarks tracker.ledger tick.now
          tick.findings situations position ordinal,
        cand.Carries situation (tick.page deps tracker situation) := by
  induction situations generalizing position ordinal with
  | nil => simp [candidatesFrom]
  | cons situation rest ih =>
    have hrest := ih (position + 1) (ordinal + (tick.page deps tracker situation).length)
    have hhead : ∀ cand : SituationCandidate,
        cand.situationId = situation.id →
        cand.lastEventAt = situation.lastEventAt →
        cand.evidence = numberItems ordinal (tick.page deps tracker situation) →
        cand.Carries situation (tick.page deps tracker situation) := by
      intro cand hid hevent hevidence
      refine ⟨hid, hevent, ?_, ?_⟩
      · rw [hevidence, map_findingId_numberItems]
      · rw [hevidence, map_producedAt_numberItems]
    unfold candidatesFrom
    rw [forall_mem_cons, forall_mem_cons]
    refine ⟨⟨⟨situation, mem_cons_self, hhead _ rfl rfl rfl⟩, ?_⟩,
      ⟨_, mem_cons_self, hhead _ rfl rfl rfl⟩, ?_⟩
    · intro cand hcand
      obtain ⟨other, hother, hcarries⟩ := hrest.1 cand hcand
      exact ⟨other, mem_cons_of_mem _ hother, hcarries⟩
    · intro other hother
      obtain ⟨cand, hcand, hcarries⟩ := hrest.2 other hother
      exact ⟨cand, mem_cons_of_mem _ hcand, hcarries⟩

variable {situation : SituationRow} {situationId : Uuid}

theorem mark_of_carries {deps : TrackerDeps} {tracker : Tracker} {tick : Tick}
    {cand : SituationCandidate}
    (hcarries : cand.Carries situation (tick.page deps tracker situation)) :
    cand.mark tick.now = tick.pageMark deps tracker situation := by
  obtain ⟨-, hevent, -, htimes⟩ := hcarries
  unfold SituationCandidate.mark Tick.pageMark
  cases hmax : ((tick.page deps tracker situation).map FindingRow.producedAt).max? with
  | none => simp only [htimes, hmax, hevent]
  | some newest => simp only [htimes, hmax]

variable {deps : TrackerDeps} {tracker : Tracker} {tick : Tick}

theorem candidates_of_selected (deps : TrackerDeps) (tracker : Tracker)
    (hselected : situation ∈ tick.situations) :
    (∃ cand ∈ tick.candidates deps tracker, cand.situationId = situation.id) ∧
      ∀ cand ∈ tick.candidates deps tracker,
        cand.situationId = situation.id →
          cand.Carries situation (tick.page deps tracker situation) := by
  have hall := carries_candidatesFrom deps tracker tick tick.situations 0 0
  constructor
  · obtain ⟨cand, hcand, hcarries⟩ := hall.2 situation hselected
    exact ⟨cand, hcand, hcarries.1⟩
  · intro cand hcand hid
    obtain ⟨other, hother, hcarries⟩ := hall.1 cand hcand
    have hsame : other = situation :=
      inj_on_of_nodup_map tick.nodup_situations hother hselected (hcarries.1.symm.trans hid)
    exact hsame ▸ hcarries

theorem foldl_advance {now : Datetime} {candidates : List SituationCandidate} {mark : Datetime}
    (hmark : ∀ cand ∈ candidates, cand.situationId = situationId → cand.mark now = mark)
    (watermarks : Uuid → Option Datetime) :
    candidates.foldl (advance now) watermarks situationId =
      if ∃ cand ∈ candidates, cand.situationId = situationId then some mark
      else watermarks situationId := by
  induction candidates generalizing watermarks with
  | nil => simp
  | cons cand rest ih =>
    rw [forall_mem_cons] at hmark
    rw [foldl_cons, ih hmark.2]
    by_cases hrest : ∃ other ∈ rest, other.situationId = situationId
    · have hcons : ∃ other ∈ cand :: rest, other.situationId = situationId := by
        obtain ⟨other, hother, hid⟩ := hrest
        exact ⟨other, mem_cons_of_mem _ hother, hid⟩
      rw [if_pos hrest, if_pos hcons]
    · rw [if_neg hrest]
      by_cases hcand : cand.situationId = situationId
      · have hcons : ∃ other ∈ cand :: rest, other.situationId = situationId :=
          ⟨cand, mem_cons_self, hcand⟩
        rw [if_pos hcons, advance, ← hcand, Function.update_self, hmark.1 hcand]
      · have hcons : ¬∃ other ∈ cand :: rest, other.situationId = situationId := by
          rintro ⟨other, hother, hid⟩
          rcases mem_cons.mp hother with rfl | hmem
          · exact hcand hid
          · exact hrest ⟨other, hmem, hid⟩
        rw [if_neg hcons, advance, Function.update_of_ne (Ne.symm hcand)]

def Tick.Advances (tick : Tick) (deps : TrackerDeps) (tracker : Tracker)
    (situationId : Uuid) : Prop :=
  tick.idle = false ∧ tracker.seeded = true ∧
    ∃ event ∈ buildUpdate (tick.verdicts deps tracker) tick.now, event.situationId = situationId

theorem watermark_of_advances (hselected : situation ∈ tick.situations)
    (hadvances : tick.Advances deps tracker situation.id) :
    (runTick deps tracker tick).watermarks situation.id =
        some (tick.pageMark deps tracker situation) ∧
      (runTick deps tracker tick).seeded = true := by
  obtain ⟨hidle, hseeded, event, hevent, hid⟩ := hadvances
  obtain ⟨⟨cand, hcand, hcandId⟩, hcarries⟩ := candidates_of_selected deps tracker hselected
  unfold runTick runMethod
  simp only [hidle, hseeded, Bool.false_eq_true, if_false, Bool.true_eq_false]
  refine ⟨?_, trivial⟩
  have hmark : ∀ cand ∈ (tick.candidates deps tracker).filter fun cand =>
      (buildUpdate (tick.verdicts deps tracker) tick.now).any fun event =>
        event.situationId = cand.situationId,
      cand.situationId = situation.id → cand.mark tick.now = tick.pageMark deps tracker situation :=
    fun cand hmem hsame => mark_of_carries (hcarries cand (mem_filter.mp hmem).1 hsame)
  rw [foldl_advance hmark, if_pos]
  refine ⟨cand, mem_filter.mpr ⟨hcand, ?_⟩, hcandId⟩
  rw [any_eq_true]
  exact ⟨event, hevent, by simp [hid, hcandId]⟩

def Tick.shown (tick : Tick) (deps : TrackerDeps) (tracker : Tracker)
    (situationId : Uuid) : List Uuid :=
  if tick.idle || !tracker.seeded then []
  else
    ((tick.candidates deps tracker).filter fun cand =>
        cand.situationId = situationId).flatMap fun cand =>
      cand.evidence.map EvidenceItem.findingId

theorem mem_shown_of_advances (hselected : situation ∈ tick.situations)
    (hadvances : tick.Advances deps tracker situation.id) (id : Uuid) :
    id ∈ tick.shown deps tracker situation.id ↔
      id ∈ (tick.page deps tracker situation).map FindingRow.id := by
  obtain ⟨⟨cand, hcand, hcandId⟩, hcarries⟩ := candidates_of_selected deps tracker hselected
  unfold Tick.shown
  rw [hadvances.1, hadvances.2.1]
  simp only [Bool.not_true, Bool.or_self, Bool.false_eq_true, if_false,
    mem_flatMap, mem_filter, decide_eq_true_eq]
  constructor
  · rintro ⟨other, ⟨hother, hsame⟩, hid⟩
    rw [(hcarries other hother hsame).2.2.1] at hid
    exact hid
  · intro hid
    refine ⟨cand, ⟨hcand, hcandId⟩, ?_⟩
    rw [(hcarries cand hcand hcandId).2.2.1]
    exact hid

/-! ## Following one situation -/

/-- A finding by its id and its `produced_at`. -/
abbrev Target := Uuid × Datetime

structure Watch where
  tracker : Tracker
  shown : List Uuid

def watchStep (deps : TrackerDeps) (situationId : Uuid) (watch : Watch)
    (tick : Tick) : Option Watch :=
  some ⟨runTick deps watch.tracker tick, watch.shown ++ tick.shown deps watch.tracker situationId⟩

def Watch.unshown (watch : Watch) (targets : List Target) : List Target :=
  targets.filter fun target => decide (target.1 ∉ watch.shown)

/-- The situation is selected, and each target is attached to it and verified
at or above the floor. -/
def Tick.Offers (tick : Tick) (deps : TrackerDeps) (situationId : Uuid)
    (targets : List Target) : Prop :=
  ∃ situation ∈ tick.situations, situation.id = situationId ∧
    ∀ target ∈ targets, ∃ finding ∈ tick.findings,
      finding.id = target.1 ∧ finding.producedAt = target.2 ∧
        qualifies deps.floor situation.derivedFrom finding = true

/-- The ticks of the run: the targets are offered, and the run comes to the
watermark advance. -/
def Examines (deps : TrackerDeps) (situationId : Uuid) (targets : List Target)
    (watch : Watch) (tick : Tick) (_ : Watch) : Prop :=
  tick.Offers deps situationId targets ∧ tick.Advances deps watch.tracker situationId

def NoneSkipped (situationId : Uuid) (targets : List Target) (watch : Watch) : Prop :=
  ∀ target ∈ watch.unshown targets, ∃ mark,
    watch.tracker.watermarks situationId = some mark ∧ mark < target.2

def Drains (targets : List Target) (watch : Watch) (_ : Tick) (next : Watch) : Prop :=
  (next.unshown targets).length < (watch.unshown targets).length ∨ watch.unshown targets = []

/-- The page of the tick holds a target not shown yet, if one is left, and the
targets it leaves out are strictly newer than everything on it. -/
def PageCutsNoTie (deps : TrackerDeps) (situationId : Uuid)
    (targets : List Target) (watch : Watch) (tick : Tick) (_ : Watch) : Prop :=
  ∀ situation ∈ tick.situations, situation.id = situationId →
    let page := tick.page deps watch.tracker situation
    (∀ target ∈ watch.unshown targets, target.1 ∉ page.map FindingRow.id →
        ∀ row ∈ page, row.producedAt < target.2) ∧
      (watch.unshown targets = [] ∨
        ∃ target ∈ watch.unshown targets, target.1 ∈ page.map FindingRow.id)

variable {targets : List Target} {watch : Watch}

theorem drains_iff {next : Watch} {tick : Tick} {page : List Uuid}
    (hshown : ∀ id, id ∈ next.shown ↔ id ∈ watch.shown ∨ id ∈ page) :
    Drains targets watch tick next ↔
      watch.unshown targets = [] ∨ ∃ target ∈ watch.unshown targets, target.1 ∈ page := by
  have hunshown : next.unshown targets =
      (watch.unshown targets).filter fun target =>
        decide (target.1 ∉ page) := by
    unfold Watch.unshown
    rw [filter_filter]
    apply filter_congr
    intro target _
    simp [hshown, not_or, and_comm]
  unfold Drains
  rw [hunshown, or_comm]
  apply or_congr_right
  simp

section

variable (hlimit : 1 ≤ deps.maxEvidence)

include hlimit

theorem pageMark_lt_iff {finding : FindingRow} {mark : Datetime}
    (hmark : tracker.watermarks situation.id = some mark)
    (hnew : mark < finding.producedAt) (hfinding : finding ∈ tick.findings)
    (hqualifies : qualifies deps.floor situation.derivedFrom finding)
    (hcut : finding ∉ tick.page deps tracker situation) :
    tick.pageMark deps tracker situation < finding.producedAt ↔
      ∀ row ∈ tick.page deps tracker situation, row.producedAt < finding.producedAt := by
  have hpage : tick.page deps tracker situation =
      newEvidence tick.findings situation.derivedFrom mark deps.floor deps.maxEvidence := by
    rw [Tick.page, hmark, Option.getD_some]
  rw [hpage] at hcut
  have hfull := (cut_off_newEvidence hfinding hqualifies hnew hcut).1
  rw [← hpage] at hfull
  unfold Tick.pageMark
  cases hmax : ((tick.page deps tracker situation).map FindingRow.producedAt).max? with
  | none =>
    rw [max?_eq_none_iff, map_eq_nil_iff] at hmax
    rw [hmax, length_nil] at hfull
    omega
  | some newest =>
    obtain ⟨hmem, hbound⟩ := max?_eq_some_iff.mp hmax
    obtain ⟨last, hlast, hdate⟩ := mem_map.mp hmem
    constructor
    · intro hlt row hrow
      exact lt_of_le_of_lt (hbound _ (mem_map_of_mem hrow)) hlt
    · intro hall
      rw [← hdate]
      exact hall last hlast

theorem noneSkipped_next_iff (hskipped : NoneSkipped situation.id targets watch)
    (hselected : situation ∈ tick.situations)
    (hoffered : ∀ target ∈ targets, ∃ finding ∈ tick.findings, finding.id = target.1 ∧
      finding.producedAt = target.2 ∧ qualifies deps.floor situation.derivedFrom finding = true)
    (hadvances : tick.Advances deps watch.tracker situation.id) :
    NoneSkipped situation.id targets ⟨runTick deps watch.tracker tick,
        watch.shown ++ tick.shown deps watch.tracker situation.id⟩ ↔
      ∀ target ∈ watch.unshown targets,
        target.1 ∉ (tick.page deps watch.tracker situation).map FindingRow.id →
          ∀ row ∈ tick.page deps watch.tracker situation, row.producedAt < target.2 := by
  have hwatermark := (watermark_of_advances hselected hadvances).1
  unfold NoneSkipped
  simp only [hwatermark, Option.some.injEq, exists_eq_left']
  have hmem : ∀ target : Target, target ∈ Watch.unshown
      ⟨runTick deps watch.tracker tick,
        watch.shown ++ tick.shown deps watch.tracker situation.id⟩ targets ↔
      target ∈ watch.unshown targets ∧
        target.1 ∉ (tick.page deps watch.tracker situation).map FindingRow.id := by
    intro target
    simp only [Watch.unshown, mem_filter, decide_eq_true_eq, mem_append,
      mem_shown_of_advances hselected hadvances, not_or, and_assoc]
  have htarget : ∀ target ∈ watch.unshown targets,
      target.1 ∉ (tick.page deps watch.tracker situation).map FindingRow.id →
        (tick.pageMark deps watch.tracker situation < target.2 ↔
          ∀ row ∈ tick.page deps watch.tracker situation, row.producedAt < target.2) := by
    intro target hunshown hcut
    obtain ⟨mark, hmark, hnew⟩ := hskipped target hunshown
    obtain ⟨finding, hfinding, hid, hdate, hqualifies⟩ := hoffered target (mem_filter.mp hunshown).1
    have hout : finding ∉ tick.page deps watch.tracker situation :=
      fun hin => hcut (hid ▸ mem_map_of_mem hin)
    rw [← hdate] at hnew ⊢
    exact pageMark_lt_iff hlimit hmark hnew hfinding hqualifies hout
  constructor
  · intro hall target hunshown hcut
    exact (htarget target hunshown hcut).mp (hall target ((hmem target).mpr ⟨hunshown, hcut⟩))
  · intro hall target hnext
    obtain ⟨hunshown, hcut⟩ := (hmem target).mp hnext
    exact (htarget target hunshown hcut).mpr (hall target hunshown hcut)

/-! ## Draining -/

theorem step_drains_iff {next : Watch} (hskipped : NoneSkipped situationId targets watch)
    (hstep : watchStep deps situationId watch tick = some next)
    (hexamines : Examines deps situationId targets watch tick next) :
    NoneSkipped situationId targets next ∧ Drains targets watch tick next ↔
      PageCutsNoTie deps situationId targets watch tick next := by
  obtain rfl := Option.some.inj hstep
  obtain ⟨⟨situation, hselected, rfl, hoffered⟩, hadvances⟩ := hexamines
  have hshown : ∀ id, id ∈ watch.shown ++
      tick.shown deps watch.tracker situation.id ↔ id ∈ watch.shown ∨
        id ∈ (tick.page deps watch.tracker situation).map FindingRow.id := by
    intro id
    rw [mem_append, mem_shown_of_advances hselected hadvances]
  rw [noneSkipped_next_iff hlimit hskipped hselected hoffered hadvances, drains_iff hshown]
  constructor
  · intro hpage other hother hid
    have hsame : other = situation := inj_on_of_nodup_map tick.nodup_situations hother hselected hid
    subst hsame
    exact hpage
  · intro hpage
    exact hpage situation hselected rfl

end

theorem all_shown_of_drains {final : Watch} {ticks : List Tick}
    (hdrains : StepsSatisfy (watchStep deps situationId) (Drains targets) watch ticks)
    (hrun : run (watchStep deps situationId) watch ticks = some final)
    (hlength : (watch.unshown targets).length ≤ ticks.length) : final.unshown targets = [] := by
  induction ticks generalizing watch with
  | nil =>
    obtain rfl := Option.some.inj hrun
    exact length_eq_zero_iff.mp (Nat.le_zero.mp hlength)
  | cons tick rest ih =>
    obtain ⟨next, hstep, hrest⟩ := run_cons_eq_some.mp hrun
    obtain ⟨hhead, htail⟩ := (stepsSatisfy_cons hstep).mp hdrains
    apply ih htail hrest
    rcases hhead with hfewer | hnone
    · rw [length_cons] at hlength
      omega
    · obtain rfl := Option.some.inj hstep
      have hkept : Watch.unshown ⟨runTick deps watch.tracker tick,
          watch.shown ++ tick.shown deps watch.tracker situationId⟩ targets = [] := by
        unfold Watch.unshown at *
        rw [filter_eq_nil_iff] at *
        intro target htarget
        have hshown := hnone target htarget
        simp only [decide_eq_true_eq, Decidable.not_not] at hshown ⊢
        exact mem_append_left _ hshown
      rw [hkept]
      exact Nat.zero_le _

/-- Over ticks which offer the findings and come to the watermark advance, no
finding newer than the initial watermark is skipped and each tick shows one
more of them, exactly when no tick's page leaves out a finding as old as one on
it, nor spends itself on others. -/
theorem evidence_drains_iff (deps : TrackerDeps) (hlimit : 1 ≤ deps.maxEvidence)
    (situationId : Uuid) (targets : List Target) (tracker : Tracker)
    (mark : Datetime) (hmark : tracker.watermarks situationId = some mark)
    (hnew : ∀ target ∈ targets, mark < target.2) (ticks : List Tick)
    (hexamines : StepsSatisfy (watchStep deps situationId) (Examines deps
      situationId targets) ⟨tracker, []⟩ ticks) :
    (VisitsOnly (watchStep deps situationId) (NoneSkipped situationId targets) ⟨tracker, []⟩ ticks ∧
        StepsSatisfy (watchStep deps situationId) (Drains targets) ⟨tracker, []⟩ ticks ↔
      StepsSatisfy (watchStep deps situationId)
        (PageCutsNoTie deps situationId targets) ⟨tracker, []⟩ ticks) ∧
      (StepsSatisfy (watchStep deps situationId)
          (PageCutsNoTie deps situationId targets) ⟨tracker, []⟩ ticks →
        ∀ final, run (watchStep deps situationId) ⟨tracker, []⟩ ticks =
            some final → targets.length ≤ ticks.length →
          ∀ target ∈ targets, target.1 ∈ final.shown) := by
  have hstart : NoneSkipped situationId targets ⟨tracker, []⟩ :=
    fun target htarget => ⟨mark, hmark, hnew target (mem_filter.mp htarget).1⟩
  have hkeep : ∀ watch tick next, NoneSkipped situationId targets watch →
      watchStep deps situationId watch tick = some next →
      Examines deps situationId targets watch tick next →
      PageCutsNoTie deps situationId targets watch tick next →
        NoneSkipped situationId targets next :=
    fun watch tick next hskipped hstep hexamines hpage =>
      ((step_drains_iff hlimit hskipped hstep hexamines).mpr hpage).1
  have hsteps := stepsSatisfy_iff_of_invariant hkeep
    (fun watch tick next hskipped hstep hexamines =>
      step_drains_iff hlimit hskipped hstep hexamines) hstart hexamines
  have hboth : VisitsOnly (watchStep deps situationId)
        (NoneSkipped situationId targets) ⟨tracker, []⟩ ticks ∧
      StepsSatisfy (watchStep deps situationId) (Drains targets) ⟨tracker, []⟩ ticks ↔
      StepsSatisfy (watchStep deps situationId)
        (PageCutsNoTie deps situationId targets) ⟨tracker, []⟩ ticks := by
    rw [← hsteps, visitsOnly_iff_start_and_steps]
    constructor
    · rintro ⟨⟨_, hvisits⟩, hdrains⟩
      exact stepsSatisfy_and hvisits hdrains
    · intro hall
      exact ⟨⟨hstart, hall.mono fun _ _ _ h => h.1⟩, hall.mono fun _ _ _ h => h.2⟩
  refine ⟨hboth, fun hpages final hrun hlength target htarget => ?_⟩
  have hnone := all_shown_of_drains (hboth.mpr hpages).2 hrun
    (le_trans (length_filter_le _ _) hlength)
  unfold Watch.unshown at hnone
  rw [filter_eq_nil_iff] at hnone
  simpa using hnone target htarget

def escalatingTick (now : Datetime) (sourceOutputId : Uuid) (second : Datetime) : Tick :=
  sampleTick now sourceOutputId second ⟨some 1, "escalates", "a clash", [1], false⟩

theorem escalatingTick_offers (now : Datetime) (sourceOutputId : Uuid) (second : Datetime) :
    (escalatingTick now sourceOutputId second).Offers (sampleDeps 1) 1
      [(11, 10), (12, second)] := by
  refine ⟨_, mem_singleton_self _, rfl, ?_⟩
  have hfirst : qualifies (1 / 2) [11, 12, 13] (sampleFinding 11 10) =
      true := by decide +kernel
  have hsecond : qualifies (1 / 2) [11, 12, 13] (sampleFinding 12 second) =
      true := by
    change qualifies (1 / 2) [11, 12, 13] (sampleFinding 12 0) = true
    decide +kernel
  rw [forall_mem_cons, forall_mem_singleton]
  exact ⟨⟨sampleFinding 11 10, mem_cons_self, rfl, rfl, hfirst⟩,
    ⟨sampleFinding 12 second, mem_cons_of_mem _ mem_cons_self, rfl, rfl, hsecond⟩⟩

/-- Two findings are shown one after the other. -/
theorem evidence_drains_iff_twoFindings :
    ∃ final, run (watchStep (sampleDeps 1) 1) ⟨sampleTracker, []⟩
        [escalatingTick 100 21 20, escalatingTick 200 22 20] = some final ∧
      ∀ target ∈ [((11 : Uuid), (10 : Datetime)), (12, 20)], target.1 ∈ final.shown := by
  have hnew : ∀ target ∈ [((11 : Uuid), (10 : Datetime)), (12, 20)], 0 < target.2 := by decide
  have hadvances : ∀ tracker : Tracker, ∀ tick : Tick, tick.idle = false →
      tracker.seeded = true →
      (buildUpdate (tick.verdicts (sampleDeps 1) tracker) tick.now).any
        (fun event => event.situationId = 1) = true →
      tick.Advances (sampleDeps 1) tracker 1 := by
    intro tracker tick hidle hseeded hany
    obtain ⟨event, hevent, hid⟩ := any_eq_true.mp hany
    exact ⟨hidle, hseeded, event, hevent, of_decide_eq_true hid⟩
  have hexamines : StepsSatisfy (watchStep (sampleDeps 1) 1)
      (Examines (sampleDeps 1) 1 [(11, 10), (12, 20)]) ⟨sampleTracker, []⟩
      [escalatingTick 100 21 20, escalatingTick 200 22 20] := by
    refine ⟨⟨escalatingTick_offers 100 21 20, hadvances _ _ rfl rfl ?_⟩,
      ⟨escalatingTick_offers 200 22 20, hadvances _ _ rfl rfl ?_⟩, trivial⟩
    · decide +kernel
    · decide +kernel
  have hpages : StepsSatisfy (watchStep (sampleDeps 1) 1)
      (PageCutsNoTie (sampleDeps 1) 1 [(11, 10), (12, 20)])
      ⟨sampleTracker, []⟩
      [escalatingTick 100 21 20, escalatingTick 200 22 20] := by
    refine ⟨?_, ?_, trivial⟩
    · intro situation hsituation _
      rw [mem_singleton.mp hsituation]
      decide +kernel
    · intro situation hsituation _
      rw [mem_singleton.mp hsituation]
      decide +kernel
  refine ⟨_, rfl, ?_⟩
  exact (evidence_drains_iff (sampleDeps 1) (Nat.le_refl 1) 1
    [(11, 10), (12, 20)] sampleTracker 0 rfl hnew
    [escalatingTick 100 21 20, escalatingTick 200 22 20] hexamines).2 hpages
      _ rfl (Nat.le_refl 2)

/-- Of two findings of one instant the limit cuts one off, and the watermark
passes it. -/
theorem tied_finding_skipped :
    (escalatingTick 100 21 10).Offers (sampleDeps 1) 1 [(11, 10), (12, 10)] ∧
      (escalatingTick 100 21 10).Advances (sampleDeps 1) sampleTracker 1 ∧
      ¬VisitsOnly (watchStep (sampleDeps 1) 1)
        (NoneSkipped 1 [(11, 10), (12, 10)]) ⟨sampleTracker, []⟩
        [escalatingTick 100 21 10] := by
  refine ⟨escalatingTick_offers 100 21 10, ⟨rfl, rfl, ?_⟩, ?_⟩
  · have hany : (buildUpdate ((escalatingTick 100 21 10).verdicts
        (sampleDeps 1) sampleTracker) 100).any
          (fun event => event.situationId = 1) = true := by decide +kernel
    obtain ⟨event, hevent, hid⟩ := any_eq_true.mp hany
    exact ⟨event, hevent, of_decide_eq_true hid⟩
  · intro hvisits
    have hfinal : NoneSkipped 1 [(11, 10), (12, 10)]
        ⟨runTick (sampleDeps 1) sampleTracker (escalatingTick 100 21 10),
          (escalatingTick 100 21 10).shown (sampleDeps 1) sampleTracker 1⟩ :=
      hvisits.2
    have hshown : (escalatingTick 100 21 10).shown (sampleDeps 1)
        sampleTracker 1 = [11] := by decide +kernel
    have hmark : (runTick (sampleDeps 1) sampleTracker
        (escalatingTick 100 21 10)).watermarks 1 = some 10 := by
      decide +kernel
    rw [hshown] at hfinal
    obtain ⟨mark, hwatermark, hlt⟩ := hfinal (12, 10) (by decide)
    rw [hmark, Option.some.injEq] at hwatermark
    exact absurd hlt (by rw [← hwatermark]; decide)

end Legba.Situations
