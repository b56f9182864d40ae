import Legba.SourcePause

/-!
# The evidence behind a pause

The pause leg reads the newest poll outcomes of a source wherever they lie, and
the re-probe leg leaves them where they are.  A pause has its error run since
the last activation exactly if enough polls, of any outcome, came after it.
-/

namespace Legba.SourceGc

open KeyedTable
open Descriptors (LifecycleState)
open List

def SourceTables.afterUnpause (tables : SourceTables) (sourceId : String)
    (instant : Datetime) : Bool :=
  (tables.unpausedAt sourceId).all fun unpaused => unpaused < instant

def freshOutcome (tables : SourceTables) (sourceId : String) (row : PollOutcome) : Bool :=
  row.sourceId = sourceId && tables.afterUnpause sourceId row.occurredAt

def SourceTables.outcomesSince (tables : SourceTables) (sourceId : String) : List Uuid :=
  tables.outcomes.keys.filter fun id => (tables.outcomes.row? id).any (freshOutcome tables sourceId)

/-- Errors of a source since it was last activated, enough of them for a pause,
with no other outcome of the source among them. -/
structure ErrorRun (tables : SourceTables) (sourceId : String) (run : Finset Uuid) : Prop where
  long : sourceFailureThreshold ≤ run.card
  errors : ∀ id ∈ run, ∃ row, tables.outcomes.row? id = some row ∧
    row.sourceId = sourceId ∧ row.outcome = .error ∧
    tables.afterUnpause sourceId row.occurredAt = true
  unbroken : ∀ other row, tables.outcomes.row? other = some row →
    row.sourceId = sourceId → row.outcome ≠ .error →
    (∀ id ∈ run, ∀ error, tables.outcomes.row? id = some error →
      row.occurredAt ≤ error.occurredAt) ∨
    ∀ id ∈ run, ∀ error, tables.outcomes.row? id = some error → error.occurredAt ≤ row.occurredAt

theorem mem_outcomesSince {tables : SourceTables} {sourceId : String} {id : Uuid} :
    id ∈ tables.outcomesSince sourceId ↔
      ∃ row, tables.outcomes.row? id = some row ∧ freshOutcome tables sourceId row = true := by
  unfold SourceTables.outcomesSince
  rw [mem_filter, tables.outcomes.mem_keys]
  cases hrow : tables.outcomes.row? id with
  | none => simp
  | some row => simp

theorem nodup_outcomesSince (tables : SourceTables) (sourceId : String) :
    (tables.outcomesSince sourceId).Nodup :=
  tables.outcomes.nodup_keys.filter _

theorem ErrorRun.enough {tables : SourceTables} {sourceId : String}
    {run : Finset Uuid} (hrun : ErrorRun tables sourceId run) :
    sourceFailureThreshold ≤ (tables.outcomesSince sourceId).length := by
  have hsubset : run ⊆ (tables.outcomesSince sourceId).toFinset := by
    intro id hid
    obtain ⟨row, hrow, hsource, _, hafter⟩ := hrun.errors id hid
    rw [mem_toFinset, mem_outcomesSince]
    refine ⟨row, hrow, ?_⟩
    unfold freshOutcome
    rw [hafter, decide_eq_true hsource]
    rfl
  calc sourceFailureThreshold ≤ run.card := hrun.long
    _ ≤ (tables.outcomesSince sourceId).toFinset.card := Finset.card_le_card hsubset
    _ = (tables.outcomesSince sourceId).length :=
      toFinset_card_of_nodup (nodup_outcomesSince tables sourceId)

section

variable {tables : SourceTables} {leg : PauseLeg} {sourceId : String}

theorem nodup_newestFirst (hread : leg.readOrder.Perm tables.outcomes.keys) :
    ((newestFirst tables.outcomes leg.readOrder sourceId).map
      Prod.fst).Nodup := by
  have hkeys : (leg.readOrder.filterMap
      (outcomeOf tables.outcomes sourceId)).map Prod.fst =
      leg.readOrder.filter fun id => (tables.outcomes.row? id).any
        fun row => row.sourceId = sourceId := by
    induction leg.readOrder with
    | nil => rfl
    | cons id rest ih =>
      unfold outcomeOf at ih ⊢
      cases hrow : tables.outcomes.row? id with
      | none => simpa [hrow] using ih
      | some row =>
        by_cases hsource : row.sourceId = sourceId
        · simpa [hrow, hsource, Option.filter] using ih
        · simpa [hrow, hsource, Option.filter] using ih
  unfold newestFirst
  rw [((perm_insertionSort _ _).map Prod.fst).nodup_iff, hkeys]
  exact (hread.nodup_iff.mpr tables.outcomes.nodup_keys).filter _

theorem length_outcomesSince (hread : leg.readOrder.Perm tables.outcomes.keys) :
    (tables.outcomesSince sourceId).length =
      (newestFirst tables.outcomes leg.readOrder sourceId).countP
        fun entry => tables.afterUnpause sourceId entry.2.occurredAt := by
  have hsame : ((newestFirst tables.outcomes leg.readOrder sourceId).filter
      fun entry => tables.afterUnpause sourceId entry.2.occurredAt).map
        Prod.fst |>.Perm (tables.outcomesSince sourceId) := by
    rw [perm_ext_iff_of_nodup ((nodup_newestFirst hread).sublist
      (filter_sublist.map _)) (nodup_outcomesSince tables sourceId)]
    intro id
    rw [mem_outcomesSince, mem_map]
    constructor
    · intro hexists
      obtain ⟨entry, hentry, heq⟩ := hexists
      obtain ⟨hmem, hafter⟩ := mem_filter.mp hentry
      obtain ⟨_, hrow, hsource⟩ := mem_newestFirst.mp hmem
      subst heq
      refine ⟨entry.2, hrow, ?_⟩
      unfold freshOutcome
      rw [hafter, decide_eq_true hsource]
      rfl
    · intro hexists
      obtain ⟨row, hrow, hfresh⟩ := hexists
      unfold freshOutcome at hfresh
      rw [Bool.and_eq_true, decide_eq_true_eq] at hfresh
      have hid : id ∈ leg.readOrder := by
        rw [hread.mem_iff, tables.outcomes.mem_keys, hrow]
        rfl
      exact ⟨(id, row), mem_filter.mpr ⟨mem_newestFirst.mpr ⟨hid, hrow, hfresh.1⟩, hfresh.2⟩, rfl⟩
  rw [countP_eq_length_filter, ← hsame.length_eq, length_map]

theorem afterUnpause_mono {older newer : Datetime} (hle : older ≤ newer)
    (hafter : tables.afterUnpause sourceId older) : tables.afterUnpause sourceId newer := by
  unfold SourceTables.afterUnpause at hafter ⊢
  cases hunpaused : tables.unpausedAt sourceId with
  | none => rfl
  | some unpaused =>
    rw [hunpaused, Option.all_some, decide_eq_true_eq] at hafter
    rw [Option.all_some, decide_eq_true_eq]
    exact lt_of_lt_of_le hafter hle

theorem errorRun_of_enough (hread : leg.readOrder.Perm tables.outcomes.keys)
    (hjudged : JudgedFailing tables leg sourceId)
    (henough : sourceFailureThreshold ≤ (tables.outcomesSince sourceId).length) :
    ∃ run, ErrorRun tables sourceId run := by
  have hsorted := newestFirst_sorted tables.outcomes leg.readOrder sourceId
  rw [length_outcomesSince hread, LeadingRun.le_countP_iff
    (fun _ _ => afterUnpause_mono) hsorted] at henough
  obtain ⟨_, hafter⟩ := henough
  have hsplit := take_append_drop sourceFailureThreshold
    (newestFirst tables.outcomes leg.readOrder sourceId)
  have hmem : ∀ entry ∈ (newestFirst tables.outcomes leg.readOrder
      sourceId).take sourceFailureThreshold,
      tables.outcomes.row? entry.1 = some entry.2 ∧
        entry.2.sourceId = sourceId := fun entry hentry =>
    (mem_newestFirst.mp (mem_of_mem_take hentry)).2
  refine ⟨(((newestFirst tables.outcomes leg.readOrder sourceId).take
    sourceFailureThreshold).map Prod.fst).toFinset, ?_, ?_, ?_⟩
  · rw [toFinset_card_of_nodup ((nodup_newestFirst hread).sublist ((take_sublist
      _ _).map _)), length_map, length_take, Nat.min_eq_left hjudged.enough]
  · intro id hid
    rw [mem_toFinset, mem_map] at hid
    obtain ⟨entry, hentry, rfl⟩ := hid
    obtain ⟨hrow, hsource⟩ := hmem entry hentry
    exact ⟨entry.2, hrow, hsource, (hjudged.errors entry hentry).1, hafter entry hentry⟩
  · intro other row hrow hsource herror
    left
    intro id hid error hfound
    rw [mem_toFinset, mem_map] at hid
    obtain ⟨entry, hentry, rfl⟩ := hid
    obtain rfl : entry.2 = error := Option.some.inj ((hmem entry hentry).1.symm.trans hfound)
    have hother : (other, row) ∈ newestFirst tables.outcomes leg.readOrder
        sourceId := by
      refine mem_newestFirst.mpr ⟨?_, hrow, hsource⟩
      rw [hread.mem_iff, tables.outcomes.mem_keys, hrow]
      rfl
    rw [← hsplit] at hother hsorted
    rcases mem_append.mp hother with hnewest | holder
    · exact absurd (hjudged.errors _ hnewest).1 herror
    · exact (pairwise_append.mp hsorted).2.2 entry hentry _ holder

end

def PausesOnFreshErrors (before : SourceTables) (event : Event) (after : SourceTables) : Prop :=
  match event with
  | .pause _ => ∀ sourceId, Pauses before after sourceId → ∃ run, ErrorRun before sourceId run
  | _ => True

def PolledSinceUnpause (before : SourceTables) (event : Event) (_ : SourceTables) : Prop :=
  match event with
  | .pause leg => ∀ sourceId, JudgedFailing before leg sourceId →
      sourceFailureThreshold ≤ (before.outcomesSince sourceId).length
  | _ => True

theorem pausesOnFreshErrors_step_iff {before after : SourceTables}
    {event : Event} (hstep : step before event = some after) :
    PausesOnFreshErrors before event after ↔ PolledSinceUnpause before event after := by
  cases event with
  | poll id outcome => exact Iff.rfl
  | land signal => exact Iff.rfl
  | describe sourceId head => exact Iff.rfl
  | reprobe leg => exact Iff.rfl
  | pause leg =>
    unfold step at hstep
    dsimp only at hstep
    split at hstep
    · rename_i hread
      obtain rfl := Option.some.inj hstep
      apply forall_congr'
      intro sourceId
      rw [pauses_iff]
      apply forall_congr'
      intro hjudged
      constructor
      · intro hexists
        obtain ⟨run, hrun⟩ := hexists
        exact hrun.enough
      · exact errorRun_of_enough hread hjudged
    · simp at hstep

/-- In a run each pause rests on an error run since the source was last
activated exactly if each source judged failing has been polled as often as the
threshold since then. -/
theorem pausesOnFreshErrors_iff (tables : SourceTables) (events : List Event) :
    LabelledRun.StepsSatisfy step PausesOnFreshErrors tables events ↔
      LabelledRun.StepsSatisfy step PolledSinceUnpause tables events := by
  refine LabelledRun.stepsSatisfy_iff_of_invariant (?_ : ∀ _ _ _, True → _ → True → _ → True) ?_
    trivial (LabelledRun.stepsSatisfy_of_forall (fun _ _ _ _ => trivial) tables _)
  · exact fun _ _ _ _ _ _ _ => trivial
  · exact fun _ _ _ _ hstep _ => pausesOnFreshErrors_step_iff hstep

def errorLog : Table Uuid PollOutcome :=
  (List.range 20).foldl
    (fun outcomes n => outcomes.put (BitVec.ofNat 128 n) ⟨"source.rss.daily", .error, n⟩)
    Table.empty

def dailySource (head : SourceHead) : SourceTables where
  sources := Table.empty.put "source.rss.daily" head
  outcomes := errorLog
  signals := []
  unpausedAt := fun _ => none

def failingDaily : SourceTables := dailySource ⟨.active, none, none⟩

def firstPause : PauseLeg where
  readOrder := errorLog.keys
  now := 20
  pausedAt := fun _ => 20

def freshProbe : ReprobeLeg where
  readOrder := ["source.rss.daily"]
  now := 20 + seconds (24 * 3600)
  newest := fun _ => some 21
  probedAt := fun _ => 20 + seconds (24 * 3600)
  writtenAt := fun _ => 20 + seconds (24 * 3600)

def secondPause : PauseLeg where
  readOrder := errorLog.keys
  now := 20 + seconds (30 * 3600)
  pausedAt := fun _ => 20 + seconds (30 * 3600)

def pausedDaily : SourceTables :=
  (pauseFailingSources failingDaily firstPause).1

def unpausedDaily : SourceTables :=
  reprobePausedSources pausedDaily freshProbe

theorem unpausedDaily_active :
    unpausedDaily.sources.row? "source.rss.daily" = some ⟨.active, none, none⟩ := by
  decide +kernel

theorem source_paused_again_on_old_errors :
    ¬LabelledRun.StepsSatisfy step PausesOnFreshErrors failingDaily
      [.pause firstPause, .reprobe freshProbe, .pause secondPause] := by
  intro hkeeps
  have hpause : step failingDaily (.pause firstPause) = some pausedDaily := step_pause (Perm.refl _)
  have hsources : pausedDaily.sources.keys = ["source.rss.daily"] := by decide +kernel
  have hprobe : step pausedDaily (.reprobe freshProbe) = some unpausedDaily :=
    step_reprobe (hsources ▸ Perm.refl _)
  have hagain : step unpausedDaily (.pause secondPause) =
      some (pauseFailingSources unpausedDaily secondPause).1 := by
    have hoff : unpausedDaily.outcomes.keys = errorLog.keys := by decide +kernel
    exact step_pause (hoff ▸ Perm.refl _)
  have hpauses : Pauses unpausedDaily
      (pauseFailingSources unpausedDaily secondPause).1
      "source.rss.daily" := by
    refine ⟨⟨_, unpausedDaily_active, rfl⟩,
      ⟨.paused, some (20 + seconds (30 * 3600)), some (pauseReason 20)⟩, ?_,
      rfl⟩
    decide +kernel
  obtain ⟨run, hrun⟩ := hkeeps.2.2.1 "source.rss.daily" hpauses
  have henough := hrun.enough
  have hnone : unpausedDaily.outcomesSince "source.rss.daily" = [] := by decide +kernel
  exact absurd henough (by decide)

end Legba.SourceGc
