import Legba.DeskCap
import Legba.KeysetPage

/-!
# What the per-desk cap keeps and folds

Every desk keeps its worst candidates, up to the cap, and the others are folded
into one rollup.  Between them the kept and the summarised candidates are those
which came in, and the rollups carry the watermarks and the dispatches of those
they summarise.
-/

namespace Legba.Alerts

open KeyGroups List

structure Summary where
  triggerClass : String
  severity : String
  title : String

inductive CandidateData (Data : Type*) where
  | given (data : Data)
  | rollup (suppressedCount perDeskCap : ℕ) (suppressed : List Summary)

/-- `AlertCandidate`, with all that `apply_desk_cap` reads or carries over. -/
structure Candidate (Ref Data Mark Dispatch : Type*) where
  triggerClass : String
  severity : String
  title : String
  body : String
  targetId : Option String
  derivedFrom : List Ref
  data : CandidateData Data
  watermarks : List Mark
  researchDispatch : List Dispatch

variable {Ref Data Mark Dispatch : Type*}

namespace Candidate

def alert (cand : Candidate Ref Data Mark Dispatch) : AlertCandidate where
  triggerClass := cand.triggerClass
  severity := cand.severity
  title := cand.title
  targetId := cand.targetId
  data := ⟨some cand.triggerClass, none, none, none, none⟩
  watermarks := []
  stamped := rfl

def desk (cand : Candidate Ref Data Mark Dispatch) : String :=
  cand.alert.deskKey

def summary (cand : Candidate Ref Data Mark Dispatch) : Summary where
  triggerClass := cand.triggerClass
  severity := cand.severity
  title := String.ofList (cand.title.toList.take 200)

end Candidate

def maxDerivedRefs : ℕ := 8

variable [DecidableEq Ref]

def mergedRefs (rest : List (Candidate Ref Data Mark Dispatch)) : List Ref :=
  (rest.flatMap Candidate.derivedFrom).foldl (fun merged ref =>
    if ref ∉ merged ∧ merged.length < maxDerivedRefs then merged ++ [ref]
    else merged) []

def rollup (desk : String) (cap : ℕ) (first : Candidate Ref Data Mark Dispatch)
    (others : List (Candidate Ref Data Mark Dispatch)) :
    Candidate Ref Data Mark Dispatch :=
  let rest := first :: others
  let alert := deskRollup desk cap first.alert (others.map Candidate.alert)
  let summaries := rest.map Candidate.summary
  { triggerClass := alert.triggerClass
    severity := alert.severity
    title := alert.title
    body := String.intercalate "\n" (summaries.map fun summary =>
      "[" ++ summary.severity ++ "] " ++ summary.triggerClass ++ ": " ++ summary.title)
    targetId := alert.targetId
    derivedFrom := mergedRefs rest
    data := .rollup rest.length cap summaries
    watermarks := rest.flatMap Candidate.watermarks
    researchDispatch := rest.flatMap Candidate.researchDispatch }

def capCandidates (cands : List (Candidate Ref Data Mark Dispatch)) (cap : ℕ) :
    List (Candidate Ref Data Mark Dispatch) × List (Candidate Ref Data Mark Dispatch) :=
  capDesks Candidate.alert rollup cands cap

def summarised (cands : List (Candidate Ref Data Mark Dispatch)) (cap : ℕ) :
    List (Candidate Ref Data Mark Dispatch) :=
  (deskKeys Candidate.alert cands).flatMap fun desk =>
    (deskItems Candidate.alert cands desk).drop cap

structure CapLaws (cands : List (Candidate Ref Data Mark Dispatch)) (cap : ℕ)
    (kept rollups : List (Candidate Ref Data Mark Dispatch)) : Prop where
  capped : ∀ desk, (kept.filter (·.desk == desk)).length ≤ cap
  rolled : ∀ desk, (rollups.filter (·.desk == desk)).length ≤ 1
  partition : (kept ++ summarised cands cap).Perm cands
  watermarks : ((kept ++ rollups).flatMap Candidate.watermarks).Perm
    (cands.flatMap Candidate.watermarks)
  dispatches : ((kept ++ rollups).flatMap Candidate.researchDispatch).Perm
    (cands.flatMap Candidate.researchDispatch)
  ordered : ∀ folded ∈ summarised cands cap, ∀ worse ∈ kept,
    worse.desk = folded.desk →
    ¬ deskSortKey folded.alert < deskSortKey worse.alert
  covered : ∀ folded ∈ summarised cands cap, ∃ rolled ∈ rollups, rolled.desk = folded.desk
  counted : ∀ rolled ∈ rollups, ∃ suppressed, rolled.data =
    .rollup ((summarised cands cap).filter (·.desk == rolled.desk)).length cap suppressed
  worst : ∀ rolled ∈ rollups,
    (∃ folded ∈ summarised cands cap, folded.desk = rolled.desk ∧
      folded.severity = rolled.severity) ∧
    ∀ folded ∈ summarised cands cap, folded.desk = rolled.desk →
      severityRank folded.severity ≤ severityRank rolled.severity

theorem worstSeverity_cons (first cand : AlertCandidate) (rest : List AlertCandidate) :
    worstSeverity first (cand :: rest) = worstSeverity
      (if severityRank first.severity < severityRank cand.severity then cand
        else first) rest := by
  unfold worstSeverity
  rw [foldl_cons]
  split <;> rfl

theorem worstSeverity_spec (first : AlertCandidate) (rest : List AlertCandidate) :
    (∃ cand ∈ first :: rest, cand.severity = worstSeverity first rest) ∧
      ∀ cand ∈ first :: rest,
        severityRank cand.severity ≤ severityRank (worstSeverity first rest) := by
  induction rest generalizing first with
  | nil =>
    refine ⟨⟨first, mem_cons_self, rfl⟩, fun cand hcand => ?_⟩
    rw [mem_singleton.mp hcand]
    exact le_refl _
  | cons next rest ih =>
    rw [worstSeverity_cons]
    split
    · rename_i hworse
      obtain ⟨⟨cand, hcand, hsame⟩, hle⟩ := ih next
      refine ⟨⟨cand, mem_cons_of_mem _ hcand, hsame⟩, ?_⟩
      rw [forall_mem_cons]
      exact ⟨hworse.le.trans (hle next mem_cons_self), hle⟩
    · rename_i hbetter
      obtain ⟨⟨cand, hcand, hsame⟩, hle⟩ := ih first
      rw [forall_mem_cons] at hle
      constructor
      · rcases mem_cons.mp hcand with rfl | hrest
        · exact ⟨cand, mem_cons_self, hsame⟩
        · exact ⟨cand, mem_cons_of_mem _ (mem_cons_of_mem _ hrest), hsame⟩
      · rw [forall_mem_cons, forall_mem_cons]
        exact ⟨hle.1, (not_lt.mp hbetter).trans hle.1, hle.2⟩

/-! ## Desk by desk -/

section

variable (cands : List (Candidate Ref Data Mark Dispatch)) (cap : ℕ)

variable {desk : String} {rolled : Candidate Ref Data Mark Dispatch}

omit [DecidableEq Ref] in
theorem desk_of_mem {cand : Candidate Ref Data Mark Dispatch}
    (hcand : cand ∈ deskItems Candidate.alert cands desk) : cand.desk = desk := by
  rw [deskItems, mem_insertionSort, mem_filter] at hcand
  exact beq_iff_eq.mp hcand.2

omit [DecidableEq Ref] in
theorem ne_empty_of_mem (hdesk : desk ∈ deskKeys Candidate.alert cands) : desk ≠ "" := by
  rw [deskKeys, mem_insertionSort, mem_dedup] at hdesk
  obtain ⟨cand, -, rfl⟩ := mem_map.mp hdesk
  unfold AlertCandidate.deskKey
  split
  · split
    · decide
    · assumption
  · decide

theorem desk_rollup (hdesk : desk ≠ "") (cap : ℕ) (first : Candidate Ref Data Mark Dispatch)
    (others : List (Candidate Ref Data Mark Dispatch)) :
    (rollup desk cap first others).desk = desk := by
  unfold rollup Candidate.desk Candidate.alert AlertCandidate.deskKey deskRollup
  split
  · rename_i target htarget
    split at htarget
    · cases htarget
    · cases htarget
      exact if_neg hdesk
  · rename_i hnone
    split at hnone
    · rename_i hglobal
      exact hglobal.symm
    · cases hnone

omit [DecidableEq Ref] in
theorem filter_desk {part : String → List (Candidate Ref Data Mark Dispatch)}
    (hpart : ∀ desk ∈ deskKeys Candidate.alert cands, ∀ cand ∈ part desk, cand.desk = desk)
    (desk : String) :
    ((deskKeys Candidate.alert cands).flatMap part).filter
      (·.desk == desk) =
      if desk ∈ deskKeys Candidate.alert cands then part desk else [] :=
  filter_flatMap_key ((perm_insertionSort _ _).nodup_iff.mpr (nodup_dedup _)) hpart desk

omit [DecidableEq Ref] in
theorem filter_summarised (hdesk : desk ∈ deskKeys Candidate.alert cands) :
    (summarised cands cap).filter (·.desk == desk) =
      (deskItems Candidate.alert cands desk).drop cap := by
  rw [summarised, filter_desk cands (fun _ _ cand hcand =>
    desk_of_mem cands (mem_of_mem_drop hcand)), if_pos hdesk]

theorem mem_rollupItems {ordered : List (Candidate Ref Data Mark Dispatch)} :
    rolled ∈ rollupItems rollup cap desk ordered ↔
      ∃ first others, ordered.drop cap = first :: others ∧
        rolled = rollup desk cap first others := by
  unfold rollupItems
  cases ordered.drop cap with
  | nil => simp
  | cons first others => simp [and_assoc]

theorem exists_rollup (hrolled : rolled ∈ (capCandidates cands cap).2) :
    ∃ first others, (summarised cands cap).filter (·.desk == rolled.desk) =
        first :: others ∧ rolled = rollup rolled.desk cap first others := by
  obtain ⟨desk, hdesk, hitem⟩ := mem_flatMap.mp hrolled
  obtain ⟨first, others, hdrop, heq⟩ := (mem_rollupItems cap).mp hitem
  have hsame : rolled.desk = desk := by rw [heq, desk_rollup (ne_empty_of_mem cands hdesk)]
  rw [hsame, filter_summarised cands cap hdesk]
  exact ⟨first, others, hdrop, heq⟩

omit [DecidableEq Ref] in
theorem kept_before_summarised {worse folded : Candidate Ref Data Mark Dispatch}
    (hworse : worse ∈ (deskItems Candidate.alert cands desk).take cap)
    (hfolded : folded ∈ (deskItems Candidate.alert cands desk).drop cap) :
    deskSortKey worse.alert ≤ deskSortKey folded.alert := by
  have hsorted : (deskItems Candidate.alert cands desk).Pairwise
      fun a b => deskSortKey a.alert ≤ deskSortKey b.alert :=
    @KeysetPage.inOrder_pairwise _ _ _ _ _ (fun cand => deskSortKey cand.alert)
      (cands.filter fun cand => cand.alert.deskKey == desk)
  rw [← take_append_drop cap (deskItems Candidate.alert cands desk), pairwise_append] at hsorted
  exact hsorted.2.2 worse hworse folded hfolded

theorem capCandidates_laws :
    CapLaws cands cap (capCandidates cands cap).1 (capCandidates cands cap).2 where
  capped := fun desk => by
    rw [capCandidates, capDesks, filter_desk cands (fun _ _ cand hcand =>
      desk_of_mem cands (mem_of_mem_take hcand))]
    split
    · exact length_take_le _ _
    · exact Nat.zero_le _
  rolled := fun desk => by
    have hdesks : ∀ key ∈ deskKeys Candidate.alert cands, ∀ cand ∈
        rollupItems rollup cap key (deskItems Candidate.alert cands key),
        cand.desk = key := by
      intro key hkey cand hcand
      obtain ⟨first, others, -, rfl⟩ := (mem_rollupItems cap).mp hcand
      exact desk_rollup (ne_empty_of_mem cands hkey) cap first others
    rw [capCandidates, capDesks, filter_desk cands hdesks]
    split
    · unfold rollupItems
      split <;> simp
    · exact Nat.zero_le _
  partition := by
    refine (flatMap_append_perm _ _ _).trans ?_
    simp only [take_append_drop]
    exact deskItems_groups_perm Candidate.alert cands
  watermarks := capDesks_perm Candidate.alert rollup (fun _ _ _ _ => rfl)
    cands cap
  dispatches := capDesks_perm Candidate.alert rollup (fun _ _ _ _ => rfl)
    cands cap
  ordered := fun folded hfolded worse hworse hsame => by
    obtain ⟨desk, -, hdrop⟩ := mem_flatMap.mp hfolded
    obtain ⟨other, -, htake⟩ := mem_flatMap.mp hworse
    have hother : other = desk := by
      rw [← desk_of_mem cands (mem_of_mem_take htake), hsame,
        desk_of_mem cands (mem_of_mem_drop hdrop)]
    rw [hother] at htake
    exact not_lt.mpr (kept_before_summarised cands cap htake hdrop)
  covered := fun folded hfolded => by
    obtain ⟨desk, hdesk, hdrop⟩ := mem_flatMap.mp hfolded
    obtain ⟨first, others, hcons⟩ := exists_cons_of_ne_nil (ne_nil_of_mem hdrop)
    refine ⟨rollup desk cap first others, mem_flatMap.mpr
      ⟨desk, hdesk, (mem_rollupItems cap).mpr ⟨first, others, hcons, rfl⟩⟩, ?_⟩
    rw [desk_rollup (ne_empty_of_mem cands hdesk), desk_of_mem cands (mem_of_mem_drop hdrop)]
  counted := fun rolled hrolled => by
    obtain ⟨first, others, hsummarised, heq⟩ := exists_rollup cands cap hrolled
    rw [hsummarised]
    exact ⟨_, congrArg Candidate.data heq⟩
  worst := fun rolled hrolled => by
    obtain ⟨first, others, hsummarised, heq⟩ := exists_rollup cands cap hrolled
    have hmem : ∀ cand, cand ∈ summarised cands cap ∧
        cand.desk = rolled.desk ↔ cand ∈ first :: others := by
      intro cand
      rw [← hsummarised, mem_filter, beq_iff_eq]
    obtain ⟨⟨alert, halert, hsame⟩, hle⟩ :=
      worstSeverity_spec first.alert (others.map Candidate.alert)
    rw [← map_cons] at halert hle
    have hseverity : worstSeverity first.alert (others.map Candidate.alert) =
        rolled.severity := (congrArg Candidate.severity heq).symm
    rw [hseverity] at hsame hle
    constructor
    · obtain ⟨cand, hcand, rfl⟩ := mem_map.mp halert
      exact ⟨cand, ((hmem cand).mpr hcand).1, ((hmem cand).mpr hcand).2, hsame⟩
    · intro cand hcand hdesk
      exact hle cand.alert (mem_map_of_mem ((hmem cand).mp ⟨hcand, hdesk⟩))

end

end Legba.Alerts
