import Legba.KeyGroups
import Legba.KeysetPage
import Legba.SignalRow
import Mathlib.Data.List.Dedup
import Mathlib.Data.List.Infix
import Mathlib.Data.List.ProdSigma

/-!
# The signal slice of one event-clustering pass

A pass reads the next page of canonical text signals after its watermark,
groups the page into clusters by single linkage, and offers the clusters to the
match and write loop in the order of their smallest signal id.  A pass which
consumed its page advances the watermark to the last signal of the page; a pass
cut in front of a cluster resumes at the earliest signal of the clusters it has
not reached.
-/

namespace Legba.EventClustering

open KeysetPage List

/-- The columns of a normalized signal which place it in the slice and in a
cluster.  The features which the pair score reads belong to the linkage. -/
structure EventEvidence where
  id : Uuid
  fetchedAt : Datetime
  deriving DecidableEq, Repr

/-- A `(fetched_at, id)` watermark. -/
abbrev Position := Datetime ×ₗ ℕ

def EventEvidence.position (signal : EventEvidence) : Position :=
  toLex (signal.fetchedAt, signal.id.toNat)

/-- The position of `_NIL_UUID` at an instant. -/
def inclusiveAt (instant : Datetime) : Position := toLex (instant, 0)

/-- The predicate of the slice which does not depend on the watermark, with the
columns of a row which satisfies it.  A row without `fetched_at` is after no
watermark. -/
def canonicalText (row : SignalRow) : Option EventEvidence :=
  match row.id, row.fetchedAt with
  | some id, some fetchedAt =>
    if row.modality = some "text" ∧
        (row.canonicalSignalId = none ∨ row.canonicalSignalId = some id) then
      some { id := id, fetchedAt := fetchedAt }
    else none
  | _, _ => none

/-- `_coerce_int`, of an option which is an integer. -/
def coerceInt (value : ℤ) : ℕ := (max 1 value).toNat

/-- `_SIGNAL_SLICE_SQL`; without a watermark the lookback bounds the slice. -/
def signalSlice (signals : List EventEvidence) (since : Datetime)
    (maxSignals : ℤ) (cursor : Option Position) : List EventEvidence :=
  page EventEvidence.position (coerceInt maxSignals)
    (signals.filter (after EventEvidence.position since cursor))

/-- Whether a pair of a slice is admitted by the blocking sweep over it and its
score links the two. -/
abbrev Linkage := List EventEvidence → EventEvidence → EventEvidence → Bool

/-- `_UnionFind.union`, on the function which `find` computes. -/
def union (find : ℕ → ℕ) (a b : ℕ) : ℕ → ℕ := fun i =>
  if find i = max (find a) (find b) then min (find a) (find b) else find i

def linkedPairs (linked : Linkage) (rows : List EventEvidence) : List (ℕ × ℕ) :=
  ((rows.zipIdx.product rows.zipIdx).filter fun pair =>
    decide (pair.1.2 < pair.2.2) && linked rows pair.1.1 pair.2.1).map
    fun pair => (pair.1.2, pair.2.2)

def componentRoots (linked : Linkage) (rows : List EventEvidence) : ℕ → ℕ :=
  (linkedPairs linked rows).foldl (fun find pair => union find pair.1 pair.2) id

def components (linked : Linkage) (rows : List EventEvidence) : List (List EventEvidence) :=
  let find := componentRoots linked rows
  (rows.zipIdx.map fun entry => find entry.2).dedup.map fun root =>
    (rows.zipIdx.filter fun entry => find entry.2 == root).map Prod.fst

def minId (members : List EventEvidence) : ℕ :=
  ((members.map fun member => member.id.toNat).min?).getD 0

/-- `cluster_evidence`: the clusters in the order of their smallest id, the
members of each in the order of their ids. -/
def clusterEvidence (linked : Linkage) (evidence : List EventEvidence) :
    List (List EventEvidence) :=
  let rows := inOrder EventEvidence.position evidence
  ((components linked rows).insertionSort fun a b => minId a ≤ minId b).map
    fun members => members.insertionSort fun a b => a.id.toNat ≤ b.id.toNat

/-- `EventCandidate.cursor_position` of a cluster candidate. -/
def cursorPosition (members : List EventEvidence) : Option Position :=
  (members.map EventEvidence.position).min?

/-- Where the budget stops the phases in front of the tower.  A write loop
which is allowed at least as many candidates as it has is not stopped. -/
inductive Cut where
  | lifecycle
  | cluster
  | matching
  | write (allowed : ℕ)
  deriving DecidableEq, Repr

structure SignalPass where
  evidence : List EventEvidence
  reached : List (List EventEvidence)
  unprocessed : List (List EventEvidence)
  sliceDone : Bool

def signalPass (linked : Linkage) (slice : List EventEvidence) : Cut → SignalPass
  | .lifecycle => { evidence := [], reached := [], unprocessed := [],
                    sliceDone := false }
  | .cluster =>
    { evidence := slice, reached := [], unprocessed := []
      sliceDone := slice.isEmpty }
  | .matching =>
    { evidence := slice, reached := []
      unprocessed := clusterEvidence linked slice
      sliceDone := slice.isEmpty }
  | .write allowed =>
    let candidates := clusterEvidence linked slice
    { evidence := slice
      reached := candidates.take allowed
      unprocessed := candidates.drop allowed
      sliceDone := decide (candidates.length ≤ allowed) }

def SignalPass.floor (pass : SignalPass) : Option Position :=
  (pass.unprocessed.filterMap cursorPosition).min?

def SignalPass.nextCursor (pass : SignalPass) (cursor : Option Position) : Option Position :=
  match pass.evidence.getLast? with
  | none => cursor
  | some last =>
    if pass.sliceDone then some last.position
    else
      match pass.floor with
      | none => cursor
      | some position => some (inclusiveAt (instantOf position))

def SignalPass.reachedSignals (pass : SignalPass) : List EventEvidence :=
  pass.reached.flatten

theorem position_injective : Function.Injective EventEvidence.position := by
  intro a b heq
  have hpair := congrArg ofLex heq
  simp only [EventEvidence.position, ofLex_toLex, Prod.mk.injEq] at hpair
  cases a
  cases b
  simp only [EventEvidence.mk.injEq]
  exact ⟨BitVec.eq_of_toNat_eq hpair.2, hpair.1⟩

@[simp] theorem instantOf_position (signal : EventEvidence) :
    instantOf signal.position = signal.fetchedAt := rfl

@[simp] theorem instantOf_inclusiveAt (instant : Datetime) :
    instantOf (inclusiveAt instant) = instant := rfl

variable {position : Position} {linked : Linkage}
  {members evidence : List EventEvidence} {member : EventEvidence}
  {pass : SignalPass}

theorem inclusiveAt_le_iff {instant : Datetime} :
    inclusiveAt instant ≤ position ↔ instant ≤ instantOf position := by
  refine ⟨fun hle => instantOf_mono hle, fun hle => ?_⟩
  refine Prod.Lex.le_iff.mpr ?_
  rcases lt_or_eq_of_le hle with hlt | heq
  · exact Or.inl hlt
  · exact Or.inr ⟨heq, Nat.zero_le _⟩

theorem coerceInt_pos (value : ℤ) : 0 < coerceInt value := by
  unfold coerceInt
  omega

section

variable {signals : List EventEvidence} {since : Datetime} {maxSignals : ℤ}
  {cursor : Option Position} {signal other : EventEvidence}

theorem mem_signalSlice (hmem : signal ∈ signalSlice signals since maxSignals cursor) :
    signal ∈ signals ∧ after EventEvidence.position since cursor signal = true :=
  mem_filter.mp (mem_of_mem_page hmem)

theorem not_after_of_signalSlice_eq_nil (hnil : signalSlice signals since maxSignals cursor = [])
    (hsignal : signal ∈ signals) : after EventEvidence.position since cursor signal = false := by
  rw [signalSlice, page_eq_nil_iff (coerceInt_pos maxSignals), filter_eq_nil_iff] at hnil
  exact Bool.eq_false_iff.mpr (hnil signal hsignal)

end

theorem components_flatten_perm (linked : Linkage) (rows : List EventEvidence) :
    (components linked rows).flatten.Perm rows := by
  have hcovered : ∀ entry ∈ rows.zipIdx,
      componentRoots linked rows entry.2 ∈
        (rows.zipIdx.map fun entry =>
          componentRoots linked rows entry.2).dedup :=
    fun entry hentry => mem_dedup.mpr (mem_map_of_mem hentry)
  have hperm := KeyGroups.flatMap_filter_key_perm (fun entry : EventEvidence × ℕ
    => componentRoots linked rows entry.2) (nodup_dedup _) hcovered
  have hflat : (components linked rows).flatten =
      ((rows.zipIdx.map fun entry =>
        componentRoots linked rows entry.2).dedup.flatMap fun root =>
          rows.zipIdx.filter fun entry =>
            componentRoots linked rows entry.2 == root).map Prod.fst := by
    rw [map_flatMap, components, flatMap_def]
  rw [hflat]
  refine (hperm.map Prod.fst).trans ?_
  rw [zipIdx_map_fst]

theorem components_ne_nil {rows : List EventEvidence}
    (hmem : members ∈ components linked rows) : members ≠ [] := by
  obtain ⟨root, hroot, rfl⟩ := mem_map.mp hmem
  obtain ⟨entry, hentry, hkey⟩ := mem_map.mp (mem_dedup.mp hroot)
  refine ne_nil_of_mem (mem_map_of_mem (a := entry) ?_)
  exact mem_filter.mpr ⟨hentry, beq_iff_eq.mpr hkey⟩

theorem mem_clusterEvidence (hmem : members ∈ clusterEvidence linked evidence) :
    ∃ component ∈ components linked (inOrder EventEvidence.position evidence),
      members.Perm component := by
  obtain ⟨component, hcomponent, rfl⟩ := mem_map.mp hmem
  rw [mem_insertionSort] at hcomponent
  exact ⟨component, hcomponent, perm_insertionSort _ _⟩

theorem clusterEvidence_ne_nil
    (hmem : members ∈ clusterEvidence linked evidence) : members ≠ [] := by
  obtain ⟨component, hcomponent, hperm⟩ := mem_clusterEvidence hmem
  intro hnil
  rw [hnil] at hperm
  exact components_ne_nil hcomponent hperm.nil_eq.symm

theorem clusterEvidence_flatten_perm (linked : Linkage) (evidence : List EventEvidence) :
    (clusterEvidence linked evidence).flatten.Perm evidence := by
  let rows := inOrder EventEvidence.position evidence
  have hmembers : (clusterEvidence linked evidence).flatten.Perm
      ((components linked rows).insertionSort
        fun a b => minId a ≤ minId b).flatten := by
    conv_rhs => rw [← flatMap_id]
    exact Perm.flatMap_left _ fun members _ => perm_insertionSort _ _
  refine hmembers.trans ((perm_insertionSort _ _).flatten.trans ?_)
  exact (components_flatten_perm linked _).trans (inOrder_perm evidence)

theorem mem_clusterEvidence_flatten {signal : EventEvidence} :
    signal ∈ (clusterEvidence linked evidence).flatten ↔ signal ∈ evidence :=
  (clusterEvidence_flatten_perm linked evidence).mem_iff

theorem cursorPosition_eq_some (hsome : cursorPosition members = some position) :
    (∃ member ∈ members, member.position = position) ∧
      ∀ member ∈ members, position ≤ member.position := by
  obtain ⟨hmem, hle⟩ := min?_eq_some_iff.mp hsome
  exact ⟨mem_map.mp hmem,
    fun member hmember => hle _ (mem_map_of_mem hmember)⟩

theorem cursorPosition_isSome (hmember : member ∈ members) :
    ∃ position, cursorPosition members = some position := by
  cases hpos : cursorPosition members with
  | none =>
    rw [cursorPosition, min?_eq_none_iff, map_eq_nil_iff] at hpos
    rw [hpos] at hmember
    exact absurd hmember not_mem_nil
  | some position => exact ⟨position, rfl⟩

theorem SignalPass.floor_eq_some (hsome : pass.floor = some position) :
    (∃ member ∈ pass.unprocessed.flatten, member.position = position) ∧
      ∀ member ∈ pass.unprocessed.flatten, position ≤ member.position := by
  obtain ⟨hmem, hle⟩ := min?_eq_some_iff.mp hsome
  obtain ⟨members, hmembers, hpos⟩ := mem_filterMap.mp hmem
  obtain ⟨member, hmember, heq⟩ := (cursorPosition_eq_some hpos).1
  refine ⟨⟨member, mem_flatten.mpr ⟨members, hmembers, hmember⟩, heq⟩, ?_⟩
  intro other hother
  obtain ⟨group, hgroup, hin⟩ := mem_flatten.mp hother
  obtain ⟨earliest, hearliest⟩ := cursorPosition_isSome hin
  exact (hle earliest (mem_filterMap.mpr ⟨group, hgroup, hearliest⟩)).trans
    ((cursorPosition_eq_some hearliest).2 other hin)

theorem SignalPass.floor_isSome (hmember : member ∈ pass.unprocessed.flatten) :
    ∃ position, pass.floor = some position := by
  cases hfloor : pass.floor with
  | none =>
    rw [SignalPass.floor, min?_eq_none_iff] at hfloor
    obtain ⟨group, hgroup, hin⟩ := mem_flatten.mp hmember
    obtain ⟨position, hposition⟩ := cursorPosition_isSome hin
    have hmem : position ∈ pass.unprocessed.filterMap cursorPosition :=
      mem_filterMap.mpr ⟨group, hgroup, hposition⟩
    rw [hfloor] at hmem
    exact absurd hmem not_mem_nil
  | some position => exact ⟨position, rfl⟩

theorem SignalPass.floor_map_instantOf (pass : SignalPass) :
    pass.floor.map instantOf = owedInstant EventEvidence.position pass.unprocessed.flatten := by
  cases hfloor : pass.floor with
  | none =>
    have hnil : pass.unprocessed.flatten = [] := by
      refine eq_nil_iff_forall_not_mem.mpr fun member hmember => ?_
      obtain ⟨position, hsome⟩ := SignalPass.floor_isSome hmember
      exact absurd (hfloor.symm.trans hsome) (by simp)
    rw [Option.map_none, eq_comm, owedInstant_eq_none]
    exact hnil
  | some position =>
    obtain ⟨⟨member, hmember, rfl⟩, hle⟩ := SignalPass.floor_eq_some hfloor
    rw [Option.map_some, eq_comm, owedInstant, min?_eq_some_iff]
    refine ⟨mem_map_of_mem hmember, fun instant hinstant => ?_⟩
    obtain ⟨other, hother, rfl⟩ := mem_map.mp hinstant
    exact instantOf_mono (hle other hother)

/-- A pass which reached the write loop, or was cut right in front of it, moves
its watermark as a reader of pages does which owes the unreached signals. -/
theorem SignalPass.nextCursor_eq_resume {cursor : Option Position}
    (hdone : pass.sliceDone = true ↔ pass.unprocessed.flatten = [])
    (hsub : ∀ member ∈ pass.unprocessed.flatten, member ∈ pass.evidence) :
    pass.nextCursor cursor = resume EventEvidence.position 0 cursor
      pass.evidence pass.unprocessed.flatten := by
  have hfloor := pass.floor_map_instantOf
  by_cases hnil : pass.unprocessed.flatten = []
  · simp only [hnil, resume, owedInstant_eq_none.mpr rfl,
      SignalPass.nextCursor, hdone.mpr hnil, if_true]
    cases pass.evidence.getLast? <;> rfl
  · obtain ⟨member, hmember⟩ := exists_mem_of_ne_nil _ hnil
    obtain ⟨position, hposition⟩ := SignalPass.floor_isSome hmember
    have hlast := getLast?_eq_some_getLast (ne_nil_of_mem (hsub member hmember))
    rw [hposition, Option.map_some] at hfloor
    rw [resume_of_owed hfloor.symm]
    simp only [SignalPass.nextCursor, hlast, mt hdone.mp hnil, hposition,
      Bool.false_eq_true, if_false]
    rfl

section

variable {linked : Linkage} {slice : List EventEvidence} {allowed : ℕ}
  {cursor : Option Position} {signal : EventEvidence}

theorem clusterEvidence_eq_nil_iff : clusterEvidence linked slice = [] ↔ slice = [] := by
  constructor
  · intro hnil
    have hperm := clusterEvidence_flatten_perm linked slice
    rw [hnil, flatten_nil] at hperm
    exact hperm.nil_eq.symm
  · rintro rfl
    rfl

theorem flatten_eq_nil_of_subset {groups : List (List EventEvidence)}
    (hsub : ∀ group ∈ groups, group ∈ clusterEvidence linked slice) :
    groups.flatten = [] ↔ groups = [] := by
  refine ⟨fun hnil => ?_, fun hnil => by rw [hnil, flatten_nil]⟩
  refine eq_nil_iff_forall_not_mem.mpr fun group hgroup => ?_
  exact clusterEvidence_ne_nil (hsub group hgroup) (flatten_eq_nil_iff.mp hnil group hgroup)

theorem mem_reached_or_unprocessed (hmem : signal ∈ slice) :
    signal ∈ (signalPass linked slice (.write allowed)).reachedSignals ∨
      signal ∈ (signalPass linked slice (.write allowed)).unprocessed.flatten := by
  have hflat : signal ∈ (clusterEvidence linked slice).flatten :=
    mem_clusterEvidence_flatten.mpr hmem
  rw [← take_append_drop allowed (clusterEvidence linked slice), flatten_append] at hflat
  exact mem_append.mp hflat

theorem mem_slice_of_mem_reachedSignals
    (hmem : signal ∈ (signalPass linked slice (.write allowed)).reachedSignals) :
    signal ∈ slice := by
  refine mem_clusterEvidence_flatten.mp (?_ : signal ∈ (clusterEvidence linked slice).flatten)
  rw [← take_append_drop allowed (clusterEvidence linked slice), flatten_append]
  exact mem_append_left _ hmem

theorem mem_slice_of_mem_unprocessed
    (hmem : signal ∈ (signalPass linked slice (.write
      allowed)).unprocessed.flatten) : signal ∈ slice := by
  refine mem_clusterEvidence_flatten.mp (?_ : signal ∈ (clusterEvidence linked slice).flatten)
  rw [← take_append_drop allowed (clusterEvidence linked slice), flatten_append]
  exact mem_append_right _ hmem

theorem write_nextCursor :
    (signalPass linked slice (.write allowed)).nextCursor cursor =
      resume EventEvidence.position 0 cursor slice
        (signalPass linked slice (.write allowed)).unprocessed.flatten := by
  refine SignalPass.nextCursor_eq_resume ?_ fun member hmember =>
    mem_slice_of_mem_unprocessed hmember
  refine Iff.trans ?_ (flatten_eq_nil_of_subset fun _ hgroup => mem_of_mem_drop hgroup).symm
  simp only [signalPass, decide_eq_true_eq, List.drop_eq_nil_iff]

theorem matching_nextCursor :
    (signalPass linked slice .matching).nextCursor cursor =
      resume EventEvidence.position 0 cursor slice
        (signalPass linked slice .matching).unprocessed.flatten := by
  refine SignalPass.nextCursor_eq_resume ?_ fun member hmember =>
    mem_clusterEvidence_flatten.mp hmember
  refine Iff.trans ?_ (flatten_eq_nil_of_subset fun _ hgroup => hgroup).symm
  simp only [signalPass, List.isEmpty_iff, clusterEvidence_eq_nil_iff]

end

end Legba.EventClustering
