import Legba.ContentionClusters
import Legba.ContentionScan
import Legba.LabelledRun

/-!
# The markers of contested facts

A recomputed group stamps its members, and a group which collapses or drops a
member clears the facts that point at it.  A marker therefore always points at
an open group which the fact supports.  The other direction is lost when a
fact supports two groups: a skipped group does not stamp again what the other
one took and then cleared.
-/

namespace Legba.Contention

open LabelledRun List Function Bool

variable {K : Type*} [Field K] [LinearOrder K] (A : Arbiter K)

variable {id : Uuid} {store : Store}

variable {rows : List FactRow} {slot : Slot}

theorem mem_rows_of_mem_memberIds (hmember : id ∈ memberIds (A.nonJunk rows)) :
    id ∈ rows.map FactRow.id := by
  obtain ⟨agg, hagg, hid⟩ := mem_flatMap.mp hmember
  obtain ⟨cluster, hcluster, rfl⟩ := mem_map.mp hagg
  rw [aggregate_supportingFactIds] at hid
  obtain ⟨row, hrow, rfl⟩ := mem_map.mp hid
  exact mem_map_of_mem ((clusterValues_spec A rows).2 cluster (mem_filter.mp hcluster).1 row hrow)

def isOpen (slot : Slot) : Bool :=
  match slot.group with
  | none => false
  | some group => decide (group.status ≠ .collapsed)

/-- The supporting facts of the value rows which `keep` selects. -/
def valueIds (keep : Group → ValueRow → Bool) (slot : Slot) : List Uuid :=
  match slot.group with
  | none => []
  | some group =>
    if group.status = .collapsed then []
    else (group.values.filter (keep group)).flatMap ValueRow.supportingFactIds

def supportIds : Slot → List Uuid := valueIds fun _ row => !row.isJunk

def surfacedIds : Slot → List Uuid :=
  valueIds fun group row => !row.isJunk && decide (some row.valueKey = group.surfacedValue)

theorem valueIds_collapseSlot (keep : Group → ValueRow → Bool) (slot : Slot) :
    valueIds keep (A.collapseSlot slot) = [] := by
  unfold valueIds Arbiter.collapseSlot
  cases slot.group with
  | none => rfl
  | some group => rfl

theorem valueIds_finalize (keep : Group → ValueRow → Bool) (prior : Group)
    (nonJunk junk : List ValueAgg) (decision : SurfaceDecision) (now : Datetime)
    (fingerprint : Fingerprint) (cache : VerdictCache) :
    let group := A.finalizeGroup prior nonJunk junk decision now fingerprint
    valueIds keep { group := some group, cache := cache } =
      (group.values.filter (keep group)).flatMap ValueRow.supportingFactIds := by
  exact if_neg (Arbiter.finalizeGroup_not_collapsed A _ _ _ _ _ _)

section

variable (prior : Group) (nonJunk junk : List ValueAgg)
  (decision : SurfaceDecision) (now : Datetime) (fingerprint : Fingerprint)

theorem finalizeGroup_values :
    (A.finalizeGroup prior nonJunk junk decision now fingerprint).values =
      groupValues nonJunk junk decision.winner := by
  simp [Arbiter.finalizeGroup, apply_ite Group.values]

theorem finalizeGroup_surfacedValue :
    (A.finalizeGroup prior nonJunk junk decision now
      fingerprint).surfacedValue = decision.winner.map ValueAgg.valueKey := by
  simp [Arbiter.finalizeGroup, apply_ite Group.surfacedValue]

end

theorem mem_surfaced_groupValues {nonJunk : List ValueAgg}
    (hnodup : (nonJunk.map ValueAgg.valueKey).Nodup) (junk : List ValueAgg)
    {winner : Option ValueAgg} (hmem : ∀ agg, winner = some agg → agg ∈ nonJunk) (id : Uuid) :
    id ∈ ((groupValues nonJunk junk winner).filter fun row =>
        !row.isJunk && decide (some row.valueKey =
          winner.map ValueAgg.valueKey)).flatMap ValueRow.supportingFactIds ↔
      id ∈ (winner.map ValueAgg.supportingFactIds).getD [] := by
  cases winner with
  | none => simp
  | some best =>
    have hbest := hmem best rfl
    rw [mem_flatMap]
    constructor
    · rintro ⟨row, hrow, hid⟩
      obtain ⟨hvalues, hkeep⟩ := mem_filter.mp hrow
      simp only [Option.map_some, Option.some.injEq, and_eq_true,
        not_eq_true', decide_eq_true_eq] at hkeep
      rcases mem_append.mp hvalues with hclean | hjunk
      · obtain ⟨agg, hagg, rfl⟩ := mem_map.mp hclean
        have hsame : agg = best := inj_on_of_nodup_map hnodup hagg hbest hkeep.2
        exact hsame ▸ hid
      · obtain ⟨agg, _, rfl⟩ := mem_map.mp hjunk
        exact absurd hkeep.1 (by simp)
    · intro hid
      refine ⟨_, mem_filter.mpr ⟨mem_append_left _ (mem_map_of_mem hbest), ?_⟩, hid⟩
      simp

section

variable {llm : Bool} {rows : List FactRow} {now : Datetime} {turn : LlmTurn}
variable {fingerprint : Fingerprint} {slot : Slot}

theorem supportIds_processGroup (hdisputed : ¬(A.nonJunk rows).length < 2) :
    supportIds (A.processGroup llm rows now turn fingerprint slot) =
      memberIds (A.nonJunk rows) := by
  unfold Arbiter.processGroup supportIds
  rw [if_neg hdisputed, valueIds_finalize, finalizeGroup_values]
  simp [groupValues, memberIds, filter_append, filter_map, flatMap_map, comp_def]

variable (llm now turn fingerprint slot) in
theorem mem_surfacedIds_processGroup (hdisputed : ¬(A.nonJunk rows).length < 2) (id : Uuid) :
    id ∈ surfacedIds (A.processGroup llm rows now turn fingerprint slot) ↔
      id ∈ ((A.groupDecision llm rows now turn slot).winner.map
        ValueAgg.supportingFactIds).getD [] := by
  unfold Arbiter.processGroup surfacedIds
  rw [if_neg hdisputed, valueIds_finalize, finalizeGroup_values, finalizeGroup_surfacedValue]
  exact mem_surfaced_groupValues (nonJunk_keys_nodup A rows) _
    (decideGroup_wellFormed A _ _ _ _ _ _).winner_mem id

end

structure MarkerOk (slots : Sidecar) (id : Uuid) (marker : Marker) : Prop where
  contested : marker.contested = marker.contentionId.isSome
  support : ∀ key, marker.contentionId = some key → id ∈ supportIds (slots key)
  surfaced : marker.surfacedWinner = true ↔
    ∃ key, marker.contentionId = some key ∧ id ∈ surfacedIds (slots key)

def Linked (store : Store) : Prop :=
  ∀ id, MarkerOk store.slots id (store.markers id)

theorem markerOk_clear (slots : Sidecar) (id : Uuid) : MarkerOk slots id {} where
  contested := rfl
  support := fun _ hkey => by cases hkey
  surfaced := by simp

theorem MarkerOk.congr {slots other : Sidecar} {marker : Marker} (hok : MarkerOk slots id marker)
    (hsame : ∀ key, marker.contentionId = some key → other key = slots key) :
    MarkerOk other id marker where
  contested := hok.contested
  support := fun key hkey => hsame key hkey ▸ hok.support key hkey
  surfaced := by
    rw [hok.surfaced]
    constructor
    · rintro ⟨key, hkey, hid⟩
      exact ⟨key, hkey, (hsame key hkey).symm ▸ hid⟩
    · rintro ⟨key, hkey, hid⟩
      exact ⟨key, hkey, hsame key hkey ▸ hid⟩

theorem collapseSlot_of_none (hnone : slot.group = none) : A.collapseSlot slot = slot := by
  unfold Arbiter.collapseSlot
  rw [hnone, Option.map_none, ← hnone]

theorem linked_clearMarkers (hlinked : Linked store) (key : GroupKey)
    (spared : List Uuid) (slot : Slot) (hspared : id ∉ spared) :
    MarkerOk (Function.update store.slots key slot) id
      (clearMarkers key spared store.markers id) := by
  unfold clearMarkers
  split
  · exact markerOk_clear _ id
  · rename_i hkept
    refine (hlinked id).congr fun other hother => ?_
    refine update_of_ne (fun heq => hkept ⟨?_, hspared⟩) _ _
    rw [hother, heq]

theorem linked_processBucket (hlinked : Linked store) (llm : Bool) (now : Datetime) (turn : LlmTurn)
    (bucket : Bucket) : Linked (A.processBucket llm now turn bucket store) := by
  intro id
  unfold Arbiter.processBucket
  by_cases hundisputed : (A.nonJunk bucket.rows).length < 2
  · simp only [if_pos hundisputed]
    split
    · exact linked_clearMarkers hlinked bucket.key [] _ not_mem_nil
    · rename_i hnone
      have hsame : A.processGroup llm bucket.rows now turn
          (A.passFingerprint bucket.rows now (store.slots bucket.key))
          (store.slots bucket.key) = store.slots bucket.key := by
        unfold Arbiter.processGroup
        rw [if_pos hundisputed]
        exact collapseSlot_of_none A (Option.not_isSome_iff_eq_none.mp hnone)
      rw [hsame, update_eq_self]
      exact hlinked id
  · simp only [if_neg hundisputed]
    unfold stampMarkers
    split
    · rename_i hmember
      constructor
      · rfl
      · rintro key hkey
        cases hkey
        rw [update_self, supportIds_processGroup A hundisputed]
        exact hmember
      · have hsurfaced := mem_surfacedIds_processGroup A llm now turn
          (A.passFingerprint bucket.rows now (store.slots bucket.key))
          (store.slots bucket.key) hundisputed id
        refine decide_eq_true_iff.trans (hsurfaced.symm.trans ?_)
        constructor
        · intro hid
          refine ⟨bucket.key, rfl, ?_⟩
          rwa [update_self]
        · rintro ⟨key, hkey, hid⟩
          cases hkey
          rwa [update_self] at hid
    · rename_i hother
      exact linked_clearMarkers hlinked bucket.key _ _ hother

theorem linked_sweep (hlinked : Linked store) (live : List GroupKey) :
    Linked (A.sweep live store) := by
  intro id
  simp only [Arbiter.sweep]
  cases howner : (store.markers id).contentionId with
  | none =>
    refine (hlinked id).congr fun key hkey => ?_
    rw [howner] at hkey
    cases hkey
  | some owner =>
    dsimp only
    split
    · exact markerOk_clear _ id
    · rename_i hstanding
      refine (hlinked id).congr fun key hkey => ?_
      rw [howner] at hkey
      cases hkey
      exact if_neg hstanding

def SlotRooted (slot : Slot) : Prop :=
  ∀ id ∈ supportIds slot, ∃ group stored, slot.group = some group ∧
    group.fingerprint = some stored ∧ ∃ token ∈ stored.tokens, token.id = id

def Rooted (store : Store) : Prop := ∀ key, SlotRooted (store.slots key)

theorem slotRooted_collapse (slot : Slot) : SlotRooted (A.collapseSlot slot) := by
  intro id hid
  rw [supportIds, valueIds_collapseSlot] at hid
  cases hid

theorem slotRooted_processGroup (llm : Bool) (rows : List FactRow)
    (now : Datetime) (turn : LlmTurn) (slot : Slot) :
    SlotRooted (A.processGroup llm rows now turn (A.passFingerprint rows now slot) slot) := by
  by_cases hundisputed : (A.nonJunk rows).length < 2
  · unfold Arbiter.processGroup
    rw [if_pos hundisputed]
    exact slotRooted_collapse A slot
  · intro id hid
    rw [supportIds_processGroup A hundisputed] at hid
    obtain ⟨row, hrow, rfl⟩ := mem_map.mp (mem_rows_of_mem_memberIds A hid)
    unfold Arbiter.processGroup
    rw [if_neg hundisputed]
    refine ⟨_, _, rfl, Arbiter.finalizeGroup_fingerprint A _ _ _ _ _ _, rowToken row, ?_, rfl⟩
    exact Multiset.mem_coe.mpr (mem_map_of_mem hrow)

theorem rooted_processBucket (hrooted : Rooted store) (llm : Bool) (now : Datetime) (turn : LlmTurn)
    (bucket : Bucket) : Rooted (A.processBucket llm now turn bucket store) := by
  intro key
  simp only [Arbiter.processBucket]
  by_cases hkey : key = bucket.key
  · rw [hkey, update_self]
    exact slotRooted_processGroup A llm bucket.rows now turn _
  · rw [update_of_ne hkey]
    exact hrooted key

theorem rooted_sweep (hrooted : Rooted store) (live : List GroupKey) :
    Rooted (A.sweep live store) := by
  intro key
  simp only [Arbiter.sweep]
  split
  · exact slotRooted_collapse A _
  · exact hrooted key

theorem mem_rows_of_skips {now : Datetime} (hrooted : SlotRooted slot)
    (hskips : A.skips rows now slot) (hid : id ∈ supportIds slot) : id ∈ rows.map FactRow.id := by
  obtain ⟨group, stored, hgroup, hstored, token, htoken, rfl⟩ := hrooted id hid
  unfold Arbiter.skips Arbiter.unchanged at hskips
  simp only [hgroup, hstored, and_eq_true, decide_eq_true_eq, Option.some.injEq] at hskips
  rw [hskips.1.1] at htoken
  obtain ⟨row, hrow, rfl⟩ := mem_map.mp (Multiset.mem_coe.mp htoken)
  exact mem_map_of_mem hrow

/-! ## Facts which support a skipped group -/

/-- The fact will be stamped by a disputed bucket which is recomputed, or its
owner is among the live keys or will be skipped. -/
def Claimed (now : Datetime) (pending : List Bucket) (live : List GroupKey)
    (store : Store) (id : Uuid) : Prop :=
  (∃ bucket ∈ pending,
    A.skips bucket.rows now (store.slots bucket.key) ≠ true ∧
      2 ≤ (A.nonJunk bucket.rows).length ∧ id ∈ memberIds (A.nonJunk bucket.rows)) ∨
    ∃ key ∈ (store.markers id).contentionId,
      (key ∈ live ∨ ∃ bucket ∈ pending, bucket.key = key ∧
        A.skips bucket.rows now (store.slots bucket.key) = true)

section

variable (llm : Bool) (now : Datetime) (turns : GroupKey → LlmTurn)

variable {bucket : Bucket} {id : Uuid} {store : Store} {pending : List Bucket}

theorem processBucket_owner_of_member (turn : LlmTurn) (store : Store)
    (hstamps : 2 ≤ (A.nonJunk bucket.rows).length ∧ id ∈ memberIds (A.nonJunk bucket.rows)) :
    ((A.processBucket llm now turn bucket store).markers id).contentionId =
      some bucket.key := by
  unfold Arbiter.processBucket
  simp [not_lt.mpr hstamps.1, stampMarkers, hstamps.2]

theorem processBucket_owner_of_other (turn : LlmTurn)
    (hstamps : ¬(2 ≤ (A.nonJunk bucket.rows).length ∧ id ∈ memberIds (A.nonJunk bucket.rows)))
    (howner : (store.markers id).contentionId ≠ some bucket.key) :
    ((A.processBucket llm now turn bucket store).markers id).contentionId =
      (store.markers id).contentionId := by
  unfold Arbiter.processBucket
  by_cases hundisputed : (A.nonJunk bucket.rows).length < 2
  · simp only [if_pos hundisputed]
    split
    · simp [clearMarkers, howner]
    · rfl
  · have hother : id ∉ memberIds (A.nonJunk bucket.rows) := fun hmember =>
      hstamps ⟨not_lt.mp hundisputed, hmember⟩
    simp [hundisputed, stampMarkers, hother, clearMarkers, howner]

variable {now}

variable {rest : List Bucket} {live : List GroupKey}

theorem Claimed.skip (hskips : A.skips bucket.rows now (store.slots bucket.key))
    (hclaimed : Claimed A now (bucket :: rest) live store id) :
    Claimed A now rest (bucket.key :: live) store id := by
  rcases hclaimed with ⟨other, hother, hvisits, hstamps⟩ | ⟨key, howner, hkept⟩
  · rcases mem_cons.mp hother with rfl | hrest
    · exact absurd hskips hvisits
    · exact .inl ⟨other, hrest, hvisits, hstamps⟩
  · refine .inr ⟨key, howner, ?_⟩
    rcases hkept with hlive | ⟨other, hother, hkey, hother_skips⟩
    · exact .inl (mem_cons_of_mem _ hlive)
    · rcases mem_cons.mp hother with rfl | hrest
      · exact .inl (hkey ▸ mem_cons_self)
      · exact .inr ⟨other, hrest, hkey, hother_skips⟩

variable (now)

theorem Claimed.process (turn : LlmTurn) (hfresh : bucket.key ∉ rest.map Bucket.key)
    (hlive : bucket.key ∉ live) (hvisits : A.skips bucket.rows now (store.slots bucket.key) ≠ true)
    (hclaimed : Claimed A now (bucket :: rest) live store id) :
    Claimed A now rest
      (if 2 ≤ (A.nonJunk bucket.rows).length then bucket.key :: live else live)
      (A.processBucket llm now turn bucket store) id := by
  have hslot : ∀ other ∈ rest,
      (A.processBucket llm now turn bucket store).slots other.key = store.slots other.key := by
    intro other hother
    apply update_of_ne
    intro heq
    exact hfresh (heq ▸ mem_map_of_mem hother)
  have hgrows : ∀ key ∈ live, key ∈
      if 2 ≤ (A.nonJunk bucket.rows).length then bucket.key :: live
      else live := by
    intro key hkey
    split
    · exact mem_cons_of_mem _ hkey
    · exact hkey
  by_cases hstamps : 2 ≤ (A.nonJunk bucket.rows).length ∧ id ∈ memberIds (A.nonJunk bucket.rows)
  · have howner := processBucket_owner_of_member A llm now turn store hstamps
    refine .inr ⟨bucket.key, howner, .inl ?_⟩
    rw [if_pos hstamps.1]
    exact mem_cons_self
  · rcases hclaimed with ⟨other, hother, hother_visits, hother_stamps⟩ | ⟨key, howner, hkept⟩
    · rcases mem_cons.mp hother with rfl | hrest
      · exact absurd hother_stamps hstamps
      · refine .inl ⟨other, hrest, ?_, hother_stamps⟩
        rwa [hslot other hrest]
    · have hne : key ≠ bucket.key := by
        rintro rfl
        rcases hkept with hold | ⟨other, hother, hkey, hother_skips⟩
        · exact hlive hold
        · rcases mem_cons.mp hother with rfl | hrest
          · exact hvisits hother_skips
          · exact hfresh (hkey ▸ mem_map_of_mem hrest)
      refine .inr ⟨key, ?_, ?_⟩
      · have hother : (store.markers id).contentionId ≠ some bucket.key :=
          fun heq => hne (Option.some.inj (howner.symm.trans heq))
        rw [processBucket_owner_of_other A llm now turn hstamps hother]
        exact howner
      · rcases hkept with hold | ⟨other, hother, hkey, hother_skips⟩
        · exact .inl (hgrows key hold)
        · rcases mem_cons.mp hother with rfl | hrest
          · exact absurd hother_skips hvisits
          · refine .inr ⟨other, hrest, hkey, ?_⟩
            rwa [hslot other hrest]

theorem runLoop_claimed (left : ℕ) (store : Store) (live : List GroupKey) (id : Uuid)
    (hnodup : (pending.map Bucket.key).Nodup) (hlive : ∀ key ∈ live, key ∉ pending.map Bucket.key)
    (hcomplete : (A.runLoop llm now turns left pending store).complete)
    (hclaimed : Claimed A now pending live store id) :
    ∃ key, ((A.runLoop llm now turns left pending store).store.markers id).contentionId = some key ∧
      (key ∈ live ∨ key ∈ (A.runLoop llm now turns left pending store).live) := by
  induction pending generalizing left store live with
  | nil =>
    rcases hclaimed with ⟨bucket, hbucket, _⟩ | ⟨key, howner, hkept⟩
    · cases hbucket
    · rcases hkept with hold | ⟨bucket, hbucket, _⟩
      · exact ⟨key, howner, .inl hold⟩
      · cases hbucket
  | cons bucket rest ih =>
    rw [map_cons, nodup_cons] at hnodup
    have hfresh : bucket.key ∉ live := fun hmem => hlive _ hmem mem_cons_self
    have hrest : ∀ key ∈ live, key ∉ rest.map Bucket.key := fun key hkey =>
      fun hmem => hlive key hkey (mem_cons_of_mem _ hmem)
    have hgrown : ∀ key ∈ bucket.key :: live, key ∉ rest.map Bucket.key :=
      forall_mem_cons.mpr ⟨hnodup.1, hrest⟩
    cases left with
    | zero => simp [Arbiter.runLoop] at hcomplete
    | succ left =>
      unfold Arbiter.runLoop at hcomplete ⊢
      by_cases hskips : A.skips bucket.rows now (store.slots bucket.key) = true
      · rw [if_pos hskips] at hcomplete ⊢
        obtain ⟨key, howner, hkey⟩ := ih (left + 1) store (bucket.key :: live)
          hnodup.2 hgrown hcomplete (hclaimed.skip A hskips)
        refine ⟨key, howner, ?_⟩
        simp only [Arbiter.Pass.reached, if_true, mem_cons] at hkey ⊢
        tauto
      · rw [if_neg hskips] at hcomplete ⊢
        have hnext := hclaimed.process A llm now (turns bucket.key) hnodup.1 hfresh hskips
        by_cases hdisputed : 2 ≤ (A.nonJunk bucket.rows).length
        · rw [if_pos hdisputed] at hnext
          obtain ⟨key, howner, hkey⟩ := ih left _ (bucket.key :: live)
            hnodup.2 hgrown hcomplete hnext
          refine ⟨key, howner, ?_⟩
          simp only [Arbiter.Pass.reached, hdisputed, decide_true, if_true, mem_cons] at hkey ⊢
          tauto
        · rw [if_neg hdisputed] at hnext
          obtain ⟨key, howner, hkey⟩ := ih left _ live hnodup.2 hrest hcomplete hnext
          refine ⟨key, howner, ?_⟩
          simpa [Arbiter.Pass.reached, hdisputed] using hkey

theorem runLoop_live (left : ℕ) (store : Store) (hnodup : (pending.map Bucket.key).Nodup)
    {key : GroupKey} (hlive : key ∈ (A.runLoop llm now turns left pending store).live) :
    ∃ bucket ∈ pending, bucket.key = key ∧
      (A.skips bucket.rows now (store.slots bucket.key) = true ∨
        2 ≤ (A.nonJunk bucket.rows).length) := by
  induction pending generalizing left store with
  | nil => cases hlive
  | cons bucket rest ih =>
    rw [map_cons, nodup_cons] at hnodup
    cases left with
    | zero => cases hlive
    | succ left =>
      unfold Arbiter.runLoop at hlive
      split at hlive
      · rename_i hskips
        rcases mem_cons.mp hlive with rfl | hrest
        · exact ⟨bucket, mem_cons_self, rfl, .inl hskips⟩
        · obtain ⟨other, hother, hkey, hwhy⟩ := ih _ _ hnodup.2 hrest
          exact ⟨other, mem_cons_of_mem _ hother, hkey, hwhy⟩
      · have hcases : key = bucket.key ∧
            2 ≤ (A.nonJunk bucket.rows).length ∨
            key ∈ (A.runLoop llm now turns left rest
              (A.processBucket llm now (turns bucket.key) bucket store)).live := by
          by_cases hdisputed : 2 ≤ (A.nonJunk bucket.rows).length
          · simp only [Arbiter.Pass.reached, hdisputed, decide_true, if_true, mem_cons] at hlive
            exact hlive.imp (fun heq => ⟨heq, hdisputed⟩) id
          · simp only [Arbiter.Pass.reached, hdisputed, decide_false,
              false_eq_true, if_false] at hlive
            exact .inr hlive
        rcases hcases with ⟨rfl, hdisputed⟩ | hrest
        · exact ⟨bucket, mem_cons_self, rfl, .inr hdisputed⟩
        · obtain ⟨other, hother, hkey, hwhy⟩ := ih _ _ hnodup.2 hrest
          have hslot : (A.processBucket llm now (turns bucket.key) bucket
              store).slots other.key = store.slots other.key := by
            apply update_of_ne
            intro heq
            exact hnodup.1 (heq ▸ mem_map_of_mem hother)
          rw [hslot] at hwhy
          exact ⟨other, mem_cons_of_mem _ hother, hkey, hwhy⟩

theorem runLoop_slots (left : ℕ) (store : Store) (hnodup : (pending.map Bucket.key).Nodup)
    (hcomplete : (A.runLoop llm now turns left pending store).complete)
    (hbucket : bucket ∈ pending) :
    (A.runLoop llm now turns left pending store).store.slots bucket.key =
        A.visitGroup llm bucket.rows now (turns bucket.key) (store.slots bucket.key) ∧
      (A.skips bucket.rows now (store.slots bucket.key) = true ∨
          2 ≤ (A.nonJunk bucket.rows).length →
        bucket.key ∈ (A.runLoop llm now turns left pending store).live) := by
  induction pending generalizing left store with
  | nil => cases hbucket
  | cons head rest ih =>
    rw [map_cons, nodup_cons] at hnodup
    cases left with
    | zero => simp [Arbiter.runLoop] at hcomplete
    | succ left =>
      unfold Arbiter.runLoop at hcomplete ⊢
      by_cases hskips : A.skips head.rows now (store.slots head.key) = true
      · rw [if_pos hskips] at hcomplete ⊢
        rcases mem_cons.mp hbucket with rfl | hrest
        · constructor
          · rw [Arbiter.visitGroup, if_pos hskips]
            exact runLoop_slots_of_notMem A llm now turns (left + 1) store hnodup.1
          · exact fun _ => mem_cons_self
        · obtain ⟨hslot, hlive⟩ := ih (left + 1) store hnodup.2 hcomplete hrest
          exact ⟨hslot, fun hwhy => mem_cons_of_mem _ (hlive hwhy)⟩
      · rw [if_neg hskips] at hcomplete ⊢
        set after := A.processBucket llm now (turns head.key) head store with hafter
        rcases mem_cons.mp hbucket with rfl | hrest
        · constructor
          · rw [Arbiter.visitGroup, if_neg hskips]
            refine (runLoop_slots_of_notMem A llm now turns left after hnodup.1).trans ?_
            exact update_self _ _ _
          · rintro (habsurd | hdisputed)
            · exact absurd habsurd hskips
            · simp only [Arbiter.Pass.reached, hdisputed, decide_true, if_true]
              exact mem_cons_self
        · have hother : after.slots bucket.key = store.slots bucket.key := by
            apply update_of_ne
            intro heq
            exact hnodup.1 (heq ▸ mem_map_of_mem hrest)
          obtain ⟨hslot, hlive⟩ := ih left after hnodup.2 hcomplete hrest
          rw [hother] at hslot hlive
          refine ⟨hslot, fun hwhy => ?_⟩
          simp only [Arbiter.Pass.reached]
          split
          · exact mem_cons_of_mem _ (hlive hwhy)
          · exact hlive hwhy

end

/-! ## Complete passes -/

/-- The markers agree with the sidecar, and each disputed candidate has an
open group of its own rows. -/
structure Agrees (candidates : List Bucket) (store : Store) : Prop where
  contested : ∀ id, (store.markers id).contested = true ↔ ∃ key, id ∈ supportIds (store.slots key)
  owner : ∀ id, (store.markers id).contested = true →
    ∃ key, (store.markers id).contentionId = some key ∧ id ∈ supportIds (store.slots key)
  surfaced : ∀ id, (store.markers id).surfacedWinner = true ↔
    ∃ key, (store.markers id).contentionId = some key ∧ id ∈ surfacedIds (store.slots key)
  groups : ∀ bucket ∈ candidates, 2 ≤ (A.nonJunk bucket.rows).length →
    isOpen (store.slots bucket.key) = true ∧
      ∀ id ∈ supportIds (store.slots bucket.key), id ∈ bucket.rows.map FactRow.id

structure PassLabel where
  facts : List Fact
  now : Datetime
  llm : Bool
  turns : GroupKey → LlmTurn
  budget : ℕ

namespace Marking

variable (R : Reading)

def candidates (facts : List Fact) : List Bucket :=
  R.buckets facts ++ R.roleBuckets facts

def step (store : Store) (label : PassLabel) : Option Store :=
  let pass := A.runArbiter label.llm label.now label.turns label.budget
    (R.pending label.facts) store
  if pass.sweeps then some pass.store else none

/-- No disputed bucket is replaced by a role bucket, and a fact which supports
a skipped group is claimed by a group that is stamped or skipped. -/
def Separate (store : Store) (label : PassLabel) (_ : Store) : Prop :=
  (∀ bucket ∈ candidates R label.facts,
    2 ≤ (A.nonJunk bucket.rows).length → bucket ∈ R.pending label.facts) ∧
  ∀ bucket ∈ R.pending label.facts,
    A.skips bucket.rows label.now (store.slots bucket.key) = true →
      ∀ id ∈ supportIds (store.slots bucket.key),
        Claimed A label.now (R.pending label.facts) [] store id

structure Inv (store : Store) : Prop where
  linked : Linked store
  rooted : Rooted store

variable {R}

theorem inv_start : Inv {} where
  linked := fun id => markerOk_clear _ id
  rooted := fun _ _ hid => by cases hid

variable {store next : Store} {label : PassLabel} {key : GroupKey} {id : Uuid}

theorem complete_of_step (hstep : step A R store label = some next) :
    let loop := A.runLoop label.llm label.now label.turns label.budget (R.pending label.facts) store
    loop.complete = true ∧ next = A.sweep loop.live loop.store := by
  simp only [step, Option.ite_none_right_eq_some, Option.some.injEq] at hstep
  obtain ⟨hsweeps, hnext⟩ := hstep
  have hleft := (runArbiter_sweeps_iff A _ _ _ _ _ _).mp hsweeps
  have hcomplete := runLoop_complete_of_left A _ _ _ _ _ hleft
  refine ⟨hcomplete, ?_⟩
  have hloop : (A.runLoop label.llm label.now label.turns label.budget
      (R.pending label.facts) store).sweeps := by
    simp [Arbiter.Pass.sweeps, hcomplete, hleft]
  rw [← hnext]
  simp [Arbiter.runArbiter, if_pos hloop]

theorem inv_step (hinv : Inv store) (hstep : step A R store label = some next) : Inv next := by
  obtain ⟨_, hnext⟩ := complete_of_step A hstep
  rw [hnext]
  constructor
  · apply linked_sweep
    exact runLoop_keeps (P := Linked) A _ _ _ (fun _ turn bucket hlinked =>
      linked_processBucket A hlinked _ _ turn bucket) _ hinv.linked
  · apply rooted_sweep
    exact runLoop_keeps (P := Rooted) A _ _ _ (fun _ turn bucket hrooted =>
      rooted_processBucket A hrooted _ _ turn bucket) _ hinv.rooted

theorem live_of_support (hstep : step A R store label = some next)
    (hid : id ∈ supportIds (next.slots key)) :
    let loop := A.runLoop label.llm label.now label.turns label.budget (R.pending label.facts) store
    key ∈ loop.live ∧ id ∈ supportIds (loop.store.slots key) := by
  obtain ⟨_, hnext⟩ := complete_of_step A hstep
  rw [hnext] at hid
  simp only [Arbiter.sweep] at hid
  split at hid
  · rw [supportIds, valueIds_collapseSlot] at hid
    cases hid
  · rename_i hstanding
    refine ⟨?_, hid⟩
    by_contra hdead
    apply hstanding
    unfold supportIds valueIds at hid
    unfold Arbiter.isStale
    split at hid
    · cases hid
    · rename_i group hgroup
      by_cases hopen : group.status = .collapsed
      · rw [if_pos hopen] at hid
        cases hid
      · simp [hgroup, hopen, hdead]

theorem owner_of_live {live : List GroupKey} (howner : (store.markers id).contentionId = some key)
    (hlive : key ∈ live) : (A.sweep live store).markers id = store.markers id := by
  have hstanding : Arbiter.isStale live store key = false := by
    unfold Arbiter.isStale
    split <;> simp [hlive]
  simp [Arbiter.sweep, howner, hstanding]

section

variable (hinv : Inv store) (hstep : step A R store label = some next)

include hinv hstep

theorem contested_of_support (hseparate : Separate A R store label next)
    (hid : id ∈ supportIds (next.slots key)) : (next.markers id).contested := by
  obtain ⟨hcomplete, hnext⟩ := complete_of_step A hstep
  obtain ⟨hlive, hloop⟩ := live_of_support A hstep hid
  have hnodup := pending_keys_nodup R label.facts
  obtain ⟨bucket, hbucket, rfl, hwhy⟩ := runLoop_live A _ _ _ _ _ hnodup hlive
  obtain ⟨hslot, _⟩ := runLoop_slots A _ _ _ _ _ hnodup hcomplete hbucket
  have hclaimed : Claimed A label.now (R.pending label.facts) [] store id := by
    rw [hslot, Arbiter.visitGroup] at hloop
    by_cases hskips : A.skips bucket.rows label.now (store.slots bucket.key) = true
    · rw [if_pos hskips] at hloop
      exact hseparate.2 bucket hbucket hskips id hloop
    · have hdisputed := hwhy.resolve_left hskips
      rw [if_neg hskips, supportIds_processGroup A (not_lt.mpr hdisputed)] at hloop
      exact .inl ⟨bucket, hbucket, hskips, hdisputed, hloop⟩
  obtain ⟨owner, howner, hkept⟩ := runLoop_claimed A _ _ _ _ _ [] id hnodup
    (fun _ hkey => by cases hkey) hcomplete hclaimed
  have hstands := owner_of_live A howner (hkept.resolve_left not_mem_nil)
  have hmarker := (inv_step A hinv hstep).linked id
  rw [hmarker.contested, hnext, hstands, howner]
  rfl

theorem group_of_disputed {bucket : Bucket} (hbucket : bucket ∈ R.pending label.facts)
    (hdisputed : 2 ≤ (A.nonJunk bucket.rows).length) :
    isOpen (next.slots bucket.key) = true ∧
      ∀ id ∈ supportIds (next.slots bucket.key), id ∈ bucket.rows.map FactRow.id := by
  obtain ⟨hcomplete, hnext⟩ := complete_of_step A hstep
  have hnodup := pending_keys_nodup R label.facts
  obtain ⟨hslot, hlive⟩ := runLoop_slots A _ _ _ _ _ hnodup hcomplete hbucket
  have hkept : next.slots bucket.key =
      A.visitGroup label.llm bucket.rows label.now (label.turns bucket.key)
        (store.slots bucket.key) := by
    rw [hnext, ← hslot]
    refine if_neg ?_
    unfold Arbiter.isStale
    split <;> simp [hlive (.inr hdisputed)]
  rw [hkept, Arbiter.visitGroup]
  by_cases hskips : A.skips bucket.rows label.now (store.slots bucket.key) = true
  · rw [if_pos hskips]
    refine ⟨?_, fun id hid => mem_rows_of_skips A (hinv.rooted bucket.key) hskips hid⟩
    unfold Arbiter.skips Arbiter.unchanged at hskips
    unfold isOpen
    cases hgroup : (store.slots bucket.key).group with
    | none => simp [hgroup] at hskips
    | some group =>
      simp only [hgroup, and_eq_true] at hskips
      exact hskips.2
  · rw [if_neg hskips]
    constructor
    · unfold Arbiter.processGroup isOpen
      rw [if_neg (not_lt.mpr hdisputed)]
      exact decide_eq_true (Arbiter.finalizeGroup_not_collapsed A _ _ _ _ _ _)
    · rw [supportIds_processGroup A (not_lt.mpr hdisputed)]
      exact fun id hid => mem_rows_of_mem_memberIds A hid

theorem agrees_of_separate (hseparate : Separate A R store label next) :
    Agrees A (candidates R label.facts) next := by
  have hlinked := (inv_step A hinv hstep).linked
  have howner (id : Uuid) (hcontested : (next.markers id).contested = true) :
      ∃ key, (next.markers id).contentionId = some key ∧ id ∈ supportIds (next.slots key) := by
    rw [(hlinked id).contested] at hcontested
    obtain ⟨key, hkey⟩ := Option.isSome_iff_exists.mp hcontested
    exact ⟨key, hkey, (hlinked id).support key hkey⟩
  refine ⟨?_, howner, fun id => (hlinked id).surfaced, ?_⟩
  · intro id
    constructor
    · intro hcontested
      obtain ⟨key, _, hid⟩ := howner id hcontested
      exact ⟨key, hid⟩
    · rintro ⟨key, hid⟩
      exact contested_of_support A hinv hstep hseparate hid
  · intro bucket hbucket hdisputed
    exact group_of_disputed A hinv hstep (hseparate.1 bucket hbucket hdisputed) hdisputed

end

/-- In a run of complete passes whose groups stay separate, the markers agree
with the sidecar after every pass. -/
theorem agrees_of_run (A : Arbiter K) (R : Reading) (labels : List PassLabel)
    (hseparate : StepsSatisfy (step A R) (Separate A R) {} labels) :
    StepsSatisfy (step A R)
      (fun _ label next => Agrees A (candidates R label.facts) next) {}
      labels :=
  stepsSatisfy_of_invariant
    (fun _ _ _ hinv hstep _ => inv_step A hinv hstep)
    (fun _ _ _ hinv hstep hgood => agrees_of_separate A hinv hstep hgood)
    inv_start hseparate

instance (now : Datetime) (pending : List Bucket) (live : List GroupKey)
    (store : Store) (id : Uuid) :
    Decidable (Claimed A now pending live store id) :=
  inferInstanceAs (Decidable ((∃ _ ∈ _, _ ∧ _ ∧ _) ∨ ∃ _ ∈ _, _ ∨ ∃ _ ∈ _, _))

def isSeparate (R : Reading) (store : Store) (label : PassLabel) : Bool :=
  let pending := R.pending label.facts
  (candidates R label.facts).all (fun bucket =>
    !decide (2 ≤ (A.nonJunk bucket.rows).length) || decide (bucket ∈ pending)) &&
  pending.all fun bucket =>
    !A.skips bucket.rows label.now (store.slots bucket.key) ||
      (supportIds (store.slots bucket.key)).all fun id =>
        decide (Claimed A label.now pending [] store id)

theorem isSeparate_iff (store : Store) (label : PassLabel) (next : Store) :
    isSeparate A R store label = true ↔ Separate A R store label next := by
  simp only [isSeparate, Separate, and_eq_true, all_eq_true,
    or_eq_true, not_eq_true', decide_eq_true_eq]
  apply and_congr
  · refine forall₂_congr fun bucket _ => ?_
    rw [decide_eq_false_iff_not, ← imp_iff_not_or]
  · refine forall₂_congr fun bucket _ => ?_
    rw [← not_eq_true, ← imp_iff_not_or]

instance (store : Store) (label : PassLabel) (next : Store) :
    Decidable (Separate A R store label next) :=
  decidable_of_iff _ (isSeparate_iff A store label next)

/-! ### One leader in two disputes -/

def leads (id : Uuid) (person country : String) (validUntil : Option Datetime) : Fact where
  row :=
    { id := id, subject := person, predicate := "leader of", value := country
      confidence := 9 / 10, sourceType := some "news"
      sourceCredibility := some (4 / 5), producedAt := some 0 }
  validUntil := validUntil

def passOver (facts : List Fact) : PassLabel where
  facts := facts
  now := 0
  llm := false
  turns := fun _ => { callsLeft := 0, affordable := false, reply := none }
  budget := 100

def rivals : List Fact :=
  [leads 1 "amira" "norland" none, leads 2 "amira" "sudland" none, leads 3 "basil" "norland" none]

def rivalRetired : List Fact :=
  [leads 1 "amira" "norland" none, leads 2 "amira" "sudland" none,
    leads 3 "basil" "norland" (some 0)]

theorem agrees_of_run_rivals :
    StepsSatisfy (step (plainArbiter 0) plainReading)
      (fun _ label next => Agrees (plainArbiter 0) (candidates plainReading label.facts) next) {}
      [passOver rivals, passOver rivals] :=
  agrees_of_run (plainArbiter 0) plainReading _ (by decide +kernel)

/-- The role group takes a fact of the other group and collapses, while the
other group is skipped. -/
theorem not_agrees_of_rival_retired :
    ¬StepsSatisfy (step (plainArbiter 0) plainReading)
      (fun _ label next => Agrees (plainArbiter 0) (candidates plainReading label.facts) next) {}
      [passOver rivals, passOver rivalRetired] := by
  intro hagrees
  have hmarked := hagrees.mono (S := fun _ _ next =>
      1 ∈ supportIds (next.slots ("amira", "leader of")) → (next.markers 1).contested = true)
    fun _ _ _ hagree hid => (hagree.contested 1).mpr ⟨_, hid⟩
  exact absurd hmarked (by decide +kernel)

end Marking

end Legba.Contention
