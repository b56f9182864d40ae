import Legba.LabelledRun
import Legba.ReceiptTable

/-!
# Forked receipt chains across restarts

A restart forgets the cached heads, and the next `record` derives the head
from the table again.  Over a forked table this keeps the number of tips, but
the branch it extends is the one whose tip started last.  The rows recorded
since the first restart stay on the branch chosen there exactly when, at every
later derivation, the row recorded last is the newest of all tips.

`record` calls do not overlap here, so a call is one step.
-/

namespace Legba.Receipts

open HashChain LabelledRun RowOrder List Option Function

structure ChainState where
  rows : List TraceRow
  heads : String → Option String

inductive ChainStep where
  | restart
  | record (run : RunTrace)

def ChainState.head (s : ChainState) (analystId : String) : String :=
  (s.heads analystId).getD (storedHead s.rows analystId)

def ChainState.writtenRow (sha : ReceiptPayload → String) (s : ChainState)
    (run : RunTrace) : TraceRow :=
  let prev := s.head run.analystId
  traceRow run (computeReceiptHash sha run prev) prev

def ChainState.record (sha : ReceiptPayload → String) (s : ChainState)
    (run : RunTrace) : Option ChainState :=
  if run.runId ∈ s.rows.map TraceRow.runId then none
  else
    let row := s.writtenRow sha run
    some
      { rows := s.rows ++ [row]
        heads := update s.heads run.analystId (some row.receiptHash) }

def chainStep (sha : ReceiptPayload → String) (s : ChainState) : ChainStep → Option ChainState
  | .restart => some { s with heads := fun _ => none }
  | .record run => s.record sha run

def ChainState.restarted (rows : List TraceRow) : ChainState where
  rows := rows
  heads := fun _ => none

/-- The new receipt hash is no receipt hash and no named hash of the analyst's
rows, the new row included. -/
def FreshHash (sha : ReceiptPayload → String) (s : ChainState) : ChainStep → Prop
  | .restart => True
  | .record run =>
    (s.writtenRow sha run).receiptHash ∉ (own s.rows run.analystId).map TraceRow.receiptHash ∧
      (s.writtenRow sha run).receiptHash ∉
        namedHashes TraceRow.prevReceiptHash (own s.rows run.analystId ++ [s.writtenRow sha run])

/-- A table whose runs have different ids and, for each analyst, different
receipt hashes. -/
structure DistinctRows (rows : List TraceRow) : Prop where
  runIds : (rows.map TraceRow.runId).Nodup
  receipts : ∀ analystId, ((own rows analystId).map TraceRow.receiptHash).Nodup

/-- Every row of the analyst recorded since `start` descends from the head
chosen at `start`. -/
def OneBranch (start : List TraceRow) (analystId : String) (s : ChainState) :
    Prop :=
  ∀ row ∈ own (rowsSince start s.rows) analystId,
    Descends TraceRow.receiptHash TraceRow.prevReceiptHash
      (own s.rows analystId) (storedHead start analystId) row

/-- Where a `record` derives the head of the analyst again, the row recorded
last since `start` is newer than every other tip. -/
def ExtendsBranch (start : List TraceRow) (analystId : String) (s : ChainState) : ChainStep → Prop
  | .restart => True
  | .record run =>
    run.analystId = analystId → s.heads analystId = none →
      ∀ last, (own (rowsSince start s.rows) analystId).getLast? = some last →
        ∀ tip ∈ tipsOf s.rows analystId, tip ≠ last → newer last tip = true

variable {sha : ReceiptPayload → String}

variable {s next : ChainState} {analystId : String} {label : ChainStep}
  {tip : TraceRow}

theorem record_eq_some {run : RunTrace} :
    s.record sha run = some next ↔
      run.runId ∉ s.rows.map TraceRow.runId ∧
        next =
          { rows := s.rows ++ [s.writtenRow sha run]
            heads := update s.heads run.analystId
              (some (s.writtenRow sha run).receiptHash) } := by
  unfold ChainState.record
  by_cases hkey : run.runId ∈ s.rows.map TraceRow.runId
  · simp [hkey]
  · simp [hkey, eq_comm]

theorem writtenRow_prev (s : ChainState) (run : RunTrace) :
    (s.writtenRow sha run).prevReceiptHash = some (s.head run.analystId) := rfl

theorem own_record_self (s : ChainState) (run : RunTrace) :
    own (s.rows ++ [s.writtenRow sha run]) run.analystId =
      own s.rows run.analystId ++ [s.writtenRow sha run] :=
  own_append_of_eq rfl

theorem own_record_of_ne (sha : ReceiptPayload → String) (s : ChainState)
    {run : RunTrace} (hanalyst : run.analystId ≠ analystId) :
    own (s.rows ++ [s.writtenRow sha run]) analystId = own s.rows analystId :=
  own_append_of_ne hanalyst

theorem tipsOf_congr {rows rows' : List TraceRow}
    (hown : own rows analystId = own rows' analystId) :
    tipsOf rows analystId = tipsOf rows' analystId := by
  unfold tipsOf
  rw [hown]

theorem writtenRow_mem_tips {run : RunTrace} (hfresh : FreshHash sha s (.record run)) :
    s.writtenRow sha run ∈ tipsOf (s.rows ++ [s.writtenRow sha run]) run.analystId := by
  unfold tipsOf
  rw [own_record_self, mem_tips]
  exact ⟨by simp, hfresh.2⟩

theorem DistinctRows.record {run : RunTrace} (hdistinct : DistinctRows s.rows)
    (hkey : run.runId ∉ s.rows.map TraceRow.runId) (hfresh : FreshHash sha s (.record run)) :
    DistinctRows (s.rows ++ [s.writtenRow sha run]) where
  runIds := by
    rw [map_append, map_singleton]
    apply Nodup.append hdistinct.runIds (nodup_singleton _)
    rwa [disjoint_singleton]
  receipts := by
    intro analystId
    by_cases hanalyst : run.analystId = analystId
    · subst hanalyst
      rw [own_record_self, map_append, map_singleton]
      apply Nodup.append (hdistinct.receipts _) (nodup_singleton _)
      rw [disjoint_singleton]
      exact hfresh.1
    · rw [own_record_of_ne _ s hanalyst]
      exact hdistinct.receipts analystId

/-! ## The number of tips -/

structure CacheInv (s : ChainState) : Prop where
  distinct : DistinctRows s.rows
  cached : ∀ analystId head, s.heads analystId = some head →
    ∃ tip ∈ tipsOf s.rows analystId, tip.receiptHash = head

theorem cacheInv_restarted {rows : List TraceRow}
    (hdistinct : DistinctRows rows) : CacheInv (ChainState.restarted rows) where
  distinct := hdistinct
  cached := fun _ _ hhead => absurd hhead (by simp [ChainState.restarted])

theorem cacheInv_step (hinv : CacheInv s) (hstep : chainStep sha s label = some next)
    (hfresh : FreshHash sha s label) : CacheInv next := by
  cases label with
  | restart =>
    obtain rfl := some.inj hstep
    exact
      { distinct := hinv.distinct
        cached := fun _ _ hhead => absurd hhead (by simp) }
  | record run =>
    obtain ⟨hkey, hnext⟩ := record_eq_some.mp hstep
    subst hnext
    exact
      { distinct := hinv.distinct.record hkey hfresh
        cached := by
          intro analystId head hhead
          by_cases hanalyst : analystId = run.analystId
          · subst hanalyst
            have hself : some (s.writtenRow sha run).receiptHash = some head := by simpa using hhead
            exact ⟨_, writtenRow_mem_tips hfresh, some.inj hself⟩
          · have hold : s.heads analystId = some head := by
              simpa [update_of_ne hanalyst] using hhead
            have hown := own_record_of_ne sha s
              (fun heq => hanalyst heq.symm)
            rw [tipsOf_congr hown]
            exact hinv.cached analystId head hold }

theorem CacheInv.exists_tip (hinv : CacheInv s) (htips : tipsOf s.rows analystId ≠ []) :
    ∃ tip ∈ tipsOf s.rows analystId, tip.receiptHash = s.head analystId := by
  cases hhead : s.heads analystId with
  | some head =>
    simp only [ChainState.head, hhead, getD_some]
    exact hinv.cached analystId head hhead
  | none =>
    simp only [ChainState.head, hhead, getD_none]
    cases hnewest : newestTip s.rows analystId with
    | some head =>
      rw [storedHead_of_newestTip hnewest]
      exact exists_tip_of_newestTip hnewest
    | none =>
      unfold newestTip at hnewest
      rw [map_eq_none_iff, firstBy_eq_none] at hnewest
      exact absurd hnewest htips

theorem CacheInv.headTipCount_record (hinv : CacheInv s) {run : RunTrace}
    (hfresh : FreshHash sha s (.record run)) :
    headTipCount (s.rows ++ [s.writtenRow sha run]) run.analystId =
      max 1 (headTipCount s.rows run.analystId) := by
  unfold headTipCount
  by_cases htips : tipsOf s.rows run.analystId = []
  · rw [htips]
    unfold tipsOf at htips ⊢
    rw [own_record_self, tips_append hfresh.2, htips]
    rfl
  · have hpos : 0 < (tipsOf s.rows run.analystId).length := length_pos_of_ne_nil htips
    obtain ⟨tip, htip, heq⟩ := hinv.exists_tip htips
    have hkept : (tipsOf (s.rows ++ [s.writtenRow sha run])
        run.analystId).length = (tipsOf s.rows run.analystId).length := by
      unfold tipsOf at htip ⊢
      rw [own_record_self]
      exact length_tips_append (hinv.distinct.receipts _) hfresh.2 htip
        (by rw [writtenRow_prev, heq])
    omega

theorem headTipCount_record_of_ne {run : RunTrace} (hanalyst : run.analystId ≠ analystId) :
    headTipCount (s.rows ++ [s.writtenRow sha run]) analystId = headTipCount s.rows analystId := by
  unfold headTipCount
  rw [tipsOf_congr (own_record_of_ne _ s hanalyst)]

/-- A step keeps the number of tips of each analyst; only a table without a
tip gains its first one. -/
def KeepsTips (s next : ChainState) : Prop :=
  ∀ analystId, headTipCount next.rows analystId = headTipCount s.rows analystId ∨
    headTipCount s.rows analystId = 0 ∧ headTipCount next.rows analystId = 1

theorem keepsTips_step (hinv : CacheInv s) (hstep : chainStep sha s label = some next)
    (hfresh : FreshHash sha s label) : KeepsTips s next := by
  intro analystId
  cases label with
  | restart =>
    obtain rfl := some.inj hstep
    exact Or.inl rfl
  | record run =>
    obtain ⟨hkey, hnext⟩ := record_eq_some.mp hstep
    subst hnext
    by_cases hanalyst : run.analystId = analystId
    · subst hanalyst
      have hcount := hinv.headTipCount_record hfresh
      simp only [hcount]
      omega
    · exact Or.inl (headTipCount_record_of_ne hanalyst)

/-- The number of tips of the analyst does not grow, and stays what it is once
there is one. -/
def TipCountKept (analystId : String) (s : ChainState) (_ : ChainStep) (next : ChainState) : Prop :=
  headTipCount next.rows analystId ≤ headTipCount s.rows analystId ∧
    (1 ≤ headTipCount s.rows analystId →
      headTipCount next.rows analystId = headTipCount s.rows analystId)

def OverTip (analystId : String) (s : ChainState) (label : ChainStep) (_ : ChainState) : Prop :=
  ∀ run, label = .record run → run.analystId = analystId → 1 ≤ headTipCount s.rows analystId

theorem tipCountKept_iff (hinv : CacheInv s) (hstep : chainStep sha s label = some next)
    (hfresh : FreshHash sha s label) (analystId : String) :
    TipCountKept analystId s label next ↔ OverTip analystId s label next := by
  cases label with
  | restart =>
    obtain rfl := some.inj hstep
    simp [TipCountKept, OverTip]
  | record run =>
    obtain ⟨hkey, hnext⟩ := record_eq_some.mp hstep
    subst hnext
    simp only [TipCountKept, OverTip, ChainStep.record.injEq, forall_eq']
    by_cases hanalyst : run.analystId = analystId
    · subst hanalyst
      have hcount := hinv.headTipCount_record hfresh
      simp only [hcount, forall_const]
      omega
    · have hcount := @headTipCount_record_of_ne sha s _ _ hanalyst
      simp [hcount, hanalyst]

/-! ## One branch -/

/-- While every derivation has extended the branch, the rows recorded since
the start form one path, whose last row is a tip. -/
structure BranchInv (start : List TraceRow) (analystId : String) (s : ChainState) : Prop where
  rows : s.rows = start ++ rowsSince start s.rows
  distinct : DistinctRows s.rows
  linear : IsLinear start (rowsSince start s.rows) analystId
  cached : ∀ head, s.heads analystId = some head →
    head = chainHead start (rowsSince start s.rows) analystId
  lastTip : ∀ last,
    (own (rowsSince start s.rows) analystId).getLast? = some last → last ∈ tipsOf s.rows analystId
  unnamed : ∀ row ∈ own (rowsSince start s.rows) analystId,
    row.receiptHash ∉ namedHashes TraceRow.prevReceiptHash (own start analystId)

theorem branchInv_restarted {start : List TraceRow}
    (hdistinct : DistinctRows start) (analystId : String) :
    BranchInv start analystId (ChainState.restarted start) where
  rows := by simp [ChainState.restarted, rowsSince]
  distinct := hdistinct
  linear := by simp [ChainState.restarted, rowsSince, IsLinear, own]
  cached := fun _ hhead => absurd hhead (by simp [ChainState.restarted])
  lastTip := fun _ hlast => absurd hlast (by simp [ChainState.restarted, rowsSince, own])
  unnamed := by simp [ChainState.restarted, rowsSince, own]

variable {start : List TraceRow} {analystId : String} {s : ChainState}

theorem BranchInv.own_rows (hinv : BranchInv start analystId s) :
    own s.rows analystId = own start analystId ++ own (rowsSince start s.rows) analystId := by
  rw [← own_append, ← hinv.rows]

theorem BranchInv.oneBranch (hinv : BranchInv start analystId s) : OneBranch start analystId s := by
  intro row hrow
  have hpath := PathFrom.descends hinv.linear hrow
  apply hpath.mono
  intro other hother
  rw [hinv.own_rows]
  exact mem_append_right _ hother

theorem chainHead_of_getLast {new : List TraceRow} {last : TraceRow}
    (hlast : (own new analystId).getLast? = some last) :
    chainHead start new analystId = last.receiptHash := by
  obtain ⟨earlier, hearlier⟩ := getLast?_eq_some_iff.mp hlast
  unfold chainHead
  rw [hearlier, lastHash_append_singleton]

section

variable (hinv : BranchInv start analystId s)

include hinv

theorem BranchInv.record {run : RunTrace} (hanalyst : run.analystId = analystId)
    (hkey : run.runId ∉ s.rows.map TraceRow.runId) (hfresh : FreshHash sha s (.record run))
    (hhead : s.head analystId = chainHead start (rowsSince start s.rows) analystId) :
    BranchInv start analystId
      { rows := s.rows ++ [s.writtenRow sha run]
        heads := update s.heads run.analystId
          (some (s.writtenRow sha run).receiptHash) } := by
  subst hanalyst
  have hnew : rowsSince start (s.rows ++ [s.writtenRow sha run]) =
      rowsSince start s.rows ++ [s.writtenRow sha run] :=
    rowsSince_append hinv.rows rfl
  have hown : own (rowsSince start s.rows ++ [s.writtenRow sha run])
      run.analystId = own (rowsSince start s.rows) run.analystId ++
        [s.writtenRow sha run] := own_append_of_eq rfl
  exact
    { rows := by rw [hnew, ← append_assoc, ← hinv.rows]
      distinct := hinv.distinct.record hkey hfresh
      linear := by
        unfold IsLinear
        rw [hnew, hown, pathFrom_append_singleton]
        exact ⟨hinv.linear, congrArg some hhead⟩
      cached := by
        intro head hcached
        have hself : some (s.writtenRow sha run).receiptHash = some head := by simpa using hcached
        unfold chainHead
        rw [hnew, hown, lastHash_append_singleton]
        exact (some.inj hself).symm
      lastTip := by
        intro last hlast
        rw [hnew, hown, getLast?_concat, some.injEq] at hlast
        rw [← hlast]
        exact writtenRow_mem_tips hfresh
      unnamed := by
        intro row hrow
        rw [hnew, hown, mem_append, mem_singleton] at hrow
        cases hrow with
        | inl hold => exact hinv.unnamed row hold
        | inr heq =>
          rw [heq]
          intro hnamed
          apply hfresh.2
          rw [namedHashes_append, hinv.own_rows, mem_append]
          left
          obtain ⟨namer, hnamer, hprev⟩ := mem_namedHashes.mp hnamed
          exact mem_namedHashes.mpr ⟨namer, mem_append_left _ hnamer, hprev⟩ }

theorem BranchInv.record_of_ne {run : RunTrace} (hanalyst : run.analystId ≠ analystId)
    (hkey : run.runId ∉ s.rows.map TraceRow.runId) (hfresh : FreshHash sha s (.record run)) :
    BranchInv start analystId
      { rows := s.rows ++ [s.writtenRow sha run]
        heads := update s.heads run.analystId
          (some (s.writtenRow sha run).receiptHash) } := by
  have hnew : rowsSince start (s.rows ++ [s.writtenRow sha run]) =
      rowsSince start s.rows ++ [s.writtenRow sha run] :=
    rowsSince_append hinv.rows rfl
  have hown : own (rowsSince start s.rows ++ [s.writtenRow sha run])
      analystId = own (rowsSince start s.rows) analystId :=
    own_append_of_ne hanalyst
  have hownRows := own_record_of_ne sha s hanalyst
  exact
    { rows := by rw [hnew, ← append_assoc, ← hinv.rows]
      distinct := hinv.distinct.record hkey hfresh
      linear := by
        unfold IsLinear
        rw [hnew, hown]
        exact hinv.linear
      cached := by
        intro head hcached
        have hold : s.heads analystId = some head := by
          simpa [update_of_ne (Ne.symm hanalyst)] using hcached
        unfold chainHead
        rw [hnew, hown]
        exact hinv.cached head hold
      lastTip := by
        intro last hlast
        rw [hnew, hown] at hlast
        rw [tipsOf_congr hownRows]
        exact hinv.lastTip last hlast
      unnamed := by
        rw [hnew, hown]
        exact hinv.unnamed }

theorem BranchInv.restart : BranchInv start analystId { s with heads := fun _ => none } where
  rows := hinv.rows
  distinct := hinv.distinct
  linear := hinv.linear
  cached := fun _ hhead => absurd hhead (by simp)
  lastTip := hinv.lastTip
  unnamed := hinv.unnamed

theorem BranchInv.head_eq (hextends : s.heads analystId = none → ∀ last, (own
      (rowsSince start s.rows) analystId).getLast? = some last → ∀ tip ∈ tipsOf
      s.rows analystId, tip ≠ last → newer last tip = true) :
    s.head analystId = chainHead start (rowsSince start s.rows) analystId := by
  cases hcached : s.heads analystId with
  | some head =>
    have hhead : s.head analystId = head := by simp [ChainState.head, hcached]
    rw [hhead]
    exact hinv.cached head hcached
  | none =>
    have hhead : s.head analystId = storedHead s.rows analystId := by
      simp [ChainState.head, hcached]
    rw [hhead]
    cases hlast : (own (rowsSince start s.rows) analystId).getLast? with
    | none =>
      have hnone := getLast?_eq_none_iff.mp hlast
      have hown : own s.rows analystId = own start analystId := by
        rw [hinv.own_rows, hnone, append_nil]
      rw [storedHead_congr hown]
      unfold chainHead
      rw [hnone]
      rfl
    | some last =>
      have hfirst : firstBy newer (tipsOf s.rows analystId) = some last :=
        isStrictOrder_newer.firstBy_eq_some (hinv.lastTip last hlast) (hextends hcached last hlast)
      have hnewest : newestTip s.rows analystId = some last.receiptHash := by
        unfold newestTip
        rw [hfirst]
        rfl
      rw [storedHead_of_newestTip hnewest, chainHead_of_getLast hlast]

theorem BranchInv.eq_last {last : TraceRow}
    (hlast : (own (rowsSince start s.rows) analystId).getLast? = some last)
    (htip : tip ∈ tipsOf s.rows analystId)
    (hnew : tip ∈ own (rowsSince start s.rows) analystId) : tip = last := by
  have hlastNew := mem_of_getLast? hlast
  have hnodup := hinv.distinct.receipts analystId
  rw [hinv.own_rows, map_append] at hnodup
  by_contra hne
  have hhash : tip.receiptHash ≠ chainHead start (rowsSince start s.rows)
      analystId := by
    rw [chainHead_of_getLast hlast]
    intro heq
    exact hne (inj_on_of_nodup_map (nodup_append.mp hnodup).2.1 hnew hlastNew heq)
  have hnamed := PathFrom.named hinv.linear hnew hhash
  obtain ⟨namer, hnamer, hprev⟩ := mem_namedHashes.mp hnamed
  unfold tipsOf at htip
  rw [hinv.own_rows] at htip
  exact (mem_tips.mp htip).2 (mem_namedHashes.mpr ⟨namer, mem_append_right _ hnamer, hprev⟩)

theorem BranchInv.storedHead_unnamed (htip : tip ∈ tipsOf s.rows analystId)
    (hold : tip ∈ own start analystId) :
    storedHead start analystId ∉ namedHashes TraceRow.prevReceiptHash (own start analystId) := by
  have hstartTip : tip ∈ tipsOf start analystId := by
    unfold tipsOf at htip ⊢
    rw [hinv.own_rows] at htip
    apply mem_tips.mpr
    constructor
    · exact hold
    · intro hnamed
      obtain ⟨namer, hnamer, hprev⟩ := mem_namedHashes.mp hnamed
      exact (mem_tips.mp htip).2 (mem_namedHashes.mpr ⟨namer, mem_append_left _ hnamer, hprev⟩)
  obtain ⟨chosen, hchosen⟩ := firstBy_isSome newer hstartTip
  have hnewest : newestTip start analystId = some chosen.receiptHash := by
    unfold newestTip
    rw [hchosen]
    rfl
  rw [storedHead_of_newestTip hnewest]
  exact (mem_tips.mp (firstBy_mem hchosen)).2

section

variable {run : RunTrace} (hanalyst : run.analystId = analystId)
  (hfresh : FreshHash sha s (.record run))

include hanalyst hfresh

theorem BranchInv.unnamed_append :
    ∀ row ∈ own (rowsSince start s.rows) analystId ++ [s.writtenRow sha run],
      row.receiptHash ∉ namedHashes TraceRow.prevReceiptHash (own start analystId) := by
  subst hanalyst
  intro row hmem hnamed
  cases mem_append.mp hmem with
  | inl hnew => exact hinv.unnamed row hnew hnamed
  | inr hself =>
    rw [mem_singleton] at hself
    obtain ⟨namer, hnamer, hprev⟩ := mem_namedHashes.mp hnamed
    have hin : namer ∈ own s.rows run.analystId ++ [s.writtenRow sha run] := by
      rw [hinv.own_rows]
      exact mem_append_left _ (mem_append_left _ hnamer)
    exact hfresh.2 (mem_namedHashes.mpr ⟨namer, hin, hself ▸ hprev⟩)

theorem BranchInv.not_oneBranch {last : TraceRow}
    (hlast : (own (rowsSince start s.rows) analystId).getLast? = some last)
    (htip : tip ∈ tipsOf s.rows analystId) (hne : tip ≠ last)
    (hhead : s.head analystId = tip.receiptHash) :
    ¬OneBranch start analystId
      { rows := s.rows ++ [s.writtenRow sha run]
        heads := update s.heads run.analystId
          (some (s.writtenRow sha run).receiptHash) } := by
  subst hanalyst
  have hold : tip ∈ own start run.analystId := by
    have hmem := (mem_tips.mp htip).1
    rw [hinv.own_rows, mem_append] at hmem
    cases hmem with
    | inl hold => exact hold
    | inr hnew => exact absurd (hinv.eq_last hlast htip hnew) hne
  have hnotNew : tip ∉ own (rowsSince start s.rows) run.analystId :=
    fun hnew => hne (hinv.eq_last hlast htip hnew)
  have hroot := hinv.storedHead_unnamed htip hold
  intro hbranch
  have hrow : s.writtenRow sha run ∈
      own (rowsSince start (s.rows ++ [s.writtenRow sha run])) run.analystId := by
    have hown : own (rowsSince start s.rows ++ [s.writtenRow sha run])
        run.analystId = own (rowsSince start s.rows) run.analystId ++
          [s.writtenRow sha run] := own_append_of_eq rfl
    rw [rowsSince_append hinv.rows rfl, hown]
    simp
  have hdesc := hbranch _ hrow
  simp only [own_record_self] at hdesc
  have hmore := hinv.unnamed_append rfl hfresh
  rw [hinv.own_rows, append_assoc] at hdesc
  have hprev : (s.writtenRow sha run).prevReceiptHash =
      some tip.receiptHash := by rw [writtenRow_prev, hhead]
  cases hdesc with
  | child _ hname =>
    rw [hprev, some.injEq] at hname
    obtain ⟨first, rest, hpath⟩ := exists_cons_of_ne_nil (ne_nil_of_mem (mem_of_getLast? hlast))
    have hlinear := hinv.linear
    unfold IsLinear at hlinear
    rw [hpath] at hlinear
    apply (mem_tips.mp htip).2
    apply mem_namedHashes.mpr
    have hfirst : first ∈ own s.rows run.analystId := by
      rw [hinv.own_rows, hpath]
      simp
    exact ⟨first, hfirst, hname ▸ hlinear.1⟩
  | step hin hname hparent =>
    rename_i parent
    rw [hprev, some.injEq] at hname
    cases mem_append.mp (Descends.mem_append_right hroot hmore hparent) with
    | inl hnew =>
      have hin : parent ∈ own s.rows run.analystId := by
        rw [hinv.own_rows]
        exact mem_append_right _ hnew
      have heq := inj_on_of_nodup_map (hinv.distinct.receipts run.analystId)
        (mem_tips.mp htip).1 hin hname
      exact hnotNew (heq ▸ hnew)
    | inr hself =>
      rw [mem_singleton] at hself
      apply hfresh.1
      rw [← hself, ← hname]
      exact mem_map_of_mem (mem_tips.mp htip).1

end

section

variable (hstep : chainStep sha s label = some next) (hfresh : FreshHash sha s label)

include hstep hfresh

theorem branchInv_step (hextends : ExtendsBranch start analystId s label) :
    BranchInv start analystId next := by
  cases label with
  | restart =>
    obtain rfl := some.inj hstep
    exact hinv.restart
  | record run =>
    obtain ⟨hkey, hnext⟩ := record_eq_some.mp hstep
    subst hnext
    by_cases hanalyst : run.analystId = analystId
    · exact hinv.record hanalyst hkey hfresh (hinv.head_eq (hextends hanalyst))
    · exact hinv.record_of_ne hanalyst hkey hfresh

theorem not_oneBranch_step (hextends : ¬ExtendsBranch start analystId s label) :
    ¬OneBranch start analystId next := by
  cases label with
  | restart => exact absurd trivial hextends
  | record run =>
    obtain ⟨_, hnext⟩ := record_eq_some.mp hstep
    subst hnext
    simp only [ExtendsBranch] at hextends
    push Not at hextends
    obtain ⟨hanalyst, hcached, last, hlast, tip, htip, hne, hnewer⟩ := hextends
    obtain ⟨chosen, hchosen⟩ := firstBy_isSome newer htip
    have hmem := firstBy_mem hchosen
    have hchosenNe : chosen ≠ last := by
      intro heq
      subst heq
      have hnot := isStrictOrder_newer.not_before hchosen htip
      have hruns : tip.runId ≠ chosen.runId := by
        intro hrun
        have htipRow := mem_of_mem_filter (mem_tips.mp htip).1
        have hchosenRow := mem_of_mem_filter (mem_tips.mp hmem).1
        exact hne (inj_on_of_nodup_map hinv.distinct.runIds htipRow hchosenRow hrun)
      cases newer_or_newer hruns with
      | inl hbefore =>
        rw [hnot] at hbefore
        exact Bool.false_ne_true hbefore
      | inr hbefore => exact hnewer hbefore
    have hhead : s.head analystId = chosen.receiptHash := by
      have hnewest : newestTip s.rows analystId = some chosen.receiptHash := by
        unfold newestTip
        rw [hchosen]
        rfl
      simp only [ChainState.head, hcached, getD_none]
      exact storedHead_of_newestTip hnewest
    exact hinv.not_oneBranch hanalyst hfresh hlast hmem hchosenNe hhead

end

end

/-! ## Runs -/

/-- Over any forked table and any run of restarts and records, a step keeps
the number of tips of every analyst or gives an analyst its first one.  For
one analyst, the count stays and the rows recorded since the first restart
form one branch exactly when no row is recorded over a table without a tip and
every derivation after a restart finds the row recorded last newer than the
other tips. -/
theorem forkedChain_iff (hdistinct : DistinctRows start) {labels : List ChainStep}
    (hfresh : StepsSatisfy (chainStep sha) (fun s label _ => FreshHash sha s
      label) (.restarted start) labels) :
    StepsSatisfy (chainStep sha) (fun s _ next => KeepsTips s next) (.restarted start) labels ∧
      ∀ analystId,
        (StepsSatisfy (chainStep sha) (TipCountKept analystId) (.restarted start) labels ∧
            VisitsOnly (chainStep sha) (OneBranch start analystId) (.restarted start) labels ↔
          StepsSatisfy (chainStep sha) (OverTip analystId) (.restarted start) labels ∧
            StepsSatisfy (chainStep sha)
              (fun s label _ => ExtendsBranch start analystId s label)
              (.restarted start) labels) := by
  constructor
  · exact stepsSatisfy_of_invariant (fun s label next hinv hstep hgood =>
      cacheInv_step hinv hstep hgood) (fun s label next hinv hstep hgood =>
      keepsTips_step hinv hstep hgood) (cacheInv_restarted hdistinct) hfresh
  · intro analystId
    have hcount : StepsSatisfy (chainStep sha) (TipCountKept analystId) (.restarted start) labels ↔
        StepsSatisfy (chainStep sha) (OverTip analystId) (.restarted start) labels :=
      stepsSatisfy_iff_of_invariant
        (fun s label next hinv hstep hgood _ => cacheInv_step hinv hstep hgood)
        (fun s label next hinv hstep hgood => tipCountKept_iff hinv hstep hgood analystId)
        (cacheInv_restarted hdistinct) hfresh
    have hbranch := visitsOnly_iff_goodSteps
      (fun s hinv => BranchInv.oneBranch hinv)
      (fun s label next hinv hstep hgood hextends => branchInv_step hinv hstep hgood hextends)
      (fun s label next hinv hstep hgood hextends => not_oneBranch_step hinv hstep hgood hextends)
      (branchInv_restarted hdistinct analystId) hfresh
    exact and_congr hcount hbranch

def forkedTable : List TraceRow :=
  [ { runId := 1, analystId := "a", runStartedAt := 10, receiptHash := "t1"
      prevReceiptHash := some zeroHash },
    { runId := 2, analystId := "a", runStartedAt := 5, receiptHash := "t2"
      prevReceiptHash := some zeroHash } ]

def prevStar (payload : ReceiptPayload) : String :=
  payload.prevReceiptHash ++ "*"

theorem distinctRows_forkedTable : DistinctRows forkedTable where
  runIds := by decide
  receipts := by
    intro analystId
    have hall : (forkedTable.map TraceRow.receiptHash).Nodup := by decide
    exact hall.sublist (Sublist.map _ filter_sublist)

theorem forkedChain_iff_lateRun :
    StepsSatisfy (chainStep prevStar) (TipCountKept "a")
        (.restarted forkedTable) [.record (sampleRun 3 "a" 12), .restart] ∧
      VisitsOnly (chainStep prevStar) (OneBranch forkedTable "a")
        (.restarted forkedTable) [.record (sampleRun 3 "a" 12), .restart] ↔
    StepsSatisfy (chainStep prevStar) (OverTip "a")
        (.restarted forkedTable) [.record (sampleRun 3 "a" 12), .restart] ∧
      StepsSatisfy (chainStep prevStar)
        (fun s label _ => ExtendsBranch forkedTable "a" s label)
        (.restarted forkedTable) [.record (sampleRun 3 "a" 12), .restart] := by
  have hfresh : StepsSatisfy (chainStep prevStar)
      (fun s label _ => FreshHash prevStar s label) (.restarted forkedTable)
      [.record (sampleRun 3 "a" 12), .restart] :=
    ⟨⟨by decide, by decide⟩, trivial, trivial⟩
  exact (forkedChain_iff distinctRows_forkedTable hfresh).2 "a"

/-- A run which started before both tips is recorded on top of the newer one;
after the next restart the other tip is the newest, and the run recorded then
is not on the branch chosen first. -/
theorem forkedChain_leaves_branch :
    storedHead forkedTable "a" = "t1" ∧
      ∃ final, run (chainStep prevStar) (.restarted forkedTable)
          [.record (sampleRun 3 "a" 3), .restart, .record (sampleRun 4 "a" 4)] = some final ∧
        (rowsSince forkedTable final.rows).map TraceRow.prevReceiptHash = [some "t1", some "t2"] ∧
        ¬OneBranch forkedTable "a" final := by
  constructor
  · decide
  · have hrun : run (chainStep prevStar) (.restarted forkedTable)
        [.record (sampleRun 3 "a" 3), .restart, .record (sampleRun 4 "a" 4)] =
        some
          { rows := forkedTable ++
              [traceRow (sampleRun 3 "a" 3) "t1*" "t1", traceRow (sampleRun 4 "a" 4) "t2*" "t2"]
            heads := update (fun _ => none) "a" (some "t2*") } := rfl
    refine ⟨_, hrun, rfl, ?_⟩
    intro hbranch
    have hdesc : Descends TraceRow.receiptHash TraceRow.prevReceiptHash
        (forkedTable ++ [traceRow (sampleRun 3 "a" 3) "t1*" "t1",
          traceRow (sampleRun 4 "a" 4) "t2*" "t2"]) "t1"
        (traceRow (sampleRun 4 "a" 4) "t2*" "t2") :=
      hbranch _ (by decide)
    cases hdesc with
    | child _ hprev => exact absurd hprev (by decide)
    | step _ hprev hparent =>
      have hmem := hparent.mem_append_right (by decide) (by decide)
      simp only [mem_cons, not_mem_nil, or_false] at hmem
      cases hmem with
      | inl heq =>
        subst heq
        exact absurd hprev (by decide)
      | inr heq =>
        subst heq
        exact absurd hprev (by decide)

end Legba.Receipts
