import Legba.ReceiptForks

/-!
# The audit checkpointer

`AuditCheckpointer.tick` reads one row per analyst, the one which started
last, signs its receipt hash and appends the signature to
`audit_checkpoints`.  The chain takes its head from the row recorded last.  A
run which ends after a later one has started and ended is recorded last and
started first, so the two rules differ on overlapping runs.

The order in which the database reads the table is left open: a tick is given
an arbitrary permutation of the rows.
-/

namespace Legba.Receipts

open HashChain LabelledRun RowOrder List Option

structure CheckpointPayload where
  analystId : String
  chainHeadHash : String
  traceCount : ℕ
  checkpointedAt : Datetime
  signerDid : String

structure Ed25519Signer where
  did : String
  sign : CheckpointPayload → String

structure Checkpoint extends CheckpointPayload where
  signature : String

structure CheckpointerConfig where
  maxTracesBetween : ℤ := 100

structure AnalystCheckpointState where
  lastHead : Option String := none
  lastTraceCount : ℕ := 0

structure TickRow where
  analystId : String
  head : String
  traceCount : ℕ

/-- `ORDER BY run_started_at DESC`. -/
def startedLater (a b : TraceRow) : Bool :=
  decide (b.runStartedAt < a.runStartedAt)

def tickRow (scan : List TraceRow) (analystId : String) (row : TraceRow) : TickRow where
  analystId := analystId
  head := row.receiptHash
  traceCount := (own scan analystId).length

/-- `DISTINCT ON (analyst_id)` joined with the count of the analyst's rows. -/
def tickRows (scan : List TraceRow) : List TickRow :=
  (scan.map TraceRow.analystId).dedup.filterMap fun analystId =>
    (firstBy startedLater (own scan analystId)).map (tickRow scan analystId)

/-- The memory of the checkpointer and the checkpoints written so far by the
tick. -/
structure TickPass where
  states : String → AnalystCheckpointState
  written : List Checkpoint

def signAndWrite (signer : Ed25519Signer) (now : String → Datetime) (row : TickRow) : Checkpoint :=
  let payload : CheckpointPayload :=
    { analystId := row.analystId
      chainHeadHash := row.head
      traceCount := row.traceCount
      checkpointedAt := now row.analystId
      signerDid := signer.did }
  { payload with signature := signer.sign payload }

def TickPass.visit (signer : Ed25519Signer) (config : CheckpointerConfig)
    (now : String → Datetime) (pass : TickPass) (row : TickRow) : TickPass :=
  let state := pass.states row.analystId
  let headChanged := state.lastHead ≠ some row.head
  let runsSince : ℤ := row.traceCount - state.lastTraceCount
  let ceilingHit := config.maxTracesBetween ≤ runsSince
  if ¬(headChanged ∨ ceilingHit) then pass
  else if ¬headChanged ∧ runsSince = 0 then pass
  else
    { states := Function.update pass.states row.analystId
        { lastHead := some row.head
          lastTraceCount := row.traceCount }
      written := pass.written ++ [signAndWrite signer now row] }

def tick (signer : Ed25519Signer) (config : CheckpointerConfig)
    (states : String → AnalystCheckpointState) (scan : List TraceRow)
    (now : String → Datetime) : TickPass :=
  (tickRows scan).foldl (TickPass.visit signer config now)
    { states := states, written := [] }

structure AuditState where
  chain : ChainState
  states : String → AnalystCheckpointState
  checkpoints : List Checkpoint

def AuditState.initial : AuditState where
  chain := .restarted []
  states := fun _ => {}
  checkpoints := []

def AuditState.ticked (signer : Ed25519Signer) (config : CheckpointerConfig)
    (s : AuditState) (scan : List TraceRow) (now : String → Datetime) :
    AuditState :=
  { s with
    states := (tick signer config s.states scan now).states
    checkpoints := s.checkpoints ++
      (tick signer config s.states scan now).written }

inductive AuditStep where
  | chain (label : ChainStep)
  | restartCheckpointer
  | tick (scan : List TraceRow) (now : String → Datetime)

def auditStep (sha : ReceiptPayload → String) (signer : Ed25519Signer)
    (config : CheckpointerConfig) (s : AuditState) :
    AuditStep → Option AuditState
  | .chain label => (chainStep sha s.chain label).map fun chain => { s with chain := chain }
  | .restartCheckpointer => some { s with states := fun _ => {} }
  | .tick scan now =>
    if scan.Perm s.chain.rows then some (s.ticked signer config scan now)
    else none

def ofAnalyst (checkpoints : List Checkpoint) (analystId : String) : List Checkpoint :=
  checkpoints.filter fun checkpoint => decide (checkpoint.analystId = analystId)

def latest (checkpoints : List Checkpoint) (analystId : String) : Option Checkpoint :=
  (ofAnalyst checkpoints analystId).getLast?

def latestCount (checkpoints : List Checkpoint) (analystId : String) : ℕ :=
  match latest checkpoints analystId with
  | some checkpoint => checkpoint.traceCount
  | none => 0

def AncestorOrSelf (rows : List TraceRow) (row : TraceRow) (head : String) :
    Prop :=
  row.receiptHash = head ∨
    ∃ tip ∈ rows, tip.receiptHash = head ∧
      Descends TraceRow.receiptHash TraceRow.prevReceiptHash rows row.receiptHash tip

/-- What a tick signs for the analyst is the hash the next run chains from,
and after the tick the rows recorded since the checkpoint before it are
ancestors of the hash signed last. -/
def SignsChainHead (analystId : String) (s : AuditState) (label : AuditStep)
    (next : AuditState) : Prop :=
  ∀ scan now, label = .tick scan now →
    (∀ checkpoint ∈ ofAnalyst (next.checkpoints.drop s.checkpoints.length) analystId,
      checkpoint.chainHeadHash = s.chain.head analystId) ∧
    ∀ row ∈ (own s.chain.rows analystId).drop (latestCount s.checkpoints analystId),
      ∃ checkpoint, latest next.checkpoints analystId = some checkpoint ∧
        AncestorOrSelf (own s.chain.rows analystId) row checkpoint.chainHeadHash

/-- At a tick the row of the analyst recorded last started no earlier than any
other, and later than those the database reads ahead of it. -/
def LastReadNewest (analystId : String) (s : AuditState) (label : AuditStep)
    (_ : AuditState) : Prop :=
  ∀ scan now, label = .tick scan now →
    ∀ last, (own s.chain.rows analystId).getLast? = some last →
      ∀ ahead after, own scan analystId = ahead ++ last :: after →
        (∀ row ∈ ahead, row.runStartedAt < last.runStartedAt) ∧
          ∀ row ∈ after, row.runStartedAt ≤ last.runStartedAt

def FreshAuditHash (sha : ReceiptPayload → String) (s : AuditState)
    (label : AuditStep) (_ : AuditState) : Prop :=
  ∀ chainLabel, label = .chain chainLabel → FreshHash sha s.chain chainLabel

/-! ## What one tick does for one analyst -/

variable {signer : Ed25519Signer} {config : CheckpointerConfig}
  {now : String → Datetime} {sha : ReceiptPayload → String}

theorem isStrictOrder_startedLater : IsStrictOrder startedLater where
  asymm := by
    intro a b hab
    simp only [startedLater, decide_eq_true_eq, decide_eq_false_iff_not] at *
    exact not_lt.mpr hab.le
  split := by
    intro a b c hab
    simp only [startedLater, decide_eq_true_eq] at *
    cases lt_or_ge c.runStartedAt a.runStartedAt with
    | inl hlt => exact .inl hlt
    | inr hge => exact .inr (lt_of_lt_of_le hab hge)

theorem ofAnalyst_append (checkpoints more : List Checkpoint) (analystId : String) :
    ofAnalyst (checkpoints ++ more) analystId =
      ofAnalyst checkpoints analystId ++ ofAnalyst more analystId :=
  filter_append ..

variable {checkpoints more : List Checkpoint} {checkpoint : Checkpoint}
  {row : TickRow} {scan : List TraceRow} {first last : TraceRow}
  {c next : ChainState} {label : ChainStep} {s : AuditState}

theorem latest_append_of_none {analystId : String} (hmore : ofAnalyst more analystId = []) :
    latest (checkpoints ++ more) analystId = latest checkpoints analystId := by
  unfold latest
  rw [ofAnalyst_append, hmore, append_nil]

theorem latest_append_of_single {analystId : String}
    (hmore : ofAnalyst more analystId = [checkpoint]) :
    latest (checkpoints ++ more) analystId = some checkpoint := by
  unfold latest
  rw [ofAnalyst_append, hmore, getLast?_concat]

theorem visit_of_ne (signer : Ed25519Signer) (config : CheckpointerConfig) (now : String → Datetime)
    (pass : TickPass) {analystId : String} (hrow : row.analystId ≠ analystId) :
    (pass.visit signer config now row).states analystId = pass.states analystId ∧
      ofAnalyst (pass.visit signer config now row).written analystId =
        ofAnalyst pass.written analystId := by
  unfold TickPass.visit
  dsimp only
  split
  · exact ⟨rfl, rfl⟩
  · split
    · exact ⟨rfl, rfl⟩
    · constructor
      · exact Function.update_of_ne hrow.symm _ _
      · have hnone : ofAnalyst [signAndWrite signer now row] analystId = [] :=
          by simp [ofAnalyst, signAndWrite, hrow]
        rw [ofAnalyst_append, hnone, append_nil]

theorem visit_self (pass : TickPass) (row : TickRow) :
    ((pass.visit signer config now row).states row.analystId).lastHead = some row.head ∧
      (pass.visit signer config now row).written = pass.written ++ [signAndWrite signer now row] ∨
    pass.visit signer config now row = pass ∧
      (pass.states row.analystId).lastHead = some row.head := by
  unfold TickPass.visit
  dsimp only
  split
  · rename_i hskip
    push Not at hskip
    exact .inr ⟨rfl, hskip.1⟩
  · split
    · rename_i hskip
      exact .inr ⟨rfl, not_not.mp hskip.1⟩
    · left
      simp

theorem foldl_visit_of_ne {pass : TickPass} {rows : List TickRow}
    {analystId : String} (hrows : ∀ row ∈ rows, row.analystId ≠ analystId) :
    (rows.foldl (TickPass.visit signer config now) pass).states analystId = pass.states analystId ∧
      ofAnalyst (rows.foldl (TickPass.visit signer config now) pass).written
        analystId = ofAnalyst pass.written analystId := by
  induction rows generalizing pass with
  | nil => exact ⟨rfl, rfl⟩
  | cons row rest ih =>
    rw [forall_mem_cons] at hrows
    have hrest := @ih (pass.visit signer config now row) hrows.2
    have hrow := visit_of_ne signer config now pass hrows.1
    exact ⟨hrest.1.trans hrow.1, hrest.2.trans hrow.2⟩

theorem analystId_of_mem_filterMap {analysts : List String}
    (hrow : row ∈ analysts.filterMap fun analystId => (firstBy startedLater (own scan
      analystId)).map (tickRow scan analystId)) : row.analystId ∈ analysts := by
  obtain ⟨analystId, hmem, hmap⟩ := mem_filterMap.mp hrow
  obtain ⟨first, _, heq⟩ := map_eq_some_iff.mp hmap
  rw [← heq]
  exact hmem

theorem tickRows_split {analystId : String}
    (hfirst : firstBy startedLater (own scan analystId) = some first) :
    ∃ earlier later,
      tickRows scan = earlier ++ tickRow scan analystId first :: later ∧
      (∀ row ∈ earlier, row.analystId ≠ analystId) ∧ ∀ row ∈ later, row.analystId ≠ analystId := by
  have hown := mem_filter.mp (firstBy_mem hfirst)
  have hmem : analystId ∈ (scan.map TraceRow.analystId).dedup := by
    rw [mem_dedup]
    exact mem_map.mpr ⟨first, hown.1, of_decide_eq_true hown.2⟩
  obtain ⟨before, after, hsplit⟩ := append_of_mem hmem
  have hnodup := nodup_dedup (scan.map TraceRow.analystId)
  rw [hsplit, nodup_middle, nodup_cons, mem_append, not_or] at hnodup
  unfold tickRows
  rw [hsplit, filterMap_append, filterMap_cons, hfirst]
  refine ⟨_, _, rfl, ?_, ?_⟩
  · intro row hrow heq
    exact hnodup.1.1 (heq ▸ analystId_of_mem_filterMap hrow)
  · intro row hrow heq
    exact hnodup.1.2 (heq ▸ analystId_of_mem_filterMap hrow)

section

variable (signer : Ed25519Signer) (config : CheckpointerConfig)
  (now : String → Datetime) (states : String → AnalystCheckpointState)
  {analystId : String}

theorem tick_of_noRows (hnone : own scan analystId = []) :
    (tick signer config states scan now).states analystId = states analystId ∧
      ofAnalyst (tick signer config states scan now).written analystId = [] := by
  apply foldl_visit_of_ne
  intro row hrow heq
  obtain ⟨other, _, hmap⟩ := mem_filterMap.mp hrow
  obtain ⟨first, hfirst, hrowEq⟩ := map_eq_some_iff.mp hmap
  have hother : other = analystId := by
    rw [← heq, ← hrowEq]
    rfl
  rw [hother, hnone] at hfirst
  simp at hfirst

theorem tick_of_first (hfirst : firstBy startedLater (own scan analystId) = some first) :
    ((tick signer config states scan now).states analystId).lastHead = some first.receiptHash ∧
      (ofAnalyst (tick signer config states scan now).written analystId =
          [signAndWrite signer now (tickRow scan analystId first)] ∨
        ofAnalyst (tick signer config states scan now).written analystId = [] ∧
          (states analystId).lastHead = some first.receiptHash) := by
  obtain ⟨earlier, later, hsplit, hearlier, hlater⟩ := tickRows_split hfirst
  unfold tick
  rw [hsplit, foldl_append, foldl_cons]
  have hbefore := @foldl_visit_of_ne signer config now
    { states := states, written := [] } earlier analystId hearlier
  have hafter := @foldl_visit_of_ne signer config now
    ((earlier.foldl (TickPass.visit signer config now)
      { states := states, written := [] }).visit signer config now
        (tickRow scan analystId first)) later analystId hlater
  rw [hafter.1, hafter.2]
  have hnone : ofAnalyst ([] : List Checkpoint) analystId = [] := rfl
  cases visit_self (earlier.foldl (TickPass.visit signer config now)
      { states := states, written := [] }) (tickRow scan analystId first)
      with
  | inl hsigned =>
    have hself : ofAnalyst [signAndWrite signer now
        (tickRow scan analystId first)] analystId =
          [signAndWrite signer now (tickRow scan analystId first)] := by
      simp [ofAnalyst, signAndWrite, tickRow]
    rw [hsigned.2, ofAnalyst_append, hbefore.2, hnone, hself]
    exact ⟨hsigned.1, .inl rfl⟩
  | inr hpassed =>
    have hheld := hpassed.2
    rw [hpassed.1, hbefore.2]
    rw [show (tickRow scan analystId first).analystId = analystId from rfl, hbefore.1] at hheld
    exact ⟨by rw [hbefore.1]; exact hheld, .inr ⟨hnone, hheld⟩⟩

end

/-! ## The linear chain under the checkpointer -/

variable {analystId : String}

section

variable (hinv : BranchInv [] analystId c)

include hinv

theorem BranchInv.extends_nil {tip : TraceRow} (hlast : (own c.rows analystId).getLast? = some last)
    (htip : tip ∈ tipsOf c.rows analystId) : tip = last :=
  hinv.eq_last hlast htip (mem_tips.mp htip).1

theorem BranchInv.head_nil (hlast : (own c.rows analystId).getLast? = some last) :
    c.head analystId = last.receiptHash := by
  have hhead := hinv.head_eq fun _ other hother tip htip hne =>
    absurd (hinv.extends_nil hother htip) hne
  rw [hhead]
  exact chainHead_of_getLast hlast

theorem branchInv_nil_step (hstep : chainStep sha c label = some next)
    (hfresh : FreshHash sha c label) : BranchInv [] analystId next := by
  have hextends : ExtendsBranch [] analystId c label := by
    cases label with
    | restart => trivial
    | record run =>
      intro _ _ last hlast tip htip hne
      exact absurd (hinv.extends_nil hlast htip) hne
  exact branchInv_step hinv hstep hfresh hextends

end

/-- The checkpointer remembers the hash it signed last, and a checkpoint over
all rows of the analyst signs the row recorded last. -/
structure AuditInv (analystId : String) (s : AuditState) : Prop where
  branch : BranchInv [] analystId s.chain
  remembered : ∀ head, (s.states analystId).lastHead = some head →
    ∃ checkpoint, latest s.checkpoints analystId = some checkpoint ∧ checkpoint.chainHeadHash = head
  covered : latestCount s.checkpoints analystId ≤ (own s.chain.rows analystId).length
  signed : ∀ checkpoint last,
    latest s.checkpoints analystId = some checkpoint →
    (own s.chain.rows analystId).getLast? = some last →
    checkpoint.traceCount = (own s.chain.rows analystId).length →
    checkpoint.chainHeadHash = last.receiptHash

theorem distinctRows_nil : DistinctRows [] where
  runIds := nodup_nil
  receipts := fun _ => nodup_nil

theorem auditInv_initial (analystId : String) : AuditInv analystId AuditState.initial where
  branch := branchInv_restarted distinctRows_nil analystId
  remembered := fun _ hhead => absurd hhead (by simp [AuditState.initial])
  covered := Nat.zero_le _
  signed := fun _ _ hlatest => absurd hlatest (by simp [AuditState.initial, latest, ofAnalyst])

theorem latestCount_of_latest (hlatest : latest checkpoints analystId = some checkpoint) :
    latestCount checkpoints analystId = checkpoint.traceCount := by
  unfold latestCount
  rw [hlatest]

theorem latestCount_congr (hlatest : latest more analystId = latest checkpoints analystId) :
    latestCount more analystId = latestCount checkpoints analystId := by
  unfold latestCount
  rw [hlatest]

theorem own_chainStep (hstep : chainStep sha c label = some next) (analystId : String) :
    own next.rows analystId = own c.rows analystId ∨
      (own next.rows analystId).length = (own c.rows analystId).length + 1 := by
  cases label with
  | restart =>
    obtain rfl := some.inj hstep
    exact .inl rfl
  | record run =>
    obtain ⟨_, hnext⟩ := record_eq_some.mp hstep
    subst hnext
    by_cases hanalyst : run.analystId = analystId
    · subst hanalyst
      right
      rw [own_record_self, length_append, length_singleton]
    · exact .inl (own_record_of_ne _ c hanalyst)

theorem AuditInv.chain (hinv : AuditInv analystId s)
    (hstep : chainStep sha s.chain label = some next) (hfresh : FreshHash sha s.chain label) :
    AuditInv analystId { s with chain := next } where
  branch := branchInv_nil_step hinv.branch hstep hfresh
  remembered := hinv.remembered
  covered := by
    have hcovered := hinv.covered
    cases own_chainStep hstep analystId with
    | inl heq =>
      simp only [heq]
      exact hcovered
    | inr hlonger =>
      simp only [hlonger]
      omega
  signed := by
    intro checkpoint last hlatest hlast hcount
    have hcovered := hinv.covered
    cases own_chainStep hstep analystId with
    | inl heq =>
      simp only [heq] at hlast hcount
      exact hinv.signed checkpoint last hlatest hlast hcount
    | inr hlonger =>
      rw [latestCount_of_latest hlatest] at hcovered
      simp only [hlonger] at hcount
      omega

theorem AuditInv.restartCheckpointer (hinv : AuditInv analystId s) :
    AuditInv analystId { s with states := fun _ => {} } where
  branch := hinv.branch
  remembered := fun _ hhead => absurd hhead (by simp)
  covered := hinv.covered
  signed := hinv.signed

/-! ## One tick over a linear chain -/

section

variable {s : AuditState} {scan : List TraceRow}

theorem own_perm (analystId : String) {rows : List TraceRow} (hperm : scan.Perm rows) :
    (own scan analystId).Perm (own rows analystId) :=
  hperm.filter _

theorem AuditInv.nodup_own (hinv : AuditInv analystId s) : (own s.chain.rows analystId).Nodup :=
  Nodup.of_map _ (hinv.branch.distinct.receipts analystId)

variable {last first : TraceRow} {next : AuditState}

theorem AuditInv.firstBy_eq_last_iff (hinv : AuditInv analystId s) (hperm : scan.Perm s.chain.rows)
    (hlast : (own s.chain.rows analystId).getLast? = some last) :
    firstBy startedLater (own scan analystId) = some last ↔
      LastReadNewest analystId s (.tick scan now) next := by
  have hown := own_perm analystId hperm
  have hmem : last ∈ own scan analystId := hown.mem_iff.mpr (mem_of_getLast? hlast)
  have hnodup := hown.nodup_iff.mpr hinv.nodup_own
  have hsplit : ∀ ahead after, own scan analystId = ahead ++ last :: after →
      (firstBy startedLater (own scan analystId) = some last ↔
        (∀ row ∈ ahead, row.runStartedAt < last.runStartedAt) ∧
          ∀ row ∈ after, row.runStartedAt ≤ last.runStartedAt) := by
    intro ahead after heq
    rw [heq] at hnodup ⊢
    rw [nodup_middle, nodup_cons, mem_append, not_or] at hnodup
    rw [isStrictOrder_startedLater.firstBy_append_cons hnodup.1.1]
    simp [startedLater]
  constructor
  · intro hfirst scan' now' hlabel last' hlast' ahead after heq
    injection hlabel with hscan
    subst hscan
    rw [hlast, some.injEq] at hlast'
    subst hlast'
    exact (hsplit ahead after heq).mp hfirst
  · intro hnewest
    obtain ⟨ahead, after, heq⟩ := append_of_mem hmem
    exact (hsplit ahead after heq).mpr (hnewest scan now rfl last hlast ahead after heq)

theorem AuditInv.ancestor (hinv : AuditInv analystId s) {row : TraceRow}
    (hlast : (own s.chain.rows analystId).getLast? = some last)
    (hrow : row ∈ own s.chain.rows analystId) :
    AncestorOrSelf (own s.chain.rows analystId) row last.receiptHash := by
  by_cases heq : row = last
  · exact .inl (congrArg _ heq)
  · exact .inr ⟨last, mem_of_getLast? hlast, rfl, hinv.branch.linear.last_descends hlast hrow heq⟩

theorem AuditInv.not_ancestor (hinv : AuditInv analystId s) {other : TraceRow}
    (hlast : (own s.chain.rows analystId).getLast? = some last)
    (hother : other ∈ own s.chain.rows analystId) (hne : other ≠ last) :
    ¬AncestorOrSelf (own s.chain.rows analystId) last other.receiptHash := by
  have hinj := inj_on_of_nodup_map (hinv.branch.distinct.receipts analystId)
  have hmem := mem_of_getLast? hlast
  intro hancestor
  cases hancestor with
  | inl heq => exact hne (hinj hother hmem heq.symm)
  | inr hdesc =>
    obtain ⟨_, _, _, hdesc⟩ := hdesc
    have htip := hinv.branch.lastTip last hlast
    exact (mem_tips.mp htip).2 hdesc.root_named

theorem ticked_signed (s : AuditState) (scan : List TraceRow) :
    (s.ticked signer config scan now).checkpoints.drop s.checkpoints.length =
      (tick signer config s.states scan now).written :=
  drop_left

section

variable (signer : Ed25519Signer) (config : CheckpointerConfig) (now : String → Datetime)

theorem ticked_of_noRows (hperm : scan.Perm s.chain.rows)
    (hnone : own s.chain.rows analystId = []) :
    ((s.ticked signer config scan now).states analystId = s.states analystId ∧
      ofAnalyst (tick signer config s.states scan now).written analystId = []) ∧
    latest (s.ticked signer config scan now).checkpoints analystId =
      latest s.checkpoints analystId := by
  have hscan : own scan analystId = [] := by
    have hown := own_perm analystId hperm
    rw [hnone] at hown
    exact hown.eq_nil
  have htick := tick_of_noRows signer config now s.states hscan
  exact ⟨htick, latest_append_of_none htick.2⟩

theorem AuditInv.latest_ticked (hinv : AuditInv analystId s)
    (hfirst : firstBy startedLater (own scan analystId) = some first) :
    ∃ checkpoint,
      latest (s.ticked signer config scan now).checkpoints analystId = some checkpoint ∧
      checkpoint.chainHeadHash = first.receiptHash ∧
      (checkpoint.traceCount = (own scan analystId).length ∨
        latest s.checkpoints analystId = some checkpoint) := by
  cases (tick_of_first signer config now s.states hfirst).2 with
  | inl hwritten => exact ⟨_, latest_append_of_single hwritten, rfl, .inl rfl⟩
  | inr hpassed =>
    obtain ⟨checkpoint, hlatest, hhash⟩ := hinv.remembered _ hpassed.2
    exact ⟨checkpoint, (latest_append_of_none hpassed.1).trans hlatest, hhash, .inr hlatest⟩

end

section

variable (hinv : AuditInv analystId s)

include hinv

theorem AuditInv.signsChainHead (hlast : (own s.chain.rows analystId).getLast? = some last)
    (hfirst : firstBy startedLater (own scan analystId) = some last) :
    SignsChainHead analystId s (.tick scan now) (s.ticked signer config scan now) := by
  intro scan' now' hlabel
  rw [ticked_signed]
  constructor
  · intro checkpoint hcheckpoint
    rw [hinv.branch.head_nil hlast]
    cases (tick_of_first signer config now s.states hfirst).2 with
    | inl hwritten =>
      rw [hwritten, mem_singleton] at hcheckpoint
      rw [hcheckpoint]
      rfl
    | inr hpassed =>
      rw [hpassed.1] at hcheckpoint
      simp at hcheckpoint
  · intro row hrow
    obtain ⟨checkpoint, hlatest, hhash, _⟩ := hinv.latest_ticked signer config now hfirst
    apply Exists.intro checkpoint
    constructor
    · exact hlatest
    · rw [hhash]
      exact hinv.ancestor hlast (mem_of_mem_drop hrow)

theorem AuditInv.not_signsChainHead (hlast : (own s.chain.rows analystId).getLast? = some last)
    (hfirst : firstBy startedLater (own scan analystId) = some first)
    (hmem : first ∈ own s.chain.rows analystId) (hne : first ≠ last) :
    ¬SignsChainHead analystId s (.tick scan now) (s.ticked signer config scan now) := by
  intro hsigns
  obtain ⟨hsigned, hcovered⟩ := hsigns scan now rfl
  have hlastMem := mem_of_getLast? hlast
  have hhash : first.receiptHash ≠ last.receiptHash := fun heq =>
    hne (inj_on_of_nodup_map (hinv.branch.distinct.receipts analystId) hmem hlastMem heq)
  cases (tick_of_first signer config now s.states hfirst).2 with
  | inl hwritten =>
    rw [ticked_signed, hwritten] at hsigned
    have heq := hsigned _ mem_cons_self
    rw [hinv.branch.head_nil hlast] at heq
    exact hhash heq
  | inr hpassed =>
    obtain ⟨checkpoint, hlatest, hheld⟩ := hinv.remembered _ hpassed.2
    have hcount : checkpoint.traceCount ≠ (own s.chain.rows analystId).length := by
      intro hall
      rw [hinv.signed checkpoint last hlatest hlast hall] at hheld
      exact hhash hheld.symm
    have hbound := hinv.covered
    rw [latestCount_of_latest hlatest] at hbound hcovered
    have hdrop : last ∈ (own s.chain.rows analystId).drop checkpoint.traceCount := by
      apply mem_of_getLast?
      rw [getLast?_drop, if_neg (by omega), hlast]
    obtain ⟨other, hother, hancestor⟩ := hcovered last hdrop
    rw [AuditState.ticked, latest_append_of_none hpassed.1, hlatest, some.injEq] at hother
    rw [← hother, hheld] at hancestor
    exact hinv.not_ancestor hlast hmem hne hancestor

theorem AuditInv.signsChainHead_iff (hperm : scan.Perm s.chain.rows) :
    SignsChainHead analystId s (.tick scan now) (s.ticked signer config scan now) ↔
      LastReadNewest analystId s (.tick scan now) (s.ticked signer config scan now) := by
  cases hlast : (own s.chain.rows analystId).getLast? with
  | none =>
    have hnone := getLast?_eq_none_iff.mp hlast
    have hticked := ticked_of_noRows signer config now hperm hnone
    constructor
    · intro _ _ _ _ last hsome
      rw [hlast] at hsome
      simp at hsome
    · intro _ scan' now' hlabel
      rw [ticked_signed, hticked.1.2, hnone, drop_nil]
      exact ⟨by simp, by simp⟩
  | some last =>
    have hown := own_perm analystId hperm
    obtain ⟨first, hfirst⟩ := firstBy_isSome startedLater (hown.mem_iff.mpr (mem_of_getLast? hlast))
    have hmem := hown.mem_iff.mp (firstBy_mem hfirst)
    rw [← hinv.firstBy_eq_last_iff hperm hlast, hfirst, some.injEq]
    constructor
    · intro hsigns
      by_contra hne
      exact hinv.not_signsChainHead hlast hfirst hmem hne hsigns
    · intro heq
      subst heq
      exact hinv.signsChainHead hlast hfirst

theorem AuditInv.ticked (hperm : scan.Perm s.chain.rows)
    (hnewest : LastReadNewest analystId s (.tick scan now) next) :
    AuditInv analystId (s.ticked signer config scan now) := by
  have hown := own_perm analystId hperm
  cases hlast : (own s.chain.rows analystId).getLast? with
  | none =>
    have hnone := getLast?_eq_none_iff.mp hlast
    have hticked := ticked_of_noRows signer config now hperm hnone
    exact
      { branch := hinv.branch
        remembered := by
          rw [hticked.1.1, hticked.2]
          exact hinv.remembered
        covered := by
          rw [latestCount_congr hticked.2]
          exact hinv.covered
        signed := by
          rw [hticked.2]
          exact hinv.signed }
  | some last =>
    have hfirst := (hinv.firstBy_eq_last_iff hperm hlast).mpr hnewest
    obtain ⟨checkpoint, hlatest, hhash, hcount⟩ := hinv.latest_ticked signer config now hfirst
    have hheld := (tick_of_first signer config now s.states hfirst).1
    exact
      { branch := hinv.branch
        remembered := by
          intro head hhead
          rw [AuditState.ticked, hheld, some.injEq] at hhead
          exact ⟨checkpoint, hlatest, hhash.trans hhead⟩
        covered := by
          rw [latestCount_of_latest hlatest]
          cases hcount with
          | inl hall =>
            rw [hall]
            exact hown.length_eq.le
          | inr hold =>
            have hcovered := hinv.covered
            rw [latestCount_of_latest hold] at hcovered
            exact hcovered
        signed := by
          intro other last' hother hlast' _
          have hsame : last' = last := by
            have heq : (own s.chain.rows analystId).getLast? = some last' := hlast'
            rw [hlast, some.injEq] at heq
            exact heq.symm
          rw [hlatest, some.injEq] at hother
          rw [← hother, hhash, hsame] }

end

end

/-! ## Runs -/

variable {next : AuditState} {label : AuditStep}

section

variable (hinv : AuditInv analystId s) (hstep : auditStep sha signer config s label = some next)

include hinv hstep

theorem auditInv_step (hfresh : FreshAuditHash sha s label next)
    (hnewest : LastReadNewest analystId s label next) : AuditInv analystId next := by
  cases label with
  | chain chainLabel =>
    obtain ⟨chain, hchain, hnext⟩ := map_eq_some_iff.mp hstep
    subst hnext
    exact hinv.chain hchain (hfresh chainLabel rfl)
  | restartCheckpointer =>
    obtain rfl := some.inj hstep
    exact hinv.restartCheckpointer
  | tick scan now =>
    simp only [auditStep, ite_none_right_eq_some, some.injEq] at hstep
    obtain ⟨hperm, hnext⟩ := hstep
    subst hnext
    exact hinv.ticked hperm hnewest

theorem signsChainHead_step_iff :
    SignsChainHead analystId s label next ↔ LastReadNewest analystId s label next := by
  cases label with
  | chain chainLabel =>
    constructor
    · exact fun _ _ _ hlabel => absurd hlabel (by simp)
    · exact fun _ _ _ hlabel => absurd hlabel (by simp)
  | restartCheckpointer =>
    constructor
    · exact fun _ _ _ hlabel => absurd hlabel (by simp)
    · exact fun _ _ _ hlabel => absurd hlabel (by simp)
  | tick scan now =>
    simp only [auditStep, ite_none_right_eq_some, some.injEq] at hstep
    obtain ⟨hperm, hnext⟩ := hstep
    subst hnext
    exact hinv.signsChainHead_iff hperm

end

/-- Along any run of restarts, records and ticks from an empty table, every
tick signs the head of the analyst's chain and covers the rows recorded since
the checkpoint before it exactly when at every tick the row recorded last is
the newest of those the tick reads. -/
theorem checkpoints_sign_head_iff (sha : ReceiptPayload → String) (signer : Ed25519Signer)
    (config : CheckpointerConfig) (analystId : String) {labels : List AuditStep}
    (hfresh : StepsSatisfy (auditStep sha signer config) (FreshAuditHash sha) .initial labels) :
    StepsSatisfy (auditStep sha signer config) (SignsChainHead analystId) .initial labels ↔
      StepsSatisfy (auditStep sha signer config) (LastReadNewest analystId) .initial labels := by
  have hkeep : ∀ s label next, AuditInv analystId s →
      auditStep sha signer config s label = some next →
      FreshAuditHash sha s label next →
      LastReadNewest analystId s label next → AuditInv analystId next :=
    fun _ _ _ hinv hstep hallowed hnewest => auditInv_step hinv hstep hallowed hnewest
  have hiff : ∀ s label next, AuditInv analystId s →
      auditStep sha signer config s label = some next →
      FreshAuditHash sha s label next →
      (SignsChainHead analystId s label next ↔ LastReadNewest analystId s label next) :=
    fun _ _ _ hinv hstep _ => signsChainHead_step_iff hinv hstep
  exact stepsSatisfy_iff_of_invariant hkeep hiff (auditInv_initial analystId) hfresh

def didSigner : Ed25519Signer where
  did := "did:key:audit"
  sign := fun payload => payload.chainHeadHash

def firstRow : TraceRow :=
  traceRow (sampleRun 1 "a" 10) (zeroHash ++ "*") zeroHash

def secondRow : TraceRow :=
  traceRow (sampleRun 2 "a" 5) (zeroHash ++ "**") (zeroHash ++ "*")

theorem checkpoints_sign_head_iff_oneRun :
    StepsSatisfy (auditStep prevStar didSigner {}) (SignsChainHead "a")
        .initial
        [.chain (.record (sampleRun 1 "a" 10)), .tick [firstRow] fun _ => 11] ↔
      StepsSatisfy (auditStep prevStar didSigner {}) (LastReadNewest "a")
        .initial
        [.chain (.record (sampleRun 1 "a" 10)), .tick [firstRow] fun _ => 11] := by
  have hfresh : StepsSatisfy (auditStep prevStar didSigner {})
      (FreshAuditHash prevStar) .initial
      [.chain (.record (sampleRun 1 "a" 10)), .tick [firstRow] fun _ => 11] := by
    refine ⟨?_, ?_, trivial⟩
    · intro chainLabel hlabel
      injection hlabel with hlabel
      subst hlabel
      exact ⟨by decide, by decide⟩
    · exact fun _ hlabel => absurd hlabel (by simp)
  exact checkpoints_sign_head_iff prevStar didSigner {} "a" hfresh

/-- A run which started before the one recorded ahead of it: the tick signs
the hash of the first row, which the second one names. -/
theorem checkpoint_signs_nonTip :
    ∃ s next,
      run (auditStep prevStar didSigner {}) .initial
          [.chain (.record (sampleRun 1 "a" 10)), .chain (.record (sampleRun 2 "a" 5))] = some s ∧
        auditStep prevStar didSigner {} s (.tick [firstRow, secondRow] fun _ => 11) = some next ∧
        next.checkpoints.map (fun c => c.chainHeadHash) = [firstRow.receiptHash] ∧
        s.chain.head "a" = secondRow.receiptHash ∧
        ¬SignsChainHead "a" s (.tick [firstRow, secondRow] fun _ => 11)
          next := by
  refine ⟨_, _, rfl, rfl, by decide, by decide, ?_⟩
  intro hsigns
  have hhash := (hsigns _ _ rfl).1 _ mem_cons_self
  exact absurd hhash (by decide)

end Legba.Receipts
