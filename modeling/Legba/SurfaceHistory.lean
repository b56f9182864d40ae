import Legba.ContentionClusters
import Legba.ContentionScan
import Legba.LabelledRun

/-!
# The surface history of a group

A ledger of what one group has surfaced is kept beside the stored row: the
value which stands, as it was stamped when it first surfaced, and the values
which no longer stand.  The row and its history say the same as long as the
representative fact moves exactly when the value does and no surfaced group is
collapsed.
-/

namespace Legba.Contention

open LabelledRun Option

variable {K : Type*} [Field K] [LinearOrder K]

structure Surfacing where
  value : Option String
  surfacedBy : Option Decider
  surfacedAt : Option Datetime
  rationale : Option Rationale
  deriving DecidableEq

def SurfaceRecord.surfacing (record : SurfaceRecord) : Surfacing where
  value := record.surfacedValue
  surfacedBy := record.surfacedBy
  surfacedAt := record.surfacedAt
  rationale := record.rationale

def Group.surfacing (group : Group) : Surfacing where
  value := group.surfacedValue
  surfacedBy := group.surfacedBy
  surfacedAt := group.surfacedAt
  rationale := group.rationale

structure Ledger where
  standing : Option Surfacing := none
  past : List Surfacing := []
  deriving DecidableEq

def Ledger.withdraw (ledger : Ledger) : Ledger where
  standing := none
  past := ledger.standing.toList ++ ledger.past

def Ledger.surface (fresh : Surfacing) (ledger : Ledger) : Ledger :=
  if ledger.standing.map Surfacing.value = some fresh.value then ledger
  else { ledger.withdraw with standing := some fresh }

def Ledger.decide (decision : SurfaceDecision) (now : Datetime) (ledger : Ledger) : Ledger :=
  match decision.winner with
  | none => ledger.withdraw
  | some winner =>
    ledger.surface
      { value := some winner.valueKey
        surfacedBy := decision.surfacedBy
        surfacedAt := some now
        rationale := decision.rationale }

def Ledger.ofGroup (group : Group) : Ledger where
  standing := if group.status = .surfaced then some group.surfacing else none
  past := group.history.map SurfaceRecord.surfacing

def Ledger.ofSlot (slot : Slot) : Ledger :=
  slot.group.elim {} Ledger.ofGroup

section

variable (A : Arbiter K) (prior : Group) (nonJunk junk : List ValueAgg)
variable (decision : SurfaceDecision) (now : Datetime)
variable (fingerprint : Fingerprint)

def freshSurfacing : Surfacing where
  value := decision.winner.map ValueAgg.valueKey
  surfacedBy := decision.surfacedBy
  surfacedAt := if decision.winner.isSome then some now else none
  rationale := decision.rationale

theorem finalizeGroup_of_not_surfaced (hprior : prior.status ≠ .surfaced) :
    let group := A.finalizeGroup prior nonJunk junk decision now fingerprint
    group.surfacing = freshSurfacing decision now ∧ group.history = prior.history := by
  simp [Arbiter.finalizeGroup, priorSurfaceRecord, hprior, Group.surfacing, freshSurfacing]

variable {prior} {factId : Uuid}

section

variable (hprior : prior.status = .surfaced) (hfact : prior.surfacedFactId = some factId)

include hprior hfact

theorem finalizeGroup_of_changed
    (hchanged : decision.winner.bind ValueAgg.representativeFactId ≠ some factId)
    (hcap : prior.history.length < surfaceHistoryCap) :
    let group := A.finalizeGroup prior nonJunk junk decision now fingerprint
    group.surfacing = freshSurfacing decision now ∧
      group.history.map SurfaceRecord.surfacing =
        prior.surfacing :: prior.history.map SurfaceRecord.surfacing := by
  have hkeep (entry : SurfaceRecord) :
      (entry :: prior.history).eraseIdx surfaceHistoryCap = entry :: prior.history :=
    List.eraseIdx_of_length_le (Nat.succ_le_of_lt hcap)
  simp [Arbiter.finalizeGroup, priorSurfaceRecord, hprior, hfact, hchanged.symm,
    hkeep, Group.surfacing, freshSurfacing, SurfaceRecord.surfacing]

theorem finalizeGroup_of_same
    (hsame : decision.winner.bind ValueAgg.representativeFactId = some factId)
    (hby : prior.surfacedBy.isSome) (hat : prior.surfacedAt.isSome)
    (hwhy : prior.rationale.isSome) :
    let group := A.finalizeGroup prior nonJunk junk decision now fingerprint
    group.surfacing = { prior.surfacing with
        value := decision.winner.map ValueAgg.valueKey } ∧
      group.history = prior.history := by
  have hwinner : decision.winner.isSome := by
    cases hnone : decision.winner with
    | none => simp [hnone] at hsame
    | some winner => rfl
  simp [Arbiter.finalizeGroup, priorSurfaceRecord, hprior, hfact, hsame,
    hwinner, hat, Group.surfacing, or_of_isSome hby, or_of_isSome hwhy]

end

end

/-! ## Runs over one group key -/

structure Account where
  slot : Slot := {}
  ledger : Ledger := {}

/-- A pass visits the group with its current rows, or its sweep collapses
it. -/
inductive AccountLabel where
  | visit (rows : List FactRow) (now : Datetime) (llm : Bool) (turn : LlmTurn)
  | sweep

namespace Account

variable (A : Arbiter K)

def step (state : Account) : AccountLabel → Option Account
  | .visit rows now llm turn =>
    if A.skips rows now state.slot then some state
    else
      some
        { slot := A.visitGroup llm rows now turn state.slot
          ledger :=
            if (A.nonJunk rows).length < 2 then state.ledger.withdraw
            else state.ledger.decide (A.groupDecision llm rows now turn state.slot) now }
  | .sweep =>
    some
      { slot := A.collapseSlot state.slot, ledger := state.ledger.withdraw }

def Agrees (state : Account) : Prop :=
  Ledger.ofSlot state.slot = state.ledger

/-- A surfaced group is not collapsed, and a winner has the surfaced value
exactly when it has the surfaced fact. -/
def Faithful (state : Account) (label : AccountLabel) (_ : Account) : Prop :=
  match label with
  | .visit rows now llm turn =>
    A.skips rows now state.slot = false →
      if (A.nonJunk rows).length < 2 then state.ledger.standing = none
      else ∀ winner ∈ (A.groupDecision llm rows now turn state.slot).winner,
        ∀ standing ∈ state.ledger.standing,
          (standing.value = some winner.valueKey ↔
            state.slot.group.bind Group.surfacedFactId = winner.representativeFactId)
  | .sweep => state.ledger.standing = none

def WithinCap (_ : Account) (_ : AccountLabel) (next : Account) : Prop :=
  next.ledger.past.length < surfaceHistoryCap

def Stamped (state : Account) : Prop :=
  ∀ group, state.slot.group = some group → group.status = .surfaced →
    group.surfacedFactId.isSome = true ∧ group.surfacedBy.isSome = true ∧
      group.surfacedAt.isSome = true ∧ group.rationale.isSome = true

structure Inv (state : Account) : Prop where
  agrees : Agrees state
  stamped : Stamped state

theorem inv_start : Inv {} where
  agrees := rfl
  stamped := fun _ hgroup => by cases hgroup

/-! ### A collapse -/

theorem withdraw_eq_iff (ledger : Ledger) : { ledger with standing := none } = ledger.withdraw ↔
      ledger.standing = none := by
  obtain ⟨standing, past⟩ := ledger
  cases standing <;> simp [Ledger.withdraw]

theorem ofSlot_collapse (A : Arbiter K) (slot : Slot) :
    Ledger.ofSlot (A.collapseSlot slot) =
      { Ledger.ofSlot slot with standing := none } := by
  unfold Arbiter.collapseSlot Ledger.ofSlot
  cases slot.group <;> rfl

variable {state next : Account} {now : Datetime} {label : AccountLabel}

theorem agrees_collapse_iff (A : Arbiter K) (hagrees : Agrees state) :
    Agrees
        { slot := A.collapseSlot state.slot, ledger := state.ledger.withdraw } ↔
      state.ledger.standing = none := by
  unfold Agrees at hagrees ⊢
  rw [ofSlot_collapse, hagrees]
  exact withdraw_eq_iff state.ledger

theorem stamped_collapse (A : Arbiter K) (slot : Slot) (ledger : Ledger) :
    Stamped { slot := A.collapseSlot slot, ledger := ledger } := by
  intro group hgroup hstatus
  obtain ⟨prior, _, rfl⟩ := map_eq_some_iff.mp hgroup
  cases hstatus

/-! ### A decision -/

theorem ofGroup_openGroup (slot : Slot) (now : Datetime) :
    Ledger.ofGroup (Arbiter.openGroup slot.group now) = Ledger.ofSlot slot := by
  unfold Ledger.ofSlot Arbiter.openGroup
  cases slot.group with
  | none => rfl
  | some group =>
    dsimp only
    split
    · rename_i hcollapsed
      simp [Ledger.ofGroup, hcollapsed]
    · rfl

section

variable (A : Arbiter K) {prior : Group} {nonJunk junk : List ValueAgg}
variable {decision : SurfaceDecision} {now : Datetime}
variable {fingerprint : Fingerprint}

theorem decide_of_none (hprior : prior.status ≠ .surfaced) :
    Ledger.ofGroup (A.finalizeGroup prior nonJunk junk decision now fingerprint) =
      (Ledger.ofGroup prior).decide decision now := by
  obtain ⟨hsurfacing, hhistory⟩ := finalizeGroup_of_not_surfaced A prior
    nonJunk junk decision now fingerprint hprior
  unfold Ledger.ofGroup Ledger.decide
  rw [Arbiter.finalizeGroup_status, hsurfacing, hhistory, if_neg hprior]
  cases hwinner : decision.winner with
  | none => simp [Ledger.withdraw]
  | some winner => simp [Ledger.surface, Ledger.withdraw, freshSurfacing, hwinner]

theorem decide_of_surfaced {factId : Uuid} (hprior : prior.status = .surfaced)
    (hfact : prior.surfacedFactId = some factId) (hby : prior.surfacedBy.isSome)
    (hat : prior.surfacedAt.isSome) (hwhy : prior.rationale.isSome)
    (hcap : prior.history.length < surfaceHistoryCap) :
    Ledger.ofGroup
        (A.finalizeGroup prior nonJunk junk decision now fingerprint) =
        (Ledger.ofGroup prior).decide decision now ↔
      ∀ winner ∈ decision.winner, (prior.surfacedValue = some winner.valueKey ↔
        some factId = winner.representativeFactId) := by
  have hstanding : Ledger.ofGroup prior =
      { standing := some prior.surfacing
        past := prior.history.map SurfaceRecord.surfacing } := by
    simp [Ledger.ofGroup, hprior]
  rw [hstanding]
  by_cases hsame : decision.winner.bind ValueAgg.representativeFactId = some factId
  · obtain ⟨hsurfacing, hhistory⟩ := finalizeGroup_of_same A nonJunk junk
      decision now fingerprint hprior hfact hsame hby hat hwhy
    obtain ⟨winner, hwinner, hrep⟩ := bind_eq_some_iff.mp hsame
    unfold Ledger.ofGroup Ledger.decide Ledger.surface
    rw [Arbiter.finalizeGroup_status, hsurfacing, hhistory, hwinner]
    by_cases hvalue : prior.surfacedValue = some winner.valueKey
    · simp [Group.surfacing, hvalue, hrep]
    · simp [Group.surfacing, hvalue, hrep, Ledger.withdraw]
  · obtain ⟨hsurfacing, hhistory⟩ := finalizeGroup_of_changed A nonJunk junk
      decision now fingerprint hprior hfact hsame hcap
    unfold Ledger.ofGroup Ledger.decide Ledger.surface
    rw [Arbiter.finalizeGroup_status, hsurfacing, hhistory]
    cases hwinner : decision.winner with
    | none => simp [Ledger.withdraw]
    | some winner =>
      have hrep : some factId ≠ winner.representativeFactId := by
        simpa [hwinner, eq_comm] using hsame
      by_cases hvalue : prior.surfacedValue = some winner.valueKey
      · simp [Group.surfacing, hvalue, hrep, freshSurfacing]
      · simp [Group.surfacing, hvalue, hrep, Ledger.withdraw, freshSurfacing, hwinner]

theorem stamped_decided (hwell : decision.WellFormed nonJunk)
    (hrep : ∀ agg ∈ nonJunk, agg.representativeFactId.isSome = true) (prior : Group) :
    let group := A.finalizeGroup prior nonJunk junk decision now fingerprint
    group.status = .surfaced → group.surfacedFactId.isSome = true ∧
      group.surfacedBy.isSome = true ∧ group.surfacedAt.isSome = true ∧
        group.rationale.isSome = true := by
  intro group hstatus
  have hwinner : decision.winner.isSome := by
    by_contra hnone
    rw [Arbiter.finalizeGroup_status, if_neg hnone] at hstatus
    cases hstatus
  obtain ⟨winner, hsome⟩ := isSome_iff_exists.mp hwinner
  obtain ⟨hby, hwhy⟩ := hwell.stamped hwinner
  have hfact := hrep winner (hwell.winner_mem winner hsome)
  refine ⟨?_, ?_⟩
  · rw [Arbiter.finalizeGroup_surfacedFactId, hsome]
    exact hfact
  · simp only [group, Arbiter.finalizeGroup, hwinner, if_true]
    split
    · rename_i hstands
      rw [Bool.and_eq_true] at hstands
      simp [hby, hwhy, hstands.2]
    · simp [hby, hwhy]

end

/-! ### One step -/

theorem openGroup_of_surfaced {slot : Slot}
    (hprior : (Arbiter.openGroup slot.group now).status = .surfaced) :
    slot.group = some (Arbiter.openGroup slot.group now) := by
  unfold Arbiter.openGroup at hprior ⊢
  cases hgroup : slot.group with
  | none => simp [hgroup] at hprior
  | some group =>
    simp only [hgroup] at hprior ⊢
    split
    · rename_i hcollapsed
      simp [hcollapsed] at hprior
    · rfl

theorem past_length_le_decide (ledger : Ledger) (decision : SurfaceDecision) (now : Datetime) :
    ledger.past.length ≤ (ledger.decide decision now).past.length := by
  unfold Ledger.decide Ledger.surface Ledger.withdraw
  split
  · simp
  · split <;> simp

theorem agrees_decided_iff (A : Arbiter K) (hinv : Inv state) {rows : List FactRow} {llm : Bool}
    {turn : LlmTurn} {fingerprint : Fingerprint}
    (hcap : (state.ledger.decide (A.groupDecision llm rows now turn state.slot) now).past.length <
      surfaceHistoryCap) (hdisputed : ¬(A.nonJunk rows).length < 2) :
    Agrees
        { slot := A.processGroup llm rows now turn fingerprint state.slot
          ledger := state.ledger.decide
            (A.groupDecision llm rows now turn state.slot) now } ↔
      ∀ winner ∈ (A.groupDecision llm rows now turn state.slot).winner,
        ∀ standing ∈ state.ledger.standing,
          (standing.value = some winner.valueKey ↔
            state.slot.group.bind Group.surfacedFactId = winner.representativeFactId) := by
  have hledger := ofGroup_openGroup state.slot now
  have hagrees := hinv.agrees
  rw [hagrees] at hledger
  unfold Arbiter.processGroup
  rw [if_neg hdisputed, ← hledger]
  by_cases hprior : (Arbiter.openGroup state.slot.group now).status = .surfaced
  · have hgroup := openGroup_of_surfaced hprior
    obtain ⟨hfact, hby, hat, hwhy⟩ := hinv.stamped _ hgroup hprior
    obtain ⟨factId, hfact⟩ := isSome_iff_exists.mp hfact
    have hlength := (past_length_le_decide _ _ _).trans_lt hcap
    rw [← hledger] at hlength
    refine (decide_of_surfaced A hprior hfact hby hat hwhy
      (by simpa [Ledger.ofGroup] using hlength)).trans ?_
    have hshown : state.slot.group.bind Group.surfacedFactId = some factId := by
      rw [hgroup, bind_some]
      exact hfact
    simp only [Ledger.ofGroup, if_pos hprior, mem_some_iff, hshown, forall_eq']
    rfl
  · have hnone : (Ledger.ofGroup (Arbiter.openGroup state.slot.group now)).standing = none :=
      if_neg hprior
    rw [hnone]
    refine iff_of_true (decide_of_none A hprior) ?_
    intro _ _ standing hstanding
    cases hstanding

variable {A}

theorem agrees_step_iff (hinv : Inv state) (hstep : step A state label = some next)
    (hcap : WithinCap state label next) : Agrees next ↔ Faithful A state label next := by
  cases label with
  | sweep =>
    cases hstep
    exact agrees_collapse_iff A hinv.agrees
  | visit rows now llm turn =>
    simp only [step] at hstep
    cases hskips : A.skips rows now state.slot with
    | true =>
      rw [if_pos hskips] at hstep
      cases hstep
      simp [Faithful, hskips, hinv.agrees]
    | false =>
      rw [if_neg (by simp [hskips])] at hstep
      cases hstep
      simp only [Faithful, hskips, true_implies, Arbiter.visitGroup, Bool.false_eq_true, if_false]
      by_cases hundisputed : (A.nonJunk rows).length < 2
      · simp only [Arbiter.processGroup, if_pos hundisputed]
        exact agrees_collapse_iff A hinv.agrees
      · simp only [if_neg hundisputed]
        exact agrees_decided_iff A hinv (by simpa [WithinCap, hundisputed] using hcap) hundisputed

theorem stamped_step (hinv : Inv state) (hstep : step A state label = some next) :
    Stamped next := by
  cases label with
  | sweep =>
    cases hstep
    exact stamped_collapse A state.slot _
  | visit rows now llm turn =>
    simp only [step] at hstep
    split at hstep
    · cases hstep
      exact hinv.stamped
    · rename_i hskips
      cases hstep
      simp only [Arbiter.visitGroup, if_neg hskips]
      by_cases hundisputed : (A.nonJunk rows).length < 2
      · simp only [Arbiter.processGroup, if_pos hundisputed]
        exact stamped_collapse A state.slot _
      · intro group hgroup hstatus
        simp only [Arbiter.processGroup, if_neg hundisputed] at hgroup
        cases hgroup
        exact stamped_decided A (decideGroup_wellFormed A _ _ _ _ _ _)
          (fun agg hagg => represented_of_mem_nonJunk A hagg) _ hstatus

/-- The history of a group is its decision history exactly as long as every
pass is faithful. -/
theorem agrees_iff_faithful (A : Arbiter K) (labels : List AccountLabel)
    (hcap : StepsSatisfy (step A) WithinCap {} labels) :
    VisitsOnly (step A) Agrees {} labels ↔ StepsSatisfy (step A) (Faithful A) {} labels :=
  visitsOnly_iff_goodSteps (fun _ hinv => hinv.agrees)
    (fun _ _ _ hinv hstep hcap hgood =>
      ⟨(agrees_step_iff hinv hstep hcap).mpr hgood, stamped_step hinv hstep⟩)
    (fun _ _ _ hinv hstep hcap hbad hagrees => hbad ((agrees_step_iff hinv hstep hcap).mp hagrees))
    inv_start hcap

instance : DecidablePred Agrees :=
  fun state => decEq (Ledger.ofSlot state.slot) state.ledger

instance (state : Account) (label : AccountLabel) (next : Account) :
    Decidable (WithinCap state label next) :=
  inferInstanceAs (Decidable (_ < _))

def silent : LlmTurn where
  callsLeft := 0
  affordable := false
  reply := none

def surfacedThenCorroborated : List AccountLabel :=
  let rows := [disputed 1 "government" 0, disputed 2 "government" 0, disputed 3 "council" 0]
  [.visit rows 0 false silent, .visit (rows ++ [disputed 4 "government" 1]) 1 false silent]

theorem agrees_iff_faithful_corroborated :
    VisitsOnly (step (plainArbiter 0)) Agrees {} surfacedThenCorroborated ↔
      StepsSatisfy (step (plainArbiter 0)) (Faithful (plainArbiter 0)) {}
        surfacedThenCorroborated :=
  agrees_iff_faithful (plainArbiter 0) _ (by decide +kernel)

/-- A newer row for the same value moves its representative fact, and the
standing decision is shelved. -/
theorem not_agrees_of_corroboration :
    ¬VisitsOnly (step (plainArbiter 0)) Agrees {} surfacedThenCorroborated := by
  decide +kernel

end Account
end Legba.Contention
