import Legba.LabelledRun
import Legba.ReconcileLoop

/-!
# Does the reconcile loop converge?

Whatever earlier passes left behind, a pass all of whose calls are confirmed
retires the actors of all other versions and brings the head's actor into the
state an active, paused or retired head declares, and the passes after it have
nothing left to do.  A head in draft or configured asks for no actor: a pass
retires the other versions' actors and does nothing else.
-/

namespace Legba.Reconcile

open Descriptors (LifecycleState)
open KeyedTable LabelledRun List Option Table Prod

/-! ## What an action writes -/

section

variable {runtime : Runtime} {turn : PassTurn} {typed : AnalystBody}
variable {actorId : String} {detail : Coordinates}

@[simp] theorem rows_remember (analystId : String) :
    (runtime.remember analystId actorId).rows = runtime.rows := rfl

@[simp] theorem rows_forget (analystId : String) :
    (runtime.forget analystId actorId).rows = runtime.rows := by
  unfold Runtime.forget
  split <;> rfl

@[simp] theorem rows_publishSkills :
    (runtime.publishSkills turn typed detail).rows = runtime.rows := by
  unfold Runtime.publishSkills
  split <;> rfl

@[simp] theorem rows_wentLive :
    (runtime.wentLive turn typed actorId detail).rows = runtime.rows := by
  unfold Runtime.wentLive
  split
  · simp
  · rfl

@[simp] theorem rows_analystRetired :
    (runtime.analystRetired actorId detail).rows = runtime.rows := by
  unfold Runtime.analystRetired
  split
  · simp
  · rfl

@[simp] theorem rows_analystPaused :
    (runtime.analystPaused actorId detail).rows = runtime.rows := by
  unfold Runtime.analystPaused
  split
  · simp
  · rfl

structure Observed (rows : ActorTable) (actorId : String)
    (detail : Coordinates) (lifecycle : LifecycleState) (row : ActorRow) :
    Prop where
  version : row.descriptorVersion = detail.descriptorVersion
  lifecycle : row.lifecycle = lifecycle
  owner : (row.actorKind = detail.descriptorKind ∧ row.descriptorId = detail.descriptorId) ∨
    ∃ old, rows.row? actorId = some old ∧ row.actorKind = old.actorKind ∧
      row.descriptorId = old.descriptorId

theorem rows_writeObserved (runtime : Runtime) (action actorId : String)
    (detail : Coordinates) (lifecycle : LifecycleState) :
    ∃ row, (runtime.writeObserved action actorId detail lifecycle).rows =
        runtime.rows.put actorId row ∧
      Observed runtime.rows actorId detail lifecycle row := by
  unfold Runtime.writeObserved
  cases hrow : runtime.rows.row? actorId with
  | none => exact ⟨_, rfl, rfl, rfl, .inl ⟨rfl, rfl⟩⟩
  | some old => exact ⟨_, rfl, rfl, rfl, .inr ⟨old, hrow, rfl, rfl⟩⟩

theorem rows_call {method : ActorMethod} {follow : Runtime → Runtime}
    (hcall : turn.calls actorId ≠ .confirmed) :
    (runtime.call turn actorId method follow).1.rows = runtime.rows := by
  unfold Runtime.call
  cases houtcome : turn.calls actorId with
  | confirmed => exact absurd houtcome hcall
  | timedOut => rfl
  | raised => rfl
  | cancelled => rfl

theorem call_confirmed {method : ActorMethod} {action : String} {lifecycle : LifecycleState}
    {hook : Runtime → Runtime} (hhook : ∀ runtime, (hook runtime).rows = runtime.rows)
    (hcall : turn.calls actorId = .confirmed) :
    ∃ row, (runtime.call turn actorId method fun runtime =>
          (hook runtime).writeObserved action actorId detail lifecycle).1.rows =
        runtime.rows.put actorId row ∧
      Observed runtime.rows actorId detail lifecycle row := by
  have hrows := hhook { runtime with
    confirmed := runtime.confirmed ++ [(actorId, method)] }
  obtain ⟨row, hput, hobserved⟩ := rows_writeObserved
    (hook { runtime with
      confirmed := runtime.confirmed ++ [(actorId, method)] })
    action actorId detail lifecycle
  rw [hrows] at hput hobserved
  refine ⟨row, ?_, hobserved⟩
  unfold Runtime.call
  rw [hcall]
  exact hput

end

def ReconcileAction.actorId : ReconcileAction → String
  | .noop actorId _ => actorId
  | .createActor actorId _ _ => actorId
  | .ensureActive actorId _ => actorId
  | .transitionLifecycle actorId _ _ _ => actorId
  | .restartActor actorId _ _ => actorId
  | .retireActor actorId _ _ _ => actorId

def ReconcileAction.detail? : ReconcileAction → Option Coordinates
  | .noop _ _ => none
  | .createActor _ detail _ => some detail
  | .ensureActive _ detail => some detail
  | .transitionLifecycle _ detail _ _ => some detail
  | .restartActor _ detail _ => some detail
  | .retireActor _ detail _ _ => some detail

/-- The lifecycle an executed action writes, `none` if it writes nothing. -/
def ReconcileAction.writes (turn : PassTurn) : ReconcileAction → Option LifecycleState
  | .noop _ _ => none
  | .createActor _ _ .active => some .active
  | .createActor _ _ .paused => some .paused
  | .createActor _ _ _ => none
  | .ensureActive _ _ => if turn.suppressed then none else some .active
  | .transitionLifecycle _ _ _ .active => some .active
  | .transitionLifecycle _ _ _ .paused => some .paused
  | .transitionLifecycle _ _ _ .retired => some .retired
  | .transitionLifecycle _ _ _ _ => none
  | .restartActor _ _ _ => some .active
  | .retireActor _ _ _ _ => some .retired

section

variable {runtime : Runtime} {turn : PassTurn} {typed : AnalystBody}
variable {action : ReconcileAction}

theorem execute_of_writes_none (hwrites : action.writes turn = none) :
    execute turn typed runtime action = (runtime, .done) := by
  cases action with
  | noop actorId reason => rfl
  | createActor actorId detail target =>
    cases target with
    | active => cases hwrites
    | paused => cases hwrites
    | draft => rfl
    | configured => rfl
    | retired => rfl
  | ensureActive actorId detail =>
    cases hsuppressed : turn.suppressed with
    | true => simp [execute, hsuppressed]
    | false => simp [ReconcileAction.writes, hsuppressed] at hwrites
  | transitionLifecycle actorId detail source target =>
    cases target with
    | active => cases hwrites
    | paused => cases hwrites
    | retired => cases hwrites
    | draft => rfl
    | configured => rfl
  | restartActor actorId detail oldVersion => cases hwrites
  | retireActor actorId detail fromState headVersion => cases hwrites

theorem execute_confirmed {lifecycle : LifecycleState}
    (hwrites : action.writes turn = some lifecycle)
    (hcall : turn.calls action.actorId = .confirmed) :
    ∃ detail row, action.detail? = some detail ∧
      (execute turn typed runtime action).1.rows = runtime.rows.put action.actorId row ∧
      Observed runtime.rows action.actorId detail lifecycle row := by
  cases action with
  | noop actorId reason => cases hwrites
  | createActor actorId detail target =>
    refine ⟨detail, ?_⟩
    cases target with
    | active =>
      obtain rfl := some.inj hwrites
      obtain ⟨row, hrow⟩ := call_confirmed (fun _ => rows_wentLive) hcall
      exact ⟨row, rfl, hrow⟩
    | paused =>
      obtain rfl := some.inj hwrites
      obtain ⟨row, hrow⟩ := call_confirmed (fun _ => rows_analystPaused) hcall
      exact ⟨row, rfl, hrow⟩
    | draft => cases hwrites
    | configured => cases hwrites
    | retired => cases hwrites
  | ensureActive actorId detail =>
    refine ⟨detail, ?_⟩
    cases hsuppressed : turn.suppressed with
    | true => simp [ReconcileAction.writes, hsuppressed] at hwrites
    | false =>
      simp only [ReconcileAction.writes, hsuppressed, Bool.false_eq_true,
        if_false, some.injEq] at hwrites
      subst lifecycle
      obtain ⟨row, hrow⟩ := call_confirmed (fun _ => rows_wentLive) hcall
      refine ⟨row, rfl, ?_⟩
      simp only [execute, hsuppressed, Bool.false_eq_true, if_false]
      exact hrow
  | transitionLifecycle actorId detail source target =>
    refine ⟨detail, ?_⟩
    cases target with
    | active =>
      obtain rfl := some.inj hwrites
      obtain ⟨row, hrow⟩ := call_confirmed (fun _ => rows_wentLive) hcall
      exact ⟨row, rfl, hrow⟩
    | paused =>
      obtain rfl := some.inj hwrites
      obtain ⟨row, hrow⟩ := call_confirmed (fun _ => rows_analystPaused) hcall
      exact ⟨row, rfl, hrow⟩
    | retired =>
      obtain rfl := some.inj hwrites
      obtain ⟨row, hrow⟩ := call_confirmed (fun _ => rows_analystRetired) hcall
      exact ⟨row, rfl, hrow⟩
    | draft => cases hwrites
    | configured => cases hwrites
  | restartActor actorId detail oldVersion =>
    refine ⟨detail, ?_⟩
    obtain rfl := some.inj hwrites
    obtain ⟨row, hrow⟩ := call_confirmed (fun _ => rfl) hcall
    exact ⟨row, rfl, hrow⟩
  | retireActor actorId detail fromState headVersion =>
    refine ⟨detail, ?_⟩
    obtain rfl := some.inj hwrites
    obtain ⟨row, hrow⟩ := call_confirmed (fun _ => rows_analystRetired) hcall
    exact ⟨row, rfl, hrow⟩

theorem rows_execute_of_not_confirmed (hcall : turn.calls action.actorId ≠ .confirmed) :
    (execute turn typed runtime action).1.rows = runtime.rows := by
  cases action with
  | noop actorId reason => rfl
  | createActor actorId detail target =>
    cases target with
    | active => exact rows_call hcall
    | paused => exact rows_call hcall
    | draft => rfl
    | configured => rfl
    | retired => rfl
  | ensureActive actorId detail =>
    simp only [execute]
    split
    · rfl
    · exact rows_call hcall
  | transitionLifecycle actorId detail source target =>
    cases target with
    | active => exact rows_call hcall
    | paused => exact rows_call hcall
    | retired => exact rows_call hcall
    | draft => rfl
    | configured => rfl
  | restartActor actorId detail oldVersion => exact rows_call hcall
  | retireActor actorId detail fromState headVersion => exact rows_call hcall

theorem rows_execute (typed : AnalystBody) (runtime : Runtime)
    (turn : PassTurn) (action : ReconcileAction) :
    (execute turn typed runtime action).1.rows = runtime.rows ∨
      ∃ detail lifecycle row, action.detail? = some detail ∧
        (execute turn typed runtime action).1.rows = runtime.rows.put action.actorId row ∧
        Observed runtime.rows action.actorId detail lifecycle row := by
  cases hwrites : action.writes turn with
  | none =>
    rw [execute_of_writes_none hwrites]
    exact .inl rfl
  | some lifecycle =>
    by_cases hcall : turn.calls action.actorId = .confirmed
    · obtain ⟨detail, row, hwritten⟩ := execute_confirmed hwrites hcall
      exact .inr ⟨detail, lifecycle, row, hwritten⟩
    · exact .inl (rows_execute_of_not_confirmed hcall)

end

/-! ## Rows and versions -/

section

variable {setting : Setting} {versions : Version → Prop}
variable {runtime : Runtime} {turn : PassTurn} {version : Version}
variable {lifecycle : LifecycleState}

/-- Every row is one of the descriptor's, under the actor id of a version
which was the head. -/
def Kept (setting : Setting) (versions : Version → Prop) (rows : ActorTable) :
    Prop :=
  ∀ actorId row, rows.row? actorId = some row →
    row.actorKind = setting.kind ∧
      row.descriptorId = setting.descriptorId ∧
      actorId = actorIdOf setting.kind setting.descriptorId row.descriptorVersion ∧
      versions row.descriptorVersion

def Concerns (setting : Setting) (versions : Version → Prop) (action : ReconcileAction) : Prop :=
  ∀ detail, action.detail? = some detail →
    detail.descriptorKind = setting.kind ∧
      detail.descriptorId = setting.descriptorId ∧
      action.actorId = actorIdOf setting.kind setting.descriptorId detail.descriptorVersion ∧
      versions detail.descriptorVersion

theorem Kept.execute {action : ReconcileAction} (typed : AnalystBody) (turn : PassTurn)
    (hkept : Kept setting versions runtime.rows) (hconcerns : Concerns setting versions action) :
    Kept setting versions (execute turn typed runtime action).1.rows := by
  rcases rows_execute typed runtime turn action with
    hrows | ⟨detail, lifecycle, row, hdetail, hrows, hobserved⟩
  · rw [hrows]
    exact hkept
  · obtain ⟨hkind, hid, hactor, hversion⟩ := hconcerns detail hdetail
    rw [hrows]
    intro actorId found hfound
    rcases row?_put_eq_some.mp hfound with ⟨rfl, rfl⟩ | ⟨_, hold⟩
    · rw [hobserved.version]
      rcases hobserved.owner with ⟨hnewKind, hnewId⟩ | ⟨old, hrow, hsame⟩
      · exact ⟨hnewKind.trans hkind, hnewId.trans hid, hactor, hversion⟩
      · obtain ⟨holdKind, holdId, _⟩ := hkept _ _ hrow
        exact ⟨hsame.1.trans holdKind, hsame.2.trans holdId, hactor, hversion⟩
    · exact hkept actorId found hold

def Sibling (setting : Setting) (versions : Version → Prop) (sibling : String × ActorRow) : Prop :=
  sibling.1 = actorIdOf setting.kind setting.descriptorId sibling.2.descriptorVersion ∧
    versions sibling.2.descriptorVersion

variable {sibling : String × ActorRow} {record : Option ActorRow}
  {desired : DesiredState}

theorem concerns_siblingRetire (version : Version) (lifecycle : LifecycleState)
    (hsibling : Sibling setting versions sibling) :
    Concerns setting versions (siblingRetire (setting.desired version lifecycle) sibling) := by
  intro detail hdetail
  obtain rfl := some.inj hdetail
  exact ⟨rfl, rfl, hsibling⟩

theorem detail_commonReconcile {actorId : String} :
    (commonReconcile actorId record desired).detail? = none ∨
      (commonReconcile actorId record desired).detail? = some desired.coordinates := by
  unfold commonReconcile
  split
  · exact .inl rfl
  · split
    · exact .inl rfl
    · exact .inr rfl
  · exact .inr rfl
  · split
    · exact .inr rfl
    · split
      · exact .inr rfl
      · split
        · exact .inr rfl
        · exact .inl rfl

theorem actorId_commonReconcile {actorId : String} :
    (commonReconcile actorId record desired).actorId = actorId := by
  unfold commonReconcile
  split
  · rfl
  · split <;> rfl
  · rfl
  · split
    · rfl
    · split
      · rfl
      · split <;> rfl

theorem concerns_commonReconcile (hversion : versions version) (record : Option ActorRow) :
    Concerns setting versions
      (commonReconcile (setting.desired version lifecycle).actorId record
        (setting.desired version lifecycle)) := by
  intro detail hdetail
  rw [actorId_commonReconcile]
  rcases detail_commonReconcile with hnone | hsame
  · rw [hnone] at hdetail
    cases hdetail
  · rw [hsame] at hdetail
    obtain rfl := some.inj hdetail
    exact ⟨rfl, rfl, rfl, hversion⟩

theorem sweepSiblings_induction {motive : Runtime → Prop} (siblings : List (String × ActorRow))
    (hretire : ∀ runtime, ∀ sibling ∈ siblings, motive runtime → motive (execute turn desired.body
      runtime (siblingRetire desired sibling)).1) (hstart : motive runtime) :
    motive (sweepSiblings turn desired runtime siblings).1 := by
  induction siblings generalizing runtime with
  | nil => exact hstart
  | cons sibling rest ih =>
    have hnext := hretire runtime sibling mem_cons_self hstart
    have hrest : ∀ runtime, ∀ sibling ∈ rest, motive runtime →
        motive (execute turn desired.body runtime (siblingRetire desired sibling)).1 :=
      fun runtime other hother => hretire runtime other (mem_cons_of_mem _ hother)
    unfold Reconcile.sweepSiblings
    dsimp only
    split
    case h_1 next heq =>
      rw [heq] at hnext
      exact hnext
    case h_2 next result _ heq =>
      rw [heq] at hnext
      exact ih hrest hnext

theorem Kept.sweepSiblings (turn : PassTurn) (version : Version)
    (lifecycle : LifecycleState) (siblings : List (String × ActorRow))
    (hsiblings : ∀ sibling ∈ siblings, Sibling setting versions sibling)
    (hkept : Kept setting versions runtime.rows) :
    Kept setting versions
      (sweepSiblings turn (setting.desired version lifecycle) runtime siblings).1.rows := by
  refine sweepSiblings_induction (motive := fun runtime =>
    Kept setting versions runtime.rows) siblings ?_ hkept
  intro runtime sibling hsibling hkept
  exact hkept.execute (setting.desired version lifecycle).body turn
    (concerns_siblingRetire version lifecycle (hsiblings sibling hsibling))

theorem sibling_of_listLiveSiblings (hkept : Kept setting versions runtime.rows) {excluded : String}
    (hsibling : sibling ∈ listLiveSiblings runtime.rows setting.kind setting.descriptorId
      excluded) : Sibling setting versions sibling := by
  obtain ⟨hlive, _⟩ := mem_filter.mp hsibling
  obtain ⟨hrow, _⟩ := mem_selectMatching.mp hlive
  exact (hkept _ _ hrow).2.2

theorem Kept.runOnce (turn : PassTurn) (hversion : versions version)
    (hkept : Kept setting versions runtime.rows) :
    Kept setting versions (runOnce turn (setting.desired version lifecycle) runtime).1.rows := by
  have hswept := hkept.sweepSiblings turn version lifecycle
    (listLiveSiblings runtime.rows setting.kind setting.descriptorId
      (setting.desired version lifecycle).actorId)
    fun sibling hsibling => sibling_of_listLiveSiblings hkept hsibling
  unfold Reconcile.runOnce
  dsimp only
  split
  · exact hswept.execute _ turn (concerns_commonReconcile hversion _)
  · exact hswept

end

/-! ## A pass all of whose calls are confirmed -/

section

variable {setting : Setting} {versions : Version → Prop}
variable {runtime : Runtime} {turn : PassTurn} {version : Version}
variable {lifecycle : LifecycleState}

variable {desired : DesiredState}

theorem execute_siblingRetire_done {sibling : String × ActorRow}
    {typed : AnalystBody} (hturn : ∀ actorId, turn.calls actorId = .confirmed) :
    (execute turn typed runtime (siblingRetire desired sibling)).2 = .done := by
  simp only [siblingRetire, execute, Runtime.retire, Runtime.call, hturn]

theorem sweepSiblings_cons (hturn : ∀ actorId, turn.calls actorId = .confirmed)
    (desired : DesiredState) (runtime : Runtime) (sibling : String × ActorRow)
    (rest : List (String × ActorRow)) :
    sweepSiblings turn desired runtime (sibling :: rest) =
      ((sweepSiblings turn desired (execute turn desired.body runtime
          (siblingRetire desired sibling)).1 rest).1,
        siblingRetire desired sibling ::
          (sweepSiblings turn desired (execute turn desired.body runtime
            (siblingRetire desired sibling)).1 rest).2.1,
        (sweepSiblings turn desired (execute turn desired.body runtime
          (siblingRetire desired sibling)).1 rest).2.2) := by
  have hdone : (execute turn desired.body runtime (siblingRetire desired sibling)).2 = .done :=
    execute_siblingRetire_done hturn
  rw [sweepSiblings]
  generalize execute turn desired.body runtime (siblingRetire desired sibling) = next at hdone
  obtain ⟨next, result⟩ := next
  subst hdone
  rfl

structure Swept (desired : DesiredState) (before : Runtime)
    (siblings : List (String × ActorRow))
    (result : Runtime × List ReconcileAction × Bool) : Prop where
  finished : result.2.2 = true
  emitted : result.2.1 = siblings.map (siblingRetire desired)
  others : ∀ actorId, actorId ∉ siblings.map fst →
    result.1.rows.row? actorId = before.rows.row? actorId
  retired : ∀ actorId row, actorId ∈ siblings.map fst →
    result.1.rows.row? actorId = some row → row.lifecycle = .retired

section

variable (hturn : ∀ actorId, turn.calls actorId = .confirmed) (desired : DesiredState)

include hturn

theorem sweepSiblings_confirmed (siblings : List (String × ActorRow)) (runtime : Runtime) :
    Swept desired runtime siblings (sweepSiblings turn desired runtime siblings) := by
  induction siblings generalizing runtime with
  | nil =>
    refine ⟨rfl, rfl, fun _ _ => rfl, ?_⟩
    intro actorId row hmem
    cases hmem
  | cons sibling rest ih =>
    have hwritten : ∃ detail row,
        (siblingRetire desired sibling).detail? = some detail ∧
        (execute turn desired.body runtime
          (siblingRetire desired sibling)).1.rows = runtime.rows.put sibling.1 row ∧
        Observed runtime.rows sibling.1 detail .retired row :=
      execute_confirmed rfl (hturn _)
    obtain ⟨detail, row, _, hrows, hobserved⟩ := hwritten
    rw [sweepSiblings_cons hturn]
    generalize (execute turn desired.body runtime (siblingRetire desired sibling)).1 = next at hrows
    have hrest := ih next
    refine ⟨hrest.finished, ?_, ?_, ?_⟩
    · simp only [hrest.emitted, map_cons]
    · intro actorId hmem
      rw [map_cons, mem_cons, not_or] at hmem
      refine (hrest.others actorId hmem.2).trans ?_
      rw [hrows]
      exact row?_put_of_ne _ hmem.1 _
    · intro actorId found hmem hfound
      by_cases hlater : actorId ∈ rest.map fst
      · exact hrest.retired actorId found hlater hfound
      · rw [map_cons, mem_cons] at hmem
        obtain rfl := hmem.resolve_right hlater
        have hrow : next.rows.row? sibling.1 = some found :=
          (hrest.others _ hlater).symm.trans hfound
        rw [hrows] at hrow
        have hput : (runtime.rows.put sibling.1 row).row? sibling.1 =
            some row := row?_put_self _ _ _
        have hfoundRow : row = found := some.inj (hput.symm.trans hrow)
        rw [← hfoundRow]
        exact hobserved.lifecycle

theorem runOnce_confirmed (runtime : Runtime) :
    ∃ swept, swept = sweepSiblings turn desired runtime
        (listLiveSiblings runtime.rows desired.descriptorKind
          desired.descriptorId desired.actorId) ∧
      Swept desired runtime
        (listLiveSiblings runtime.rows desired.descriptorKind
          desired.descriptorId desired.actorId) swept ∧
      runOnce turn desired runtime =
        ((execute turn desired.body swept.1
            (commonReconcile desired.actorId (swept.1.rows.row? desired.actorId) desired)).1,
          swept.2.1 ++ [commonReconcile desired.actorId
            (swept.1.rows.row? desired.actorId) desired]) := by
  have hswept := sweepSiblings_confirmed hturn desired
    (listLiveSiblings runtime.rows desired.descriptorKind desired.descriptorId
      desired.actorId) runtime
  refine ⟨_, rfl, hswept, ?_⟩
  unfold runOnce
  rw [if_pos hswept.finished]

end

theorem not_mem_listLiveSiblings {rows : ActorTable} {kind : DescriptorKind}
    {descriptorId excluded : String} :
    excluded ∉ (listLiveSiblings rows kind descriptorId excluded).map fst := by
  intro hmem
  obtain ⟨sibling, hsibling, hsame⟩ := mem_map.mp hmem
  have hne := of_decide_eq_true (mem_filter.mp hsibling).2
  exact hne hsame

theorem retired_of_swept {swept : Runtime × List ReconcileAction × Bool}
    (howned : ∀ actorId row, runtime.rows.row? actorId = some row → row.actorKind =
      setting.kind ∧ row.descriptorId = setting.descriptorId)
    (hdesired : desired = setting.desired version lifecycle)
    (hswept : Swept desired runtime (listLiveSiblings runtime.rows
      desired.descriptorKind desired.descriptorId desired.actorId) swept)
    {actorId : String} {row : ActorRow}
    (hrow : swept.1.rows.row? actorId = some row)
    (hother : actorId ≠ desired.actorId) : row.lifecycle = .retired := by
  by_cases hmem : actorId ∈ (listLiveSiblings runtime.rows
      desired.descriptorKind desired.descriptorId desired.actorId).map fst
  · exact hswept.retired actorId row hmem hrow
  · rw [hswept.others actorId hmem] at hrow
    obtain ⟨hkind, hid⟩ := howned actorId row hrow
    by_contra hlive
    apply hmem
    refine mem_map.mpr ⟨(actorId, row), ?_, rfl⟩
    refine mem_filter.mpr ⟨?_, decide_eq_true hother⟩
    refine mem_selectMatching.mpr ⟨hrow, ?_⟩
    subst hdesired
    simp [hkind, hid, hlive, Setting.desired]

end

/-! ## The action on the head's actor -/

section

variable {actorId : String} {record : Option ActorRow}
variable {desired : DesiredState} {turn : PassTurn}

def Matches (desired : DesiredState) (row : ActorRow) : Prop :=
  row.descriptorVersion = desired.descriptorVersion ∧ row.lifecycle = desired.lifecycleTarget

theorem commonReconcile_running (desired : DesiredState)
    (hrunning : desired.lifecycleTarget = .active ∨ desired.lifecycleTarget = .paused)
    (hversion : ∀ row, record = some row → row.descriptorVersion = desired.descriptorVersion) :
    (commonReconcile actorId record desired).writes turn = some desired.lifecycleTarget ∨
      (commonReconcile actorId record desired).writes turn = none ∧
        ∃ row, record = some row ∧ Matches desired row := by
  unfold commonReconcile
  cases record with
  | none =>
    left
    rcases hrunning with htarget | htarget
    · rw [htarget]
      rfl
    · rw [htarget]
      rfl
  | some row =>
    have hsame := hversion row rfl
    by_cases hlifecycle : row.lifecycle = desired.lifecycleTarget
    · rcases hrunning with htarget | htarget
      · rw [htarget] at hlifecycle ⊢
        by_cases hkind : desired.descriptorKind = .target
        · right
          simp [hsame, hlifecycle, hkind, ReconcileAction.writes, Matches, htarget]
        · cases hsuppressed : turn.suppressed with
          | true =>
            right
            simp [hsame, hlifecycle, hkind, ReconcileAction.writes, Matches, htarget, hsuppressed]
          | false =>
            left
            simp [hsame, hlifecycle, hkind, ReconcileAction.writes, hsuppressed]
      · right
        simp [hsame, hlifecycle, ReconcileAction.writes, Matches, htarget]
    · left
      rcases hrunning with htarget | htarget
      · rw [htarget] at hlifecycle ⊢
        simp [hsame, hlifecycle, ReconcileAction.writes]
      · rw [htarget] at hlifecycle ⊢
        simp [hsame, hlifecycle, ReconcileAction.writes]

theorem commonReconcile_retired (desired : DesiredState)
    (hretired : desired.lifecycleTarget = .retired) :
    (commonReconcile actorId record desired).writes turn = some .retired ∨
      (commonReconcile actorId record desired).writes turn = none ∧
        ∀ row, record = some row → row.lifecycle = .retired := by
  unfold commonReconcile
  rw [hretired]
  cases record with
  | none => simp [ReconcileAction.writes]
  | some row =>
    by_cases hlifecycle : row.lifecycle = .retired
    · right
      simp [hlifecycle, ReconcileAction.writes]
    · left
      simp [hlifecycle, ReconcileAction.writes]

theorem commonReconcile_idle (desired : DesiredState)
    (hidle : desired.lifecycleTarget = .draft ∨ desired.lifecycleTarget = .configured)
    (hversion : ∀ row, record = some row → row.descriptorVersion = desired.descriptorVersion) :
    (commonReconcile actorId record desired).writes turn = none := by
  unfold commonReconcile
  cases record with
  | none =>
    rcases hidle with htarget | htarget
    · rw [htarget]
      rfl
    · rw [htarget]
      rfl
  | some row =>
    have hsame := hversion row rfl
    rcases hidle with htarget | htarget
    · rw [htarget]
      by_cases hlifecycle : row.lifecycle = .draft
      · simp [hsame, hlifecycle, ReconcileAction.writes]
      · simp [hsame, hlifecycle, ReconcileAction.writes]
    · rw [htarget]
      by_cases hlifecycle : row.lifecycle = .configured
      · simp [hsame, hlifecycle, ReconcileAction.writes]
      · simp [hsame, hlifecycle, ReconcileAction.writes]

def ReconcileAction.quiet : ReconcileAction → Bool
  | .noop _ _ => true
  | .ensureActive _ _ => true
  | _ => false

theorem quiet_of_matches {row : ActorRow} (hmatches : Matches desired row)
    (hrunning : desired.lifecycleTarget = .active ∨ desired.lifecycleTarget =
      .paused) : (commonReconcile actorId (some row) desired).quiet := by
  unfold commonReconcile
  rcases hrunning with htarget | htarget
  · rw [Matches, htarget] at hmatches
    rw [htarget]
    by_cases hkind : desired.descriptorKind = .target
    · simp [hmatches, hkind, ReconcileAction.quiet]
    · simp [hmatches, hkind, ReconcileAction.quiet]
  · rw [Matches, htarget] at hmatches
    rw [htarget]
    simp [hmatches, ReconcileAction.quiet]

theorem quiet_of_retired (hretired : desired.lifecycleTarget = .retired)
    (hrows : ∀ row, record = some row → row.lifecycle = .retired) :
    (commonReconcile actorId record desired).quiet := by
  unfold commonReconcile
  rw [hretired]
  cases record with
  | none => rfl
  | some row => simp [hrows row rfl, ReconcileAction.quiet]

end

/-! ## Convergence -/

/-- What a pass all of whose calls are confirmed leaves for a head.  A head in
draft or configured asks for no actor, and the row of its own actor stays as it
was. -/
def Settled (setting : Setting) (version : Version) (before after : Runtime) : LifecycleState → Prop
  | .retired => ∀ pair, pair ∉ liveRows after.rows setting.kind setting.descriptorId
  | .draft | .configured =>
    (∀ pair ∈ liveRows after.rows setting.kind setting.descriptorId,
      pair.1 = actorIdOf setting.kind setting.descriptorId version) ∧
    after.rows.row? (actorIdOf setting.kind setting.descriptorId version) =
      before.rows.row? (actorIdOf setting.kind setting.descriptorId version)
  | lifecycle => ∃ row, row.descriptorVersion = version ∧
      row.lifecycle = lifecycle ∧
      ∀ pair, pair ∈ liveRows after.rows setting.kind setting.descriptorId ↔
        pair = (actorIdOf setting.kind setting.descriptorId version, row)

def Rests (setting : Setting) (version : Version) (runtime : Runtime)
    (lifecycle : LifecycleState) : Prop :=
  match lifecycle with
  | .draft | .configured => ∀ turn,
      (runOnce turn (setting.desired version lifecycle) runtime).1 = runtime
  | _ => ∀ turn, ∀ action ∈
      (runOnce turn (setting.desired version lifecycle) runtime).2,
      action.quiet = true

def HeadVersion (events : List LoopEvent) (version : Version) : Prop :=
  ∃ lifecycle, LoopEvent.head version lifecycle ∈ events

def DistinctIds (events : List LoopEvent) : Prop :=
  ∀ version other, HeadVersion events version → HeadVersion events other →
    version.hash.toList.take 16 = other.hash.toList.take 16 → version = other

section

variable {setting : Setting} {events : List LoopEvent}
variable {runtime after : Runtime} {version : Version}
variable {lifecycle : LifecycleState}

theorem take_eq_of_actorIdOf {kind : DescriptorKind} {descriptorId : String}
    {other : Version}
    (hsame : actorIdOf kind descriptorId version = actorIdOf kind descriptorId
      other) : version.hash.toList.take 16 = other.hash.toList.take 16 := by
  unfold actorIdOf at hsame
  have hchars := congrArg String.toList hsame
  simpa only [String.toList_append, append_cancel_left_eq, String.toList_ofList] using hchars

def OthersRetired (setting : Setting) (version : Version) (rows : ActorTable) : Prop :=
  ∀ actorId row, rows.row? actorId = some row →
    actorId ≠ actorIdOf setting.kind setting.descriptorId version →
    row.lifecycle = .retired

theorem listLiveSiblings_eq_nil (hothers : OthersRetired setting version runtime.rows) :
    listLiveSiblings runtime.rows setting.kind setting.descriptorId
      (actorIdOf setting.kind setting.descriptorId version) = [] := by
  rw [eq_nil_iff_forall_not_mem]
  rintro ⟨actorId, row⟩ hmem
  obtain ⟨hlive, hother⟩ := mem_filter.mp hmem
  obtain ⟨hrow, hcondition⟩ := mem_selectMatching.mp hlive
  have hretired := hothers actorId row hrow (of_decide_eq_true hother)
  simp [hretired] at hcondition

theorem runOnce_alone (lifecycle : LifecycleState) (turn : PassTurn)
    (hothers : OthersRetired setting version runtime.rows) :
    runOnce turn (setting.desired version lifecycle) runtime =
      ((execute turn (setting.bodyOf version) runtime
          (commonReconcile (setting.desired version lifecycle).actorId
            (runtime.rows.row? (setting.desired version lifecycle).actorId)
            (setting.desired version lifecycle))).1,
        [commonReconcile (setting.desired version lifecycle).actorId
          (runtime.rows.row? (setting.desired version lifecycle).actorId)
          (setting.desired version lifecycle)]) := by
  have hnil : listLiveSiblings runtime.rows
      (setting.desired version lifecycle).descriptorKind
      (setting.desired version lifecycle).descriptorId
      (setting.desired version lifecycle).actorId = [] :=
    listLiveSiblings_eq_nil hothers
  unfold runOnce
  rw [hnil]
  rfl

theorem OthersRetired.execute {turn : PassTurn} {typed : AnalystBody} {action : ReconcileAction}
    (hothers : OthersRetired setting version runtime.rows)
    (hactor : action.actorId = actorIdOf setting.kind setting.descriptorId version) :
    OthersRetired setting version (execute turn typed runtime action).1.rows := by
  rcases rows_execute typed runtime turn action with hrows | ⟨detail, written, row, _, hrows, _⟩
  · rw [hrows]
    exact hothers
  · rw [hrows, hactor]
    intro actorId found hfound hother
    rw [row?_put_of_ne _ hother] at hfound
    exact hothers actorId found hfound hother

structure Ready (setting : Setting) (version : Version) (rows : ActorTable) : Prop where
  owned : ∀ actorId row, rows.row? actorId = some row →
    row.actorKind = setting.kind ∧ row.descriptorId = setting.descriptorId
  head : ∀ row, rows.row? (actorIdOf setting.kind setting.descriptorId version) = some row →
    row.descriptorVersion = version

theorem Kept.ready {versions : Version → Prop} {rows : ActorTable}
    (hkept : Kept setting versions rows)
    (hids : ∀ other, versions other → version.hash.toList.take 16 = other.hash.toList.take 16 →
      version = other) : Ready setting version rows where
  owned := fun actorId row hrow => ⟨(hkept actorId row hrow).1, (hkept actorId row hrow).2.1⟩
  head := by
    intro row hrow
    obtain ⟨_, _, hactor, hother⟩ := hkept _ row hrow
    exact (hids _ hother (take_eq_of_actorIdOf hactor)).symm

theorem mem_liveRows {rows : ActorTable} (hready : Ready setting version rows)
    {pair : String × ActorRow} :
    pair ∈ liveRows rows setting.kind setting.descriptorId ↔
      rows.row? pair.1 = some pair.2 ∧ pair.2.lifecycle ≠ .retired := by
  refine mem_selectMatching.trans (and_congr_right fun hrow => ?_)
  obtain ⟨hkind, hid⟩ := hready.owned _ _ hrow
  simp [hkind, hid]

structure HeadSettled (setting : Setting) (version : Version)
    (lifecycle : LifecycleState) (before after : Runtime) : Prop where
  others : OthersRetired setting version after.rows
  running : lifecycle = .active ∨ lifecycle = .paused →
    ∃ row, after.rows.row? (setting.desired version lifecycle).actorId = some row ∧
      Matches (setting.desired version lifecycle) row
  retired : lifecycle = .retired → ∀ row,
    after.rows.row? (setting.desired version lifecycle).actorId = some row →
    row.lifecycle = .retired
  idle : lifecycle = .draft ∨ lifecycle = .configured →
    after.rows.row? (setting.desired version lifecycle).actorId =
      before.rows.row? (setting.desired version lifecycle).actorId

theorem swept_ready {swept : Runtime × List ReconcileAction × Bool}
    (hready : Ready setting version runtime.rows)
    (hswept : Swept (setting.desired version lifecycle) runtime (listLiveSiblings runtime.rows
      setting.kind setting.descriptorId (setting.desired version lifecycle).actorId) swept) :
    OthersRetired setting version swept.1.rows ∧
      swept.1.rows.row? (setting.desired version lifecycle).actorId =
        runtime.rows.row? (setting.desired version lifecycle).actorId ∧
      ∀ row, swept.1.rows.row? (setting.desired version lifecycle).actorId = some row →
        row.descriptorVersion = version := by
  have hrecord := hswept.others (setting.desired version lifecycle).actorId not_mem_listLiveSiblings
  refine ⟨?_, hrecord, ?_⟩
  · exact fun actorId row hrow hother => retired_of_swept hready.owned rfl hswept hrow hother
  · intro row hrow
    rw [hrecord] at hrow
    exact hready.head row hrow

theorem headSettled_of_confirmed (lifecycle : LifecycleState)
    {turn : PassTurn} (hready : Ready setting version runtime.rows)
    (hturn : ∀ actorId, turn.calls actorId = .confirmed) :
    HeadSettled setting version lifecycle runtime
      (runOnce turn (setting.desired version lifecycle) runtime).1 := by
  obtain ⟨swept, _, hswept, hrun⟩ := runOnce_confirmed hturn
    (setting.desired version lifecycle) runtime
  obtain ⟨hothers, hrecord, hversion⟩ := swept_ready hready hswept
  rw [hrun]
  refine ⟨?_, ?_, ?_, ?_⟩
  · exact hothers.execute actorId_commonReconcile
  · intro hrunning
    rcases commonReconcile_running (setting.desired version lifecycle) hrunning hversion with
      hwrites | ⟨hwrites, row, hrow, hmatches⟩
    · obtain ⟨detail, row, hdetail, hrows, hobserved⟩ := execute_confirmed hwrites (hturn _)
      rw [actorId_commonReconcile] at hrows
      refine ⟨row, ?_, ?_, hobserved.lifecycle⟩
      · rw [hrows]
        exact row?_put_self _ _ _
      · rcases detail_commonReconcile with hnone | hsame
        · rw [hnone] at hdetail
          cases hdetail
        · rw [hsame] at hdetail
          rw [hobserved.version, ← some.inj hdetail]
          rfl
    · rw [execute_of_writes_none hwrites]
      exact ⟨row, hrow, hmatches⟩
  · intro hretired row hrow
    rcases commonReconcile_retired (setting.desired version lifecycle)
        hretired with hwrites | ⟨hwrites, hrows⟩
    · obtain ⟨detail, written, _, hput, hobserved⟩ := execute_confirmed hwrites (hturn _)
      rw [actorId_commonReconcile] at hput
      rw [hput, row?_put_self] at hrow
      rw [← some.inj hrow]
      exact hobserved.lifecycle
    · rw [execute_of_writes_none hwrites] at hrow
      exact hrows row hrow
  · intro hidle
    have hwrites : (commonReconcile
        (setting.desired version lifecycle).actorId
        (swept.1.rows.row? (setting.desired version lifecycle).actorId)
        (setting.desired version lifecycle)).writes turn = none :=
      commonReconcile_idle _ hidle hversion
    rw [execute_of_writes_none hwrites]
    exact hrecord

section

variable (hsettled : HeadSettled setting version lifecycle runtime after)
  (hready : Ready setting version after.rows)

include hsettled hready

theorem HeadSettled.settled : Settled setting version runtime after lifecycle := by
  have hlive : ∀ pair, pair ∈ liveRows after.rows setting.kind
      setting.descriptorId →
      pair.1 = actorIdOf setting.kind setting.descriptorId version := by
    intro pair hpair
    obtain ⟨hrow, hlifecycle⟩ := (mem_liveRows hready).mp hpair
    by_contra hother
    exact hlifecycle (hsettled.others _ _ hrow hother)
  have hrunning : lifecycle = .active ∨ lifecycle = .paused →
      ∃ row, row.descriptorVersion = version ∧ row.lifecycle = lifecycle ∧
        ∀ pair, pair ∈ liveRows after.rows setting.kind setting.descriptorId ↔
          pair = (actorIdOf setting.kind setting.descriptorId version, row) := by
    intro hlifecycle
    obtain ⟨row, hrow, hversion, hstate⟩ := hsettled.running hlifecycle
    refine ⟨row, hversion, hstate, fun pair => ?_⟩
    constructor
    · intro hpair
      have hactor := hlive pair hpair
      have hfound := ((mem_liveRows hready).mp hpair).1
      rw [hactor] at hfound
      exact Prod.ext hactor (some.inj (hfound.symm.trans hrow))
    · rintro rfl
      refine (mem_liveRows hready).mpr ⟨hrow, ?_⟩
      rw [show row.lifecycle = lifecycle from hstate]
      rcases hlifecycle with rfl | rfl
      · simp
      · simp
  cases lifecycle with
  | active => exact hrunning (.inl rfl)
  | paused => exact hrunning (.inr rfl)
  | retired =>
    intro pair hpair
    have hactor := hlive pair hpair
    obtain ⟨hrow, hlifecycle⟩ := (mem_liveRows hready).mp hpair
    rw [hactor] at hrow
    exact hlifecycle (hsettled.retired rfl _ hrow)
  | draft => exact ⟨hlive, hsettled.idle (.inl rfl)⟩
  | configured => exact ⟨hlive, hsettled.idle (.inr rfl)⟩

theorem HeadSettled.rests : Rests setting version after lifecycle := by
  have halone := fun turn => runOnce_alone lifecycle turn hsettled.others
  have hrunning : lifecycle = .active ∨ lifecycle = .paused → ∀ turn,
      ∀ action ∈
        (runOnce turn (setting.desired version lifecycle) after).2,
        action.quiet = true := by
    intro hlifecycle turn action haction
    rw [halone] at haction
    obtain ⟨row, hrow, hmatches⟩ := hsettled.running hlifecycle
    rw [mem_singleton.mp haction, hrow]
    exact quiet_of_matches hmatches hlifecycle
  have hidle : lifecycle = .draft ∨ lifecycle = .configured → ∀ turn,
      (runOnce turn (setting.desired version lifecycle) after).1 = after := by
    intro hlifecycle turn
    have hwrites : (commonReconcile
        (setting.desired version lifecycle).actorId
        (after.rows.row? (setting.desired version lifecycle).actorId)
        (setting.desired version lifecycle)).writes turn = none :=
      commonReconcile_idle _ hlifecycle hready.head
    rw [halone, execute_of_writes_none hwrites]
  cases lifecycle with
  | active => exact hrunning (.inl rfl)
  | paused => exact hrunning (.inr rfl)
  | retired =>
    intro turn action haction
    rw [halone] at haction
    rw [mem_singleton.mp haction]
    exact quiet_of_retired rfl (hsettled.retired rfl)
  | draft => exact hidle (.inl rfl)
  | configured => exact hidle (.inr rfl)

end

end

/-! ## Runs -/

def Accounted (setting : Setting) (versions : Version → Prop) (state : LoopState) : Prop :=
  Kept setting versions state.runtime.rows ∧
    ∀ version lifecycle, state.head = some (version, lifecycle) → versions version

variable {setting : Setting} {versions : Version → Prop}

theorem accounted_step {state next : LoopState} {event : LoopEvent}
    (haccounted : Accounted setting versions state)
    (hstep : loopStep setting state event = some next)
    (hevent : ∀ version lifecycle, event = .head version lifecycle →
      versions version) : Accounted setting versions next := by
  cases event with
  | head version lifecycle =>
    simp only [loopStep, some.injEq] at hstep
    subst next
    refine ⟨haccounted.1, ?_⟩
    intro other target hhead
    obtain ⟨rfl, rfl⟩ := Prod.mk.inj (some.inj hhead)
    exact hevent version lifecycle rfl
  | pass turn =>
    simp only [loopStep] at hstep
    split at hstep
    case h_1 hhead =>
      obtain rfl := some.inj hstep
      exact haccounted
    case h_2 version lifecycle hhead =>
      obtain rfl := some.inj hstep
      refine ⟨?_, haccounted.2⟩
      exact haccounted.1.runOnce turn (haccounted.2 version lifecycle hhead)
  | restart =>
    simp only [loopStep, some.injEq] at hstep
    subst next
    exact haccounted

theorem accounted_start : Accounted setting versions LoopState.start :=
  ⟨fun _ _ hrow => (nomatch hrow), fun _ _ hhead => (nomatch hhead)⟩

theorem stepsSatisfy_headVersion (events : List LoopEvent) :
    StepsSatisfy (loopStep setting)
      (fun _ event _ => ∀ version lifecycle,
        event = LoopEvent.head version lifecycle →
        HeadVersion events version) LoopState.start events := by
  apply stepsSatisfy_of_labels
  rintro event hevent version lifecycle rfl
  exact ⟨lifecycle, hevent⟩

theorem accounted_run {events : List LoopEvent} {state : LoopState}
    (hrun : run (loopStep setting) LoopState.start events = some state) :
    Accounted setting (HeadVersion events) state :=
  invariant_of_goodSteps
    (fun _ _ _ haccounted hstep hevent => accounted_step haccounted hstep hevent)
    accounted_start hrun (stepsSatisfy_headVersion events)

/-- After any history of heads, passes and restarts, a pass all of whose calls
are confirmed settles the head, and the passes after it rest. -/
theorem reconcile_converges (setting : Setting) (events : List LoopEvent)
    (hids : DistinctIds events) (state : LoopState)
    (hrun : run (loopStep setting) LoopState.start events = some state) (version : Version)
    (lifecycle : LifecycleState) (hhead : state.head = some (version, lifecycle)) (turn : PassTurn)
    (hturn : ∀ actorId, turn.calls actorId = .confirmed) :
    Settled setting version state.runtime
        (runOnce turn (setting.desired version lifecycle) state.runtime).1
        lifecycle ∧
      Rests setting version
        (runOnce turn (setting.desired version lifecycle) state.runtime).1
        lifecycle := by
  obtain ⟨hkept, hversions⟩ := accounted_run hrun
  have hversion := hversions version lifecycle hhead
  have hready := hkept.ready fun other hother => hids version other hversion hother
  have hkeptAfter : Kept setting (HeadVersion events)
      (runOnce turn (setting.desired version lifecycle)
        state.runtime).1.rows := hkept.runOnce turn hversion
  have hafter := hkeptAfter.ready fun other hother => hids version other hversion hother
  have hsettled := headSettled_of_confirmed lifecycle hready hturn
  exact ⟨hsettled.settled hafter, hsettled.rests hafter⟩

def plainSetting (targets : List Target) : Setting where
  kind := .analyst
  descriptorId := "assessor"
  bodyOf := fun _ => ⟨some ⟨[], [], none⟩, []⟩
  targets := targets
  selects := fun _ _ => none

def firstVersion : Version := ⟨"0123456789abcdef1", by decide⟩

def secondVersion : Version := ⟨"fedcba98765432101", by decide⟩

def passWith (outcome : CallOutcome) : PassTurn :=
  ⟨fun _ => outcome, false, false⟩

def halfApplied : LoopState where
  head := some (secondVersion, .paused)
  runtime :=
    (runOnce (passWith .timedOut)
      ((plainSetting []).desired secondVersion .paused)
      (runOnce (passWith .confirmed)
        ((plainSetting []).desired firstVersion .active)
        LoopState.start.runtime).1).1
  wiredFor := none

theorem reconcile_converges_halfApplied :
    Settled (plainSetting []) secondVersion halfApplied.runtime
        (runOnce (passWith .confirmed)
          ((plainSetting []).desired secondVersion .paused)
          halfApplied.runtime).1 .paused ∧
      Rests (plainSetting []) secondVersion
        (runOnce (passWith .confirmed)
          ((plainSetting []).desired secondVersion .paused)
          halfApplied.runtime).1 .paused := by
  refine reconcile_converges (plainSetting [])
    [.head firstVersion .active, .pass (passWith .confirmed),
      .head secondVersion .paused, .pass (passWith .timedOut)]
    ?_ halfApplied rfl secondVersion .paused rfl (passWith .confirmed)
    fun _ => rfl
  rintro version other ⟨lifecycle, hversion⟩ ⟨target, hother⟩ hsame
  simp only [mem_cons, LoopEvent.head.injEq, reduceCtorEq,
    not_mem_nil, or_false, false_or] at hversion hother
  rcases hversion with ⟨rfl, rfl⟩ | ⟨rfl, rfl⟩
  · rcases hother with ⟨rfl, rfl⟩ | ⟨rfl, rfl⟩
    · rfl
    · exact absurd hsame (by decide)
  · rcases hother with ⟨rfl, rfl⟩ | ⟨rfl, rfl⟩
    · exact absurd hsame (by decide)
    · rfl

/-- Shares its first sixteen characters with `firstVersion`. -/
def collidingVersion : Version := ⟨"0123456789abcdef2", by decide⟩

/-- A pass for a head in draft leaves no actor, and the next one asks for one
again; a paused head whose actor id another version has left behind is
restarted and left active. -/
theorem draft_and_colliding_heads :
    liveRows (runOnce (passWith .confirmed)
        ((plainSetting []).desired firstVersion .draft)
        LoopState.start.runtime).1.rows .analyst "assessor" = [] ∧
      (runOnce (passWith .confirmed)
          ((plainSetting []).desired firstVersion .draft)
          (runOnce (passWith .confirmed)
            ((plainSetting []).desired firstVersion .draft)
            LoopState.start.runtime).1).2.map ReconcileAction.quiet =
        [false] ∧
      (liveRows (runOnce (passWith .confirmed)
          ((plainSetting []).desired collidingVersion .paused)
          (runOnce (passWith .confirmed)
            ((plainSetting []).desired firstVersion .active)
            LoopState.start.runtime).1).1.rows .analyst "assessor").map
        (fun pair => pair.2.lifecycle) = [.active] := by
  refine ⟨?_, ?_, ?_⟩
  · decide +kernel
  · decide +kernel
  · decide +kernel

end Legba.Reconcile
