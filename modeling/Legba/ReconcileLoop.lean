import Legba.DescriptorLifecycle
import Legba.KeyedTable
import Legba.SubjectPlanning

/-!
# The reconcile loop

The reconcile loop drives the actors of a descriptor to its head version.  A
pass retires the live actors of other versions, compares the observed row of
the head's actor with the head, and has the executor carry out one action.
The executor calls the actor, runs the hooks of the analyst plane, and then
writes the observed row; a call which is not confirmed leaves all three alone.

A proxy call may be confirmed, time out, raise, or be cut off with the pass.
-/

namespace Legba.Reconcile

open Descriptors (LifecycleState)
open KeyedTable
open Subscriptions (ResolvedBinding subjectFiltersFor)

inductive DescriptorKind where
  | target
  | analyst
  | source
deriving DecidableEq

def DescriptorKind.value : DescriptorKind → String
  | .target => "target"
  | .analyst => "analyst"
  | .source => "source"

structure Version where
  hash : String
  hash_ne : hash ≠ ""
deriving DecidableEq

/-- `_default_actor_id`. -/
def actorIdOf (kind : DescriptorKind) (descriptorId : String) (version : Version) : String :=
  kind.value ++ "::" ++ descriptorId ++ "::" ++ String.ofList (version.hash.toList.take 16)

/-- `subscription.targets` of an analyst. -/
structure TargetSelector where
  idList : List String
  dataTypes : List String
  predicate : Option String

structure OutputBinding where
  kind : String
  /-- `config.skill_id`, or else `skill_id`. -/
  skillId : String
  /-- The resolved schemas, the authorization flag and the description. -/
  detail : String
deriving DecidableEq

structure AnalystBody where
  targets : Option TargetSelector
  outputs : List OutputBinding

structure DesiredState where
  descriptorId : String
  descriptorKind : DescriptorKind
  descriptorVersion : Version
  lifecycleTarget : LifecycleState
  body : AnalystBody

def DesiredState.actorId (desired : DesiredState) : String :=
  actorIdOf desired.descriptorKind desired.descriptorId desired.descriptorVersion

/-- A row of `actor_state`. -/
structure ActorRow where
  actorKind : DescriptorKind
  descriptorId : String
  descriptorVersion : Version
  lifecycle : LifecycleState
  lastOutcome : String
deriving DecidableEq

abbrev ActorTable := Table String ActorRow

structure Coordinates where
  descriptorId : String
  descriptorKind : DescriptorKind
  descriptorVersion : Version

def DesiredState.coordinates (desired : DesiredState) : Coordinates :=
  ⟨desired.descriptorId, desired.descriptorKind, desired.descriptorVersion⟩

inductive ReconcileAction where
  | noop (actorId : String) (reason : Option String)
  | createActor (actorId : String) (detail : Coordinates) (targetLifecycle : LifecycleState)
  | ensureActive (actorId : String) (detail : Coordinates)
  | transitionLifecycle (actorId : String) (detail : Coordinates) (source target : LifecycleState)
  | restartActor (actorId : String) (detail : Coordinates) (oldVersion : Version)
  | retireActor (actorId : String) (detail : Coordinates)
      (fromState : LifecycleState) (headVersion : Option Version)

def commonReconcile (actorId : String) (record : Option ActorRow)
    (desired : DesiredState) : ReconcileAction :=
  match desired.lifecycleTarget, record with
  | .retired, none => .noop actorId (some "already_retired_or_absent")
  | .retired, some row =>
    if row.lifecycle = .retired then
      .noop actorId (some "already_retired_or_absent")
    else .retireActor actorId desired.coordinates row.lifecycle none
  | target, none => .createActor actorId desired.coordinates target
  | target, some row =>
    if row.descriptorVersion ≠ desired.descriptorVersion then
      .restartActor actorId desired.coordinates row.descriptorVersion
    else if row.lifecycle ≠ target then
      .transitionLifecycle actorId desired.coordinates row.lifecycle target
    else if desired.descriptorKind ≠ .target ∧ target = .active then
      .ensureActive actorId desired.coordinates
    else .noop actorId none

structure Target where
  targetId : String
  tenant : String
  discovery : Bool
  hasSources : Bool
  analystRef : Option String
  /-- What `register_target` binds, `none` if it raises. -/
  bindings : Option (List ResolvedBinding)

structure TriggerRegistration where
  analystId : String
  targetId : String
  tenant : String
  bindings : List ResolvedBinding
  subjectFilters : List String
deriving DecidableEq

/-- Whether `_analyst_ids_for_target` lists the analyst; a predicate which
raises selects nothing. -/
def runsOver (selects : String → Target → Option Bool) (analystId : String)
    (body : AnalystBody) (target : Target) : Bool :=
  if target.analystRef = some analystId then true
  else
    match body.targets with
    | none => false
    | some selector =>
      if selector.idList ≠ [] then false
      else if selector.dataTypes ≠ [] ∧ "signal" ∉ selector.dataTypes then
        false
      else
        match selector.predicate with
        | none => true
        | some predicate => predicate = "" || (selects predicate target).getD false

/-- `_wire_targets_and_triggers`, the registrations of one active analyst. -/
def wireTriggers (selects : String → Target → Option Bool)
    (targets : List Target) (analystId : String) (body : AnalystBody) :
    List TriggerRegistration :=
  targets.filterMap fun target =>
    if target.discovery || !target.hasSources then none
    else
      target.bindings.bind fun bindings =>
        if runsOver selects analystId body target then
          some ⟨analystId, target.targetId, target.tenant, bindings, subjectFiltersFor bindings⟩
        else none

/-- `TriggerEngine.unregister` of all targets of an analyst. -/
def unregisterTriggers (registrations : List TriggerRegistration)
    (analystId : String) : List TriggerRegistration :=
  registrations.filter fun registration => decide (registration.analystId ≠ analystId)

structure SkillRegistration where
  skillId : String
  analystId : String
  analystVersion : Version
  detail : String
deriving DecidableEq

/-- `A2ASkillRegistry.register`; it raises if another analyst has the id. -/
def registerSkill (skills : List SkillRegistration)
    (skill : SkillRegistration) : Option (List SkillRegistration) :=
  match skills.find? fun other => decide (other.skillId = skill.skillId) with
  | none => some (skills ++ [skill])
  | some existing =>
    if existing.analystId ≠ skill.analystId then none
    else
      some (skills.map fun other =>
        if other.skillId = skill.skillId then skill else other)

def unregisterSkills (skills : List SkillRegistration)
    (analystId : String) : List SkillRegistration :=
  skills.filter fun skill => decide (skill.analystId ≠ analystId)

def hasAnalystVersion (skills : List SkillRegistration) (analystId : String)
    (version : Version) : Bool :=
  let own := skills.filter fun skill => decide (skill.analystId = analystId)
  !own.isEmpty && own.all fun skill => decide (skill.analystVersion = version)

def declaredSkills (analystId : String) (version : Version)
    (body : AnalystBody) : List SkillRegistration :=
  (body.outputs.filter fun output =>
    decide (output.kind = "a2a_skill" ∧ output.skillId ≠ "")).map
    fun output => ⟨output.skillId, analystId, version, output.detail⟩

/-- `register_from_descriptor`; what was registered before it raises
stays. -/
def registerSkills (skills : List SkillRegistration) :
    List SkillRegistration → List SkillRegistration
  | [] => skills
  | skill :: rest =>
    match registerSkill skills skill with
    | none => skills
    | some next => registerSkills next rest

/-! ## The executor -/

inductive CallOutcome where
  | confirmed
  | timedOut
  | raised
  | cancelled

structure PassTurn where
  calls : String → CallOutcome
  /-- The breaker suppresses the heal of the head's actor. -/
  suppressed : Bool
  /-- The fetch of the typed descriptor fails. -/
  fetchFails : Bool

inductive ActorMethod where
  | activate
  | pause
  | resume
  | retire
deriving DecidableEq

inductive ExecResult where
  | done
  | raised
  | cancelled

/-- The observed rows, the in-memory planes of the analysts, and the calls
which actors have confirmed since the process started. -/
structure Runtime where
  rows : ActorTable
  analystActorIds : String → Option String
  triggers : List TriggerRegistration
  skills : List SkillRegistration
  confirmed : List (String × ActorMethod)

/-- `_call`, and what follows a confirmed call. -/
def Runtime.call (runtime : Runtime) (turn : PassTurn) (actorId : String)
    (method : ActorMethod) (follow : Runtime → Runtime) :
    Runtime × ExecResult :=
  match turn.calls actorId with
  | .confirmed =>
    (follow { runtime with
      confirmed := runtime.confirmed ++ [(actorId, method)] }, .done)
  | .timedOut => (runtime, .done)
  | .raised => (runtime, .raised)
  | .cancelled => (runtime, .cancelled)

/-- `_write_observed_state`. -/
def Runtime.writeObserved (runtime : Runtime) (action actorId : String)
    (detail : Coordinates) (lifecycle : LifecycleState) : Runtime :=
  let row :=
    match runtime.rows.row? actorId with
    | none =>
      { actorKind := detail.descriptorKind
        descriptorId := detail.descriptorId
        descriptorVersion := detail.descriptorVersion
        lifecycle := lifecycle
        lastOutcome := "reconcile:" ++ action }
    | some row =>
      { row with
        descriptorVersion := detail.descriptorVersion
        lifecycle := lifecycle
        lastOutcome := "reconcile:" ++ action }
  { runtime with rows := runtime.rows.put actorId row }

/-- `remember_analyst_actor_id`. -/
def Runtime.remember (runtime : Runtime) (analystId actorId : String) :
    Runtime :=
  { runtime with
    analystActorIds := Function.update runtime.analystActorIds analystId (some actorId) }

/-- `forget_analyst_actor_id`. -/
def Runtime.forget (runtime : Runtime) (analystId actorId : String) : Runtime :=
  if runtime.analystActorIds analystId = some actorId then
    { runtime with
      analystActorIds := Function.update runtime.analystActorIds analystId none }
  else runtime

/-- `_maybe_register_a2a_skills`, for the version of the action. -/
def Runtime.publishSkills (runtime : Runtime) (turn : PassTurn)
    (typed : AnalystBody) (detail : Coordinates) : Runtime :=
  if hasAnalystVersion runtime.skills detail.descriptorId
      detail.descriptorVersion || turn.fetchFails then runtime
  else
    { runtime with
      skills := registerSkills runtime.skills
        (declaredSkills detail.descriptorId detail.descriptorVersion typed) }

/-- `_analyst_went_live` and the registration of skills behind it. -/
def Runtime.wentLive (runtime : Runtime) (turn : PassTurn)
    (typed : AnalystBody) (actorId : String) (detail : Coordinates) :
    Runtime :=
  if detail.descriptorKind = .analyst then
    (runtime.remember detail.descriptorId actorId).publishSkills turn typed detail
  else runtime

def Runtime.analystRetired (runtime : Runtime) (actorId : String)
    (detail : Coordinates) : Runtime :=
  if detail.descriptorKind = .analyst then
    { ({ runtime with
          skills := unregisterSkills runtime.skills
            detail.descriptorId }.forget detail.descriptorId actorId) with
      triggers := unregisterTriggers runtime.triggers detail.descriptorId }
  else runtime

def Runtime.analystPaused (runtime : Runtime) (actorId : String) (detail : Coordinates) : Runtime :=
  if detail.descriptorKind = .analyst then
    runtime.forget detail.descriptorId actorId
  else runtime

/-- A call to `activate` or `resume`, and what it leads to. -/
def Runtime.activate (runtime : Runtime) (turn : PassTurn)
    (typed : AnalystBody) (action actorId : String) (detail : Coordinates)
    (method : ActorMethod) : Runtime × ExecResult :=
  runtime.call turn actorId method fun runtime =>
    (runtime.wentLive turn typed actorId detail).writeObserved action actorId detail .active

def Runtime.pause (runtime : Runtime) (turn : PassTurn)
    (action actorId : String) (detail : Coordinates) :
    Runtime × ExecResult :=
  runtime.call turn actorId .pause fun runtime =>
    (runtime.analystPaused actorId detail).writeObserved action actorId detail .paused

def Runtime.retire (runtime : Runtime) (turn : PassTurn)
    (action actorId : String) (detail : Coordinates) :
    Runtime × ExecResult :=
  runtime.call turn actorId .retire fun runtime =>
    (runtime.analystRetired actorId detail).writeObserved action actorId detail .retired

/-- `execute_reconcile_action`; `typed` is the head's body as the registry
serves it. -/
def execute (turn : PassTurn) (typed : AnalystBody) (runtime : Runtime) :
    ReconcileAction → Runtime × ExecResult
  | .noop _ _ => (runtime, .done)
  | .createActor actorId detail .active =>
    runtime.activate turn typed "create_actor" actorId detail .activate
  | .createActor actorId detail .paused => runtime.pause turn "create_actor" actorId detail
  | .createActor _ _ _ => (runtime, .done)
  | .ensureActive actorId detail =>
    if turn.suppressed then (runtime, .done)
    else runtime.activate turn typed "ensure_active" actorId detail .activate
  | .retireActor actorId detail _ _ => runtime.retire turn "retire_actor" actorId detail
  | .restartActor actorId detail _ =>
    runtime.call turn actorId .activate fun runtime =>
      runtime.writeObserved "restart_actor" actorId detail .active
  | .transitionLifecycle actorId detail source .active =>
    runtime.activate turn typed "transition_lifecycle" actorId detail
      (if source = .paused then .resume else .activate)
  | .transitionLifecycle actorId detail _ .paused =>
    runtime.pause turn "transition_lifecycle" actorId detail
  | .transitionLifecycle actorId detail _ .retired =>
    runtime.retire turn "transition_lifecycle" actorId detail
  | .transitionLifecycle _ _ _ _ => (runtime, .done)

def liveRows (rows : ActorTable) (kind : DescriptorKind)
    (descriptorId : String) : List (String × ActorRow) :=
  rows.selectMatching fun _ row =>
    decide (row.actorKind = kind) && decide (row.descriptorId = descriptorId) &&
      decide (row.lifecycle ≠ .retired)

def listLiveSiblings (rows : ActorTable) (kind : DescriptorKind)
    (descriptorId excludeActorId : String) : List (String × ActorRow) :=
  (liveRows rows kind descriptorId).filter fun sibling => decide (sibling.1 ≠ excludeActorId)

def siblingRetire (desired : DesiredState) (sibling : String × ActorRow) : ReconcileAction :=
  .retireActor sibling.1
    ⟨desired.descriptorId, desired.descriptorKind, sibling.2.descriptorVersion⟩
    sibling.2.lifecycle (some desired.descriptorVersion)

/-- The sweep over the siblings with the actions it emits; `false` if the pass
was cut off. -/
def sweepSiblings (turn : PassTurn) (desired : DesiredState) :
    Runtime → List (String × ActorRow) → Runtime × List ReconcileAction × Bool
  | runtime, [] => (runtime, [], true)
  | runtime, sibling :: rest =>
    let action := siblingRetire desired sibling
    match execute turn desired.body runtime action with
    | (next, .cancelled) => (next, [action], false)
    | (next, _) =>
      let swept := sweepSiblings turn desired next rest
      (swept.1, action :: swept.2.1, swept.2.2)

/-- `run_once` with the actions it emits. -/
def runOnce (turn : PassTurn) (desired : DesiredState) (runtime : Runtime) :
    Runtime × List ReconcileAction :=
  let swept := sweepSiblings turn desired runtime
    (listLiveSiblings runtime.rows desired.descriptorKind desired.descriptorId desired.actorId)
  if swept.2.2 then
    let action := commonReconcile desired.actorId (swept.1.rows.row? desired.actorId) desired
    ((execute turn desired.body swept.1 action).1, swept.2.1 ++ [action])
  else (swept.1, swept.2.1)

/-- A descriptor with the bodies of its versions, and the active targets. -/
structure Setting where
  kind : DescriptorKind
  descriptorId : String
  bodyOf : Version → AnalystBody
  targets : List Target
  selects : String → Target → Option Bool

def Setting.desired (setting : Setting) (version : Version)
    (lifecycle : LifecycleState) : DesiredState :=
  ⟨setting.descriptorId, setting.kind, version, lifecycle, setting.bodyOf version⟩

def Setting.wiring (setting : Setting) (version : Version) : List TriggerRegistration :=
  wireTriggers setting.selects setting.targets setting.descriptorId (setting.bodyOf version)

/-- The registry's head, and the version the process found active when it
started. -/
structure LoopState where
  head : Option (Version × LifecycleState)
  runtime : Runtime
  wiredFor : Option Version

def LoopState.start : LoopState where
  head := none
  runtime := ⟨Table.empty, fun _ => none, [], [], []⟩
  wiredFor := none

inductive LoopEvent where
  /-- The registry moves the head. -/
  | head (version : Version) (lifecycle : LifecycleState)
  | pass (turn : PassTurn)
  /-- The process restarts and wires the triggers of an active analyst. -/
  | restart

def bootVersion (kind : DescriptorKind) : Option (Version × LifecycleState) → Option Version
  | some (version, .active) => if kind = .analyst then some version else none
  | _ => none

def loopStep (setting : Setting) (state : LoopState) : LoopEvent → Option LoopState
  | .head version lifecycle => some { state with head := some (version, lifecycle) }
  | .pass turn =>
    match state.head with
    | none => some state
    | some (version, lifecycle) =>
      some { state with
        runtime := (runOnce turn (setting.desired version lifecycle)
          state.runtime).1 }
  | .restart =>
    let wiredFor := bootVersion setting.kind state.head
    some { state with
      runtime :=
        { rows := state.runtime.rows
          analystActorIds := fun _ => none
          triggers := (wiredFor.map setting.wiring).getD []
          skills := []
          confirmed := [] }
      wiredFor := wiredFor }

end Legba.Reconcile
