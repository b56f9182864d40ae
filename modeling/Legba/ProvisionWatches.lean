import Legba.LabelledRun
import Legba.ProvisionReconcile

/-!
# Does provisioning forget a watch?

A registration which took effect but reported a failure is only pending, and a
pass which no longer wants it neither retries nor removes it.  In the same way a
removal which took effect but reported a failure leaves the watch registered,
and a pass which wants it again does not register it.  These are the only two
ways in which the recorded sets and the upstream part.
-/

namespace Legba.Provision

open LabelledRun List

/-! ## The two loops of a pass -/

section

variable {answer : String → Answer} {params : List String}
variable {before after : Pass} {param : String}

structure Registers (answer : String → Answer) (params : List String)
    (before after : Pass) : Prop where
  registered : ∀ param, param ∈ after.registered ↔
    param ∈ before.registered ∨ param ∈ params ∧ (answer param).ok = true
  pending : ∀ param, param ∈ after.pending ↔
    param ∈ before.pending ∧ (param ∈ params → (answer param).ok = false) ∨
      param ∈ params ∧ (answer param).ok = false
  upstream : ∀ param, param ∈ after.upstream ↔
    param ∈ before.upstream ∨ param ∈ params ∧ (answer param).tookEffect = true
  pendingRemovals : after.pendingRemovals = before.pendingRemovals
  failed : after.result.pending =
    before.result.pending ++ params.filter fun param => !(answer param).ok
  failedRemovals : after.result.pendingRemovals = before.result.pendingRemovals

structure Deregisters (answer : String → Answer) (params : List String)
    (before after : Pass) : Prop where
  registered : ∀ param, param ∈ after.registered ↔
    param ∈ before.registered ∧ (param ∈ params → (answer param).ok = false)
  pendingRemovals : ∀ param, param ∈ after.pendingRemovals ↔
    param ∈ before.pendingRemovals ∧ (param ∈ params → (answer param).ok = false) ∨
      param ∈ params ∧ (answer param).ok = false
  upstream : ∀ param, param ∈ after.upstream ↔
    param ∈ before.upstream ∧ (param ∈ params → (answer param).tookEffect = false)
  pending : after.pending = before.pending
  failed : after.result.pending = before.result.pending
  failedRemovals : after.result.pendingRemovals =
    before.result.pendingRemovals ++ params.filter fun param => !(answer param).ok

variable {pass : Pass} {other : String}

theorem mem_registered_registerOne :
    other ∈ (registerOne answer pass param).registered ↔
      other ∈ pass.registered ∨ other = param ∧ (answer other).ok = true := by
  unfold registerOne
  by_cases hother : other = param
  · subst other
    cases hok : (answer param).ok with
    | false => simp
    | true => simp
  · cases hok : (answer param).ok with
    | false => simp [hother]
    | true => simp [hother]

theorem mem_pending_registerOne :
    other ∈ (registerOne answer pass param).pending ↔
      other ∈ pass.pending ∧ (other = param → (answer other).ok = false) ∨
        other = param ∧ (answer other).ok = false := by
  unfold registerOne
  by_cases hother : other = param
  · subst other
    cases hok : (answer param).ok with
    | false => simp
    | true => simp
  · cases hok : (answer param).ok with
    | false => simp [hother]
    | true => simp [hother]

theorem mem_upstream_registerOne :
    other ∈ (registerOne answer pass param).upstream ↔
      other ∈ pass.upstream ∨ other = param ∧ (answer other).tookEffect = true := by
  have hupstream : (registerOne answer pass param).upstream =
      if (answer param).tookEffect then pass.upstream.insert param
      else pass.upstream := by
    unfold registerOne
    cases (answer param).ok with
    | false => rfl
    | true => rfl
  rw [hupstream]
  by_cases hother : other = param
  · subst other
    split
    case isTrue heffect => simp [heffect]
    case isFalse heffect => simp [heffect]
  · split
    · simp [hother]
    · simp [hother]

theorem failed_registerOne (answer : String → Answer) (pass : Pass) (param : String) :
    (registerOne answer pass param).result.pending =
      pass.result.pending ++ [param].filter fun param => !(answer param).ok := by
  unfold registerOne
  cases hok : (answer param).ok with
  | false => simp [hok]
  | true => simp [hok]

theorem registers_foldl (answer : String → Answer) (params : List String) (pass : Pass) :
    Registers answer params pass (params.foldl (registerOne answer) pass) := by
  induction params generalizing pass with
  | nil =>
    refine ⟨?_, ?_, ?_, rfl, ?_, rfl⟩
    · simp
    · simp
    · simp
    · simp
  | cons head rest ih =>
    have hrest := ih (registerOne answer pass head)
    rw [foldl_cons]
    refine ⟨?_, ?_, ?_, ?_, ?_, ?_⟩
    · intro param
      rw [hrest.registered, mem_registered_registerOne, mem_cons]
      tauto
    · intro param
      rw [hrest.pending, mem_pending_registerOne, mem_cons]
      tauto
    · intro param
      rw [hrest.upstream, mem_upstream_registerOne, mem_cons]
      tauto
    · rw [hrest.pendingRemovals]
      unfold registerOne
      cases (answer head).ok with
      | false => rfl
      | true => rfl
    · rw [hrest.failed, failed_registerOne, append_assoc, ← filter_append]
      rfl
    · rw [hrest.failedRemovals]
      unfold registerOne
      cases (answer head).ok with
      | false => rfl
      | true => rfl

theorem mem_registered_deregisterOne :
    other ∈ (deregisterOne answer pass param).registered ↔
      other ∈ pass.registered ∧ (other = param → (answer other).ok = false) := by
  unfold deregisterOne
  by_cases hother : other = param
  · subst other
    cases hok : (answer param).ok with
    | false => simp
    | true => simp
  · cases hok : (answer param).ok with
    | false => simp [hother]
    | true => simp [hother]

theorem mem_pendingRemovals_deregisterOne :
    other ∈ (deregisterOne answer pass param).pendingRemovals ↔
      other ∈ pass.pendingRemovals ∧ (other = param → (answer other).ok = false) ∨
        other = param ∧ (answer other).ok = false := by
  unfold deregisterOne
  by_cases hother : other = param
  · subst other
    cases hok : (answer param).ok with
    | false => simp
    | true => simp
  · cases hok : (answer param).ok with
    | false => simp [hother]
    | true => simp [hother]

theorem mem_upstream_deregisterOne :
    other ∈ (deregisterOne answer pass param).upstream ↔
      other ∈ pass.upstream ∧ (other = param → (answer other).tookEffect = false) := by
  have hupstream : (deregisterOne answer pass param).upstream =
      if (answer param).tookEffect then discard pass.upstream param
      else pass.upstream := by
    unfold deregisterOne
    cases (answer param).ok with
    | false => rfl
    | true => rfl
  rw [hupstream]
  by_cases hother : other = param
  · subst other
    split
    case isTrue heffect => simp [heffect]
    case isFalse heffect => simp [heffect]
  · split
    · simp [hother]
    · simp [hother]

theorem failed_deregisterOne (answer : String → Answer) (pass : Pass) (param : String) :
    (deregisterOne answer pass param).result.pendingRemovals =
      pass.result.pendingRemovals ++ [param].filter fun param => !(answer param).ok := by
  unfold deregisterOne
  cases hok : (answer param).ok with
  | false => simp [hok]
  | true => simp [hok]

theorem deregisters_foldl (answer : String → Answer) (params : List String) (pass : Pass) :
    Deregisters answer params pass (params.foldl (deregisterOne answer) pass) := by
  induction params generalizing pass with
  | nil =>
    refine ⟨?_, ?_, ?_, rfl, rfl, ?_⟩
    · simp
    · simp
    · simp
    · simp
  | cons head rest ih =>
    have hrest := ih (deregisterOne answer pass head)
    rw [foldl_cons]
    refine ⟨?_, ?_, ?_, ?_, ?_, ?_⟩
    · intro param
      rw [hrest.registered, mem_registered_deregisterOne, mem_cons]
      tauto
    · intro param
      rw [hrest.pendingRemovals, mem_pendingRemovals_deregisterOne, mem_cons]
      tauto
    · intro param
      rw [hrest.upstream, mem_upstream_deregisterOne, mem_cons]
      tauto
    · rw [hrest.pending]
      unfold deregisterOne
      cases (answer head).ok with
      | false => rfl
      | true => rfl
    · rw [hrest.failed]
      unfold deregisterOne
      cases (answer head).ok with
      | false => rfl
      | true => rfl
    · rw [hrest.failedRemovals, failed_deregisterOne, append_assoc, ← filter_append]
      rfl

end

/-! ## One pass -/

def ProvisionEvent.provision : ProvisionEvent → ProvisionBlock
  | .reconcile provision _ _ => provision
  | .deprovision provision _ => provision

def ProvisionEvent.desired : ProvisionEvent → List String
  | .reconcile _ desired _ => desired
  | .deprovision _ _ => []

def ProvisionEvent.client : ProvisionEvent → UpstreamClient
  | .reconcile _ _ client => client
  | .deprovision _ client => client

def WatchState.loaded (state : WatchState) : ProvisionState :=
  loadState state.stored

/-- Every watch upstream is wanted, or is on record to be removed; and a pass
reports convergence only if the upstream watches are the desired ones. -/
def NeverForgets (state : WatchState) : Prop :=
  (∀ param ∈ state.upstream, param ∈ state.desired ∨
    param ∈ state.loaded.registered ∨ param ∈ state.loaded.pendingRemovals) ∧
  (state.result.converged = true → ∀ param, param ∈ state.upstream ↔ param ∈ state.desired)

def AllConfirmed (ctx : SourceContext) (state : WatchState) (event : ProvisionEvent) : Prop :=
  (∀ param ∈ state.loaded.toAdd event.desired,
    (registerAnswer ctx event.provision event.client param).ok = true) ∧
  ∀ param ∈ state.loaded.toRemove event.desired,
    (deregisterAnswer ctx event.provision event.client param).ok = true

/-- The pass still wants each watch which exists upstream and is only pending,
and if all its calls are confirmed, each watch it wants and finds registered
exists upstream. -/
def DropsNoTrace (ctx : SourceContext) (state : WatchState)
    (event : ProvisionEvent) (_ : WatchState) : Prop :=
  (∀ param ∈ state.upstream, param ∈ state.loaded.pending → param ∈ event.desired) ∧
  (AllConfirmed ctx state event → ∀ param ∈ event.desired,
    param ∈ state.loaded.registered → param ∈ state.upstream)

structure Tracked (state : WatchState) : Prop where
  recorded : ∀ param ∈ state.upstream,
    param ∈ state.loaded.registered ∨ param ∈ state.loaded.pending
  pending : ∀ param ∈ state.loaded.pending, param ∉ state.loaded.registered
  removals : ∀ param ∈ state.loaded.pendingRemovals, param ∈ state.loaded.registered
  confirmed : ∀ param ∈ state.loaded.registered,
    param ∉ state.loaded.pendingRemovals → param ∈ state.upstream

section

variable {ctx : SourceContext} {state next : WatchState}
variable {event : ProvisionEvent} {param : String}

variable {desired : List String}

theorem mem_toAdd {state : ProvisionState} :
    param ∈ state.toAdd desired ↔
      param ∈ desired ∧ (param ∉ state.registered ∨ param ∈ state.pending) := by
  simp only [ProvisionState.toAdd, mem_append, mem_filter, decide_eq_true_eq]
  tauto

theorem mem_toRemove {state : ProvisionState} :
    param ∈ state.toRemove desired ↔
      (param ∈ state.registered ∨ param ∈ state.pendingRemovals) ∧ param ∉ desired := by
  simp only [ProvisionState.toRemove, mem_append, mem_filter, decide_eq_true_eq]

theorem provisionStep_eq (hstep : provisionStep ctx state event = some next) :
    event.provision.enabled = true ∧
      next = reconcileProvision ctx event.provision event.desired event.client
        state := by
  cases event with
  | reconcile provision desired client =>
    simp only [provisionStep, Option.ite_none_right_eq_some, Option.some.injEq] at hstep
    exact ⟨hstep.1, hstep.2.symm⟩
  | deprovision provision client =>
    simp only [provisionStep, Option.ite_none_right_eq_some, Option.some.injEq] at hstep
    exact ⟨hstep.1, hstep.2.symm⟩

structure PassOutcome (ctx : SourceContext) (state : WatchState)
    (event : ProvisionEvent) (next : WatchState) : Prop where
  desired : next.desired = event.desired
  registered : ∀ param, param ∈ next.loaded.registered ↔
    (param ∈ state.loaded.registered ∨
      param ∈ state.loaded.toAdd event.desired ∧
        (registerAnswer ctx event.provision event.client param).ok = true) ∧
    (param ∈ state.loaded.toRemove event.desired →
      (deregisterAnswer ctx event.provision event.client param).ok = false)
  pending : ∀ param, param ∈ next.loaded.pending ↔
    param ∈ state.loaded.pending ∧
        (param ∈ state.loaded.toAdd event.desired →
          (registerAnswer ctx event.provision event.client param).ok = false) ∨
      param ∈ state.loaded.toAdd event.desired ∧
        (registerAnswer ctx event.provision event.client param).ok = false
  pendingRemovals : ∀ param, param ∈ next.loaded.pendingRemovals ↔
    param ∈ state.loaded.pendingRemovals ∧
        (param ∈ state.loaded.toRemove event.desired →
          (deregisterAnswer ctx event.provision event.client param).ok = false) ∨
      param ∈ state.loaded.toRemove event.desired ∧
        (deregisterAnswer ctx event.provision event.client param).ok = false
  upstream : ∀ param, param ∈ next.upstream ↔
    (param ∈ state.upstream ∨
      param ∈ state.loaded.toAdd event.desired ∧
        (registerAnswer ctx event.provision event.client param).tookEffect = true) ∧
    (param ∈ state.loaded.toRemove event.desired →
      (deregisterAnswer ctx event.provision event.client param).tookEffect = false)
  converged : next.result.converged = true ↔ AllConfirmed ctx state event

theorem passOutcome (hstep : provisionStep ctx state event = some next) :
    PassOutcome ctx state event next := by
  obtain ⟨henabled, rfl⟩ := provisionStep_eq hstep
  have hadds := registers_foldl (registerAnswer ctx event.provision event.client) (sorted
    (state.loaded.toAdd event.desired)) (startPass state.loaded state.upstream)
  have hremoves := deregisters_foldl
    (deregisterAnswer ctx event.provision event.client)
    (sorted (state.loaded.toRemove event.desired))
    ((sorted (state.loaded.toAdd event.desired)).foldl
      (registerOne (registerAnswer ctx event.provision event.client))
      (startPass state.loaded state.upstream))
  have hnext : reconcileProvision ctx event.provision event.desired event.client
      state =
        let pass := reconcilePass ctx event.provision event.desired
          event.client state.loaded state.upstream
        { stored := some ⟨sorted pass.registered, sorted pass.pending, sorted pass.pendingRemovals⟩
          upstream := pass.upstream
          desired := event.desired
          result :=
            { pass.result with registered := sorted pass.registered } } := by
    unfold reconcileProvision
    rw [if_pos henabled]
    rfl
  rw [hnext]
  refine ⟨rfl, ?_, ?_, ?_, ?_, ?_⟩
  · intro param
    refine mem_sorted.trans ((hremoves.registered param).trans ?_)
    rw [hadds.registered param, mem_sorted, mem_sorted]
    rfl
  · intro param
    refine mem_sorted.trans ?_
    have hpending := hadds.pending param
    rw [mem_sorted, ← hremoves.pending] at hpending
    exact hpending
  · intro param
    refine mem_sorted.trans ((hremoves.pendingRemovals param).trans ?_)
    rw [hadds.pendingRemovals, mem_sorted]
    rfl
  · intro param
    refine (hremoves.upstream param).trans ?_
    rw [hadds.upstream param, mem_sorted, mem_sorted]
    rfl
  · have hpending := hremoves.failed.trans hadds.failed
    have hremovals := hremoves.failedRemovals
    rw [hadds.failedRemovals] at hremovals
    refine Bool.and_eq_true_iff.trans (and_congr ?_ ?_)
    · refine isEmpty_iff.trans ((Eq.congr_left hpending).trans ?_)
      refine filter_eq_nil_iff.trans ?_
      simp only [mem_sorted, Bool.not_eq_true', Bool.not_eq_false]
    · refine isEmpty_iff.trans ((Eq.congr_left hremovals).trans ?_)
      refine filter_eq_nil_iff.trans ?_
      simp only [mem_sorted, Bool.not_eq_true', Bool.not_eq_false]

section

variable (htracked : Tracked state)

include htracked

section

variable (hstep : provisionStep ctx state event = some next)

include hstep

theorem Tracked.step : Tracked next := by
  have hpass := passOutcome hstep
  constructor
  case recorded =>
    intro param hparam
    rw [hpass.upstream, mem_toAdd, mem_toRemove] at hparam
    rw [hpass.registered, hpass.pending, mem_toAdd, mem_toRemove]
    have hrecorded := htracked.recorded param
    have hremoved := (deregisterAnswer ctx event.provision event.client param).tookEffect_of_ok
    grind
  case pending =>
    intro param hparam
    rw [hpass.pending, mem_toAdd] at hparam
    rw [hpass.registered, mem_toAdd, mem_toRemove]
    have hpending := htracked.pending param
    grind
  case removals =>
    intro param hparam
    rw [hpass.pendingRemovals, mem_toRemove] at hparam
    rw [hpass.registered, mem_toAdd, mem_toRemove]
    have hremovals := htracked.removals param
    grind
  case confirmed =>
    intro param hregistered hsettled
    rw [hpass.registered, mem_toAdd, mem_toRemove] at hregistered
    rw [hpass.pendingRemovals, mem_toRemove] at hsettled
    rw [hpass.upstream, mem_toAdd, mem_toRemove]
    have hconfirmed := htracked.confirmed param
    have hadded := (registerAnswer ctx event.provision event.client param).tookEffect_of_ok
    grind

theorem onRecord_iff :
    (∀ param ∈ next.upstream, param ∈ next.desired ∨
        param ∈ next.loaded.registered ∨
        param ∈ next.loaded.pendingRemovals) ↔
      ∀ param ∈ state.upstream, param ∈ state.loaded.pending → param ∈ event.desired := by
  have hpass := passOutcome hstep
  apply forall_congr'
  intro param
  rw [hpass.upstream, hpass.desired, hpass.registered, hpass.pendingRemovals,
    mem_toAdd, mem_toRemove]
  have hrecorded := htracked.recorded param
  have hpending := htracked.pending param
  have hremovals := htracked.removals param
  have hremoved := (deregisterAnswer ctx event.provision event.client param).tookEffect_of_ok
  grind

/-- A pass all of whose calls are confirmed leaves the desired watches exactly
if it neither drops a pending watch which exists upstream, nor wants one which
is registered and does not. -/
theorem upstream_eq_desired_iff (hconfirmed : AllConfirmed ctx state event) :
    (∀ param, param ∈ next.upstream ↔ param ∈ next.desired) ↔
      (∀ param ∈ state.upstream, param ∈ state.loaded.pending → param ∈ event.desired) ∧
      ∀ param ∈ event.desired, param ∈ state.loaded.registered → param ∈ state.upstream := by
  have hpass := passOutcome hstep
  rw [← forall_and]
  apply forall_congr'
  intro param
  rw [hpass.upstream, hpass.desired]
  have hadds := hconfirmed.1 param
  have hremoves := hconfirmed.2 param
  rw [mem_toAdd] at hadds ⊢
  rw [mem_toRemove] at hremoves ⊢
  have hrecorded := htracked.recorded param
  have hpending := htracked.pending param
  have hremovals := htracked.removals param
  have hadded := (registerAnswer ctx event.provision event.client param).tookEffect_of_ok
  have hremoved := (deregisterAnswer ctx event.provision event.client param).tookEffect_of_ok
  grind

theorem neverForgets_iff : NeverForgets next ↔ DropsNoTrace ctx state event next := by
  unfold NeverForgets DropsNoTrace
  rw [onRecord_iff htracked hstep, (passOutcome hstep).converged]
  constructor
  · rintro ⟨hrecord, hexact⟩
    refine ⟨hrecord, fun hconfirmed => ?_⟩
    exact ((upstream_eq_desired_iff htracked hstep hconfirmed).mp (hexact hconfirmed)).2
  · rintro ⟨hrecord, hexact⟩
    refine ⟨hrecord, fun hconfirmed => ?_⟩
    exact (upstream_eq_desired_iff htracked hstep hconfirmed).mpr ⟨hrecord, hexact hconfirmed⟩

end

end

end

theorem tracked_start : Tracked WatchState.start where
  recorded := fun _ hparam => nomatch hparam
  pending := fun _ hparam => nomatch hparam
  removals := fun _ hparam => nomatch hparam
  confirmed := fun _ hparam => nomatch hparam

/-- In all states of a run no watch is forgotten and every reported
convergence is one, if and only if no pass drops a pending watch which exists
upstream, or converges on a registered one which does not. -/
theorem provisioning_never_forgets_iff (ctx : SourceContext) (events : List ProvisionEvent) :
    VisitsOnly (provisionStep ctx) NeverForgets WatchState.start events ↔
      StepsSatisfy (provisionStep ctx) (DropsNoTrace ctx) WatchState.start
        events := by
  have hkeep : ∀ state event next, Tracked state →
      provisionStep ctx state event = some next → Tracked next :=
    fun _ _ _ htracked hstep => htracked.step hstep
  have hexact : ∀ state event next, Tracked state → NeverForgets state →
      provisionStep ctx state event = some next →
      (NeverForgets next ↔ DropsNoTrace ctx state event next) :=
    fun _ _ _ htracked _ hstep => neverForgets_iff htracked hstep
  have hstart : NeverForgets WatchState.start :=
    ⟨fun _ hparam => (nomatch hparam), fun _ _ => Iff.rfl⟩
  exact visitsOnly_iff_stepsSatisfy hkeep hexact tracked_start hstart

def fleetBlock : ProvisionBlock where
  enabled := true
  registerCall := ⟨"https://fleet/watch/\x7bwatch_param\x7d", none, none⟩
  deregisterCall := ⟨"https://fleet/watch/\x7bwatch_param\x7d", none, none⟩
  credentialSecret := none
  idempotencyKeyField := some "watch_key"

/-- The upstream acts on every request; its gateway times out on a `POST`. -/
def timedOutUpstream : UpstreamClient :=
  httpUpstreamClient fun request =>
    if request.method = "POST" then .responded 504 true
    else .responded 200 true

def retiredAfterTimeout : WatchState :=
  deprovisionAll ⟨"fleet", none⟩ fleetBlock timedOutUpstream
    (reconcileProvision ⟨"fleet", none⟩ fleetBlock ["person:X"] timedOutUpstream WatchState.start)

theorem timed_out_watch_forgotten :
    run (provisionStep ⟨"fleet", none⟩) WatchState.start
        [.reconcile fleetBlock ["person:X"] timedOutUpstream,
          .deprovision fleetBlock timedOutUpstream] =
      some retiredAfterTimeout ∧
    retiredAfterTimeout.result.converged = true ∧
    retiredAfterTimeout.desired = [] ∧
    retiredAfterTimeout.loaded.registered = [] ∧
    retiredAfterTimeout.loaded.pendingRemovals = [] ∧
    retiredAfterTimeout.upstream = ["person:X"] ∧
    ¬NeverForgets retiredAfterTimeout := by
  have hconverged : retiredAfterTimeout.result.converged := by decide +kernel
  have hupstream : retiredAfterTimeout.upstream = ["person:X"] := by decide +kernel
  refine ⟨rfl, hconverged, rfl, by decide +kernel, by decide +kernel, hupstream, ?_⟩
  rintro ⟨_, hexact⟩
  have hwatched : "person:X" ∈ retiredAfterTimeout.upstream := by
    rw [hupstream]
    exact mem_singleton_self _
  have hdesired := (hexact hconverged "person:X").mp hwatched
  exact absurd hdesired not_mem_nil

end Legba.Provision
