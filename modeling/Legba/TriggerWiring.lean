import Legba.ReconcileConvergence

/-!
# Do triggers and skills survive an edit?

An edit mints a new actor id, and the pass for the new head retires the actor
of the old version.  The retire hook drops the skills and the trigger
registrations of the whole analyst.  The skills come back when the head's actor
is activated or healed; the triggers are wired only when the process starts,
so that they stay what they were then, or are gone.
-/

namespace Legba.Reconcile

open Descriptors (LifecycleState)
open KeyedTable LabelledRun List

/-! ## The skill registry -/

section

variable {skills : List SkillRegistration} {skill other : SkillRegistration}
variable {analystId : String} {version : Version}

structure OwnSkills (analystId : String) (skills : List SkillRegistration) : Prop where
  owned : ∀ skill ∈ skills, skill.analystId = analystId
  nodup : (skills.map SkillRegistration.skillId).Nodup

theorem ownSkills_nil (analystId : String) : OwnSkills analystId [] where
  owned := fun _ hskill => nomatch hskill
  nodup := nodup_nil

theorem registerSkill_own (hown : OwnSkills analystId skills)
    (hskill : skill.analystId = analystId) :
    ∃ next, registerSkill skills skill = some next ∧
      OwnSkills analystId next ∧
      ∀ other, other ∈ next ↔ other = skill ∨ other ∈ skills ∧ other.skillId ≠ skill.skillId := by
  unfold registerSkill
  cases hfind : skills.find? fun other =>
      decide (other.skillId = skill.skillId) with
  | none =>
    have hfresh : ∀ other ∈ skills, other.skillId ≠ skill.skillId := by
      intro other hother hsame
      have hmiss := find?_eq_none.mp hfind other hother
      simp [hsame] at hmiss
    refine ⟨_, rfl, ⟨?_, ?_⟩, ?_⟩
    · intro other hother
      rcases mem_append.mp hother with hold | hnew
      · exact hown.owned other hold
      · rw [mem_singleton.mp hnew]
        exact hskill
    · rw [map_append, map_singleton]
      refine hown.nodup.append (nodup_singleton _) ?_
      intro id hid hsame
      rw [mem_singleton] at hsame
      subst hsame
      obtain ⟨other, hother, hsame⟩ := mem_map.mp hid
      exact hfresh other hother hsame
    · intro other
      rw [mem_append, mem_singleton, or_comm]
      exact or_congr_right ⟨fun hother => ⟨hother, hfresh other hother⟩, fun hother => hother.1⟩
  | some existing =>
    have hexisting := mem_of_find?_eq_some hfind
    have hid := find?_some hfind
    rw [decide_eq_true_eq] at hid
    have hanalyst : ¬existing.analystId ≠ skill.analystId := by
      rw [hown.owned existing hexisting, hskill]
      exact not_not.mpr rfl
    refine ⟨_, if_neg hanalyst, ⟨?_, ?_⟩, ?_⟩
    · intro other hother
      obtain ⟨old, hold, hreplaced⟩ := mem_map.mp hother
      split at hreplaced
      · rw [← hreplaced]
        exact hskill
      · rw [← hreplaced]
        exact hown.owned old hold
    · have hids : (skills.map fun other =>
          if other.skillId = skill.skillId then skill else other).map SkillRegistration.skillId =
          skills.map SkillRegistration.skillId := by
        rw [map_map]
        apply map_congr_left
        intro other _
        simp only [Function.comp_apply]
        split
        case isTrue hsame => exact hsame.symm
        case isFalse => rfl
      rw [hids]
      exact hown.nodup
    · intro other
      rw [mem_map]
      constructor
      · rintro ⟨old, hold, hreplaced⟩
        split at hreplaced
        case isTrue => exact .inl hreplaced.symm
        case isFalse hdiffers =>
          rw [← hreplaced]
          exact .inr ⟨hold, hdiffers⟩
      · rintro (rfl | ⟨hother, hdiffers⟩)
        · exact ⟨existing, hexisting, if_pos hid⟩
        · exact ⟨other, hother, if_neg hdiffers⟩

variable {declared : List SkillRegistration}

theorem registerSkills_own (hown : OwnSkills analystId skills)
    (hdeclared : ∀ skill ∈ declared, skill.analystId = analystId) :
    OwnSkills analystId (registerSkills skills declared) ∧
      ∀ other, other ∈ registerSkills skills declared ↔
        other ∈ skills ∧ other.skillId ∉ declared.map SkillRegistration.skillId ∨
          other ∈ registerSkills [] declared := by
  induction declared generalizing skills with
  | nil =>
    refine ⟨hown, fun other => ?_⟩
    simp [registerSkills]
  | cons skill rest ih =>
    rw [forall_mem_cons] at hdeclared
    obtain ⟨next, hnext, hnextOwn, hmem⟩ := registerSkill_own hown hdeclared.1
    obtain ⟨fresh, hfresh, hfreshOwn, hfreshMem⟩ :=
      registerSkill_own (ownSkills_nil analystId) hdeclared.1
    obtain ⟨hrestOwn, hrest⟩ := ih hnextOwn hdeclared.2
    obtain ⟨_, hfreshRest⟩ := ih hfreshOwn hdeclared.2
    simp only [registerSkills, hnext, hfresh]
    refine ⟨hrestOwn, fun other => ?_⟩
    rw [hrest, hfreshRest, hmem, hfreshMem, map_cons, mem_cons, not_or]
    tauto

theorem mem_of_mem_registerSkills_nil (hdeclared : ∀ skill ∈ declared, skill.analystId = analystId)
    (hskill : skill ∈ registerSkills [] declared) : skill ∈ declared := by
  induction declared with
  | nil => exact hskill
  | cons head rest ih =>
    rw [forall_mem_cons] at hdeclared
    obtain ⟨fresh, hfresh, hfreshOwn, hfreshMem⟩ :=
      registerSkill_own (ownSkills_nil analystId) hdeclared.1
    simp only [registerSkills, hfresh] at hskill
    rcases ((registerSkills_own hfreshOwn hdeclared.2).2 skill).mp hskill with ⟨hhead, _⟩ | hrest
    · rcases (hfreshMem skill).mp hhead with rfl | ⟨hnone, _⟩
      · exact mem_cons_self
      · cases hnone
    · exact mem_cons_of_mem _ (ih hdeclared.2 hrest)

theorem exists_registered_id (hdeclared : ∀ skill ∈ declared, skill.analystId = analystId)
    (hskill : skill ∈ declared) :
    ∃ other ∈ registerSkills [] declared, other.skillId = skill.skillId := by
  induction declared generalizing skill with
  | nil => cases hskill
  | cons head rest ih =>
    rw [forall_mem_cons] at hdeclared
    obtain ⟨fresh, hfresh, hfreshOwn, hfreshMem⟩ :=
      registerSkill_own (ownSkills_nil analystId) hdeclared.1
    have hmem := (registerSkills_own hfreshOwn hdeclared.2).2
    simp only [registerSkills, hfresh]
    by_cases hlater : skill.skillId ∈ rest.map SkillRegistration.skillId
    · obtain ⟨later, hmemLater, hsame⟩ := mem_map.mp hlater
      obtain ⟨other, hother, hid⟩ := ih hdeclared.2 hmemLater
      exact ⟨other, (hmem other).mpr (.inr hother), hid.trans hsame⟩
    · rcases mem_cons.mp hskill with rfl | hrest
      · refine ⟨skill, (hmem skill).mpr (.inl ⟨?_, hlater⟩), rfl⟩
        exact (hfreshMem skill).mpr (.inl rfl)
      · exact absurd (mem_map_of_mem hrest) hlater

end

/-! ## The planes of an analyst along a run -/

def Setting.published (setting : Setting) (version : Version) : List SkillRegistration :=
  registerSkills [] (declaredSkills setting.descriptorId version (setting.bodyOf version))

def Setting.bootTriggers (setting : Setting) (wiredFor : Option Version) :
    List TriggerRegistration :=
  (wiredFor.map setting.wiring).getD []

def Runtime.tornDown (runtime : Runtime) : Bool :=
  runtime.confirmed.any fun call => decide (call.2 = .retire)

def Runtime.Live (runtime : Runtime) (actorId : String) : Prop :=
  ∃ row, runtime.rows.row? actorId = some row ∧ row.lifecycle ≠ .retired

/-- Each skill belongs to a version with a live actor and is whole, unless
another version took its id over.  The triggers are those the process started
with, until an actor is retired. -/
structure Planes (setting : Setting) (versions : Version → Prop)
    (wiredFor : Option Version) (runtime : Runtime) : Prop where
  own : OwnSkills setting.descriptorId runtime.skills
  live : ∀ skill ∈ runtime.skills, versions skill.analystVersion ∧
    skill ∈ setting.published skill.analystVersion ∧
    runtime.Live (actorIdOf setting.kind setting.descriptorId skill.analystVersion)
  whole : ∀ skill ∈ runtime.skills,
    ∀ other ∈ setting.published skill.analystVersion,
      ∃ found ∈ runtime.skills, found.skillId = other.skillId
  triggers : runtime.triggers =
    if runtime.tornDown then [] else setting.bootTriggers wiredFor

section

variable {setting : Setting} {versions : Version → Prop}
variable {wiredFor : Option Version} {runtime next : Runtime}
variable {turn : PassTurn} {version : Version} {action actorId : String}
variable {detail : Coordinates}

variable {analystId : String} {skill : SkillRegistration}
  {lifecycle : LifecycleState}

theorem analystId_declaredSkills {body : AnalystBody} :
    ∀ skill ∈ declaredSkills analystId version body, skill.analystId = analystId := by
  intro skill hskill
  obtain ⟨output, _, rfl⟩ := mem_map.mp hskill
  rfl

theorem analystVersion_declaredSkills {body : AnalystBody}
    (hskill : skill ∈ declaredSkills analystId version body) : skill.analystVersion = version := by
  obtain ⟨output, _, rfl⟩ := mem_map.mp hskill
  rfl

theorem analystVersion_published (hskill : skill ∈ setting.published version) :
    skill.analystVersion = version :=
  analystVersion_declaredSkills (mem_of_mem_registerSkills_nil analystId_declaredSkills hskill)

theorem unregisterSkills_eq_nil {skills : List SkillRegistration}
    (hown : OwnSkills analystId skills) : unregisterSkills skills analystId = [] := by
  refine filter_eq_nil_iff.mpr fun skill hskill => ?_
  simp [hown.owned skill hskill]

theorem unregister_bootTriggers :
    unregisterTriggers (setting.bootTriggers wiredFor) setting.descriptorId = [] := by
  cases wiredFor with
  | none => rfl
  | some version =>
    refine filter_eq_nil_iff.mpr fun registration hwired => ?_
    obtain ⟨target, _, hregistered⟩ := mem_filterMap.mp hwired
    split at hregistered
    · cases hregistered
    · obtain ⟨bindings, _, hbound⟩ := Option.bind_eq_some_iff.mp hregistered
      split at hbound
      · obtain rfl := Option.some.inj hbound
        simp
      · cases hbound

theorem Planes.of_same (hplanes : Planes setting versions wiredFor runtime)
    (hsame : next.skills = runtime.skills ∧ next.triggers = runtime.triggers ∧ next.tornDown =
      runtime.tornDown) (hlive : ∀ actorId, runtime.Live actorId → next.Live actorId) :
    Planes setting versions wiredFor next := by
  obtain ⟨hskills, htriggers, htorn⟩ := hsame
  refine ⟨?_, ?_, ?_, ?_⟩
  · rw [hskills]
    exact hplanes.own
  · rw [hskills]
    intro skill hskill
    obtain ⟨hversion, hpublished, hactor⟩ := hplanes.live skill hskill
    exact ⟨hversion, hpublished, hlive _ hactor⟩
  · rw [hskills]
    exact hplanes.whole
  · rw [htriggers, htorn]
    exact hplanes.triggers

theorem live_writeObserved {other : String} (hlifecycle : lifecycle ≠ .retired)
    (hlive : runtime.Live other) :
    (runtime.writeObserved action actorId detail lifecycle).Live other := by
  obtain ⟨written, hrows, hobserved⟩ := rows_writeObserved runtime action actorId detail lifecycle
  unfold Runtime.Live
  rw [hrows]
  by_cases hother : other = actorId
  · subst hother
    refine ⟨written, Table.row?_put_self _ _ _, ?_⟩
    rw [hobserved.lifecycle]
    exact hlifecycle
  · obtain ⟨row, hrow, hstate⟩ := hlive
    exact ⟨row, (Table.row?_put_of_ne _ hother _).trans hrow, hstate⟩

theorem call_cases (turn : PassTurn) (actorId : String)
    (method : ActorMethod) (follow : Runtime → Runtime) :
    (runtime.call turn actorId method follow).1 = runtime ∨
      (runtime.call turn actorId method follow).1 =
        follow { runtime with
          confirmed := runtime.confirmed ++ [(actorId, method)] } := by
  unfold Runtime.call
  cases turn.calls actorId with
  | confirmed => exact .inr rfl
  | timedOut => exact .inl rfl
  | raised => exact .inl rfl
  | cancelled => exact .inl rfl

theorem tornDown_confirmed (method : ActorMethod) :
    { runtime with
      confirmed := runtime.confirmed ++ [(actorId, method)] }.tornDown =
        (runtime.tornDown || decide (method = .retire)) := by
  simp [Runtime.tornDown]

section

variable (hplanes : Planes setting versions wiredFor runtime)

include hplanes

theorem Planes.confirmed {method : ActorMethod} (hmethod : method ≠ .retire) :
    Planes setting versions wiredFor
      { runtime with
        confirmed := runtime.confirmed ++ [(actorId, method)] } := by
  refine hplanes.of_same ⟨rfl, rfl, ?_⟩ fun _ hlive => hlive
  rw [tornDown_confirmed, decide_eq_false hmethod, Bool.or_false]

theorem Planes.writeObserved (hlifecycle : lifecycle ≠ .retired) :
    Planes setting versions wiredFor (runtime.writeObserved action actorId detail lifecycle) :=
  hplanes.of_same ⟨rfl, rfl, rfl⟩ fun _ hlive => live_writeObserved hlifecycle hlive

theorem Planes.forget (analystId : String) :
    Planes setting versions wiredFor (runtime.forget analystId actorId) := by
  unfold Runtime.forget
  split
  · exact hplanes.of_same ⟨rfl, rfl, rfl⟩ fun _ hlive => hlive
  · exact hplanes

theorem Planes.pause :
    Planes setting versions wiredFor (runtime.pause turn action actorId detail).1 := by
  rcases call_cases turn actorId .pause fun runtime =>
      (runtime.analystPaused actorId detail).writeObserved action actorId
        detail .paused with hsame | hfollow
  · rw [Runtime.pause, hsame]
    exact hplanes
  · rw [Runtime.pause, hfollow]
    refine Planes.writeObserved ?_ (by simp)
    unfold Runtime.analystPaused
    split
    · exact (hplanes.confirmed (by simp)).forget _
    · exact hplanes.confirmed (by simp)

end

theorem analystRetired_empties (runtime : Runtime) (actorId : String)
    (hkind : detail.descriptorKind = .analyst) (hid : detail.descriptorId = setting.descriptorId)
    (hown : OwnSkills setting.descriptorId runtime.skills) :
    (runtime.analystRetired actorId detail).skills = [] ∧
      (runtime.analystRetired actorId detail).triggers =
        unregisterTriggers runtime.triggers setting.descriptorId ∧
      (runtime.analystRetired actorId detail).confirmed = runtime.confirmed := by
  have hskills := unregisterSkills_eq_nil hown
  unfold Runtime.analystRetired Runtime.forget
  rw [if_pos hkind, hid, hskills]
  split
  · exact ⟨rfl, rfl, rfl⟩
  · exact ⟨rfl, rfl, rfl⟩

theorem planes_of_empty (hskills : runtime.skills = []) (htriggers : runtime.triggers = [])
    (htorn : runtime.tornDown) : Planes setting versions wiredFor runtime := by
  refine ⟨?_, ?_, ?_, ?_⟩
  · rw [hskills]
    exact ownSkills_nil _
  · rw [hskills]
    exact fun _ hskill => nomatch hskill
  · rw [hskills]
    exact fun _ hskill => nomatch hskill
  · rw [htriggers, htorn]
    rfl

theorem Planes.retire (hplanes : Planes setting versions wiredFor runtime)
    (hkind : detail.descriptorKind = .analyst) (hid : detail.descriptorId = setting.descriptorId) :
    Planes setting versions wiredFor (runtime.retire turn action actorId detail).1 := by
  have hnone : unregisterTriggers runtime.triggers setting.descriptorId = [] := by
    rw [hplanes.triggers]
    split
    · rfl
    · exact unregister_bootTriggers
  rcases call_cases turn actorId .retire fun runtime =>
      (runtime.analystRetired actorId detail).writeObserved action actorId
        detail .retired with hsame | hfollow
  · rw [Runtime.retire, hsame]
    exact hplanes
  · rw [Runtime.retire, hfollow]
    obtain ⟨hskills, htriggers, hlog⟩ := analystRetired_empties
      { runtime with
        confirmed := runtime.confirmed ++ [(actorId, ActorMethod.retire)] }
      actorId hkind hid hplanes.own
    refine planes_of_empty hskills (htriggers.trans hnone) ?_
    refine (congrArg (any · _) hlog).trans ?_
    simp

theorem wentLive_of_analyst (typed : AnalystBody) (hkind : detail.descriptorKind = .analyst) :
    runtime.wentLive turn typed actorId detail =
      (runtime.remember detail.descriptorId actorId).publishSkills turn typed
        detail := if_pos hkind

theorem Planes.publishSkills (hplanes : Planes setting versions wiredFor runtime)
    (hversion : versions detail.descriptorVersion)
    (hid : detail.descriptorId = setting.descriptorId)
    (hlive : runtime.Live (actorIdOf setting.kind setting.descriptorId detail.descriptorVersion)) :
    Planes setting versions wiredFor
      (runtime.publishSkills turn (setting.bodyOf detail.descriptorVersion) detail) := by
  unfold Runtime.publishSkills
  split
  case isTrue => exact hplanes
  case isFalse =>
    rw [hid]
    have hdeclared : ∀ skill ∈ declaredSkills setting.descriptorId
        detail.descriptorVersion (setting.bodyOf detail.descriptorVersion),
        skill.analystId = setting.descriptorId := analystId_declaredSkills
    obtain ⟨hown, hmem⟩ := registerSkills_own hplanes.own hdeclared
    refine ⟨hown, ?_, ?_, hplanes.triggers⟩
    · intro skill hskill
      rcases (hmem skill).mp hskill with ⟨hold, _⟩ | hnew
      · exact hplanes.live skill hold
      · have hsame : skill.analystVersion = detail.descriptorVersion :=
          analystVersion_published hnew
        rw [hsame]
        exact ⟨hversion, hnew, hlive⟩
    · intro skill hskill other hother
      rcases (hmem skill).mp hskill with ⟨hold, _⟩ | hnew
      · obtain ⟨found, hfound, hsame⟩ := hplanes.whole skill hold other hother
        by_cases hclaimed : found.skillId ∈
            (declaredSkills setting.descriptorId detail.descriptorVersion
              (setting.bodyOf detail.descriptorVersion)).map SkillRegistration.skillId
        · obtain ⟨declared, hdeclared, hclaims⟩ := mem_map.mp hclaimed
          obtain ⟨taken, htaken, hid⟩ := exists_registered_id analystId_declaredSkills hdeclared
          exact ⟨taken, (hmem taken).mpr (.inr htaken), hid.trans (hclaims.trans hsame)⟩
        · exact ⟨found, (hmem found).mpr (.inl ⟨hfound, hclaimed⟩), hsame⟩
      · have hsame : skill.analystVersion = detail.descriptorVersion :=
          analystVersion_published hnew
        rw [hsame] at hother
        exact ⟨other, (hmem other).mpr (.inr hother), rfl⟩

theorem publishSkills_writeObserved (typed : AnalystBody) (lifecycle : LifecycleState) :
    (runtime.publishSkills turn typed detail).writeObserved action actorId detail lifecycle =
      (runtime.writeObserved action actorId detail lifecycle).publishSkills turn typed detail := by
  unfold Runtime.publishSkills
  by_cases hskip : (hasAnalystVersion runtime.skills detail.descriptorId
      detail.descriptorVersion || turn.fetchFails) = true
  · rw [if_pos hskip]
    exact (if_pos hskip).symm
  · rw [if_neg hskip]
    exact (if_neg hskip).symm

theorem live_written (hlifecycle : lifecycle ≠ .retired) :
    (runtime.writeObserved action actorId detail lifecycle).Live actorId := by
  obtain ⟨written, hrows, hobserved⟩ := rows_writeObserved runtime action actorId detail lifecycle
  refine ⟨written, ?_, ?_⟩
  · rw [hrows]
    exact Table.row?_put_self _ _ _
  · rw [hobserved.lifecycle]
    exact hlifecycle

theorem Planes.activate (hplanes : Planes setting versions wiredFor runtime)
    (hversion : versions detail.descriptorVersion)
    (hid : detail.descriptorId = setting.descriptorId)
    (hactor : actorId = actorIdOf setting.kind setting.descriptorId detail.descriptorVersion)
    {method : ActorMethod} (hmethod : method ≠ .retire) :
    Planes setting versions wiredFor
      (runtime.activate turn (setting.bodyOf detail.descriptorVersion) action
        actorId detail method).1 := by
  rcases call_cases turn actorId method fun runtime =>
      (runtime.wentLive turn (setting.bodyOf detail.descriptorVersion) actorId
        detail).writeObserved action actorId detail .active
    with hsame | hfollow
  · rw [Runtime.activate, hsame]
    exact hplanes
  · rw [Runtime.activate, hfollow]
    have hconfirmed : Planes setting versions wiredFor
        { runtime with
          confirmed := runtime.confirmed ++ [(actorId, method)] } :=
      hplanes.confirmed hmethod
    unfold Runtime.wentLive
    split
    · rw [publishSkills_writeObserved]
      refine Planes.publishSkills ?_ hversion hid ?_
      · refine Planes.writeObserved ?_ (by simp)
        exact hconfirmed.of_same ⟨rfl, rfl, rfl⟩ fun _ hlive => hlive
      · rw [← hactor]
        exact live_written (by simp)
    · exact hconfirmed.writeObserved (by simp)

theorem Planes.restart (hplanes : Planes setting versions wiredFor runtime) :
    Planes setting versions wiredFor
      (runtime.call turn actorId .activate fun runtime =>
        runtime.writeObserved action actorId detail .active).1 := by
  rcases call_cases turn actorId .activate fun runtime =>
      runtime.writeObserved action actorId detail .active with hsame | hfollow
  · rw [hsame]
    exact hplanes
  · rw [hfollow]
    exact (hplanes.confirmed (by simp)).writeObserved (by simp)

end

/-! ## Passes and runs -/

section

variable {setting : Setting} {versions : Version → Prop}
variable {wiredFor : Option Version} {runtime : Runtime} {turn : PassTurn}
variable {version : Version} {lifecycle : LifecycleState}

theorem Planes.siblingRetire (hkind : setting.kind = .analyst)
    (hplanes : Planes setting versions wiredFor runtime)
    (sibling : String × ActorRow) (typed : AnalystBody) :
    Planes setting versions wiredFor
      (execute turn typed runtime (siblingRetire (setting.desired version lifecycle) sibling)).1 :=
  hplanes.retire hkind rfl

theorem Planes.executeHead (hkind : setting.kind = .analyst) (hversion : versions version)
    (hplanes : Planes setting versions wiredFor runtime) {action : ReconcileAction}
    (hactor : action.actorId = (setting.desired version lifecycle).actorId)
    (hdetail : ∀ detail, action.detail? = some detail → detail = (setting.desired version
      lifecycle).coordinates) :
    Planes setting versions wiredFor (execute turn (setting.bodyOf version) runtime action).1 := by
  have hactivate : ∀ text actorId method,
      actorId = (setting.desired version lifecycle).actorId →
      method ≠ ActorMethod.retire →
      Planes setting versions wiredFor
        (runtime.activate turn (setting.bodyOf version) text actorId
          (setting.desired version lifecycle).coordinates method).1 := by
    intro text actorId method hactor hmethod
    apply Planes.activate hplanes
    · exact hversion
    · rfl
    · exact hactor
    · exact hmethod
  cases action with
  | noop actorId reason => exact hplanes
  | createActor actorId detail target =>
    obtain rfl := hdetail detail rfl
    cases target with
    | active => exact hactivate "create_actor" actorId .activate hactor (by simp)
    | paused => exact hplanes.pause
    | draft => exact hplanes
    | configured => exact hplanes
    | retired => exact hplanes
  | ensureActive actorId detail =>
    obtain rfl := hdetail detail rfl
    simp only [execute]
    split
    · exact hplanes
    · exact hactivate "ensure_active" actorId .activate hactor (by simp)
  | transitionLifecycle actorId detail source target =>
    obtain rfl := hdetail detail rfl
    cases target with
    | active =>
      refine hactivate "transition_lifecycle" actorId _ hactor ?_
      split <;> simp
    | paused => exact hplanes.pause
    | retired => exact hplanes.retire hkind rfl
    | draft => exact hplanes
    | configured => exact hplanes
  | restartActor actorId detail oldVersion => exact hplanes.restart
  | retireActor actorId detail fromState headVersion =>
    obtain rfl := hdetail detail rfl
    exact hplanes.retire hkind rfl

theorem eq_coordinates_of_detail? {actorId : String}
    {record : Option ActorRow} {desired : DesiredState}
    {detail : Coordinates}
    (hdetail : (commonReconcile actorId record desired).detail? =
      some detail) : detail = desired.coordinates := by
  rcases detail_commonReconcile with hnone | hsame
  · rw [hnone] at hdetail
    cases hdetail
  · rw [hsame] at hdetail
    exact (Option.some.inj hdetail).symm

theorem Planes.sweepSiblings (hkind : setting.kind = .analyst)
    (hplanes : Planes setting versions wiredFor runtime) (siblings : List (String × ActorRow)) :
    Planes setting versions wiredFor
      (sweepSiblings turn (setting.desired version lifecycle) runtime siblings).1 :=
  sweepSiblings_induction siblings
    (fun _ sibling _ hkept => hkept.siblingRetire hkind sibling _) hplanes

theorem Planes.runOnce (hkind : setting.kind = .analyst) (hversion : versions version)
    (hplanes : Planes setting versions wiredFor runtime) :
    Planes setting versions wiredFor
      (runOnce turn (setting.desired version lifecycle) runtime).1 := by
  have hswept : Planes setting versions wiredFor
      (Reconcile.sweepSiblings turn (setting.desired version lifecycle)
        runtime (listLiveSiblings runtime.rows setting.kind
          setting.descriptorId
          (setting.desired version lifecycle).actorId)).1 :=
    hplanes.sweepSiblings hkind _
  unfold Reconcile.runOnce
  dsimp only
  split
  · exact hswept.executeHead hkind hversion actorId_commonReconcile
      fun _ hdetail => eq_coordinates_of_detail? hdetail
  · exact hswept

def PlanesKept (setting : Setting) (versions : Version → Prop) (state : LoopState) : Prop :=
  Accounted setting versions state ∧ Planes setting versions state.wiredFor state.runtime

theorem planesKept_step {state next : LoopState} {event : LoopEvent}
    (hkind : setting.kind = .analyst) (hkept : PlanesKept setting versions state)
    (hstep : loopStep setting state event = some next)
    (hevent : ∀ version lifecycle, event = .head version lifecycle → versions
      version) : PlanesKept setting versions next := by
  refine ⟨accounted_step hkept.1 hstep hevent, ?_⟩
  cases event with
  | head version lifecycle =>
    simp only [loopStep, Option.some.injEq] at hstep
    subst next
    exact hkept.2
  | pass turn =>
    simp only [loopStep] at hstep
    split at hstep
    case h_1 hhead =>
      obtain rfl := Option.some.inj hstep
      exact hkept.2
    case h_2 version lifecycle hhead =>
      obtain rfl := Option.some.inj hstep
      exact hkept.2.runOnce hkind (hkept.1.2 version lifecycle hhead)
  | restart =>
    simp only [loopStep, Option.some.injEq] at hstep
    subst next
    refine ⟨ownSkills_nil _, ?_, ?_, rfl⟩
    · intro skill hskill
      cases hskill
    · intro skill hskill
      cases hskill

theorem planesKept_run {events : List LoopEvent} {state : LoopState}
    (hkind : setting.kind = .analyst)
    (hrun : run (loopStep setting) LoopState.start events = some state) :
    PlanesKept setting (HeadVersion events) state := by
  have hstart : PlanesKept setting (HeadVersion events) LoopState.start := by
    refine ⟨accounted_start, ownSkills_nil _, ?_, ?_, rfl⟩
    · intro skill hskill
      cases hskill
    · intro skill hskill
      cases hskill
  exact invariant_of_goodSteps (fun _ _ _ hkept hstep hevent => planesKept_step
    hkind hkept hstep hevent) hstart hrun (stepsSatisfy_headVersion events)

end

/-! ## A pass all of whose calls succeed -/

/-- The calls are confirmed, the heal is not suppressed and the descriptor is
fetched. -/
structure PassTurn.Clean (turn : PassTurn) : Prop where
  calls : ∀ actorId, turn.calls actorId = .confirmed
  heals : turn.suppressed = false
  fetches : turn.fetchFails = false

def Wired (setting : Setting) (version : Version) (runtime : Runtime) : Prop :=
  runtime.triggers = setting.wiring version ∧
    ∀ skill, skill ∈ runtime.skills ↔ skill ∈ setting.published version

/-- No actor of the analyst was retired since the process started, none is to
be retired by the next pass, and the process started with the version's own
triggers; or the version has none. -/
def KeepsTriggers (setting : Setting) (version : Version) (state : LoopState) : Prop :=
  if state.runtime.tornDown = true ∨
      listLiveSiblings state.runtime.rows setting.kind setting.descriptorId
        (actorIdOf setting.kind setting.descriptorId version) ≠ [] then
    setting.wiring version = []
  else setting.wiring version = setting.bootTriggers state.wiredFor

def Setting.skillsLeft (setting : Setting) (version : Version)
    (runtime : Runtime) : List SkillRegistration :=
  if listLiveSiblings runtime.rows setting.kind setting.descriptorId
      (actorIdOf setting.kind setting.descriptorId version) ≠ [] then []
  else runtime.skills

/-- What other versions under the actor id of this one have left behind gives
way to it: the row is the version's, and so is each skill it does not declare
itself; or the skills are those it publishes. -/
def KeepsSkills (setting : Setting) (version : Version) (runtime : Runtime) : Prop :=
  if ∃ row, runtime.rows.row?
      (actorIdOf setting.kind setting.descriptorId version) = some row ∧
      row.descriptorVersion ≠ version then
    ∀ skill, skill ∈ setting.skillsLeft version runtime ↔ skill ∈ setting.published version
  else
    ∀ skill ∈ setting.skillsLeft version runtime,
      skill.analystVersion = version ∨
        skill.skillId ∈ (declaredSkills setting.descriptorId version
          (setting.bodyOf version)).map SkillRegistration.skillId

section

variable {setting : Setting} {versions : Version → Prop}
variable {wiredFor : Option Version} {runtime : Runtime} {turn : PassTurn}
variable {version : Version}

@[simp] theorem confirmed_analystRetired {actorId : String} {detail : Coordinates} :
    (runtime.analystRetired actorId detail).confirmed = runtime.confirmed := by
  unfold Runtime.analystRetired Runtime.forget
  split
  · dsimp only
    split <;> rfl
  · rfl

theorem tornDown_siblingRetire (hturn : turn.Clean) {desired : DesiredState}
    (typed : AnalystBody) (sibling : String × ActorRow) :
    (execute turn typed runtime (siblingRetire desired sibling)).1.tornDown := by
  simp only [siblingRetire, execute, Runtime.retire, Runtime.call, hturn.calls,
    Runtime.tornDown, Runtime.writeObserved, confirmed_analystRetired]
  simp

theorem tornDown_sweepSiblings (hturn : turn.Clean) (desired : DesiredState)
    (siblings : List (String × ActorRow)) (runtime : Runtime) :
    (sweepSiblings turn desired runtime siblings).1.tornDown = true ↔
      runtime.tornDown = true ∨ siblings ≠ [] := by
  induction siblings generalizing runtime with
  | nil => simp [sweepSiblings]
  | cons sibling rest ih =>
    have htorn : (execute turn desired.body runtime (siblingRetire desired sibling)).1.tornDown :=
      tornDown_siblingRetire hturn desired.body sibling
    rw [sweepSiblings_cons hturn.calls]
    have hrest := (ih _).mpr (.inl htorn)
    simp [hrest]

theorem execute_active (runtime : Runtime) (actorId : String) (hkind : setting.kind = .analyst)
    (hturn : turn.Clean) {record : Option ActorRow}
    (hversion : ∀ row, record = some row → row.descriptorVersion = version) :
    ∃ text method, method ≠ ActorMethod.retire ∧
      execute turn (setting.bodyOf version) runtime
          (commonReconcile actorId record (setting.desired version .active)) =
        runtime.activate turn (setting.bodyOf version) text actorId
          ⟨setting.descriptorId, setting.kind, version⟩ method := by
  unfold commonReconcile
  cases record with
  | none => exact ⟨"create_actor", .activate, by simp, rfl⟩
  | some row =>
    have hsame : ¬row.descriptorVersion ≠ version := not_not.mpr (hversion row rfl)
    by_cases hlifecycle : row.lifecycle = .active
    · refine ⟨"ensure_active", .activate, by simp, ?_⟩
      have hsynced : ¬row.lifecycle ≠ .active := not_not.mpr hlifecycle
      have hheal : setting.kind ≠ .target ∧ True := by simp [hkind]
      simp only [Setting.desired]
      rw [if_neg hsame, if_neg hsynced, if_pos hheal]
      simp only [execute, hturn.heals, Bool.false_eq_true, if_false]
      rfl
    · refine ⟨"transition_lifecycle",
        if row.lifecycle = .paused then .resume else .activate, ?_, ?_⟩
      · split <;> simp
      · simp only [Setting.desired]
        rw [if_neg hsame, if_pos hlifecycle]
        rfl

theorem activate_confirmed (runtime : Runtime) (version : Version)
    (text actorId : String) (hkind : setting.kind = .analyst)
    (hturn : turn.Clean) {method : ActorMethod} (hmethod : method ≠ .retire) :
    (runtime.activate turn (setting.bodyOf version) text actorId
          ⟨setting.descriptorId, setting.kind, version⟩ method).1.tornDown =
        runtime.tornDown ∧
      (runtime.activate turn (setting.bodyOf version) text actorId
          ⟨setting.descriptorId, setting.kind, version⟩ method).1.skills =
        (if hasAnalystVersion runtime.skills setting.descriptorId version then
          runtime.skills
        else registerSkills runtime.skills
          (declaredSkills setting.descriptorId version (setting.bodyOf version))) := by
  unfold Runtime.activate Runtime.call
  rw [hturn.calls]
  dsimp only
  rw [wentLive_of_analyst _ hkind]
  unfold Runtime.publishSkills
  have htorn : { runtime with
      confirmed := runtime.confirmed ++ [(actorId, method)] }.tornDown =
        (runtime.tornDown || decide (method = .retire)) :=
    tornDown_confirmed method
  rw [decide_eq_false hmethod, Bool.or_false] at htorn
  cases hhas : hasAnalystVersion runtime.skills setting.descriptorId version with
  | true =>
    rw [if_pos (by simp [Runtime.remember, hhas])]
    exact ⟨htorn, rfl⟩
  | false =>
    rw [if_neg (by simp [Runtime.remember, hhas, hturn.fetches])]
    exact ⟨htorn, rfl⟩

theorem hasAnalystVersion_iff {skills : List SkillRegistration}
    {analystId : String} (hown : OwnSkills analystId skills) :
    hasAnalystVersion skills analystId version = true ↔
      skills ≠ [] ∧ ∀ skill ∈ skills, skill.analystVersion = version := by
  have hall : (skills.filter fun skill =>
      decide (skill.analystId = analystId)) = skills := by
    rw [filter_eq_self]
    exact fun skill hskill => decide_eq_true (hown.owned skill hskill)
  unfold hasAnalystVersion
  rw [hall, Bool.and_eq_true, Bool.not_eq_true', isEmpty_eq_false_iff, all_eq_true]
  exact and_congr_right fun _ => forall₂_congr fun _ _ => decide_eq_true_iff

theorem Planes.mem_iff_published (hplanes : Planes setting versions wiredFor runtime)
    (hsome : runtime.skills ≠ [])
    (hcurrent : ∀ skill ∈ runtime.skills, skill.analystVersion = version)
    (skill : SkillRegistration) : skill ∈ runtime.skills ↔ skill ∈ setting.published version := by
  constructor
  · intro hskill
    have hpublished := (hplanes.live skill hskill).2.1
    rwa [hcurrent skill hskill] at hpublished
  · intro hpublished
    obtain ⟨existing, hexisting⟩ := exists_mem_of_ne_nil _ hsome
    have hother := hpublished
    rw [← hcurrent existing hexisting] at hother
    obtain ⟨found, hfound, hid⟩ := hplanes.whole existing hexisting skill hother
    have hfoundPublished := (hplanes.live found hfound).2.1
    rw [hcurrent found hfound] at hfoundPublished
    have hpublishedOwn : OwnSkills setting.descriptorId (setting.published version) :=
      (registerSkills_own (ownSkills_nil _) analystId_declaredSkills).1
    have hsame := inj_on_of_nodup_map hpublishedOwn.nodup hfoundPublished hpublished hid
    exact hsame ▸ hfound

theorem mem_published_iff (hplanes : Planes setting versions wiredFor runtime) :
    (∀ skill, skill ∈
        (if hasAnalystVersion runtime.skills setting.descriptorId version then
          runtime.skills
        else registerSkills runtime.skills
          (declaredSkills setting.descriptorId version (setting.bodyOf version))) ↔
      skill ∈ setting.published version) ↔
    ∀ skill ∈ runtime.skills, skill.analystVersion = version ∨
      skill.skillId ∈ (declaredSkills setting.descriptorId version
        (setting.bodyOf version)).map SkillRegistration.skillId := by
  split
  case isTrue hhas =>
    obtain ⟨hsome, hcurrent⟩ := (hasAnalystVersion_iff hplanes.own).mp hhas
    refine iff_of_true (hplanes.mem_iff_published hsome hcurrent) ?_
    exact fun skill hskill => .inl (hcurrent skill hskill)
  case isFalse =>
    have hdeclared : ∀ skill ∈ declaredSkills setting.descriptorId version
        (setting.bodyOf version), skill.analystId = setting.descriptorId :=
      analystId_declaredSkills
    obtain ⟨_, hmem⟩ := registerSkills_own hplanes.own hdeclared
    constructor
    · intro hpublished skill hskill
      by_cases hclaimed : skill.skillId ∈ (declaredSkills
          setting.descriptorId version (setting.bodyOf version)).map SkillRegistration.skillId
      · exact .inr hclaimed
      · have hkept := (hmem skill).mpr (.inl ⟨hskill, hclaimed⟩)
        exact .inl (analystVersion_published ((hpublished skill).mp hkept))
    · intro hgives skill
      rw [hmem]
      constructor
      · rintro (⟨hold, hfree⟩ | hnew)
        · have hversion := (hgives skill hold).resolve_right hfree
          have hpublished := (hplanes.live skill hold).2.1
          rwa [hversion] at hpublished
        · exact hnew
      · exact .inr

theorem skills_sweepSiblings (hkind : setting.kind = .analyst) (hturn : turn.Clean)
    (lifecycle : LifecycleState) (siblings : List (String × ActorRow))
    (hplanes : Planes setting versions wiredFor runtime) :
    (sweepSiblings turn (setting.desired version lifecycle) runtime
      siblings).1.skills = if siblings ≠ [] then [] else runtime.skills := by
  induction siblings generalizing runtime with
  | nil => rfl
  | cons sibling rest ih =>
    have hnext : Planes setting versions wiredFor
        (execute turn (setting.desired version lifecycle).body runtime
          (siblingRetire (setting.desired version lifecycle) sibling)).1 :=
      hplanes.siblingRetire hkind sibling _
    have hskills : (execute turn (setting.desired version lifecycle).body
        runtime (siblingRetire (setting.desired version lifecycle) sibling)).1.skills = [] := by
      obtain ⟨hempty, _⟩ := analystRetired_empties
        { runtime with
          confirmed := runtime.confirmed ++ [(sibling.1, .retire)] }
        sibling.1 hkind
        (show (⟨setting.descriptorId, setting.kind,
          sibling.2.descriptorVersion⟩ : Coordinates).descriptorId = _
          from rfl) hplanes.own
      simp only [siblingRetire, execute, Runtime.retire, Runtime.call, hturn.calls]
      exact hempty
    rw [sweepSiblings_cons hturn.calls, if_pos (cons_ne_nil sibling rest)]
    refine (ih hnext).trans ?_
    rw [hskills]
    exact ite_self _

theorem restart_confirmed (runtime : Runtime) (actorId : String) (typed : AnalystBody)
    (hturn : turn.Clean) {row : ActorRow} (hdiffers : row.descriptorVersion ≠ version) :
    (execute turn typed runtime (commonReconcile actorId (some row)
          (setting.desired version .active))).1.tornDown = runtime.tornDown ∧
      (execute turn typed runtime (commonReconcile actorId (some row)
          (setting.desired version .active))).1.skills = runtime.skills := by
  have hrestart : commonReconcile actorId (some row)
      (setting.desired version .active) =
        .restartActor actorId (setting.desired version .active).coordinates
          row.descriptorVersion := if_pos hdiffers
  rw [hrestart]
  simp only [execute, Runtime.call, hturn.calls]
  refine ⟨(tornDown_confirmed .activate).trans ?_, rfl⟩
  exact Bool.or_false _

end

/-- A clean pass for an active head: the triggers are those of the last start,
or none once an actor was retired; and the skills are the head's if what is
left of other versions gives way. -/
structure CleanPass (setting : Setting) (version : Version)
    (state : LoopState) (after : Runtime) : Prop where
  triggers : after.triggers =
    if state.runtime.tornDown = true ∨
        listLiveSiblings state.runtime.rows setting.kind setting.descriptorId
          (actorIdOf setting.kind setting.descriptorId version) ≠ [] then []
    else setting.bootTriggers state.wiredFor
  skills : (∀ skill,
    skill ∈ after.skills ↔ skill ∈ setting.published version) ↔
      KeepsSkills setting version state.runtime

theorem cleanPass {setting : Setting} (hkind : setting.kind = .analyst) {events : List LoopEvent}
    {state : LoopState} (hrun : run (loopStep setting) LoopState.start events = some state)
    {version : Version} (hhead : state.head = some (version, .active)) {turn : PassTurn}
    (hturn : turn.Clean) :
    CleanPass setting version state
      (runOnce turn (setting.desired version .active) state.runtime).1 := by
  obtain ⟨haccounted, hplanes⟩ := planesKept_run hkind hrun
  have hafter : Planes setting (HeadVersion events) state.wiredFor
      (runOnce turn (setting.desired version .active) state.runtime).1 :=
    hplanes.runOnce hkind (haccounted.2 version .active hhead)
  obtain ⟨swept, hsweep, hswept, honce⟩ := runOnce_confirmed hturn.calls
    (setting.desired version .active) state.runtime
  have hsweptPlanes : Planes setting (HeadVersion events) state.wiredFor swept.1 := by
    rw [hsweep]
    exact hplanes.sweepSiblings hkind _
  have htorn : swept.1.tornDown = true ↔ state.runtime.tornDown = true ∨
      listLiveSiblings state.runtime.rows setting.kind setting.descriptorId
        (actorIdOf setting.kind setting.descriptorId version) ≠ [] := by
    rw [hsweep]
    exact tornDown_sweepSiblings hturn _ _ _
  have hskills : swept.1.skills = setting.skillsLeft version state.runtime := by
    rw [hsweep]
    exact skills_sweepSiblings hkind hturn .active _ hplanes
  have hrecord : swept.1.rows.row? (setting.desired version .active).actorId =
      state.runtime.rows.row? (actorIdOf setting.kind setting.descriptorId version) :=
    hswept.others _ not_mem_listLiveSiblings
  rw [honce, hrecord] at hafter ⊢
  by_cases hother : ∃ row, state.runtime.rows.row?
      (actorIdOf setting.kind setting.descriptorId version) = some row ∧
      row.descriptorVersion ≠ version
  · obtain ⟨row, hrow, hdiffers⟩ := hother
    obtain ⟨hkeptTorn, hkeptSkills⟩ := restart_confirmed swept.1 (setting.desired
      version .active).actorId (setting.desired version .active).body hturn hdiffers
    rw [← hrow] at hkeptTorn hkeptSkills
    refine ⟨?_, ?_⟩
    · rw [hafter.triggers, hkeptTorn]
      exact if_congr htorn rfl rfl
    · rw [hkeptSkills, KeepsSkills, if_pos ⟨row, hrow, hdiffers⟩, hskills]
  · have hversion : ∀ row, state.runtime.rows.row?
        (actorIdOf setting.kind setting.descriptorId version) = some row →
        row.descriptorVersion = version := by
      intro row hrow
      by_contra hdiffers
      exact hother ⟨row, hrow, hdiffers⟩
    obtain ⟨text, method, hmethod, hexecute⟩ :=
      execute_active swept.1 (setting.desired version .active).actorId hkind hturn hversion
    obtain ⟨hkeptTorn, hpublished⟩ := activate_confirmed swept.1 version
      text (setting.desired version .active).actorId hkind hturn hmethod
    rw [← hexecute] at hkeptTorn hpublished
    refine ⟨?_, ?_⟩
    · rw [hafter.triggers]
      exact if_congr ((iff_of_eq (congrArg (· = true) hkeptTorn)).trans htorn) rfl rfl
    · rw [KeepsSkills, if_neg hother, ← hskills, ← mem_published_iff hsweptPlanes, ← hpublished]
      rfl

/-- After a clean pass for an active head the analyst is wired as the head
declares, exactly if its triggers were kept and the skills give way. -/
theorem wiring_survives_iff (setting : Setting) (hkind : setting.kind = .analyst)
    (events : List LoopEvent) (state : LoopState)
    (hrun : run (loopStep setting) LoopState.start events = some state) (version : Version)
    (hhead : state.head = some (version, .active)) (turn : PassTurn) (hturn : turn.Clean) :
    Wired setting version (runOnce turn (setting.desired version .active) state.runtime).1 ↔
      KeepsTriggers setting version state ∧ KeepsSkills setting version state.runtime := by
  have hpass := cleanPass hkind hrun hhead hturn
  refine and_congr ?_ hpass.skills
  unfold KeepsTriggers
  rw [hpass.triggers]
  split
  · exact eq_comm
  · exact eq_comm

def openTarget : Target := ⟨"baltic", "default", false, true, none, some []⟩

def wiredEvents : List LoopEvent :=
  [.head firstVersion .active, .restart, .pass (passWith .confirmed)]

def wiredState : LoopState where
  head := some (firstVersion, .active)
  runtime :=
    (runOnce (passWith .confirmed)
      ((plainSetting [openTarget]).desired firstVersion .active)
      { LoopState.start.runtime with
        triggers := (plainSetting [openTarget]).wiring firstVersion }).1
  wiredFor := some firstVersion

theorem wiring_survives_iff_wiredState :
    Wired (plainSetting [openTarget]) firstVersion
      (runOnce (passWith .confirmed)
        ((plainSetting [openTarget]).desired firstVersion .active)
        wiredState.runtime).1 := by
  refine (wiring_survives_iff (plainSetting [openTarget]) rfl wiredEvents
    wiredState rfl firstVersion rfl (passWith .confirmed)
    ⟨fun _ => rfl, rfl, rfl⟩).mpr ⟨?_, ?_⟩
  · unfold KeepsTriggers
    rfl
  · unfold KeepsSkills
    have hskills : (plainSetting [openTarget]).skillsLeft firstVersion
        wiredState.runtime = [] := by decide +kernel
    split
    case isTrue => exact fun _ => Iff.rfl
    case isFalse => exact fun _ hskill => nomatch hskill

def editedState : LoopState :=
  { wiredState with head := some (secondVersion, .active) }

/-- The pass for an edit leaves the head's actor alive and its triggers
gone. -/
theorem edit_drops_triggers :
    run (loopStep (plainSetting [openTarget])) LoopState.start
        (wiredEvents ++ [.head secondVersion .active]) = some editedState ∧
      (liveRows (runOnce (passWith .confirmed)
          ((plainSetting [openTarget]).desired secondVersion .active)
          editedState.runtime).1.rows .analyst "assessor").map Prod.fst =
        ["analyst::assessor::fedcba9876543210"] ∧
      (runOnce (passWith .confirmed)
          ((plainSetting [openTarget]).desired secondVersion .active)
          editedState.runtime).1.triggers = [] ∧
      (plainSetting [openTarget]).wiring secondVersion ≠ [] := by
  refine ⟨rfl, ?_, ?_, ?_⟩
  · decide +kernel
  · decide +kernel
  · decide +kernel

end Legba.Reconcile
