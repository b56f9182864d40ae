import Legba.DescriptorCoherence

/-!
# Head moves and retirement

`register`, `update` and `retire` move the head of a descriptor id along the
lifecycle of its family: `update` asks the transition table about the
submitted state, and a stored row with the submitted content is in that state
or in the terminal one.  `promote` and `rollback` never ask the table, so a
run moves its heads legally exactly when each of them re-points the head at a
row whose state the table allows.  Retirement is then final.
-/

namespace Legba.Descriptors

open JsonValue KeyedTable LabelledRun Option Table

variable {family : Family}

/-- The head of every descriptor id stays in its state or makes a move of the
transition table. -/
def LegalHeadMove (table next : FamilyTable family) : Prop :=
  ∀ id version version' head head',
    IsHead table id version head → IsHead next id version' head' →
    (stateMachineFor family).Allows head.state head'.state

def RetirementIsTerminal (sha256 : Json → String) (repr : String → String)
    (calls : List (RegistryCall family)) : Prop :=
  ∀ before between rest retired later id version version' head head',
    calls = before ++ (between ++ rest) →
    run (registryStep sha256 repr) empty before = some retired →
    IsHead retired id version head →
    head.state = terminalStateFor family →
    run (registryStep sha256 repr) retired between = some later →
    IsHead later id version' head' →
    head'.state = terminalStateFor family

/-- The state of a row `promote` or `rollback` would make the head is the
state of the present head, or a move of the transition table leads there. -/
def RepointsLegally (table : FamilyTable family)
    (descriptorId targetVersion : String) (around : Surroundings) : Prop :=
  around.audit = none →
  ∀ version head target, head? table descriptorId = some (version, head) →
    table.row? (descriptorId, targetVersion) = some target →
    version ≠ targetVersion →
    (stateMachineFor family).Allows head.state target.state

def RegistryCall.RepointsLegally (table : FamilyTable family) : RegistryCall family → Prop
  | .promote descriptorId candidateVersion around =>
    Descriptors.RepointsLegally table descriptorId candidateVersion around
  | .rollback descriptorId targetVersion around =>
    Descriptors.RepointsLegally table descriptorId targetVersion around
  | .register _ _ | .update _ _ _ | .retire _ _ => True

def SettledAs (stored submitted : family.State) : Prop :=
  stored = submitted ∨ stored = terminalStateFor family

/-! ## One call -/

section

variable {sha256 : Json → String} {repr : String → String}
variable {submitted : List (Descriptor family)}
variable {table next : FamilyTable family} {call : RegistryCall family}

theorem legalHeadMove_refl (hunique : HeadUnique table) : LegalHeadMove table table := by
  intro id version version' head head' hhead hhead'
  have hheads := (head?_eq_some (hunique id)).mpr hhead
  rw [(head?_eq_some (hunique id)).mpr hhead', some.injEq, Prod.mk.injEq] at hheads
  exact .inl (by rw [hheads.2])

variable {descriptorId version : String}
  {head : Row family.State (List (String × Json))} {around : Surroundings}

section

variable (hunique : HeadUnique table)

include hunique

theorem legalHeadMove_of_moved {row : Row family.State (List (String × Json))}
    (hmoved : HeadMoved table next descriptorId version row)
    (hlegal : ∀ other old, IsHead table descriptorId other old → (stateMachineFor
      family).Allows old.state row.state) : LegalHeadMove table next := by
  intro id first second old found hold hfound
  by_cases hid : id = descriptorId
  · rw [hid] at hold hfound
    rw [hmoved.head_eq hfound]
    exact hlegal first old hold
  · have hrow := hfound.1
    rw [hmoved.otherRows id second hid] at hrow
    have hversion := hunique id _ _ _ _ hold ⟨hrow, hfound.2⟩
    rw [← hversion, hold.1, some.injEq] at hrow
    rw [← hrow]
    exact .inl rfl

theorem eq_of_head? {other : String} {old : Row family.State (List (String × Json))}
    (hhead : head? table descriptorId = some (version, head))
    (hold : IsHead table descriptorId other old) : old = head := by
  have hsome := (head?_eq_some (hunique _)).mpr hold
  rw [hhead, some.injEq, Prod.mk.injEq] at hsome
  exact hsome.2.symm

theorem legalHeadMove_shiftHead {toVersion fromVersion : String}
    {target : Row family.State (List (String × Json))}
    (hhead : head? table descriptorId = some (fromVersion, head))
    (htarget : table.row? (descriptorId, toVersion) = some target)
    (hmoves : fromVersion ≠ toVersion)
    (hallows : (stateMachineFor family).Allows head.state target.state) :
    LegalHeadMove table (shiftHead table descriptorId fromVersion toVersion) := by
  have hmoved := headMoved_shiftHead hunique (isHead_of_head? hhead) htarget hmoves
  apply legalHeadMove_of_moved hunique hmoved
  intro other old hold
  rw [eq_of_head? hunique hhead hold]
  exact hallows

theorem legalHeadMove_register {descriptor : Descriptor family}
    (hregister : register sha256 repr table descriptor around = .ok (next,
      version)) : LegalHeadMove table next := by
  have hperform : (RegistryCall.register descriptor around).perform sha256
      repr table = .ok (next, version) := hregister
  obtain ⟨current, row, hmoved⟩ := (commit_of_perform hunique hperform).moved
  apply legalHeadMove_of_moved hunique hmoved
  intro other old hold
  have hnoHead := head?_eq_none.mp (register_eq_ok hregister).1
  exact absurd hold (hnoHead other old)

end

theorem legalHeadMove_update {newDescriptor : Descriptor family}
    (hcoherent : Coherent sha256 SettledAs submitted table)
    (hcollision : CollisionFree sha256 submitted) (hmem : newDescriptor ∈ submitted)
    (hupdate : update sha256 repr table descriptorId newDescriptor around = .ok
      (next, version)) : LegalHeadMove table next := by
  have hunique := hcoherent.headUnique
  obtain ⟨_, fromVersion, head, hhead, hallows, hmove⟩ := update_eq_ok hupdate
  cases hmove with
  | inl hsame =>
    rw [hsame.2]
    exact legalHeadMove_refl hunique
  | inr hmove =>
    obtain ⟨hversion, hmove⟩ := hmove
    cases hmove with
    | inl hshift =>
      obtain ⟨target, htarget⟩ := isSome_iff_exists.mp hshift.1
      have htargetAllows : (stateMachineFor family).Allows head.state target.state := by
        cases (hcoherent.same_content hcollision hmem htarget).1 with
        | inl hsubmitted =>
          rw [hsubmitted]
          exact hallows
        | inr hretired =>
          rw [hretired]
          exact (stateMachineFor family).allows_terminal head.state
      rw [hshift.2]
      exact legalHeadMove_shiftHead hunique hhead htarget hversion htargetAllows
    | inr hinsert =>
      have hperform : (RegistryCall.update descriptorId newDescriptor
          around).perform sha256 repr table = .ok (next, version) :=
        hupdate
      obtain ⟨current, row, hmoved⟩ := (commit_of_perform hunique hperform).moved
      have hself := row?_put_self (setIsHead table descriptorId fromVersion false)
        (descriptorId, contentHash sha256 newDescriptor) (headRow (stampVersion
        newDescriptor (contentHash sha256 newDescriptor)))
      rw [← hinsert.2] at hself
      have hrow := hmoved.head_eq ⟨hself, rfl⟩
      apply legalHeadMove_of_moved hunique hmoved
      intro other old hold
      rw [eq_of_head? hunique hhead hold, ← hrow]
      exact hallows

theorem legalHeadMove_retire (hunique : HeadUnique table)
    (hretire : retire repr table descriptorId around = .ok (next, version)) :
    LegalHeadMove table next := by
  obtain ⟨_, head, hhead, _, hnext⟩ := retire_eq_ok.mp hretire
  have hmoved := headMoved_setState (hunique _) (isHead_of_head? hhead) (terminalStateFor family)
  rw [hnext] at hmoved
  apply legalHeadMove_of_moved hunique hmoved
  intro other old _
  exact (stateMachineFor family).allows_terminal old.state

theorem legalHeadMove_setHead_iff {targetVersion : String} (hunique : HeadUnique table)
    (hperform : call.perform sha256 repr table = setHead repr table call.descriptorId targetVersion
      around) (hstep : registryStep sha256 repr table call = some next) :
    LegalHeadMove table next ↔ RepointsLegally table call.descriptorId targetVersion around := by
  constructor
  · intro hlegal haudit version head target hhead htarget hmoves
    have hexists : (table.row? (call.descriptorId, targetVersion)).isSome = true := by
      rw [htarget]
      rfl
    have hset : setHead repr table call.descriptorId targetVersion around =
        .ok (shiftHead table call.descriptorId version targetVersion, targetVersion) :=
      setHead_eq_ok.mpr ⟨haudit, rfl, version, head, hhead, hexists, hmoves, rfl⟩
    have hcommitted := registryStep_of_perform (hperform.trans hset)
    rw [hstep, some.injEq] at hcommitted
    rw [hcommitted] at hlegal
    have hisHead := isHead_of_head? hhead
    have hmoved := headMoved_shiftHead hunique hisHead htarget hmoves
    have hmove := hlegal _ _ _ _ _ hisHead hmoved.isHead
    exact hmove
  · intro hrepoints
    cases registryStep_eq_some hstep with
    | inl hsame =>
      rw [hsame]
      exact legalHeadMove_refl hunique
    | inr hcommitted =>
      obtain ⟨version, hcommitted⟩ := hcommitted
      obtain ⟨haudit, _, fromVersion, head, hhead, htarget, hmoves,
        hnext⟩ := setHead_eq_ok.mp (hperform.symm.trans hcommitted)
      obtain ⟨target, htarget⟩ := isSome_iff_exists.mp htarget
      rw [← hnext]
      exact legalHeadMove_shiftHead hunique hhead htarget hmoves
        (hrepoints haudit _ _ _ hhead htarget hmoves)

theorem legalHeadMove_of_committed (hunique : HeadUnique table)
    (hstep : registryStep sha256 repr table call = some next)
    (hcommitted : ∀ version, call.perform sha256 repr table = .ok (next, version)
      → LegalHeadMove table next) : LegalHeadMove table next := by
  cases registryStep_eq_some hstep with
  | inl hsame =>
    rw [hsame]
    exact legalHeadMove_refl hunique
  | inr hperform =>
    obtain ⟨version, hperform⟩ := hperform
    exact hcommitted version hperform

theorem legalHeadMove_iff (hcoherent : Coherent sha256 SettledAs submitted table)
    (hcollision : CollisionFree sha256 submitted) (hsubmits : SubmitsOnly submitted call)
    (hstep : registryStep sha256 repr table call = some next) :
    LegalHeadMove table next ↔ call.RepointsLegally table := by
  have hunique := hcoherent.headUnique
  cases call with
  | register descriptor around =>
    apply iff_of_true _ trivial
    apply legalHeadMove_of_committed hunique hstep
    exact fun version hregister => legalHeadMove_register hunique hregister
  | update descriptorId newDescriptor around =>
    apply iff_of_true _ trivial
    apply legalHeadMove_of_committed hunique hstep
    exact fun version hupdate => legalHeadMove_update hcoherent hcollision
      (hsubmits newDescriptor rfl) hupdate
  | retire descriptorId around =>
    apply iff_of_true _ trivial
    apply legalHeadMove_of_committed hunique hstep
    exact fun version hretire => legalHeadMove_retire hunique hretire
  | promote descriptorId candidateVersion around =>
    have hperform : (RegistryCall.promote descriptorId candidateVersion around).perform sha256 repr
        table = setHead repr table descriptorId candidateVersion around := rfl
    have hmoves := legalHeadMove_setHead_iff hunique hperform hstep
    exact hmoves
  | rollback descriptorId targetVersion around =>
    have hperform : (RegistryCall.rollback descriptorId targetVersion around).perform sha256 repr
        table = setHead repr table descriptorId targetVersion around := rfl
    have hmoves := legalHeadMove_setHead_iff hunique hperform hstep
    exact hmoves

end

/-! ## Runs -/

section

variable {sha256 : Json → String} {repr : String → String}
variable {submitted : List (Descriptor family)}

variable {table next : FamilyTable family} {call : RegistryCall family}

theorem coherent_settled_step (hcoherent : Coherent sha256 SettledAs submitted table)
    (hstep : registryStep sha256 repr table call = some next)
    (hsubmits : SubmitsOnly submitted call) :
    Coherent sha256 SettledAs submitted next :=
  hcoherent.step hstep hsubmits (fun _ => .inl rfl)
    fun _ _ _ _ => .inr rfl

def HeadRetired (table : FamilyTable family) (id : String) : Prop :=
  ∃ version head, IsHead table id version head ∧ head.state = terminalStateFor family

theorem headRetired_step {id : String} (hcoherent : Coherent sha256 SettledAs submitted table)
    (hnext : Coherent sha256 SettledAs submitted next)
    (hstep : registryStep sha256 repr table call = some next) (hlegal : LegalHeadMove table next)
    (hretired : HeadRetired table id) : HeadRetired next id := by
  obtain ⟨version, head, hhead, hstate⟩ := hretired
  obtain ⟨found, hfound, _⟩ := registryStep_keeps hcoherent.headUnique hstep hhead.1
  obtain ⟨version', head', hhead'⟩ := hnext.headed id version found hfound
  have hallows := hlegal _ _ _ _ _ hhead hhead'
  rw [hstate] at hallows
  exact ⟨version', head', hhead', hallows.of_terminal⟩

theorem retirementIsTerminal_of_legalHeadMoves {calls : List (RegistryCall family)}
    (hlegal : StepsSatisfy (registryStep sha256 repr) (fun table _ next => LegalHeadMove table
      next) empty calls) : RetirementIsTerminal sha256 repr calls := by
  intro before between rest retired later id version version' head head'
    hcalls hbefore hhead hstate hbetween hhead'
  have hsubmits := submitsOnly_steps sha256 repr calls empty
  have hsteps := stepsSatisfy_and hsubmits hlegal
  rw [hcalls, stepsSatisfy_append hbefore, stepsSatisfy_append hbetween] at hsteps
  rw [← hcalls] at hsteps
  have hcoherent : Coherent sha256 SettledAs (submittedBy calls) retired :=
    invariant_of_goodSteps
      (fun _ _ _ hinv hstep hgood => coherent_settled_step hinv hstep hgood.1)
      coherent_empty hbefore hsteps.1
  have hlater : Coherent sha256 SettledAs (submittedBy calls) later ∧ HeadRetired later id := by
    apply invariant_of_goodSteps _ ⟨hcoherent, version, head, hhead, hstate⟩ hbetween hsteps.2.1
    intro table call next hinv hstep hgood
    have hnext := coherent_settled_step hinv.1 hstep hgood.1
    exact ⟨hnext, headRetired_step hinv.1 hnext hstep hgood.2 hinv.2⟩
  obtain ⟨hlaterCoherent, current, found, hfound, hterminal⟩ := hlater
  have hsome := (head?_eq_some (hlaterCoherent.headUnique id)).mpr hfound
  rw [eq_of_head? hlaterCoherent.headUnique hsome hhead']
  exact hterminal

/-- Every head moves legally and retirement is final exactly when each
`promote` and `rollback` which commits re-points the head legally. -/
theorem headMoves_legal_iff {calls : List (RegistryCall family)}
    (hcollision : CollisionFree sha256 (submittedBy calls)) :
    (StepsSatisfy (registryStep sha256 repr)
        (fun table _ next => LegalHeadMove table next) empty calls ∧
      RetirementIsTerminal sha256 repr calls) ↔
      StepsSatisfy (registryStep sha256 repr)
        (fun table call _ => call.RepointsLegally table) empty
        calls := by
  have hsubmits := submitsOnly_steps sha256 repr calls empty
  have hempty : Coherent sha256 SettledAs (submittedBy calls) empty := coherent_empty
  have hmoves : StepsSatisfy (registryStep sha256 repr)
        (fun table _ next => LegalHeadMove table next) empty calls ↔
      StepsSatisfy (registryStep sha256 repr)
        (fun table call _ => call.RepointsLegally table) empty calls :=
    stepsSatisfy_iff_of_invariant
      (fun _ _ _ hinv hstep hgood _ => coherent_settled_step hinv hstep hgood)
      (fun _ _ _ hinv hstep hgood => legalHeadMove_iff hinv hcollision hgood hstep)
      hempty hsubmits
  constructor
  · intro hlegal
    exact hmoves.mp hlegal.1
  · intro hrepoints
    have hlegal := hmoves.mpr hrepoints
    exact ⟨hlegal, retirementIsTerminal_of_legalHeadMoves hlegal⟩

def revisedPack : List (RegistryCall .actionPack) :=
  [.register (samplePack .draft) .clear,
    .update "watch" (samplePack .configured) .clear,
    .rollback "watch" (sampleDigest .draft) .clear,
    .retire "watch" .clear]

theorem headMoves_legal_iff_revisedPack :
    StepsSatisfy (registryStep sampleSha256 sampleRepr)
        (fun table _ next => LegalHeadMove table next) empty
        revisedPack ∧
      RetirementIsTerminal sampleSha256 sampleRepr revisedPack := by
  have hcollision : CollisionFree sampleSha256 (submittedBy revisedPack) :=
    collisionFree_samplePacks [.draft, .configured]
  apply (headMoves_legal_iff hcollision).mpr
  apply And.intro trivial
  apply And.intro trivial
  apply And.intro _ ⟨trivial, trivial⟩
  intro _ version head target hhead htarget _
  obtain ⟨_, rfl⟩ := Prod.mk.inj (some.inj hhead)
  rw [← some.inj htarget]
  have hmoves : LifecycleState.draft ∈ allowedTransitions .configured := by decide
  exact .inr hmoves

def retiredPack : List (RegistryCall .actionPack) :=
  [.register (samplePack .draft) .clear,
    .update "watch" (samplePack .configured) .clear,
    .retire "watch" .clear]

/-- A rollback gives a retired descriptor a head in draft. -/
theorem rollback_revives_retired :
    ¬(StepsSatisfy (registryStep sampleSha256 sampleRepr)
        (fun table _ next => LegalHeadMove table next) empty
        (retiredPack ++ [.rollback "watch" (sampleDigest .draft) .clear]) ∧
      RetirementIsTerminal sampleSha256 sampleRepr
        (retiredPack ++ [.rollback "watch" (sampleDigest .draft) .clear])) := by
  intro hclaim
  have hterminal : LifecycleState.draft = .retired := hclaim.2 retiredPack
    [.rollback "watch" (sampleDigest .draft) .clear] [] _ _ "watch"
    (sampleDigest .configured) (sampleDigest .draft) _ _ rfl rfl ⟨rfl, rfl⟩
    rfl rfl ⟨rfl, rfl⟩
  exact absurd hterminal (by decide)

end

end Legba.Descriptors
