import Legba.DescriptorRegistry

/-!
# What a registry call commits

A committed call leaves one row as the head of its descriptor id.  It keeps
every row there was, with its body; the `state` column changes only when a
head is retired.  A row it adds carries the content the caller submitted,
under the hash of that content.
-/

namespace Legba.Descriptors

open JsonValue KeyedTable Option Prod Except

variable {family : Family}

theorem bind_eq_ok {ε α β : Type} {result : Except ε α} {next : α → Except ε β} {value : β} :
    (result >>= next) = .ok value ↔ ∃ found, result = .ok found ∧ next found = .ok value := by
  cases result with
  | error raised => simp [bind, Except.bind]
  | ok found => simp [bind, Except.bind]

theorem raiseIf_eq_ok {error : String → RegistryError} {raised : Option String}
    {done : Unit} : raiseIf error raised = .ok done ↔ raised = none := by
  cases raised with
  | none => simp [raiseIf]
  | some message => simp [raiseIf]

theorem insertRow_eq_ok {table next : FamilyTable family}
    {descriptor : Descriptor family} {version : String} :
    insertRow table descriptor version = .ok next ↔
      table.row? (descriptor.identity.id, version) = none ∧
        table.put (descriptor.identity.id, version) (headRow descriptor) =
          next := by
  unfold insertRow
  cases table.row? (descriptor.identity.id, version) with
  | none => simp
  | some row => simp

/-! ## The calls -/

section

variable {sha256 : Json → String} {repr : String → String}
variable {table next : FamilyTable family}
variable {descriptor : Descriptor family} {around : Surroundings}
variable {descriptorId version target : String}

theorem register_eq_ok
    (hregister : register sha256 repr table descriptor around = .ok (next, version)) :
    head? table descriptor.identity.id = none ∧
      table.row? (descriptor.identity.id, contentHash sha256 descriptor) = none ∧
      next = table.put
        (descriptor.identity.id, contentHash sha256 descriptor)
        (headRow (stampVersion descriptor (contentHash sha256 descriptor))) :=
    by
  obtain ⟨_, _, hregister⟩ := bind_eq_ok.mp hregister
  cases hhead : head? table descriptor.identity.id with
  | some found =>
    rw [hhead] at hregister
    simp at hregister
  | none =>
    rw [hhead] at hregister
    obtain ⟨inserted, hinsert, hregister⟩ := bind_eq_ok.mp hregister
    obtain ⟨_, _, hregister⟩ := bind_eq_ok.mp hregister
    obtain ⟨_, _, hregister⟩ := bind_eq_ok.mp hregister
    have hinserted := insertRow_eq_ok.mp hinsert
    rw [ok.injEq, mk.injEq] at hregister
    rw [← hregister.1]
    exact ⟨rfl, hinserted.1, hinserted.2.symm⟩

theorem prepareUpdate_eq_ok {prepared : PreparedUpdate family}
    (hprepare : prepareUpdate sha256 repr table descriptorId descriptor around = .ok prepared) :
    descriptor.identity.id = descriptorId ∧
      ∃ head, head? table descriptorId = some (prepared.fromVersion, head) ∧
        (stateMachineFor family).Allows head.state descriptor.identity.state ∧
        prepared =
          { fromVersion := prepared.fromVersion
            fromState := head.state
            newHash := contentHash sha256 descriptor
            newDescriptor := stampVersion descriptor
              (contentHash sha256 descriptor) } := by
  unfold prepareUpdate at hprepare
  by_cases hid : descriptor.identity.id = descriptorId
  · rw [if_neg (not_not_intro hid)] at hprepare
    obtain ⟨_, _, hprepare⟩ := bind_eq_ok.mp hprepare
    cases hhead : head? table descriptorId with
    | none =>
      rw [hhead] at hprepare
      simp at hprepare
    | some found =>
      obtain ⟨fromVersion, head⟩ := found
      simp only [hhead] at hprepare
      by_cases hstate : descriptor.identity.state = head.state
      · have hcarried : stampState descriptor head.state = descriptor := by
          rw [← hstate, stampState_self]
        simp only [hstate, hcarried, ne_eq, not_true_eq_false, false_and,
          if_false, ok.injEq] at hprepare
        subst prepared
        exact ⟨hid, head, rfl, .inl hstate, rfl⟩
      · by_cases hmoves : descriptor.identity.state ∈
            (stateMachineFor family).transitions head.state
        · simp only [hstate, hmoves, ne_eq, not_false_eq_true,
            not_true_eq_false, and_false, if_false, if_true,
            ok.injEq] at hprepare
          subst prepared
          exact ⟨hid, head, rfl, .inr hmoves, rfl⟩
        · simp [hstate, hmoves] at hprepare
  · rw [if_pos hid] at hprepare
    simp at hprepare

theorem update_eq_ok
    (hupdate : update sha256 repr table descriptorId descriptor around = .ok (next, version)) :
    descriptor.identity.id = descriptorId ∧
      ∃ fromVersion head,
        head? table descriptorId = some (fromVersion, head) ∧
        (stateMachineFor family).Allows head.state descriptor.identity.state ∧
        (fromVersion = contentHash sha256 descriptor ∧ next = table ∨
          fromVersion ≠ contentHash sha256 descriptor ∧
          ((table.row? (descriptorId, contentHash sha256 descriptor)).isSome = true ∧
            next = shiftHead table descriptorId fromVersion (contentHash sha256 descriptor) ∨
          table.row? (descriptorId, contentHash sha256 descriptor) = none ∧
            next = (setIsHead table descriptorId fromVersion false).put
              (descriptorId, contentHash sha256 descriptor)
              (headRow (stampVersion descriptor (contentHash sha256 descriptor))))) := by
  obtain ⟨prepared, hprepare, hcommit⟩ := bind_eq_ok.mp hupdate
  obtain ⟨hid, head, hhead, hallows, hprepared⟩ := prepareUpdate_eq_ok hprepare
  generalize hfrom : prepared.fromVersion = fromVersion at hhead hprepared
  subst prepared
  apply And.intro hid
  apply Exists.intro fromVersion
  apply Exists.intro head
  apply And.intro hhead
  apply And.intro hallows
  simp only [commitUpdate, hhead, ne_eq, not_true_eq_false, if_false] at hcommit
  by_cases hsame : fromVersion = contentHash sha256 descriptor
  · rw [if_pos hsame, ok.injEq, mk.injEq] at hcommit
    exact .inl ⟨hsame, hcommit.1.symm⟩
  · rw [if_neg hsame] at hcommit
    obtain ⟨moved, hmove, hcommit⟩ := bind_eq_ok.mp hcommit
    obtain ⟨_, _, hcommit⟩ := bind_eq_ok.mp hcommit
    obtain ⟨_, _, hcommit⟩ := bind_eq_ok.mp hcommit
    rw [ok.injEq, mk.injEq] at hcommit
    rw [hcommit.1] at hmove
    apply Or.inr
    apply And.intro hsame
    unfold replaceHead at hmove
    cases hexisting : table.row? (descriptorId, contentHash sha256 descriptor) with
    | some existing =>
      simp only [hexisting, isSome_some, if_true, ok.injEq] at hmove
      exact .inl ⟨rfl, hmove.symm⟩
    | none =>
      simp only [hexisting, isSome_none, Bool.false_eq_true, if_false] at hmove
      have hinserted := (insertRow_eq_ok.mp hmove).2
      have hstamped : (stampVersion descriptor
          (contentHash sha256 descriptor)).identity.id = descriptorId := hid
      rw [hstamped] at hinserted
      exact .inr ⟨rfl, hinserted.symm⟩

theorem retire_eq_ok :
    retire repr table descriptorId around = .ok (next, version) ↔
      around.audit = none ∧ ∃ head,
        head? table descriptorId = some (version, head) ∧
        terminalStateFor family ∈ (stateMachineFor family).transitions head.state ∧
        setState table descriptorId version (terminalStateFor family) =
          next := by
  unfold retire
  cases hhead : head? table descriptorId with
  | none => simp
  | some found =>
    obtain ⟨current, head⟩ := found
    by_cases hmoves : terminalStateFor family ∈ (stateMachineFor family).transitions head.state
    · simp only [hmoves, not_true_eq_false, if_false, bind_eq_ok, raiseIf_eq_ok]
      constructor
      · intro hretire
        obtain ⟨_, haudit, hresult⟩ := hretire
        rw [ok.injEq, mk.injEq] at hresult
        obtain ⟨hnext, hversion⟩ := hresult
        subst version
        exact ⟨haudit, head, rfl, hmoves, hnext⟩
      · intro hretire
        obtain ⟨haudit, other, hother, _, hnext⟩ := hretire
        rw [some.injEq, mk.injEq] at hother
        obtain ⟨hversion, _⟩ := hother
        subst version
        exact ⟨(), haudit, by rw [hnext]⟩
    · simp only [hmoves, not_false_eq_true, if_true]
      constructor
      · intro hretire
        simp at hretire
      · intro hretire
        obtain ⟨_, other, hother, hother', _⟩ := hretire
        rw [some.injEq, mk.injEq] at hother
        rw [← hother.2] at hother'
        exact absurd hother' hmoves

theorem setHead_eq_ok :
    setHead repr table descriptorId target around = .ok (next, version) ↔
      around.audit = none ∧ version = target ∧ ∃ fromVersion head,
        head? table descriptorId = some (fromVersion, head) ∧
        (table.row? (descriptorId, target)).isSome = true ∧
        fromVersion ≠ target ∧
        shiftHead table descriptorId fromVersion target = next := by
  unfold setHead
  cases hhead : head? table descriptorId with
  | none => simp
  | some found =>
    obtain ⟨fromVersion, head⟩ := found
    cases hrow : table.row? (descriptorId, target) with
    | none => simp
    | some row =>
      by_cases hsame : fromVersion = target
      · simp [hsame]
      · simp only [hsame, isNone_some, Bool.false_eq_true, if_false, bind_eq_ok, raiseIf_eq_ok]
        constructor
        · intro hset
          obtain ⟨_, haudit, hresult⟩ := hset
          rw [ok.injEq, mk.injEq] at hresult
          exact ⟨haudit, hresult.2.symm, fromVersion, head, rfl, rfl, hsame, hresult.1⟩
        · intro hset
          obtain ⟨haudit, hversion, other, otherHead, hother, _, _, hnext⟩ := hset
          rw [some.injEq, mk.injEq] at hother
          rw [← hother.1] at hnext
          exact ⟨(), haudit, by rw [hnext, hversion]⟩

end

/-! ## What every committed call has in common -/

def RegistryCall.isRetire : RegistryCall family → Bool
  | .retire _ _ => true
  | .register _ _ | .update _ _ _ | .promote _ _ _ | .rollback _ _ _ => false

structure HoldsContent (sha256 : Json → String)
    (descriptor : Descriptor family) (key : RowKey)
    (row : Row family.State (List (String × Json))) : Prop where
  key_eq : key = (descriptor.identity.id, contentHash sha256 descriptor)
  body_eq : row.body = (stampVersion descriptor (contentHash sha256 descriptor)).modelDump

structure Commit (sha256 : Json → String) (table : FamilyTable family)
    (call : RegistryCall family) (next : FamilyTable family) : Prop where
  moved : ∃ version row, HeadMoved table next call.descriptorId version row
  kept : ∀ key row, table.row? key = some row →
    ∃ found, next.row? key = some found ∧ found.body = row.body ∧
      (found.state = row.state ∨ call.isRetire = true ∧ found.state = terminalStateFor family)
  added : ∀ key row, next.row? key = some row → table.row? key = none →
    ∃ descriptor, call.submitted? = some descriptor ∧
      HoldsContent sha256 descriptor key row ∧
      row.state = descriptor.identity.state

section

variable {sha256 : Json → String} {table : FamilyTable family}
variable {call : RegistryCall family}

variable {version : String} {head row : Row family.State (List (String × Json))}
  {repr : String → String} {next : FamilyTable family}

theorem commit_unchanged (hunique : HeadUnique table)
    (hhead : IsHead table call.descriptorId version head) :
    Commit sha256 table call table where
  moved := ⟨version, head, headMoved_refl (hunique _) hhead⟩
  kept := fun _ row hrow => ⟨row, hrow, rfl, .inl rfl⟩
  added := by
    intro key row hrow hnew
    rw [hnew] at hrow
    simp at hrow

theorem commit_insert {demoted : FamilyTable family} {descriptor : Descriptor family}
    (hsubmitted : call.submitted? = some descriptor)
    (hid : call.descriptorId = descriptor.identity.id)
    (hrows : ∀ key row, table.row? key = some row → ∃ flag, demoted.row? key = some { row with
      isHead := flag }) (hnone : ∀ key, table.row? key = none → demoted.row? key = none)
    (hothers : ∀ id version, id ≠ descriptor.identity.id → demoted.row? (id, version) = table.row?
      (id, version)) (hdemoted : ∀ version row, ¬IsHead demoted descriptor.identity.id version row)
    (hnew : table.row? (descriptor.identity.id, contentHash sha256 descriptor) = none) :
    Commit sha256 table call
      (demoted.put (descriptor.identity.id, contentHash sha256 descriptor)
        (headRow (stampVersion descriptor (contentHash sha256 descriptor)))) where
  moved := by
    rw [hid]
    have hself := Table.row?_put_self demoted (descriptor.identity.id, contentHash sha256
      descriptor) (headRow (stampVersion descriptor (contentHash sha256 descriptor)))
    exact ⟨_, _, headMoved_of_demoted hothers hdemoted hself rfl
      fun key hkey => Table.row?_put_of_ne demoted hkey _⟩
  kept := by
    intro key row hrow
    have hkey : key ≠ (descriptor.identity.id, contentHash sha256 descriptor) := by
      intro heq
      rw [heq, hnew] at hrow
      simp at hrow
    obtain ⟨flag, hflag⟩ := hrows key row hrow
    rw [← Table.row?_put_of_ne demoted hkey] at hflag
    exact ⟨_, hflag, rfl, .inl rfl⟩
  added := by
    intro key row hrow hmissing
    by_cases hkey : key = (descriptor.identity.id, contentHash sha256 descriptor)
    · rw [hkey, Table.row?_put_self, some.injEq] at hrow
      subst row
      exact ⟨descriptor, hsubmitted, ⟨hkey, rfl⟩, rfl⟩
    · rw [Table.row?_put_of_ne demoted hkey, hnone key hmissing] at hrow
      simp at hrow

theorem row?_shiftHead_of_some {key : RowKey} (hrow : table.row? key = some row)
    (descriptorId fromVersion toVersion : String) :
    ∃ flag, (shiftHead table descriptorId fromVersion toVersion).row? key =
      some { row with isHead := flag } := by
  obtain ⟨flag, hflag⟩ := row?_setIsHead_of_some hrow descriptorId fromVersion false
  exact row?_setIsHead_of_some hflag descriptorId toVersion true

theorem headMoved_shiftHead {descriptorId fromVersion toVersion : String}
    {target : Row family.State (List (String × Json))} (hunique : HeadUnique table)
    (hhead : IsHead table descriptorId fromVersion head)
    (htarget : table.row? (descriptorId, toVersion) = some target)
    (hmoves : fromVersion ≠ toVersion) :
    HeadMoved table (shiftHead table descriptorId fromVersion toVersion)
      descriptorId toVersion { target with isHead := true } := by
  have hkey : (descriptorId, toVersion) ≠ (descriptorId, fromVersion) :=
    fun heq => hmoves (mk.inj heq).2.symm
  have hkept : (setIsHead table descriptorId fromVersion false).row?
      (descriptorId, toVersion) = some target := by
    rw [row?_setIsHead_of_ne table hkey, htarget]
  have hothers : ∀ id version, id ≠ descriptorId →
      (setIsHead table descriptorId fromVersion false).row? (id, version) =
        table.row? (id, version) := by
    intro id version hid
    exact row?_setIsHead_of_ne table (fun heq => hid (mk.inj heq).1) _
  exact headMoved_of_demoted hothers (not_isHead_setIsHead_false (hunique _)
    hhead) (row?_setIsHead_self hkept true) rfl fun key hother =>
    row?_setIsHead_of_ne _ hother true

theorem commit_shiftHead {fromVersion toVersion : String} (hunique : HeadUnique table)
    (hhead : IsHead table call.descriptorId fromVersion head)
    (htarget : (table.row? (call.descriptorId, toVersion)).isSome)
    (hmoves : fromVersion ≠ toVersion) :
    Commit sha256 table call (shiftHead table call.descriptorId fromVersion toVersion) where
  moved := by
    obtain ⟨target, htarget⟩ := isSome_iff_exists.mp htarget
    exact ⟨_, _, headMoved_shiftHead hunique hhead htarget hmoves⟩
  kept := by
    intro key row hrow
    obtain ⟨flag, hflag⟩ := row?_shiftHead_of_some hrow call.descriptorId fromVersion toVersion
    exact ⟨_, hflag, rfl, .inl rfl⟩
  added := by
    intro key row hrow hmissing
    have hnone : (shiftHead table call.descriptorId fromVersion toVersion).row? key = none := by
      unfold shiftHead
      rw [row?_setIsHead_eq_none, row?_setIsHead_eq_none]
      exact hmissing
    rw [hnone] at hrow
    simp at hrow

theorem commit_setHead {target : String} {around : Surroundings}
    (hunique : HeadUnique table)
    (hset : setHead repr table call.descriptorId target around = .ok (next,
      version)) : Commit sha256 table call next := by
  obtain ⟨_, _, fromVersion, head, hhead, htarget, hmoves, hnext⟩ := setHead_eq_ok.mp hset
  rw [← hnext]
  exact commit_shiftHead hunique (isHead_of_head? hhead) htarget hmoves

theorem commit_retire (hretire : call.isRetire) (hunique : HeadUnique table)
    (hhead : IsHead table call.descriptorId version head) :
    Commit sha256 table call
      (setState table call.descriptorId version (terminalStateFor family)) where
  moved := ⟨_, _, headMoved_setState (hunique _) hhead _⟩
  kept := by
    intro key row hrow
    by_cases hkey : key = (call.descriptorId, version)
    · rw [hkey] at hrow ⊢
      exact ⟨_, row?_setState_self hrow _, rfl, .inr ⟨hretire, rfl⟩⟩
    · rw [row?_setState_of_ne table hkey]
      exact ⟨row, hrow, rfl, .inl rfl⟩
  added := by
    intro key row hrow hmissing
    by_cases hkey : key = (call.descriptorId, version)
    · rw [hkey, hhead.1] at hmissing
      simp at hmissing
    · rw [row?_setState_of_ne table hkey, hmissing] at hrow
      simp at hrow

theorem commit_of_perform (hunique : HeadUnique table)
    (hperform : call.perform sha256 repr table = .ok (next, version)) :
    Commit sha256 table call next := by
  cases call with
  | register descriptor around =>
    obtain ⟨hnoHead, hnew, hnext⟩ := register_eq_ok hperform
    rw [hnext]
    exact commit_insert rfl rfl (fun key row hrow => ⟨row.isHead, hrow⟩) (fun _
      hnone => hnone) (fun _ _ _ => rfl) (head?_eq_none.mp hnoHead) hnew
  | update descriptorId newDescriptor around =>
    obtain ⟨hid, fromVersion, head, hhead, _, hmove⟩ := update_eq_ok hperform
    have hisHead := isHead_of_head? hhead
    cases hmove with
    | inl hsame =>
      rw [hsame.2]
      exact commit_unchanged hunique hisHead
    | inr hmove =>
      obtain ⟨hversion, hmove⟩ := hmove
      cases hmove with
      | inl hshift =>
        rw [hshift.2]
        exact commit_shiftHead hunique hisHead hshift.1 hversion
      | inr hinsert =>
        rw [hinsert.2]
        subst descriptorId
        have hothers : ∀ id version, id ≠ newDescriptor.identity.id →
            (setIsHead table newDescriptor.identity.id fromVersion
              false).row? (id, version) = table.row? (id, version) :=
          fun id version hother => row?_setIsHead_of_ne table
            (fun heq => hother (mk.inj heq).1) false
        exact commit_insert rfl rfl (fun key row hrow => row?_setIsHead_of_some
          hrow _ _ _) (fun key hnone => row?_setIsHead_eq_none.mpr hnone)
          hothers (not_isHead_setIsHead_false (hunique _) hisHead) hinsert.1
  | retire descriptorId around =>
    obtain ⟨_, head, hhead, _, hnext⟩ := retire_eq_ok.mp hperform
    rw [← hnext]
    have hisHead := isHead_of_head? hhead
    exact commit_retire rfl hunique hisHead
  | promote descriptorId candidateVersion around => exact commit_setHead hunique hperform
  | rollback descriptorId targetVersion around => exact commit_setHead hunique hperform

theorem registryStep_eq_some (hstep : registryStep sha256 repr table call = some next) :
    next = table ∨ ∃ version, call.perform sha256 repr table = .ok (next, version) := by
  unfold registryStep at hstep
  cases hperform : call.perform sha256 repr table with
  | error raised =>
    rw [hperform, some.injEq] at hstep
    exact .inl hstep.symm
  | ok result =>
    rw [hperform, some.injEq] at hstep
    exact .inr ⟨result.2, by rw [← hstep]⟩

theorem registryStep_keeps {key : RowKey} (hunique : HeadUnique table)
    (hstep : registryStep sha256 repr table call = some next) (hrow : table.row? key = some row) :
    ∃ found, next.row? key = some found ∧ found.body = row.body := by
  cases registryStep_eq_some hstep with
  | inl hsame =>
    rw [hsame]
    exact ⟨row, hrow, rfl⟩
  | inr hperform =>
    obtain ⟨version, hperform⟩ := hperform
    have hkept := (commit_of_perform hunique hperform).kept
    obtain ⟨found, hfound, hbody, _⟩ := hkept key row hrow
    exact ⟨found, hfound, hbody⟩

theorem registryStep_of_perform (hperform : call.perform sha256 repr table = .ok (next, version)) :
    registryStep sha256 repr table call = some next := by
  unfold registryStep
  rw [hperform]

end

end Legba.Descriptors
