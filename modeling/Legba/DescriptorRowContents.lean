import Legba.DescriptorCoherence

/-!
# Rows are what they hash to

A row is written under the hash of its body, in the state its body names, and
no call changes a body.  `retire` alone writes a `state` column in place, so
a run keeps the rows in step with their bodies exactly when it retires
nothing.  An `update` which re-points the head at a stored version then finds
the state and the content the caller submitted there.
-/

namespace Legba.Descriptors

open JsonValue KeyedTable LabelledRun Table

variable {family : Family}

structure IsItsHash (sha256 : Json → String) (key : RowKey)
    (row : Row family.State (List (String × Json))) : Prop where
  version : key.2 = bodyHash sha256 row.body
  state : identityField? row.body "state" =
    some (.string ((stateMachineFor family).value row.state))

structure RowsAreTheirHashes (sha256 : Json → String) (table : FamilyTable family) : Prop where
  rows : ∀ key row, table.row? key = some row → IsItsHash sha256 key row
  oneHead : ∀ id version row, table.row? (id, version) = some row →
    ∃! current, ∃ head, IsHead table id current head

def HistoryKept (table next : FamilyTable family) : Prop :=
  ∀ key row, table.row? key = some row → ∃ found, next.row? key = some found ∧ found.body = row.body

/-- After a committed `update` to content which is already stored, the head
is the version of that content, in the submitted state. -/
def HeadCarriesSubmitted (sha256 : Json → String) (repr : String → String)
    (table : FamilyTable family) (call : RegistryCall family)
    (next : FamilyTable family) : Prop :=
  match call with
  | .update descriptorId newDescriptor around =>
    (table.row? (descriptorId, contentHash sha256 newDescriptor)).isSome →
    (∃ version, update sha256 repr table descriptorId newDescriptor around = .ok (next, version)) →
    ∀ version head, IsHead next descriptorId version head →
      version = contentHash sha256 newDescriptor ∧
        head.state = newDescriptor.identity.state ∧
        hashPayload head.body = hashPayload newDescriptor.modelDump
  | .register _ _ | .retire _ _ | .promote _ _ _ | .rollback _ _ _ => True

def RegistryCall.Retires (table : FamilyTable family) : RegistryCall family → Prop
  | .retire descriptorId around =>
    around.audit = none ∧ ∃ version head,
      head? table descriptorId = some (version, head) ∧
      head.state ≠ terminalStateFor family
  | .register _ _ | .update _ _ _ | .promote _ _ _ | .rollback _ _ _ => False

section

variable {sha256 : Json → String} {repr : String → String}
variable {submitted : List (Descriptor family)}
variable {table next : FamilyTable family} {call : RegistryCall family}

theorem HoldsContent.isItsHash {descriptor : Descriptor family}
    {key : RowKey} {row : Row family.State (List (String × Json))}
    (hcontent : HoldsContent sha256 descriptor key row)
    (hstate : row.state = descriptor.identity.state) :
    IsItsHash sha256 key row where
  version := by rw [hcontent.body_eq, bodyHash_stampVersion, hcontent.key_eq]
  state := by
    rw [hcontent.body_eq, identityField?_state, hstate]
    rfl

theorem Coherent.rowsAreTheirHashes (hcoherent : Coherent sha256 Eq submitted table) :
    RowsAreTheirHashes sha256 table where
  rows := by
    intro key row hrow
    obtain ⟨descriptor, _, hcontent, hstate⟩ := hcoherent.stored key row hrow
    exact hcontent.isItsHash hstate
  oneHead := by
    intro id version row hrow
    obtain ⟨current, head, hhead⟩ := hcoherent.headed id version row hrow
    apply ExistsUnique.intro current ⟨head, hhead⟩
    intro other hother
    obtain ⟨found, hfound⟩ := hother
    exact hcoherent.headUnique id _ _ _ _ hfound hhead

theorem retires_of_perform {version : String} (hretire : call.isRetire)
    (hperform : call.perform sha256 repr table = .ok (next, version)) : call.Retires table := by
  cases call with
  | retire descriptorId around =>
    obtain ⟨haudit, head, hhead, hmoves, _⟩ := retire_eq_ok.mp hperform
    exact ⟨haudit, version, head, hhead, (stateMachineFor family).ne_terminal_of_mem hmoves⟩
  | register descriptor around => exact absurd hretire Bool.false_ne_true
  | update descriptorId newDescriptor around => exact absurd hretire Bool.false_ne_true
  | promote descriptorId candidateVersion around => exact absurd hretire Bool.false_ne_true
  | rollback descriptorId targetVersion around => exact absurd hretire Bool.false_ne_true

section

variable (hcoherent : Coherent sha256 Eq submitted table)

include hcoherent

theorem coherent_eq_step (hstep : registryStep sha256 repr table call = some next)
    (hsubmits : SubmitsOnly submitted call) (hkept : ¬call.Retires table) :
    Coherent sha256 Eq submitted next :=
  hcoherent.step hstep hsubmits (fun _ => rfl)
    fun _ hperform hretire => absurd (retires_of_perform hretire hperform) hkept

theorem not_rowsAreTheirHashes_of_retires (hstep : registryStep sha256 repr table call = some next)
    (hretires : call.Retires table) : ¬RowsAreTheirHashes sha256 next := by
  intro hrows
  cases call with
  | retire descriptorId around =>
    obtain ⟨haudit, version, head, hhead, hstate⟩ := hretires
    have hmoves := (stateMachineFor family).terminal_mem head.state hstate
    have hperform : (RegistryCall.retire descriptorId around).perform sha256
        repr table = .ok (setState table descriptorId version (terminalStateFor family), version) :=
      retire_eq_ok.mpr ⟨haudit, head, hhead, hmoves, rfl⟩
    have hcommitted := registryStep_of_perform hperform
    rw [hstep, Option.some.injEq] at hcommitted
    have hisHead := isHead_of_head? hhead
    have hretired := row?_setState_self hisHead.1 (terminalStateFor family)
    rw [← hcommitted] at hretired
    have hbody := (hcoherent.rowsAreTheirHashes.rows _ _ hisHead.1).state
    have hbody' := (hrows.rows _ _ hretired).state
    rw [hbody, Option.some.injEq, Json.string.injEq] at hbody'
    exact hstate ((stateMachineFor family).value_injective hbody')
  | register descriptor around => exact hretires
  | update descriptorId newDescriptor around => exact hretires
  | promote descriptorId candidateVersion around => exact hretires
  | rollback descriptorId targetVersion around => exact hretires

theorem headCarriesSubmitted_step (hcollision : CollisionFree sha256 submitted)
    (hsubmits : SubmitsOnly submitted call) : HeadCarriesSubmitted sha256 repr table call next := by
  cases call with
  | update descriptorId newDescriptor around =>
    intro hstored hupdate version head hhead
    obtain ⟨target, htarget⟩ := Option.isSome_iff_exists.mp hstored
    obtain ⟨result, hupdate⟩ := hupdate
    have hunique := hcoherent.headUnique
    obtain ⟨hstate, hpayload, _⟩ := hcoherent.same_content hcollision
      (hsubmits newDescriptor rfl) htarget
    obtain ⟨_, fromVersion, current, hcurrent, _, hmove⟩ := update_eq_ok hupdate
    have hisHead := isHead_of_head? hcurrent
    cases hmove with
    | inl hsame =>
      obtain ⟨hversion, hnext⟩ := hsame
      rw [hnext] at hhead
      have hhash := (hunique _ _ _ _ _ hhead hisHead).trans hversion
      have hrow := hhead.1
      rw [hhash, htarget, Option.some.injEq] at hrow
      rw [← hrow]
      exact ⟨hhash, hstate, hpayload⟩
    | inr hmove =>
      obtain ⟨hversion, hmove⟩ := hmove
      cases hmove with
      | inl hshift =>
        rw [hshift.2] at hhead
        have hmoved := headMoved_shiftHead hunique hisHead htarget hversion
        rw [hmoved.head_eq hhead]
        exact ⟨hmoved.only _ _ hhead, hstate, hpayload⟩
      | inr hinsert =>
        rw [htarget] at hinsert
        exact absurd hinsert.1 (by simp)
  | register descriptor around => trivial
  | retire descriptorId around => trivial
  | promote descriptorId candidateVersion around => trivial
  | rollback descriptorId targetVersion around => trivial

end

end

section

variable {sha256 : Json → String} {repr : String → String}

/-- Rows are what they hash to in every state, and every call keeps the
history and carries what was submitted, exactly when nothing is retired. -/
theorem rowsAreTheirHashes_iff {calls : List (RegistryCall family)}
    (hcollision : CollisionFree sha256 (submittedBy calls)) :
    (VisitsOnly (registryStep sha256 repr) (RowsAreTheirHashes sha256) empty calls ∧
      StepsSatisfy (registryStep sha256 repr)
        (fun table call next => HistoryKept table next ∧
          HeadCarriesSubmitted sha256 repr table call next)
        empty calls) ↔
      StepsSatisfy (registryStep sha256 repr)
        (fun table call _ => ¬call.Retires table) empty calls := by
  have hsubmits := submitsOnly_steps sha256 repr calls empty
  have hempty : Coherent sha256 Eq (submittedBy calls) empty := coherent_empty
  have hvisits : VisitsOnly (registryStep sha256 repr)
        (RowsAreTheirHashes sha256) empty calls ↔
      StepsSatisfy (registryStep sha256 repr)
        (fun table call _ => ¬call.Retires table) empty calls :=
    visitsOnly_iff_goodSteps
      (fun _ hinv => hinv.rowsAreTheirHashes)
      (fun _ _ _ hinv hstep hallowed hgood => coherent_eq_step hinv hstep hallowed hgood)
      (fun _ _ _ hinv hstep _ hbad => not_rowsAreTheirHashes_of_retires hinv
        hstep (not_not.mp hbad))
      hempty hsubmits
  constructor
  · intro hclaim
    exact hvisits.mp hclaim.1
  · intro hkept
    apply And.intro (hvisits.mpr hkept)
    have hgood := stepsSatisfy_and hsubmits hkept
    apply stepsSatisfy_of_invariant _ _ hempty hgood
    · intro table call next hinv hstep hgood
      exact coherent_eq_step hinv hstep hgood.1 hgood.2
    · intro table call next hinv hstep hgood
      exact ⟨fun _ _ hrow => registryStep_keeps hinv.headUnique hstep hrow,
        headCarriesSubmitted_step hinv hcollision hgood.1⟩

def revertedPack : List (RegistryCall .actionPack) :=
  [.register (samplePack .draft) .clear,
    .update "watch" (samplePack .configured) .clear,
    .update "watch" (samplePack .draft) .clear]

theorem rowsAreTheirHashes_iff_revertedPack :
    VisitsOnly (registryStep sampleSha256 sampleRepr)
        (RowsAreTheirHashes sampleSha256) empty revertedPack ∧
      StepsSatisfy (registryStep sampleSha256 sampleRepr)
        (fun table call next => HistoryKept table next ∧
          HeadCarriesSubmitted sampleSha256 sampleRepr table call next)
        empty revertedPack := by
  have hcollision : CollisionFree sampleSha256 (submittedBy revertedPack) :=
    collisionFree_samplePacks [.draft, .configured, .draft]
  apply (rowsAreTheirHashes_iff hcollision).mpr
  exact ⟨not_false, not_false, not_false, trivial⟩

/-- The configured version is retired, the head rolled back to the draft, and
the configured content submitted once more. -/
def resubmittedPack : List (RegistryCall .actionPack) :=
  [.register (samplePack .draft) .clear,
    .update "watch" (samplePack .configured) .clear,
    .retire "watch" .clear,
    .rollback "watch" (sampleDigest .draft) .clear,
    .update "watch" (samplePack .configured) .clear]

/-- The head is in the terminal state although the caller submitted the
configured state. -/
theorem update_shifts_to_retired_row :
    ¬(VisitsOnly (registryStep sampleSha256 sampleRepr)
        (RowsAreTheirHashes sampleSha256) empty resubmittedPack ∧
      StepsSatisfy (registryStep sampleSha256 sampleRepr)
        (fun table call next => HistoryKept table next ∧
          HeadCarriesSubmitted sampleSha256 sampleRepr table call next)
        empty resubmittedPack) := by
  intro hclaim
  have hcarries := hclaim.2.2.2.2.2.1.2
  have hhead := hcarries rfl ⟨_, rfl⟩ (sampleDigest .configured) _ ⟨rfl, rfl⟩
  exact absurd hhead.2.1 (by decide)

end

end Legba.Descriptors
