import Legba.DescriptorCommits
import Legba.LabelledRun

/-!
# The invariant of the registry

In every state of a run each descriptor id with a row has a head, and each
row holds the content of a descriptor some caller submitted, under the hash
of that content.  How the `state` column is related to the submitted state is
a parameter: it is equal to it until a head is retired.
-/

namespace Legba.Descriptors

open JsonValue KeyedTable LabelledRun

variable {family : Family}

/-- A row holds the content of one of the submitted descriptors, and its
state is related to the submitted one. -/
def Stored (sha256 : Json → String)
    (related : family.State → family.State → Prop)
    (submitted : List (Descriptor family)) (key : RowKey)
    (row : Row family.State (List (String × Json))) : Prop :=
  ∃ descriptor ∈ submitted, HoldsContent sha256 descriptor key row ∧
    related row.state descriptor.identity.state

structure Coherent (sha256 : Json → String)
    (related : family.State → family.State → Prop)
    (submitted : List (Descriptor family)) (table : FamilyTable family) :
    Prop where
  headUnique : HeadUnique table
  headed : ∀ id version row, table.row? (id, version) = some row →
    ∃ other head, IsHead table id other head
  stored : ∀ key row, table.row? key = some row → Stored sha256 related submitted key row

def SubmitsOnly (submitted : List (Descriptor family)) (call : RegistryCall family) : Prop :=
  ∀ descriptor, call.submitted? = some descriptor → descriptor ∈ submitted

section

variable {sha256 : Json → String}
variable {related : family.State → family.State → Prop}
variable {submitted : List (Descriptor family)}
variable {table next : FamilyTable family} {call : RegistryCall family}

theorem coherent_empty : Coherent sha256 related submitted Table.empty where
  headUnique := headUnique_empty
  headed := fun _ _ _ hrow => absurd hrow (by simp)
  stored := fun _ _ hrow => absurd hrow (by simp)

theorem Coherent.commit (hcoherent : Coherent sha256 related submitted table)
    (hcommit : Commit sha256 table call next)
    (hsubmits : SubmitsOnly submitted call) (hsame : ∀ state, related state state)
    (hretire : call.isRetire = true → ∀ state, related (terminalStateFor family)
      state) : Coherent sha256 related submitted next := by
  obtain ⟨version, head, hmoved⟩ := hcommit.moved
  have hheaded : ∀ id other row, next.row? (id, other) = some row →
      ∃ current found, IsHead next id current found := by
    intro id other row hrow
    by_cases hid : id = call.descriptorId
    · rw [hid]
      exact ⟨version, head, hmoved.isHead⟩
    · rw [hmoved.otherRows id other hid] at hrow
      obtain ⟨current, found, hfound⟩ := hcoherent.headed id other row hrow
      have hrows := hfound.1
      rw [← hmoved.otherRows id current hid] at hrows
      exact ⟨current, found, hrows, hfound.2⟩
  have hstored : ∀ key row, next.row? key = some row → Stored sha256 related submitted key row := by
    intro key row hrow
    cases hold : table.row? key with
    | none =>
      obtain ⟨descriptor, hcall, hcontent, hstate⟩ := hcommit.added key row hrow hold
      exact ⟨descriptor, hsubmits descriptor hcall, hcontent, hstate ▸ hsame _⟩
    | some old =>
      obtain ⟨descriptor, hmem, hcontent, hrelated⟩ := hcoherent.stored key old hold
      obtain ⟨found, hfound, hbody, hstate⟩ := hcommit.kept key old hold
      rw [hrow, Option.some.injEq] at hfound
      subst found
      have hholds : HoldsContent sha256 descriptor key row :=
        ⟨hcontent.key_eq, hbody.trans hcontent.body_eq⟩
      cases hstate with
      | inl hkept => exact ⟨descriptor, hmem, hholds, hkept ▸ hrelated⟩
      | inr hretired => exact ⟨descriptor, hmem, hholds, hretired.2 ▸ hretire hretired.1 _⟩
  exact ⟨hmoved.headUnique hcoherent.headUnique, hheaded, hstored⟩

theorem Coherent.step {repr : String → String} (hcoherent : Coherent sha256 related submitted table)
    (hstep : registryStep sha256 repr table call = some next)
    (hsubmits : SubmitsOnly submitted call) (hsame : ∀ state, related state state)
    (hretire : ∀ version, call.perform sha256 repr table = .ok (next, version) → call.isRetire =
      true → ∀ state, related (terminalStateFor family) state) :
    Coherent sha256 related submitted next := by
  cases registryStep_eq_some hstep with
  | inl hunchanged =>
    rw [hunchanged]
    exact hcoherent
  | inr hperform =>
    obtain ⟨version, hperform⟩ := hperform
    have hcommit := commit_of_perform hcoherent.headUnique hperform
    exact hcoherent.commit hcommit hsubmits hsame (hretire version hperform)

theorem submitsOnly_steps (sha256 : Json → String) (repr : String → String)
    (calls : List (RegistryCall family)) (table : FamilyTable family) :
    StepsSatisfy (registryStep sha256 repr)
      (fun _ call _ => SubmitsOnly (submittedBy calls) call) table calls := by
  apply stepsSatisfy_of_labels
  intro call hcall descriptor hsubmitted
  exact List.mem_filterMap.mpr ⟨call, hcall, hsubmitted⟩

theorem Coherent.same_content {descriptor : Descriptor family} {id : String}
    {row : Row family.State (List (String × Json))}
    (hcoherent : Coherent sha256 related submitted table)
    (hcollision : CollisionFree sha256 submitted) (hmem : descriptor ∈ submitted)
    (hrow : table.row? (id, contentHash sha256 descriptor) = some row) :
    related row.state descriptor.identity.state ∧
      hashPayload row.body = hashPayload descriptor.modelDump ∧
      identityField? row.body "version" = some (.string (contentHash sha256 descriptor)) := by
  obtain ⟨original, horiginal, hcontent, hrelated⟩ := hcoherent.stored _ _ hrow
  have hhash : contentHash sha256 descriptor = contentHash sha256 original :=
    (Prod.mk.inj hcontent.key_eq).2
  have hpayload := hcollision original horiginal descriptor hmem hhash.symm
  rw [← state_eq_of_hashPayload_eq hpayload, hcontent.body_eq,
    hashPayload_stampVersion, identityField?_version, hhash]
  exact ⟨hrelated, hpayload, rfl⟩

end

end Legba.Descriptors
