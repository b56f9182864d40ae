import Legba.EntityFiling

/-!
# Retired profiles under entity resolution

The lookups skip the profiles which a merge or the collector has retired; the
upsert does not.  A mention reaches a retired profile exactly if it converges
onto no row elected and a retired profile has its name and class.
-/

namespace Legba.EntityResolution

open KeyedTable List LabelledRun

def RetiredIn (rows : Identities) (id : Uuid) : Prop :=
  ∃ row, (id, row) ∈ rows ∧ row.retired = true

variable {id : Uuid} {canon : Canon} {batch : Batch} {encounter : Encounter}

variable {rows : Identities} {key : Uuid}

theorem retiredIn_changeRow {set : Identity → Identity}
    (hset : ∀ row, (set row).gcStatus = row.gcStatus) :
    RetiredIn (changeRow rows id set) key ↔ RetiredIn rows key := by
  have hretired : ∀ row, (set row).retired = row.retired := by
    intro row
    unfold Identity.retired
    rw [hset]
  constructor
  · intro hexists
    obtain ⟨row, hrow, hgone⟩ := hexists
    obtain ⟨old, hold, hchanged⟩ := mem_map.mp hrow
    by_cases hid : old.1 = id
    · rw [if_pos hid] at hchanged
      obtain ⟨hkey, hset'⟩ := Prod.mk.inj hchanged
      refine ⟨old.2, hkey ▸ hold, ?_⟩
      rw [← hretired, hset']
      exact hgone
    · rw [if_neg hid] at hchanged
      exact ⟨row, hchanged ▸ hold, hgone⟩
  · intro hexists
    obtain ⟨row, hrow, hgone⟩ := hexists
    by_cases hid : key = id
    · exact ⟨set row, mem_map.mpr ⟨(key, row), hrow, if_pos hid⟩, (hretired row).trans hgone⟩
    · exact ⟨row, mem_map.mpr ⟨(key, row), hrow, if_neg hid⟩, hgone⟩

theorem retiredIn_append {new : Uuid × Identity} (hnew : new.2.retired = false) :
    RetiredIn (rows ++ [new]) key ↔ RetiredIn rows key := by
  constructor
  · intro hexists
    obtain ⟨row, hrow, hgone⟩ := hexists
    rcases mem_append.mp hrow with hold | hlast
    · exact ⟨row, hold, hgone⟩
    · rw [← mem_singleton.mp hlast, hgone] at hnew
      simp at hnew
  · intro hexists
    obtain ⟨row, hrow, hgone⟩ := hexists
    exact ⟨row, mem_append_left _ hrow, hgone⟩

section

variable {canon : Canon} {profiles : Profiles} {encounter : Encounter}

variable {rows : Identities} {key : Uuid} {aliases : List String}

theorem retiredIn_aliased {id : Uuid} :
    RetiredIn (aliased rows id aliases) key ↔ RetiredIn rows key := by
  unfold aliased
  split
  · exact Iff.rfl
  · exact retiredIn_changeRow fun _ => rfl

theorem retiredIn_upserted {draw : Draw} {name cls : String} :
    RetiredIn (upserted canon rows draw name cls) key ↔ RetiredIn rows key := by
  unfold upserted
  split
  · exact Iff.rfl
  · exact retiredIn_append rfl

theorem retiredIn_promoted {plan : Plan} :
    RetiredIn (promoted canon rows plan) key ↔ RetiredIn rows key := by
  unfold promoted
  split
  · exact Iff.rfl
  · split
    · exact Iff.rfl
    · exact retiredIn_changeRow fun _ => rfl

theorem retiredIn_recordProvenance {id : Uuid} :
    RetiredIn (identities (recordProvenance canon profiles id aliases)) key ↔
      RetiredIn (identities profiles) key := by
  rw [identities_recordProvenance]
  exact retiredIn_aliased

theorem retiredIn_resolveAnew (hfresh : profiles.row? encounter.draw.newId = none) :
    RetiredIn (identities (resolveAnew canon profiles encounter).profiles) key ↔
      RetiredIn (identities profiles) key := by
  rw [identities_resolveAnew hfresh, retiredIn_aliased, retiredIn_upserted, retiredIn_promoted]

end

section

variable {canon : Canon} {profiles : Profiles} {encounter : Encounter}

variable {key : Uuid}

theorem recordProvenance_row?_of_ne {id : Uuid} {aliases : List String} (hkey : key ≠ id) :
    (recordProvenance canon profiles id aliases).row? key = profiles.row? key := by
  unfold recordProvenance
  split
  · rfl
  · exact Table.row?_update_of_ne _ hkey _

theorem upsert_row?_of_ne {draw : Draw} {signal : Uuid} {name cls : String}
    (hkey : key ≠ (upsert canon profiles draw signal name cls).2) :
    (upsert canon profiles draw signal name cls).1.row? key = profiles.row? key := by
  unfold upsert at hkey ⊢
  cases hfound : rowNamed canon (identities profiles) name cls with
  | some found =>
    rw [hfound] at hkey
    exact Table.row?_update_of_ne _ hkey _
  | none =>
    rw [hfound] at hkey
    exact Table.row?_put_of_ne _ hkey _

theorem promote_row?_of_retired (hkey : RetiredIn (identities profiles) key) :
    (promote canon profiles (encounter.plan canon profiles)).row? key = profiles.row? key := by
  obtain ⟨row, hrow, hretired⟩ := hkey
  unfold promote
  cases hpromotable : promotable (encounter.elected canon profiles) encounter.mention with
  | none => rw [promote_of_not_promotable hpromotable]
  | some elected =>
    obtain ⟨hmem, hlive, _, _⟩ := promotable_sound hpromotable
    have hother : key ≠ elected.id := by
      intro heq
      subst heq
      rw [identities_functional hmem hrow, hretired] at hlive
      simp at hlive
    unfold Encounter.plan
    rw [planOf_promotable hpromotable]
    dsimp only
    split
    · rfl
    · exact Table.row?_update_of_ne _ hother _

theorem resolveAnew_row?_of_retired (hkey : RetiredIn (identities profiles) key)
    (hother : key ≠ (resolveAnew canon profiles encounter).id) :
    (resolveAnew canon profiles encounter).profiles.row? key = profiles.row? key :=
  calc (resolveAnew canon profiles encounter).profiles.row? key
      = (upsert canon (promote canon profiles (encounter.plan canon profiles))
          encounter.draw encounter.signal (encounter.plan canon profiles).name
          (encounter.plan canon profiles).cls).1.row? key :=
        recordProvenance_row?_of_ne hother
    _ = (promote canon profiles (encounter.plan canon profiles)).row? key :=
        upsert_row?_of_ne hother
    _ = profiles.row? key := promote_row?_of_retired hkey

theorem resolveAnew_live (hunique : NamesUnique canon (identities profiles))
    (hfresh : profiles.row? encounter.draw.newId = none)
    (hlive : converging (encounter.elected canon profiles) encounter.mention ≠
      none ∨ ∀ row ∈ identities profiles, row.2.retired = true → hasKey canon
      encounter.mention.text encounter.mention.cls row = false) :
    ¬RetiredIn (identities profiles) (resolveAnew canon profiles encounter).id := by
  intro hretired
  obtain ⟨row, hrow, hgone⟩ := hretired
  have hnotLive : ∀ other, ((resolveAnew canon profiles encounter).id,
      other) ∈ identities profiles → other.retired ≠ false := by
    intro other hother
    rw [identities_functional hother hrow, hgone]
    simp
  rw [resolveAnew_id hunique] at hrow hnotLive
  cases hfiled : encounter.filedOn canon profiles with
  | none =>
    rw [hfiled, Option.getD_none] at hrow
    obtain ⟨profile, hprofile, _⟩ := mem_identities.mp hrow
    exact absurd (hfresh.symm.trans hprofile) (by simp)
  | some id =>
    rw [hfiled, Option.getD_some] at hnotLive
    obtain ⟨identity, hmem, hfiledBy⟩ := filedBy_of_filedOn hfiled
    cases hfiledBy with
    | converging viaFallback hconverging =>
      have hpre := (Option.filter_eq_some_iff.mp hconverging).1
      exact hnotLive identity hmem (preLookup_sound hpre).2.1
    | named hnot hnamed =>
      have hkey := (rowNamed_mem hnamed).2
      have hfree := hlive.resolve_left fun hne => hne hnot
      have hfound := hnotLive identity hmem
      rw [ne_eq, Bool.not_eq_false] at hfound
      rw [hfree (id, identity) hmem hfound] at hkey
      simp at hkey
    | promotable viaFallback hnot hnone hpromotable =>
      obtain ⟨_, helected, _, _⟩ := promotable_sound hpromotable
      exact hnotLive identity hmem helected

end

/-! ## Runs -/

theorem mem_linksOf {linked : List Linked} {link : Uuid × Uuid} :
    link ∈ linksOf linked ↔ ∃ entry ∈ linked, (entry.signal, entry.entity) = link := by
  unfold linksOf
  rw [mem_eraseDups, mem_map]

/-- No mention is linked to a retired profile, and the profiles retired at the
start have their last link, their lineage and their aliases of the start. -/
structure SparesRetired (start : Profiles) (batch : Batch) : Prop where
  links : ∀ link ∈ linksOf batch.linked, ¬RetiredIn (identities batch.profiles) link.2
  rows : ∀ id row, start.row? id = some row →
    row.identity.retired = true →
    ∃ now, batch.profiles.row? id = some now ∧
      now.lastEventLinkAt = row.lastEventLinkAt ∧
      now.derivedFrom = row.derivedFrom ∧
      now.identity.mergedAliases = row.identity.mergedAliases

/-- A mention which is not in the cache converges onto the row elected, or no
retired profile has its name and class. -/
def MeetsNoRetired (canon : Canon) (batch : Batch) (encounter : Encounter) (_ : Batch) : Prop :=
  cacheHit batch encounter.mention ≠ none ∨
    converging (encounter.elected canon batch.profiles) encounter.mention ≠ none ∨
    ∀ row ∈ identities batch.profiles, row.2.retired = true →
      hasKey canon encounter.mention.text encounter.mention.cls row = false

structure RetirementInv (canon : Canon) (start : Profiles) (batch : Batch) : Prop where
  unique : NamesUnique canon (identities batch.profiles)
  links : ∀ entry ∈ batch.linked, ¬RetiredIn (identities batch.profiles) entry.entity
  cache : ∀ fold id cls, batch.nameToId fold = some (id, cls) →
    ¬RetiredIn (identities batch.profiles) id
  rows : ∀ id row, start.row? id = some row →
    row.identity.retired = true → batch.profiles.row? id = some row

theorem RetirementInv.sparesRetired {start : Profiles} (hinv : RetirementInv canon start batch) :
    SparesRetired start batch where
  links := by
    intro link hlink
    obtain ⟨entry, hentry, rfl⟩ := mem_linksOf.mp hlink
    exact hinv.links entry hentry
  rows := fun id row hrow hretired => ⟨row, hinv.rows id row hrow hretired, rfl, rfl, rfl⟩

theorem RetirementInv.retiredIn {start : Profiles} (hinv : RetirementInv canon start batch)
    {row : Profile} (hrow : start.row? id = some row) (hretired : row.identity.retired) :
    RetiredIn (identities batch.profiles) id :=
  ⟨row.identity, mem_identities.mpr ⟨row, hinv.rows id row hrow hretired, rfl⟩, hretired⟩

theorem RetirementInv.start {start : Profiles} (hunique : NamesUnique canon (identities start)) :
    RetirementInv canon start (Batch.start start) where
  unique := hunique
  links := by
    intro entry hentry
    exact absurd hentry not_mem_nil
  cache := by
    intro fold id cls hcached
    exact absurd hcached (by simp [Batch.start])
  rows := fun _ _ hrow _ => hrow

theorem RetirementInv.reuse {start : Profiles} (hinv : RetirementInv canon start batch)
    (hhit : cacheHit batch encounter.mention = some id) :
    RetirementInv canon start (reuse canon batch encounter id) := by
  have hlive : ¬RetiredIn (identities batch.profiles) id := by
    obtain ⟨cls, hcached⟩ := cacheHit_eq_some hhit
    exact hinv.cache _ _ _ hcached
  constructor
  · unfold EntityResolution.reuse
    rw [identities_recordProvenance]
    exact hinv.unique.aliased _ _
  · intro entry hentry
    unfold EntityResolution.reuse
    rw [retiredIn_recordProvenance]
    rcases mem_append.mp hentry with hold | hnew
    · exact hinv.links entry hold
    · rw [mem_singleton.mp hnew]
      exact hlive
  · intro fold other cls hcached
    unfold EntityResolution.reuse
    rw [retiredIn_recordProvenance]
    exact hinv.cache fold other cls hcached
  · intro other row hrow hretired
    have hother : other ≠ id := by
      intro heq
      exact hlive (heq ▸ hinv.retiredIn hrow hretired)
    unfold EntityResolution.reuse
    rw [recordProvenance_row?_of_ne hother]
    exact hinv.rows other row hrow hretired

theorem RetirementInv.linkAnew {start : Profiles} (hinv : RetirementInv canon start batch)
    (hfresh : batch.profiles.row? encounter.draw.newId = none)
    (hlive : ¬RetiredIn (identities batch.profiles) (resolveAnew canon batch.profiles
      encounter).id) : RetirementInv canon start (linkAnew canon batch encounter) := by
  constructor
  · exact hinv.unique.resolveAnew hfresh
  · intro entry hentry
    unfold EntityResolution.linkAnew
    rw [retiredIn_resolveAnew hfresh]
    rcases mem_append.mp hentry with hold | hnew
    · exact hinv.links entry hold
    · rw [mem_singleton.mp hnew]
      exact hlive
  · intro fold id cls hcached
    unfold EntityResolution.linkAnew at hcached ⊢
    rw [retiredIn_resolveAnew hfresh]
    rcases update_eq_some.mp hcached with ⟨_, heq⟩ | ⟨_, hold⟩
    · rw [(Prod.mk.inj heq).1]
      exact hlive
    · exact hinv.cache fold id cls hold
  · intro id row hrow hretired
    have hgone := hinv.retiredIn hrow hretired
    have hother : id ≠ (resolveAnew canon batch.profiles encounter).id := by
      intro heq
      exact hlive (heq ▸ hgone)
    unfold EntityResolution.linkAnew
    rw [resolveAnew_row?_of_retired hgone hother]
    exact hinv.rows id row hrow hretired

/-- A batch spares the retired profiles exactly if each mention it looks up
converges onto the row elected or meets no retired profile with its name and
class. -/
theorem resolution_sparesRetired_iff (canon : Canon) (profiles : Profiles)
    (hunique : NamesUnique canon (identities profiles)) (signals : List Signal) :
    LabelledRun.VisitsOnly (resolveStep canon) (SparesRetired profiles)
        (Batch.start profiles) (batchOf canon signals) ↔
      LabelledRun.StepsSatisfy (resolveStep canon) (MeetsNoRetired canon)
        (Batch.start profiles) (batchOf canon signals) := by
  refine visitsOnly_iff_goodSteps (fun _ =>
    RetirementInv.sparesRetired) ?_ ?_ (RetirementInv.start hunique)
    (stepsSatisfy_of_forall (fun _ _ _ _ => trivial) _ _)
  · intro batch encounter next hinv hstep _ hgood
    obtain ⟨hfresh, ⟨id, hhit, rfl⟩ | ⟨hmiss, rfl⟩⟩ := resolveStep_cases hstep
    · exact hinv.reuse hhit
    · have hlive := hgood.resolve_left fun hne => hne hmiss
      exact hinv.linkAnew hfresh (resolveAnew_live hinv.unique hfresh hlive)
  · intro batch encounter next hinv hstep _ hbad hspares
    obtain ⟨hfresh, ⟨id, hhit, rfl⟩ | ⟨hmiss, rfl⟩⟩ := resolveStep_cases hstep
    · exact hbad (.inl (by simp [hhit]))
    · unfold MeetsNoRetired at hbad
      rw [not_or, not_or] at hbad
      obtain ⟨_, hconverging, hkey⟩ := hbad
      rw [not_not] at hconverging
      simp only [not_forall] at hkey
      obtain ⟨row, hrow, hretired, hnamed⟩ := hkey
      rw [Bool.not_eq_false] at hnamed
      have hfound := rowNamed_eq_some hinv.unique hrow hnamed
      have hid : (resolveAnew canon batch.profiles encounter).id = row.1 := by
        rw [resolveAnew_id hinv.unique]
        unfold Encounter.filedOn filedOn
        rw [hconverging, hfound]
        rfl
      have hlink : (encounter.signal,
          (resolveAnew canon batch.profiles encounter).id) ∈
          linksOf (linkAnew canon batch encounter).linked :=
        mem_linksOf.mpr ⟨_, mem_append_right batch.linked mem_cons_self, rfl⟩
      apply hspares.links _ hlink
      unfold linkAnew
      rw [retiredIn_resolveAnew hfresh, hid]
      exact ⟨row.2, hrow, hretired⟩

/-- The canon on plain names, which it leaves as they are, and on one name with
an article. -/
def plainCanon : Canon where
  strip := fun text => text
  btrim := fun text => text
  lower := fun text => text
  collapseSpaces := fun text => text
  dropArticle := fun text => if text = "the zorvex" then "zorvex" else text
  stripLeadingArticle := fun text =>
    if text = "the zorvex" then "zorvex" else text
  stripResidue := fun text => text
  dropZeroWidth := fun text => text
  dropNonAlnum := fun text => text
  canonicalizeEntity := fun name cls => (name, cls)
  isJunkEntity := fun _ => false
  isOrgSurface := fun _ => false
  soundsLike := fun _ _ => false
  differsByDirection := fun _ _ => false
  aliasMarker := fun _ => 0

def junkProfiles : Profiles :=
  Table.empty.put 1 ⟨⟨"zorvex", "person", some .junk, none, [], 0⟩, none, []⟩

def zorvexSignal (id newId : Uuid) (text cls : String) : Signal where
  id := id
  spans := [⟨text, cls⟩]
  draw := fun _ => ⟨newId, 5, fun _ => 0, false⟩

theorem junkProfiles_unique : NamesUnique plainCanon (identities junkProfiles) := by
  intro a ha b hb _ _
  rw [mem_singleton.mp ha, mem_singleton.mp hb]

theorem junk_profile_linked :
    NamesUnique plainCanon (identities junkProfiles) ∧
      ¬LabelledRun.VisitsOnly (resolveStep plainCanon)
        (SparesRetired junkProfiles) (Batch.start junkProfiles)
        (batchOf plainCanon [zorvexSignal 10 99 "zorvex" "person"]) := by
  refine ⟨junkProfiles_unique, ?_⟩
  intro hvisits
  have hrun : (run (resolveStep plainCanon)
      (Batch.start junkProfiles)
      (batchOf plainCanon [zorvexSignal 10 99 "zorvex" "person"])).map
        (fun batch => (batch.profiles.row? 1).map Profile.lastEventLinkAt) =
      some (some (some 5)) := by
    decide +kernel
  obtain ⟨final, hfinal, hlinked⟩ := Option.map_eq_some_iff.mp hrun
  have hspares := hvisits.final hfinal
  obtain ⟨now, hnow, hsame, _⟩ := hspares.rows 1
    ⟨⟨"zorvex", "person", some .junk, none, [], 0⟩, none, []⟩ rfl rfl
  rw [hnow, Option.map_some, hsame] at hlinked
  exact absurd (Option.some.inj hlinked) (by simp)

theorem junk_profile_spared :
    LabelledRun.VisitsOnly (resolveStep plainCanon)
      (SparesRetired junkProfiles) (Batch.start junkProfiles)
      (batchOf plainCanon [zorvexSignal 10 99 "zorvex" "organization"]) := by
  refine (resolution_sparesRetired_iff plainCanon junkProfiles junkProfiles_unique _).mpr ?_
  have hbatch : batchOf plainCanon
      [zorvexSignal 10 99 "zorvex" "organization"] =
      [⟨10, true, ⟨99, 5, fun _ => 0, false⟩,
        ⟨"zorvex", "zorvex", "organization", []⟩⟩] := by
    rfl
  cases hstep : resolveStep plainCanon (Batch.start junkProfiles)
      ⟨10, true, ⟨99, 5, fun _ => 0, false⟩, ⟨"zorvex", "zorvex", "organization", []⟩⟩ with
  | none => trivial
  | some next =>
    refine (stepsSatisfy_cons hstep).mpr ⟨.inr (.inr ?_), trivial⟩
    change ∀ row ∈ identities junkProfiles, _
    intro row hrow _
    rw [mem_singleton.mp hrow]
    decide +kernel

end Legba.EntityResolution
