import Legba.EntityResolution

/-!
# Where a mention is filed

The ladder of lookups and the upsert together file a mention on one row: the
row elected, if the mention converges onto it, else the row of its own name and
class, else the row elected with its class promoted, else a new row.
-/

namespace Legba.EntityResolution

open KeyedTable List Bool EntityResolution

variable {profiles : Profiles} {id : Uuid}

theorem mem_identities {row : Identity} :
    (id, row) ∈ identities profiles ↔
      ∃ profile, profiles.row? id = some profile ∧ profile.identity = row := by
  unfold identities
  rw [mem_filterMap]
  constructor
  · intro hmem
    obtain ⟨key, _, hrow⟩ := hmem
    obtain ⟨profile, hprofile, hpair⟩ := Option.map_eq_some_iff.mp hrow
    obtain ⟨rfl, rfl⟩ := Prod.mk.inj hpair
    exact ⟨profile, hprofile, rfl⟩
  · intro hmem
    obtain ⟨profile, hprofile, hrow⟩ := hmem
    have hkey : id ∈ profiles.keys := by
      rw [profiles.mem_keys, hprofile]
      rfl
    exact ⟨id, hkey, by rw [hprofile, Option.map_some, hrow]⟩

theorem identities_functional {left right : Identity} (hleft : (id, left) ∈ identities profiles)
    (hright : (id, right) ∈ identities profiles) : left = right := by
  obtain ⟨profile, hprofile, rfl⟩ := mem_identities.mp hleft
  obtain ⟨other, hother, rfl⟩ := mem_identities.mp hright
  rw [Option.some.inj (hprofile.symm.trans hother)]

theorem row?_isSome_iff :
    (profiles.row? id).isSome = true ↔ id ∈ (identities profiles).map Prod.fst := by
  rw [mem_map, Option.isSome_iff_exists]
  constructor
  · intro hexists
    obtain ⟨profile, hprofile⟩ := hexists
    exact ⟨(id, profile.identity), mem_identities.mpr ⟨profile, hprofile, rfl⟩, rfl⟩
  · intro hexists
    obtain ⟨row, hrow, rfl⟩ := hexists
    obtain ⟨profile, hprofile, _⟩ := mem_identities.mp hrow
    exact ⟨profile, hprofile⟩

def changeRow (rows : Identities) (id : Uuid) (set : Identity → Identity) :
    Identities :=
  rows.map fun row => if row.1 = id then (row.1, set row.2) else row

theorem identities_update (profiles : Profiles) (id : Uuid) (change : Profile → Profile)
    (set : Identity → Identity) (hset : ∀ row, (change row).identity = set row.identity) :
    identities (profiles.update id change) = changeRow (identities profiles) id set := by
  unfold identities changeRow
  rw [map_filterMap]
  apply filterMap_congr
  intro key _
  by_cases hkey : key = id
  · subst hkey
    rw [Table.row?_update_self]
    cases profiles.row? key with
    | none => rfl
    | some row => simp [hset]
  · rw [Table.row?_update_of_ne _ hkey]
    cases profiles.row? key with
    | none => rfl
    | some row => simp [hkey]

theorem identities_update_of_same (profiles : Profiles) (id : Uuid) (change : Profile → Profile)
    (hsame : ∀ row, (change row).identity = row.identity) :
    identities (profiles.update id change) = identities profiles := by
  rw [identities_update profiles id change (fun row => row) hsame]
  unfold changeRow
  simp

theorem identities_put (hfresh : profiles.row? id = none) (row : Profile) :
    identities (profiles.put id row) = identities profiles ++ [(id, row.identity)] := by
  have hkey : id ∉ profiles.keys := by
    rw [profiles.mem_keys, hfresh]
    simp
  have hkeys : (profiles.put id row).keys = profiles.keys ++ [id] :=
    if_neg hkey
  unfold identities
  rw [hkeys, filterMap_append]
  congr 1
  · apply filterMap_congr
    intro key hmem
    have hother : key ≠ id := fun heq => hkey (heq ▸ hmem)
    rw [Table.row?_put_of_ne _ hother]
  · simp

/-! ## Unique names -/

def NamesUnique (canon : Canon) (rows : Identities) : Prop :=
  ∀ a ∈ rows, ∀ b ∈ rows,
    sameName canon a.2.canonicalName b.2.canonicalName = true →
    a.2.entityClass = b.2.entityClass → a.1 = b.1

section

variable {canon : Canon}

theorem sameName_iff {left right : String} :
    sameName canon left right = true ↔ canon.lower left = canon.lower right := by
  simp [sameName]

variable {name cls : String} {row : Uuid × Identity} {rows : Identities}

theorem hasKey_iff :
    hasKey canon name cls row = true ↔
      canon.lower row.2.canonicalName = canon.lower name ∧ row.2.entityClass = cls := by
  simp [hasKey, sameName]

theorem rowNamed_eq_some {profiles : Profiles} (hunique : NamesUnique canon (identities profiles))
    (hrow : row ∈ identities profiles) (hkey : hasKey canon name cls row) :
    rowNamed canon (identities profiles) name cls = some row := by
  have hsome : (rowNamed canon (identities profiles) name cls).isSome :=
    find?_isSome.mpr ⟨row, hrow, hkey⟩
  obtain ⟨found, hfound⟩ := Option.isSome_iff_exists.mp hsome
  have hmem := mem_of_find?_eq_some hfound
  obtain ⟨hname, hcls⟩ := hasKey_iff.mp (find?_some hfound)
  obtain ⟨hrowName, hrowCls⟩ := hasKey_iff.mp hkey
  have hid : found.1 = row.1 := hunique found hmem row hrow
    (sameName_iff.mpr (hname.trans hrowName.symm)) (hcls.trans hrowCls.symm)
  have hsame : (row.1, found.2) ∈ identities profiles := hid ▸ hmem
  have hidentity : found.2 = row.2 := identities_functional hsame hrow
  rw [hfound, Prod.ext hid hidentity]

theorem rowNamed_eq_none :
    rowNamed canon rows name cls = none ↔ ∀ row ∈ rows, hasKey canon name cls row = false := by
  unfold rowNamed
  simp

theorem rowNamed_mem (hfound : rowNamed canon rows name cls = some row) :
    row ∈ rows ∧ hasKey canon name cls row = true :=
  ⟨mem_of_find?_eq_some hfound, find?_some hfound⟩

section

variable (hunique : NamesUnique canon rows)

include hunique

theorem NamesUnique.changeRow {id : Uuid} {set : Identity → Identity}
    (hset : ∀ row, (set row).canonicalName = row.canonicalName ∧ (set row).entityClass =
      row.entityClass) : NamesUnique canon (changeRow rows id set) := by
  have hback : ∀ row ∈ EntityResolution.changeRow rows id set,
      ∃ old ∈ rows, old.1 = row.1 ∧
        old.2.canonicalName = row.2.canonicalName ∧
        old.2.entityClass = row.2.entityClass := by
    intro row hrow
    obtain ⟨old, hold, hchanged⟩ := mem_map.mp hrow
    refine ⟨old, hold, ?_⟩
    by_cases hid : old.1 = id
    · rw [if_pos hid] at hchanged
      rw [← hchanged]
      exact ⟨rfl, (hset old.2).1.symm, (hset old.2).2.symm⟩
    · rw [if_neg hid] at hchanged
      rw [hchanged]
      exact ⟨rfl, rfl, rfl⟩
  intro a ha b hb hname hcls
  obtain ⟨oldA, hmemA, hidA, hnameA, hclsA⟩ := hback a ha
  obtain ⟨oldB, hmemB, hidB, hnameB, hclsB⟩ := hback b hb
  rw [← hidA, ← hidB]
  apply hunique oldA hmemA oldB hmemB
  · rw [hnameA, hnameB]
    exact hname
  · rw [hclsA, hclsB, hcls]

theorem NamesUnique.withClass {id : Uuid}
    (hname : ∀ row ∈ rows, row.1 = id → canon.lower row.2.canonicalName = canon.lower name)
    (hfree : ∀ row ∈ rows, row.1 ≠ id → hasKey canon name cls row = false) :
    NamesUnique canon (EntityResolution.changeRow rows id fun row => row.withClass cls) := by
  have hother : ∀ row ∈ rows, ∀ other ∈ rows, row.1 = id → other.1 ≠ id →
      canon.lower row.2.canonicalName = canon.lower other.2.canonicalName →
      other.2.entityClass ≠ cls := by
    intro row hrow other hotherRow hid hne hsame hcls
    have hkey : hasKey canon name cls other :=
      hasKey_iff.mpr ⟨hsame.symm.trans (hname row hrow hid), hcls⟩
    rw [hfree other hotherRow hne] at hkey
    simp at hkey
  intro a ha b hb hsame hcls
  obtain ⟨oldA, hmemA, hchangedA⟩ := mem_map.mp ha
  obtain ⟨oldB, hmemB, hchangedB⟩ := mem_map.mp hb
  rw [sameName_iff] at hsame
  by_cases hidA : oldA.1 = id
  · by_cases hidB : oldB.1 = id
    · rw [if_pos hidA] at hchangedA
      rw [if_pos hidB] at hchangedB
      rw [← hchangedA, ← hchangedB]
      exact hidA.trans hidB.symm
    · rw [if_pos hidA] at hchangedA
      rw [if_neg hidB] at hchangedB
      subst hchangedA
      subst hchangedB
      exact absurd hcls.symm (hother oldA hmemA oldB hmemB hidA hidB hsame)
  · by_cases hidB : oldB.1 = id
    · rw [if_neg hidA] at hchangedA
      rw [if_pos hidB] at hchangedB
      subst hchangedA
      subst hchangedB
      exact absurd hcls (hother oldB hmemB oldA hmemA hidB hidA hsame.symm)
    · rw [if_neg hidA] at hchangedA
      rw [if_neg hidB] at hchangedB
      subst hchangedA
      subst hchangedB
      exact hunique oldA hmemA oldB hmemB (sameName_iff.mpr hsame) hcls

theorem NamesUnique.append {new : Uuid × Identity}
    (hfree : ∀ row ∈ rows, hasKey canon new.2.canonicalName new.2.entityClass row
      = false) : NamesUnique canon (rows ++ [new]) := by
  have hnew : ∀ row ∈ rows,
      canon.lower row.2.canonicalName = canon.lower new.2.canonicalName →
      row.2.entityClass ≠ new.2.entityClass := by
    intro row hrow hsame hcls
    have hkey := hasKey_iff.mpr ⟨hsame, hcls⟩
    rw [hfree row hrow] at hkey
    simp at hkey
  intro a ha b hb hsame hcls
  rw [mem_append, mem_singleton] at ha hb
  rw [sameName_iff] at hsame
  rcases ha with ha | ha
  · rcases hb with hb | hb
    · exact hunique a ha b hb (sameName_iff.mpr hsame) hcls
    · rw [hb] at hsame hcls
      exact absurd hcls (hnew a ha hsame)
  · rcases hb with hb | hb
    · rw [ha] at hsame hcls
      exact absurd hcls.symm (hnew b hb hsame.symm)
    · rw [ha, hb]

end

end

/-! ## The row elected -/

def converging (pre : Option Elected) (mention : Mention) : Option Elected :=
  pre.filter fun elected =>
    !isCountryLocation elected.row.entityClass mention.cls &&
      if elected.viaFallback then
        fallbackClassCompatible elected.row.entityClass mention.cls
      else !(classRank mention.cls < classRank elected.row.entityClass)

def promotable (pre : Option Elected) (mention : Mention) : Option Elected :=
  pre.filter fun elected =>
    !isCountryLocation elected.row.entityClass mention.cls &&
      !elected.viaFallback &&
      classRank mention.cls < classRank elected.row.entityClass

def filedOn (canon : Canon) (rows : Identities) (pre : Option Elected)
    (mention : Mention) : Option Uuid :=
  match converging pre mention with
  | some elected => some elected.id
  | none =>
    match rowNamed canon rows mention.text mention.cls with
    | some row => some row.1
    | none => (promotable pre mention).map Elected.id

section

variable {canon : Canon} {rows : Identities} {draw : Draw} {mention : Mention}

variable {elected : Elected}

theorem preLookup_sound (hpre : preLookup canon rows draw mention = some elected) :
    (elected.id, elected.row) ∈ rows ∧ elected.row.retired = false ∧
      (elected.viaFallback = false →
        sameName canon elected.row.canonicalName mention.text = true) := by
  unfold preLookup at hpre
  split at hpre
  · rename_i row hrow
    obtain rfl := Option.some.inj hpre
    have hmem := RowOrder.firstBy_mem hrow
    rw [mem_filter, and_eq_true, not_eq_true'] at hmem
    exact ⟨hmem.1, hmem.2.1, fun _ => hmem.2.2⟩
  · split at hpre
    · rename_i row hrow
      obtain rfl := Option.some.inj hpre
      unfold fallbackLookup at hrow
      dsimp only at hrow
      split at hrow
      · simp at hrow
      · have hmem := RowOrder.firstBy_mem hrow
        rw [mem_filter, and_eq_true, not_eq_true'] at hmem
        exact ⟨hmem.1, hmem.2.1, fun hexact => absurd hexact (by simp)⟩
    · obtain ⟨row, hrow, rfl⟩ := Option.map_eq_some_iff.mp hpre
      unfold transliterationLookup at hrow
      split at hrow
      · simp at hrow
      · split at hrow
        · simp at hrow
        · rename_i found hfound
          split at hrow
          · simp at hrow
          · obtain rfl := Option.some.inj hrow
            have hmem := RowOrder.firstBy_mem hfound
            simp only [mem_filter, and_eq_true, not_eq_true'] at hmem
            exact ⟨hmem.1, hmem.2.1.2, fun hexact => absurd hexact (by simp)⟩

variable {pre : Option Elected}

theorem planOf_converging (hconverging : converging pre mention = some elected) :
    planOf canon pre mention =
      ⟨adoptedName canon elected.row.canonicalName mention.text,
        elected.row.entityClass,
        adoptedAliases canon elected.row.canonicalName mention.text mention.aliases, none⟩ := by
  obtain ⟨hpre, hcondition⟩ := Option.filter_eq_some_iff.mp hconverging
  rw [and_eq_true, not_eq_true'] at hcondition
  subst hpre
  unfold planOf
  dsimp only
  rw [if_neg (by simp [hcondition.1])]
  by_cases hfallback : elected.viaFallback = true
  · have hcompatible := hcondition.2
    rw [if_pos hfallback] at hcompatible
    rw [if_pos hfallback, if_pos hcompatible]
  · have hrank := hcondition.2
    rw [if_neg hfallback, not_eq_true', decide_eq_false_iff_not] at hrank
    rw [if_neg hfallback, if_neg hrank]

theorem planOf_promotable (hpromotable : promotable pre mention = some elected) :
    planOf canon pre mention =
      ⟨adoptedName canon elected.row.canonicalName mention.text, mention.cls,
        adoptedAliases canon elected.row.canonicalName mention.text
          mention.aliases, some elected.id⟩ := by
  obtain ⟨hpre, hcondition⟩ := Option.filter_eq_some_iff.mp hpromotable
  rw [and_eq_true, and_eq_true, not_eq_true', not_eq_true', decide_eq_true_eq] at hcondition
  obtain ⟨⟨hdistinct, hexact⟩, hrank⟩ := hcondition
  subst hpre
  unfold planOf
  dsimp only
  rw [if_neg (by simp [hdistinct]), if_neg (by simp [hexact]), if_pos hrank]

theorem planOf_otherwise (hconverging : converging pre mention = none)
    (hpromotable : promotable pre mention = none) : planOf canon pre mention = mention.asItIs := by
  cases pre with
  | none => rfl
  | some elected =>
    unfold planOf
    dsimp only
    by_cases hdistinct : isCountryLocation elected.row.entityClass mention.cls = true
    · rw [if_pos hdistinct]
    · rw [if_neg hdistinct]
      by_cases hfallback : elected.viaFallback = true
      · rw [if_pos hfallback]
        by_cases hcompatible : fallbackClassCompatible elected.row.entityClass mention.cls = true
        · simp [converging, Option.filter, hdistinct, hfallback, hcompatible] at hconverging
        · rw [if_neg hcompatible]
      · by_cases hrank : classRank mention.cls < classRank elected.row.entityClass
        · simp [promotable, Option.filter, hdistinct, hfallback, hrank] at hpromotable
        · simp [converging, Option.filter, hdistinct, hfallback, hrank] at hconverging

theorem converging_promotable (hpromotable : promotable pre mention = some elected) :
    converging pre mention = none := by
  obtain ⟨hpre, hcondition⟩ := Option.filter_eq_some_iff.mp hpromotable
  rw [and_eq_true, and_eq_true, not_eq_true', not_eq_true', decide_eq_true_eq] at hcondition
  obtain ⟨⟨_, hexact⟩, hrank⟩ := hcondition
  subst hpre
  simp [converging, Option.filter, hexact, hrank]

theorem promotable_sound
    (hpromotable : promotable (preLookup canon rows draw mention) mention = some elected) :
    (elected.id, elected.row) ∈ rows ∧ elected.row.retired = false ∧
      sameName canon elected.row.canonicalName mention.text = true ∧
      elected.row.entityClass ≠ mention.cls := by
  obtain ⟨hpre, hcondition⟩ := Option.filter_eq_some_iff.mp hpromotable
  rw [and_eq_true, and_eq_true, not_eq_true', not_eq_true', decide_eq_true_eq] at hcondition
  obtain ⟨⟨_, hexact⟩, hrank⟩ := hcondition
  obtain ⟨hmem, hlive, hname⟩ := preLookup_sound hpre
  refine ⟨hmem, hlive, hname hexact, ?_⟩
  intro heq
  rw [heq] at hrank
  exact absurd hrank (Nat.lt_irrefl _)

theorem adoptedName_of_same {stored text : String} (hname : sameName canon stored text) :
    adoptedName canon stored text = text := if_pos hname

theorem adoptedAliases_of_same {stored text : String} {aliases : List String}
    (hname : sameName canon stored text) :
    adoptedAliases canon stored text aliases = aliases := if_pos hname

theorem lower_adoptedName (stored text : String) :
    canon.lower (adoptedName canon stored text) = canon.lower stored := by
  unfold adoptedName
  by_cases hname : sameName canon stored text = true
  · rw [if_pos hname]
    exact (sameName_iff.mp hname).symm
  · rw [if_neg hname]

end

def promoted (canon : Canon) (rows : Identities) (plan : Plan) : Identities :=
  match plan.promote with
  | none => rows
  | some id =>
    if rows.any fun row => hasKey canon plan.name plan.cls row && row.1 ≠ id
      then rows
    else changeRow rows id fun row => row.withClass plan.cls

def upserted (canon : Canon) (rows : Identities) (draw : Draw) (name cls : String) : Identities :=
  match rowNamed canon rows name cls with
  | some _ => rows
  | none => rows ++ [(draw.newId, ⟨name, cls, none, none, [], draw.now⟩)]

def writtenOn (canon : Canon) (rows : Identities) (draw : Draw) (name cls : String) : Uuid :=
  match rowNamed canon rows name cls with
  | some found => found.1
  | none => draw.newId

def aliased (rows : Identities) (id : Uuid) (aliases : List String) :
    Identities :=
  if aliases = [] then rows
  else changeRow rows id fun row => row.withAliases aliases

section

variable {canon : Canon} {profiles : Profiles}

theorem identities_promote (plan : Plan) :
    identities (promote canon profiles plan) = promoted canon (identities profiles) plan := by
  unfold promote promoted
  cases plan.promote with
  | none => rfl
  | some id =>
    dsimp only
    split
    · rfl
    · exact identities_update profiles id _ _ fun _ => rfl

theorem row?_promote_isSome (plan : Plan) (id : Uuid) :
    ((promote canon profiles plan).row? id).isSome =
      (profiles.row? id).isSome := by
  unfold promote
  cases plan.promote with
  | none => rfl
  | some other =>
    dsimp only
    split
    · rfl
    · by_cases hid : id = other
      · subst hid
        rw [Table.row?_update_self, Option.isSome_map]
      · rw [Table.row?_update_of_ne _ hid]

theorem identities_upsert {draw : Draw} (hfresh : profiles.row? draw.newId = none)
    (signal : Uuid) (name cls : String) :
    identities (upsert canon profiles draw signal name cls).1 =
      upserted canon (identities profiles) draw name cls := by
  unfold upsert upserted
  cases rowNamed canon (identities profiles) name cls with
  | none => exact identities_put hfresh _
  | some found => exact identities_update_of_same profiles found.1 _ fun _ => rfl

theorem upsert_snd (draw : Draw) (signal : Uuid) (name cls : String) :
    (upsert canon profiles draw signal name cls).2 =
      writtenOn canon (identities profiles) draw name cls := by
  unfold upsert writtenOn
  cases rowNamed canon (identities profiles) name cls with
  | none => rfl
  | some found => rfl

theorem identities_recordProvenance (id : Uuid) (aliases : List String) :
    identities (recordProvenance canon profiles id aliases) =
      aliased (identities profiles) id aliases := by
  unfold recordProvenance aliased
  split
  · rfl
  · exact identities_update profiles id _ _ fun _ => rfl

theorem NamesUnique.aliased {rows : Identities} (hunique : NamesUnique canon rows) (id : Uuid)
    (aliases : List String) : NamesUnique canon (aliased rows id aliases) := by
  unfold EntityResolution.aliased
  split
  · exact hunique
  · exact hunique.changeRow fun _ => ⟨rfl, rfl⟩

theorem NamesUnique.upserted {rows : Identities} (hunique : NamesUnique canon rows) (draw : Draw)
    (name cls : String) : NamesUnique canon (upserted canon rows draw name cls) := by
  unfold EntityResolution.upserted
  split
  · exact hunique
  · rename_i hnone
    exact hunique.append (rowNamed_eq_none.mp hnone)

end

/-! ## Where the write lands -/

section

variable {canon : Canon} {profiles : Profiles} {encounter : Encounter}

abbrev Encounter.elected (encounter : Encounter) (canon : Canon)
    (profiles : Profiles) : Option Elected :=
  preLookup canon (identities profiles) encounter.draw encounter.mention

abbrev Encounter.plan (encounter : Encounter) (canon : Canon) (profiles : Profiles) : Plan :=
  planOf canon (encounter.elected canon profiles) encounter.mention

def Encounter.filedOn (encounter : Encounter) (canon : Canon) (profiles : Profiles) : Option Uuid :=
  EntityResolution.filedOn canon (identities profiles)
    (encounter.elected canon profiles) encounter.mention

theorem plan_of_not_converging
    (hnot : converging (encounter.elected canon profiles) encounter.mention = none) :
    (encounter.plan canon profiles).name = encounter.mention.text ∧
      (encounter.plan canon profiles).cls = encounter.mention.cls ∧
      (encounter.plan canon profiles).aliases = encounter.mention.aliases := by
  cases hpromotable : promotable (encounter.elected canon profiles) encounter.mention with
  | none =>
    unfold Encounter.plan
    rw [planOf_otherwise hnot hpromotable]
    exact ⟨rfl, rfl, rfl⟩
  | some elected =>
    obtain ⟨_, _, hname, _⟩ := promotable_sound hpromotable
    unfold Encounter.plan
    rw [planOf_promotable hpromotable, adoptedName_of_same hname, adoptedAliases_of_same hname]
    exact ⟨rfl, rfl, rfl⟩

section

variable (hnot : promotable (encounter.elected canon profiles) encounter.mention = none)

include hnot

theorem promote_of_not_promotable : (encounter.plan canon profiles).promote = none := by
  unfold Encounter.plan
  cases hconverging : converging (encounter.elected canon profiles) encounter.mention with
  | none => rw [planOf_otherwise hconverging hnot]; rfl
  | some elected => rw [planOf_converging hconverging]

theorem promoted_of_not_promotable :
    promoted canon (identities profiles) (encounter.plan canon profiles) = identities profiles := by
  unfold promoted
  rw [promote_of_not_promotable hnot]

end

theorem promoted_of_rowNamed {row : Uuid × Identity}
    (hrow : rowNamed canon (identities profiles) encounter.mention.text
      encounter.mention.cls = some row) :
    promoted canon (identities profiles) (encounter.plan canon profiles) = identities profiles := by
  cases hpromotable : promotable (encounter.elected canon profiles) encounter.mention with
  | none => exact promoted_of_not_promotable hpromotable
  | some elected =>
    obtain ⟨hmem, _, hname, hcls⟩ := promotable_sound hpromotable
    obtain ⟨hrowMem, hkey⟩ := rowNamed_mem hrow
    have hother : row.1 ≠ elected.id := by
      intro heq
      have hsame : row.2 = elected.row := identities_functional (heq ▸ hrowMem) hmem
      have hrowCls := (hasKey_iff.mp hkey).2
      rw [hsame] at hrowCls
      exact hcls hrowCls
    unfold promoted Encounter.plan
    rw [planOf_promotable hpromotable, adoptedName_of_same hname]
    apply if_pos
    rw [any_eq_true]
    exact ⟨row, hrowMem, by simp [hkey, hother]⟩

theorem promoted_of_promotable {elected : Elected}
    (hpromotable : promotable (encounter.elected canon profiles) encounter.mention = some elected)
    (hnone : rowNamed canon (identities profiles) encounter.mention.text encounter.mention.cls =
      none) :
    promoted canon (identities profiles) (encounter.plan canon profiles) =
      changeRow (identities profiles) elected.id
        fun row => row.withClass encounter.mention.cls := by
  obtain ⟨_, _, hname, _⟩ := promotable_sound hpromotable
  unfold promoted Encounter.plan
  rw [planOf_promotable hpromotable, adoptedName_of_same hname]
  apply if_neg
  rw [any_eq_true]
  intro hexists
  obtain ⟨row, hrow, hkey⟩ := hexists
  rw [rowNamed_eq_none.mp hnone row hrow] at hkey
  simp at hkey

theorem NamesUnique.promoted (hunique : NamesUnique canon (identities profiles)) :
    NamesUnique canon (promoted canon (identities profiles) (encounter.plan canon profiles)) := by
  cases hpromotable : promotable (encounter.elected canon profiles) encounter.mention with
  | none =>
    rw [promoted_of_not_promotable hpromotable]
    exact hunique
  | some elected =>
    cases hrow : rowNamed canon (identities profiles) encounter.mention.text
        encounter.mention.cls with
    | some row =>
      rw [promoted_of_rowNamed hrow]
      exact hunique
    | none =>
      obtain ⟨hmem, _, hname, _⟩ := promotable_sound hpromotable
      rw [promoted_of_promotable hpromotable hrow]
      have hnamed : ∀ row ∈ identities profiles, row.1 = elected.id →
          canon.lower row.2.canonicalName = canon.lower encounter.mention.text := by
        intro row hrowMem hid
        have hsame : row.2 = elected.row := identities_functional (hid ▸ hrowMem) hmem
        rw [hsame]
        exact sameName_iff.mp hname
      exact hunique.withClass hnamed fun row hrowMem _ => rowNamed_eq_none.mp hrow row hrowMem

inductive FiledBy (canon : Canon) (profiles : Profiles)
    (encounter : Encounter) (id : Uuid) (row : Identity) : Prop where
  | converging (viaFallback : Bool)
      (hconverging : converging (encounter.elected canon profiles)
        encounter.mention = some ⟨id, row, viaFallback⟩)
  | named
      (hnot : converging (encounter.elected canon profiles)
        encounter.mention = none)
      (hnamed : rowNamed canon (identities profiles) encounter.mention.text
        encounter.mention.cls = some (id, row))
  | promotable (viaFallback : Bool)
      (hnot : converging (encounter.elected canon profiles)
        encounter.mention = none)
      (hnone : rowNamed canon (identities profiles) encounter.mention.text
        encounter.mention.cls = none)
      (hpromotable : promotable
        (encounter.elected canon profiles) encounter.mention =
        some ⟨id, row, viaFallback⟩)

theorem filedBy_of_filedOn {id : Uuid} (hfiled : encounter.filedOn canon profiles = some id) :
    ∃ row, (id, row) ∈ identities profiles ∧ FiledBy canon profiles encounter id row := by
  unfold Encounter.filedOn filedOn at hfiled
  cases hconverging : converging (encounter.elected canon profiles) encounter.mention with
  | some elected =>
    rw [hconverging] at hfiled
    obtain rfl := Option.some.inj hfiled
    have hpre := (Option.filter_eq_some_iff.mp hconverging).1
    exact ⟨elected.row, (preLookup_sound hpre).1, .converging elected.viaFallback hconverging⟩
  | none =>
    rw [hconverging] at hfiled
    cases hnamed : rowNamed canon (identities profiles)
        encounter.mention.text encounter.mention.cls with
    | some found =>
      rw [hnamed] at hfiled
      obtain rfl := Option.some.inj hfiled
      exact ⟨found.2, (rowNamed_mem hnamed).1, .named hconverging hnamed⟩
    | none =>
      rw [hnamed] at hfiled
      obtain ⟨elected, hpromotable, rfl⟩ := Option.map_eq_some_iff.mp hfiled
      exact ⟨elected.row, (promotable_sound hpromotable).1,
        .promotable elected.viaFallback hconverging hnamed hpromotable⟩

theorem filedOn_eq_none (hnone : encounter.filedOn canon profiles = none) :
    converging (encounter.elected canon profiles) encounter.mention = none ∧
      rowNamed canon (identities profiles) encounter.mention.text encounter.mention.cls = none ∧
      promotable (encounter.elected canon profiles) encounter.mention =
        none := by
  unfold Encounter.filedOn filedOn at hnone
  split at hnone
  · simp at hnone
  · rename_i hconverging
    split at hnone
    · simp at hnone
    · rename_i hnamed
      exact ⟨hconverging, hnamed, Option.map_eq_none_iff.mp hnone⟩

theorem resolveAnew_id_eq_writtenOn (encounter : Encounter) :
    (resolveAnew canon profiles encounter).id =
      writtenOn canon
        (promoted canon (identities profiles) (encounter.plan canon profiles)) encounter.draw
        (encounter.plan canon profiles).name
        (encounter.plan canon profiles).cls := by
  rw [← identities_promote]
  exact upsert_snd _ _ _ _

theorem rowNamed_of_filedBy (hunique : NamesUnique canon (identities profiles))
    {id : Uuid} {row : Identity} (hmem : (id, row) ∈ identities profiles)
    (hfiledBy : FiledBy canon profiles encounter id row) :
    ∃ written, rowNamed canon
      (promoted canon (identities profiles) (encounter.plan canon profiles))
      (encounter.plan canon profiles).name
      (encounter.plan canon profiles).cls = some (id, written) := by
  cases hfiledBy with
  | converging viaFallback hconverging =>
    have hpromotable : promotable (encounter.elected canon profiles) encounter.mention = none := by
      by_contra hsome
      obtain ⟨other, hother⟩ := Option.ne_none_iff_exists'.mp hsome
      rw [converging_promotable hother] at hconverging
      simp at hconverging
    have hkey : hasKey canon (encounter.plan canon profiles).name
        (encounter.plan canon profiles).cls (id, row) := by
      unfold Encounter.plan
      rw [planOf_converging hconverging]
      exact hasKey_iff.mpr ⟨(lower_adoptedName _ _).symm, rfl⟩
    rw [promoted_of_not_promotable hpromotable]
    exact ⟨row, rowNamed_eq_some hunique hmem hkey⟩
  | named hnot hnamed =>
    obtain ⟨hname, hcls, _⟩ := plan_of_not_converging hnot
    rw [hname, hcls, promoted_of_rowNamed hnamed]
    exact ⟨row, hnamed⟩
  | promotable viaFallback hnot hnone hpromotable =>
    obtain ⟨hname, hcls, _⟩ := plan_of_not_converging hnot
    obtain ⟨_, _, hsame, _⟩ := promotable_sound hpromotable
    have hchanged : (id, row.withClass encounter.mention.cls) ∈
        identities (promote canon profiles (encounter.plan canon profiles)) := by
      rw [identities_promote, promoted_of_promotable hpromotable hnone]
      exact mem_map.mpr ⟨(id, row), hmem, if_pos rfl⟩
    have hkey : hasKey canon encounter.mention.text encounter.mention.cls
        (id, row.withClass encounter.mention.cls) :=
      hasKey_iff.mpr ⟨sameName_iff.mp hsame, rfl⟩
    have hunique' : NamesUnique canon (identities (promote canon profiles
        (encounter.plan canon profiles))) := by
      rw [identities_promote]
      exact hunique.promoted
    rw [hname, hcls, ← identities_promote]
    exact ⟨_, rowNamed_eq_some hunique' hchanged hkey⟩

theorem resolveAnew_id (hunique : NamesUnique canon (identities profiles)) (encounter : Encounter) :
    (resolveAnew canon profiles encounter).id =
      (encounter.filedOn canon profiles).getD encounter.draw.newId := by
  rw [resolveAnew_id_eq_writtenOn]
  unfold writtenOn
  cases hfiled : encounter.filedOn canon profiles with
  | none =>
    obtain ⟨hnot, hnone, hpromotable⟩ := filedOn_eq_none hfiled
    obtain ⟨hname, hcls, _⟩ := plan_of_not_converging hnot
    rw [hname, hcls, promoted_of_not_promotable hpromotable, hnone]
    rfl
  | some id =>
    obtain ⟨row, hmem, hfiledBy⟩ := filedBy_of_filedOn hfiled
    obtain ⟨written, hwritten⟩ := rowNamed_of_filedBy hunique hmem hfiledBy
    rw [hwritten]
    rfl

end

section

variable {canon : Canon} {profiles : Profiles} {encounter : Encounter}

theorem row?_promote_eq_none {plan : Plan} {id : Uuid} (hnone : profiles.row? id = none) :
    (promote canon profiles plan).row? id = none := by
  have hsome : ((promote canon profiles plan).row? id).isSome =
      (profiles.row? id).isSome := row?_promote_isSome plan id
  rw [hnone, Option.isSome_none] at hsome
  simpa using hsome

theorem identities_resolveAnew (hfresh : profiles.row? encounter.draw.newId = none) :
    identities (resolveAnew canon profiles encounter).profiles =
      aliased
        (upserted canon (promoted canon (identities profiles)
          (encounter.plan canon profiles)) encounter.draw
          (encounter.plan canon profiles).name
          (encounter.plan canon profiles).cls)
        (resolveAnew canon profiles encounter).id
        (encounter.plan canon profiles).aliases := by
  have hfreshPromoted : (promote canon profiles
      (encounter.plan canon profiles)).row? encounter.draw.newId = none :=
    row?_promote_eq_none hfresh
  rw [← identities_promote, ← identities_upsert hfreshPromoted
    encounter.signal, ← identities_recordProvenance]
  rfl

theorem NamesUnique.resolveAnew (hunique : NamesUnique canon (identities profiles))
    (hfresh : profiles.row? encounter.draw.newId = none) :
    NamesUnique canon (identities (resolveAnew canon profiles encounter).profiles) := by
  rw [identities_resolveAnew hfresh]
  exact ((hunique.promoted).upserted _ _ _).aliased _ _

end

theorem cacheHit_eq_some {batch : Batch} {mention : Mention}
    (hhit : cacheHit batch mention = some id) :
    ∃ cls, batch.nameToId mention.fold = some (id, cls) := by
  unfold cacheHit at hhit
  split at hhit
  · simp at hhit
  · rename_i found cls hcached
    split at hhit
    · simp at hhit
    · obtain rfl := Option.some.inj hhit
      exact ⟨cls, hcached⟩

theorem resolveStep_cases {canon : Canon} {batch next : Batch} {encounter : Encounter}
    (hstep : resolveStep canon batch encounter = some next) :
    batch.profiles.row? encounter.draw.newId = none ∧
      ((∃ id, cacheHit batch encounter.mention = some id ∧ next = reuse canon batch encounter id) ∨
        cacheHit batch encounter.mention = none ∧ next = linkAnew canon batch encounter) := by
  unfold resolveStep at hstep
  split at hstep
  · simp at hstep
  · rename_i hfresh
    rw [Option.not_isSome_iff_eq_none] at hfresh
    refine ⟨hfresh, ?_⟩
    cases hhit : cacheHit batch encounter.mention with
    | some id =>
      rw [hhit] at hstep
      exact Or.inl ⟨id, rfl, (Option.some.inj hstep).symm⟩
    | none =>
      rw [hhit] at hstep
      exact Or.inr ⟨rfl, (Option.some.inj hstep).symm⟩

end Legba.EntityResolution
