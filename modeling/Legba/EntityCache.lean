import Legba.EntityRetirement

/-!
# The cache of a batch

A batch is compared with the same signals resolved one by one, each with an
empty cache.  Within a signal no identity comes twice, so that resolving alone
never meets the cache, and the two agree as long as each mention which takes a
cached row would be filed on it anyway.
-/

namespace Legba.EntityResolution

open KeyedTable Option Table List LabelledRun

def aloneStep (canon : Canon) (batch : Batch) (encounter : Encounter) : Option Batch :=
  resolveStep canon (if encounter.opens then batch.cleared else batch) encounter

def pairStep (canon : Canon) (pair : Batch × Batch) (encounter : Encounter) :
    Option (Batch × Batch) :=
  (resolveStep canon pair.1 encounter).bind fun next =>
    (aloneStep canon pair.2 encounter).map (next, ·)

/-- No identity comes twice between two openings; `done` are those since the
last one. -/
def FreshFolds : List String → List Encounter → Prop
  | _, [] => True
  | done, encounter :: rest =>
    let before := if encounter.opens then [] else done
    encounter.mention.fold ∉ before ∧ FreshFolds (encounter.mention.fold :: before) rest

theorem freshFolds_encountersAfter (signal : Signal) {tail : List Encounter}
    (htail : ∀ done, FreshFolds done tail) (mentions : List Mention)
    (hnodup : (mentions.map Mention.fold).Nodup) (done : List String)
    (hdisjoint : ∀ fold ∈ mentions.map Mention.fold, fold ∉ done) :
    FreshFolds done (encountersAfter signal mentions ++ tail) := by
  induction mentions generalizing done with
  | nil => exact htail done
  | cons mention rest ih =>
    obtain ⟨hfirst, hrest⟩ := nodup_cons.mp hnodup
    refine ⟨hdisjoint _ mem_cons_self, ih hrest _ ?_⟩
    intro fold hfold hdone
    rcases mem_cons.mp hdone with heq | hold
    · exact hfirst (heq ▸ hfold)
    · exact hdisjoint fold (mem_cons_of_mem _ hfold) hold

theorem freshFolds_batchOf (canon : Canon) (signals : List Signal) :
    ∀ done, FreshFolds done (batchOf canon signals) := by
  induction signals with
  | nil => exact fun _ => trivial
  | cons signal rest ih =>
    intro done
    have hnodup := nodup_folds_mentionsOf canon signal.spans
    unfold batchOf
    rw [flatMap_cons]
    unfold encountersOf
    cases hmentions : mentionsOf canon signal.spans with
    | nil => exact ih done
    | cons first others =>
      rw [hmentions, map_cons, nodup_cons] at hnodup
      refine ⟨not_mem_nil, ?_⟩
      apply freshFolds_encountersAfter signal ih others hnodup.2
      intro fold hfold hdone
      rw [mem_singleton.mp hdone] at hfold
      exact hnodup.1 hfold

def nameOf (profiles : Profiles) (id : Uuid) : Option String :=
  (profiles.row? id).map fun row => row.identity.canonicalName

/-- The mentions have been linked to the same profiles under the same names;
with that, the links are the same and the edges get the same endpoints. -/
structure SameOutcome (canon : Canon) (pair : Batch × Batch) : Prop where
  mentions : pair.1.linked = pair.2.linked
  links : linksOf pair.1.linked = linksOf pair.2.linked
  edges : ∀ edges, edgesOf canon pair.1.linked edges = edgesOf canon pair.2.linked edges

/-- A mention is not linked to a cached row of a class which is not compatible,
and goes into the edges with the name of the profile it is linked to. -/
structure LinkedUnderItsName (before : Batch) (encounter : Encounter) (after : Batch) : Prop where
  distinct : ∀ id cls row,
    before.nameToId encounter.mention.fold = some (id, cls) →
    before.profiles.row? id = some row →
    fallbackClassCompatible row.identity.entityClass encounter.mention.cls = false →
    ∀ entry ∈ after.linked.getLast?, entry.entity ≠ id
  named : ∀ entry ∈ after.linked.getLast?, nameOf after.profiles entry.entity = some entry.surface

/-- A cached row which is taken has a compatible class and the mention's
surface for a name, and the mention would be filed on it. -/
structure TakesItsOwn (canon : Canon) (batch : Batch) (encounter : Encounter)
    (id : Uuid) : Prop where
  compatible : ∀ row, batch.profiles.row? id = some row →
    fallbackClassCompatible row.identity.entityClass encounter.mention.cls = true
  named : nameOf batch.profiles id = some encounter.mention.text
  filed : encounter.filedOn canon batch.profiles = some id

/-- A mention which is looked up is filed neither on a row which spells its
name otherwise nor on a cached row of a class which is not compatible. -/
structure FilesUnderItsName (canon : Canon) (batch : Batch) (encounter : Encounter) : Prop where
  spelt : ∀ id row, encounter.filedOn canon batch.profiles = some id →
    batch.profiles.row? id = some row →
    sameName canon row.identity.canonicalName encounter.mention.text = true →
    row.identity.canonicalName = encounter.mention.text
  distinct : ∀ id cls row,
    batch.nameToId encounter.mention.fold = some (id, cls) →
    batch.profiles.row? id = some row →
    fallbackClassCompatible row.identity.entityClass encounter.mention.cls = false →
    encounter.filedOn canon batch.profiles ≠ some id

def CacheAgrees (canon : Canon) (batch : Batch) (encounter : Encounter) (_ : Batch) : Prop :=
  match cacheHit batch encounter.mention with
  | some id => TakesItsOwn canon batch encounter id
  | none => FilesUnderItsName canon batch encounter

/-! ## Rows and names after a mention -/

section

variable {canon : Canon} {profiles : Profiles} {encounter : Encounter}

variable {id key : Uuid} {row : Profile}

theorem nameOf_update {change : Profile → Profile}
    (hname : ∀ row, (change row).identity.canonicalName = row.identity.canonicalName) :
    nameOf (profiles.update id change) key = nameOf profiles key := by
  unfold nameOf
  by_cases hkey : key = id
  · subst hkey
    rw [row?_update_self]
    cases profiles.row? key with
    | none => rfl
    | some row => simp [hname]
  · rw [row?_update_of_ne _ hkey]

theorem nameOf_recordProvenance {aliases : List String} :
    nameOf (recordProvenance canon profiles id aliases) key = nameOf profiles key := by
  unfold recordProvenance
  split
  · rfl
  · exact nameOf_update fun _ => rfl

theorem nameOf_promote {plan : Plan} :
    nameOf (promote canon profiles plan) key = nameOf profiles key := by
  unfold promote
  split
  · rfl
  · split
    · rfl
    · exact nameOf_update fun _ => rfl

variable {draw : Draw} {signal : Uuid} {name cls found : String}
  {other : Profiles}

theorem nameOf_upsert (hfresh : profiles.row? draw.newId = none)
    (hfound : nameOf profiles key = some found) :
    nameOf (upsert canon profiles draw signal name cls).1 key = some found := by
  unfold upsert
  split
  · rw [← hfound]
    exact nameOf_update fun _ => rfl
  · have hother : key ≠ draw.newId := by
      intro heq
      unfold nameOf at hfound
      rw [heq, hfresh] at hfound
      simp at hfound
    unfold nameOf at hfound ⊢
    rw [row?_put_of_ne _ hother]
    exact hfound

theorem nameOf_upsert_new (hfresh : profiles.row? draw.newId = none)
    (hnew : (upsert canon profiles draw signal name cls).2 = draw.newId) :
    nameOf (upsert canon profiles draw signal name cls).1 draw.newId = some name := by
  unfold upsert at hnew ⊢
  cases hrow : rowNamed canon (identities profiles) name cls with
  | some found =>
    rw [hrow] at hnew
    obtain ⟨row, hprofile, _⟩ := mem_identities.mp (rowNamed_mem hrow).1
    have hid : found.1 = draw.newId := hnew
    rw [hid, hfresh] at hprofile
    simp at hprofile
  | none =>
    unfold nameOf
    rw [row?_put_self]
    rfl

theorem nameOf_resolveAnew (hfresh : profiles.row? encounter.draw.newId = none)
    (hfound : nameOf profiles key = some found) :
    nameOf (resolveAnew canon profiles encounter).profiles key = some found := by
  have hpromoted : nameOf (promote canon profiles
      (encounter.plan canon profiles)) key = some found :=
    nameOf_promote.trans hfound
  exact nameOf_recordProvenance.trans (nameOf_upsert (row?_promote_eq_none hfresh) hpromoted)

theorem nameOf_resolveAnew_new (hfresh : profiles.row? encounter.draw.newId = none)
    (hnew : (resolveAnew canon profiles encounter).id = encounter.draw.newId) :
    nameOf (resolveAnew canon profiles encounter).profiles encounter.draw.newId =
      some (resolveAnew canon profiles encounter).surface :=
  nameOf_recordProvenance.trans (nameOf_upsert_new (row?_promote_eq_none hfresh) hnew)

theorem nameOf_eq_some (hrow : profiles.row? key = some row) :
    nameOf profiles key = some row.identity.canonicalName := by
  unfold nameOf
  rw [hrow]
  rfl

theorem nameOf_isSome_iff : (nameOf profiles key).isSome = (profiles.row? key).isSome := by
  unfold nameOf
  rw [isSome_map]

theorem row?_resolveAnew_isSome :
    ((resolveAnew canon profiles encounter).profiles.row?
      (resolveAnew canon profiles encounter).id).isSome = true := by
  have hwritten : ∀ (table : Profiles) (draw : Draw) (signal : Uuid)
      (name cls : String),
      (nameOf (upsert canon table draw signal name cls).1
        (upsert canon table draw signal name cls).2).isSome = true := by
    intro table draw signal name cls
    unfold upsert
    cases hrow : rowNamed canon (identities table) name cls with
    | some found =>
      obtain ⟨row, hprofile, _⟩ := mem_identities.mp (rowNamed_mem hrow).1
      unfold nameOf
      rw [row?_update_self, hprofile]
      rfl
    | none =>
      unfold nameOf
      rw [row?_put_self]
      rfl
  rw [← nameOf_isSome_iff]
  unfold resolveAnew
  rw [nameOf_recordProvenance]
  exact hwritten _ _ _ _ _

theorem row_of_filedOn (hfiled : encounter.filedOn canon profiles = some id) :
    ∃ row, profiles.row? id = some row := by
  obtain ⟨_, hidentity, _⟩ := filedBy_of_filedOn hfiled
  obtain ⟨row, hrow, _⟩ := mem_identities.mp hidentity
  exact ⟨row, hrow⟩

theorem filedBy_row (hfiled : encounter.filedOn canon profiles = some id)
    (hrow : profiles.row? id = some row) : FiledBy canon profiles encounter id row.identity := by
  obtain ⟨identity, hidentity, hfiledBy⟩ := filedBy_of_filedOn hfiled
  have hsame : identity = row.identity :=
    identities_functional hidentity (mem_identities.mpr ⟨row, hrow, rfl⟩)
  exact hsame ▸ hfiledBy

theorem resolveAnew_id_eq_iff (hunique : NamesUnique canon (identities profiles))
    (hother : id ≠ encounter.draw.newId) :
    (resolveAnew canon profiles encounter).id = id ↔
      encounter.filedOn canon profiles = some id := by
  rw [resolveAnew_id hunique]
  cases encounter.filedOn canon profiles with
  | none => simp [hother.symm]
  | some other => simp

section

variable (hfiled : encounter.filedOn canon profiles = some id) (hrow : profiles.row? id = some row)

include hfiled hrow

theorem surface_of_filedOn :
    (resolveAnew canon profiles encounter).surface =
      adoptedName canon row.identity.canonicalName encounter.mention.text := by
  have hsurface : (resolveAnew canon profiles encounter).surface =
      (encounter.plan canon profiles).name := rfl
  rw [hsurface]
  cases filedBy_row hfiled hrow with
  | converging viaFallback hconverging =>
    unfold Encounter.plan
    rw [planOf_converging hconverging]
  | named hnot hnamed =>
    have hkey := (rowNamed_mem hnamed).2
    have hsame := sameName_iff.mpr (hasKey_iff.mp hkey).1
    rw [(plan_of_not_converging hnot).1, adoptedName_of_same hsame]
  | promotable viaFallback hnot hnone hpromotable =>
    obtain ⟨_, _, hsame, _⟩ := promotable_sound hpromotable
    rw [(plan_of_not_converging hnot).1, adoptedName_of_same hsame]

theorem quiet_of_filedOn (hname : sameName canon row.identity.canonicalName encounter.mention.text)
    (hcompatible : fallbackClassCompatible row.identity.entityClass encounter.mention.cls) :
    promoted canon (identities profiles) (encounter.plan canon profiles) = identities profiles ∧
      (encounter.plan canon profiles).aliases = encounter.mention.aliases := by
  cases filedBy_row hfiled hrow with
  | converging viaFallback hconverging =>
    have hplan : encounter.plan canon profiles = _ := planOf_converging hconverging
    rw [adoptedAliases_of_same hname] at hplan
    constructor
    · unfold promoted
      rw [hplan]
    · rw [hplan]
  | named hnot hnamed => exact ⟨promoted_of_rowNamed hnamed, (plan_of_not_converging hnot).2.2⟩
  | promotable viaFallback hnot hnone hpromotable =>
    -- A promotion needs a class of a lower rank, a compatible one has none.
    have hcondition := (filter_eq_some_iff.mp hpromotable).2
    rw [Bool.and_eq_true, decide_eq_true_eq] at hcondition
    have hrank := hcondition.2
    rw [classRank_eq_of_compatible hcompatible] at hrank
    exact absurd hrank (Nat.lt_irrefl _)

end

theorem resolveAnew_congr (hrows : identities other = identities profiles) :
    (resolveAnew canon other encounter).id = (resolveAnew canon profiles encounter).id ∧
      (resolveAnew canon other encounter).surface = (resolveAnew canon profiles encounter).surface ∧
      encounter.plan canon other = encounter.plan canon profiles := by
  have hplan : encounter.plan canon other = encounter.plan canon profiles := by
    unfold Encounter.plan Encounter.elected
    rw [hrows]
  refine ⟨?_, congrArg Plan.name hplan, hplan⟩
  rw [resolveAnew_id_eq_writtenOn, resolveAnew_id_eq_writtenOn, hrows, hplan]

theorem identities_resolveAnew_congr (hrows : identities other = identities profiles)
    (hfresh : profiles.row? encounter.draw.newId = none)
    (hfreshOther : other.row? encounter.draw.newId = none) :
    identities (resolveAnew canon other encounter).profiles =
      identities (resolveAnew canon profiles encounter).profiles := by
  have hcongr : (resolveAnew canon other encounter).id =
        (resolveAnew canon profiles encounter).id ∧ _ ∧
      encounter.plan canon other = encounter.plan canon profiles :=
    resolveAnew_congr hrows
  obtain ⟨hid, _, hplan⟩ := hcongr
  rw [identities_resolveAnew hfresh, identities_resolveAnew hfreshOther, hid, hrows, hplan]

end

/-! ## The two runs side by side -/

/-- The batch and the signals resolved alone have the same rows as the lookups
see them and have linked the same mentions. -/
structure Paired (canon : Canon) (batch alone : Batch) : Prop where
  rows : identities batch.profiles = identities alone.profiles
  linked : batch.linked = alone.linked
  unique : NamesUnique canon (identities batch.profiles)
  cached : ∀ fold id cls, batch.nameToId fold = some (id, cls) →
    (batch.profiles.row? id).isSome = true

variable {canon : Canon} {batch alone : Batch} {encounter : Encounter}

theorem SameOutcome.of_linked {pair : Batch × Batch}
    (hlinked : pair.1.linked = pair.2.linked) : SameOutcome canon pair :=
  ⟨hlinked, congrArg linksOf hlinked,
    fun edges => congrArg (edgesOf canon · edges) hlinked⟩

theorem Paired.sameOutcome (hpaired : Paired canon batch alone) :
    SameOutcome canon (batch, alone) :=
  SameOutcome.of_linked hpaired.linked

section

variable {canon : Canon} {batch alone : Batch} {encounter : Encounter}

variable {id : Uuid}

section

variable (hpaired : Paired canon batch alone)

include hpaired

theorem Paired.fresh_iff : batch.profiles.row? id = none ↔ alone.profiles.row? id = none := by
  rw [← not_isSome_iff_eq_none, ← not_isSome_iff_eq_none,
    row?_isSome_iff, row?_isSome_iff, hpaired.rows]

theorem Paired.hit_row (hhit : cacheHit batch encounter.mention = some id) :
    ∃ row, batch.profiles.row? id = some row := by
  obtain ⟨cls, hcached⟩ := cacheHit_eq_some hhit
  exact isSome_iff_exists.mp (hpaired.cached _ _ _ hcached)

theorem Paired.cached_ne {fold : String} {new : Uuid} {cls : String}
    (hcached : batch.nameToId fold = some (id, cls))
    (hfresh : batch.profiles.row? new = none) : id ≠ new := by
  intro heq
  have hsome := hpaired.cached fold id cls hcached
  rw [heq, hfresh] at hsome
  simp at hsome

theorem Paired.alone_eq (encounter : Encounter) :
    (resolveAnew canon alone.profiles encounter).id =
        (resolveAnew canon batch.profiles encounter).id ∧
      (resolveAnew canon alone.profiles encounter).surface =
        (resolveAnew canon batch.profiles encounter).surface := by
  have hcongr : (resolveAnew canon batch.profiles encounter).id =
        (resolveAnew canon alone.profiles encounter).id ∧
      (resolveAnew canon batch.profiles encounter).surface =
        (resolveAnew canon alone.profiles encounter).surface ∧ _ :=
    resolveAnew_congr hpaired.rows
  exact ⟨hcongr.1.symm, hcongr.2.1.symm⟩

end

theorem linked_append_inj {front : List Linked} {left right : Linked} :
    front ++ [left] = front ++ [right] ↔ left = right := by
  simp

theorem getLast?_linked_reuse (id : Uuid) :
    (reuse canon batch encounter id).linked.getLast? =
      some ⟨encounter.signal, id, encounter.mention.text⟩ := by
  exact getLast?_concat

theorem getLast?_linked_linkAnew :
    (linkAnew canon batch encounter).linked.getLast? =
      some ⟨encounter.signal, (resolveAnew canon batch.profiles encounter).id,
        (resolveAnew canon batch.profiles encounter).surface⟩ := by
  exact getLast?_concat

theorem TakesItsOwn.name_eq {row : Profile} (hown : TakesItsOwn canon batch encounter id)
    (hrow : batch.profiles.row? id = some row) :
    row.identity.canonicalName = encounter.mention.text := by
  have hnamed := hown.named
  rw [nameOf_eq_some hrow] at hnamed
  exact some.inj hnamed

section

variable (hpaired : Paired canon batch alone)
  (hhit : cacheHit batch encounter.mention = some id)
  (hfresh : batch.profiles.row? encounter.draw.newId = none)

include hpaired hhit hfresh

theorem Paired.hit_iff :
    (reuse canon batch encounter id).linked = (linkAnew canon alone encounter).linked ∧
        LinkedUnderItsName batch encounter (reuse canon batch encounter id) ↔
      TakesItsOwn canon batch encounter id := by
  obtain ⟨cls, hcached⟩ := cacheHit_eq_some hhit
  obtain ⟨row, hrow⟩ := hpaired.hit_row hhit
  obtain ⟨haloneId, haloneSurface⟩ := hpaired.alone_eq encounter
  have hfiled := resolveAnew_id_eq_iff hpaired.unique (hpaired.cached_ne hcached hfresh)
  have hlinked : (reuse canon batch encounter id).linked =
      (linkAnew canon alone encounter).linked ↔
      id = (resolveAnew canon batch.profiles encounter).id ∧
        encounter.mention.text = (resolveAnew canon batch.profiles encounter).surface := by
    unfold reuse linkAnew
    rw [← hpaired.linked, linked_append_inj, haloneId, haloneSurface]
    simp
  have hafter : nameOf (reuse canon batch encounter id).profiles id =
      nameOf batch.profiles id := nameOf_recordProvenance
  rw [hlinked]
  constructor
  · intro hboth
    obtain ⟨⟨hid, _⟩, hunder⟩ := hboth
    refine ⟨?_, ?_, hfiled.mp hid.symm⟩
    · intro other hother
      by_contra hincompatible
      rw [Bool.not_eq_true] at hincompatible
      exact hunder.distinct id cls other hcached hother hincompatible _
        (getLast?_linked_reuse id) rfl
    · rw [← hafter]
      exact hunder.named _ (getLast?_linked_reuse id)
  · intro hown
    have hname := hown.name_eq hrow
    refine ⟨⟨(hfiled.mpr hown.filed).symm, ?_⟩, ?_, ?_⟩
    · rw [surface_of_filedOn hown.filed hrow, hname]
      exact (adoptedName_of_same (sameName_iff.mpr rfl)).symm
    · intro other otherCls otherRow hother hotherRow hincompatible
      obtain ⟨rfl, _⟩ := Prod.mk.inj (some.inj (hcached.symm.trans hother))
      rw [hown.compatible otherRow hotherRow] at hincompatible
      simp at hincompatible
    · intro entry hentry
      rw [getLast?_linked_reuse] at hentry
      obtain rfl := some.inj hentry
      exact hafter.trans hown.named

theorem Paired.reuse (hown : TakesItsOwn canon batch encounter id) :
    Paired canon (reuse canon batch encounter id) (linkAnew canon alone encounter) := by
  obtain ⟨row, hrow⟩ := hpaired.hit_row hhit
  have hname := hown.name_eq hrow
  have hsame : sameName canon row.identity.canonicalName encounter.mention.text := by
    rw [hname]
    exact sameName_iff.mpr rfl
  obtain ⟨hpromoted, haliases⟩ := quiet_of_filedOn hown.filed hrow hsame (hown.compatible row hrow)
  have hid : (resolveAnew canon batch.profiles encounter).id = id := by
    obtain ⟨cls, hcached⟩ := cacheHit_eq_some hhit
    exact (resolveAnew_id_eq_iff hpaired.unique (hpaired.cached_ne hcached hfresh)).mpr hown.filed
  have hupserted : upserted canon (identities batch.profiles) encounter.draw
      (encounter.plan canon batch.profiles).name
      (encounter.plan canon batch.profiles).cls =
      identities batch.profiles := by
    have hwritten : (resolveAnew canon batch.profiles encounter).id = _ :=
      resolveAnew_id_eq_writtenOn encounter
    rw [hpromoted] at hwritten
    unfold upserted
    unfold writtenOn at hwritten
    split
    · rfl
    · rename_i hnone
      rw [hnone, hid] at hwritten
      rw [hwritten, hfresh] at hrow
      simp at hrow
  have hlinked := ((hpaired.hit_iff hhit hfresh).mpr hown).1
  refine ⟨?_, hlinked, ?_, ?_⟩
  · have halone :
        identities (resolveAnew canon batch.profiles encounter).profiles =
          identities (resolveAnew canon alone.profiles encounter).profiles :=
      identities_resolveAnew_congr hpaired.rows (hpaired.fresh_iff.mp hfresh) hfresh
    unfold EntityResolution.reuse linkAnew
    rw [← halone, identities_resolveAnew hfresh, hpromoted, hupserted, hid,
      haliases, identities_recordProvenance]
  · unfold EntityResolution.reuse
    rw [identities_recordProvenance]
    exact hpaired.unique.aliased _ _
  · intro fold other cls hcached
    have hold := hpaired.cached fold other cls hcached
    rw [← nameOf_isSome_iff] at hold ⊢
    unfold EntityResolution.reuse
    rw [nameOf_recordProvenance]
    exact hold

end

/-- A mention looked up goes into the edges with the name of its profile
exactly if it is not filed on a row which spells the name otherwise. -/
theorem named_linkAnew_iff (encounter : Encounter)
    (hunique : NamesUnique canon (identities batch.profiles))
    (hfresh : batch.profiles.row? encounter.draw.newId = none) :
    nameOf (resolveAnew canon batch.profiles encounter).profiles
          (resolveAnew canon batch.profiles encounter).id =
        some (resolveAnew canon batch.profiles encounter).surface ↔
      ∀ id row, encounter.filedOn canon batch.profiles = some id →
        batch.profiles.row? id = some row →
        sameName canon row.identity.canonicalName encounter.mention.text = true →
        row.identity.canonicalName = encounter.mention.text := by
  have hid := resolveAnew_id hunique encounter
  cases hfiled : encounter.filedOn canon batch.profiles with
  | none =>
    rw [hfiled, getD_none] at hid
    rw [hid]
    exact iff_of_true (nameOf_resolveAnew_new hfresh hid)
      fun id row hsome => absurd hsome (by simp)
  | some id =>
    rw [hfiled, getD_some] at hid
    obtain ⟨row, hrow⟩ := row_of_filedOn hfiled
    have hafter : nameOf (resolveAnew canon batch.profiles
        encounter).profiles id = some row.identity.canonicalName :=
      nameOf_resolveAnew hfresh (nameOf_eq_some hrow)
    rw [hid, surface_of_filedOn hfiled hrow, hafter, some.injEq]
    constructor
    · intro hadopted other otherRow hother hotherRow hsame
      obtain rfl := some.inj hother
      obtain rfl := some.inj (hrow.symm.trans hotherRow)
      rw [adoptedName_of_same hsame] at hadopted
      exact hadopted
    · intro hspelt
      unfold adoptedName
      by_cases hsame : sameName canon row.identity.canonicalName encounter.mention.text = true
      · rw [if_pos hsame, hspelt id row rfl hrow hsame]
      · rw [if_neg hsame]

section

variable (hpaired : Paired canon batch alone)
  (hfresh : batch.profiles.row? encounter.draw.newId = none)

include hpaired hfresh

theorem Paired.miss_iff :
    LinkedUnderItsName batch encounter (linkAnew canon batch encounter) ↔
      FilesUnderItsName canon batch encounter := by
  have hnamed := named_linkAnew_iff encounter hpaired.unique hfresh
  have hfiled : ∀ id cls,
      batch.nameToId encounter.mention.fold = some (id, cls) →
      ((resolveAnew canon batch.profiles encounter).id = id ↔
        encounter.filedOn canon batch.profiles = some id) :=
    fun id cls hcached => resolveAnew_id_eq_iff hpaired.unique (hpaired.cached_ne hcached hfresh)
  constructor
  · intro hunder
    constructor
    · exact hnamed.mp (hunder.named _ getLast?_linked_linkAnew)
    · intro id cls row hcached hrow hincompatible hsome
      exact hunder.distinct id cls row hcached hrow hincompatible _
        getLast?_linked_linkAnew ((hfiled id cls hcached).mpr hsome)
  · intro hfiles
    constructor
    · intro id cls row hcached hrow hincompatible entry hentry
      rw [getLast?_linked_linkAnew] at hentry
      obtain rfl := some.inj hentry
      intro heq
      exact hfiles.distinct id cls row hcached hrow hincompatible ((hfiled id cls hcached).mp heq)
    · intro entry hentry
      rw [getLast?_linked_linkAnew] at hentry
      obtain rfl := some.inj hentry
      exact hnamed.mpr hfiles.spelt

theorem Paired.linkAnew :
    Paired canon (linkAnew canon batch encounter) (linkAnew canon alone encounter) := by
  have hfreshAlone := hpaired.fresh_iff.mp hfresh
  obtain ⟨haloneId, haloneSurface⟩ := hpaired.alone_eq encounter
  refine ⟨?_, ?_, hpaired.unique.resolveAnew hfresh, ?_⟩
  · exact identities_resolveAnew_congr hpaired.rows hfreshAlone hfresh
  · unfold EntityResolution.linkAnew
    dsimp only
    rw [hpaired.linked, haloneId, haloneSurface]
  · intro fold id cls hcached
    rcases update_eq_some.mp hcached with ⟨_, heq⟩ | ⟨_, hold⟩
    · rw [(Prod.mk.inj heq).1]
      exact row?_resolveAnew_isSome
    · have hbefore := hpaired.cached fold id cls hold
      rw [← nameOf_isSome_iff] at hbefore ⊢
      obtain ⟨found, hfound⟩ := isSome_iff_exists.mp hbefore
      exact isSome_iff_exists.mpr ⟨found, nameOf_resolveAnew hfresh hfound⟩

end

end

/-! ## Runs -/

def CachesOnly (done : List String) (alone : Batch) : Prop :=
  ∀ fold, fold ∉ done → alone.nameToId fold = none

variable {done : List String}

theorem aloneStep_eq (hcache : CachesOnly done alone)
    (hfold : encounter.mention.fold ∉ if encounter.opens then [] else done)
    (hfresh : alone.profiles.row? encounter.draw.newId = none) :
    ∃ next, aloneStep canon alone encounter = some next ∧
      next.profiles = (linkAnew canon alone encounter).profiles ∧
      next.linked = (linkAnew canon alone encounter).linked ∧
      CachesOnly (encounter.mention.fold ::
        if encounter.opens then [] else done) next := by
  unfold aloneStep
  have hcases : ∃ opened : Batch,
      (if encounter.opens = true then alone.cleared else alone) = opened ∧
      opened.profiles = alone.profiles ∧ opened.linked = alone.linked ∧
      CachesOnly (if encounter.opens then [] else done) opened := by
    by_cases hopens : encounter.opens = true
    · rw [if_pos hopens, if_pos hopens]
      exact ⟨_, rfl, rfl, rfl, fun _ _ => rfl⟩
    · rw [if_neg hopens, if_neg hopens]
      exact ⟨_, rfl, rfl, rfl, hcache⟩
  obtain ⟨opened, hopened, hprofiles, hlinked, honly⟩ := hcases
  have hmiss : cacheHit opened encounter.mention = none := by
    unfold cacheHit
    rw [honly _ hfold]
  rw [hopened]
  unfold resolveStep
  rw [hprofiles, hfresh, hmiss]
  refine ⟨linkAnew canon opened encounter, rfl, ?_, ?_, ?_⟩
  · unfold linkAnew
    rw [hprofiles]
  · unfold linkAnew
    rw [hprofiles, hlinked]
  · intro fold hfold'
    rw [mem_cons, not_or] at hfold'
    unfold linkAnew
    dsimp only
    rw [Function.update_of_ne hfold'.1]
    exact honly fold hfold'.2

theorem Paired.step {next aloneNext : Batch} (hpaired : Paired canon batch alone)
    (hstep : resolveStep canon batch encounter = some next)
    (hprofiles : aloneNext.profiles = (EntityResolution.linkAnew canon alone encounter).profiles)
    (hlinked : aloneNext.linked = (EntityResolution.linkAnew canon alone encounter).linked) :
    (SameOutcome canon (next, aloneNext) ∧ LinkedUnderItsName batch encounter next ↔
      CacheAgrees canon batch encounter next) ∧
    (CacheAgrees canon batch encounter next → Paired canon next aloneNext) := by
  have htransfer : ∀ after : Batch,
      Paired canon after (EntityResolution.linkAnew canon alone encounter) →
      Paired canon after aloneNext := fun after hafter =>
    ⟨hprofiles ▸ hafter.rows, hlinked ▸ hafter.linked, hafter.unique, hafter.cached⟩
  unfold CacheAgrees
  obtain ⟨hfresh, ⟨id, hhit, rfl⟩ | ⟨hmiss, rfl⟩⟩ := resolveStep_cases hstep
  · rw [hhit]
    refine ⟨?_, fun hown => htransfer _ (hpaired.reuse hhit hfresh hown)⟩
    change _ ↔ TakesItsOwn canon batch encounter id
    rw [← hpaired.hit_iff hhit hfresh, ← hlinked]
    exact and_congr_left fun _ => ⟨SameOutcome.mentions, fun hsame => SameOutcome.of_linked hsame⟩
  · rw [hmiss]
    have hnext := htransfer _ (hpaired.linkAnew hfresh)
    refine ⟨?_, fun _ => hnext⟩
    change _ ↔ FilesUnderItsName canon batch encounter
    rw [← hpaired.miss_iff hfresh]
    exact and_iff_right (SameOutcome.of_linked hnext.linked)

theorem cache_transparent_of_paired (encounters : List Encounter)
    (hpaired : Paired canon batch alone) (hcache : CachesOnly done alone)
    (hfolds : FreshFolds done encounters) :
    LabelledRun.VisitsOnly (pairStep canon) (SameOutcome canon) (batch, alone) encounters ∧
        LabelledRun.StepsSatisfy (resolveStep canon) LinkedUnderItsName batch encounters ↔
      LabelledRun.StepsSatisfy (resolveStep canon) (CacheAgrees canon) batch
        encounters := by
  induction encounters generalizing batch alone done with
  | nil => exact iff_of_true ⟨hpaired.sameOutcome, trivial⟩ trivial
  | cons encounter rest ih =>
    obtain ⟨hfold, hrest⟩ := hfolds
    cases hstep : resolveStep canon batch encounter with
    | none =>
      have hpair : pairStep canon (batch, alone) encounter = none := by
        unfold pairStep
        rw [hstep]
        rfl
      unfold LabelledRun.VisitsOnly LabelledRun.StepsSatisfy
      rw [hstep, hpair]
      exact iff_of_true ⟨⟨hpaired.sameOutcome, trivial⟩, trivial⟩ trivial
    | some next =>
      have hfresh := (resolveStep_cases hstep).1
      obtain ⟨aloneNext, halone, hprofiles, hlinked, honly⟩ :=
        aloneStep_eq hcache hfold (hpaired.fresh_iff.mp hfresh)
      have hpair : pairStep canon (batch, alone) encounter = some (next, aloneNext) := by
        unfold pairStep
        rw [hstep, bind_some, halone, map_some]
      obtain ⟨hiff, hkeep⟩ := hpaired.step hstep hprofiles hlinked
      rw [visitsOnly_cons hpair, stepsSatisfy_cons
        hstep, stepsSatisfy_cons hstep]
      constructor
      · intro hall
        obtain ⟨⟨_, hvisits⟩, hunder, hsteps⟩ := hall
        have hagrees := hiff.mp ⟨hvisits.start, hunder⟩
        exact ⟨hagrees, (ih (hkeep hagrees) honly hrest).mp ⟨hvisits, hsteps⟩⟩
      · intro hall
        obtain ⟨hagrees, hsteps⟩ := hall
        obtain ⟨hvisits, hunder⟩ := (ih (hkeep hagrees) honly hrest).mpr hsteps
        exact ⟨⟨hpaired.sameOutcome, hvisits⟩, (hiff.mpr hagrees).2, hunder⟩

/-- A batch links and names its mentions as the signals do which are resolved
one by one, never to a cached row of a class which is not compatible and always
under the profile's name, exactly if each mention which takes a cached row
takes its own and each other one is filed under its name. -/
theorem cache_transparent_iff (canon : Canon) (profiles : Profiles)
    (hunique : NamesUnique canon (identities profiles)) (signals : List Signal) :
    LabelledRun.VisitsOnly (pairStep canon) (SameOutcome canon)
          (Batch.start profiles, Batch.start profiles)
          (batchOf canon signals) ∧
        LabelledRun.StepsSatisfy (resolveStep canon) LinkedUnderItsName
          (Batch.start profiles) (batchOf canon signals) ↔
      LabelledRun.StepsSatisfy (resolveStep canon) (CacheAgrees canon)
        (Batch.start profiles) (batchOf canon signals) := by
  have hpaired : Paired canon (Batch.start profiles) (Batch.start profiles) := by
    refine ⟨rfl, rfl, hunique, ?_⟩
    intro fold id cls hcached
    exact absurd hcached (by simp [Batch.start])
  exact cache_transparent_of_paired _ hpaired (fun _ _ => rfl : CachesOnly []
    (Batch.start profiles)) (freshFolds_batchOf canon signals [])

def articleSignals : List Signal :=
  [zorvexSignal 10 90 "zorvex" "person", zorvexSignal 11 91 "the zorvex" "organization"]

theorem namesUnique_empty : NamesUnique plainCanon (identities empty) := by
  intro row hrow
  exact absurd hrow not_mem_nil

theorem organization_linked_to_cached_person :
    NamesUnique plainCanon (identities empty) ∧
      ¬LabelledRun.VisitsOnly (pairStep plainCanon)
        (fun pair => linksOf pair.1.linked = linksOf pair.2.linked)
        (Batch.start empty, Batch.start empty)
        (batchOf plainCanon articleSignals) := by
  refine ⟨namesUnique_empty, ?_⟩
  intro hvisits
  have hrun : (run (pairStep plainCanon)
      (Batch.start empty, Batch.start empty)
      (batchOf plainCanon articleSignals)).map
        (fun pair => (linksOf pair.1.linked, linksOf pair.2.linked)) =
      some ([(10, 90), (11, 90)], [(10, 90), (11, 91)]) := by
    decide +kernel
  obtain ⟨final, hfinal, hlinks⟩ := map_eq_some_iff.mp hrun
  have hsame := hvisits.final hfinal
  obtain ⟨hbatch, halone⟩ := Prod.mk.inj hlinks
  rw [hbatch, halone] at hsame
  exact absurd hsame (by decide)

theorem cache_transparent_on_persons :
    LabelledRun.VisitsOnly (pairStep plainCanon) (SameOutcome plainCanon)
        (Batch.start empty, Batch.start empty)
        (batchOf plainCanon
          [zorvexSignal 10 90 "zorvex" "person", zorvexSignal 11 91 "zorvex" "person"]) ∧
      LabelledRun.StepsSatisfy (resolveStep plainCanon) LinkedUnderItsName
        (Batch.start empty)
        (batchOf plainCanon
          [zorvexSignal 10 90 "zorvex" "person", zorvexSignal 11 91 "zorvex" "person"]) := by
  refine (cache_transparent_iff plainCanon empty namesUnique_empty _).mpr ?_
  let person : Mention := ⟨"zorvex", "zorvex", "person", []⟩
  let first : Encounter := ⟨10, true, ⟨90, 5, fun _ => 0, false⟩, person⟩
  let second : Encounter := ⟨11, true, ⟨91, 5, fun _ => 0, false⟩, person⟩
  let opened : Batch := linkAnew plainCanon (Batch.start empty) first
  have hbatch : batchOf plainCanon
      [zorvexSignal 10 90 "zorvex" "person",
        zorvexSignal 11 91 "zorvex" "person"] = [first, second] := by
    rfl
  have hfirst : resolveStep plainCanon (Batch.start empty) first = some opened := by rfl
  have hsecond : resolveStep plainCanon opened second =
      some (reuse plainCanon opened second 90) := by
    rfl
  have hrow : opened.profiles.row? 90 =
      some ⟨⟨"zorvex", "person", none, none, [], 5⟩, some 5, [10]⟩ := by
    rfl
  refine ⟨?_, ?_, trivial⟩
  · refine ⟨?_, ?_⟩
    · intro id row _ hnone
      exact absurd hnone (by simp [Batch.start, empty])
    · intro id cls row hcached
      exact absurd hcached (by simp [Batch.start])
  · refine ⟨?_, ?_, ?_⟩
    · intro row hfound
      obtain rfl := some.inj (hrow.symm.trans hfound)
      rfl
    · exact congrArg (Option.map fun row => row.identity.canonicalName) hrow
    · rfl

/-! ## What every batch keeps -/

/-- The index on names and classes stays unique, no profile is lost, renamed,
retired or revived, and what a mention is linked to or cached on is a profile. -/
structure KeepsProfiles (canon : Canon) (start : Profiles) (batch : Batch) : Prop where
  unique : NamesUnique canon (identities start) → NamesUnique canon (identities batch.profiles)
  named : ∀ id name, nameOf start id = some name → nameOf batch.profiles id = some name
  retired : ∀ id, RetiredIn (identities batch.profiles) id ↔ RetiredIn (identities start) id
  linked : ∀ entry ∈ batch.linked, (nameOf batch.profiles entry.entity).isSome = true
  cached : ∀ fold id cls, batch.nameToId fold = some (id, cls) →
    (nameOf batch.profiles id).isSome = true

theorem KeepsProfiles.reuse {canon : Canon} {start : Profiles} {batch : Batch}
    {encounter : Encounter} {id : Uuid} (hkeeps : KeepsProfiles canon start batch)
    (hhit : cacheHit batch encounter.mention = some id) :
    KeepsProfiles canon start (reuse canon batch encounter id) := by
  unfold EntityResolution.reuse
  refine ⟨fun hunique => ?_, fun key name hname => ?_, fun key => ?_, fun entry hentry => ?_,
    fun fold key cls hcached => ?_⟩
  · rw [identities_recordProvenance]
    exact (hkeeps.unique hunique).aliased _ _
  · exact nameOf_recordProvenance.trans (hkeeps.named key name hname)
  · exact retiredIn_recordProvenance.trans (hkeeps.retired key)
  · rw [nameOf_recordProvenance]
    rcases mem_append.mp hentry with hold | hnew
    · exact hkeeps.linked entry hold
    · obtain ⟨cls, hcached⟩ := cacheHit_eq_some hhit
      rw [mem_singleton.mp hnew]
      exact hkeeps.cached _ _ _ hcached
  · rw [nameOf_recordProvenance]
    exact hkeeps.cached fold key cls hcached

theorem KeepsProfiles.linkAnew {canon : Canon} {start : Profiles} {batch : Batch}
    {encounter : Encounter} (hkeeps : KeepsProfiles canon start batch)
    (hfresh : batch.profiles.row? encounter.draw.newId = none) :
    KeepsProfiles canon start (linkAnew canon batch encounter) := by
  have hheld : ∀ id, (nameOf batch.profiles id).isSome = true →
      (nameOf (resolveAnew canon batch.profiles encounter).profiles id).isSome = true := by
    intro id hsome
    obtain ⟨name, hname⟩ := Option.isSome_iff_exists.mp hsome
    rw [nameOf_resolveAnew hfresh hname]
    rfl
  have hown : (nameOf (resolveAnew canon batch.profiles encounter).profiles
      (resolveAnew canon batch.profiles encounter).id).isSome = true :=
    nameOf_isSome_iff.trans row?_resolveAnew_isSome
  unfold EntityResolution.linkAnew
  refine ⟨fun hunique => ?_, fun key name hname => ?_, fun key => ?_, fun entry hentry => ?_,
    fun fold key cls hcached => ?_⟩
  · exact (hkeeps.unique hunique).resolveAnew hfresh
  · exact nameOf_resolveAnew hfresh (hkeeps.named key name hname)
  · exact (retiredIn_resolveAnew hfresh).trans (hkeeps.retired key)
  · rcases mem_append.mp hentry with hold | hnew
    · exact hheld _ (hkeeps.linked entry hold)
    · rw [mem_singleton.mp hnew]
      exact hown
  · rcases update_eq_some.mp hcached with ⟨_, heq⟩ | ⟨_, hold⟩
    · rw [(Prod.mk.inj heq).1]
      exact hown
    · exact hheld _ (hkeeps.cached fold key cls hold)

/-- Whatever the profiles, the cache and the mentions, every state of a batch
keeps the profiles it started from. -/
theorem resolution_keeps_profiles (canon : Canon) (profiles : Profiles)
    (encounters : List Encounter) :
    LabelledRun.VisitsOnly (resolveStep canon) (KeepsProfiles canon profiles)
      (Batch.start profiles) encounters := by
  apply visitsOnly_of_steps (fun _ => id)
  · intro batch encounter next hkeeps hstep
    obtain ⟨hfresh, ⟨id, hhit, rfl⟩ | ⟨_, rfl⟩⟩ := resolveStep_cases hstep
    · exact hkeeps.reuse hhit
    · exact hkeeps.linkAnew hfresh
  · exact ⟨id, fun _ _ => id, fun _ => Iff.rfl, by simp [Batch.start], by simp [Batch.start]⟩

end Legba.EntityResolution
