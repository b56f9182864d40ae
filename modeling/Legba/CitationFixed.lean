import Legba.CitationKept

/-!
# What the first seven substitutions leave

Each of the first seven substitutions takes away all that its pattern fits, and
no later one brings such a part back: what is written begins like a marker.  So
none of them changes the result a second time.  The eighth, for a reference in
parentheses, leaves a part for its own pattern when the reference stands alone
in another pair of parentheses.
-/

namespace Legba.CitationMarkers

open RegexScan List

variable {U : CharClasses}

def Block (U : CharClasses) (block : Text) : Prop :=
  UnitText U block ∨ RefText block ∨ block = noCitationMarker

def Foreign (U : CharClasses) (part : Text) : Prop :=
  ∀ block, Block U block → Avoids part block

theorem Block.clean {block : Text} (hblock : Block U block) :
    ∀ letter ∈ block, letter ∉ '(' :: '†' :: (openBrackets ++ closeBrackets) := by
  rcases hblock with hunit | href | rfl
  · exact hunit.clean
  · exact href.clean
  · exact written_noCitation.clean

section

variable (hfacts : ClassFacts U) {groups : List Text}

theorem BareRegion.foreign {part : Text} (hpart : BareRegion part) : Foreign U part := by
  rintro block (hunit | href | rfl)
  · exact hpart.avoids hunit
  · exact hpart.avoids href
  · exact hpart.avoids written_noCitation

include hfacts

theorem block_priorReadRef (hfits : Fits (priorReadRef U).pieces groups) :
    Block U (unitMarker (group groups 10)) := by
  obtain ⟨first, s, prior, joint, read, s', name, mid, colon, mid', number,
    trail, last, rfl, -, -, -, -, -, -, -, -, -, -, hnumber, -⟩ :=
    fits_priorReadRef hfits
  exact .inl (hfacts.written_unit hnumber)

theorem block_variantCitation (hfits : Fits (variantCitation U).pieces groups) :
    Block U (unitMarker (group groups 2)) := by
  obtain ⟨first, s, number, s', last, rfl, -, -, hnumber, -⟩ := fits_variantCitation hfits
  exact .inl (hfacts.written_unit hnumber)

theorem block_parenCitationList (hfits : Fits (parenCitationList U).pieces groups) :
    Block U (((group groups 1).splitOn ',').flatMap fun number =>
      unitMarker (strip U number)) := by
  obtain ⟨list, rfl, hlist⟩ := fits_parenCitationList hfits
  have heq : ((group [['('], list, [')']] 1).splitOn ',').flatMap
      (fun number => unitMarker (strip U number)) = (numbersOf U list).flatMap unitMarker := by
    rw [numbersOf, flatMap_map]
    rfl
  rw [heq]
  exact .inl (written_flatMap (numbersOf_ne_nil list) fun number hnumber =>
    hfacts.written_unit ((numbers_eq_true.mp hlist).2 number hnumber))

theorem block_variantRangeCitation (hfits : Fits (variantRangeCitation U).pieces groups) :
    Block U (unitMarker (group groups 2 ++ '-' :: group groups 6)) := by
  obtain ⟨first, s, low, s', dash, mid, high, mid', last, rfl, -, -, hlow, -,
    -, -, hhigh, -⟩ := fits_variantRangeCitation hfits
  have hrange : Fits (claimRange U).pieces [['['], low, [], ['-'], [], high, [']']] := by
    simp only [claimRange, fits_cons, fits_nil, one_eq_true, several_eq_true,
      many_eq_true, isOneOf_eq_true]
    exact ⟨_, _, rfl, ⟨_, rfl, by decide⟩, _, _, rfl, hlow, _, _, rfl, by simp, _, _, rfl, ⟨_, rfl,
      by decide⟩, _, _, rfl, by simp, _, _, rfl, hhigh, _, _, rfl, ⟨_, rfl, by decide⟩, rfl⟩
  have heq : unitMarker (group [[first], s, low, s', [dash], mid, high, mid',
      [last]] 2 ++ '-' :: group [[first], s, low, s', [dash], mid, high, mid',
        [last]] 6) = [['['], low, [], ['-'], [], high, [']']].flatten := by
    simp [unitMarker, group]
  rw [heq]
  exact .inl (hfacts.written_range hrange)

theorem block_variantDaggerCitation (hfits : Fits (variantDaggerCitation U).pieces groups) :
    Block U (unitMarker (group groups 2)) :=
  .inl (hfacts.written_unit (digits_dagger hfits))

theorem block_variantRefCitation (hfits : Fits (variantRefCitation U).pieces groups) :
    Block U (refMarker (group groups 7)) :=
  .inr (.inl (hfacts.written_ref (cited_variantRef hfacts hfits).2))

theorem block_compoundRefCitation (hfits : Fits (compoundRefCitation U).pieces groups) :
    Block U (expandRefList U (group groups 5)) :=
  .inr (.inl (written_expand hfacts (cited_compound hfacts hfits).2))

theorem block_parenRefCitation (hfits : Fits (parenRefCitation U).pieces groups) :
    Block U (expandRefList U (group groups 6)) :=
  .inr (.inl (written_expand hfacts (cited_paren hfacts hfits).2))

omit hfacts in
theorem block_annotationText (hchanged : variantAnnotationRe.Changed (annotationText U) groups) :
    Block U (annotationText U groups) := by
  obtain ⟨first, token, last, -, -, -, -, -, hmark⟩ := known_of_changed hchanged
  exact .inr (.inr hmark)

theorem foreign_priorReadRef (hfits : Fits (priorReadRef U).pieces groups) :
    Foreign U groups.flatten := by
  have hregion := region_priorReadRef hfacts hfits
  rintro block (hunit | href | rfl)
  · exact hregion.avoids hunit (fun next hnext => hfacts.not_leads_unit (by
      decide) hnext) (fun next hnext => hfacts.not_leads_unit (by decide) hnext)
  · exact hregion.avoids href (fun next hnext => hfacts.not_leads_ref (by decide) (by decide) (.inl
      hnext)) (fun next hnext => hfacts.not_leads_ref (by decide) (by decide) hnext)
  · have hleads : ∀ next, next = 'n' → ¬ Leads U 'p' next := by
      rintro next rfl
      exact hfacts.not_leads_letter (by decide) (by decide) (by decide)
    exact hregion.avoids written_noCitation hleads hleads

theorem foreign_variantRefCitation (hfits : Fits (variantRefCitation U).pieces groups) :
    Foreign U groups.flatten := by
  obtain ⟨⟨first, tail, htail, hopen⟩, hregion⟩ := region_variantRefCitation hfacts hfits
  have hopening : ∃ first tail, groups.flatten = first :: tail ∧ first ∈ '(' :: openBrackets :=
    ⟨first, tail, htail, mem_cons_of_mem _ hopen⟩
  rintro block (hunit | href | rfl)
  · exact hregion.avoids_one hopening hunit fun next hnext =>
      hfacts.not_leads_unit (by decide) hnext
  · refine hregion.avoids_one hopening href ?_
    rintro next rfl
    exact hfacts.not_leads_mark (by decide) (by decide)
  · refine hregion.avoids_one hopening written_noCitation ?_
    rintro next rfl
    exact hfacts.not_leads_letter (by decide) (by decide) (by decide)

end

theorem infix_of_last {part text : Text}
    (hwithin : part <:+: withNoCitation U (withoutAnnotations U (withoutParenRefs U text)))
    (hrefs : ∀ groups, Fits (parenRefCitation U).pieces groups → Avoids part (expandRefList U (group
      groups 6))) (hmarker : Avoids part noCitationMarker) : part <:+: text := by
  have hannotations := infix_of_infix_sub hwithin fun groups hgroups => hmarker
  have hparen := infix_of_infix_sub hannotations fun groups hgroups => by
    obtain ⟨first, token, last, -, -, -, -, -, hmark⟩ :=
      known_of_changed (changed_of_mem_changes hgroups)
    rw [show (canonicalAnnotationOf U (group groups 1)).getD groups.flatten =
      noCitationMarker from hmark]
    exact hmarker
  exact infix_of_infix_sub hparen fun groups hgroups =>
    hrefs groups (changed_of_mem_changes hgroups).1

section

variable (hfacts : ClassFacts U) {part text : Text} {groups : List Text}

include hfacts

section

variable (hpart : Foreign U part) (hwithin : part <:+: normalizeVerifyMarkers U text)

include hpart hwithin

theorem Foreign.of_normalize :
    part <:+: withoutVariantRefs U (withoutDaggers U (beforeDaggers U text)) := by
  rw [normalize_eq] at hwithin
  have hlast := infix_of_last hwithin (fun groups hgroups => hpart _
    (block_parenRefCitation hfacts hgroups)) (hpart _ (.inr (.inr rfl)))
  exact infix_of_infix_sub hlast fun groups hgroups =>
    hpart _ (block_compoundRefCitation hfacts (changed_of_mem_changes hgroups).1)

theorem Foreign.of_normalize_daggers : part <:+: beforeDaggers U text := by
  have hvariant := infix_of_infix_sub (hpart.of_normalize hfacts hwithin)
    fun groups hgroups => hpart _ (block_variantRefCitation hfacts
      (changed_of_mem_changes hgroups).1)
  exact infix_of_infix_sub hvariant fun groups hgroups =>
    hpart _ (block_variantDaggerCitation hfacts (changed_of_mem_changes hgroups).1)

end

theorem gone_variantRangeCitation (hfits : Fits (variantRangeCitation U).pieces groups) :
    ¬ groups.flatten <:+: normalizeVerifyMarkers U text := fun hwithin =>
  have hforeign : Foreign U _ := (bare_variantRangeCitation hfacts hfits).foreign
  not_infix_sub hfits (fun _ hothers => hforeign _
    (block_variantRangeCitation hfacts hothers))
    (hforeign.of_normalize_daggers hfacts hwithin)

theorem gone_parenCitationList (hfits : Fits (parenCitationList U).pieces groups) :
    ¬ groups.flatten <:+: normalizeVerifyMarkers U text := by
  intro hwithin
  have hforeign : Foreign U _ := (bare_parenCitationList hfacts hfits).foreign
  have hbefore := infix_of_infix_sub
    (hforeign.of_normalize_daggers hfacts hwithin) fun others hothers =>
      hforeign _ (block_variantRangeCitation hfacts (changed_of_mem_changes hothers).1)
  exact not_infix_sub hfits (fun others hothers => hforeign _
    (block_parenCitationList hfacts hothers)) hbefore

theorem gone_variantCitation (hfits : Fits (variantCitation U).pieces groups) :
    ¬ groups.flatten <:+: normalizeVerifyMarkers U text := by
  intro hwithin
  have hforeign : Foreign U _ := (bare_variantCitation hfacts hfits).foreign
  have hbefore := infix_of_infix_sub (infix_of_infix_sub
    (hforeign.of_normalize_daggers hfacts hwithin) fun others hothers =>
      hforeign _ (block_variantRangeCitation hfacts
        (changed_of_mem_changes hothers).1)) fun others hothers =>
      hforeign _ (block_parenCitationList hfacts (changed_of_mem_changes hothers).1)
  exact not_infix_sub hfits (fun others hothers => hforeign _
    (block_variantCitation hfacts hothers)) hbefore

theorem gone_priorReadRef (hfits : Fits (priorReadRef U).pieces groups) :
    ¬ groups.flatten <:+: normalizeVerifyMarkers U text := by
  intro hwithin
  have hforeign := foreign_priorReadRef hfacts hfits
  have hbefore := infix_of_infix_sub (infix_of_infix_sub (infix_of_infix_sub
    (hforeign.of_normalize_daggers hfacts hwithin) fun others hothers =>
      hforeign _ (block_variantRangeCitation hfacts
        (changed_of_mem_changes hothers).1)) fun others hothers =>
      hforeign _ (block_parenCitationList hfacts
        (changed_of_mem_changes hothers).1)) fun others hothers =>
      hforeign _ (block_variantCitation hfacts (changed_of_mem_changes hothers).1)
  exact not_infix_sub hfits (fun others hothers => hforeign _
    (block_priorReadRef hfacts hothers)) hbefore

theorem gone_variantRefCitation (hfits : Fits (variantRefCitation U).pieces groups) :
    ¬ groups.flatten <:+: normalizeVerifyMarkers U text := fun hwithin =>
  have hforeign := foreign_variantRefCitation hfacts hfits
  not_infix_sub hfits (fun _ hothers => hforeign _
    (block_variantRefCitation hfacts hothers))
    (hforeign.of_normalize hfacts hwithin)

theorem gone_compoundRefCitation (hfits : Fits (compoundRefCitation U).pieces groups) :
    ¬ groups.flatten <:+: normalizeVerifyMarkers U text := by
  intro hwithin
  rw [normalize_eq] at hwithin
  have hrefs : ∀ list, (∀ number ∈ numbersOf U list, Digits U number) →
      Avoids groups.flatten (expandRefList U list) := by
    intro list hlist
    rw [expandRefList_eq]
    exact Avoids.flatMap (numbersOf_ne_nil list) fun number hnumber =>
      compound_avoids_ref hfacts hfits (hlist number hnumber)
  have hmarker : Avoids groups.flatten noCitationMarker := by
    obtain ⟨hopening, hregion⟩ := region_compoundRefCitation hfacts hfits
    refine hregion.avoids_two hopening written_noCitation ?_ (by decide)
    rintro next rfl
    exact ⟨by decide, hfacts.not_leads_letter (by decide) (by decide) (by decide)⟩
  have hbefore := infix_of_last hwithin
    (fun others hothers => hrefs _ (cited_paren hfacts hothers).2) hmarker
  exact not_infix_sub hfits (fun others hothers => hrefs _
    (cited_compound hfacts hothers).2) hbefore

end

/-! ## Brackets with daggers -/

def DaggerOpens (U : CharClasses) (text : Text) : Prop :=
  ∃ left part right, text = left ++ (part ++ right) ∧
    DaggerOpening U part ∧ ∃ last ∈ closeBrackets, last ∈ right

theorem daggerOpens_of_fits {groups : List Text} {text : Text}
    (hfits : Fits (variantDaggerCitation U).pieces groups)
    (hwithin : groups.flatten <:+: text) : DaggerOpens U text := by
  obtain ⟨first, s, number, s', inner, last, rfl, hfirst, hs, hnumber, hs',
    -, hlast⟩ := fits_variantDaggerCitation hfits
  obtain ⟨left, right, rfl⟩ := hwithin
  refine ⟨left, _, inner ++ last :: right, ?_,
    ⟨first, s, number, s', rfl, hfirst, hs, hnumber, hs'⟩, last, hlast,
    mem_append_right _ mem_cons_self⟩
  simp

section

variable (hfacts : ClassFacts U) {text : Text} {pattern : Pattern}
  {replace : List Text → Text}

include hfacts

theorem daggerOpens_of_sub (hopens : DaggerOpens U (pattern.sub replace text))
    (hblocks : ∀ groups, pattern.Changed replace groups →
      Block U (replace groups)) : DaggerOpens U text := by
  obtain ⟨left, part, right, hsub, hpart, last, hlast, hmem⟩ := hopens
  have hforeign : Foreign U _ := (bare_daggerOpening hfacts hpart).foreign
  obtain ⟨before, after, hchanges, -, hafter⟩ := old_part hsub
    fun groups hgroups => hforeign _ (hblocks groups (changed_of_mem_changes hgroups))
  refine ⟨_, part, _, source_of_changes hchanges, hpart, last, hlast, ?_⟩
  rw [← hafter] at hmem
  refine mem_source_of_mem_rewrite hmem fun groups hgroups hwritten => ?_
  have hchanged : pattern.Changed replace groups := by
    have hmem : Token.found groups ∈ pattern.changes replace text :=
      hchanges ▸ mem_append_right _ (mem_append_right _ hgroups)
    exact changed_of_mem_changes hmem
  refine absurd ?_ ((hblocks groups hchanged).clean last hwritten)
  exact mem_cons_of_mem _ (mem_cons_of_mem _ (mem_append_right _ hlast))

theorem not_daggerOpens : ¬ DaggerOpens U (withoutDaggers U text) := by
  rintro ⟨left, part, right, hsub, hpart, last, hlast, hmem⟩
  have htokens := tokenized_tokens (variantDaggerCitation U) text
  have hforeign : Foreign U _ := (bare_daggerOpening hfacts hpart).foreign
  obtain ⟨before, after, hsplit, -, hafter⟩ := plain_part (fun _ => rfl) hsub
    fun groups hgroups => hforeign _ (block_variantDaggerCitation hfacts (htokens.fits hgroups))
  rw [← hafter] at hmem
  have hsource : last ∈ after.flatMap Token.source := by
    refine mem_source_of_mem_rewrite hmem fun groups hgroups hwritten => ?_
    have hfits := htokens.fits (hsplit ▸ mem_append_right _ (mem_append_right _ hgroups))
    refine absurd ?_ ((block_variantDaggerCitation hfacts hfits).clean last hwritten)
    exact mem_cons_of_mem _ (mem_cons_of_mem _ (mem_append_right _ hlast))
  have hclosing : ¬ ∀ letter ∈ after.flatMap Token.source,
      letter ∉ closeBrackets := fun hall => hall last hsource hlast
  obtain ⟨inner, closing, behind, hbehind, hinner, hclose⟩ := exists_first_not hclosing
  obtain ⟨first, s, number, s', rfl, hfirst, hs, hnumber, hs'⟩ := hpart
  have hfits : Fits (variantDaggerCitation U).pieces
      [[first], s, number, s', ['†'], inner, [closing]] := by
    simp only [variantDaggerCitation, fits_cons, fits_nil, one_eq_true, several_eq_true,
      many_eq_true, isOpen_eq_true, isClose_eq_true, isOneOf_eq_true, mem_singleton]
    refine ⟨_, _, rfl, ⟨_, rfl, hfirst⟩, _, _, rfl, hs, _, _, rfl, hnumber, _,
      _, rfl, hs', _, _, rfl, ⟨_, rfl, rfl⟩, _, _, rfl, ?_, _, _, rfl,
      ⟨_, rfl, not_not.mp hclose⟩, rfl⟩
    intro letter hletter
    rw [Bool.not_eq_true', ← Bool.not_eq_true, isClose_eq_true]
    exact hinner letter hletter
  have hwhole : first :: (([s, number, s', ['†']].flatten).map Token.plain ++
      after).flatMap Token.source = [[first], s, number, s', ['†'], inner,
        [closing]].flatten ++ behind := by
    rw [flatMap_append, flatMap_plain fun _ => rfl, hbehind]
    simp
  rw [hsplit] at htokens
  exact htokens.not_fits hfits hwhole

theorem gone_variantDaggerCitation {groups : List Text}
    (hfits : Fits (variantDaggerCitation U).pieces groups) :
    ¬ groups.flatten <:+: normalizeVerifyMarkers U text := by
  intro hwithin
  have hopens := daggerOpens_of_fits hfits hwithin
  rw [normalize_eq] at hopens
  have hlast := daggerOpens_of_sub hfacts hopens
    fun groups hgroups => .inr (.inr rfl)
  have hannotations := daggerOpens_of_sub hfacts hlast
    fun groups hgroups => block_annotationText hgroups
  have hparen := daggerOpens_of_sub hfacts hannotations
    fun groups hgroups => block_parenRefCitation hfacts hgroups.1
  have hcompound := daggerOpens_of_sub hfacts hparen
    fun groups hgroups => block_compoundRefCitation hfacts hgroups.1
  have hvariant := daggerOpens_of_sub hfacts hcompound
    fun groups hgroups => block_variantRefCitation hfacts hgroups.1
  exact not_daggerOpens hfacts hvariant

theorem first_stages_normalize (text : Text) :
    beforeParenRefs U (withoutDaggers U (beforeDaggers U
      (normalizeVerifyMarkers U text))) = normalizeVerifyMarkers U text := by
  generalize hresult : normalizeVerifyMarkers U text = result
  have hgone : ∀ {groups : List Text}, ¬ groups.flatten <:+: normalizeVerifyMarkers
      U text → ¬ groups.flatten <:+: result := fun hnot => hresult ▸ hnot
  rw [beforeDaggers,
    sub_eq_self_of_not_infix fun groups hfits =>
      hgone (gone_priorReadRef hfacts hfits),
    sub_eq_self_of_not_infix fun groups hfits =>
      hgone (gone_variantCitation hfacts hfits),
    sub_eq_self_of_not_infix fun groups hfits =>
      hgone (gone_parenCitationList hfacts hfits),
    sub_eq_self_of_not_infix fun groups hfits =>
      hgone (gone_variantRangeCitation hfacts hfits),
    withoutDaggers, sub_eq_self_of_not_infix fun groups hfits =>
      hgone (gone_variantDaggerCitation hfacts hfits),
    beforeParenRefs, sub_eq_self_of_not_infix fun groups hfits =>
      hgone (gone_variantRefCitation hfacts hfits),
    sub_eq_self_of_not_infix fun groups hfits => hgone (gone_compoundRefCitation hfacts hfits)]

end

end Legba.CitationMarkers
