import Legba.CitationParsers

/-!
# Which markers are kept

No substitution after the one for daggers loses a marker, and none before it
cuts one.  The parsers find in the result what stands outside the brackets with
daggers: a unit marker and a range as they are, and a reference in any of its
spellings.
-/

namespace Legba.CitationMarkers

open RegexScan List

variable {U : CharClasses}

def Outside (U : CharClasses) (part text : Text) : Prop :=
  ∃ before after, (variantDaggerCitation U).tokens 0 text =
    before ++ (part.map Token.plain ++ after)

inductive Refers (U : CharClasses) (number : Text) : Text → Prop
  | marker (hnumber : Digits U number) : Refers U number (refMarker number)
  | variant {groups : List Text}
      (hfits : Fits (variantRefCitation U).pieces groups)
      (hnumber : group groups 7 = number) : Refers U number groups.flatten
  | compound {groups : List Text}
      (hfits : Fits (compoundRefCitation U).pieces groups)
      (hnumber : number ∈ numbersOf U (group groups 5)) :
      Refers U number groups.flatten
  | paren {groups : List Text}
      (hfits : Fits (parenRefCitation U).pieces groups)
      (hnumber : number ∈ numbersOf U (group groups 6)) :
      Refers U number groups.flatten

/-- Every marker of a text is cited outside the brackets with daggers as the
text reads before they are replaced, or is the number of one of them. -/
structure Kept (U : CharClasses) (text : Text) : Prop where
  units : ∀ number ∈ unitMarkers U text,
    Outside U (unitMarker number) (beforeDaggers U text) ∨
      ∃ groups ∈ (variantDaggerCitation U).findAll (beforeDaggers U text), group groups 2 = number
  refs : ∀ number ∈ refMarkers U text, ∃ spelling,
    Refers U number spelling ∧ Outside U spelling (beforeDaggers U text)
  ranges : ∀ member ∈ rangeMarkers U text, ∃ groups,
    Fits (claimRange U).pieces groups ∧ member ∈ rangeMembers U groups ∧
      Outside U groups.flatten (beforeDaggers U text)

section

variable (hfacts : ClassFacts U) {part text : Text}

theorem digits_dagger {groups : List Text} (hfits : Fits (variantDaggerCitation U).pieces groups) :
    Digits U (group groups 2) := by
  obtain ⟨first, before, number, after, inner, last, rfl, -, -, hnumber, -⟩ :=
    fits_variantDaggerCitation hfits
  exact hnumber

theorem infix_of_outside (hpart : Outside U part text) : part <:+: withoutDaggers U text := by
  obtain ⟨before, after, htokens⟩ := hpart
  rw [withoutDaggers, Pattern.sub, htokens, flatMap_append,
    flatMap_append, flatMap_plain fun _ => rfl, ← append_assoc]
  exact ⟨_, _, rfl⟩

theorem infix_withoutDaggers
    (havoids : ∀ number, Digits U number → Avoids part (unitMarker number)) :
    part <:+: withoutDaggers U text ↔ Outside U part text := by
  refine ⟨?_, infix_of_outside⟩
  rintro ⟨left, right, hsub⟩
  rw [append_assoc] at hsub
  obtain ⟨before, after, htokens, -, -⟩ := plain_part (fun _ => rfl) hsub.symm
    fun groups hgroups => havoids _ (digits_dagger ((tokenized_tokens _ text).fits hgroups))
  exact ⟨before, after, htokens⟩

include hfacts

theorem unit_withoutDaggers {number : Text} (hnumber : Digits U number) :
    unitMarker number <:+: withoutDaggers U text ↔
      Outside U (unitMarker number) text ∨
        ∃ groups ∈ (variantDaggerCitation U).findAll text, group groups 2 = number := by
  constructor
  · rintro ⟨left, right, hsub⟩
    by_cases hfound : ∃ groups ∈ (variantDaggerCitation U).findAll text, group groups 2 = number
    · exact .inr hfound
    rw [append_assoc] at hsub
    obtain ⟨before, after, htokens, -, -⟩ := plain_part (fun _ => rfl)
      hsub.symm fun groups hgroups => unit_avoids hfacts hnumber (digits_dagger
        ((tokenized_tokens _ text).fits hgroups)) fun heq =>
          hfound ⟨groups, mem_findAll hgroups, heq.symm⟩
    exact .inl ⟨before, after, htokens⟩
  · rintro (houtside | ⟨groups, hfound, rfl⟩)
    · exact infix_of_outside houtside
    · obtain ⟨token, htoken, hgroups⟩ := mem_filterMap.mp hfound
      cases token with
      | plain letter => cases hgroups
      | found others =>
        cases hgroups
        exact replace_infix_sub
          (fun groups => unitMarker (group groups 2)) htoken

theorem refers_avoids_unit {number other : Text} {spelling : Text}
    (hspelling : Refers U number spelling) (hother : Digits U other) :
    Avoids spelling (unitMarker other) := by
  have hunit := hfacts.written_unit hother
  have hleads : ∀ next, AfterUnit U next → ¬ Leads U 'r' next :=
    fun next hnext => hfacts.not_leads_unit (by decide) hnext
  have hfirst : ∀ next, AfterUnit U next → next ≠ '[' ∧ ¬ Leads U 'r' next :=
    fun next hnext => ⟨hfacts.digit_ne_mark hnext (by decide), hleads next hnext⟩
  cases hspelling with
  | marker hnumber =>
    refine (hfacts.written_ref hnumber).avoids hunit ?_ ?_
    · rintro next rfl hnext
      exact hfacts.digit_ne_mark hnext (show '[' ∈ marks by decide) rfl
    · rintro next hnext (rfl | rfl)
      · exact hfacts.digit_ne_mark hnext (show '[' ∈ marks by decide) rfl
      · have hdigit : U.isDigit 'r' := hnext
        rw [hfacts.letter_digit 'r' (by decide)] at hdigit
        cases hdigit
  | variant hfits hnumber =>
    obtain ⟨⟨first, tail, htail, hopen⟩, hregion⟩ := region_variantRefCitation hfacts hfits
    exact hregion.avoids_one ⟨first, tail, htail, mem_cons_of_mem _ hopen⟩ hunit hleads
  | compound hfits hnumber =>
    obtain ⟨hopening, hregion⟩ := region_compoundRefCitation hfacts hfits
    exact hregion.avoids_two hopening hunit hfirst fun hnext =>
      hfacts.digit_ne_mark hnext (by decide) rfl
  | paren hfits hnumber =>
    obtain ⟨⟨tail, htail⟩, hregion⟩ := region_parenRefCitation hfacts hfits
    exact hregion.avoids ⟨'(', tail, htail, by decide⟩ hunit hfirst

end

/-! ## The substitutions after it -/

theorem expandRefList_eq (list : Text) :
    expandRefList U list = (numbersOf U list).flatMap refMarker := by
  rw [expandRefList, numbersOf, flatMap_map]

theorem refMarker_infix_expand {list number : Text} (hnumber : number ∈ numbersOf U list) :
    refMarker number <:+: expandRefList U list := by
  obtain ⟨before, after, hsplit⟩ := append_of_mem hnumber
  rw [expandRefList_eq, hsplit, flatMap_append, flatMap_cons, ← append_assoc]
  exact ⟨_, _, rfl⟩

section

variable (hfacts : ClassFacts U) {part text : Text}

include hfacts

theorem written_expand {list : Text} (hlist : ∀ number ∈ numbersOf U list, Digits U number) :
    RefText (expandRefList U list) := by
  rw [expandRefList_eq]
  exact written_flatMap (numbersOf_ne_nil list) fun number hnumber =>
    hfacts.written_ref (hlist number hnumber)

section

variable (hpart : UnitText U part)

include hpart

theorem unit_avoids_refText {block : Text} (hblock : RefText block) : Avoids part block := by
  refine hpart.avoids hblock ?_ ?_
  · rintro next hnext (rfl | rfl)
    · exact hfacts.digit_ne_mark hnext (show '[' ∈ marks by decide) rfl
    · have hdigit : U.isDigit 'r' := hnext
      rw [hfacts.letter_digit 'r' (by decide)] at hdigit
      cases hdigit
  · rintro next rfl hnext
    exact hfacts.digit_ne_mark hnext (show '[' ∈ marks by decide) rfl

theorem unit_avoids_noCitation : Avoids part noCitationMarker := by
  have hletter : ∀ next, AfterUnit U next → next ≠ 'n' := by
    rintro next hnext rfl
    have hdigit : U.isDigit 'n' := hnext
    rw [hfacts.letter_digit 'n' (by decide)] at hdigit
    cases hdigit
  exact hpart.avoids written_noCitation hletter
    fun next heq hnext => hletter next hnext heq

theorem infix_beforeParenRefs : part <:+: beforeParenRefs U text ↔ part <:+: text := by
  have hleads : ∀ next, AfterUnit U next → ¬ Leads U 'r' next :=
    fun next hnext => hfacts.not_leads_unit (by decide) hnext
  constructor
  · intro hwithin
    have hfirst := infix_of_infix_sub hwithin fun groups hgroups =>
      unit_avoids_refText hfacts hpart (written_expand hfacts
        (cited_compound hfacts (changed_of_mem_changes hgroups).1).2)
    exact infix_of_infix_sub hfirst fun groups hgroups =>
      unit_avoids_refText hfacts hpart (hfacts.written_ref
        (cited_variantRef hfacts (changed_of_mem_changes hgroups).1).2)
  · intro hwithin
    refine infix_sub (infix_sub hwithin ?_) ?_
    · intro groups hgroups
      obtain ⟨⟨first, tail, htail, hopen⟩, hregion⟩ :=
        region_variantRefCitation hfacts (changed_of_mem_changes hgroups).1
      exact (hregion.avoids_one ⟨first, tail, htail, mem_cons_of_mem _ hopen⟩ hpart hleads).symm
    · intro groups hgroups
      obtain ⟨hopening, hregion⟩ :=
        region_compoundRefCitation hfacts (changed_of_mem_changes hgroups).1
      exact (hregion.avoids_two hopening hpart (fun next hnext =>
        ⟨hfacts.digit_ne_mark hnext (by decide), hleads next hnext⟩)
        fun hnext => hfacts.digit_ne_mark hnext (by decide) rfl).symm

theorem infix_withoutParenRefs : part <:+: withoutParenRefs U text ↔ part <:+: text := by
  constructor
  · intro hwithin
    exact infix_of_infix_sub hwithin fun groups hgroups =>
      unit_avoids_refText hfacts hpart (written_expand hfacts
        (cited_paren hfacts (changed_of_mem_changes hgroups).1).2)
  · intro hwithin
    refine infix_sub hwithin fun groups hgroups => ?_
    obtain ⟨⟨tail, htail⟩, hregion⟩ :=
      region_parenRefCitation hfacts (changed_of_mem_changes hgroups).1
    exact (hregion.avoids ⟨'(', tail, htail, by decide⟩ hpart
      fun next hnext => ⟨hfacts.digit_ne_mark hnext (by decide),
        hfacts.not_leads_unit (by decide) hnext⟩).symm

end

theorem infix_withNoCitation {First Any : Char → Prop} (hpart : Written First Any part)
    (hfirst : ∀ next, First next → ¬ Leads U 'n' next)
    (hany : ∀ next, Any next → ¬ Leads U 'n' next) (hmarker : Avoids part noCitationMarker) :
    part <:+: withNoCitation U (withoutAnnotations U text) ↔ part <:+: text := by
  constructor
  · intro hwithin
    refine infix_of_infix_sub (infix_of_infix_sub hwithin
      fun groups hgroups => hmarker) fun groups hgroups => ?_
    obtain ⟨first, token, last, -, -, -, -, -, hmark⟩ :=
      known_of_changed (changed_of_mem_changes hgroups)
    rw [show (canonicalAnnotationOf U (group groups 1)).getD groups.flatten =
      noCitationMarker from hmark]
    exact hmarker
  · intro hwithin
    refine infix_sub (infix_sub hwithin fun groups hgroups => ?_)
      fun groups hgroups => ?_
    · exact ((bare_annotationPart hfacts (changed_of_mem_changes hgroups)).avoids hpart).symm
    · exact ((region_asciiNoCitation hfacts
        (changed_of_mem_changes hgroups).1).avoids hpart hfirst hany).symm

omit hfacts in
theorem normalize_eq (text : Text) :
    normalizeVerifyMarkers U text = withNoCitation U (withoutAnnotations U
      (withoutParenRefs U (beforeParenRefs U (withoutDaggers U (beforeDaggers U text))))) := by
  rw [normalizeVerifyMarkers]
  by_cases hempty : text = []
  · rw [if_pos hempty, hempty]
    simp [beforeDaggers, withoutDaggers, beforeParenRefs, withoutParenRefs,
      withoutAnnotations, withNoCitation, sub_nil]
  · rw [if_neg hempty]

theorem unit_normalize (hpart : UnitText U part) :
    part <:+: normalizeVerifyMarkers U text ↔
      part <:+: withoutDaggers U (beforeDaggers U text) := by
  have hleads : ∀ next, AfterUnit U next → ¬ Leads U 'n' next :=
    fun next hnext => hfacts.not_leads_unit (by decide) hnext
  rw [normalize_eq, infix_withNoCitation hfacts hpart hleads hleads (unit_avoids_noCitation hfacts
    hpart), infix_withoutParenRefs hfacts hpart, infix_beforeParenRefs hfacts hpart]

end

/-! ## References -/

section

variable (hfacts : ClassFacts U) {number text : Text}

include hfacts

theorem ref_normalize (hnumber : Digits U number) :
    refMarker number <:+: normalizeVerifyMarkers U text ↔
      refMarker number <:+: withoutParenRefs U (beforeParenRefs U
        (withoutDaggers U (beforeDaggers U text))) := by
  have hleads : ∀ next, AfterRef next → ¬ Leads U 'n' next :=
    fun next hnext => hfacts.not_leads_ref (by decide) (by decide) hnext
  have hwritten := hfacts.written_ref hnumber
  rw [normalize_eq, infix_withNoCitation hfacts hwritten
    (fun next hnext => hleads next (.inl hnext)) hleads]
  refine hwritten.avoids written_noCitation ?_ ?_
  · rintro next rfl hnext
    exact absurd hnext (by decide)
  · rintro next rfl (hnext | hnext)
    · exact absurd hnext (by decide)
    · exact absurd hnext (by decide)

theorem infix_withoutParenRefs_of_infix (hnumber : Digits U number)
    (hwithin : refMarker number <:+: text) : refMarker number <:+: withoutParenRefs U text := by
  obtain ⟨left, right, htext⟩ := hwithin
  rw [append_assoc] at htext
  have htokens := tokenized_tokens (parenRefCitation U) text
  rcases cut (fun _ => rfl) (htokens.source.trans htext.symm) with
    ⟨before, after, hsplit, -, hafter⟩ |
    ⟨before, groups, after, first, second, hsplit, hgroups, -, hsecond, -, hright⟩
  · obtain ⟨after', hplain, -⟩ := plain_of_avoids (fun _ => rfl) hafter
      fun groups hgroups => by
        have hfits := htokens.fits (hsplit ▸ mem_append_right _ hgroups)
        obtain ⟨⟨tail, htail⟩, -⟩ := region_parenRefCitation hfacts hfits
        rw [show Token.source (.found groups) = '(' :: tail from htail]
        refine staysOutside_of_notMem fun hmem => ?_
        exact (hfacts.written_ref hnumber).clean '(' hmem mem_cons_self
    rw [withoutParenRefs, Pattern.sub, hsplit, hplain, flatMap_append,
      flatMap_append, flatMap_plain fun _ => rfl, ← append_assoc]
    exact ⟨_, _, rfl⟩
  · have hfound : Token.found groups ∈ (parenRefCitation U).tokens 0 text :=
      hsplit ▸ mem_append_right _ mem_cons_self
    have hcompatible : Compatible second (refMarker number ++ []) := by
      rw [append_nil]
      exact (compatible_of_append hright).symm
    obtain ⟨-, -, -, -, -, -, hnumbers, -⟩ := paren_cut hfacts
      (htokens.fits hfound) hnumber hgroups hsecond hcompatible
    have hmem : number ∈ numbersOf U (group groups 6) := by
      rw [hnumbers]
      exact mem_cons_self
    exact (refMarker_infix_expand hmem).trans
      (replace_infix_sub (fun groups => expandRefList U (group groups 6)) hfound)

theorem ref_withoutParenRefs (hnumber : Digits U number) :
    refMarker number <:+: withoutParenRefs U text ↔
      refMarker number <:+: text ∨ ∃ groups,
        Fits (parenRefCitation U).pieces groups ∧
        groups.flatten <:+: text ∧
        number ∈ numbersOf U (group groups 6) := by
  constructor
  · intro hwithin
    by_cases hfound : ∃ groups, Fits (parenRefCitation U).pieces groups ∧
        groups.flatten <:+: text ∧ number ∈ numbersOf U (group groups 6)
    · exact .inr hfound
    refine .inl (infix_of_infix_sub hwithin fun groups hgroups => ?_)
    obtain ⟨htoken, hfits, -⟩ := mem_tokens_of_mem_changes hgroups
    rw [expandRefList_eq]
    refine Avoids.flatMap (numbersOf_ne_nil _) fun other hother =>
      ref_avoids hfacts hnumber ((cited_paren hfacts hfits).2 other hother) ?_
    rintro rfl
    exact hfound ⟨groups, hfits, infix_of_mem_tokens htoken, hother⟩
  · rintro (hwithin | ⟨groups, hfits, hwithin, hmem⟩)
    · exact infix_withoutParenRefs_of_infix hfacts hnumber hwithin
    · obtain ⟨others, htoken, hnumbers⟩ := found_paren hfacts hfits hwithin
      rw [← hnumbers] at hmem
      exact (refMarker_infix_expand hmem).trans
        (replace_infix_sub (fun groups => expandRefList U (group groups 6)) htoken)

abbrev withoutVariantRefs (U : CharClasses) (text : Text) : Text :=
  (variantRefCitation U).sub (fun groups => refMarker (group groups 7)) text

abbrev withoutCompounds (U : CharClasses) (text : Text) : Text :=
  (compoundRefCitation U).sub
    (fun groups => expandRefList U (group groups 5)) text

theorem ref_withoutCompounds (hnumber : Digits U number) :
    refMarker number <:+: withoutCompounds U text ↔
      refMarker number <:+: text ∨ ∃ groups,
        Fits (compoundRefCitation U).pieces groups ∧
        groups.flatten <:+: text ∧
        number ∈ numbersOf U (group groups 5) := by
  constructor
  · intro hwithin
    by_cases hfound : ∃ groups, Fits (compoundRefCitation U).pieces groups ∧
        groups.flatten <:+: text ∧ number ∈ numbersOf U (group groups 5)
    · exact .inr hfound
    refine .inl (infix_of_infix_sub hwithin fun groups hgroups => ?_)
    obtain ⟨htoken, hfits, -⟩ := mem_tokens_of_mem_changes hgroups
    rw [expandRefList_eq]
    refine Avoids.flatMap (numbersOf_ne_nil _) fun other hother =>
      ref_avoids hfacts hnumber ((cited_compound hfacts hfits).2 other hother) ?_
    rintro rfl
    exact hfound ⟨groups, hfits, infix_of_mem_tokens htoken, hother⟩
  · rintro (hwithin | ⟨groups, hfits, hwithin, hmem⟩)
    · exact infix_sub hwithin fun groups hgroups => (compound_avoids_ref hfacts
        (changed_of_mem_changes hgroups).1 hnumber).symm
    · obtain ⟨others, htoken, hnumbers⟩ := found_compound hfacts hfits hwithin
      rw [← hnumbers] at hmem
      exact (refMarker_infix_expand hmem).trans
        (replace_infix_sub (fun groups => expandRefList U (group groups 5)) htoken)

theorem ref_withoutVariantRefs (hnumber : Digits U number) :
    refMarker number <:+: withoutVariantRefs U text ↔
      refMarker number <:+: text ∨ ∃ groups,
        Fits (variantRefCitation U).pieces groups ∧
        groups.flatten <:+: text ∧ group groups 7 = number := by
  constructor
  · intro hwithin
    by_cases hfound : ∃ groups, Fits (variantRefCitation U).pieces groups ∧
        groups.flatten <:+: text ∧ group groups 7 = number
    · exact .inr hfound
    refine .inl (infix_of_infix_sub hwithin fun groups hgroups => ?_)
    obtain ⟨htoken, hfits, -⟩ := mem_tokens_of_mem_changes hgroups
    refine ref_avoids hfacts hnumber (cited_variantRef hfacts hfits).2 ?_
    intro heq
    exact hfound ⟨groups, hfits, infix_of_mem_tokens htoken, heq.symm⟩
  · rintro (hwithin | ⟨groups, hfits, hwithin, rfl⟩)
    · refine infix_sub hwithin fun groups hgroups => ?_
      obtain ⟨⟨first, tail, htail, hopen⟩, hregion⟩ :=
        region_variantRefCitation hfacts (changed_of_mem_changes hgroups).1
      refine (hregion.avoids_one ⟨first, tail, htail,
        mem_cons_of_mem _ hopen⟩ (hfacts.written_ref hnumber) ?_).symm
      rintro next rfl
      exact hfacts.not_leads_mark (by decide) (by decide)
    · obtain ⟨others, htoken, hsame⟩ := found_variantRef hfacts hfits hwithin
      rw [← hsame]
      exact replace_infix_sub (fun groups => refMarker (group groups 7)) htoken

variable {groups : List Text}

theorem compound_withoutVariantRefs (hfits : Fits (compoundRefCitation U).pieces groups) :
    groups.flatten <:+: withoutVariantRefs U text ↔ groups.flatten <:+: text := by
  constructor
  · intro hwithin
    exact infix_of_infix_sub hwithin fun others hothers =>
      compound_avoids_ref hfacts hfits (cited_variantRef hfacts
        (changed_of_mem_changes hothers).1).2
  · intro hwithin
    exact infix_sub hwithin fun others hothers =>
      compound_avoids_variantRef hfacts hfits (changed_of_mem_changes hothers).1

section

variable (hfits : Fits (parenRefCitation U).pieces groups)

include hfits

theorem paren_of_withoutCompounds (hwithin : groups.flatten <:+: withoutCompounds U text) :
    groups.flatten <:+: text := by
  refine infix_of_infix_sub hwithin fun others hothers => ?_
  have hcompound := (changed_of_mem_changes hothers).1
  obtain ⟨s, name, list, rfl, -, -, hlist⟩ := fits_compoundRefCitation hcompound
  rw [expandRefList_eq]
  exact paren_avoids_refs hfacts hfits (numbers_eq_true.mp hlist).2 (numbers_eq_true.mp hlist).1

theorem paren_withoutCompounds (hwithin : groups.flatten <:+: text)
    (hmem : number ∈ numbersOf U (group groups 6)) :
    refMarker number <:+: withoutCompounds U text ∨
      groups.flatten <:+: withoutCompounds U text := by
  by_cases hfound : ∃ others,
      Token.found others ∈ (compoundRefCitation U).tokens 0 text ∧ group groups 6 = group others 5
  · obtain ⟨others, htoken, heq⟩ := hfound
    rw [heq] at hmem
    exact .inl ((refMarker_infix_expand hmem).trans
      (replace_infix_sub (fun groups => expandRefList U (group groups 5)) htoken))
  · refine .inr (infix_sub hwithin fun others hothers => ?_)
    obtain ⟨htoken, hcompound, -⟩ := mem_tokens_of_mem_changes hothers
    exact paren_avoids_compound hfacts hfits hcompound
      fun heq => hfound ⟨others, htoken, heq⟩

theorem paren_of_withoutVariantRefs (hwithin : groups.flatten <:+: withoutVariantRefs U text)
    (hmem : number ∈ numbersOf U (group groups 6)) :
    groups.flatten <:+: text ∨ ∃ others,
      Fits (variantRefCitation U).pieces others ∧
      others.flatten <:+: text ∧ group others 7 = number := by
  by_cases hfound : ∃ others, Fits (variantRefCitation U).pieces others ∧
      others.flatten <:+: text ∧ numbersOf U (group groups 6) = [group others 7]
  · obtain ⟨others, hothers, hwithin, hnumbers⟩ := hfound
    rw [hnumbers] at hmem
    exact .inr ⟨others, hothers, hwithin, (mem_singleton.mp hmem).symm⟩
  · refine .inl (infix_of_infix_sub hwithin fun others hothers => ?_)
    obtain ⟨htoken, hvariant, -⟩ := mem_tokens_of_mem_changes hothers
    exact paren_avoids_ref hfacts hfits (cited_variantRef hfacts hvariant).2
      fun hnumbers => hfound ⟨others, hvariant, infix_of_mem_tokens htoken, hnumbers⟩

end

theorem ref_after_daggers (hnumber : Digits U number) :
    refMarker number <:+: withoutParenRefs U (beforeParenRefs U text) ↔
      ∃ spelling, Refers U number spelling ∧ spelling <:+: text := by
  have hstages : beforeParenRefs U text = withoutCompounds U (withoutVariantRefs U text) := rfl
  rw [hstages, ref_withoutParenRefs hfacts hnumber,
    ref_withoutCompounds hfacts hnumber, ref_withoutVariantRefs hfacts hnumber]
  constructor
  · rintro (((hwithin | ⟨groups, hfits, hwithin, rfl⟩) |
      ⟨groups, hfits, hwithin, hmem⟩) | ⟨groups, hfits, hwithin, hmem⟩)
    · exact ⟨_, Refers.marker hnumber, hwithin⟩
    · exact ⟨_, Refers.variant hfits rfl, hwithin⟩
    · exact ⟨_, Refers.compound hfits hmem, (compound_withoutVariantRefs hfacts hfits).mp hwithin⟩
    · rcases paren_of_withoutVariantRefs hfacts hfits
        (paren_of_withoutCompounds hfacts hfits hwithin) hmem with
        hbefore | ⟨others, hothers, hbefore, hsame⟩
      · exact ⟨_, Refers.paren hfits hmem, hbefore⟩
      · exact ⟨_, Refers.variant hothers hsame, hbefore⟩
  · rintro ⟨spelling, hspelling, hwithin⟩
    cases hspelling with
    | marker hdigits => exact .inl (.inl (.inl hwithin))
    | variant hfits hsame => exact .inl (.inl (.inr ⟨_, hfits, hwithin, hsame⟩))
    | compound hfits hmem =>
      exact .inl (.inr ⟨_, hfits, (compound_withoutVariantRefs hfacts hfits).mpr hwithin, hmem⟩)
    | paren hfits hmem =>
      have hafter : _ <:+: withoutVariantRefs U text := infix_sub hwithin
        fun others hothers => paren_avoids_variantRef hfacts hfits
          (changed_of_mem_changes hothers).1
      rcases paren_withoutCompounds hfacts hfits hafter hmem with hmarker | hparen
      · rw [← ref_withoutVariantRefs hfacts hnumber, ← ref_withoutCompounds hfacts hnumber]
        exact .inl hmarker
      · exact .inr ⟨_, hfits, hparen, hmem⟩

end

section

variable (hfacts : ClassFacts U) {text : Text}

include hfacts

theorem mem_unitMarkers_normalize {number : Text} (hnumber : Digits U number) :
    number ∈ unitMarkers U (normalizeVerifyMarkers U text) ↔
      Outside U (unitMarker number) (beforeDaggers U text) ∨
        ∃ groups ∈ (variantDaggerCitation U).findAll (beforeDaggers U text),
          group groups 2 = number := by
  rw [mem_unitMarkers hfacts, unit_normalize hfacts
    (hfacts.written_unit hnumber), unit_withoutDaggers hfacts hnumber]
  exact and_iff_right hnumber

theorem mem_refMarkers_normalize {number : Text} (hnumber : Digits U number) :
    number ∈ refMarkers U (normalizeVerifyMarkers U text) ↔
      ∃ spelling, Refers U number spelling ∧ Outside U spelling (beforeDaggers U text) := by
  rw [mem_refMarkers hfacts, ref_normalize hfacts hnumber,
    ref_after_daggers hfacts hnumber, and_iff_right hnumber]
  refine exists_congr fun spelling => and_congr_right fun hspelling => ?_
  exact infix_withoutDaggers fun other hother => refers_avoids_unit hfacts hspelling hother

theorem mem_rangeMarkers_normalize {member : ℕ} :
    member ∈ rangeMarkers U (normalizeVerifyMarkers U text) ↔ ∃ groups,
      Fits (claimRange U).pieces groups ∧ member ∈ rangeMembers U groups ∧
        Outside U groups.flatten (beforeDaggers U text) := by
  rw [mem_rangeMarkers hfacts]
  refine exists_congr fun groups => and_congr_right fun hfits => ?_
  rw [unit_normalize hfacts (hfacts.written_range hfits),
    infix_withoutDaggers fun other hother => range_avoids_unit hfacts hfits hother]
  exact and_comm

theorem kept_iff :
    ((∀ number ∈ unitMarkers U text, number ∈ unitMarkers U (normalizeVerifyMarkers U text)) ∧
      (∀ number ∈ refMarkers U text, number ∈ refMarkers U (normalizeVerifyMarkers U text)) ∧
      ∀ member ∈ rangeMarkers U text, member ∈ rangeMarkers U (normalizeVerifyMarkers U text)) ↔
      Kept U text := by
  have hunits : ∀ number ∈ unitMarkers U text, Digits U number :=
    fun number hnumber => ((mem_unitMarkers hfacts).mp hnumber).1
  have hrefs : ∀ number ∈ refMarkers U text, Digits U number :=
    fun number hnumber => ((mem_refMarkers hfacts).mp hnumber).1
  constructor
  · rintro ⟨hunit, href, hrange⟩
    exact {
      units := fun number hnumber => (mem_unitMarkers_normalize hfacts
        (hunits number hnumber)).mp (hunit number hnumber)
      refs := fun number hnumber => (mem_refMarkers_normalize hfacts
        (hrefs number hnumber)).mp (href number hnumber)
      ranges := fun member hmember =>
        (mem_rangeMarkers_normalize hfacts).mp (hrange member hmember) }
  · intro hkept
    refine ⟨fun number hnumber => ?_, fun number hnumber => ?_,
      fun member hmember => ?_⟩
    · exact (mem_unitMarkers_normalize hfacts (hunits number hnumber)).mpr
        (hkept.units number hnumber)
    · exact (mem_refMarkers_normalize hfacts (hrefs number hnumber)).mpr (hkept.refs number hnumber)
    · exact (mem_rangeMarkers_normalize hfacts).mpr (hkept.ranges member hmember)

end

end Legba.CitationMarkers
