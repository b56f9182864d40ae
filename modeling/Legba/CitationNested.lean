import Legba.CitationFixed

/-!
# A reference in two pairs of parentheses

The marker written for a reference of one number is itself a reference in
parentheses once it stands alone between two of them.  This is the only way in
which the substitution leaves a part for its own pattern.
-/

namespace Legba.CitationMarkers

open RegexScan List Token

variable {U : CharClasses}

def Nested (U : CharClasses) (text : Text) : Prop :=
  ∃ before s groups s' after, Blanks U s ∧ Blanks U s' ∧
    (numbersOf U (group groups 6)).length = 1 ∧
    (parenRefCitation U).tokens 0 text =
      before ++ (('(' :: s).map plain ++ .found groups ::
        ((s' ++ [')']).map plain ++ after))

section

variable (hfacts : ClassFacts U) {text : Text}

include hfacts

theorem fits_parenthesized {s s' number : Text} (hs : Blanks U s)
    (hs' : Blanks U s') (hnumber : Digits U number) :
    Fits (parenRefCitation U).pieces
      [['('], s, ['[', '['], [], ['r', 'e', 'f'], [':'], number, [']', ']'], s', [')']] := by
  have hname : ref U ['r', 'e', 'f'] := by
    have hself := hfacts.same_self
    exact word_cons_eq_true.mpr ⟨'r', _, rfl, hself 'r' (by decide),
      word_cons_eq_true.mpr ⟨'e', _, rfl, hself 'e' (by decide),
        word_cons_eq_true.mpr ⟨'f', _, rfl, hself 'f' (by decide), rfl⟩⟩⟩
  have hlist : numbers U 1 number := by
    rw [numbers_eq_true, numbersOf_digits hfacts hnumber]
    exact ⟨le_refl 1, fun other hother => mem_singleton.mp hother ▸ hnumber⟩
  simp only [parenRefCitation, fits_cons, fits_nil, one_eq_true, many_eq_true,
    between_eq_true, isOneOf_eq_true, mem_singleton]
  exact ⟨_, _, rfl, ⟨_, rfl, rfl⟩, _, _, rfl, hs, _, _, rfl,
    ⟨by decide, by simp⟩, _, _, rfl, by simp, _, _, rfl, hname, _, _, rfl,
    ⟨_, rfl, rfl⟩, _, _, rfl, hlist, _, _, rfl, ⟨by decide, by simp⟩, _, _,
    rfl, hs', _, _, rfl, ⟨_, rfl, rfl⟩, rfl⟩

theorem exists_fit_of_nested (hnested : Nested U text) :
    ∃ groups, Fits (parenRefCitation U).pieces groups ∧
      groups.flatten <:+: withoutParenRefs U text := by
  obtain ⟨before, s, groups, s', after, hs, hs', hcount, hsplit⟩ := hnested
  have hfits := (tokenized_tokens (parenRefCitation U) text).fits
    (hsplit ▸ mem_append_right _ (mem_append_right _ mem_cons_self))
  obtain ⟨number, hnumbers⟩ := length_eq_one_iff.mp hcount
  have hnumber := (cited_paren hfacts hfits).2 number (hnumbers ▸ mem_cons_self)
  refine ⟨_, fits_parenthesized hfacts hs hs' hnumber, ?_⟩
  have hwritten : expandRefList U (group groups 6) = refMarker number := by
    rw [expandRefList_eq, hnumbers, flatMap_singleton]
  refine ⟨before.flatMap (rewrite fun groups =>
    expandRefList U (group groups 6)), after.flatMap (rewrite fun groups
      => expandRefList U (group groups 6)), ?_⟩
  rw [withoutParenRefs, Pattern.sub, hsplit, flatMap_append,
    flatMap_append, flatMap_cons, flatMap_append,
    flatMap_plain fun _ => rfl, flatMap_plain fun _ => rfl, flatten_paren,
    show rewrite (fun groups => expandRefList U (group groups 6))
      (.found groups) = refMarker number from hwritten, refMarker_eq]
  simp

theorem not_compatible_close {s number rest : Text} (hs : Blanks U s) :
    ¬ Compatible (s ++ [')']) (refMarker number ++ rest) := by
  intro hcompatible
  cases s with
  | nil => exact absurd hcompatible.head.1 (by decide)
  | cons blank s =>
    have hblank := hs blank mem_cons_self
    rw [show blank = '[' from hcompatible.head.1, hfacts.mark_space '[' (by decide)] at hblank
    cases hblank

section

variable {groups : List Text} (hfits : Fits (parenRefCitation U).pieces groups)

include hfits

theorem nested_of_exists_fit
    (hwithin : groups.flatten <:+: withoutParenRefs U text) : Nested U text := by
  obtain ⟨left, right, hsub⟩ := hwithin
  rw [append_assoc] at hsub
  have htokens := tokenized_tokens (parenRefCitation U) text
  obtain ⟨⟨tail, htail⟩, -⟩ := region_parenRefCitation hfacts hfits
  rcases cut (fun _ => rfl) hsub.symm with
    ⟨before, rest, hsplit, -, hrest⟩ |
    ⟨before, others, rest, first, second, hsplit, hblock, -, hsecond, -, hright⟩
  · rcases plain_or_block (fun _ => rfl) hrest with ⟨after, hplain, -⟩ |
      ⟨front, behind, others, after, hpart, hbehind, hplain, hblock⟩
    · -- The part would have been found.
      have hwhole : '(' :: (tail.map plain ++ after).flatMap
          source = groups.flatten ++ after.flatMap source := by
        rw [flatMap_append, flatMap_plain fun _ => rfl, htail]
        rfl
      rw [hsplit, hplain, htail, map_cons, cons_append] at htokens
      exact absurd hwhole (htokens.not_fits hfits)
    · have hothers := htokens.fits (hsplit ▸ hplain ▸
        mem_append_right _ (mem_append_right _ mem_cons_self))
      have hdigits := (cited_paren hfacts hothers).2
      rw [show rewrite (fun groups => expandRefList U (group groups 6)) (.found others) =
        expandRefList U (group others 6) from rfl, expandRefList_eq] at hblock
      have hcompatible := (compatible_of_append hblock).symm
      obtain ⟨number, numbers, hnumbers⟩ := exists_cons_of_ne_nil
        (@numbersOf_ne_nil U (group others 6))
      rw [hnumbers] at hdigits hblock hcompatible
      rw [flatMap_cons] at hcompatible hblock
      obtain ⟨s, s', hs, hs', rfl, rfl, -, hclose⟩ := paren_cut hfacts hfits
        (hdigits number mem_cons_self) hpart hbehind hcompatible
      cases numbers with
      | cons other numbers => exact absurd hclose (not_compatible_close hfacts hs')
      | nil =>
        rw [flatMap_nil, append_nil, append_assoc] at hblock
        have hafter := append_cancel_left hblock
        have hbracket : '[' ∉ s' ++ [')'] := by
          rw [mem_append, not_or]
          exact ⟨hfacts.notMem_blanks hs' (by decide), by decide⟩
        obtain ⟨after', hlast, -⟩ := plain_of_avoids (fun _ => rfl) hafter
          fun others' hothers' => by
            have hmem := hsplit ▸ hplain ▸ mem_append_right before
              (mem_append_right (('(' :: s).map plain)
                (mem_cons_of_mem (found others) hothers'))
            obtain ⟨next, behind', hwritten, -⟩ := (written_expand hfacts
              (cited_paren hfacts (htokens.fits hmem)).2).head
            rw [show rewrite (fun groups =>
              expandRefList U (group groups 6)) (.found others') =
              '[' :: next :: behind' from hwritten]
            exact staysOutside_of_notMem hbracket
        refine ⟨before, s, others, s', after', hs, hs', ?_, ?_⟩
        · rw [hnumbers]
          rfl
        · rw [hsplit, hplain, hlast]
  · have hothers := htokens.fits (hsplit ▸ mem_append_right _ mem_cons_self)
    have hcompatible := (compatible_of_append hright).symm
    cases second with
    | nil => exact absurd rfl hsecond
    | cons letter second =>
      rw [htail] at hcompatible
      have hparen : letter = '(' := hcompatible.head.1
      have hmem : '(' ∈ expandRefList U (group others 6) := by
        have hwritten : expandRefList U (group others 6) = first ++ letter :: second := hblock
        rw [hwritten, hparen]
        exact mem_append_right _ mem_cons_self
      exact absurd mem_cons_self ((block_parenRefCitation hfacts hothers).clean '(' hmem)

theorem paren_last :
    groups.flatten <:+: withNoCitation U (withoutAnnotations U text) ↔
      groups.flatten <:+: text := by
  constructor
  · intro hwithin
    have hmarker : Avoids groups.flatten noCitationMarker := by
      obtain ⟨⟨tail, htail⟩, hregion⟩ := region_parenRefCitation hfacts hfits
      refine hregion.avoids ⟨'(', tail, htail, by decide⟩ written_noCitation ?_
      rintro next rfl
      exact ⟨by decide, hfacts.not_leads_letter (by decide) (by decide) (by decide)⟩
    refine infix_of_infix_sub (infix_of_infix_sub hwithin fun _ _ => hmarker)
      fun others hothers => ?_
    obtain ⟨first, token, last, -, -, -, -, -, hmark⟩ :=
      known_of_changed (changed_of_mem_changes hothers)
    rw [show (canonicalAnnotationOf U (group others 1)).getD others.flatten =
      noCitationMarker from hmark]
    exact hmarker
  · intro hwithin
    refine infix_sub (infix_sub hwithin fun others hothers => ?_)
      fun others hothers => ?_
    · exact paren_avoids_annotationPart hfacts hfits (changed_of_mem_changes hothers)
    · exact paren_avoids_asciiNoCitation hfacts hfits (changed_of_mem_changes hothers).1

end

theorem exists_fit_normalize_iff :
    (∃ groups, Fits (parenRefCitation U).pieces groups ∧
      groups.flatten <:+: normalizeVerifyMarkers U text) ↔
      Nested U (beforeParenRefs U (withoutDaggers U (beforeDaggers U text))) := by
  rw [normalize_eq]
  constructor
  · rintro ⟨groups, hfits, hwithin⟩
    exact nested_of_exists_fit hfacts hfits ((paren_last hfacts hfits).mp hwithin)
  · intro hnested
    obtain ⟨groups, hfits, hwithin⟩ := exists_fit_of_nested hfacts hnested
    exact ⟨groups, hfits, (paren_last hfacts hfits).mpr hwithin⟩

end

end Legba.CitationMarkers
