import Legba.CitationNested

/-!
# Annotations behind an open bracket

The scan for annotations takes what begins at the first full-width bracket.  A
known annotation is found unless an earlier bracket opens, with none closed in
between, within forty letters.  What the substitution leaves is hidden in this
way, and it is uncovered only where the last substitution lengthens the text
between the two brackets.
-/

namespace Legba.CitationMarkers

open RegexScan List Token

attribute [local instance (high)] List.decidableBAll

variable {U : CharClasses}

/-- The text before an annotation ends with an open bracket and at most the
letters which leave the annotation within its reach. -/
def Hides (left token : Text) : Prop :=
  ∃ front opening between, left = front ++ opening :: between ∧
    opening ∈ openBrackets ∧ (∀ letter ∈ between, letter ∉ closeBrackets) ∧
    between.length + 1 + token.length ≤ 40

/-- A known annotation whose nearest open bracket no longer hides it once the
text between them is rewritten. -/
def Uncovers (U : CharClasses) (text : Text) : Prop :=
  ∃ opening between groups, opening ∈ openBrackets ∧
    (∀ letter ∈ between, letter ∉ openBrackets ++ closeBrackets) ∧
    Fits variantAnnotationRe.pieces groups ∧
    canonicalAnnotationOf U (group groups 1) ≠ none ∧
    opening :: between ++ groups.flatten <:+: text ∧
    40 < (withNoCitation U between).length + 1 + (group groups 1).length

theorem fits_annotationPart {first last : Char} {token : Text} (hfirst : first ∈ openBrackets)
    (hlength : 1 ≤ token.length ∧ token.length ≤ 40)
    (htoken : ∀ letter ∈ token, letter ∉ closeBrackets) (hlast : last ∈ closeBrackets) :
    Fits variantAnnotationRe.pieces [[first], token, [last]] := by
  simp only [variantAnnotationRe, fits_cons, fits_nil, one_eq_true,
    between_eq_true, isOpen_eq_true, isClose_eq_true]
  refine ⟨_, _, rfl, ⟨_, rfl, hfirst⟩, _, _, rfl, ⟨hlength, ?_⟩, _, _, rfl, ⟨_, rfl, hlast⟩, rfl⟩
  intro letter hletter
  rw [Bool.not_eq_true', ← Bool.not_eq_true, isClose_eq_true]
  exact htoken letter hletter

theorem flatten_annotationPart (first last : Char) (token : Text) :
    [[first], token, [last]].flatten = first :: (token ++ [last]) := by
  simp

variable {groups others : List Text}

section

variable (hfits : Fits variantAnnotationRe.pieces groups)
  (hothers : Fits variantAnnotationRe.pieces others)

include hfits hothers

theorem annotation_eq (hcompatible : Compatible groups.flatten others.flatten) :
    groups = others := by
  obtain ⟨first, token, last, rfl, -, -, htoken, hlast⟩ := fits_variantAnnotationRe hfits
  obtain ⟨first', token', last', rfl, -, -, htoken', hlast'⟩ := fits_variantAnnotationRe hothers
  obtain ⟨rfl, hrest⟩ := hcompatible.head
  obtain ⟨rfl, hend⟩ := Compatible.run htoken htoken'
    (fun hnot => hnot hlast) (fun hnot => hnot hlast') hrest
  rw [hend.head.1]

theorem hides_of_inside {front first second : Text} (hsplit : others.flatten = first ++ second)
    (hfirst : first ≠ []) (hsecond : second ≠ []) (hcompatible : Compatible second groups.flatten) :
    Hides (front ++ first) (group groups 1) := by
  obtain ⟨opening, token, last, rfl, -, -, htoken, hlast⟩ := fits_variantAnnotationRe hfits
  obtain ⟨opening', token', last', rfl, hopening', hlength', htoken',
    hlast'⟩ := fits_variantAnnotationRe hothers
  rw [flatten_annotationPart] at hsplit hcompatible
  obtain ⟨between, rfl⟩ : ∃ between, first = opening' :: between := by
    cases first with
    | nil => exact absurd rfl hfirst
    | cons letter between => exact ⟨between, by rw [(cons_eq_cons.mp hsplit).1]⟩
  have hinner := (cons_eq_cons.mp hsplit).2
  obtain ⟨rest, hsecondEq, htokenEq⟩ : ∃ rest, second = rest ++ [last'] ∧
      token' = between ++ rest := by
    rcases append_eq_append_iff.mp hinner with
      ⟨rest, hbetween, hlastEq⟩ | ⟨rest, htokenEq, hsecondEq⟩
    · rcases singleton_eq_append_iff.mp hlastEq with ⟨rfl, rfl⟩ | ⟨-, hempty⟩
      · exact ⟨[], rfl, by rw [hbetween, append_nil, append_nil]⟩
      · exact absurd hempty hsecond
    · exact ⟨rest, hsecondEq, htokenEq⟩
  have hrest : ∀ letter ∈ rest, letter ∉ closeBrackets := fun letter hletter =>
    htoken' letter (htokenEq ▸ mem_append_right _ hletter)
  rw [hsecondEq] at hcompatible
  have hopen : ∀ letter ∈ opening :: token, letter ∉ closeBrackets := by
    refine forall_mem_cons.mpr ⟨?_, htoken⟩
    have hnot : ∀ letter ∈ openBrackets, letter ∉ closeBrackets := by decide
    obtain ⟨first', token'', last'', heq, hmem, -⟩ := fits_variantAnnotationRe hfits
    cases heq
    exact hnot opening hmem
  have hequal := (Compatible.run hrest hopen (fun hnot => hnot hlast')
    (fun hnot => hnot hlast) (show Compatible (rest ++ last' :: [])
      ((opening :: token) ++ last :: []) from hcompatible)).1
  refine ⟨front, opening', between, rfl, hopening', fun letter hletter =>
    htoken' letter (htokenEq ▸ mem_append_left _ hletter), ?_⟩
  have hcount := hlength'.2
  rw [htokenEq, hequal, length_append, length_cons] at hcount
  show between.length + 1 + token.length ≤ 40
  omega

end

section

variable {text left right : Text} {groups : List Text}

theorem found_of_not_hides (hfits : Fits variantAnnotationRe.pieces groups)
    (htext : text = left ++ (groups.flatten ++ right)) (hhides : ¬ Hides left (group groups 1)) :
    found groups ∈ variantAnnotationRe.tokens 0 text := by
  have htokens := tokenized_tokens variantAnnotationRe text
  rcases cut (fun _ => rfl) (htokens.source.trans htext) with
    ⟨before, after, hsplit, -, hafter⟩ |
    ⟨before, others, after, first, second, hsplit, hothers, hfirst, hsecond, hleft, hright⟩
  · cases after with
    | nil =>
      have hempty := append_eq_nil_iff.mp hafter.symm
      exact absurd hempty.1 (variantAnnotationRe.solid groups hfits)
    | cons token after =>
      cases token with
      | plain letter =>
        rw [hsplit] at htokens
        exact absurd hafter (htokens.not_fits hfits)
      | found others =>
        have hmem : found others ∈ variantAnnotationRe.tokens 0 text :=
          hsplit ▸ mem_append_right _ mem_cons_self
        have heq := annotation_eq hfits (htokens.fits hmem) (compatible_of_append hafter).symm
        rwa [heq]
  · have hmem : found others ∈ variantAnnotationRe.tokens 0 text :=
      hsplit ▸ mem_append_right _ mem_cons_self
    refine absurd ?_ hhides
    rw [hleft]
    exact hides_of_inside hfits (htokens.fits hmem) hothers hfirst hsecond
      (compatible_of_append hright).symm

theorem not_hides_of_found {before after : List Token}
    (htokens : Tokenized variantAnnotationRe text (before ++ .found groups ::
      after)) : ¬ Hides (before.flatMap source) (group groups 1) := by
  rintro ⟨front, opening, between, hleft, hopening, hbetween, hlength⟩
  have hfits := htokens.fits (mem_append_right _ mem_cons_self)
  obtain ⟨first, token, last, rfl, hfirst, hcount, htoken, hlast⟩ := fits_variantAnnotationRe hfits
  have hnot : ∀ letter ∈ openBrackets, letter ∉ closeBrackets := by decide
  have hclosed : ∀ letter ∈ opening :: between, letter ∉ closeBrackets :=
    forall_mem_cons.mpr ⟨hnot opening hopening, hbetween⟩
  have hends : ∀ others, found others ∈ before →
      ∃ letter ∈ closeBrackets, ∀ first second, others.flatten =
        first ++ second → second ≠ [] → letter ∈ second := by
    intro others hothers
    obtain ⟨first', token', last', rfl, -, -, -, hlast'⟩ :=
      fits_variantAnnotationRe (htokens.fits (mem_append_left _ hothers))
    refine ⟨last', hlast', fun first second hsplit hsecond => ?_⟩
    rw [flatten_annotationPart] at hsplit
    have hlastEq : (first ++ second).getLast? = some last' := by
      rw [← hsplit, ← cons_append, getLast?_concat]
    rw [getLast?_append_of_ne_nil _ hsecond] at hlastEq
    exact mem_of_getLast? hlastEq
  rcases cut (fun _ => rfl) hleft with
    ⟨ahead, behind, rfl, -, hbehind⟩ |
    ⟨ahead, others, behind, first', second, rfl, hothers, -, hsecond, -, hright⟩
  · cases behind with
    | nil => cases hbehind
    | cons token' behind =>
      cases token' with
      | plain letter =>
        obtain ⟨hletter, hrest⟩ : letter = opening ∧ behind.flatMap source = between :=
          cons_eq_cons.mp hbehind
        have hwhole : Fits variantAnnotationRe.pieces
            [[opening], between ++ first :: token, [last]] := by
          refine fits_annotationPart hopening ?_ ?_ hlast
          · rw [length_append, length_cons]
            have hgroup : group [[first], token, [last]] 1 = token := rfl
            rw [hgroup] at hlength
            omega
          · intro other hother
            rcases mem_append.mp hother with hother | hother
            · exact hbetween other hother
            · rcases mem_cons.mp hother with rfl | hother
              · exact hnot other hfirst
              · exact htoken other hother
        have hflatten : source (.found [[first], token, [last]]) =
            first :: (token ++ [last]) := flatten_annotationPart ..
        have hpart : letter :: (behind ++ found
            [[first], token, [last]] :: after).flatMap source =
            [[opening], between ++ first :: token, [last]].flatten ++
              after.flatMap source := by
          rw [flatMap_append, flatMap_cons, hrest, hletter, hflatten, flatten_annotationPart]
          simp
        rw [append_assoc, cons_append] at htokens
        exact htokens.not_fits hwhole hpart
      | found others =>
        obtain ⟨letter, hclose, hmem⟩ := hends others (mem_append_right _ mem_cons_self)
        have hne : others.flatten ≠ [] := variantAnnotationRe.solid others
          (htokens.fits (mem_append_left _ (mem_append_right _ mem_cons_self)))
        have hletter := hmem [] others.flatten rfl hne
        refine hclosed letter ?_ hclose
        rw [← hbehind, flatMap_cons]
        exact mem_append_left _ hletter
  · obtain ⟨letter, hclose, hmem⟩ := hends others (mem_append_right _ mem_cons_self)
    refine hclosed letter ?_ hclose
    rw [hright]
    exact mem_append_left _ (hmem first' second hothers hsecond)

end

/-! ## What the substitution leaves -/

section

variable (hfacts : ClassFacts U) {text left right : Text}
  {groups : List Text}

include hfacts

theorem hides_withoutAnnotations (hchanged : variantAnnotationRe.Changed (annotationText U) groups)
    (htext : withoutAnnotations U text = left ++ (groups.flatten ++ right)) :
    Hides left (group groups 1) := by
  have htokens := tokenized_tokens variantAnnotationRe text
  have hfits := hchanged.1
  obtain ⟨first, token, last, rfl, hfirst, -, hlast, hknown, -⟩ := known_of_changed hchanged
  have hview : ∀ others, found others ∈
      variantAnnotationRe.tokens 0 text →
      annotationText U others = noCitationMarker ∨
        annotationText U others = others.flatten ∧ others ≠ [[first], token, [last]] := by
    intro others hothers
    by_cases hsame : annotationText U others = others.flatten
    · refine Or.inr ⟨hsame, ?_⟩
      rintro rfl
      exact hchanged.2 hsame
    · obtain ⟨-, -, -, -, -, -, -, -, hmark⟩ := known_of_changed ⟨htokens.fits hothers, hsame⟩
      exact Or.inl hmark
  have hopen : first ∉ noCitationMarker := fun hmem =>
    written_noCitation.clean first hmem (mem_cons_of_mem _
      (mem_cons_of_mem _ (mem_append_left _ hfirst)))
  have htail : ∀ letter ∈ '[' :: openBrackets, letter ∉ token ++ [last] := by
    have hmarks : ∀ letter ∈ '[' :: openBrackets, letter ∈ marks ∧
        letter ∉ ['_', '-'] ∧ letter ∉ closeBrackets := by
      decide
    intro letter hletter
    obtain ⟨hmark, hjoint, hclose⟩ := hmarks letter hletter
    rw [mem_append, not_or]
    refine ⟨notMem_annotationToken hfacts hknown hmark hjoint, fun hmem => ?_⟩
    exact hclose (mem_singleton.mp hmem ▸ hlast)
  rcases cut (fun _ => rfl) htext with
    ⟨before, after, hsplit, -, hafter⟩ |
    ⟨before, others, after, front, behind, hsplit, hothers, hfront, hbehind, hleft, hright⟩
  · cases after with
    | nil =>
      have hempty := append_eq_nil_iff.mp hafter.symm
      exact absurd hempty.1 (variantAnnotationRe.solid _ hfits)
    | cons token' after =>
      cases token' with
      | plain letter =>
        obtain ⟨hletter, hrest⟩ : letter = first ∧
            after.flatMap (rewrite (annotationText U)) =
              (token ++ [last]) ++ right := cons_eq_cons.mp hafter
        obtain ⟨after', hplain, -⟩ := plain_of_avoids (fun _ => rfl) hrest
          fun others hothers => by
            have hmem : found others ∈ variantAnnotationRe.tokens 0 text :=
              hsplit ▸ mem_append_right _ (mem_cons_of_mem _ hothers)
            rcases hview others hmem with hmark | ⟨hsame, -⟩
            · rw [show rewrite (annotationText U) (.found others)
                = noCitationMarker from hmark]
              exact staysOutside_of_notMem (htail '[' mem_cons_self)
            · rw [show rewrite (annotationText U) (.found others) = others.flatten from hsame]
              obtain ⟨first', token', last', rfl, hfirst', -⟩ :=
                fits_variantAnnotationRe (htokens.fits hmem)
              exact staysOutside_of_notMem (htail first' (mem_cons_of_mem _ hfirst'))
        have hpart : first :: ((token ++ [last]).map plain ++
            after').flatMap source =
            [[first], token, [last]].flatten ++ after'.flatMap source := by
          rw [flatMap_append, flatMap_plain fun _ => rfl, flatten_annotationPart]
          rfl
        rw [hsplit, hplain, hletter] at htokens
        exact absurd hpart (htokens.not_fits hfits)
      | found others =>
        have hmem : found others ∈ variantAnnotationRe.tokens 0 text :=
          hsplit ▸ mem_append_right _ mem_cons_self
        have hcompatible := (compatible_of_append hafter).symm
        rcases hview others hmem with hmark | ⟨hsame, hne⟩
        · rw [show rewrite (annotationText U) (.found others)
            = noCitationMarker from hmark, flatten_annotationPart]
            at hcompatible
          refine absurd ?_ hopen
          rw [hcompatible.head.1]
          exact mem_cons_self
        · rw [show rewrite (annotationText U) (.found others)
            = others.flatten from hsame] at hcompatible
          exact absurd (annotation_eq hfits (htokens.fits hmem) hcompatible).symm hne
  · have hmem : found others ∈ variantAnnotationRe.tokens 0 text :=
      hsplit ▸ mem_append_right _ mem_cons_self
    have hcompatible := (compatible_of_append hright).symm
    rcases hview others hmem with hmark | ⟨hsame, -⟩
    · cases behind with
      | nil => exact absurd rfl hbehind
      | cons letter behind =>
        have hletter : letter = first := hcompatible.head.1
        refine absurd ?_ hopen
        have hwritten : noCitationMarker = front ++ letter :: behind := hmark.symm.trans hothers
        rw [hwritten, hletter]
        exact mem_append_right _ mem_cons_self
    · rw [hleft]
      exact hides_of_inside hfits (htokens.fits hmem)
        (hsame.symm.trans hothers) hfront hbehind hcompatible

end

/-! ## What the last substitution uncovers -/

section

variable (hfacts : ClassFacts U) {text : Text}

include hfacts

variable {mark : Char} {groups : List Text}

theorem pieces_asciiNoCitation (hmark : mark ∈ openBrackets ++ closeBrackets) :
    ∀ piece ∈ (asciiNoCitation U).pieces, ∀ taken, piece taken = true → mark ∉ taken := by
  have hmarks : ∀ mark ∈ openBrackets ++ closeBrackets,
      mark ∈ marks ∧ mark ∉ ['[', ']', '_', '-'] := by
    decide
  obtain ⟨hmem, hother⟩ := hmarks mark hmark
  simp only [mem_cons, not_mem_nil, or_false, not_or] at hother
  obtain ⟨hopen, hclose, hunder, hdash⟩ := hother
  have hspace : ∀ taken : Text, (∀ letter ∈ taken, U.isSpace letter = true) →
      mark ∉ taken := fun taken htaken =>
    hfacts.notMem_blanks htaken hmem
  intro piece hpiece taken htaken
  simp only [asciiNoCitation, mem_cons, not_mem_nil, or_false] at hpiece
  rcases hpiece with rfl | rfl | rfl | rfl | rfl | rfl | rfl
  · obtain ⟨letter, rfl, hletter⟩ := one_eq_true.mp htaken
    rw [isOneOf_eq_true, mem_singleton] at hletter
    rw [hletter, mem_singleton]
    exact hopen
  · exact hspace taken (many_eq_true.mp htaken)
  · exact hfacts.notMem_word (by decide) htaken hmem
  · intro hletter
    have hjoint := (between_eq_true.mp htaken).2 mark hletter
    rw [Bool.or_eq_true, hfacts.mark_space mark hmem, isOneOf_eq_true, mem_pair] at hjoint
    rcases hjoint with hblank | hpair
    · cases hblank
    · exact hpair.elim hunder hdash
  · exact hfacts.notMem_word (by decide) htaken hmem
  · exact hspace taken (many_eq_true.mp htaken)
  · obtain ⟨letter, rfl, hletter⟩ := one_eq_true.mp htaken
    rw [isOneOf_eq_true, mem_singleton] at hletter
    rw [hletter, mem_singleton]
    exact hclose

theorem withNoCitation_append_cons
    (hmark : mark ∈ openBrackets ++ closeBrackets) (left right : Text) :
    withNoCitation U (left ++ mark :: right) =
      withNoCitation U left ++ mark :: withNoCitation U right :=
  sub_append_cons (pieces_asciiNoCitation hfacts hmark) left right

omit hfacts in
theorem notMem_noCitation (hmark : mark ∈ openBrackets ++ closeBrackets) :
    mark ∉ noCitationMarker := fun hmem =>
  written_noCitation.clean mark hmem (mem_cons_of_mem _ (mem_cons_of_mem _ hmark))

omit hfacts in
theorem withNoCitation_eq_iff {token : Text} (htoken : '[' ∉ token) :
    withNoCitation U text = token ↔ text = token := by
  constructor
  · intro hsub
    rw [← hsub]
    refine (sub_eq_self fun groups hgroups => ?_).symm
    refine absurd ?_ htoken
    rw [← hsub]
    exact (replace_infix_sub (fun _ => noCitationMarker) hgroups).subset mem_cons_self
  · rintro rfl
    refine sub_eq_self_of_not_infix fun groups hfits hwithin => ?_
    obtain ⟨s, no, joint, citation, s', rfl, -⟩ := fits_asciiNoCitation hfits
    exact htoken (hwithin.subset mem_cons_self)

omit hfacts in
theorem exists_last {p : Char → Prop} {text : Text} (htext : ∃ letter ∈ text, p letter) :
    ∃ ahead last rest, text = ahead ++ last :: rest ∧ p last ∧ ∀ letter ∈ rest, ¬ p letter := by
  have hreverse : ¬ ∀ letter ∈ text.reverse, ¬ p letter := by
    obtain ⟨letter, hletter, hp⟩ := htext
    exact fun hall => hall letter (mem_reverse.mpr hletter) hp
  obtain ⟨front, last, behind, hsplit, hfront, hlast⟩ := exists_first_not hreverse
  refine ⟨behind.reverse, last, front.reverse, ?_, not_not.mp hlast,
    fun letter hletter => hfront letter (mem_reverse.mp hletter)⟩
  rw [← reverse_reverse text, hsplit]
  simp

theorem uncovers_of_found (hchanged : variantAnnotationRe.Changed (annotationText U) groups)
    (hfound : found groups ∈ variantAnnotationRe.tokens 0 (withNoCitation U
      (withoutAnnotations U text))) : Uncovers U (withoutAnnotations U text) := by
  obtain ⟨before, after, hsplit⟩ := append_of_mem hfound
  have htokens := tokenized_tokens variantAnnotationRe
    (withNoCitation U (withoutAnnotations U text))
  have hsource := htokens.source
  rw [hsplit] at htokens hsource
  have hhides := not_hides_of_found htokens
  have hfits := hchanged.1
  obtain ⟨first, token, last, rfl, hfirst, -, hlast, hknown, -⟩ := known_of_changed hchanged
  have hsub : withNoCitation U (withoutAnnotations U text) =
      before.flatMap source ++ first :: (token ++ last :: after.flatMap source) := by
    have hflatten : source (.found [[first], token, [last]]) =
        first :: (token ++ [last]) := flatten_annotationPart ..
    rw [← hsource, flatMap_append, flatMap_cons, hflatten]
    simp
  obtain ⟨left, rest, htext, hleft, hrest⟩ := exists_parts_of_sub (pieces_asciiNoCitation hfacts
    (mem_append_left _ hfirst)) (fun _ => notMem_noCitation (mem_append_left _ hfirst)) hsub
  obtain ⟨token', right, rfl, htoken', -⟩ := exists_parts_of_sub (pieces_asciiNoCitation hfacts
    (mem_append_right _ hlast)) (fun _ => notMem_noCitation (mem_append_right _ hlast)) hrest
  obtain rfl : token' = token := (withNoCitation_eq_iff
    (notMem_annotationToken hfacts hknown (by decide) (by decide))).mp htoken'
  have hlatest : withoutAnnotations U text =
      left ++ ([[first], token', [last]].flatten ++ right) := by
    rw [htext, flatten_annotationPart]
    simp
  obtain ⟨front, opening, between, rfl, hopening, hbetween, hlength⟩ :=
    hides_withoutAnnotations hfacts hchanged hlatest
  obtain ⟨ahead, nearest, inner, hnearest, hopen, hinner⟩ :=
    exists_last (p := fun letter => letter ∈ openBrackets) ⟨opening, mem_cons_self, hopening⟩
  have hnot : ∀ letter ∈ openBrackets, letter ∉ closeBrackets := by decide
  have hclosed : ∀ letter ∈ inner, letter ∉ closeBrackets := by
    intro letter hletter
    have hmem : letter ∈ opening :: between := hnearest ▸
      mem_append_right _ (mem_cons_of_mem _ hletter)
    rcases mem_cons.mp hmem with rfl | hmem
    · exact hnot letter hopening
    · exact hbetween letter hmem
  refine ⟨nearest, inner, _, hopen, ?_, hfits, hknown, ?_, ?_⟩
  · intro letter hletter hmem
    rcases mem_append.mp hmem with hmem | hmem
    · exact hinner letter hletter hmem
    · exact hclosed letter hletter hmem
  · refine ⟨front ++ ahead, right, ?_⟩
    rw [hlatest, hnearest]
    simp
  · by_contra hshort
    refine hhides ⟨withNoCitation U (front ++ ahead), nearest,
      withNoCitation U inner, ?_, hopen, ?_, not_lt.mp hshort⟩
    · rw [← hleft, hnearest, ← append_assoc]
      exact withNoCitation_append_cons hfacts (mem_append_left _ hopen)
        _ _
    · intro letter hletter hclose
      exact notMem_sub (fun _ => notMem_noCitation (mem_append_right _ hclose))
        (fun hmem => hclosed letter hmem hclose) hletter

omit hfacts in
theorem changed_of_known (hfits : Fits variantAnnotationRe.pieces groups)
    (hknown : canonicalAnnotationOf U (group groups 1) ≠ none) :
    variantAnnotationRe.Changed (annotationText U) groups := by
  refine ⟨hfits, fun hsame => ?_⟩
  obtain ⟨marker, hmarker⟩ := Option.ne_none_iff_exists'.mp hknown
  obtain ⟨first, token, last, rfl, hfirst, -⟩ := fits_variantAnnotationRe hfits
  rw [annotationText, hmarker, Option.getD_some, flatten_annotationPart] at hsame
  rw [canonicalAnnotationOf] at hmarker
  by_cases hlisted : uncitableAnnotations.contains
      ((strip U (Words.collapse (isSeparator U) ' '
        (group [[first], token, [last]] 1))).flatMap U.casefold) = true
  · rw [if_pos hlisted] at hmarker
    rw [← Option.some.inj hmarker] at hsame
    have hbracket : '[' = first := (cons_eq_cons.mp hsame).1
    rw [← hbracket] at hfirst
    revert hfirst
    decide
  · rw [if_neg hlisted] at hmarker
    cases hmarker

theorem found_of_uncovers (huncovers : Uncovers U text) :
    ∃ groups, variantAnnotationRe.Changed (annotationText U) groups ∧
      found groups ∈ variantAnnotationRe.tokens 0 (withNoCitation U text) := by
  obtain ⟨opening, between, groups, hopening, hbetween, hfits, hknown,
    ⟨left, right, rfl⟩, hlong⟩ := huncovers
  have hchanged := changed_of_known hfits hknown
  obtain ⟨first, token, last, rfl, hfirst, -, hlast, -, -⟩ := known_of_changed hchanged
  refine ⟨_, hchanged, ?_⟩
  have htoken : withNoCitation U token = token := (withNoCitation_eq_iff
    (notMem_annotationToken hfacts hknown (by decide) (by decide))).mpr rfl
  have hsub : withNoCitation U (left ++ (opening :: between ++
      [[first], token, [last]].flatten) ++ right) =
      (withNoCitation U left ++ opening :: withNoCitation U between) ++
        ([[first], token, [last]].flatten ++ withNoCitation U right) := by
    have htext : left ++ (opening :: between ++
        [[first], token, [last]].flatten) ++ right =
        left ++ opening :: (between ++ first :: (token ++ last :: right)) := by
      simp
    rw [htext, withNoCitation_append_cons hfacts (mem_append_left _ hopening),
      withNoCitation_append_cons hfacts (mem_append_left _ hfirst), withNoCitation_append_cons
      hfacts (mem_append_right _ hlast), htoken, flatten_annotationPart]
    simp
  refine found_of_not_hides hfits hsub ?_
  rintro ⟨front, other, inner, hsplit, hother, -, hlength⟩
  have hnotMem : other ∉ withNoCitation U between :=
    notMem_sub (fun _ => notMem_noCitation (mem_append_left _ hother))
      fun hmem => hbetween other hmem (mem_append_left _ hother)
  have hshort : (withNoCitation U between).length ≤ inner.length := by
    rcases append_eq_append_iff.mp hsplit with ⟨rest, -, hrest⟩ | ⟨rest, -, hrest⟩
    · cases rest with
      | nil => exact le_of_eq (congrArg length (cons_eq_cons.mp hrest).2)
      | cons letter rest =>
        refine absurd ?_ hnotMem
        rw [(cons_eq_cons.mp hrest).2]
        exact mem_append_right _ mem_cons_self
    · have hcount := congrArg length hrest
      rw [length_cons, length_append, length_cons] at hcount
      omega
  omega

end

end Legba.CitationMarkers
