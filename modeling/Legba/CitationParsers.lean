import Legba.CitationSpellings

/-!
# What the parsers find

A parser finds every marker which stands in the text, since no two markers
overlap.
-/

namespace Legba.CitationMarkers

open RegexScan List

attribute [local instance (high)] decidableBAll

variable {U : CharClasses}

theorem mem_findAll_iff (pattern : Pattern) (text : Text) (P : List Text → Prop)
    (hinside : ∀ groups others, Fits pattern.pieces groups → Fits pattern.pieces
      others → StaysOutside others.flatten.tail groups.flatten)
    (hsame : ∀ groups others, Fits pattern.pieces groups → Fits pattern.pieces
      others → Compatible groups.flatten others.flatten → P groups → P others) :
    (∃ groups ∈ pattern.findAll text, P groups) ↔
      ∃ groups, Fits pattern.pieces groups ∧ groups.flatten <:+: text ∧ P groups := by
  constructor
  · rintro ⟨groups, hfound, hP⟩
    obtain ⟨hfits, hwithin⟩ := infix_of_mem_findAll hfound
    exact ⟨groups, hfits, hwithin, hP⟩
  · rintro ⟨groups, hfits, hwithin, hP⟩
    obtain ⟨others, hfound, hcompatible⟩ := found_of_infix hfits hwithin
      fun others hothers => hinside groups others hfits hothers
    exact ⟨others, mem_findAll hfound, hsame groups others hfits
      ((tokenized_tokens _ text).fits hfound) hcompatible hP⟩

section

variable (hfacts : ClassFacts U)

include hfacts

variable {text number : Text} {groups : List Text}

theorem mem_unitMarkers :
    number ∈ unitMarkers U text ↔ Digits U number ∧ unitMarker number <:+: text := by
  have hiff := mem_findAll_iff (claimMarker U) text
    (fun groups => group groups 1 = number) ?_ ?_
  · rw [unitMarkers, mem_map, hiff]
    constructor
    · rintro ⟨groups, hfits, hwithin, rfl⟩
      obtain ⟨number, rfl, hnumber⟩ := fits_claimMarker hfits
      exact ⟨hnumber, hwithin⟩
    · rintro ⟨hnumber, hwithin⟩
      refine ⟨[['['], number, [']']], ?_, hwithin, rfl⟩
      simp only [claimMarker, fits_cons, fits_nil, one_eq_true,
        several_eq_true, isOneOf_eq_true, mem_singleton]
      exact ⟨_, _, rfl, ⟨_, rfl, rfl⟩, _, _, rfl, hnumber, _, _, rfl, ⟨_, rfl, rfl⟩, rfl⟩
  · intro groups others hfits hothers
    obtain ⟨number, rfl, -⟩ := fits_claimMarker hfits
    obtain ⟨other, rfl, hother⟩ := fits_claimMarker hothers
    exact unit_tail hfacts hother
  · rintro groups others hfits hothers hcompatible rfl
    obtain ⟨number, rfl, hnumber⟩ := fits_claimMarker hfits
    obtain ⟨other, rfl, hother⟩ := fits_claimMarker hothers
    exact (unit_compatible hfacts hnumber hother hcompatible).symm

omit hfacts in
theorem word_beq {letters : Text} :
    word (fun letter other => letter == other) letters text = true ↔ text = letters := by
  induction letters generalizing text with
  | nil => exact word_nil_eq_true
  | cons letter letters ih =>
    rw [word_cons_eq_true]
    constructor
    · rintro ⟨other, behind, rfl, hbeq, hbehind⟩
      rw [ih.mp hbehind, beq_iff_eq.mp hbeq]
    · rintro rfl
      exact ⟨letter, letters, rfl, beq_self_eq_true letter, ih.mpr rfl⟩

omit hfacts in
theorem fits_refPattern :
    Fits (refPattern U).pieces groups ↔ ∃ number,
      groups = [['['], ['['], "ref:".toList, number, [']'], [']']] ∧
      Digits U number := by
  simp only [refPattern, fits_cons, fits_nil, one_eq_true, several_eq_true,
    isOneOf_eq_true, mem_singleton, word_beq]
  constructor
  · rintro ⟨_, _, rfl, ⟨_, rfl, rfl⟩, _, _, rfl, ⟨_, rfl, rfl⟩, _, _, rfl,
      rfl, number, _, rfl, hnumber, _, _, rfl, ⟨_, rfl, rfl⟩, _, _, rfl,
      ⟨_, rfl, rfl⟩, rfl⟩
    exact ⟨number, rfl, hnumber⟩
  · rintro ⟨number, rfl, hnumber⟩
    exact ⟨_, _, rfl, ⟨_, rfl, rfl⟩, _, _, rfl, ⟨_, rfl, rfl⟩, _, _, rfl, rfl, _, _,
      rfl, hnumber, _, _, rfl, ⟨_, rfl, rfl⟩, _, _, rfl, ⟨_, rfl, rfl⟩, rfl⟩

omit hfacts in
theorem flatten_ref (number : Text) :
    [['['], ['['], "ref:".toList, number, [']'], [']']].flatten = refMarker number := by
  simp [refMarker_eq]

theorem mem_refMarkers :
    number ∈ refMarkers U text ↔ Digits U number ∧ refMarker number <:+: text := by
  have hiff := mem_findAll_iff (refPattern U) text
    (fun groups => group groups 3 = number) ?_ ?_
  · rw [refMarkers, mem_map, hiff]
    constructor
    · rintro ⟨groups, hfits, hwithin, rfl⟩
      obtain ⟨number, rfl, hnumber⟩ := fits_refPattern.mp hfits
      rw [flatten_ref] at hwithin
      exact ⟨hnumber, hwithin⟩
    · rintro ⟨hnumber, hwithin⟩
      refine ⟨_, fits_refPattern.mpr ⟨number, rfl, hnumber⟩, ?_, rfl⟩
      rwa [flatten_ref]
  · intro groups others hfits hothers
    obtain ⟨number, rfl, -⟩ := fits_refPattern.mp hfits
    obtain ⟨other, rfl, hother⟩ := fits_refPattern.mp hothers
    rw [flatten_ref, flatten_ref]
    exact ref_tail hfacts hother
  · rintro groups others hfits hothers hcompatible rfl
    obtain ⟨number, rfl, hnumber⟩ := fits_refPattern.mp hfits
    obtain ⟨other, rfl, hother⟩ := fits_refPattern.mp hothers
    rw [flatten_ref, flatten_ref] at hcompatible
    exact (ref_compatible hfacts hnumber hother hcompatible).symm

theorem range_tail (hfits : Fits (claimRange U).pieces groups) : '[' ∉ groups.flatten.tail := by
  obtain ⟨low, s, dash, s', high, rfl, hlow, hs, hdash, hs', hhigh⟩ := fits_claimRange hfits
  have hbracket : '[' ∈ marks := by decide
  have hdashes : '[' ≠ dash := by
    rintro rfl
    revert hdash
    decide
  show '[' ∉ [low, s, [dash], s', high, [']']].flatten
  simp only [flatten_cons, flatten_nil, mem_append,
    mem_singleton, append_nil, not_or]
  exact ⟨hfacts.notMem_digits hlow hbracket, hfacts.notMem_blanks hs hbracket, hdashes,
    hfacts.notMem_blanks hs' hbracket, hfacts.notMem_digits hhigh hbracket, by decide⟩

theorem range_eq {others : List Text} (hfits : Fits (claimRange U).pieces groups)
    (hothers : Fits (claimRange U).pieces others)
    (hcompatible : Compatible groups.flatten others.flatten) :
    group groups 1 = group others 1 ∧ group groups 5 = group others 5 := by
  obtain ⟨low, s, dash, s', high, rfl, hlow, hs, hdash, hs', hhigh⟩ := fits_claimRange hfits
  obtain ⟨low', t, dash', t', high', rfl, hlow', ht, hdash', ht', hhigh'⟩ := fits_claimRange hothers
  have hmarks : ∀ dash ∈ ['-', '–', '—'], dash ∈ marks := by decide
  have hdigitNot : ∀ mark ∈ marks, ¬ U.isDigit mark = true := by
    intro mark hmark
    rw [hfacts.mark_digit mark hmark]
    exact Bool.false_ne_true
  have hspaceNot : ∀ mark ∈ marks, ¬ U.isSpace mark = true := by
    intro mark hmark
    rw [hfacts.mark_space mark hmark]
    exact Bool.false_ne_true
  have hblankNot : ∀ letter, U.isSpace letter = true → ¬ U.isDigit letter = true := by
    intro letter hspace hdigit
    rw [hfacts.digit_space letter hdigit] at hspace
    cases hspace
  have hnext : ∀ (blanks : Text) (mark : Char), Blanks U blanks →
      mark ∈ marks → ∃ first rest, (∀ text, blanks ++ mark :: text =
        first :: (rest ++ text)) ∧ ¬ U.isDigit first = true := by
    intro blanks mark hblanks hmark
    cases blanks with
    | nil => exact ⟨mark, [], fun text => rfl, hdigitNot mark hmark⟩
    | cons blank blanks =>
      refine ⟨blank, blanks ++ [mark], fun text => by simp,
        hblankNot blank (hblanks blank mem_cons_self)⟩
  have htext : ∀ (low s s' high : Text) (dash : Char),
      [['['], low, s, [dash], s', high, [']']].flatten =
        '[' :: (low ++ (s ++ dash :: (s' ++ (high ++ [']'])))) := by
    intro low s s' high dash
    simp
  rw [htext, htext] at hcompatible
  have hlows := hcompatible.head.2
  obtain ⟨first, rest, hsplit, hfirst⟩ := hnext s dash hs (hmarks _ hdash)
  obtain ⟨first', rest', hsplit', hfirst'⟩ := hnext t dash' ht (hmarks _ hdash')
  rw [hsplit, hsplit'] at hlows
  obtain ⟨rfl, hblanks⟩ := Compatible.run hlow.2 hlow'.2 hfirst hfirst' hlows
  rw [← hsplit, ← hsplit'] at hblanks
  have hdashes := (Compatible.run hs ht (hspaceNot _ (hmarks _ hdash))
    (hspaceNot _ (hmarks _ hdash')) hblanks).2
  have hhighs := hdashes.head.2
  obtain ⟨hne, hdigits⟩ := hhigh
  obtain ⟨hne', hdigits'⟩ := hhigh'
  cases high with
  | nil => exact absurd rfl hne
  | cons digit high =>
    cases high' with
    | nil => exact absurd rfl hne'
    | cons digit' high' =>
      have hdigit : ∀ digit, U.isDigit digit = true → ¬ U.isSpace digit = true := by
        intro digit hdigit
        rw [hfacts.digit_space digit hdigit]
        exact Bool.false_ne_true
      obtain ⟨-, hrest⟩ := Compatible.run hs' ht' (hdigit digit (hdigits digit mem_cons_self))
        (hdigit digit' (hdigits' digit' mem_cons_self)) hhighs
      have hclose := hdigitNot ']' (by decide)
      exact ⟨rfl, (Compatible.run hdigits hdigits' hclose hclose hrest).1⟩

theorem mem_rangeMarkers {member : ℕ} :
    member ∈ rangeMarkers U text ↔ ∃ groups,
      Fits (claimRange U).pieces groups ∧ groups.flatten <:+: text ∧
        member ∈ rangeMembers U groups := by
  rw [rangeMarkers, mem_flatMap]
  refine mem_findAll_iff (claimRange U) text
    (fun groups => member ∈ rangeMembers U groups) ?_ ?_
  · intro groups others hfits hothers
    obtain ⟨next, rest, hregion, -⟩ := (hfacts.written_range hfits).head
    rw [hregion]
    exact staysOutside_of_notMem (range_tail hfacts hothers)
  · intro groups others hfits hothers hcompatible hmember
    obtain ⟨hlow, hhigh⟩ := range_eq hfacts hfits hothers hcompatible
    rw [rangeMembers, ← hlow, ← hhigh]
    exact hmember

end

end Legba.CitationMarkers
