import Legba.CitationBorders

/-!
# Where two markers meet

A marker or a compound reference which begins where another one begins cites
the same numbers.  A reference in parentheses may hold a marker, and then that
marker is all that stands between the parentheses.
-/

namespace Legba.CitationMarkers

open RegexScan List

attribute [local instance (high)] List.decidableBAll

variable {U : CharClasses}

variable {number other block front behind : Text} {groups others : List Text}
  {first : Char}

theorem unit_compatible (hfacts : ClassFacts U) (hnumber : Digits U number)
    (hother : Digits U other) (hcompatible : Compatible (unitMarker number) (unitMarker other)) :
    number = other := by
  have hclose : ¬ U.isDigit ']' = true := by
    rw [hfacts.mark_digit ']' (by decide)]
    exact Bool.false_ne_true
  exact (Compatible.run hnumber.2 hother.2 hclose hclose hcompatible.head.2).1

theorem ref_compatible (hfacts : ClassFacts U) (hnumber : Digits U number) (hother : Digits U other)
    (hcompatible : Compatible (refMarker number) (refMarker other)) : number = other := by
  have hclose : ¬ U.isDigit ']' = true := by
    rw [hfacts.mark_digit ']' (by decide)]
    exact Bool.false_ne_true
  exact (Compatible.run hnumber.2 hother.2 hclose hclose
    hcompatible.head.2.head.2.head.2.head.2.head.2.head.2).1

theorem refMarker_append (number rest : Text) :
    refMarker number ++ rest = '[' :: '[' :: 'r' :: 'e' :: 'f' :: ':' ::
      (number ++ ']' :: ']' :: rest) := by
  rw [refMarker_eq]
  simp

section

variable (hfacts : ClassFacts U)

include hfacts

section

variable (hnumber : Digits U number)

include hnumber

theorem unit_tail : StaysOutside (number ++ [']']) ('[' :: block) := by
  refine staysOutside_of_notMem ?_
  rw [mem_append, not_or]
  exact ⟨hfacts.notMem_digits hnumber (by decide), by decide⟩

theorem unit_avoids (hother : Digits U other) (hne : number ≠ other) :
    Avoids (unitMarker number) (unitMarker other) := by
  have hcompatible : ¬ Compatible (unitMarker number) (unitMarker other) :=
    fun hcompatible => hne (unit_compatible hfacts hnumber hother hcompatible)
  exact ⟨(unit_tail hfacts hnumber).cons hcompatible,
    (unit_tail hfacts hother).cons fun hsymm => hcompatible hsymm.symm⟩

theorem ref_tail :
    StaysOutside ('[' :: 'r' :: 'e' :: 'f' :: ':' :: (number ++ [']', ']']))
      ('[' :: '[' :: block) := by
  refine staysOutside_of_once ?_ (cons_ne_nil _ _)
  have hnotMem := hfacts.notMem_digits hnumber (show '[' ∈ marks by decide)
  simp [hnotMem]

theorem ref_avoids (hother : Digits U other) (hne : number ≠ other) :
    Avoids (refMarker number) (refMarker other) := by
  have hcompatible : ¬ Compatible (refMarker number) (refMarker other) :=
    fun hcompatible => hne (ref_compatible hfacts hnumber hother hcompatible)
  exact ⟨(ref_tail hfacts hnumber).cons hcompatible,
    (ref_tail hfacts hother).cons fun hsymm => hcompatible hsymm.symm⟩

end

theorem range_avoids_unit (hfits : Fits (claimRange U).pieces groups)
    (hnumber : Digits U number) : Avoids groups.flatten (unitMarker number) := by
  obtain ⟨low, s, dash, s', high, rfl, hlow, hs, hdash, hs', hhigh⟩ := fits_claimRange hfits
  have hclose : ¬ U.isDigit ']' = true := by
    rw [hfacts.mark_digit ']' (by decide)]
    exact Bool.false_ne_true
  have hdashes : dash ∈ marks ∧ dash ≠ ']' ∧ dash ≠ '[' := by
    have hall : ∀ mark ∈ ['-', '–', '—'], mark ∈ marks ∧ mark ≠ ']' ∧ mark ≠ '[' := by decide
    exact hall dash hdash
  have hcompatible : ¬ Compatible
      ([['['], low, s, [dash], s', high, [']']].flatten)
      (unitMarker number) := by
    intro hcompatible
    have htail : Compatible (low ++ (s ++ dash :: (s' ++ (high ++ [']']))))
        (number ++ ']' :: []) := by
      have hhead := hcompatible.head.2
      simpa using hhead
    cases s with
    | nil =>
      have hnot : ¬ U.isDigit dash = true := by
        rw [hfacts.mark_digit dash hdashes.1]
        exact Bool.false_ne_true
      exact hdashes.2.1 (Compatible.run hlow.2 hnumber.2 hnot hclose htail).2.head.1
    | cons blank s =>
      have hblank : U.isSpace blank := hs blank mem_cons_self
      have hnot : ¬ U.isDigit blank = true := by
        intro hdigit
        rw [hfacts.digit_space blank hdigit] at hblank
        cases hblank
      have heq := (Compatible.run hlow.2 hnumber.2 hnot hclose htail).2.head.1
      rw [heq, hfacts.mark_space ']' (by decide)] at hblank
      cases hblank
  have htail : '[' ∉ [low, s, [dash], s', high, [']']].flatten := by
    have hbracket : '[' ∈ marks := by decide
    simp only [flatten_cons, flatten_nil, mem_append, mem_singleton, append_nil, not_or]
    exact ⟨hfacts.notMem_digits hlow hbracket, hfacts.notMem_blanks hs hbracket, hdashes.2.2.symm,
      hfacts.notMem_blanks hs' hbracket, hfacts.notMem_digits hhigh hbracket, by decide⟩
  exact ⟨(staysOutside_of_notMem htail).cons hcompatible,
    (unit_tail hfacts hnumber).cons fun hsymm => hcompatible hsymm.symm⟩

end

theorem ref_name {name : Text} (hname : ref U name) :
    ∃ r e f, name = [r, e, f] ∧ U.same 'r' r = true := by
  obtain ⟨r, ef, rfl, hr, hef⟩ := word_cons_eq_true.mp hname
  obtain ⟨e, f, rfl, -, hf⟩ := word_cons_eq_true.mp hef
  obtain ⟨f, rest, rfl, -, hrest⟩ := word_cons_eq_true.mp hf
  rw [word_nil_eq_true] at hrest
  subst hrest
  exact ⟨r, e, f, rfl, hr⟩

theorem list_of_compatible (hfacts : ClassFacts U) {s name list left right : Text}
    {last : Char} (hs : Blanks U s) (hname : ref U name) (hlist : Numbers U list)
    (hnumber : Digits U number) (hlast : U.isDigit last = false)
    (hcompatible : Compatible (s ++ (name ++ ':' :: (list ++ last :: left))) ('r'
      :: 'e' :: 'f' :: ':' :: (number ++ ']' :: right))) :
    s = [] ∧ name = ['r', 'e', 'f'] ∧ list = number ∧ Compatible (last :: left) (']' :: right) := by
  cases s with
  | cons blank s =>
    have hblank := hs blank mem_cons_self
    rw [show blank = 'r' from hcompatible.head.1, hfacts.letter_space 'r' (by decide)] at hblank
    cases hblank
  | nil =>
    obtain ⟨r, e, f, rfl, -⟩ := ref_name hname
    obtain ⟨hr, hrest⟩ := hcompatible.head
    obtain ⟨he, hrest⟩ := hrest.head
    obtain ⟨hf, hrest⟩ := hrest.head
    exact ⟨rfl, by rw [hr, he, hf], list_eq_of_compatible hfacts hlist hnumber hlast hrest.head.2⟩

theorem flatten_compound (s name list : Text) :
    [['['], ['['], s, name, [':'], list, [']'], [']']].flatten =
      '[' :: '[' :: (s ++ (name ++ ':' :: (list ++ [']', ']']))) := by
  simp

theorem flatten_paren (s opening s' name list closing mid : Text) :
    [['('], s, opening, s', name, [':'], list, closing, mid, [')']].flatten =
      '(' :: (s ++ (opening ++ (s' ++ (name ++ ':' :: (list ++
        (closing ++ (mid ++ [')']))))))) := by
  simp

theorem comma_mem_of_two {list : Text} (hlist : numbers U 2 list) : ',' ∈ list := by
  by_contra hcomma
  have hcount := (numbers_eq_true.mp hlist).1
  have hsingle : list.splitOn ',' = [list] :=
    splitOnP_eq_singleton fun letter hletter => beq_false_of_ne
      fun heq => hcomma (heq ▸ hletter)
  rw [numbersOf, hsingle, map_singleton, length_singleton] at hcount
  omega

section

variable (hfacts : ClassFacts U) (hfits : Fits (compoundRefCitation U).pieces groups)

include hfacts hfits

theorem not_compatible_compound (hnumber : Digits U number) :
    ¬ Compatible groups.flatten (refMarker number) := by
  obtain ⟨s, name, list, rfl, hs, hname, hlist⟩ := fits_compoundRefCitation hfits
  intro hcompatible
  obtain ⟨-, -, rfl, -⟩ := list_of_compatible hfacts hs hname (numbers_letters
    hlist) hnumber (hfacts.mark_digit ']' (by decide)) hcompatible.head.2.head.2
  exact hfacts.notMem_digits hnumber (by decide) (comma_mem_of_two hlist)

theorem compound_tail (block : Text) :
    ∃ tail, groups.flatten = '[' :: '[' :: tail ∧
      StaysOutside ('[' :: tail) ('[' :: '[' :: block) := by
  obtain ⟨s, name, list, rfl, hs, hname, hlist⟩ := fits_compoundRefCitation hfits
  have hbracket : '[' ∈ marks := by decide
  refine ⟨_, flatten_compound s name list, staysOutside_of_once ?_ ?_⟩
  · simp only [mem_append, mem_cons, not_mem_nil, not_or]
    exact ⟨hfacts.notMem_blanks hs hbracket, hfacts.notMem_word (by decide)
      hname hbracket, by decide, hfacts.notMem_numbers (numbers_letters hlist)
      hbracket (by decide), by decide, by decide, not_false⟩
  · simp

theorem compound_avoids_ref (hnumber : Digits U number) :
    Avoids groups.flatten (refMarker number) := by
  have hcompatible := not_compatible_compound hfacts hfits hnumber
  obtain ⟨tail, htail, hstays⟩ := compound_tail hfacts hfits
    ('r' :: 'e' :: 'f' :: ':' :: (number ++ [']', ']']))
  rw [htail] at hcompatible ⊢
  exact ⟨hstays.cons hcompatible,
    (ref_tail hfacts hnumber).cons fun hsymm => hcompatible hsymm.symm⟩

end

/-! ## The punctuation of a part -/

/-- A part ends with `closing`, and before it only some marks stand. -/
def Closed (allowed closing : List Char) (region : Text) : Prop :=
  ∃ body, region = body ++ closing ∧ ∀ mark ∈ marks, mark ∉ allowed → mark ∉ body

theorem Closed.notMem {allowed closing : List Char} {region : Text}
    (hclosed : Closed allowed closing region) {mark : Char} (hmark : mark ∈ marks)
    (hallowed : mark ∉ allowed) (hclosing : mark ∉ closing) : mark ∉ region := by
  obtain ⟨body, rfl, hbody⟩ := hclosed
  rw [mem_append, not_or]
  exact ⟨hbody mark hmark hallowed, hclosing⟩

theorem Closed.eq_of_compatible {allowed ends rest : List Char} {last last' : Char} {region : Text}
    (hclosed : Closed allowed (last :: rest) region) (hother : Closed allowed (last' :: rest) other)
    (hends : ∀ mark ∈ ends, mark ∈ marks ∧ mark ∉ allowed) (hlast : last ∈ ends)
    (hlast' : last' ∈ ends) (hcompatible : Compatible region other) : region = other := by
  obtain ⟨body, rfl, hbody⟩ := hclosed
  obtain ⟨body', rfl, hbody'⟩ := hother
  have hnotMem : ∀ text : Text,
      (∀ mark ∈ marks, mark ∉ allowed → mark ∉ text) →
      ∀ letter ∈ text, letter ∉ ends := by
    intro text htext letter hletter hmem
    exact htext letter (hends letter hmem).1 (hends letter hmem).2 hletter
  obtain ⟨rfl, hrest⟩ := Compatible.run (hnotMem body hbody) (hnotMem body'
    hbody') (fun hmem => hmem hlast) (fun hmem => hmem hlast') hcompatible
  rw [hrest.head.1]

section

variable (hfacts : ClassFacts U)

include hfacts

theorem closed_compound (hfits : Fits (compoundRefCitation U).pieces groups) :
    Closed ['[', ':', ','] [']', ']'] groups.flatten := by
  obtain ⟨s, name, list, rfl, hs, hname, hlist⟩ := fits_compoundRefCitation hfits
  refine ⟨'[' :: '[' :: (s ++ (name ++ ':' :: list)), by simp,
    fun mark hmark hother => ?_⟩
  simp only [mem_cons, not_mem_nil, or_false, not_or] at hother
  simp only [mem_append, mem_cons, not_or]
  exact ⟨hother.1, hother.1, hfacts.notMem_blanks hs hmark, hfacts.notMem_word (by decide) hname
    hmark, hother.2.1, hfacts.notMem_numbers (numbers_letters hlist) hmark hother.2.2⟩

theorem closed_paren (hfits : Fits (parenRefCitation U).pieces groups) :
    Closed ['[', ']', ':', ',', '('] [')'] groups.flatten := by
  obtain ⟨s, opening, s', name, list, closing, mid, rfl, hs, ⟨-, hopens⟩,
    hs', hname, hlist, ⟨-, hcloses⟩, hmid⟩ := fits_parenRefCitation hfits
  refine ⟨'(' :: (s ++ (opening ++ (s' ++ (name ++ ':' :: (list ++
    (closing ++ mid)))))), by simp, fun mark hmark hother => ?_⟩
  simp only [mem_cons, not_mem_nil, or_false, not_or] at hother
  simp only [mem_append, mem_cons, not_or]
  exact ⟨hother.2.2.2.2, hfacts.notMem_blanks hs hmark, fun hmem => hother.1
    (hopens mark hmem), hfacts.notMem_blanks hs' hmark, hfacts.notMem_word (by
    decide) hname hmark, hother.2.2.1, hfacts.notMem_numbers (numbers_letters
    hlist) hmark hother.2.2.2.1, fun hmem => hother.2.1 (hcloses mark hmem),
    hfacts.notMem_blanks hmid hmark⟩

theorem closed_variantRef (hfits : Fits (variantRefCitation U).pieces groups) :
    ∃ last ∈ closeBrackets, Closed (['[', ']', ':'] ++ openBrackets) [last] groups.flatten := by
  obtain ⟨first, s, bracket, s', name, mid, number, mid', bracket', trail,
    last, rfl, hfirst, hs, hbracket, hs', hname, hmid, hnumber, hmid',
    hbracket', htrail, hlast⟩ := fits_variantRefCitation hfits
  refine ⟨last, hlast, first :: (s ++ (bracket ++ (s' ++ (name ++ ':' ::
    (mid ++ (number ++ (mid' ++ (bracket' ++ trail)))))))), by simp,
    fun mark hmark hother => ?_⟩
  simp only [mem_append, mem_cons, not_mem_nil, or_false, not_or] at hother
  obtain ⟨⟨hopen, hclose, hcolon⟩, hfirsts⟩ := hother
  have hbrackets : mark ∉ bracket := by
    rcases hbracket with rfl | rfl
    · exact not_mem_nil
    · exact fun hmem => hopen (mem_singleton.mp hmem)
  have hbrackets' : mark ∉ bracket' := by
    rcases hbracket' with rfl | rfl
    · exact not_mem_nil
    · exact fun hmem => hclose (mem_singleton.mp hmem)
  simp only [mem_append, mem_cons, not_or]
  exact ⟨fun heq => hfirsts (heq ▸ hfirst), hfacts.notMem_blanks hs hmark, hbrackets,
    hfacts.notMem_blanks hs' hmark, hfacts.notMem_word (by decide) hname hmark, hcolon,
    hfacts.notMem_blanks hmid hmark, hfacts.notMem_digits hnumber hmark, hfacts.notMem_blanks hmid'
    hmark, hbrackets', hfacts.notMem_blanks htrail hmark⟩

theorem closed_asciiNoCitation (hfits : Fits (asciiNoCitation U).pieces groups) :
    Closed ['[', '_', '-'] [']'] groups.flatten := by
  obtain ⟨s, no, joint, citation, s', rfl, hs, hno, ⟨-, hjoint⟩, hcitation,
    hs'⟩ := fits_asciiNoCitation hfits
  refine ⟨'[' :: (s ++ (no ++ (joint ++ (citation ++ s')))), by simp,
    fun mark hmark hother => ?_⟩
  simp only [mem_cons, not_mem_nil, or_false, not_or] at hother
  have hjoints : mark ∉ joint := by
    intro hmem
    rcases hjoint mark hmem with hspace | hpair
    · rw [hfacts.mark_space mark hmark] at hspace
      cases hspace
    · exact (mem_pair.mp hpair).elim hother.2.1 hother.2.2
  simp only [mem_append, mem_cons, not_or]
  exact ⟨hother.1, hfacts.notMem_blanks hs hmark, hfacts.notMem_word (by decide) hno hmark, hjoints,
    hfacts.notMem_word (by decide) hcitation hmark, hfacts.notMem_blanks hs' hmark⟩

theorem notMem_annotationPart (hchanged : variantAnnotationRe.Changed (annotationText U) groups)
    {mark : Char} (hmark : mark ∈ marks)
    (hother : mark ∉ ['_', '-'] ++ (openBrackets ++ closeBrackets)) : mark ∉ groups.flatten := by
  obtain ⟨first, token, last, rfl, hfirst, -, hlast, hknown, -⟩ := known_of_changed hchanged
  rw [mem_append, mem_append, not_or, not_or] at hother
  simp only [flatten_cons, flatten_nil, mem_append, mem_singleton, append_nil, not_or]
  exact ⟨fun heq => hother.2.1 (heq ▸ hfirst), notMem_annotationToken hfacts
    hknown hmark hother.1, fun heq => hother.2.2 (heq ▸ hlast)⟩

theorem open_notMem_compound (hfits : Fits (compoundRefCitation U).pieces groups)
    (hfirst : first ∈ openBrackets) : first ∉ groups.flatten := by
  have hmarks : ∀ first ∈ openBrackets, first ∈ marks ∧
      first ∉ ['[', ':', ','] ∧ first ∉ [']', ']'] := by
    decide
  obtain ⟨hmark, hallowed, hclosing⟩ := hmarks first hfirst
  exact (closed_compound hfacts hfits).notMem hmark hallowed hclosing

theorem open_notMem_paren (hfits : Fits (parenRefCitation U).pieces groups)
    (hfirst : first ∈ openBrackets) : first ∉ groups.flatten := by
  have hmarks : ∀ first ∈ openBrackets, first ∈ marks ∧
      first ∉ ['[', ']', ':', ',', '('] ∧ first ∉ [')'] := by
    decide
  obtain ⟨hmark, hallowed, hclosing⟩ := hmarks first hfirst
  exact (closed_paren hfacts hfits).notMem hmark hallowed hclosing

end

/-! ## References in parentheses -/

theorem eq_of_length_le_two {text : Text} {letter : Char}
    (hlength : text.length ≤ 2) (htext : ∀ other ∈ text, other = letter) :
    text = [] ∨ text = [letter] ∨ text = [letter, letter] := by
  have hreplicate := eq_replicate_iff.mpr ⟨rfl, htext⟩
  generalize text.length = count at hlength hreplicate
  match count with
  | 0 => exact .inl hreplicate
  | 1 => exact .inr (.inl hreplicate)
  | 2 => exact .inr (.inr hreplicate)

section

variable (hfacts : ClassFacts U)

include hfacts

theorem blanks_close {blanks : Text} (hblanks : Blanks U blanks) :
    ∃ last left, blanks ++ [')'] = last :: left ∧ last ≠ ']' ∧ U.isDigit last = false := by
  cases blanks with
  | nil => exact ⟨')', [], rfl, by decide, hfacts.mark_digit ')' (by decide)⟩
  | cons blank blanks =>
    have hblank := hblanks blank mem_cons_self
    refine ⟨blank, blanks ++ [')'], rfl, ?_, ?_⟩
    · rintro rfl
      rw [hfacts.mark_space ']' (by decide)] at hblank
      cases hblank
    · rw [← Bool.not_eq_true]
      intro hdigit
      rw [hfacts.digit_space blank hdigit] at hblank
      cases hblank

theorem numbersOf_digits (hnumber : Digits U number) : numbersOf U number = [number] := by
  have hspace : ∀ letter ∈ number, ¬ U.isSpace letter = true := by
    intro letter hletter
    rw [hfacts.digit_space letter (hnumber.2 letter hletter)]
    exact Bool.false_ne_true
  have hsplit : number.splitOn ',' = [number] :=
    splitOnP_eq_singleton fun letter hletter => beq_false_of_ne
      fun heq => hfacts.notMem_digits hnumber (by decide) (heq ▸ hletter)
  have hfront : number.dropWhile U.isSpace = number :=
    dropWhile_eq_self_iff.mpr fun hpos => hspace _ (getElem_mem hpos)
  rw [numbersOf, hsplit, map_singleton, strip, Words.strip, hfront,
    rdropWhile_eq_self_iff.mpr fun hne => hspace _ (getLast_mem hne)]

theorem paren_front (hfits : Fits (parenRefCitation U).pieces groups)
    (hsplit : groups.flatten = front ++ behind) (hbehind : behind ≠ [])
    (hcompatible : Compatible behind ('[' :: '[' :: block)) :
    ∃ s s' name list closing mid,
      groups = [['('], s, ['[', '['], s', name, [':'], list, closing, mid,
        [')']] ∧ Blanks U s ∧ Blanks U s' ∧ ref U name = true ∧
      Numbers U list ∧
      (closing = [] ∨ closing = [']'] ∨ closing = [']', ']']) ∧
      Blanks U mid ∧ front = '(' :: s ∧
      behind = '[' :: '[' :: (s' ++ (name ++ ':' :: (list ++ (closing ++ (mid ++ [')']))))) ∧
      Compatible (s' ++ (name ++ ':' :: (list ++ (closing ++ (mid ++ [')']))))) block := by
  obtain ⟨s, opening, s', name, list, closing, mid, rfl, hs,
    ⟨hopening, hopens⟩, hs', hname, hlist, ⟨hclosing, hcloses⟩, hmid⟩ :=
    fits_parenRefCitation hfits
  have hbracket : '[' ∈ marks := by decide
  have hfront : '[' ∉ '(' :: s := by
    rw [mem_cons, not_or]
    exact ⟨by decide, hfacts.notMem_blanks hs hbracket⟩
  rw [flatten_paren, ← cons_append] at hsplit
  generalize htail : s' ++ (name ++ ':' :: (list ++ (closing ++ (mid ++ [')'])))) = tail at hsplit
  have hnotMem : '[' ∉ tail := by
    have hclosed : '[' ∉ closing := fun hmem => absurd (hcloses _ hmem) (by decide)
    rw [← htail]
    simp only [mem_append, mem_cons, not_mem_nil, not_or]
    exact ⟨hfacts.notMem_blanks hs' hbracket, hfacts.notMem_word (by decide) hname hbracket, by
      decide, hfacts.notMem_numbers (numbers_letters hlist) hbracket (by decide), hclosed,
      hfacts.notMem_blanks hmid hbracket, by decide, not_false⟩
  have hne : tail ≠ [] := by
    rw [← htail]
    simp
  rcases eq_of_length_le_two hopening hopens with rfl | rfl | rfl
  · exact absurd hcompatible (StaysOutside.append hfront
      (staysOutside_of_notMem hnotMem) front behind hsplit hbehind)
  · exact absurd hcompatible (StaysOutside.append hfront
      (staysOutside_of_once hnotMem hne) front behind hsplit hbehind)
  · obtain ⟨rfl, rfl⟩ := eq_of_compatible hfront
      (staysOutside_of_once hnotMem hne) hsplit hbehind hcompatible
    refine ⟨s, s', name, list, closing, mid, rfl, hs, hs', hname, numbers_letters
      hlist, eq_of_length_le_two hclosing hcloses, hmid, rfl, ?_, ?_⟩
    · rw [htail]
    · rw [htail]
      exact hcompatible.head.2.head.2

theorem paren_cut (hfits : Fits (parenRefCitation U).pieces groups) {rest : Text}
    (hnumber : Digits U number) (hsplit : groups.flatten = front ++ behind) (hbehind : behind ≠ [])
    (hcompatible : Compatible behind (refMarker number ++ rest)) :
    ∃ s s', Blanks U s ∧ Blanks U s' ∧ front = '(' :: s ∧
      behind = refMarker number ++ (s' ++ [')']) ∧
      numbersOf U (group groups 6) = [number] ∧
      Compatible (s' ++ [')']) rest := by
  rw [refMarker_append] at hcompatible
  obtain ⟨s, s', name, list, closing, mid, rfl, hs, hs', hname, hlist,
    hclosing, hmid, rfl, rfl, hinner⟩ :=
    paren_front hfacts hfits hsplit hbehind hcompatible
  obtain ⟨last, left, hlast, hother, hdigit⟩ := blanks_close hfacts hmid
  rcases hclosing with rfl | rfl | rfl
  · rw [nil_append, hlast] at hinner
    obtain ⟨-, -, -, hrest⟩ := list_of_compatible hfacts hs' hname hlist hnumber hdigit hinner
    exact absurd hrest.head.1 hother
  · obtain ⟨-, -, -, hrest⟩ := list_of_compatible hfacts hs' hname hlist
      hnumber (hfacts.mark_digit ']' (by decide)) hinner
    have hnext : Compatible (mid ++ [')']) (']' :: rest) := hrest.head.2
    rw [hlast] at hnext
    exact absurd hnext.head.1 hother
  · obtain ⟨rfl, rfl, rfl, hrest⟩ := list_of_compatible hfacts hs' hname
      hlist hnumber (hfacts.mark_digit ']' (by decide)) hinner
    refine ⟨s, mid, hs, hmid, rfl, ?_, numbersOf_digits hfacts hnumber, hrest.head.2.head.2⟩
    rw [refMarker_append]
    rfl

theorem not_mem_refs {numbers : List Text} (hnumbers : ∀ number ∈ numbers, Digits U number) :
    '(' ∉ numbers.flatMap refMarker := by
  intro hmem
  obtain ⟨number, hnumber, hletter⟩ := mem_flatMap.mp hmem
  exact (hfacts.written_ref (hnumbers number hnumber)).clean '(' hletter mem_cons_self

section

variable (hfits : Fits (parenRefCitation U).pieces groups)

include hfits

theorem paren_avoids_ref (hnumber : Digits U number)
    (hother : numbersOf U (group groups 6) ≠ [number]) :
    Avoids groups.flatten (refMarker number) := by
  obtain ⟨⟨tail, htail⟩, -⟩ := region_parenRefCitation hfacts hfits
  constructor
  · intro front behind hsplit hbehind hcompatible
    rw [← append_nil (refMarker number)] at hcompatible
    obtain ⟨-, -, -, -, -, -, hnumbers, -⟩ :=
      paren_cut hfacts hfits hnumber hsplit hbehind hcompatible
    exact hother hnumbers
  · rw [htail]
    refine staysOutside_of_notMem fun hmem => ?_
    exact (hfacts.written_ref hnumber).clean '(' hmem mem_cons_self

theorem paren_avoids_refs {numbers : List Text} (hnumbers : ∀ number ∈ numbers, Digits U number)
    (hcount : 2 ≤ numbers.length) : Avoids groups.flatten (numbers.flatMap refMarker) := by
  obtain ⟨⟨tail, htail⟩, -⟩ := region_parenRefCitation hfacts hfits
  constructor
  · intro front behind hsplit hbehind hcompatible
    match numbers, hcount with
    | number :: other :: rest, _ =>
      have hnumber := hnumbers number mem_cons_self
      obtain ⟨-, s', -, hs', -, -, -, hrest⟩ :=
        paren_cut hfacts hfits hnumber hsplit hbehind hcompatible
      cases s' with
      | nil => exact absurd hrest.head.1 (by decide)
      | cons blank s' =>
        have hblank := hs' blank mem_cons_self
        rw [show blank = '[' from hrest.head.1, hfacts.mark_space '[' (by decide)] at hblank
        cases hblank
  · rw [htail]
    exact staysOutside_of_notMem (not_mem_refs hfacts hnumbers)

theorem paren_compound (hothers : Fits (compoundRefCitation U).pieces others)
    (hsplit : groups.flatten = front ++ behind) (hbehind : behind ≠ [])
    (hcompatible : Compatible behind others.flatten) : group groups 6 = group others 5 := by
  obtain ⟨t, other, list', rfl, ht, hother, hlist'⟩ := fits_compoundRefCitation hothers
  obtain ⟨s, s', name, list, closing, mid, rfl, hs, hs', hname, hlist,
    hclosing, hmid, -, -, hinner⟩ :=
    paren_front hfacts hfits hsplit hbehind hcompatible
  obtain ⟨r, e, f, rfl, hr⟩ := ref_name hname
  obtain ⟨r', e', f', rfl, hr'⟩ := ref_name hother
  have hspace : ∀ letter, U.same 'r' letter = true → ¬ U.isSpace letter = true := by
    intro letter hsame
    rw [hfacts.same_space 'r' (by decide) letter hsame]
    exact Bool.false_ne_true
  obtain ⟨-, hrest⟩ := Compatible.run hs' ht (hspace r hr) (hspace r' hr') hinner
  have hlists := hrest.head.2.head.2.head.2.head.2
  have hstop : ∀ mark ∈ [']', ')'], ¬ (U.isDigit mark = true ∨
      U.isSpace mark = true ∨ mark = ',') := by
    intro mark hmark
    have hmarks : ∀ mark ∈ [']', ')'], mark ∈ marks ∧ mark ≠ ',' := by decide
    obtain ⟨hmem, hcomma⟩ := hmarks mark hmark
    rw [hfacts.mark_digit mark hmem, hfacts.mark_space mark hmem]
    simp [hcomma]
  have hnumbers := numbers_letters hlist'
  rcases hclosing with rfl | rfl | rfl
  · have hblank : Numbers U (list ++ mid) := by
      intro letter hletter
      exact (mem_append.mp hletter).elim (hlist letter)
        fun hmem => .inr (.inl (hmid letter hmem))
    have happend : Compatible ((list ++ mid) ++ ')' :: []) (list' ++ ']' :: [']']) := by
      rw [append_assoc]
      exact hlists
    exact absurd (Compatible.run hblank hnumbers (hstop ')' (by decide))
      (hstop ']' (by decide)) happend).2.head.1 (by decide)
  · exact (Compatible.run hlist hnumbers (hstop ']' (by decide)) (hstop ']' (by decide)) hlists).1
  · exact (Compatible.run hlist hnumbers (hstop ']' (by decide)) (hstop ']' (by decide)) hlists).1

theorem paren_avoids_compound (hothers : Fits (compoundRefCitation U).pieces others)
    (hne : group groups 6 ≠ group others 5) : Avoids groups.flatten others.flatten := by
  obtain ⟨⟨tail, htail⟩, -⟩ := region_parenRefCitation hfacts hfits
  refine ⟨fun front behind hsplit hbehind hcompatible =>
    hne (paren_compound hfacts hfits hothers hsplit hbehind hcompatible), ?_⟩
  rw [htail]
  exact staysOutside_of_notMem ((closed_compound hfacts hothers).notMem
    (by decide) (by decide) (by decide))

end

theorem compound_avoids_variantRef (hfits : Fits (compoundRefCitation U).pieces groups)
    (hothers : Fits (variantRefCitation U).pieces others) :
    Avoids groups.flatten others.flatten := by
  obtain ⟨⟨first, tail, htail, hfirst⟩, hregion⟩ := region_variantRefCitation hfacts hothers
  obtain ⟨⟨rest, hrest⟩, -⟩ := region_compoundRefCitation hfacts hfits
  constructor
  · rw [htail]
    exact staysOutside_of_notMem (open_notMem_compound hfacts hfits hfirst)
  · rw [hrest]
    exact hregion.followed_one.staysOutside (hfacts.not_leads_mark (by decide) (by decide))

theorem paren_avoids_variantRef (hfits : Fits (parenRefCitation U).pieces groups)
    (hothers : Fits (variantRefCitation U).pieces others) :
    Avoids groups.flatten others.flatten := by
  obtain ⟨⟨first, tail, htail, hfirst⟩, -⟩ := region_variantRefCitation hfacts hothers
  obtain ⟨⟨rest, hrest⟩, -⟩ := region_parenRefCitation hfacts hfits
  constructor
  · rw [htail]
    exact staysOutside_of_notMem (open_notMem_paren hfacts hfits hfirst)
  · rw [hrest]
    obtain ⟨last, hlast, hclosed⟩ := closed_variantRef hfacts hothers
    have hne : ∀ last ∈ closeBrackets, '(' ∉ [last] := by decide
    exact staysOutside_of_notMem (hclosed.notMem (by decide) (by decide) (hne last hlast))

theorem paren_avoids_annotationPart (hfits : Fits (parenRefCitation U).pieces groups)
    (hothers : variantAnnotationRe.Changed (annotationText U) others) :
    Avoids groups.flatten others.flatten := by
  obtain ⟨⟨rest, hrest⟩, -⟩ := region_parenRefCitation hfacts hfits
  constructor
  · obtain ⟨first, token, last, rfl, hfirst, -⟩ := known_of_changed hothers
    exact staysOutside_of_notMem (open_notMem_paren hfacts hfits hfirst)
  · rw [hrest]
    exact staysOutside_of_notMem (notMem_annotationPart hfacts hothers (by decide) (by decide))

theorem not_compatible_words {letter other : Char} (hletter : letter ∈ letters)
    (hother : other ∈ letters) (hne : letter ≠ other) {s s' left right : Text}
    {second : Char} (hs : Blanks U s) (hs' : Blanks U s')
    (hfirst : U.same letter first) (hsecond : U.same other second) :
    ¬ Compatible (s ++ first :: left) (s' ++ second :: right) := by
  intro hcompatible
  have hblank : ∀ letter ∈ letters, ∀ next, U.same letter next = true →
      ¬ U.isSpace next = true := by
    intro letter hletter next hsame
    rw [hfacts.same_space letter hletter next hsame]
    exact Bool.false_ne_true
  obtain ⟨-, hrest⟩ := Compatible.run hs hs' (hblank letter hletter _ hfirst)
    (hblank other hother _ hsecond) hcompatible
  rw [hrest.head.1] at hfirst
  exact hne (hfacts.same_apart letter hletter other hother second hfirst hsecond)

theorem paren_avoids_asciiNoCitation (hfits : Fits (parenRefCitation U).pieces groups)
    (hothers : Fits (asciiNoCitation U).pieces others) : Avoids groups.flatten others.flatten := by
  have hparen := (closed_asciiNoCitation hfacts hothers).notMem
    (show '(' ∈ marks by decide) (by decide) (by decide)
  obtain ⟨⟨rest, hrest⟩, -⟩ := region_parenRefCitation hfacts hfits
  refine ⟨?_, hrest ▸ staysOutside_of_notMem hparen⟩
  obtain ⟨t, no, joint, citation, t', rfl, ht, hno, -, -, -⟩ := fits_asciiNoCitation hothers
  obtain ⟨n, o, rfl, hn, -⟩ := word_cons_eq_true.mp hno
  obtain ⟨s, opening, s', name, list, closing, mid, rfl, hs,
    ⟨hopening, hopens⟩, hs', hname, hlist, ⟨-, hcloses⟩, hmid⟩ :=
    fits_parenRefCitation hfits
  obtain ⟨r, e, f, rfl, hr⟩ := ref_name hname
  have hbracket : '[' ∈ marks := by decide
  have hfront : '[' ∉ '(' :: s := by
    rw [mem_cons, not_or]
    exact ⟨by decide, hfacts.notMem_blanks hs hbracket⟩
  have htail : '[' ∉ s' ++ ([r, e, f] ++ ':' :: (list ++ (closing ++ (mid ++ [')'])))) := by
    have hclosed : '[' ∉ closing := fun hmem => absurd (hcloses _ hmem) (by decide)
    simp only [mem_append, mem_cons, not_mem_nil, not_or]
    have hnames := hfacts.notMem_word (by decide) hname hbracket
    simp only [mem_cons, not_mem_nil, not_or] at hnames
    exact ⟨hfacts.notMem_blanks hs' hbracket, hnames, by decide,
      hfacts.notMem_numbers (numbers_letters hlist) hbracket (by decide),
      hclosed, hfacts.notMem_blanks hmid hbracket, by decide, not_false⟩
  have hblock : [['['], t, n :: o, joint, citation, t', [']']].flatten =
      '[' :: (t ++ n :: (o ++ (joint ++ (citation ++ (t' ++ [']']))))) := by
    simp
  rw [flatten_paren, hblock, ← cons_append]
  have hone : StaysOutside ('[' :: (s' ++ ([r, e, f] ++ ':' :: (list ++
      (closing ++ (mid ++ [')'])))))) ('[' :: (t ++ n :: (o ++ (joint ++
        (citation ++ (t' ++ [']'])))))) :=
    (staysOutside_of_notMem htail).cons fun hcompatible =>
      not_compatible_words hfacts (by decide) (by decide) (by decide) hs' ht
        hr hn hcompatible.head.2
  refine StaysOutside.append hfront ?_
  rcases eq_of_length_le_two hopening hopens with rfl | rfl | rfl
  · exact staysOutside_of_notMem htail
  · exact hone
  · refine hone.cons fun hcompatible => ?_
    have hnext := hcompatible.head.2
    cases t with
    | nil =>
      have heq : '[' = n := hnext.head.1
      exact hfacts.same_mark 'n' (by decide) n hn (heq ▸ hbracket)
    | cons blank t =>
      have hblank := ht blank mem_cons_self
      rw [← show '[' = blank from hnext.head.1, hfacts.mark_space '[' hbracket] at hblank
      cases hblank

theorem asciiNoCitation_eq_or_avoids (hfits : Fits (asciiNoCitation U).pieces groups) :
    groups.flatten = noCitationMarker ∨ Avoids groups.flatten noCitationMarker := by
  by_cases hcompatible : Compatible groups.flatten noCitationMarker
  · left
    have hmarker : Closed ['[', '_', '-'] [']'] noCitationMarker :=
      ⟨"[no citation".toList, by decide, by decide⟩
    exact (closed_asciiNoCitation hfacts hfits).eq_of_compatible hmarker (show ∀
      mark ∈ [']'], _ from by decide) (by decide) (by decide) hcompatible
  · right
    obtain ⟨first, tail, hregion, -, htail, -⟩ := region_asciiNoCitation hfacts hfits
    have hwritten : noCitationMarker = '[' :: "no citation]".toList := by decide
    obtain ⟨s, no, joint, citation, s', rfl, -⟩ := fits_asciiNoCitation hfits
    obtain ⟨rfl, rfl⟩ := cons_eq_cons.mp hregion.symm
    exact ⟨(staysOutside_of_notMem htail).cons hcompatible,
      (staysOutside_of_notMem (by decide)).cons fun hsymm => hcompatible hsymm.symm⟩

end

end Legba.CitationMarkers
