import Legba.CitationMarkers

/-!
# The parts which the patterns fit

Every part which a pattern fits begins with an opening bracket, and what
follows a square bracket in it is never a digit.  So it can share no letter with
a marker: the two would begin, or go on after a bracket, alike.
-/

namespace Legba.CitationMarkers

open RegexScan List

attribute [local instance (high)] List.decidableBAll

def marks : List Char :=
  ['[', ']', '(', ')', ',', ':', '†', '-', '–', '—', '‑', '_'] ++ openBrackets ++ closeBrackets

def letters : List Char := "abcdefghijklmnopqrstuvwxyz".toList

structure ClassFacts (U : CharClasses) : Prop where
  digit_space : ∀ other, U.isDigit other = true → U.isSpace other = false
  mark_digit : ∀ mark ∈ marks, U.isDigit mark = false
  mark_space : ∀ mark ∈ marks, U.isSpace mark = false
  letter_digit : ∀ letter ∈ letters, U.isDigit letter = false
  letter_space : ∀ letter ∈ letters, U.isSpace letter = false
  same_digit : ∀ letter ∈ letters, ∀ other, U.same letter other = true → U.isDigit other = false
  same_mark : ∀ letter ∈ letters, ∀ other, U.same letter other = true → other ∉ marks
  same_space : ∀ letter ∈ letters, ∀ other, U.same letter other = true → U.isSpace other = false
  same_self : ∀ letter ∈ letters, U.same letter letter = true
  same_apart : ∀ letter ∈ letters, ∀ other ∈ letters, ∀ next,
    U.same letter next = true → U.same other next = true → letter = other
  fold_mark : ∀ mark ∈ marks, mark ∈ U.casefold mark

variable {U : CharClasses}

variable {letter : Char} {text : Text}

@[simp] theorem isOneOf_eq_true {some : List Char} :
    isOneOf some letter = true ↔ letter ∈ some := contains_iff_mem

@[simp] theorem isOpen_eq_true : isOpen letter = true ↔ letter ∈ openBrackets := contains_iff_mem

@[simp] theorem isClose_eq_true : isClose letter = true ↔ letter ∈ closeBrackets := contains_iff_mem

/-! ## Digits and blanks -/

def Digits (U : CharClasses) (text : Text) : Prop :=
  text ≠ [] ∧ ∀ letter ∈ text, U.isDigit letter = true

def Blanks (U : CharClasses) (text : Text) : Prop :=
  ∀ letter ∈ text, U.isSpace letter = true

def Numbers (U : CharClasses) (text : Text) : Prop :=
  ∀ letter ∈ text, U.isDigit letter = true ∨ U.isSpace letter = true ∨ letter = ','

namespace ClassFacts

variable (hfacts : ClassFacts U)

include hfacts

variable {text : Text} {mark : Char}

theorem notMem_digits (hdigits : Digits U text) (hmark : mark ∈ marks) : mark ∉ text := fun hmem =>
  Bool.false_ne_true ((hfacts.mark_digit mark hmark).symm.trans (hdigits.2 mark hmem))

theorem notMem_blanks (hblanks : Blanks U text) (hmark : mark ∈ marks) : mark ∉ text := fun hmem =>
  Bool.false_ne_true ((hfacts.mark_space mark hmark).symm.trans (hblanks mark hmem))

theorem notMem_numbers (hnumbers : Numbers U text) (hmark : mark ∈ marks)
    (hcomma : mark ≠ ',') : mark ∉ text := by
  intro hmem
  rcases hnumbers mark hmem with hdigit | hspace | heq
  · rw [hfacts.mark_digit mark hmark] at hdigit
    cases hdigit
  · rw [hfacts.mark_space mark hmark] at hspace
    cases hspace
  · exact hcomma heq

theorem notMem_word {word : Text} (hword : ∀ letter ∈ word, letter ∈ letters)
    (htext : RegexScan.word U.same word text) (hmark : mark ∈ marks) : mark ∉ text := by
  induction word generalizing text with
  | nil =>
    rw [word_nil_eq_true] at htext
    rw [htext]
    exact not_mem_nil
  | cons letter word ih =>
    obtain ⟨other, behind, rfl, hsame, hbehind⟩ := word_cons_eq_true.mp htext
    rw [forall_mem_cons] at hword
    rw [mem_cons, not_or]
    refine ⟨?_, ih hword.2 hbehind⟩
    rintro rfl
    exact hfacts.same_mark letter hword.1 mark hsame hmark

end ClassFacts

theorem mem_of_mem_intersperse {blank letter : Text} {parts : List Text}
    (hletter : letter ∈ parts.intersperse blank) : letter = blank ∨ letter ∈ parts := by
  fun_induction intersperse blank parts with
  | case1 => cases hletter
  | case2 part => exact .inr hletter
  | case3 part next rest ih =>
    rw [mem_cons, mem_cons] at hletter
    rcases hletter with rfl | rfl | hrest
    · exact .inr mem_cons_self
    · exact .inl rfl
    · exact (ih hrest).imp_right (mem_cons_of_mem part)

theorem mem_splitOn (hletter : letter ∈ text) :
    letter = ',' ∨ ∃ part ∈ text.splitOn ',', letter ∈ part := by
  rw [← @List.intercalate_splitOn Char text _ _ ',', intercalate, mem_flatten] at hletter
  obtain ⟨part, hpart, hmem⟩ := hletter
  rcases mem_of_mem_intersperse hpart with rfl | hsplit
  · exact .inl (mem_singleton.mp hmem)
  · exact .inr ⟨part, hsplit, hmem⟩

theorem mem_strip (hletter : letter ∈ text) : letter ∈ strip U text ∨ U.isSpace letter = true := by
  have hends : ∀ {part : Text} {other : Char}, other ∈ part →
      other ∈ part.dropWhile U.isSpace ∨ U.isSpace other = true := by
    intro part other hother
    rw [← takeWhile_append_dropWhile (p := U.isSpace) (l := part), mem_append] at hother
    refine hother.symm.imp_right fun htaken => ?_
    exact (all_eq_true.mp all_takeWhile) other htaken
  rcases hends hletter with hmem | hspace
  · rcases hends (mem_reverse.mpr hmem) with hkept | hspace
    · exact .inl (mem_reverse.mpr hkept)
    · exact .inr hspace
  · exact .inr hspace

def numbersOf (U : CharClasses) (text : Text) : List Text :=
  (text.splitOn ',').map (strip U)

theorem numbersOf_ne_nil (text : Text) : numbersOf U text ≠ [] := by
  rw [numbersOf, ne_eq, map_eq_nil_iff]
  exact splitOn_ne_nil ',' text

theorem numbers_eq_true {least : ℕ} :
    numbers U least text = true ↔ least ≤ (numbersOf U text).length ∧
      ∀ number ∈ numbersOf U text, Digits U number := by
  rw [numbers, Bool.and_eq_true, decide_eq_true_iff, all_eq_true,
    numbersOf, length_map, forall_mem_map]
  exact and_congr_right fun _ => forall₂_congr fun _ _ => several_eq_true

theorem numbers_letters {least : ℕ} (htext : numbers U least text) : Numbers U text := by
  have hnumbers := (numbers_eq_true.mp htext).2
  intro letter hletter
  rcases mem_splitOn hletter with hcomma | ⟨part, hpart, hmem⟩
  · exact .inr (.inr hcomma)
  · rcases mem_strip (U := U) hmem with hkept | hspace
    · exact .inl ((hnumbers _ (mem_map_of_mem hpart)).2 letter hkept)
    · exact .inr (.inl hspace)

/-! ## The parts of each pattern -/

section

variable {groups : List Text}

theorem eq_of_length_le_one {text : Text} {letter : Char} (hlength : text.length ≤ 1)
    (htext : ∀ other ∈ text, other = letter) : text = [] ∨ text = [letter] := by
  match text with
  | [] => exact .inl rfl
  | [other] => exact .inr (by rw [htext other mem_cons_self])
  | first :: second :: rest =>
    simp only [length_cons] at hlength
    omega

theorem fits_claimMarker (hfits : Fits (claimMarker U).pieces groups) :
    ∃ number, groups = [['['], number, [']']] ∧ Digits U number := by
  simp only [claimMarker, fits_cons, fits_nil, one_eq_true, several_eq_true,
    isOneOf_eq_true, mem_singleton] at hfits
  obtain ⟨_, _, rfl, ⟨_, rfl, rfl⟩, number, _, rfl, hnumber, _, _, rfl, ⟨_, rfl, rfl⟩, rfl⟩ := hfits
  exact ⟨number, rfl, hnumber⟩

theorem fits_claimRange (hfits : Fits (claimRange U).pieces groups) :
    ∃ low before dash after high,
      groups = [['['], low, before, [dash], after, high, [']']] ∧
      Digits U low ∧ Blanks U before ∧ dash ∈ ['-', '–', '—'] ∧
      Blanks U after ∧ Digits U high := by
  simp only [claimRange, fits_cons, fits_nil, one_eq_true, several_eq_true,
    many_eq_true, isOneOf_eq_true, mem_singleton] at hfits
  obtain ⟨_, _, rfl, ⟨_, rfl, rfl⟩, low, _, rfl, hlow, before, _, rfl, hbefore, _, _, rfl, ⟨dash,
    rfl, hdash⟩, after, _, rfl, hafter, high, _, rfl, hhigh, _, _, rfl, ⟨_, rfl, rfl⟩, rfl⟩ := hfits
  exact ⟨low, before, dash, after, high, rfl, hlow, hbefore, hdash, hafter, hhigh⟩

theorem fits_variantCitation (hfits : Fits (variantCitation U).pieces groups) :
    ∃ first before number after last,
      groups = [[first], before, number, after, [last]] ∧
      first ∈ openBrackets ∧ Blanks U before ∧ Digits U number ∧
      Blanks U after ∧ last ∈ closeBrackets := by
  simp only [variantCitation, fits_cons, fits_nil, one_eq_true,
    several_eq_true, many_eq_true, isOpen_eq_true, isClose_eq_true] at hfits
  obtain ⟨_, _, rfl, ⟨first, rfl, hfirst⟩, before, _, rfl, hbefore, number, _, rfl,
    hnumber, after, _, rfl, hafter, _, _, rfl, ⟨last, rfl, hlast⟩, rfl⟩ := hfits
  exact ⟨first, before, number, after, last, rfl, hfirst, hbefore, hnumber, hafter, hlast⟩

theorem fits_parenCitationList (hfits : Fits (parenCitationList U).pieces groups) :
    ∃ list, groups = [['('], list, [')']] ∧ numbers U 2 list = true := by
  simp only [parenCitationList, fits_cons, fits_nil, one_eq_true,
    isOneOf_eq_true, mem_singleton] at hfits
  obtain ⟨_, _, rfl, ⟨_, rfl, rfl⟩, list, _, rfl, hlist, _, _, rfl, ⟨_, rfl, rfl⟩, rfl⟩ := hfits
  exact ⟨list, rfl, hlist⟩

theorem fits_variantRangeCitation (hfits : Fits (variantRangeCitation U).pieces groups) :
    ∃ first s low s' dash mid high mid' last,
      groups = [[first], s, low, s', [dash], mid, high, mid', [last]] ∧
      first ∈ openBrackets ∧ Blanks U s ∧ Digits U low ∧ Blanks U s' ∧
      dash ∈ ['-', '–', '—', '‑'] ∧ Blanks U mid ∧ Digits U high ∧
      Blanks U mid' ∧ last ∈ closeBrackets := by
  simp only [variantRangeCitation, fits_cons, fits_nil, one_eq_true, several_eq_true, many_eq_true,
    isOpen_eq_true, isClose_eq_true, isOneOf_eq_true] at hfits
  obtain ⟨_, _, rfl, ⟨first, rfl, hfirst⟩, s, _, rfl, hs, low, _, rfl, hlow, s',
    _, rfl, hs', _, _, rfl, ⟨dash, rfl, hdash⟩, mid, _, rfl, hmid, high, _, rfl,
    hhigh, mid', _, rfl, hmid', _, _, rfl, ⟨last, rfl, hlast⟩, rfl⟩ := hfits
  exact ⟨first, s, low, s', dash, mid, high, mid', last, rfl, hfirst, hs,
    hlow, hs', hdash, hmid, hhigh, hmid', hlast⟩

theorem fits_variantDaggerCitation (hfits : Fits (variantDaggerCitation U).pieces groups) :
    ∃ first before number after inner last,
      groups = [[first], before, number, after, ['†'], inner, [last]] ∧
      first ∈ openBrackets ∧ Blanks U before ∧ Digits U number ∧
      Blanks U after ∧ (∀ letter ∈ inner, letter ∉ closeBrackets) ∧
      last ∈ closeBrackets := by
  simp only [variantDaggerCitation, fits_cons, fits_nil, one_eq_true, several_eq_true, many_eq_true,
    isOpen_eq_true, isClose_eq_true, isOneOf_eq_true, mem_singleton] at hfits
  obtain ⟨_, _, rfl, ⟨first, rfl, hfirst⟩, before, _, rfl, hbefore, number, _,
    rfl, hnumber, after, _, rfl, hafter, _, _, rfl, ⟨_, rfl, rfl⟩, inner, _,
    rfl, hinner, _, _, rfl, ⟨last, rfl, hlast⟩, rfl⟩ := hfits
  refine ⟨first, before, number, after, inner, last, rfl, hfirst, hbefore,
    hnumber, hafter, fun letter hletter hclose => ?_, hlast⟩
  have hopen := hinner letter hletter
  rw [isClose_eq_true.mpr hclose] at hopen
  cases hopen

theorem fits_priorReadRef (hfits : Fits (priorReadRef U).pieces groups) :
    ∃ first s prior joint read s' ref mid colon mid' number trail last,
      groups = [[first], s, prior, joint, read, s', ref, mid, [colon], mid',
        number, trail, [last]] ∧
      first ∈ ['(', '['] ∧ Blanks U s ∧
      word U.same "prior".toList prior = true ∧
      (∀ letter ∈ joint, U.isSpace letter = true ∨ letter ∈ ['_', '-']) ∧
      word U.same "read".toList read = true ∧ Blanks U s' ∧
      (∃ name ∈ ["reference".toList, "ref".toList, []], word U.same name ref = true) ∧
      Blanks U mid ∧ (colon = ':' ∨ U.isSpace colon = true) ∧
      Blanks U mid' ∧ Digits U number ∧ Blanks U trail ∧
      last ∈ [')', ']'] := by
  simp only [priorReadRef, fits_cons, fits_nil, one_eq_true, several_eq_true,
    many_eq_true, isOneOf_eq_true, Bool.or_eq_true, beq_iff_eq] at hfits
  obtain ⟨_, _, rfl, ⟨first, rfl, hfirst⟩, s, _, rfl, hs, prior, _, rfl,
    hprior, joint, _, rfl, hjoint, read, _, rfl, hread, s', _, rfl, hs', name,
    _, rfl, hname, mid, _, rfl, hmid, _, _, rfl, ⟨colon, rfl, hcolon⟩, mid',
    _, rfl, hmid', number, _, rfl, hnumber, trail, _, rfl, htrail, _, _, rfl,
    ⟨last, rfl, hlast⟩, rfl⟩ := hfits
  refine ⟨first, s, prior, joint, read, s', name, mid, colon, mid', number, trail, last, rfl,
    hfirst, hs, hprior, hjoint, hread, hs', ?_, hmid, hcolon, hmid', hnumber, htrail, hlast⟩
  simp only [anyOf, any_cons, any_nil, Bool.or_false, Bool.or_eq_true] at hname
  rcases hname with hname | hname | hname
  · exact ⟨_, mem_cons_self, hname⟩
  · exact ⟨_, mem_cons_of_mem _ mem_cons_self, hname⟩
  · exact ⟨[], by simp, hname⟩

theorem fits_variantRefCitation (hfits : Fits (variantRefCitation U).pieces groups) :
    ∃ first s bracket s' name mid number mid' bracket' trail last,
      groups = [[first], s, bracket, s', name, [':'], mid, number, mid', bracket', trail, [last]] ∧
      first ∈ openBrackets ∧ Blanks U s ∧
      (bracket = [] ∨ bracket = ['[']) ∧ Blanks U s' ∧
      ref U name = true ∧ Blanks U mid ∧ Digits U number ∧ Blanks U mid' ∧
      (bracket' = [] ∨ bracket' = [']']) ∧ Blanks U trail ∧
      last ∈ closeBrackets := by
  simp only [variantRefCitation, fits_cons, fits_nil, one_eq_true, several_eq_true, many_eq_true,
    between_eq_true, isOneOf_eq_true, isOpen_eq_true, isClose_eq_true, mem_singleton] at hfits
  obtain ⟨_, _, rfl, ⟨first, rfl, hfirst⟩, s, _, rfl, hs, bracket, _, rfl,
    ⟨⟨-, hlength⟩, hbracket⟩, s', _, rfl, hs', name, _, rfl, hname, _, _, rfl,
    ⟨_, rfl, rfl⟩, mid, _, rfl, hmid, number, _, rfl, hnumber, mid', _, rfl,
    hmid', bracket', _, rfl, ⟨⟨-, hlength'⟩, hbracket'⟩, trail, _, rfl,
    htrail, _, _, rfl, ⟨last, rfl, hlast⟩, rfl⟩ := hfits
  exact ⟨first, s, bracket, s', name, mid, number, mid', bracket', trail, last,
    rfl, hfirst, hs, eq_of_length_le_one hlength hbracket, hs', hname, hmid,
    hnumber, hmid', eq_of_length_le_one hlength' hbracket', htrail, hlast⟩

theorem fits_compoundRefCitation (hfits : Fits (compoundRefCitation U).pieces groups) :
    ∃ s name list,
      groups = [['['], ['['], s, name, [':'], list, [']'], [']']] ∧
      Blanks U s ∧ ref U name = true ∧ numbers U 2 list = true := by
  simp only [compoundRefCitation, fits_cons, fits_nil, one_eq_true,
    many_eq_true, isOneOf_eq_true, mem_singleton] at hfits
  obtain ⟨_, _, rfl, ⟨_, rfl, rfl⟩, _, _, rfl, ⟨_, rfl, rfl⟩, s, _, rfl, hs,
    name, _, rfl, hname, _, _, rfl, ⟨_, rfl, rfl⟩, list, _, rfl, hlist, _, _,
    rfl, ⟨_, rfl, rfl⟩, _, _, rfl, ⟨_, rfl, rfl⟩, rfl⟩ := hfits
  exact ⟨s, name, list, rfl, hs, hname, hlist⟩

theorem fits_parenRefCitation (hfits : Fits (parenRefCitation U).pieces groups) :
    ∃ s opening s' name list closing mid,
      groups = [['('], s, opening, s', name, [':'], list, closing, mid, [')']] ∧
      Blanks U s ∧ (opening.length ≤ 2 ∧ ∀ letter ∈ opening, letter = '[') ∧
      Blanks U s' ∧ ref U name = true ∧ numbers U 1 list = true ∧
      (closing.length ≤ 2 ∧ ∀ letter ∈ closing, letter = ']') ∧
      Blanks U mid := by
  simp only [parenRefCitation, fits_cons, fits_nil, one_eq_true, many_eq_true,
    between_eq_true, isOneOf_eq_true, mem_singleton] at hfits
  obtain ⟨_, _, rfl, ⟨_, rfl, rfl⟩, s, _, rfl, hs, opening, _, rfl,
    ⟨⟨-, hlength⟩, hopening⟩, s', _, rfl, hs', name, _, rfl, hname, _, _, rfl,
    ⟨_, rfl, rfl⟩, list, _, rfl, hlist, closing, _, rfl,
    ⟨⟨-, hlength'⟩, hclosing⟩, mid, _, rfl, hmid, _, _, rfl, ⟨_, rfl, rfl⟩,
    rfl⟩ := hfits
  exact ⟨s, opening, s', name, list, closing, mid, rfl, hs,
    ⟨hlength, hopening⟩, hs', hname, hlist, ⟨hlength', hclosing⟩, hmid⟩

theorem fits_variantAnnotationRe (hfits : Fits variantAnnotationRe.pieces groups) :
    ∃ first token last, groups = [[first], token, [last]] ∧
      first ∈ openBrackets ∧ (1 ≤ token.length ∧ token.length ≤ 40) ∧
      (∀ letter ∈ token, letter ∉ closeBrackets) ∧
      last ∈ closeBrackets := by
  simp only [variantAnnotationRe, fits_cons, fits_nil, one_eq_true,
    between_eq_true, isOpen_eq_true, isClose_eq_true] at hfits
  obtain ⟨_, _, rfl, ⟨first, rfl, hfirst⟩, token, _, rfl, ⟨hlength, htoken⟩,
    _, _, rfl, ⟨last, rfl, hlast⟩, rfl⟩ := hfits
  refine ⟨first, token, last, rfl, hfirst, hlength, fun letter hletter hclose => ?_, hlast⟩
  have hopen := htoken letter hletter
  rw [isClose_eq_true.mpr hclose] at hopen
  cases hopen

theorem fits_asciiNoCitation (hfits : Fits (asciiNoCitation U).pieces groups) :
    ∃ s no joint citation s',
      groups = [['['], s, no, joint, citation, s', [']']] ∧ Blanks U s ∧
      word U.same "no".toList no = true ∧
      (joint.length ≤ 1 ∧ ∀ letter ∈ joint, U.isSpace letter = true ∨ letter ∈ ['_', '-']) ∧
      word U.same "citation".toList citation = true ∧ Blanks U s' := by
  simp only [asciiNoCitation, fits_cons, fits_nil, one_eq_true, many_eq_true,
    between_eq_true, isOneOf_eq_true, Bool.or_eq_true, mem_singleton] at hfits
  obtain ⟨_, _, rfl, ⟨_, rfl, rfl⟩, s, _, rfl, hs, no, _, rfl, hno, joint, _, rfl, ⟨⟨-, hlength⟩,
    hjoint⟩, citation, _, rfl, hcitation, s', _, rfl, hs', _, _, rfl, ⟨_, rfl, rfl⟩, rfl⟩ := hfits
  exact ⟨s, no, joint, citation, s', rfl, hs, hno, ⟨hlength, hjoint⟩, hcitation, hs'⟩

end

/-! ## What follows a square bracket -/

def Leads (U : CharClasses) (letter next : Char) : Prop :=
  U.isSpace next = true ∨ U.same letter next = true

theorem ref_cons {name : Text} (hname : ref U name) :
    ∃ first rest, name = first :: rest ∧ U.same 'r' first = true := by
  obtain ⟨first, rest, rfl, hsame, -⟩ := word_cons_eq_true.mp hname
  exact ⟨first, rest, rfl, hsame⟩

theorem cons_of_blanks_append {blanks : Text} {first : Char} (text : Text)
    (hblanks : Blanks U blanks) (hfirst : U.same letter first) :
    ∃ next rest, blanks ++ first :: text = next :: rest ∧ Leads U letter next := by
  cases blanks with
  | nil => exact ⟨first, text, rfl, .inr hfirst⟩
  | cons blank blanks =>
    exact ⟨blank, blanks ++ first :: text, rfl, .inl (hblanks blank mem_cons_self)⟩

def WordRegion (U : CharClasses) (letter : Char) (region : Text) : Prop :=
  ∃ first tail, region = first :: tail ∧ first ∈ ['(', '['] ∧ '[' ∉ tail ∧
    ∃ next rest, tail = next :: rest ∧ Leads U letter next

def BracketedRef (U : CharClasses) (depth : ℕ) (region : Text) : Prop :=
  ∃ head brackets tail,
    region = head ++ (List.replicate brackets '[' ++ tail) ∧
    '[' ∉ head ∧ brackets ≤ depth ∧ '[' ∉ tail ∧
    ∃ next rest, tail = next :: rest ∧ Leads U 'r' next

theorem followedBy_replicate {P : Char → Prop} {next : Char} {rest : Text}
    (htext : text = next :: rest) (hnotMem : '[' ∉ text) (hnext : P next) (hbracket : P '[')
    (brackets : ℕ) : FollowedBy '[' P (List.replicate brackets '[' ++ text) := by
  induction brackets with
  | zero => exact followedBy_of_notMem hnotMem
  | succ brackets ih =>
    rw [replicate_succ, cons_append]
    cases brackets with
    | zero =>
      subst htext
      exact FollowedBy.here hnext ih
    | succ brackets => exact FollowedBy.here hbracket ih

theorem BracketedRef.followed {depth : ℕ} {region : Text} (hregion : BracketedRef U depth region) :
    FollowedBy '[' (fun next => next = '[' ∨ Leads U 'r' next) region := by
  obtain ⟨head, brackets, tail, rfl, hhead, -, htail, next, rest, hnext, hleads⟩ := hregion
  exact FollowedBy.append hhead (followedBy_replicate hnext htail (.inr hleads) (.inl rfl) brackets)

theorem BracketedRef.followed_one {region : Text}
    (hregion : BracketedRef U 1 region) : FollowedBy '[' (Leads U 'r') region := by
  obtain ⟨head, brackets, tail, rfl, hhead, hbrackets, htail, next, rest, hnext, hleads⟩ := hregion
  refine FollowedBy.append hhead ?_
  match brackets with
  | 0 => exact followedBy_of_notMem htail
  | 1 =>
    subst hnext
    exact FollowedBy.here hleads (followedBy_of_notMem htail)
  | brackets + 2 => omega

section

variable {groups : List Text} (hfacts : ClassFacts U)

include hfacts

theorem region_priorReadRef (hfits : Fits (priorReadRef U).pieces groups) :
    WordRegion U 'p' groups.flatten := by
  obtain ⟨first, s, prior, joint, read, s', name, mid, colon, mid', number,
    trail, last, rfl, hfirst, hs, hprior, hjoint, hread, hs', hname, hmid,
    hcolon, hmid', hnumber, htrail, hlast⟩ := fits_priorReadRef hfits
  have hbracket : '[' ∈ marks := by decide
  have hpriors : '[' ∉ prior := hfacts.notMem_word (by decide) hprior hbracket
  have hjoints : '[' ∉ joint := by
    intro hmem
    rcases hjoint _ hmem with hspace | hmark
    · rw [hfacts.mark_space _ hbracket] at hspace
      cases hspace
    · revert hmark
      decide
  have hnames : '[' ∉ name := by
    obtain ⟨word, hword, hmatch⟩ := hname
    have hletters : ∀ word ∈ ["reference".toList, "ref".toList, []],
        ∀ letter ∈ word, letter ∈ letters := by
      decide
    exact hfacts.notMem_word (hletters word hword) hmatch hbracket
  have hcolons : '[' ≠ colon := by
    rintro rfl
    rcases hcolon with hcolon | hspace
    · revert hcolon
      decide
    · rw [hfacts.mark_space _ hbracket] at hspace
      cases hspace
  have hlasts : '[' ≠ last := by
    rintro rfl
    revert hlast
    decide
  rw [show "prior".toList = 'p' :: "rior".toList from rfl] at hprior
  obtain ⟨head, rior, rfl, hsame, -⟩ := word_cons_eq_true.mp hprior
  obtain ⟨next, rest, hnext, hleads⟩ := cons_of_blanks_append (rior ++
    flatten [joint, read, s', name, mid, [colon], mid', number, trail, [last]]) hs hsame
  refine ⟨first, flatten [s, head :: rior, joint, read, s', name, mid, [colon],
    mid', number, trail, [last]], rfl, hfirst, ?_, next, rest, hnext, hleads⟩
  simp only [flatten_cons, flatten_nil, mem_append, mem_singleton, append_nil, not_or]
  exact ⟨hfacts.notMem_blanks hs hbracket, hpriors, hjoints, hfacts.notMem_word (by decide) hread
    hbracket, hfacts.notMem_blanks hs' hbracket, hnames, hfacts.notMem_blanks hmid hbracket,
    hcolons, hfacts.notMem_blanks hmid' hbracket, hfacts.notMem_digits hnumber hbracket,
    hfacts.notMem_blanks htrail hbracket, hlasts⟩

theorem region_asciiNoCitation (hfits : Fits (asciiNoCitation U).pieces groups) :
    WordRegion U 'n' groups.flatten := by
  obtain ⟨s, no, joint, citation, s', rfl, hs, hno, ⟨-, hjoint⟩, hcitation,
    hs'⟩ := fits_asciiNoCitation hfits
  have hbracket : '[' ∈ marks := by decide
  have hnos : '[' ∉ no := hfacts.notMem_word (by decide) hno hbracket
  have hjoints : '[' ∉ joint := by
    intro hmem
    rcases hjoint _ hmem with hspace | hmark
    · rw [hfacts.mark_space _ hbracket] at hspace
      cases hspace
    · revert hmark
      decide
  rw [show "no".toList = 'n' :: "o".toList from rfl] at hno
  obtain ⟨head, o, rfl, hsame, -⟩ := word_cons_eq_true.mp hno
  obtain ⟨next, rest, hnext, hleads⟩ := cons_of_blanks_append
    (o ++ flatten [joint, citation, s', [']']]) hs hsame
  refine ⟨'[', flatten [s, head :: o, joint, citation, s', [']']], rfl,
    by decide, ?_, next, rest, hnext, hleads⟩
  simp only [flatten_cons, flatten_nil, mem_append, append_nil, not_or]
  exact ⟨hfacts.notMem_blanks hs hbracket, hnos, hjoints, hfacts.notMem_word (by
    decide) hcitation hbracket, hfacts.notMem_blanks hs' hbracket, by decide⟩

theorem region_variantRefCitation (hfits : Fits (variantRefCitation U).pieces groups) :
    (∃ first tail, groups.flatten = first :: tail ∧
      first ∈ openBrackets) ∧ BracketedRef U 1 groups.flatten := by
  obtain ⟨first, s, bracket, s', name, mid, number, mid', bracket', trail,
    last, rfl, hfirst, hs, hbrackets, hs', hname, hmid, hnumber, hmid',
    hbracket', htrail, hlast⟩ := fits_variantRefCitation hfits
  have hbracket : '[' ∈ marks := by decide
  have hnames : '[' ∉ name := hfacts.notMem_word (by decide) hname hbracket
  obtain ⟨head, ef, rfl, hsame⟩ := ref_cons hname
  obtain ⟨next, rest, hnext, hleads⟩ := cons_of_blanks_append (ef ++ flatten
    [[':'], mid, number, mid', bracket', trail, [last]]) hs' hsame
  have hfirsts : '[' ∉ first :: s := by
    rw [mem_cons, not_or]
    refine ⟨?_, hfacts.notMem_blanks hs hbracket⟩
    rintro rfl
    revert hfirst
    decide
  have hclosing : '[' ∉ bracket' := by
    rcases hbracket' with rfl | rfl <;> decide
  have hlasts : '[' ≠ last := by
    rintro rfl
    revert hlast
    decide
  have htail : '[' ∉ flatten [s', head :: ef, [':'], mid, number, mid',
      bracket', trail, [last]] := by
    simp only [flatten_cons, flatten_nil, mem_append, mem_singleton, append_nil, not_or]
    exact ⟨hfacts.notMem_blanks hs' hbracket, hnames, by decide, hfacts.notMem_blanks hmid hbracket,
      hfacts.notMem_digits hnumber hbracket, hfacts.notMem_blanks hmid' hbracket, hclosing,
      hfacts.notMem_blanks htrail hbracket, hlasts⟩
  refine ⟨⟨first, _, rfl, hfirst⟩, ?_⟩
  rcases hbrackets with rfl | rfl
  · exact ⟨first :: s, 0, _, rfl, hfirsts, by omega, htail, next, rest, hnext, hleads⟩
  · exact ⟨first :: s, 1, _, rfl, hfirsts, by omega, htail, next, rest, hnext, hleads⟩

theorem region_compoundRefCitation (hfits : Fits (compoundRefCitation U).pieces groups) :
    (∃ tail, groups.flatten = '[' :: '[' :: tail) ∧ BracketedRef U 2 groups.flatten := by
  obtain ⟨s, name, list, rfl, hs, hname, hlist⟩ := fits_compoundRefCitation hfits
  have hbracket : '[' ∈ marks := by decide
  have hnames : '[' ∉ name := hfacts.notMem_word (by decide) hname hbracket
  obtain ⟨head, ef, rfl, hsame⟩ := ref_cons hname
  obtain ⟨next, rest, hnext, hleads⟩ := cons_of_blanks_append
    (ef ++ flatten [[':'], list, [']'], [']']]) hs hsame
  refine ⟨⟨_, rfl⟩, [], 2, flatten [s, head :: ef, [':'], list, [']'],
    [']']], rfl, by decide, le_refl 2, ?_, next, rest, hnext, hleads⟩
  simp only [flatten_cons, flatten_nil, mem_append, append_nil, not_or]
  exact ⟨hfacts.notMem_blanks hs hbracket, hnames, by decide, hfacts.notMem_numbers
    (numbers_letters hlist) hbracket (by decide), by decide, by decide⟩

theorem region_parenRefCitation (hfits : Fits (parenRefCitation U).pieces groups) :
    (∃ tail, groups.flatten = '(' :: tail) ∧ BracketedRef U 2 groups.flatten := by
  obtain ⟨s, opening, s', name, list, closing, mid, rfl, hs,
    ⟨hopening, hbrackets⟩, hs', hname, hlist, ⟨-, hclosing⟩, hmid⟩ :=
    fits_parenRefCitation hfits
  have hbracket : '[' ∈ marks := by decide
  have hnames : '[' ∉ name := hfacts.notMem_word (by decide) hname hbracket
  obtain ⟨head, ef, rfl, hsame⟩ := ref_cons hname
  obtain ⟨next, rest, hnext, hleads⟩ := cons_of_blanks_append
    (ef ++ flatten [[':'], list, closing, mid, [')']]) hs' hsame
  have hopened : opening = replicate opening.length '[' := eq_replicate_iff.mpr ⟨rfl, hbrackets⟩
  have hclosed : '[' ∉ closing := by
    intro hmem
    have heq := hclosing _ hmem
    revert heq
    decide
  have hhead : '[' ∉ '(' :: s := by
    rw [mem_cons, not_or]
    exact ⟨by decide, hfacts.notMem_blanks hs hbracket⟩
  have htail : '[' ∉ flatten [s', head :: ef, [':'], list, closing, mid, [')']] := by
    simp only [flatten_cons, flatten_nil, mem_append, append_nil, not_or]
    exact ⟨hfacts.notMem_blanks hs' hbracket, hnames, by decide,
      hfacts.notMem_numbers (numbers_letters hlist) hbracket (by decide),
      hclosed, hfacts.notMem_blanks hmid hbracket, by decide⟩
  refine ⟨⟨_, rfl⟩, '(' :: s, opening.length, _, ?_, hhead, hopening, htail,
    next, rest, hnext, hleads⟩
  rw [← hopened]
  rfl

end

end Legba.CitationMarkers
