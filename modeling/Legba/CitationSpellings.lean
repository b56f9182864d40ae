import Legba.CitationOverlaps

/-!
# The spellings of a reference

A reference is cited by its marker, by its marker in full-width brackets, by a
compound reference and by a reference in parentheses.  The letters of such a
part determine the numbers it cites: they are its digits, cut at the commas.
So the scan reads from a part the numbers which stand in it, wherever it finds
it.
-/

namespace Legba.CitationMarkers

open RegexScan List

attribute [local instance (high)] List.decidableBAll

variable {U : CharClasses}

/-! ## The numbers of a part -/

def counts (U : CharClasses) (letter : Char) : Bool :=
  U.isDigit letter || letter == ','

def cited (U : CharClasses) (text : Text) : List Text :=
  (text.filter (counts U)).splitOn ','

def Silent (U : CharClasses) (text : Text) : Prop :=
  ∀ letter ∈ text, counts U letter = false

variable {text : Text} {q : Char → Bool}

theorem Silent.filter (htext : Silent U text) : text.filter (counts U) = [] :=
  filter_eq_nil_iff.mpr fun letter hletter => by
    rw [htext letter hletter]
    exact Bool.false_ne_true

theorem Silent.append {other : Text} (htext : Silent U text)
    (hother : Silent U other) : Silent U (text ++ other) :=
  fun letter hletter => (mem_append.mp hletter).elim (htext letter) (hother letter)

theorem cited_part {before after : Text} (hbefore : Silent U before) (hafter : Silent U after) :
    cited U (before ++ (text ++ after)) = cited U text := by
  rw [cited, filter_append, filter_append, hbefore.filter, hafter.filter, nil_append, append_nil]
  rfl

theorem filter_dropWhile {p : Char → Bool} (hp : ∀ letter, p letter = true → q letter = false) :
    (text.dropWhile p).filter q = text.filter q := by
  induction text with
  | nil => rfl
  | cons letter text ih =>
    by_cases hletter : p letter = true
    · rw [dropWhile_cons_of_pos hletter, ih, filter_cons_of_neg (by rw [hp letter hletter]; decide)]
    · rw [dropWhile_cons_of_neg hletter]

theorem filter_strip (hq : ∀ letter, U.isSpace letter = true → q letter = false) :
    (strip U text).filter q = text.filter q := by
  rw [strip, Words.strip, rdropWhile, filter_reverse, filter_dropWhile hq,
    filter_reverse, reverse_reverse, filter_dropWhile hq]

theorem splitOn_filter {mark : Char} (hmark : q mark) (text : Text) :
    (text.filter q).splitOn mark = (text.splitOn mark).map fun part => part.filter q := by
  induction text with
  | nil => rfl
  | cons letter text ih =>
    rw [splitOn_cons_eq_if_modifyHead]
    by_cases hletter : letter = mark
    · subst hletter
      rw [filter_cons_of_pos hmark, splitOn_cons_eq_if_modifyHead, if_pos
        (beq_self_eq_true _), if_pos (beq_self_eq_true _), ih]
      rfl
    · have hbeq : ¬ (letter == mark) = true := by rwa [beq_iff_eq]
      rw [if_neg hbeq]
      obtain ⟨first, rest, hsplit⟩ := exists_cons_of_ne_nil (splitOn_ne_nil mark text)
      rw [hsplit, modifyHead_cons, map_cons]
      rw [hsplit, map_cons] at ih
      by_cases hq : q letter = true
      · rw [filter_cons_of_pos hq, splitOn_cons_eq_if_modifyHead, if_neg hbeq,
          ih, modifyHead_cons, filter_cons_of_pos hq]
      · rw [filter_cons_of_neg hq, ih, filter_cons_of_neg hq]

section

variable (hfacts : ClassFacts U)

include hfacts

theorem counts_blank {letter : Char} (hletter : U.isSpace letter) : counts U letter = false := by
  rw [counts, Bool.or_eq_false_iff, beq_eq_false_iff_ne]
  constructor
  · rw [← Bool.not_eq_true]
    intro hdigit
    rw [hfacts.digit_space letter hdigit] at hletter
    cases hletter
  · rintro rfl
    rw [hfacts.mark_space ',' (by decide)] at hletter
    cases hletter

variable {text : Text} {groups : List Text}

theorem silent_blanks (htext : Blanks U text) : Silent U text := fun letter hletter =>
  counts_blank hfacts (htext letter hletter)

theorem silent_marks (htext : ∀ letter ∈ text, letter ∈ marks ∧ letter ≠ ',') : Silent U text := by
  intro letter hletter
  obtain ⟨hmark, hcomma⟩ := htext letter hletter
  rw [counts, hfacts.mark_digit letter hmark, Bool.false_or]
  exact beq_false_of_ne hcomma

theorem silent_word {word : Text} (hword : ∀ letter ∈ word, letter ∈ letters)
    (htext : RegexScan.word U.same word text) : Silent U text := by
  induction word generalizing text with
  | nil =>
    rw [word_nil_eq_true] at htext
    rw [htext]
    exact fun letter hletter => absurd hletter not_mem_nil
  | cons letter word ih =>
    obtain ⟨other, behind, rfl, hsame, hbehind⟩ := word_cons_eq_true.mp htext
    rw [forall_mem_cons] at hword
    refine forall_mem_cons.mpr ⟨?_, ih hword.2 hbehind⟩
    rw [counts, hfacts.same_digit letter hword.1 other hsame, Bool.false_or]
    refine beq_false_of_ne fun heq => ?_
    exact hfacts.same_mark letter hword.1 other hsame (heq ▸ by decide)

theorem cited_list {least : ℕ} {list : Text} (hlist : numbers U least list) :
    cited U list = numbersOf U list := by
  rw [cited, splitOn_filter (by simp [counts]), numbersOf]
  refine map_congr_left fun part hpart => ?_
  have hdigits := (numbers_eq_true.mp hlist).2 _ (mem_map_of_mem hpart)
  rw [← filter_strip fun letter hletter => counts_blank hfacts hletter]
  refine filter_eq_self.mpr fun letter hletter => ?_
  rw [counts, hdigits.2 letter hletter, Bool.true_or]

theorem cited_number {number : Text} (hnumber : Digits U number) : cited U number = [number] := by
  have hall : number.filter (counts U) = number :=
    filter_eq_self.mpr fun letter hletter => by rw [counts, hnumber.2 letter hletter, Bool.true_or]
  rw [cited, hall, splitOn_eq_singleton (hfacts.notMem_digits hnumber (by decide))]

theorem cited_variantRef (hfits : Fits (variantRefCitation U).pieces groups) :
    cited U groups.flatten = [group groups 7] ∧ Digits U (group groups 7) := by
  obtain ⟨first, s, bracket, s', name, mid, number, mid', bracket', trail,
    last, rfl, hfirst, hs, hbracket, hs', hname, hmid, hnumber, hmid',
    hbracket', htrail, hlast⟩ := fits_variantRefCitation hfits
  have hmarks : ∀ mark ∈ openBrackets ++ closeBrackets, mark ∈ marks ∧ mark ≠ ',' := by decide
  have hends : ∀ mark ∈ openBrackets ++ closeBrackets, Silent U [mark] := by
    intro mark hmark
    exact silent_marks hfacts fun letter hletter => mem_singleton.mp hletter ▸ hmarks mark hmark
  have hbrackets : Silent U bracket := by
    rcases hbracket with rfl | rfl
    · exact silent_marks hfacts (by decide)
    · exact silent_marks hfacts (by decide)
  have hbrackets' : Silent U bracket' := by
    rcases hbracket' with rfl | rfl
    · exact silent_marks hfacts (by decide)
    · exact silent_marks hfacts (by decide)
  have hflatten : [[first], s, bracket, s', name, [':'], mid, number, mid',
      bracket', trail, [last]].flatten =
      ([first] ++ (s ++ (bracket ++ (s' ++ (name ++ ([':'] ++ mid)))))) ++
        (number ++ (mid' ++ (bracket' ++ (trail ++ [last])))) := by
    simp
  refine ⟨?_, hnumber⟩
  rw [hflatten, cited_part, cited_number hfacts hnumber]
  · rfl
  · exact (hends first (mem_append_left _ hfirst)).append
      ((silent_blanks hfacts hs).append (hbrackets.append
        ((silent_blanks hfacts hs').append
          ((silent_word hfacts (by decide) hname).append
            ((silent_marks hfacts (by decide)).append
              (silent_blanks hfacts hmid))))))
  · exact (silent_blanks hfacts hmid').append (hbrackets'.append
      ((silent_blanks hfacts htrail).append
        (hends last (mem_append_right _ hlast))))

theorem cited_compound (hfits : Fits (compoundRefCitation U).pieces groups) :
    cited U groups.flatten = numbersOf U (group groups 5) ∧
      ∀ number ∈ numbersOf U (group groups 5), Digits U number := by
  obtain ⟨s, name, list, rfl, hs, hname, hlist⟩ := fits_compoundRefCitation hfits
  have hflatten : [['['], ['['], s, name, [':'], list, [']'], [']']].flatten =
      (['[', '['] ++ (s ++ (name ++ [':']))) ++ (list ++ [']', ']']) := by
    simp
  refine ⟨?_, (numbers_eq_true.mp hlist).2⟩
  rw [hflatten, cited_part, cited_list hfacts hlist]
  · rfl
  · exact (silent_marks hfacts (by decide)).append
      ((silent_blanks hfacts hs).append
        ((silent_word hfacts (by decide) hname).append
          (silent_marks hfacts (by decide))))
  · exact silent_marks hfacts (by decide)

theorem cited_paren (hfits : Fits (parenRefCitation U).pieces groups) :
    cited U groups.flatten = numbersOf U (group groups 6) ∧
      ∀ number ∈ numbersOf U (group groups 6), Digits U number := by
  obtain ⟨s, opening, s', name, list, closing, mid, rfl, hs, ⟨-, hopens⟩,
    hs', hname, hlist, ⟨-, hcloses⟩, hmid⟩ := fits_parenRefCitation hfits
  have hflatten : [['('], s, opening, s', name, [':'], list, closing, mid,
      [')']].flatten = (['('] ++ (s ++ (opening ++ (s' ++ (name ++
        [':']))))) ++ (list ++ (closing ++ (mid ++ [')']))) := by
    simp
  refine ⟨?_, (numbers_eq_true.mp hlist).2⟩
  rw [hflatten, cited_part, cited_list hfacts hlist]
  · rfl
  · refine (silent_marks hfacts (by decide)).append
      ((silent_blanks hfacts hs).append (Silent.append ?_
        ((silent_blanks hfacts hs').append
          ((silent_word hfacts (by decide) hname).append
            (silent_marks hfacts (by decide))))))
    exact silent_marks hfacts fun letter hletter => hopens letter hletter ▸ by decide
  · refine Silent.append ?_ ((silent_blanks hfacts hmid).append (silent_marks hfacts (by decide)))
    exact silent_marks hfacts fun letter hletter => hcloses letter hletter ▸ by decide

end

section

variable {groups : List Text} {text : Text} (hfacts : ClassFacts U)

include hfacts

theorem found_variantRef (hfits : Fits (variantRefCitation U).pieces groups)
    (hwithin : groups.flatten <:+: text) :
    ∃ others, Token.found others ∈ (variantRefCitation U).tokens 0 text ∧
      group others 7 = group groups 7 := by
  have htail : ∀ others, Fits (variantRefCitation U).pieces others →
      StaysOutside others.flatten.tail groups.flatten := by
    intro others hothers
    obtain ⟨⟨first, tail, hregion, hfirst⟩, -⟩ := region_variantRefCitation hfacts hfits
    obtain ⟨first', s, bracket, s', name, mid, number, mid', bracket', trail,
      last, rfl, hfirst', hs, hbracket, hs', hname, hmid, hnumber, hmid',
      hbracket', htrail, hlast⟩ := fits_variantRefCitation hothers
    have hmarks : ∀ first ∈ openBrackets, first ∈ marks ∧
        first ∉ [':'] ∧ first ∉ ['['] ∧ first ∉ [']'] ∧
        first ∉ closeBrackets := by
      decide
    obtain ⟨hmark, hcolon, hopen, hclose, hcloses⟩ := hmarks first hfirst
    rw [hregion]
    refine staysOutside_of_notMem (show first ∉ [s, bracket, s', name, [':'],
      mid, number, mid', bracket', trail, [last]].flatten from ?_)
    have hbrackets : first ∉ bracket := by
      rcases hbracket with rfl | rfl
      · exact not_mem_nil
      · exact hopen
    have hbrackets' : first ∉ bracket' := by
      rcases hbracket' with rfl | rfl
      · exact not_mem_nil
      · exact hclose
    simp only [flatten_cons, flatten_nil, mem_append, append_nil, not_or]
    exact ⟨hfacts.notMem_blanks hs hmark, hbrackets, hfacts.notMem_blanks hs' hmark,
      hfacts.notMem_word (by decide) hname hmark, hcolon, hfacts.notMem_blanks hmid hmark,
      hfacts.notMem_digits hnumber hmark, hfacts.notMem_blanks hmid' hmark, hbrackets',
      hfacts.notMem_blanks htrail hmark, fun hmem => hcloses (mem_singleton.mp hmem ▸ hlast)⟩
  obtain ⟨others, hfound, hcompatible⟩ := found_of_infix hfits hwithin htail
  have hothers := (tokenized_tokens _ text).fits hfound
  obtain ⟨last, hlast, hclosed⟩ := closed_variantRef hfacts hfits
  obtain ⟨last', hlast', hclosed'⟩ := closed_variantRef hfacts hothers
  have heq := hclosed.eq_of_compatible hclosed'
    (show ∀ mark ∈ closeBrackets, _ from by decide) hlast hlast' hcompatible
  have hcited := (cited_variantRef hfacts hothers).1
  rw [← heq, (cited_variantRef hfacts hfits).1] at hcited
  exact ⟨others, hfound, (singleton_injective hcited).symm⟩

theorem found_compound (hfits : Fits (compoundRefCitation U).pieces groups)
    (hwithin : groups.flatten <:+: text) :
    ∃ others, Token.found others ∈ (compoundRefCitation U).tokens 0 text ∧
      numbersOf U (group others 5) = numbersOf U (group groups 5) := by
  have htail : ∀ others, Fits (compoundRefCitation U).pieces others →
      StaysOutside others.flatten.tail groups.flatten := by
    intro others hothers
    obtain ⟨⟨rest, hrest⟩, -⟩ := region_compoundRefCitation hfacts hfits
    obtain ⟨tail, htail, hstays⟩ := compound_tail hfacts hothers rest
    rw [hrest, htail]
    exact hstays
  obtain ⟨others, hfound, hcompatible⟩ := found_of_infix hfits hwithin htail
  have hothers := (tokenized_tokens _ text).fits hfound
  have heq := (closed_compound hfacts hfits).eq_of_compatible (closed_compound hfacts hothers) (show
    ∀ mark ∈ [']'], _ from by decide) (by decide) (by decide) hcompatible
  have hcited := (cited_compound hfacts hothers).1
  rw [← heq, (cited_compound hfacts hfits).1] at hcited
  exact ⟨others, hfound, hcited.symm⟩

theorem found_paren (hfits : Fits (parenRefCitation U).pieces groups)
    (hwithin : groups.flatten <:+: text) :
    ∃ others, Token.found others ∈ (parenRefCitation U).tokens 0 text ∧
      numbersOf U (group others 6) = numbersOf U (group groups 6) := by
  have htail : ∀ others, Fits (parenRefCitation U).pieces others →
      StaysOutside others.flatten.tail groups.flatten := by
    intro others hothers
    obtain ⟨⟨rest, hrest⟩, -⟩ := region_parenRefCitation hfacts hfits
    obtain ⟨s, opening, s', name, list, closing, mid, rfl, hs, ⟨-, hopens⟩,
      hs', hname, hlist, ⟨-, hcloses⟩, hmid⟩ := fits_parenRefCitation hothers
    have hmark : '(' ∈ marks := by decide
    rw [hrest, flatten_paren]
    refine staysOutside_of_notMem ?_
    simp only [tail_cons, mem_append, mem_cons, not_mem_nil, not_or]
    exact ⟨hfacts.notMem_blanks hs hmark, fun hmem => absurd (hopens _ hmem) (by
      decide), hfacts.notMem_blanks hs' hmark, hfacts.notMem_word (by decide)
      hname hmark, by decide, hfacts.notMem_numbers (numbers_letters hlist)
      hmark (by decide), fun hmem => absurd (hcloses _ hmem) (by decide),
      hfacts.notMem_blanks hmid hmark, by decide, not_false⟩
  obtain ⟨others, hfound, hcompatible⟩ := found_of_infix hfits hwithin htail
  have hothers := (tokenized_tokens _ text).fits hfound
  have heq := (closed_paren hfacts hfits).eq_of_compatible (closed_paren hfacts hothers) (show ∀
    mark ∈ [')'], _ from by decide) (by decide) (by decide) hcompatible
  have hcited := (cited_paren hfacts hothers).1
  rw [← heq, (cited_paren hfacts hfits).1] at hcited
  exact ⟨others, hfound, hcited.symm⟩

end

end Legba.CitationMarkers
