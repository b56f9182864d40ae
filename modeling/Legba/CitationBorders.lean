import Legba.CitationRegions
import Legba.RegexEdits

/-!
# No pattern cuts a marker

What is written for a fitting part begins with a square bracket, as a marker
does, and a digit, a second bracket or the word `no` follows.  None of these
follows a bracket in a part which a pattern fits, with two exceptions: a
compound reference and a reference in parentheses may begin with two brackets
themselves.
-/

namespace Legba.CitationMarkers

open RegexScan List

attribute [local instance (high)] List.decidableBAll

variable {U : CharClasses}

/-- A text of markers.  `First` describes the letter after the first bracket,
`Any` the letters after all of them. -/
structure Written (First Any : Char → Prop) (block : Text) : Prop where
  head : ∃ next rest, block = '[' :: next :: rest ∧ First next
  followed : FollowedBy '[' Any block
  clean : ∀ letter ∈ block, letter ∉ '(' :: '†' :: (openBrackets ++ closeBrackets)

def BareRegion (region : Text) : Prop :=
  ∃ first tail, region = first :: tail ∧ first ∈ '(' :: openBrackets ∧ '[' ∉ region

variable {region block : Text} {First Any : Char → Prop}

theorem BareRegion.avoids (hregion : BareRegion region)
    (hblock : Written First Any block) : Avoids region block := by
  obtain ⟨first, tail, rfl, hfirst, hbracket⟩ := hregion
  obtain ⟨next, rest, rfl, -⟩ := hblock.head
  refine ⟨staysOutside_of_notMem hbracket, staysOutside_of_notMem ?_⟩
  intro hmem
  refine hblock.clean first hmem ?_
  revert hfirst
  simp only [mem_cons, mem_append]
  tauto

theorem WordRegion.avoids {letter : Char} (hregion : WordRegion U letter region)
    (hblock : Written First Any block) (hfirst : ∀ next, First next → ¬ Leads U letter next)
    (hany : ∀ next, Any next → ¬ Leads U letter next) : Avoids region block := by
  obtain ⟨first, tail, rfl, hopening, hbracket, next, rest, rfl, hleads⟩ := hregion
  obtain ⟨follower, behind, rfl, hfollower⟩ := hblock.head
  constructor
  · have hfollowed : FollowedBy '[' (Leads U letter) (first :: next :: rest) := by
      rcases mem_pair.mp hopening with rfl | rfl
      · exact (followedBy_of_notMem hbracket).cons (by decide)
      · exact FollowedBy.here hleads (followedBy_of_notMem hbracket)
    exact hfollowed.staysOutside (hfirst follower hfollower)
  · rcases mem_pair.mp hopening with rfl | rfl
    · refine staysOutside_of_notMem fun hmem => hblock.clean _ hmem ?_
      exact mem_cons_self
    · exact hblock.followed.staysOutside fun hnext => hany next hnext hleads

theorem BracketedRef.avoids {depth : ℕ} (hregion : BracketedRef U depth region)
    (hopening : ∃ first tail, region = first :: tail ∧ first ∈ '(' :: openBrackets)
    (hblock : Written First Any block)
    (hfirst : ∀ next, First next → next ≠ '[' ∧ ¬ Leads U 'r' next) : Avoids region block := by
  obtain ⟨follower, behind, rfl, hfollower⟩ := hblock.head
  obtain ⟨hother, hleads⟩ := hfirst follower hfollower
  refine ⟨hregion.followed.staysOutside fun hnext => hnext.elim hother hleads, ?_⟩
  obtain ⟨first, tail, rfl, hmem⟩ := hopening
  refine staysOutside_of_notMem fun hfound => hblock.clean first hfound ?_
  revert hmem
  simp only [mem_cons, mem_append]
  tauto

theorem BracketedRef.avoids_one (hregion : BracketedRef U 1 region)
    (hopening : ∃ first tail, region = first :: tail ∧ first ∈ '(' :: openBrackets)
    (hblock : Written First Any block)
    (hfirst : ∀ next, First next → ¬ Leads U 'r' next) : Avoids region block := by
  obtain ⟨follower, behind, rfl, hfollower⟩ := hblock.head
  refine ⟨hregion.followed_one.staysOutside (hfirst follower hfollower), ?_⟩
  obtain ⟨first, tail, rfl, hmem⟩ := hopening
  refine staysOutside_of_notMem fun hfound => hblock.clean first hfound ?_
  revert hmem
  simp only [mem_cons, mem_append]
  tauto

theorem BracketedRef.avoids_two {depth : ℕ} (hregion : BracketedRef U depth region)
    (hopening : ∃ tail, region = '[' :: '[' :: tail)
    (hblock : Written First Any block)
    (hfirst : ∀ next, First next → next ≠ '[' ∧ ¬ Leads U 'r' next)
    (hany : ¬ Any '[') : Avoids region block := by
  obtain ⟨follower, behind, rfl, hfollower⟩ := hblock.head
  obtain ⟨hother, hleads⟩ := hfirst follower hfollower
  refine ⟨hregion.followed.staysOutside fun hnext => hnext.elim hother hleads, ?_⟩
  obtain ⟨tail, rfl⟩ := hopening
  exact hblock.followed.staysOutside hany

/-! ## What is written -/

def AfterUnit (U : CharClasses) (next : Char) : Prop := U.isDigit next = true

def AfterRef (next : Char) : Prop := next = '[' ∨ next = 'r'

theorem refMarker_eq (number : Text) :
    refMarker number = '[' :: '[' :: 'r' :: 'e' :: 'f' :: ':' :: (number ++ [']', ']']) := rfl

def UnitText (U : CharClasses) (block : Text) : Prop :=
  Written (AfterUnit U) (AfterUnit U) block

def RefText (block : Text) : Prop :=
  Written (fun next => next = '[') AfterRef block

namespace ClassFacts

variable (hfacts : ClassFacts U)

include hfacts

variable {letter next : Char} {number : Text}

section

variable (hletter : letter ∈ letters)

include hletter

theorem not_leads_unit (hnext : AfterUnit U next) : ¬ Leads U letter next := by
  rintro (hspace | hsame)
  · rw [hfacts.digit_space next hnext] at hspace
    cases hspace
  · have hdigit : U.isDigit next := hnext
    rw [hfacts.same_digit letter hletter next hsame] at hdigit
    cases hdigit

theorem not_leads_mark {mark : Char} (hmark : mark ∈ marks) : ¬ Leads U letter mark := by
  rintro (hspace | hsame)
  · rw [hfacts.mark_space mark hmark] at hspace
    cases hspace
  · exact hfacts.same_mark letter hletter mark hsame hmark

theorem not_leads_letter {other : Char} (hother : other ∈ letters)
    (hne : letter ≠ other) : ¬ Leads U letter other := by
  rintro (hspace | hsame)
  · rw [hfacts.letter_space other hother] at hspace
    cases hspace
  · exact hne (hfacts.same_apart letter hletter other hother other hsame
      (hfacts.same_self other hother))

theorem not_leads_ref (hne : letter ≠ 'r') (hnext : AfterRef next) : ¬ Leads U letter next := by
  rcases hnext with rfl | rfl
  · exact hfacts.not_leads_mark hletter (by decide)
  · exact hfacts.not_leads_letter hletter (by decide) hne

end

theorem digit_ne_mark {mark : Char} (hnext : AfterUnit U next)
    (hmark : mark ∈ marks) : next ≠ mark := by
  rintro rfl
  have hdigit : U.isDigit next := hnext
  rw [hfacts.mark_digit next hmark] at hdigit
  cases hdigit

theorem clean_digits (hnumber : Digits U number) :
    ∀ letter ∈ number, letter ∉ '(' :: '†' :: (openBrackets ++ closeBrackets) := by
  intro letter hletter hmem
  have hmarks : ∀ mark ∈ '(' :: '†' :: (openBrackets ++ closeBrackets), mark ∈ marks := by decide
  exact hfacts.notMem_digits hnumber (hmarks letter hmem) hletter

theorem written_unit (hnumber : Digits U number) : UnitText U (unitMarker number) := by
  obtain ⟨hne, hdigits⟩ := hnumber
  cases number with
  | nil => exact absurd rfl hne
  | cons digit rest =>
    have hdigit : AfterUnit U digit := hdigits digit mem_cons_self
    have hbracket : '[' ∉ digit :: (rest ++ [']']) := by
      rw [← cons_append, mem_append, not_or]
      exact ⟨hfacts.notMem_digits ⟨hne, hdigits⟩ (by decide), by decide⟩
    refine ⟨⟨digit, rest ++ [']'], rfl, hdigit⟩,
      FollowedBy.here hdigit (followedBy_of_notMem hbracket), ?_⟩
    intro letter hletter
    rcases mem_append.mp hletter with hletter | hletter
    · rcases mem_cons.mp hletter with rfl | hletter
      · decide
      · exact hfacts.clean_digits ⟨hne, hdigits⟩ letter hletter
    · rw [mem_singleton.mp hletter]
      decide

theorem written_ref (hnumber : Digits U number) : RefText (refMarker number) := by
  have hbracket : '[' ∉ 'r' :: 'e' :: 'f' :: ':' :: (number ++ [']', ']']) :=
    by
      have hnotMem := hfacts.notMem_digits hnumber (show '[' ∈ marks by decide)
      simp [hnotMem]
  refine ⟨⟨'[', _, rfl, rfl⟩, ?_, ?_⟩
  · exact FollowedBy.here (Or.inl rfl)
      (FollowedBy.here (Or.inr rfl) (followedBy_of_notMem hbracket))
  · have hword : ∀ letter ∈ ['[', '[', 'r', 'e', 'f', ':'],
        letter ∉ '(' :: '†' :: (openBrackets ++ closeBrackets) := by
      decide
    have hend : ∀ letter ∈ [']', ']'], letter ∉ '(' :: '†' :: (openBrackets ++ closeBrackets) := by
      decide
    intro letter hletter
    have hsplit : letter ∈ ['[', '[', 'r', 'e', 'f', ':'] ++ (number ++ [']', ']']) := hletter
    rcases mem_append.mp hsplit with hletter | hletter
    · exact hword letter hletter
    · rcases mem_append.mp hletter with hletter | hletter
      · exact hfacts.clean_digits hnumber letter hletter
      · exact hend letter hletter

theorem written_range {groups : List Text}
    (hfits : Fits (claimRange U).pieces groups) : UnitText U groups.flatten := by
  obtain ⟨low, s, dash, s', high, rfl, hlow, hs, hdash, hs', hhigh⟩ := fits_claimRange hfits
  have hclean : ∀ mark ∈ '[' :: '(' :: '†' :: (openBrackets ++ closeBrackets),
      mark ∈ marks ∧ mark ∉ ['-', '–', '—'] ∧ mark ≠ ']' := by
    decide
  have hnotMem : ∀ mark ∈ '[' :: '(' :: '†' :: (openBrackets ++ closeBrackets),
      mark ∉ [low, s, [dash], s', high, [']']].flatten := by
    intro mark hmark
    obtain ⟨hmarks, hdashes, hclose⟩ := hclean mark hmark
    simp only [flatten_cons, flatten_nil, mem_append, mem_singleton, append_nil, not_or]
    refine ⟨hfacts.notMem_digits hlow hmarks, hfacts.notMem_blanks hs hmarks, ?_,
      hfacts.notMem_blanks hs' hmarks, hfacts.notMem_digits hhigh hmarks, hclose⟩
    rintro rfl
    exact hdashes hdash
  obtain ⟨hne, hdigits⟩ := hlow
  cases low with
  | nil => exact absurd rfl hne
  | cons digit rest =>
    have hdigit : AfterUnit U digit := hdigits digit mem_cons_self
    refine ⟨⟨digit, _, rfl, hdigit⟩, FollowedBy.here hdigit
      (followedBy_of_notMem (hnotMem '[' mem_cons_self)), ?_⟩
    intro letter hletter hmem
    rcases mem_cons.mp hletter with rfl | htail
    · revert hmem
      decide
    · exact hnotMem letter (mem_cons_of_mem _ hmem) htail

end ClassFacts

theorem Written.append {other : Text} (hblock : Written First Any block)
    (hother : Written First Any other) : Written First Any (block ++ other) := by
  obtain ⟨next, rest, hsplit, hnext⟩ := hblock.head
  refine ⟨⟨next, rest ++ other, by rw [hsplit]; rfl, hnext⟩,
    hblock.followed.concat hother.followed, fun letter hletter => ?_⟩
  exact (mem_append.mp hletter).elim (hblock.clean letter) (hother.clean letter)

theorem written_flatMap {marker : Text → Text} {numbers : List Text} (hne : numbers ≠ [])
    (hwritten : ∀ number ∈ numbers, Written First Any (marker number)) :
    Written First Any (numbers.flatMap marker) := by
  induction numbers with
  | nil => exact absurd rfl hne
  | cons number numbers ih =>
    rw [forall_mem_cons] at hwritten
    cases numbers with
    | nil => simpa using hwritten.1
    | cons other numbers => exact hwritten.1.append (ih (cons_ne_nil _ _) hwritten.2)

theorem Written.avoids {First' Any' : Char → Prop} {other : Text} (hblock : Written First Any block)
    (hother : Written First' Any' other) (hfirst : ∀ next, First next → ¬ Any' next)
    (hfirst' : ∀ next, First' next → ¬ Any next) : Avoids block other := by
  obtain ⟨next, rest, rfl, hnext⟩ := hblock.head
  obtain ⟨next', rest', rfl, hnext'⟩ := hother.head
  exact ⟨hblock.followed.staysOutside (hfirst' next' hnext'),
    hother.followed.staysOutside (hfirst next hnext)⟩

theorem written_noCitation :
    Written (fun next => next = 'n') (fun next => next = 'n')
      noCitationMarker := by
  refine ⟨⟨'n', "o citation]".toList, rfl, rfl⟩, ?_, by decide⟩
  exact FollowedBy.here rfl (followedBy_of_notMem (by decide))

/-! ## Parts without square brackets -/

section

variable {groups : List Text} (hfacts : ClassFacts U)

theorem bareRegion_of_open {first : Char} {tail : Text} (hfirst : first ∈ openBrackets)
    (htail : '[' ∉ tail) : BareRegion (first :: tail) := by
  refine ⟨first, tail, rfl, mem_cons_of_mem _ hfirst, ?_⟩
  rw [mem_cons, not_or]
  refine ⟨?_, htail⟩
  rintro rfl
  revert hfirst
  decide

theorem bracket_ne_close {last : Char} (hlast : last ∈ closeBrackets) : '[' ≠ last := by
  rintro rfl
  revert hlast
  decide

abbrev annotationText (U : CharClasses) (groups : List Text) : Text :=
  (canonicalAnnotationOf U (group groups 1)).getD groups.flatten

theorem known_of_changed (hchanged : variantAnnotationRe.Changed (annotationText U) groups) :
    ∃ first token last, groups = [[first], token, [last]] ∧
      first ∈ openBrackets ∧ token.length ≤ 40 ∧ last ∈ closeBrackets ∧
      canonicalAnnotationOf U token ≠ none ∧
      annotationText U groups = noCitationMarker := by
  obtain ⟨hfits, hne⟩ := hchanged
  obtain ⟨first, token, last, rfl, hfirst, hlength, -, hlast⟩ := fits_variantAnnotationRe hfits
  have hknown : canonicalAnnotationOf U token ≠ none := by
    intro hnone
    refine hne ?_
    rw [annotationText, show group [[first], token, [last]] 1 = token from rfl, hnone]
    rfl
  refine ⟨first, token, last, rfl, hfirst, hlength.2, hlast, hknown, ?_⟩
  obtain ⟨marker, hmarker⟩ := Option.ne_none_iff_exists'.mp hknown
  rw [annotationText, show group [[first], token, [last]] 1 = token
    from rfl, hmarker, Option.getD_some]
  rw [canonicalAnnotationOf] at hmarker
  by_cases hlisted : uncitableAnnotations.contains
      ((strip U (Words.collapse (isSeparator U) ' ' token)).flatMap
        U.casefold) = true
  · rw [if_pos hlisted] at hmarker
    exact (Option.some.inj hmarker).symm
  · rw [if_neg hlisted] at hmarker
    cases hmarker

include hfacts

theorem bare_variantCitation (hfits : Fits (variantCitation U).pieces groups) :
    BareRegion groups.flatten := by
  obtain ⟨first, s, number, s', last, rfl, hfirst, hs, hnumber, hs',
    hlast⟩ := fits_variantCitation hfits
  have hbracket : '[' ∈ marks := by decide
  refine bareRegion_of_open hfirst (show '[' ∉ [s, number, s', [last]].flatten from ?_)
  simp only [flatten_cons, flatten_nil, mem_append, mem_singleton, append_nil, not_or]
  exact ⟨hfacts.notMem_blanks hs hbracket, hfacts.notMem_digits hnumber
    hbracket, hfacts.notMem_blanks hs' hbracket, bracket_ne_close hlast⟩

theorem bare_parenCitationList (hfits : Fits (parenCitationList U).pieces groups) :
    BareRegion groups.flatten := by
  obtain ⟨list, rfl, hlist⟩ := fits_parenCitationList hfits
  refine ⟨'(', [list, [')']].flatten, rfl, by decide, ?_⟩
  simp only [flatten_cons, flatten_nil, mem_append, append_nil, not_or]
  exact ⟨by decide, hfacts.notMem_numbers (numbers_letters hlist) (by decide)
    (by decide), by decide⟩

theorem bare_variantRangeCitation (hfits : Fits (variantRangeCitation U).pieces groups) :
    BareRegion groups.flatten := by
  obtain ⟨first, s, low, s', dash, mid, high, mid', last, rfl, hfirst, hs,
    hlow, hs', hdash, hmid, hhigh, hmid', hlast⟩ :=
    fits_variantRangeCitation hfits
  have hbracket : '[' ∈ marks := by decide
  have hdashes : '[' ≠ dash := by
    rintro rfl
    revert hdash
    decide
  refine bareRegion_of_open hfirst (show '[' ∉ [s, low, s', [dash], mid, high,
    mid', [last]].flatten from ?_)
  simp only [flatten_cons, flatten_nil, mem_append, mem_singleton, append_nil, not_or]
  exact ⟨hfacts.notMem_blanks hs hbracket, hfacts.notMem_digits hlow hbracket, hfacts.notMem_blanks
    hs' hbracket, hdashes, hfacts.notMem_blanks hmid hbracket, hfacts.notMem_digits hhigh hbracket,
    hfacts.notMem_blanks hmid' hbracket, bracket_ne_close hlast⟩

def DaggerOpening (U : CharClasses) (part : Text) : Prop :=
  ∃ first s number s', part = [[first], s, number, s', ['†']].flatten ∧
    first ∈ openBrackets ∧ Blanks U s ∧ Digits U number ∧ Blanks U s'

theorem bare_daggerOpening {part : Text} (hpart : DaggerOpening U part) : BareRegion part := by
  obtain ⟨first, s, number, s', rfl, hfirst, hs, hnumber, hs'⟩ := hpart
  have hbracket : '[' ∈ marks := by decide
  refine bareRegion_of_open hfirst (show '[' ∉ [s, number, s', ['†']].flatten from ?_)
  simp only [flatten_cons, flatten_nil, mem_append, append_nil, not_or]
  exact ⟨hfacts.notMem_blanks hs hbracket, hfacts.notMem_digits hnumber
    hbracket, hfacts.notMem_blanks hs' hbracket, by decide⟩

theorem notMem_annotationToken {token : Text} {mark : Char}
    (hknown : canonicalAnnotationOf U token ≠ none) (hmark : mark ∈ marks)
    (hjoint : mark ∉ ['_', '-']) : mark ∉ token := by
  intro hmem
  have hspace := hfacts.mark_space mark hmark
  have hseparator : isSeparator U mark = false := by
    rw [mem_pair, not_or] at hjoint
    simp [isSeparator, hspace, hjoint]
  have hkept : mark ∈ strip U (Words.collapse (isSeparator U) ' ' token) := by
    refine (mem_strip (Words.mem_collapse hmem hseparator)).resolve_right ?_
    rw [hspace]
    exact Bool.false_ne_true
  have hflat : mark ∈ (strip U (Words.collapse (isSeparator U) ' ' token)).flatMap U.casefold :=
    mem_flatMap.mpr ⟨mark, hkept, hfacts.fold_mark mark hmark⟩
  have hplain : ∀ text ∈ uncitableAnnotations, ∀ letter ∈ text, letter ∉ marks := by decide
  by_cases hlisted : uncitableAnnotations.contains
      ((strip U (Words.collapse (isSeparator U) ' ' token)).flatMap
        U.casefold) = true
  · exact hplain _ (contains_iff_mem.mp hlisted) mark hflat hmark
  · exact hknown (if_neg hlisted)

theorem bare_annotationPart (hchanged : variantAnnotationRe.Changed (annotationText U) groups) :
    BareRegion groups.flatten := by
  obtain ⟨first, token, last, rfl, hfirst, -, hlast, hknown, -⟩ := known_of_changed hchanged
  refine bareRegion_of_open hfirst (show '[' ∉ [token, [last]].flatten from ?_)
  simp only [flatten_cons, flatten_nil, mem_append, mem_singleton, append_nil, not_or]
  exact ⟨notMem_annotationToken hfacts hknown (by decide) (by decide), bracket_ne_close hlast⟩

end

theorem exists_first_not {p : Char → Prop} {text : Text} (htext : ¬ ∀ letter ∈ text, p letter) :
    ∃ front letter behind, text = front ++ letter :: behind ∧
      (∀ other ∈ front, p other) ∧ ¬ p letter := by
  induction text with
  | nil => exact absurd (fun letter hletter => by cases hletter) htext
  | cons letter text ih =>
    by_cases hletter : p letter
    · have hrest : ¬ ∀ other ∈ text, p other := fun hall =>
        htext (forall_mem_cons.mpr ⟨hletter, hall⟩)
      obtain ⟨front, other, behind, rfl, hfront, hother⟩ := ih hrest
      exact ⟨letter :: front, other, behind, rfl, forall_mem_cons.mpr ⟨hletter, hfront⟩, hother⟩
    · exact ⟨[], letter, text, rfl, fun other hother => (by cases hother), hletter⟩

section

variable {list number left right : Text} {last : Char} (hfacts : ClassFacts U)

include hfacts

theorem list_eq_of_compatible (hlist : Numbers U list)
    (hnumber : Digits U number) (hlast : U.isDigit last = false)
    (hcompatible : Compatible (list ++ last :: left) (number ++ ']' :: right)) :
    list = number ∧ Compatible (last :: left) (']' :: right) := by
  have hclose : ¬ U.isDigit ']' = true := by
    rw [hfacts.mark_digit ']' (by decide)]
    exact Bool.false_ne_true
  by_cases hall : ∀ letter ∈ list, U.isDigit letter = true
  · exact Compatible.run hall hnumber.2 (by rw [hlast]; exact Bool.false_ne_true) hclose hcompatible
  · obtain ⟨front, other, behind, rfl, hfront, hother⟩ := exists_first_not hall
    rw [append_assoc, cons_append] at hcompatible
    obtain ⟨-, hrest⟩ := Compatible.run hfront hnumber.2 hother hclose hcompatible
    have hmem : ']' ∈ front ++ other :: behind := by
      rw [← hrest.head.1]
      exact mem_append_right front mem_cons_self
    exact absurd hmem (hfacts.notMem_numbers hlist (by decide) (by decide))

end

end Legba.CitationMarkers
