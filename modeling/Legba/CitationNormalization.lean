import Legba.CitationHidden

/-!
# Normalising citation markers

Only the substitution for brackets with daggers loses markers, and only two
things make a second normalisation differ from the first: a reference of one
number in two pairs of parentheses, and a known annotation which an open
bracket hides until the text between them grows.
-/

namespace Legba.CitationMarkers

open RegexScan List

attribute [local instance (high)] List.decidableBAll

variable {U : CharClasses}

def Settled (U : CharClasses) (text : Text) : Prop :=
  ¬ Nested U (beforeParenRefs U (withoutDaggers U (beforeDaggers U text))) ∧
    ¬ Uncovers U (withoutAnnotations U (withoutParenRefs U
      (beforeParenRefs U (withoutDaggers U (beforeDaggers U text)))))

section

variable (hfacts : ClassFacts U) {text : Text} {p : Char → Bool}

theorem countP_block {block : Text} (hblock : Block U block)
    (hp : ∀ letter, p letter = true → letter ∈ '(' :: openBrackets) : block.countP p = 0 := by
  rw [countP_eq_zero]
  intro letter hletter hcounts
  refine hblock.clean letter hletter ?_
  have hmem := hp letter hcounts
  rw [mem_cons] at hmem
  rcases hmem with rfl | hopen
  · exact mem_cons_self
  · exact mem_cons_of_mem _ (mem_cons_of_mem _ (mem_append_left _ hopen))

theorem countP_withNoCitation_le (U : CharClasses) (text : Text)
    (hp : ∀ letter, p letter = true → letter ∈ '(' :: openBrackets) :
    (withNoCitation U text).countP p ≤ text.countP p := by
  refine countP_sub_le fun groups hgroups => ?_
  rw [countP_block (U := U) (Or.inr (Or.inr rfl)) hp]
  exact Nat.zero_le _

theorem countP_annotationText_le {groups : List Text}
    (hfits : Fits variantAnnotationRe.pieces groups)
    (hp : ∀ letter, p letter = true → letter ∈ '(' :: openBrackets) :
    (annotationText U groups).countP p ≤ groups.flatten.countP p := by
  by_cases hsame : annotationText U groups = groups.flatten
  · rw [hsame]
  · rw [countP_block (block_annotationText ⟨hfits, hsame⟩) hp]
    exact Nat.zero_le _

theorem countP_withoutAnnotations_le (U : CharClasses) (text : Text)
    (hp : ∀ letter, p letter = true → letter ∈ '(' :: openBrackets) :
    (withoutAnnotations U text).countP p ≤ text.countP p :=
  countP_sub_le fun _ hgroups => countP_annotationText_le hgroups hp

include hfacts

theorem withoutParenRefs_ne {groups : List Text} (hfits : Fits (parenRefCitation U).pieces groups)
    (hwithin : groups.flatten <:+: text) :
    withNoCitation U (withoutAnnotations U (withoutParenRefs U text)) ≠
      text := by
  intro hsame
  have hp : ∀ letter : Char, (letter == '(') = true →
      letter ∈ '(' :: openBrackets := fun letter hletter =>
    beq_iff_eq.mp hletter ▸ mem_cons_self
  have hzero : ∀ others, Fits (parenRefCitation U).pieces others →
      (expandRefList U (group others 6)).countP (· == '(') = 0 :=
    fun others hothers => countP_block (block_parenRefCitation hfacts hothers) hp
  obtain ⟨others, hfound⟩ := exists_found hfits hwithin
  have hothers := (tokenized_tokens _ text).fits hfound
  obtain ⟨⟨tail, htail⟩, -⟩ := region_parenRefCitation hfacts hothers
  have hpositive : 0 < others.flatten.countP (· == '(') := by
    rw [htail, countP_pos_iff]
    exact ⟨'(', mem_cons_self, beq_self_eq_true _⟩
  have hless : (withoutParenRefs U text).countP (· == '(') < text.countP (· == '(') := by
    refine countP_sub_lt (fun groups hgroups => ?_) hfound ?_
    · rw [hzero groups hgroups]
      exact Nat.zero_le _
    · rw [hzero others hothers]
      exact hpositive
  have hannotations := countP_withoutAnnotations_le U (withoutParenRefs U text) hp
  have hlast := countP_withNoCitation_le U (withoutAnnotations U (withoutParenRefs U text)) hp
  rw [hsame] at hlast
  omega

omit hfacts in
theorem withoutAnnotations_ne {groups : List Text}
    (hchanged : variantAnnotationRe.Changed (annotationText U) groups)
    (hfound : Token.found groups ∈ variantAnnotationRe.tokens 0 text) :
    withNoCitation U (withoutAnnotations U text) ≠ text := by
  intro hsame
  have hp : ∀ letter, isOpen letter = true → letter ∈ '(' :: openBrackets :=
    fun letter hletter => mem_cons_of_mem _ (isOpen_eq_true.mp hletter)
  have hpositive : 0 < groups.flatten.countP isOpen := by
    obtain ⟨first, token, last, rfl, hfirst, -⟩ := known_of_changed hchanged
    rw [flatten_annotationPart, countP_pos_iff]
    exact ⟨first, mem_cons_self, isOpen_eq_true.mpr hfirst⟩
  have hless : (withoutAnnotations U text).countP isOpen < text.countP isOpen := by
    refine countP_sub_lt (fun others hothers => countP_annotationText_le hothers hp) hfound ?_
    rw [countP_block (block_annotationText hchanged) hp]
    exact hpositive
  have hlast := countP_withNoCitation_le U (withoutAnnotations U text) hp
  rw [hsame] at hlast
  omega

end

section

variable (hfacts : ClassFacts U) (text : Text)

include hfacts

theorem withNoCitation_twice :
    withNoCitation U (withNoCitation U text) = withNoCitation U text := by
  refine sub_eq_self fun groups hgroups => ?_
  have hfits := (tokenized_tokens _ _).fits hgroups
  rcases asciiNoCitation_eq_or_avoids hfacts hfits with heq | havoids
  · exact heq.symm
  · exact absurd (infix_of_mem_tokens hgroups) (not_infix_sub hfits fun _ _ => havoids)

theorem normalize_normalize :
    normalizeVerifyMarkers U (normalizeVerifyMarkers U text) =
      withNoCitation U (withoutAnnotations U (withoutParenRefs U
        (normalizeVerifyMarkers U text))) := by
  conv_lhs => rw [normalize_eq, first_stages_normalize hfacts]

theorem idempotent_iff :
    normalizeVerifyMarkers U (normalizeVerifyMarkers U text) =
        normalizeVerifyMarkers U text ↔ Settled U text := by
  rw [normalize_normalize hfacts, Settled, ← exists_fit_normalize_iff hfacts]
  constructor
  · intro hsame
    have hnone : ∀ groups, Fits (parenRefCitation U).pieces groups →
        ¬ groups.flatten <:+: normalizeVerifyMarkers U text :=
      fun groups hfits hwithin => withoutParenRefs_ne hfacts hfits hwithin hsame
    refine ⟨fun ⟨groups, hfits, hwithin⟩ => hnone groups hfits hwithin, ?_⟩
    intro huncovers
    obtain ⟨groups, hchanged, hfound⟩ := found_of_uncovers hfacts huncovers
    rw [withoutParenRefs, sub_eq_self_of_not_infix hnone] at hsame
    refine withoutAnnotations_ne hchanged ?_ hsame
    rwa [normalize_eq]
  · rintro ⟨hnone, hcovered⟩
    have hparens : withoutParenRefs U (normalizeVerifyMarkers U text) =
        normalizeVerifyMarkers U text :=
      sub_eq_self_of_not_infix fun groups hfits hwithin => hnone ⟨groups, hfits, hwithin⟩
    have hannotations : withoutAnnotations U (normalizeVerifyMarkers U text) =
        normalizeVerifyMarkers U text := by
      refine sub_eq_self fun groups hfound => ?_
      by_contra hne
      refine hcovered (uncovers_of_found hfacts ⟨(tokenized_tokens _ _).fits hfound, hne⟩ ?_)
      rwa [normalize_eq] at hfound
    rw [hparens, hannotations, normalize_eq, withNoCitation_twice hfacts]

end

/-- Normalising keeps every marker which the parsers find and changes nothing a
second time if and only if each marker is cited outside the brackets with
daggers and nothing is left for the substitutions to do. -/
theorem normalizeVerifyMarkers_only_adds (hfacts : ClassFacts U) (text : Text) :
    ((∀ number ∈ unitMarkers U text, number ∈ unitMarkers U (normalizeVerifyMarkers U text)) ∧
      (∀ number ∈ refMarkers U text, number ∈ refMarkers U (normalizeVerifyMarkers U text)) ∧
      (∀ member ∈ rangeMarkers U text, member ∈ rangeMarkers U (normalizeVerifyMarkers U text)) ∧
      normalizeVerifyMarkers U (normalizeVerifyMarkers U text) =
        normalizeVerifyMarkers U text) ↔ Kept U text ∧ Settled U text := by
  rw [← kept_iff hfacts, ← idempotent_iff hfacts text]
  simp [and_assoc]

def asciiSpaces : List Char := [' ', '\t', '\n', '\r']

def ascii : CharClasses where
  isDigit := Char.isDigit
  isSpace := asciiSpaces.contains
  digitValue digit := digit.toNat - '0'.toNat
  same letter other := [letter, letter.toUpper].contains other
  casefold letter := [letter.toLower]

theorem ascii_facts : ClassFacts ascii := by
  have hsame : ∀ {P : Char → Prop},
      (∀ letter ∈ letters, P letter ∧ P letter.toUpper) →
      ∀ letter ∈ letters, ∀ other, ascii.same letter other = true → P other := by
    intro P hP letter hletter other hother
    rcases mem_pair.mp (contains_iff_mem.mp hother) with heq | heq
    · exact heq ▸ (hP letter hletter).1
    · exact heq ▸ (hP letter hletter).2
  constructor
  · intro other hdigit
    rw [← Bool.not_eq_true]
    intro hspace
    have hnone : ∀ letter ∈ asciiSpaces, letter.isDigit = false := by decide
    have hfalse := hnone other (contains_iff_mem.mp hspace)
    rw [show other.isDigit = true from hdigit] at hfalse
    cases hfalse
  · decide
  · decide
  · decide
  · decide
  · exact hsame (by decide)
  · exact hsame (by decide)
  · exact hsame (by decide)
  · decide
  · intro letter hletter other hother next hfirst hsecond
    have hmem := mem_pair.mp (contains_iff_mem.mp hfirst)
    have hmem' := mem_pair.mp (contains_iff_mem.mp hsecond)
    have hapart : ∀ letter ∈ letters, ∀ other ∈ letters,
        (letter = other.toUpper → letter = other) ∧
          (letter.toUpper = other → letter = other) ∧
          (letter.toUpper = other.toUpper → letter = other) := by
      decide
    obtain ⟨hupper, hlower, hboth⟩ := hapart letter hletter other hother
    rcases hmem with hnext | hnext
    · exact hmem'.elim (fun heq => hnext.symm.trans heq)
        fun heq => hupper (hnext.symm.trans heq)
    · exact hmem'.elim (fun heq => hlower (hnext.symm.trans heq))
        fun heq => hboth (hnext.symm.trans heq)
  · decide

theorem normalizeVerifyMarkers_only_adds_ascii :
    Kept ascii "[1] 【2】 (3, 4) [5-6] [[ref:7]]".toList ∧
      Settled ascii "[1] 【2】 (3, 4) [5-6] [[ref:7]]".toList :=
  (normalizeVerifyMarkers_only_adds ascii_facts _).mp (by decide +kernel)

/-- `[3]` is lost inside a bracket with a dagger, and a reference in two pairs
of parentheses is unwrapped twice. -/
theorem normalizeVerifyMarkers_loses :
    ¬ ∀ text,
      (∀ number ∈ unitMarkers ascii text,
        number ∈ unitMarkers ascii (normalizeVerifyMarkers ascii text)) ∧
      (∀ number ∈ refMarkers ascii text,
        number ∈ refMarkers ascii (normalizeVerifyMarkers ascii text)) ∧
      (∀ member ∈ rangeMarkers ascii text,
        member ∈ rangeMarkers ascii (normalizeVerifyMarkers ascii text)) ∧
      normalizeVerifyMarkers ascii (normalizeVerifyMarkers ascii text) =
        normalizeVerifyMarkers ascii text := by
  intro hall
  have hlost : unitMarkers ascii "【2†[3]】".toList = ["3".toList] ∧
      unitMarkers ascii (normalizeVerifyMarkers ascii "【2†[3]】".toList) = ["2".toList] := by
    decide +kernel
  have hkept := (hall "【2†[3]】".toList).1 "3".toList (hlost.1 ▸ mem_cons_self)
  exact absurd hkept (by decide)

end Legba.CitationMarkers
