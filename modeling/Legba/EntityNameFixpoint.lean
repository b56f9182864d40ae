import Legba.EntityNames

/-!
# Canonical names are canonical

A stripped name is clean: no invisible letter, single spaces, no punctuation at
either end.  Stripping a clean name again either leaves it or shortens it, and
it leaves it unless a character reference is still to be replaced or a
possessive has come to its end.  The referents of the maps are left by all of
this and lead to themselves, so a name which the maps know is settled in one
pass.  Of the classes only that of a person can be overridden twice.
-/

namespace Legba.EntityNames

open RegexScan CharacterReferences Prod
open JudgeReplies (isSpace strip)
open List Nat

attribute [local instance (high)] List.decidableBAll

/-! ## Stripping a clean name -/

structure Clean (text : Text) : Prop where
  visible : ∀ letter ∈ text, zeroWidthChars.contains letter = false
  spaced : Words.Spaced isSpace ' ' text
  trimmed : Words.Trimmed isStripChar text

theorem prefixed_dropPossessive (text : Text) : dropPossessive text <+: text := by
  unfold dropPossessive
  split
  · rename_i last mark rest hreverse
    split
    · have hsuffix : rest.dropWhile isSpace <:+ text.reverse := by
        rw [hreverse]
        exact (dropWhile_suffix isSpace).trans ((suffix_cons mark rest).trans (suffix_cons last _))
      rw [← reverse_suffix, reverse_reverse]
      exact hsuffix
    · exact prefix_refl text
  · exact prefix_refl text

variable {text value : Text} {table : List (String × String)}

theorem length_dropPossessive_lt (hne : dropPossessive text ≠ text) :
    (dropPossessive text).length < text.length := by
  have hprefix := prefixed_dropPossessive text
  apply lt_of_le_of_ne hprefix.length_le
  intro heq
  exact hne (IsPrefix.eq_of_length hprefix heq)

theorem strip_dropPossessive_part (text : Text) : strip (dropPossessive text) <:+: text :=
  (Words.infix_of_strip _).trans (prefixed_dropPossessive text).isInfix

theorem peelPossessives_part (fuel : ℕ) (text : Text) : peelPossessives fuel text <:+: text := by
  induction fuel generalizing text with
  | zero => exact infix_refl text
  | succ fuel ih =>
    rw [peelPossessives]
    split
    · exact infix_refl text
    · exact (ih _).trans (strip_dropPossessive_part text)

theorem Clean.edges (hclean : Clean text) : Words.Trimmed isSpace text := by
  have hmark : ∀ letter ∈ text, isStripChar letter = false → isSpace letter = false := by
    intro letter hletter hplain
    by_contra hspace
    rw [Bool.not_eq_false] at hspace
    rw [hclean.spaced.only letter hletter hspace] at hplain
    exact absurd hplain (by decide)
  constructor
  · intro hne
    exact hmark _ (head_mem hne) (hclean.trimmed.front hne)
  · intro hne
    exact hmark _ (getLast_mem hne) (hclean.trimmed.back hne)

theorem Clean.settled (hclean : Clean text) : strip (collapseSpaces text) = text := by
  rw [collapseSpaces, hclean.spaced.collapse_eq]
  exact hclean.edges.strip_eq

theorem clean_stripPlain (text : Text) : Clean (stripPlain text) := by
  unfold stripPlain
  set visible := text.filter fun letter => !zeroWidthChars.contains letter with hvisible
  set spaced := strip (collapseSpaces visible)
  set peeled := peelPossessives (spaced.length + 1) spaced
  have hpart : Words.strip isStripChar peeled <:+: collapseSpaces visible :=
    (Words.infix_of_strip peeled).trans ((peelPossessives_part _ _).trans (Words.infix_of_strip _))
  have hclean : Clean (Words.strip isStripChar peeled) := by
    refine ⟨?_, (Words.spaced_collapse visible).of_part hpart, Words.strip_trimmed peeled⟩
    intro letter hletter
    rcases Words.mem_of_mem_collapse (hpart.subset hletter) with rfl | hmem
    · decide
    · rw [hvisible, mem_filter] at hmem
      simpa using hmem.2
  rw [hclean.settled]
  exact hclean

theorem length_stripPlain_le (text : Text) : (stripPlain text).length ≤ text.length := by
  unfold stripPlain
  set visible := text.filter fun letter => !zeroWidthChars.contains letter
  set spaced := strip (collapseSpaces visible)
  calc (strip (collapseSpaces (Words.strip isStripChar
          (peelPossessives (spaced.length + 1) spaced)))).length
      ≤ (Words.strip isStripChar (peelPossessives (spaced.length + 1) spaced)).length :=
        (Words.length_strip_le _).trans (Words.length_collapse_le _)
    _ ≤ spaced.length := (Words.length_strip_le _).trans (peelPossessives_part _ _).length_le
    _ ≤ visible.length := (Words.length_strip_le _).trans (Words.length_collapse_le _)
    _ ≤ text.length := length_filter_le _ _

theorem Clean.stripPlain_eq (hclean : Clean text) :
    stripPlain text = strip (collapseSpaces (Words.strip isStripChar
      (peelPossessives (text.length + 1) text))) := by
  have hvisible : (text.filter fun letter =>
      !zeroWidthChars.contains letter) = text := by
    rw [filter_eq_self]
    intro letter hletter
    rw [hclean.visible letter hletter]
    rfl
  rw [stripPlain]
  simp only [hvisible, hclean.settled]

theorem Clean.stripPlain_fixed (hclean : Clean text)
    (hplain : dropPossessive text = text) : stripPlain text = text := by
  have hpeel : peelPossessives (text.length + 1) text = text := by
    rw [peelPossessives, hplain, strip, hclean.edges.strip_eq, if_pos rfl]
  rw [hclean.stripPlain_eq, hpeel, hclean.trimmed.strip_eq, hclean.settled]

theorem Clean.stripPlain_shorter (hclean : Clean text) (hpossessive : dropPossessive text ≠ text) :
    (stripPlain text).length < text.length := by
  have hlt : (strip (dropPossessive text)).length < text.length :=
    lt_of_le_of_lt (Words.length_strip_le _) (length_dropPossessive_lt hpossessive)
  have hpeel : (peelPossessives (text.length + 1) text).length < text.length := by
    rw [peelPossessives, if_neg]
    · exact lt_of_le_of_lt (peelPossessives_part _ _).length_le hlt
    · intro heq
      rw [heq] at hlt
      exact lt_irrefl _ hlt
  rw [hclean.stripPlain_eq]
  calc (strip (collapseSpaces (Words.strip isStripChar
          (peelPossessives (text.length + 1) text)))).length
      ≤ (Words.strip isStripChar (peelPossessives (text.length + 1) text)).length :=
        (Words.length_strip_le _).trans (Words.length_collapse_le _)
    _ ≤ (peelPossessives (text.length + 1) text).length := Words.length_strip_le _
    _ < text.length := hpeel

/-! ## The values of the maps -/

def landings : List String :=
  (regionAdjectiveMap ++ demonymMap ++ aliasMap).map snd

def code (text : String) : ℕ :=
  text.toByteArray.data.toList.foldl
    (fun number byte => (256 * number + byte.toNat) % 65521) 0

def mask (table : List String) : ℕ :=
  table.foldr (fun entry rest => Nat.lor (Nat.shiftLeft 1 (code entry)) rest) 0

def absent (table : List String) (text : Text) : Bool :=
  Nat.beq (Nat.land (mask table) (Nat.shiftLeft 1 (code (String.ofList text)))) 0

def leadsTo (table : List (String × String)) (value low : Text) : Bool :=
  absent (table.map fst) low || lookupText table low == some value

def isNameLetter (letter : Char) : Bool :=
  ('A' ≤ letter && letter ≤ 'Z') || ('a' ≤ letter && letter ≤ 'z')

def nameMarks : List Char := [' ', ',', '\'', 'ô']

def isNameMark (letter : Char) : Bool :=
  isNameLetter letter || nameMarks.contains letter

def isCleanValue (text : Text) : Bool :=
  text.all isNameMark && text.head?.any isNameLetter &&
    text.getLast?.any isNameLetter &&
    decide (text.IsChain fun before next => before ≠ ' ' ∨ next ≠ ' ') &&
    decide (dropPossessive text = text) &&
    articles.all fun article => (matchLiteral article.toList text).all
      fun behind => behind.head?.any isNameLetter

def isFreeValue (value : Text) : Bool :=
  let low := value.map lowerLatin
  let nation := fun text => leadsTo regionAdjectiveMap value text && leadsTo demonymMap value text
  nation low && leadsTo aliasMap value low &&
    (low.getLast? != some 's' || nation low.dropLast) &&
    absent junkEntities low && absent knownRegions low

def isLanding (value : String) : Bool :=
  isCleanValue value.toList && isFreeValue value.toList

theorem first_landings_checked : ∀ value ∈ landings.take 70, isLanding value = true := by
  decide +kernel

theorem middle_landings_checked : ∀ value ∈ (landings.drop 70).take 70, isLanding value = true := by
  decide +kernel

theorem last_landings_checked : ∀ value ∈ landings.drop 140, isLanding value = true := by
  decide +kernel

theorem landings_checked {value : String} (hvalue : value ∈ landings) : isLanding value := by
  rw [← take_append_drop 70 landings, mem_append] at hvalue
  rcases hvalue with hfirst | hbehind
  · exact first_landings_checked value hfirst
  · rw [← take_append_drop 70 (landings.drop 70), drop_drop, mem_append] at hbehind
    rcases hbehind with hmiddle | hlast
    · exact middle_landings_checked value hmiddle
    · exact last_landings_checked value hlast

theorem testBit_mask {table : List String} {entry : String}
    (hentry : entry ∈ table) : (mask table).testBit (code entry) := by
  induction table with
  | nil => exact absurd hentry not_mem_nil
  | cons first rest ih =>
    change (shiftLeft 1 (code first) ||| mask rest).testBit _ = true
    rw [testBit_or, Bool.or_eq_true]
    rcases mem_cons.mp hentry with rfl | hrest
    · left
      change (1 <<< code entry).testBit (code entry) = true
      rw [one_shiftLeft, testBit_two_pow_self]
    · exact .inr (ih hrest)

theorem not_known_of_absent {table : List String}
    (habsent : absent table text) : known table text = false := by
  apply Bool.eq_false_iff.mpr
  intro hknown
  have hbit := testBit_mask (contains_iff_mem.mp hknown)
  have hzero : mask table &&& 1 <<< code (String.ofList text) = 0 := eq_of_beq_eq_true habsent
  have hmasked := congrArg (testBit · (code (String.ofList text))) hzero
  simp only [testBit_and, hbit, one_shiftLeft,
    testBit_two_pow_self, zero_testBit, Bool.and_self] at hmasked
  cases hmasked

theorem lookupText_of_absent {low : Text}
    (habsent : absent (table.map fst) low) : lookupText table low = none := by
  have hknown := not_known_of_absent habsent
  rw [lookupText, Option.map_eq_none_iff, lookup_eq_none_iff]
  intro entry hentry
  rw [bne_iff_ne]
  intro heq
  have hmem : String.ofList low ∈ table.map fst := heq ▸ mem_map_of_mem hentry
  rw [known, contains_iff_mem.mpr hmem] at hknown
  cases hknown

def Leads (value : Text) (found : Option Text) : Prop :=
  found = none ∨ found = some value

theorem leads_of_leadsTo {low : Text} (hleads : leadsTo table value low) :
    Leads value (lookupText table low) := by
  rcases (Bool.or_eq_true _ _).mp hleads with habsent | hsame
  · exact .inl (lookupText_of_absent habsent)
  · exact .inr (eq_of_beq hsame)

theorem Leads.orElse {first second : Option Text} (hfirst : Leads value first)
    (hsecond : Leads value second) : Leads value (first <|> second) := by
  rcases hfirst with rfl | rfl
  · exact hsecond
  · exact .inr rfl

theorem Leads.getD {found : Option Text} (hfound : Leads value found) :
    found.getD value = value := by
  rcases hfound with rfl | rfl <;> rfl

theorem nameLetter_plain {letter : Char} (hletter : isNameLetter letter) :
    isSpace letter = false ∧ isStripChar letter = false ∧
      zeroWidthChars.contains letter = false ∧ letter ≠ '&' ∧
      isLatin letter = true ∧ isWordLatin letter = true := by
  have hmark : ∀ mark ∈ '&' :: (stripChars ++ zeroWidthChars),
      isNameLetter mark = false := by decide
  have hnot : letter ∉ '&' :: (stripChars ++ zeroWidthChars) := by
    intro hmem
    rw [hmark letter hmem] at hletter
    cases hletter
  rw [mem_cons, mem_append, not_or, not_or] at hnot
  have hrange : (65 ≤ letter.toNat ∧ letter.toNat ≤ 90) ∨
      (97 ≤ letter.toNat ∧ letter.toNat ≤ 122) := by
    simp only [isNameLetter, Bool.or_eq_true, Bool.and_eq_true, decide_eq_true_eq] at hletter
    exact hletter
  refine ⟨?_, ?_, ?_, hnot.1, ?_, ?_⟩
  · simp only [isSpace, Bool.or_eq_false_iff, Bool.and_eq_false_iff, decide_eq_false_iff_not]
    omega
  · exact Bool.eq_false_iff.mpr fun h => hnot.2.1 (contains_iff_mem.mp h)
  · exact Bool.eq_false_iff.mpr fun h => hnot.2.2 (contains_iff_mem.mp h)
  · apply decide_eq_true
    omega
  · have halpha : letter.isAlpha := by
      rcases hrange with hupper | hlower
      · exact Bool.or_eq_true_iff.mpr (.inl (decide_eq_true hupper))
      · exact Bool.or_eq_true_iff.mpr (.inr (Bool.and_eq_true_iff.mpr
          ⟨decide_eq_true hlower.1, decide_eq_true hlower.2⟩))
    simp [isWordLatin, Char.isAlphanum, halpha]

theorem nameMark_plain {letter : Char} (hletter : isNameMark letter) :
    (isSpace letter = true → letter = ' ') ∧
      zeroWidthChars.contains letter = false ∧ letter ≠ '&' ∧
      isLatin letter = true := by
  rcases (Bool.or_eq_true _ _).mp hletter with hname | hmark
  · obtain ⟨hspace, -, hvisible, hand, hlatin, -⟩ := nameLetter_plain hname
    refine ⟨fun h => ?_, hvisible, hand, hlatin⟩
    rw [hspace] at h
    cases h
  · have hall : ∀ mark ∈ nameMarks, (isSpace mark = true → mark = ' ') ∧
        zeroWidthChars.contains mark = false ∧ mark ≠ '&' ∧
        isLatin mark = true := by decide
    exact hall letter (contains_iff_mem.mp hmark)

section

variable {D : CharData}

variable {name stripped value low nerClass : Text}

theorem clean_of_stripName (hstrip : stripName D name = some stripped) : Clean stripped := by
  obtain ⟨plain, -, rfl⟩ := Option.map_eq_some_iff.mp hstrip
  exact clean_stripPlain plain

def IsPlain (D : CharData) (name : Text) : Prop :=
  unescape D.names name = some name ∧ dropPossessive name = name

theorem stripName_of_plain (hclean : Clean name) (hplain : IsPlain D name) :
    stripName D name = some name := by
  rw [stripName, hplain.1, Option.map_some, hclean.stripPlain_fixed hplain.2]

theorem length_stripName_le (hshort : Short D.names) (hstrip : stripName D name = some stripped) :
    stripped.length ≤ name.length := by
  obtain ⟨plain, hplain, rfl⟩ := Option.map_eq_some_iff.mp hstrip
  apply (length_stripPlain_le plain).trans
  rcases unescape_shorter hshort hplain with heq | hlt
  · exact le_of_eq (congrArg length heq)
  · exact le_of_lt hlt

theorem plain_or_shorter (hshort : Short D.names) (hclean : Clean name)
    (hstrip : stripName D name = some stripped) :
    IsPlain D name ∨ stripped.length < name.length := by
  obtain ⟨plain, hplain, rfl⟩ := Option.map_eq_some_iff.mp hstrip
  rcases unescape_shorter hshort hplain with rfl | hlt
  · by_cases hdrop : dropPossessive plain = plain
    · exact .inl ⟨hplain, hdrop⟩
    · exact .inr (hclean.stripPlain_shorter hdrop)
  · exact .inr (lt_of_le_of_lt (length_stripPlain_le plain) hlt)

/-! ## Referents -/

structure Landed (D : CharData) (value : Text) : Prop where
  clean : Clean value
  plain : IsPlain D value
  solid : value ≠ []
  referent : Leads value (referent D value)
  notJunk : isJunk D value = false
  notRegion : isRegionText D value = false

theorem clean_of_isCleanValue (hvalue : isCleanValue value) :
    Clean value ∧ value ≠ [] ∧ IsPlain D value ∧
      lowerText D value = value.map lowerLatin ∧
      stripLeadingArticle D value = value := by
  simp only [isCleanValue, Bool.and_eq_true, decide_eq_true_eq, all_eq_true] at hvalue
  obtain ⟨⟨⟨⟨⟨hmarks, hfront⟩, hback⟩, hapart⟩, hdrop⟩, harticle⟩ := hvalue
  have hmark := fun letter hletter => nameMark_plain (hmarks letter hletter)
  refine ⟨⟨fun letter hletter => (hmark letter hletter).2.1,
    ⟨fun letter hletter => (hmark letter hletter).1, ?_⟩, ?_, ?_⟩, ?_,
    ⟨?_, hdrop⟩, ?_, ?_⟩
  · refine hapart.imp_of_mem_imp ?_
    intro before next hbefore hnext hne
    rcases hne with hne | hne
    · exact .inl (Bool.eq_false_iff.mpr fun h => hne ((hmark before hbefore).1 h))
    · exact .inr (Bool.eq_false_iff.mpr fun h => hne ((hmark next hnext).1 h))
  · intro hne
    rw [head?_eq_some_head hne] at hfront
    exact (nameLetter_plain hfront).2.1
  · intro hne
    rw [getLast?_eq_some_getLast hne] at hback
    exact (nameLetter_plain hback).2.1
  · rintro rfl
    cases hfront
  · apply unescape_of_notMem
    intro hmem
    exact (hmark '&' hmem).2.2.1 rfl
  · exact if_pos (all_eq_true.mpr fun letter hletter => (hmark letter hletter).2.2.2)
  · have hnone : (articles.findSome? fun article =>
        (matchLiteral article.toList value).filter (atBoundary D)) = none := by
      rw [findSome?_eq_none_iff]
      intro article hmem
      have hall := harticle article hmem
      cases hmatch : matchLiteral article.toList value with
      | none => rfl
      | some behind =>
        rw [hmatch] at hall
        cases behind with
        | nil => cases hall
        | cons letter rest =>
          have hletter := @nameLetter_plain letter hall
          have hword : isWord D letter := by
            rw [isWord, if_pos hletter.2.2.2.2.1]
            exact hletter.2.2.2.2.2
          simp [atBoundary, hword]
    unfold stripLeadingArticle
    simp only [hnone]

theorem landed_of_mem {value : String} (hvalue : value ∈ landings) : Landed D value.toList := by
  have hcheck := landings_checked hvalue
  rw [isLanding] at hcheck
  generalize value.toList = value at hcheck
  rw [Bool.and_eq_true] at hcheck
  obtain ⟨hclean, hsolid, hplain, hlower, hbare⟩ := clean_of_isCleanValue (D := D) hcheck.1
  have hfree := hcheck.2
  simp only [isFreeValue, Bool.and_eq_true, Bool.or_eq_true, bne_iff_ne] at hfree
  obtain ⟨⟨⟨⟨hnation, halias⟩, hplural⟩, hjunk⟩, hregion⟩ := hfree
  have hnations : ∀ low, leadsTo regionAdjectiveMap value low = true ∧
      leadsTo demonymMap value low = true → Leads value (nationOf low) :=
    fun low h => (leads_of_leadsTo h.1).orElse (leads_of_leadsTo h.2)
  refine ⟨hclean, hplain, hsolid, ?_, ?_, ?_⟩
  · have htarget : Leads value (collapseTarget (value.map lowerLatin)) := by
      apply (hnations _ hnation).orElse
      apply (leads_of_leadsTo halias).orElse
      split
      · rename_i hends
        exact hnations _ (hplural.resolve_left fun hne => hne hends.2.1)
      · exact .inl rfl
    rw [referent, hlower, hbare, hlower, if_neg (not_not_intro rfl)]
    exact htarget.orElse (.inl rfl)
  · rw [isJunk, hlower]
    exact not_known_of_absent hjunk
  · rw [isRegionText, hbare, hlower, not_known_of_absent hregion, Bool.and_false]

theorem mem_of_lookupText {table : List (String × String)}
    (hlookup : lookupText table low = some value) :
    ∃ entry ∈ table.map snd, entry.toList = value := by
  obtain ⟨entry, hentry, rfl⟩ := Option.map_eq_some_iff.mp hlookup
  obtain ⟨before, after, htable, -⟩ := lookup_eq_some_iff.mp hentry
  refine ⟨entry, ?_, rfl⟩
  rw [htable]
  simp

theorem some_of_orElse {first second : Option Text} (hfound : (first <|> second) = some value) :
    first = some value ∨ second = some value := by
  cases first with
  | none => exact .inr hfound
  | some other => exact .inl hfound

theorem mem_landings_of_nationOf (hnation : nationOf low = some value) :
    ∃ entry ∈ landings, entry.toList = value := by
  rcases some_of_orElse hnation with hregion | hdemonym
  · obtain ⟨entry, hentry, heq⟩ := mem_of_lookupText hregion
    exact ⟨entry, by rw [landings]; simp [hentry], heq⟩
  · obtain ⟨entry, hentry, heq⟩ := mem_of_lookupText hdemonym
    exact ⟨entry, by rw [landings]; simp [hentry], heq⟩

theorem mem_landings_of_collapseTarget (htarget : collapseTarget low = some value) :
    ∃ entry ∈ landings, entry.toList = value := by
  rcases some_of_orElse htarget with hnation | hbehind
  · exact mem_landings_of_nationOf hnation
  · rcases some_of_orElse hbehind with halias | hplural
    · obtain ⟨entry, hentry, heq⟩ := mem_of_lookupText halias
      exact ⟨entry, by rw [landings]; simp [hentry], heq⟩
    · split at hplural
      · exact mem_landings_of_nationOf hplural
      · cases hplural

theorem landed_of_referent (hreferent : referent D stripped = some value) : Landed D value := by
  have hmem : ∃ entry ∈ landings, entry.toList = value := by
    rcases some_of_orElse hreferent with hlow | hbare
    · exact mem_landings_of_collapseTarget hlow
    · dsimp only at hbare
      split at hbare
      · exact mem_landings_of_collapseTarget hbare
      · cases hbare
  obtain ⟨entry, hentry, rfl⟩ := hmem
  exact landed_of_mem hentry

def plainClass (D : CharData) (canonical cls : Text) : Text :=
  if isCountryName D canonical then countryClass
  else if cls ≠ personClass ∧ isRegionText D canonical then locationClass
  else if known aliasOrg canonical || isOrgPattern D canonical ||
      isOrgText D canonical then organizationClass
  else if isPlaceText D canonical then locationClass
  else cls

def isOrgRegion (D : CharData) (canonical : Text) : Bool :=
  !isCountryName D canonical && isRegionText D canonical &&
    (known aliasOrg canonical || isOrgPattern D canonical || isOrgText D canonical)

theorem correctClass_of_plain {canonical : Text} (hstrip : stripName D canonical = some canonical)
    (cls : Text) : correctClass D canonical cls = some (plainClass D canonical cls) := by
  have hregion : isRegionMention D canonical cls =
      some (decide (cls ≠ personClass ∧ isRegionText D canonical)) := by
    by_cases hperson : cls = personClass
    · simp [isRegionMention, hperson]
    · simp [isRegionMention, hperson, isRegionSurface, hstrip]
  have horg : isOrgMention D canonical =
      some (isOrgPattern D canonical || isOrgText D canonical) := by
    by_cases hpattern : isOrgPattern D canonical = true
    · simp [isOrgMention, hpattern]
    · simp [isOrgMention, hpattern, isOrgSurface, hstrip]
  have hplace : isPlaceSurface D canonical = some (isPlaceText D canonical) := by
    simp [isPlaceSurface, hstrip]
  unfold correctClass plainClass
  rw [hregion, horg, hplace, Bool.or_assoc]
  by_cases hcountry : isCountryName D canonical = true
  · simp [hcountry]
  by_cases hnamed : cls ≠ personClass ∧ isRegionText D canonical = true
  · simp [hcountry, hnamed]
  by_cases halias : known aliasOrg canonical = true
  · simp [hcountry, hnamed, halias]
  by_cases hbody : (isOrgPattern D canonical || isOrgText D canonical) = true
  · simp [hcountry, hnamed, halias, hbody]
  · simp [hcountry, hnamed, halias, hbody]

theorem plainClass_settles_iff (canonical cls : Text) :
    plainClass D canonical (plainClass D canonical cls) = plainClass D canonical cls ↔
      ¬(cls = personClass ∧ isOrgRegion D canonical = true) := by
  have horganization : organizationClass ≠ personClass := by decide
  have hlocation : locationClass ≠ personClass := by decide
  have hdistinct : locationClass ≠ organizationClass := by decide
  by_cases hcountry : isCountryName D canonical = true
  · simp [plainClass, isOrgRegion, hcountry]
  by_cases hregion : isRegionText D canonical = true
  · by_cases hperson : cls = personClass
    · by_cases hbody : (known aliasOrg canonical || isOrgPattern D canonical ||
          isOrgText D canonical) = true
      · have hfirst : plainClass D canonical cls = organizationClass := by
          rw [plainClass, if_neg hcountry, if_neg (fun h => h.1 hperson), if_pos hbody]
        have hsecond : plainClass D canonical organizationClass =
            locationClass := by
          rw [plainClass, if_neg hcountry, if_pos ⟨horganization, hregion⟩]
        rw [hfirst, hsecond]
        simp [hdistinct, hperson, isOrgRegion, hcountry, hregion, hbody]
      · by_cases hplace : isPlaceText D canonical = true
        · simp [plainClass, isOrgRegion, hcountry, hregion, hperson, hbody, hplace, hlocation]
        · simp [plainClass, isOrgRegion, hcountry, hregion, hperson, hbody, hplace]
    · simp [plainClass, hcountry, hregion, hperson, hlocation]
  · have hnot : ∀ other, plainClass D canonical other =
        if known aliasOrg canonical || isOrgPattern D canonical ||
          isOrgText D canonical then organizationClass
        else if isPlaceText D canonical then locationClass else other := by
      intro other
      rw [plainClass, if_neg hcountry, if_neg fun h => hregion h.2]
    rw [hnot, hnot]
    simp only [isOrgRegion, hregion, Bool.and_false, Bool.false_and,
      Bool.false_eq_true, and_false, not_false_eq_true, iff_true]
    split
    · rfl
    · split
      · rfl
      · rfl

/-! ## One pass and two -/

theorem givenClass_fixed {cls : Text} (hstrip : strip cls = cls)
    (hsolid : cls ≠ []) : givenClass cls = cls := by
  simp only [givenClass, if_neg hsolid, hstrip]

theorem givenClass_trimmed (nerClass : Text) :
    strip (givenClass nerClass) = givenClass nerClass ∧ givenClass nerClass ≠ [] := by
  simp only [givenClass]
  set stripped := strip (if nerClass = [] then defaultClass else nerClass)
  have htrim : strip stripped = stripped := Words.strip_strip _
  by_cases hsolid : stripped = []
  · rw [if_pos hsolid]
    decide
  · rw [if_neg hsolid]
    exact ⟨htrim, hsolid⟩

theorem givenClass_givenClass (nerClass : Text) :
    givenClass (givenClass nerClass) = givenClass nerClass :=
  givenClass_fixed (givenClass_trimmed nerClass).1 (givenClass_trimmed nerClass).2

theorem givenClass_plainClass (canonical nerClass : Text) :
    givenClass (plainClass D canonical (givenClass nerClass)) =
      plainClass D canonical (givenClass nerClass) := by
  have hcountry : givenClass countryClass = countryClass := by decide
  have hlocation : givenClass locationClass = locationClass := by decide
  have horganization : givenClass organizationClass = organizationClass := by decide
  unfold plainClass
  split_ifs
  · exact hcountry
  · exact hlocation
  · exact horganization
  · exact hlocation
  · exact givenClass_givenClass nerClass

theorem stripName_nil : stripName D [] = some [] := by
  rw [stripName, unescape_of_notMem not_mem_nil, Option.map_some]
  rfl

theorem canonicalizeEntity_nil (nerClass : Text) :
    canonicalizeEntity D [] nerClass = some ([], givenClass nerClass) := by
  simp [canonicalizeEntity, stripName_nil]

theorem canonicalizeEntity_dropped (hstrip : stripName D name = some stripped)
    (hdrop : stripped = [] ∨ isJunk D stripped = true) (nerClass : Text) :
    canonicalizeEntity D name nerClass = some ([], givenClass nerClass) := by
  simp only [canonicalizeEntity, hstrip, Option.bind_eq_bind, Option.bind_some]
  rcases hdrop with hempty | hjunk
  · rw [if_pos hempty]
    rfl
  · rw [if_pos hjunk]
    exact ite_self _

theorem canonicalizeEntity_kept (hstrip : stripName D name = some stripped)
    (hsolid : stripped ≠ []) (hjunk : isJunk D stripped = false) (nerClass : Text) :
    canonicalizeEntity D name nerClass =
      (stripName D ((referent D stripped).getD stripped)).bind fun canonical =>
        if canonical = [] then some ([], givenClass nerClass)
        else (correctClass D canonical (givenClass nerClass)).map
          fun corrected => (canonical, corrected) := by
  simp only [canonicalizeEntity, hstrip, Option.bind_eq_bind,
    Option.bind_some, if_neg hsolid, hjunk, Bool.false_eq_true, if_false]
  congr 1
  funext canonical
  split
  · rfl
  · cases correctClass D canonical (givenClass nerClass) <;> rfl

theorem canonicalizeEntity_plain (hclean : Clean name) (hplain : IsPlain D name)
    (hsolid : name ≠ []) (hjunk : isJunk D name = false)
    (hleads : Leads name (referent D name)) (nerClass : Text) :
    canonicalizeEntity D name nerClass = some (name, plainClass D name (givenClass nerClass)) := by
  have hstrip := stripName_of_plain hclean hplain
  rw [canonicalizeEntity_kept hstrip hsolid hjunk, hleads.getD, hstrip,
    Option.bind_some, if_neg hsolid, correctClass_of_plain hstrip, Option.map_some]

theorem length_or_landed (hshort : Short D.names) (hstrip : stripName D name = some stripped)
    {named : Text × Text} (hnamed : canonicalizeEntity D name nerClass = some named)
    (hsolid : named.1 ≠ []) : named.1.length ≤ stripped.length ∨ Landed D named.1 := by
  by_cases hdrop : stripped = [] ∨ isJunk D stripped = true
  · rw [canonicalizeEntity_dropped hstrip hdrop] at hnamed
    cases hnamed
    exact absurd rfl hsolid
  rw [not_or, Bool.not_eq_true] at hdrop
  rw [canonicalizeEntity_kept hstrip hdrop.1 hdrop.2] at hnamed
  obtain ⟨canonical, hcanonical, hclass⟩ := Option.bind_eq_some_iff.mp hnamed
  have hname : named.1 = canonical := by
    split at hclass
    · rename_i hempty
      cases hclass
      exact hempty.symm
    · obtain ⟨corrected, -, rfl⟩ := Option.map_eq_some_iff.mp hclass
      rfl
  rw [hname]
  cases hreferent : referent D stripped with
  | none =>
    rw [hreferent] at hcanonical
    exact .inl (length_stripName_le hshort hcanonical)
  | some value =>
    have hlanded := landed_of_referent hreferent
    have hvalue := stripName_of_plain hlanded.clean hlanded.plain
    rw [hreferent, Option.getD_some, hvalue, Option.some_inj] at hcanonical
    exact .inr (hcanonical ▸ hlanded)

def SettlesAtOnce (D : CharData) (name nerClass : Text) : Prop :=
  ∃ named, canonicalizeEntity D name nerClass = some named ∧
    canonicalizeEntity D named.1 named.2 = some named

/-- The stripped name is dropped or known to the maps, or a second stripping
drops it or leaves a plain name, which is no junk and leads nowhere else, and
no person named as a region and an organization. -/
def IsSettled (D : CharData) (name nerClass : Text) : Prop :=
  ∃ stripped, stripName D name = some stripped ∧
    (stripped = [] ∨ isJunk D stripped = true ∨
      referent D stripped ≠ none ∨
      ∃ bare, stripName D stripped = some bare ∧
        (bare = [] ∨
          (IsPlain D bare ∧ isJunk D bare = false ∧
            Leads bare (referent D bare) ∧
            ¬(givenClass nerClass = personClass ∧
              isOrgRegion D bare = true))))

theorem settles_of_plain {bare : Text} (hclean : Clean bare) (hplain : IsPlain D bare)
    (hsolid : bare ≠ []) (hjunk : isJunk D bare = false) (hleads : Leads bare (referent D bare))
    (hclass : ¬(givenClass nerClass = personClass ∧ isOrgRegion D bare = true))
    (hfirst : canonicalizeEntity D name nerClass = some (bare, plainClass D bare (givenClass
      nerClass))) : SettlesAtOnce D name nerClass := by
  refine ⟨_, hfirst, ?_⟩
  rw [canonicalizeEntity_plain hclean hplain hsolid hjunk hleads,
    givenClass_plainClass, (plainClass_settles_iff bare _).mpr hclass]

theorem settlesAtOnce_of_isSettled (hsettled : IsSettled D name nerClass) :
    SettlesAtOnce D name nerClass := by
  obtain ⟨stripped, hstrip, hcases⟩ := hsettled
  have hempty : canonicalizeEntity D name nerClass =
      some ([], givenClass nerClass) → SettlesAtOnce D name nerClass := by
    intro hnamed
    refine ⟨_, hnamed, ?_⟩
    rw [canonicalizeEntity_nil, givenClass_givenClass]
  by_cases hdrop : stripped = [] ∨ isJunk D stripped = true
  · exact hempty (canonicalizeEntity_dropped hstrip hdrop nerClass)
  have hcases := (or_assoc.mpr hcases).resolve_left hdrop
  rw [not_or, Bool.not_eq_true] at hdrop
  have hkept := canonicalizeEntity_kept hstrip hdrop.1 hdrop.2 nerClass
  cases hreferent : referent D stripped with
  | some value =>
    have hlanded := landed_of_referent hreferent
    have hvalue := stripName_of_plain hlanded.clean hlanded.plain
    apply settles_of_plain hlanded.clean hlanded.plain hlanded.solid
      hlanded.notJunk hlanded.referent
    · rw [isOrgRegion, hlanded.notRegion]
      simp
    · rw [hkept, hreferent, Option.getD_some, hvalue, Option.bind_some,
        if_neg hlanded.solid, correctClass_of_plain hvalue, Option.map_some]
  | none =>
    obtain ⟨bare, hbare, hrest⟩ := hcases.resolve_left fun h => h hreferent
    rw [hreferent, Option.getD_none, hbare, Option.bind_some] at hkept
    rcases hrest with rfl | ⟨hplain, hjunk, hleads, hclass⟩
    · exact hempty hkept
    · by_cases hsolid : bare = []
      · subst hsolid
        exact hempty hkept
      have hclean := clean_of_stripName hbare
      apply settles_of_plain hclean hplain hsolid hjunk hleads hclass
      rw [hkept, if_neg hsolid, correctClass_of_plain (stripName_of_plain hclean
        hplain), Option.map_some]

theorem isSettled_of_settlesAtOnce (hshort : Short D.names)
    (hsettles : SettlesAtOnce D name nerClass) : IsSettled D name nerClass := by
  obtain ⟨named, hfirst, hsecond⟩ := hsettles
  cases hstrip : stripName D name with
  | none => simp [canonicalizeEntity, hstrip] at hfirst
  | some stripped =>
  refine ⟨stripped, hstrip, ?_⟩
  by_cases hdrop : stripped = [] ∨ isJunk D stripped = true
  · exact or_assoc.mp (.inl hdrop)
  refine or_assoc.mp (.inr ?_)
  rw [not_or, Bool.not_eq_true] at hdrop
  rw [canonicalizeEntity_kept hstrip hdrop.1 hdrop.2] at hfirst
  cases hreferent : referent D stripped with
  | some value => exact .inl (Option.some_ne_none value)
  | none =>
  right
  rw [hreferent, Option.getD_none] at hfirst
  obtain ⟨bare, hbare, hclass⟩ := Option.bind_eq_some_iff.mp hfirst
  refine ⟨bare, hbare, ?_⟩
  by_cases hsolid : bare = []
  · exact .inl hsolid
  right
  rw [if_neg hsolid] at hclass
  obtain ⟨corrected, hcorrected, rfl⟩ := Option.map_eq_some_iff.mp hclass
  have hclean := clean_of_stripName hbare
  cases hagain : stripName D bare with
  | none => simp [canonicalizeEntity, hagain] at hsecond
  | some again =>
  have hplain : IsPlain D bare := by
    rcases plain_or_shorter hshort hclean hagain with hplain | hlt
    · exact hplain
    · rcases length_or_landed hshort hagain hsecond hsolid with hle | hlanded
      · exact absurd (lt_of_lt_of_le hlt hle) (lt_irrefl _)
      · exact hlanded.plain
  have hstay := stripName_of_plain hclean hplain
  have hjunk : isJunk D bare = false := by
    by_contra hjunk
    rw [Bool.not_eq_false] at hjunk
    rw [canonicalizeEntity_dropped hstay (.inr hjunk), Option.some_inj] at hsecond
    exact hsolid (congrArg fst hsecond).symm
  rw [correctClass_of_plain hstay, Option.some_inj] at hcorrected
  have hleads : Leads bare (referent D bare) := by
    cases hvalue : referent D bare with
    | none => exact .inl rfl
    | some value =>
      have hlanded := landed_of_referent hvalue
      rw [canonicalizeEntity_kept hstay hsolid hjunk, hvalue, Option.getD_some, stripName_of_plain
        hlanded.clean hlanded.plain, Option.bind_some, if_neg hlanded.solid] at hsecond
      obtain ⟨other, -, heq⟩ := Option.map_eq_some_iff.mp hsecond
      exact .inr (congrArg (fun pair => some pair.1) heq)
  refine ⟨hplain, hjunk, hleads, ?_⟩
  rw [canonicalizeEntity_plain hclean hplain hsolid hjunk hleads, Option.some_inj,
    Prod.mk.injEq, ← hcorrected, givenClass_plainClass] at hsecond
  exact (plainClass_settles_iff bare _).mp hsecond.2

/-- One pass is enough for a name exactly if it is settled. -/
theorem canonicalizeEntity_settles_iff (hshort : Short D.names) (name nerClass : Text) :
    SettlesAtOnce D name nerClass ↔ IsSettled D name nerClass :=
  ⟨isSettled_of_settlesAtOnce hshort, settlesAtOnce_of_isSettled⟩

end

/-- The canon without an installed gazetteer, on texts of Latin-1 which hold no
reference by name. -/
def slim : CharData where
  names := fun _ => none
  lower := id
  isWord := fun _ => false
  isoCountries := []

theorem slim_short : Short slim.names := by
  intro name value hvalue
  cases hvalue

theorem canonicalizeEntity_settles_iff_possessive :
    Short slim.names ∧
      (SettlesAtOnce slim "(Iranian's)".toList "person".toList ↔
        IsSettled slim "(Iranian's)".toList "person".toList) :=
  ⟨slim_short, canonicalizeEntity_settles_iff slim_short _ _⟩

/-- A person of this name is typed an organization, and then a location. -/
theorem west_bank_changes_class : ¬SettlesAtOnce slim "West Bank".toList personClass := by
  have hfirst : canonicalizeEntity slim "West Bank".toList personClass =
      some ("West Bank".toList, organizationClass) := by
    decide +kernel
  have hsecond : canonicalizeEntity slim "West Bank".toList
      organizationClass = some ("West Bank".toList, locationClass) := by
    decide +kernel
  rintro ⟨named, hnamed, hagain⟩
  rw [hfirst, Option.some_inj] at hnamed
  rw [← hnamed, hsecond, Option.some_inj] at hagain
  exact absurd (congrArg snd hagain) (by decide)

end Legba.EntityNames
