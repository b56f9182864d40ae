import Legba.NexusEdgeWrites
import Legba.Words

/-!
# Spellings of a relation type

`_canonical_rel_type` splits a relation type into words, looks up the words
joined by blanks and joined without, and folds the case where neither is
mapped.  The lookups fold the case, but a hit is told from a miss by comparing
the outcome with the text as it is spelled.
-/

namespace Legba.RelationSpelling

open Facts (normalizePredicate predicateCanonical)
open Nexus (canonicalRelType)
open Words List

structure CaseData where
  casefold : Char → List Char
  isSpace : Char → Bool

def isUpper (letter : Char) : Bool :=
  decide ('A' ≤ letter ∧ letter ≤ 'Z')

def isLower (letter : Char) : Bool :=
  decide ('a' ≤ letter ∧ letter ≤ 'z')

def isDigit (letter : Char) : Bool :=
  decide ('0' ≤ letter ∧ letter ≤ '9')

/-- `_CAMEL_BOUNDARY_RE` between two letters. -/
def isBoundary (before next : Char) (behind : List Char) : Bool :=
  ((isLower before || isDigit before) && isUpper next) ||
    (isUpper before && isUpper next && behind.head?.any isLower)

def spaceCamel : List Char → List Char
  | before :: next :: behind =>
    if isBoundary before next behind then
      before :: ' ' :: spaceCamel (next :: behind)
    else before :: spaceCamel (next :: behind)
  | text => text

section

variable (U : CaseData)

def isSeparator (letter : Char) : Bool :=
  U.isSpace letter || letter == '-' || letter == '_'

def casefoldText (text : List Char) : List Char := text.flatMap U.casefold

/-- The texts of a write, with the steps of `_canonical_rel_type` spelled
out. -/
def relationText (base : Nexus.TextFns) : Nexus.TextFns :=
  { base with
    strip := fun text => String.ofList (strip U.isSpace text.toList)
    casefold := fun text => String.ofList (casefoldText U text.toList)
    spaceCamel := fun text => String.ofList (spaceCamel text.toList)
    collapseSeparators := fun text => String.ofList
      (strip U.isSpace (collapse (isSeparator U) ' ' text.toList)) }

def relWords (relType : String) : List (List Char) :=
  words (isSeparator U) (spaceCamel relType.toList)

end

structure CaseFacts (U : CaseData) : Prop where
  ascii_fold : ∀ letter : Char, letter.toNat < 128 → U.casefold letter = [letter.toLower]
  ascii_space : ∀ letter : Char, letter.toNat < 128 →
    (U.isSpace letter = true ↔ 9 ≤ letter.toNat ∧ letter.toNat ≤ 13 ∨
      28 ≤ letter.toNat ∧ letter.toNat ≤ 32)
  fold_word : ∀ letter, isSeparator U letter = false → IsWord (isSeparator U) (U.casefold letter)
  fold_upper : ∀ letter, ∀ other ∈ U.casefold letter, isUpper other = false
  fold_fold : ∀ letter, casefoldText U (U.casefold letter) = U.casefold letter

/-! ## Lookups -/

def resolve (U : CaseData) (parts : List (List Char)) : String :=
  let folded := parts.map (casefoldText U)
  match predicateCanonical.lookup (String.ofList (join ' ' folded)) with
  | some value => value
  | none =>
    match predicateCanonical.lookup (String.ofList folded.flatten) with
    | some value =>
      if value = String.ofList parts.flatten then
        String.ofList (join ' ' folded)
      else value
    | none => String.ofList (join ' ' folded)

variable {U : CaseData} {base : Nexus.TextFns}

variable {text : List Char} {letter : Char} {relType : String}

theorem spaceCamel_of_no_upper (htext : ∀ letter ∈ text, isUpper letter = false) :
    spaceCamel text = text := by
  fun_induction spaceCamel text with
  | case1 before next behind hboundary ih =>
    have hnext := htext next (by simp)
    simp [isBoundary, hnext] at hboundary
  | case2 before next behind hboundary ih =>
    rw [ih fun letter hletter => htext letter (mem_cons_of_mem _ hletter)]
  | case3 text => rfl

theorem isSpace_of_separator (hletter : isSeparator U letter = false) :
    U.isSpace letter = false := by
  simp only [isSeparator, Bool.or_eq_false_iff] at hletter
  exact hletter.1.1

theorem relWords_isWord (relType : String) :
    ∀ word ∈ relWords U relType, IsWord (isSeparator U) word :=
  fun _ hword => isWord_of_mem hword

theorem normalizePredicate_eq (hstrip : strip U.isSpace text = text) :
    normalizePredicate (relationText U base).toTextFns (String.ofList text) =
      (predicateCanonical.lookup (String.ofList (casefoldText U text))).getD
        (String.ofList text) := by
  unfold normalizePredicate
  simp only [relationText, String.toList_ofList, hstrip, or_self]
  by_cases hempty : String.ofList text = ""
  · rw [if_pos hempty]
    have hnil : text = [] := by
      rw [← String.toList_ofList (l := text), hempty]
      rfl
    rw [hnil]
    rfl
  · rw [if_neg hempty]

theorem fold_flatten (parts : List (List Char)) :
    casefoldText U parts.flatten = (parts.map (casefoldText U)).flatten := by
  induction parts with
  | nil => rfl
  | cons word rest ih =>
    rw [map_cons, flatten_cons, flatten_cons, ← ih]
    exact flatMap_append

theorem plain_of_isWord {word : List Char} (hword : IsWord (isSeparator U) word) :
    word ≠ [] ∧ ∀ letter ∈ word, U.isSpace letter = false :=
  ⟨hword.1, fun letter hletter => isSpace_of_separator (hword.2 letter hletter)⟩

theorem strip_flatten {parts : List (List Char)}
    (hparts : ∀ word ∈ parts, IsWord (isSeparator U) word) :
    strip U.isSpace parts.flatten = parts.flatten := by
  have hplain : ∀ letter ∈ parts.flatten, U.isSpace letter = false := by
    intro letter hletter
    obtain ⟨word, hword, hmem⟩ := mem_flatten.mp hletter
    exact (plain_of_isWord (hparts word hword)).2 letter hmem
  rw [strip, dropWhile_eq_self_iff.mpr, rdropWhile_word hplain]
  intro hlength
  rw [hplain _ (getElem_mem hlength)]
  exact Bool.false_ne_true

namespace CaseFacts

variable (hfacts : CaseFacts U)

include hfacts

theorem isSpace_blank : U.isSpace ' ' = true :=
  (hfacts.ascii_space ' ' (by decide)).mpr (by decide)

theorem isSeparator_blank : isSeparator U ' ' = true := by
  simp [isSeparator, hfacts.isSpace_blank]

variable {word : List Char}

theorem fold_isWord (hword : IsWord (isSeparator U) word) :
    IsWord (isSeparator U) (casefoldText U word) := by
  constructor
  · obtain ⟨first, rest, rfl⟩ := exists_cons_of_ne_nil hword.1
    have hfirst := (hfacts.fold_word first (hword.2 first mem_cons_self)).1
    simp [casefoldText, hfirst]
  · intro letter hletter
    obtain ⟨other, hother, hmem⟩ := mem_flatMap.mp hletter
    exact (hfacts.fold_word other (hword.2 other hother)).2 letter hmem

theorem fold_casefoldText (text : List Char) :
    casefoldText U (casefoldText U text) = casefoldText U text := by
  induction text with
  | nil => rfl
  | cons letter rest ih =>
    have hsplit : casefoldText U (letter :: rest) = U.casefold letter ++ casefoldText U rest := rfl
    have happend : ∀ a b, casefoldText U (a ++ b) = casefoldText U a ++ casefoldText U b :=
      fun a b => flatMap_append
    rw [hsplit, happend, hfacts.fold_fold, ih]

theorem fold_join (parts : List (List Char)) :
    casefoldText U (join ' ' parts) = join ' ' (parts.map (casefoldText U)) := by
  have hblank : U.casefold ' ' = [' '] := hfacts.ascii_fold ' ' (by decide)
  induction parts with
  | nil => rfl
  | cons word rest ih =>
    cases rest with
    | nil => rfl
    | cons next rest =>
      simp only [map_cons, join] at ih ⊢
      rw [← ih]
      simp [casefoldText, hblank]

theorem blank_notMem (hword : IsWord (isSeparator U) word) :
    ' ' ∉ word := fun hmem => Bool.false_ne_true
  ((hword.2 ' ' hmem).symm.trans hfacts.isSeparator_blank)

theorem folded_isWord {parts : List (List Char)}
    (hparts : ∀ word ∈ parts, IsWord (isSeparator U) word) :
    ∀ word ∈ parts.map (casefoldText U), IsWord (isSeparator U) word := by
  intro word hword
  obtain ⟨first, hfirst, rfl⟩ := mem_map.mp hword
  exact hfacts.fold_isWord (hparts first hfirst)

theorem spaced_eq (base : Nexus.TextFns) (relType : String) :
    (relationText U base).collapseSeparators ((relationText U base).spaceCamel relType) =
      String.ofList (join ' ' (relWords U relType)) := by
  have hspace : ∀ letter, U.isSpace letter = true → isSeparator U letter = true := by
    intro letter hletter
    simp [isSeparator, hletter]
  simp only [relationText, String.toList_ofList]
  rw [strip_collapse hspace hfacts.isSeparator_blank hfacts.isSpace_blank]
  rfl

end CaseFacts

def canonicalValues : List String := predicateCanonical.map Prod.snd

theorem lookup_tight : ∀ value ∈ canonicalValues,
    predicateCanonical.lookup
      (String.ofList (value.toList.filter fun letter =>
        decide (letter ≠ ' '))) = some value := by
  decide +kernel

theorem lookup_value : ∀ value ∈ canonicalValues,
    predicateCanonical.lookup value = none ∨ predicateCanonical.lookup value = some value := by
  decide +kernel

def isCanonicalLetter (letter : Char) : Bool :=
  decide (letter = ' ') || (decide (97 ≤ letter.toNat) && decide (letter.toNat ≤ 122))

theorem values_canonical :
    canonicalValues.all (fun value => value.toList.all isCanonicalLetter) =
      true := by
  decide +kernel

theorem value_letters : ∀ value ∈ canonicalValues, ∀ letter ∈ value.toList,
    letter.toNat < 128 ∧ letter.toLower = letter ∧ isUpper letter = false ∧
      (letter = ' ' ∨ 97 ≤ letter.toNat) := by
  intro value hvalue letter hletter
  have hcanonical := all_eq_true.mp (all_eq_true.mp values_canonical value hvalue) letter hletter
  simp only [isCanonicalLetter, Bool.or_eq_true, Bool.and_eq_true, decide_eq_true_iff] at hcanonical
  rcases hcanonical with rfl | ⟨hlow, hhigh⟩
  · exact ⟨by decide, rfl, rfl, .inl rfl⟩
  · have hnot : ¬(letter.val ≥ 'A'.val ∧ letter.val ≤ 'Z'.val) := by
      rintro ⟨-, hupper⟩
      have hcode : letter.toNat ≤ 90 := hupper
      omega
    refine ⟨by omega, ?_, decide_eq_false hnot, .inr hlow⟩
    exact dif_neg hnot

theorem join_value : ∀ value ∈ canonicalValues,
    join ' ' (words (fun letter => decide (letter = ' ')) value.toList) = value.toList := by
  decide +kernel

theorem mem_values_of_lookup {key value : String}
    (hlookup : predicateCanonical.lookup key = some value) : value ∈ canonicalValues := by
  obtain ⟨before, after, hsplit, -⟩ := lookup_eq_some_iff.mp hlookup
  rw [canonicalValues, hsplit]
  simp

def IsBlank (U : CaseData) (relType : String) : Prop :=
  strip U.isSpace relType.toList = []

instance (relType : String) : Decidable (IsBlank U relType) :=
  inferInstanceAs (Decidable (_ = _))

def leftover (U : CaseData) (relType : String) : String :=
  if IsBlank U relType then relType else ""

theorem canonicalRelType_blank (hblank : IsBlank U relType) :
    canonicalRelType (relationText U base) relType = relType := by
  have hstrip : (relationText U base).strip relType = "" := by
    simp only [relationText]
    rw [show strip U.isSpace relType.toList = [] from hblank]
  rw [canonicalRelType, if_pos (.inr hstrip)]

namespace CaseFacts

variable (hfacts : CaseFacts U)

include hfacts

variable {value : String}

theorem fold_value (hvalue : value ∈ canonicalValues) {text : List Char}
    (htext : ∀ letter ∈ text, letter ∈ value.toList) : casefoldText U text = text := by
  induction text with
  | nil => rfl
  | cons letter rest ih =>
    rw [forall_mem_cons] at htext
    obtain ⟨hascii, hlower, -⟩ := value_letters value hvalue letter htext.1
    have hsplit : casefoldText U (letter :: rest) = U.casefold letter ++ casefoldText U rest := rfl
    rw [hsplit, hfacts.ascii_fold letter hascii, hlower, ih htext.2, singleton_append]

theorem lookup_of_spaced {parts : List (List Char)}
    (hparts : ∀ word ∈ parts, IsWord (isSeparator U) word) (hvalue : value ∈ canonicalValues)
    (hspaced : value = String.ofList (join ' ' parts)) :
    predicateCanonical.lookup (String.ofList (casefoldText U parts.flatten)) = some value ∧
      String.ofList (casefoldText U (join ' ' parts)) = value := by
  have htext : value.toList = join ' ' parts := by rw [hspaced, String.toList_ofList]
  have hflatten : parts.flatten = value.toList.filter fun letter => decide (letter ≠ ' ') := by
    rw [htext, filter_join fun word hword => hfacts.blank_notMem (hparts word hword)]
  constructor
  · rw [hfacts.fold_value hvalue (fun letter hletter => by
      rw [hflatten] at hletter
      exact (mem_filter.mp hletter).1), hflatten]
    exact lookup_tight value hvalue
  · rw [hfacts.fold_value hvalue (fun letter hletter => by rwa [htext]), hspaced]

theorem canonicalRelType_eq {relType : String} (hblank : ¬ IsBlank U relType) :
    canonicalRelType (relationText U base) relType = resolve U (relWords U relType) := by
  have hparts := relWords_isWord (U := U) relType
  have hspaced := hfacts.spaced_eq base relType
  have hstrip : strip U.isSpace (join ' ' (relWords U relType)) = join ' ' (relWords U relType) :=
    strip_join fun word hword => plain_of_isWord (hparts word hword)
  have htight : (String.ofList (join ' ' (relWords U relType))).toList.filter
      (· ≠ ' ') = (relWords U relType).flatten := by
    rw [String.toList_ofList]
    exact filter_join fun word hword => hfacts.blank_notMem (hparts word hword)
  have hguard : ¬(relType = "" ∨ (relationText U base).strip relType = "") := by
    rintro (rfl | hempty)
    · exact hblank rfl
    · refine hblank ?_
      have hlist := congrArg String.toList hempty
      simp only [relationText, String.toList_ofList] at hlist
      exact hlist
  have hfold : (relationText U base).casefold
      (String.ofList (join ' ' (relWords U relType))) =
        String.ofList (casefoldText U (join ' ' (relWords U relType))) := by
    simp [relationText]
  unfold canonicalRelType resolve
  rw [if_neg hguard, hspaced]
  simp only [htight, hfold]
  rw [normalizePredicate_eq hstrip, normalizePredicate_eq (strip_flatten
    hparts), ← hfacts.fold_join, ← fold_flatten]
  generalize relWords U relType = parts at *
  cases hlookup : predicateCanonical.lookup (String.ofList (casefoldText U (join ' ' parts))) with
  | some value =>
    have hvalue := mem_values_of_lookup hlookup
    simp only [Option.getD_some]
    by_cases hsame : value = String.ofList (join ' ' parts)
    · obtain ⟨hfound, hfolded⟩ := hfacts.lookup_of_spaced hparts hvalue hsame
      rw [if_neg (not_not.mpr hsame), hfound, Option.getD_some, hfolded, ite_id]
    · rw [if_pos hsame]
  | none =>
    simp only [Option.getD_none, ne_eq, not_true, if_false]
    cases predicateCanonical.lookup (String.ofList (casefoldText U parts.flatten)) with
    | some value => simp only [Option.getD_some, ite_not]
    | none => simp

end CaseFacts

def mapped (folded : List (List Char)) : String :=
  ((predicateCanonical.lookup (String.ofList (join ' ' folded))).or
    (predicateCanonical.lookup (String.ofList folded.flatten))).getD
      (String.ofList (join ' ' folded))

/-! ## Several words which spell one -/

def singleValues : List String := ["sanctions", "targets"]

/-- The words of the spelling are several and, joined without blanks, are a
canonical form as it stands in the vocabulary. -/
def IsHidden (U : CaseData) (relType : String) : Prop :=
  ∃ value ∈ singleValues, (relWords U relType).flatten = value.toList ∧
    relWords U relType ≠ [value.toList]

theorem mem_singleValues : ∀ value ∈ canonicalValues,
    ' ' ∉ value.toList → value ∈ singleValues := by
  decide +kernel

theorem singleValues_canonical : ∀ value ∈ singleValues,
    value ∈ canonicalValues ∧ ' ' ∉ value.toList ∧
      predicateCanonical.lookup value = some value := by
  decide +kernel

theorem key_of_single : ∀ entry ∈ predicateCanonical,
    ∀ value ∈ singleValues,
      entry.1.toList.filter (fun letter => decide (letter ≠ ' ')) =
        value.toList → entry.1 = value := by
  decide +kernel

namespace CaseFacts

variable (hfacts : CaseFacts U)

include hfacts

theorem isHidden_iff (relType : String) :
    IsHidden U relType ↔
      predicateCanonical.lookup (String.ofList
          (join ' ' ((relWords U relType).map (casefoldText U)))) = none ∧
        predicateCanonical.lookup (String.ofList
            ((relWords U relType).map (casefoldText U)).flatten) =
          some (String.ofList (relWords U relType).flatten) := by
  have hparts := relWords_isWord (U := U) relType
  have hfree : ∀ word ∈ relWords U relType, ' ' ∉ word :=
    fun word hword => hfacts.blank_notMem (hparts word hword)
  have hfolded := hfacts.folded_isWord hparts
  unfold IsHidden
  generalize relWords U relType = parts at *
  rw [← fold_flatten]
  constructor
  · rintro ⟨value, hvalue, hflatten, hseveral⟩
    obtain ⟨hcanonical, hblank, hlookup⟩ := singleValues_canonical value hvalue
    have hfold : casefoldText U value.toList = value.toList :=
      hfacts.fold_value hcanonical fun _ h => h
    rw [hflatten, hfold, String.ofList_toList]
    refine ⟨?_, hlookup⟩
    -- a key with these letters would be the canonical form itself
    cases hkey : predicateCanonical.lookup
        (String.ofList (join ' ' (parts.map (casefoldText U)))) with
    | none => rfl
    | some found =>
      exfalso
      obtain ⟨before, after, hsplit, -⟩ := lookup_eq_some_iff.mp hkey
      have hentry : (String.ofList (join ' '
          (parts.map (casefoldText U))), found) ∈ predicateCanonical := by
        rw [hsplit]
        simp
      have hletters : (join ' ' (parts.map (casefoldText U))).filter
          (fun letter => decide (letter ≠ ' ')) = value.toList := by
        rw [filter_join fun word hword =>
          hfacts.blank_notMem (hfolded word hword), ← fold_flatten,
          hflatten, hfold]
      have hsame := key_of_single _ hentry value hvalue
        (by rw [String.toList_ofList]; exact hletters)
      have hjoin : join ' ' (parts.map (casefoldText U)) = value.toList := by
        rw [← hsame, String.toList_ofList]
      cases parts with
      | nil =>
        rw [flatten_nil] at hflatten
        rw [← String.ofList_toList (s := value), ← hflatten] at hlookup
        exact absurd hlookup (by decide)
      | cons word rest =>
        cases rest with
        | nil =>
          rw [flatten_singleton] at hflatten
          exact hseveral (by rw [hflatten])
        | cons next rest =>
          refine hblank ?_
          rw [← hjoin]
          simp [join]
  · rintro ⟨hmiss, hhit⟩
    have hcanonical := mem_values_of_lookup hhit
    have hblank : ' ' ∉ (String.ofList parts.flatten).toList := by
      rw [String.toList_ofList]
      intro hmem
      obtain ⟨word, hword, hletter⟩ := mem_flatten.mp hmem
      exact hfree word hword hletter
    have hsingle := mem_singleValues _ hcanonical hblank
    refine ⟨String.ofList parts.flatten, hsingle, String.toList_ofList.symm, ?_⟩
    intro hone
    have hlookup := (singleValues_canonical _ hsingle).2.2
    have hfold := hfacts.fold_value hcanonical fun _ h => h
    rw [hone] at hmiss
    rw [map_singleton, hfold, join, String.ofList_toList, hlookup] at hmiss
    exact absurd hmiss (Option.some_ne_none _)

variable {relType : String} {parts : List (List Char)}

theorem resolve_of_not_hidden (hhidden : ¬ IsHidden U relType) :
    resolve U (relWords U relType) = mapped ((relWords U relType).map (casefoldText U)) := by
  rw [hfacts.isHidden_iff] at hhidden
  unfold resolve mapped
  generalize (relWords U relType).map (casefoldText U) = folded at *
  cases hfirst : predicateCanonical.lookup (String.ofList (join ' ' folded)) with
  | some value => simp only [hfirst, Option.some_or, Option.getD_some]
  | none =>
    cases hsecond : predicateCanonical.lookup (String.ofList folded.flatten) with
    | none => simp only [hfirst, hsecond, Option.or_none, Option.getD_none]
    | some value =>
      have hother : value ≠ String.ofList (relWords U relType).flatten :=
        fun heq => hhidden ⟨hfirst, heq ▸ hsecond⟩
      simp only [hfirst, hsecond, Option.none_or, Option.getD_some, if_neg hother]

theorem resolve_of_hidden (hhidden : IsHidden U relType) :
    resolve U (relWords U relType) =
      String.ofList (join ' ' ((relWords U relType).map (casefoldText U))) := by
  obtain ⟨hmiss, hhit⟩ := (hfacts.isHidden_iff relType).mp hhidden
  simp only [resolve, hmiss, hhit, if_true]

theorem mapped_of_hidden (hhidden : IsHidden U relType) :
    mapped ((relWords U relType).map (casefoldText U)) ≠
      String.ofList (join ' ' ((relWords U relType).map (casefoldText U))) := by
  obtain ⟨hmiss, hhit⟩ := (hfacts.isHidden_iff relType).mp hhidden
  obtain ⟨value, hvalue, hflatten, -⟩ := hhidden
  have hlookup := (singleValues_canonical value hvalue).2.2
  rw [hflatten, String.ofList_toList] at hhit
  intro hsame
  rw [mapped, hmiss, hhit, Option.none_or, Option.getD_some] at hsame
  rw [← hsame, hlookup] at hmiss
  exact Option.some_ne_none _ hmiss

/-! ## One form once more -/

theorem relWords_join (hparts : ∀ word ∈ parts, IsWord (isSeparator U) word)
    (hlower : ∀ word ∈ parts, ∀ letter ∈ word, isUpper letter = false) :
    relWords U (String.ofList (join ' ' parts)) = parts := by
  unfold relWords
  rw [String.toList_ofList, spaceCamel_of_no_upper, words_join hfacts.isSeparator_blank hparts]
  intro letter hletter
  rcases mem_join hletter with rfl | ⟨word, hword, hmem⟩
  · decide
  · exact hlower word hword letter hmem

theorem not_isBlank_join (hparts : ∀ word ∈ parts, IsWord (isSeparator U) word)
    (hne : parts ≠ []) : ¬ IsBlank U (String.ofList (join ' ' parts)) := by
  unfold IsBlank
  rw [String.toList_ofList, strip_join fun word hword => plain_of_isWord (hparts word hword)]
  intro hnil
  have hwords := words_join hfacts.isSeparator_blank hparts
  rw [hnil, words_nil] at hwords
  exact hne hwords.symm

variable {value : String}

theorem relWords_value (hvalue : value ∈ canonicalValues) :
    join ' ' (relWords U value) = value.toList := by
  have hsame : ∀ letter ∈ value.toList, isSeparator U letter = decide (letter = ' ') := by
    intro letter hletter
    obtain ⟨hascii, -, -, hblank | hlow⟩ := value_letters value hvalue letter hletter
    · subst hblank
      exact hfacts.isSeparator_blank
    · have hspace : U.isSpace letter ≠ true := fun hspace => by
        have hcode := (hfacts.ascii_space letter hascii).mp hspace
        omega
      have hne : ∀ other : Char, other.toNat < 97 → letter ≠ other := by
        rintro other hother rfl
        omega
      simp [isSeparator, hspace, hne ' ' (by decide), hne '-' (by decide), hne '_' (by decide)]
  unfold relWords
  rw [spaceCamel_of_no_upper fun letter hletter =>
    (value_letters value hvalue letter hletter).2.2.1, words_congr hsame,
    join_value value hvalue]

theorem canonicalRelType_value (hvalue : value ∈ canonicalValues) :
    canonicalRelType (relationText U base) value = value := by
  have hparts := relWords_isWord (U := U) value
  have hjoin := hfacts.relWords_value hvalue
  have hspaced : value = String.ofList (join ' ' (relWords U value)) := by
    rw [hjoin, String.ofList_toList]
  obtain ⟨htight, hfolded⟩ := hfacts.lookup_of_spaced hparts hvalue hspaced
  have hne : relWords U value ≠ [] := by
    intro hnil
    rw [hnil] at hspaced
    rw [hspaced] at hvalue
    exact absurd hvalue (by decide +kernel)
  have hblank := hfacts.not_isBlank_join hparts hne
  rw [← hspaced] at hblank
  rw [hfacts.fold_join] at hfolded
  rw [fold_flatten] at htight
  rw [hfacts.canonicalRelType_eq hblank]
  unfold resolve
  simp only [hfolded, htight]
  rcases lookup_value value hvalue with hmiss | hhit
  · simp only [hmiss, ite_self]
  · simp only [hhit]

theorem canonicalRelType_join (hparts : ∀ word ∈ parts, IsWord (isSeparator U) word)
    (hlower : ∀ word ∈ parts, ∀ letter ∈ word, isUpper letter = false)
    (hfold : parts.map (casefoldText U) = parts)
    (hfirst : predicateCanonical.lookup (String.ofList (join ' ' parts)) = none)
    (hsecond : ∀ value, predicateCanonical.lookup (String.ofList parts.flatten) =
      some value → value = String.ofList parts.flatten) :
    canonicalRelType (relationText U base) (String.ofList (join ' ' parts)) =
      String.ofList (join ' ' parts) := by
  by_cases hne : parts = []
  · subst hne
    exact canonicalRelType_blank rfl
  · rw [hfacts.canonicalRelType_eq (hfacts.not_isBlank_join hparts hne),
      hfacts.relWords_join hparts hlower]
    unfold resolve
    simp only [hfold, hfirst]
    cases hlookup : predicateCanonical.lookup (String.ofList parts.flatten) with
    | none => rfl
    | some value => simp only [if_pos (hsecond value hlookup)]

theorem canonicalRelType_canonicalRelType (relType : String) :
    canonicalRelType (relationText U base) (canonicalRelType (relationText U base) relType) =
      canonicalRelType (relationText U base) relType := by
  by_cases hblank : IsBlank U relType
  · rw [canonicalRelType_blank hblank, canonicalRelType_blank hblank]
  · rw [hfacts.canonicalRelType_eq hblank]
    have hparts := relWords_isWord (U := U) relType
    have hfolded := hfacts.folded_isWord hparts
    have hlower : ∀ word ∈ (relWords U relType).map (casefoldText U),
        ∀ letter ∈ word, isUpper letter = false := by
      intro word hword letter hletter
      obtain ⟨first, -, rfl⟩ := mem_map.mp hword
      obtain ⟨other, -, hmem⟩ := mem_flatMap.mp hletter
      exact hfacts.fold_upper other letter hmem
    have hfold : ((relWords U relType).map (casefoldText U)).map
        (casefoldText U) = (relWords U relType).map (casefoldText U) := by
      rw [map_map]
      exact map_congr_left fun word _ => hfacts.fold_casefoldText word
    by_cases hhidden : IsHidden U relType
    · rw [hfacts.resolve_of_hidden hhidden]
      obtain ⟨hmiss, hhit⟩ := (hfacts.isHidden_iff relType).mp hhidden
      refine hfacts.canonicalRelType_join hfolded hlower hfold hmiss ?_
      intro value hvalue
      obtain rfl : String.ofList (relWords U relType).flatten = value :=
        Option.some.inj (hhit.symm.trans hvalue)
      rw [← fold_flatten, hfacts.fold_value (mem_values_of_lookup hhit)
        fun letter hletter => by rwa [String.toList_ofList]]
    · rw [hfacts.resolve_of_not_hidden hhidden]
      generalize (relWords U relType).map (casefoldText U) = folded at *
      unfold mapped
      cases hfirst : predicateCanonical.lookup (String.ofList (join ' ' folded)) with
      | some value => exact hfacts.canonicalRelType_value (mem_values_of_lookup hfirst)
      | none =>
        cases hsecond : predicateCanonical.lookup (String.ofList folded.flatten) with
        | some value => exact hfacts.canonicalRelType_value (mem_values_of_lookup hsecond)
        | none =>
          exact hfacts.canonicalRelType_join hfolded hlower hfold hfirst
            fun value hvalue => absurd (hsecond.symm.trans hvalue) (Option.some_ne_none _).symm

theorem relWords_of_isBlank (hblank : IsBlank U relType) : relWords U relType = [] := by
  have hspaces : ∀ letter ∈ relType.toList, U.isSpace letter = true := by
    have hrest := rdropWhile_eq_nil_iff.mp hblank
    intro letter hletter
    rw [← takeWhile_append_dropWhile (p := U.isSpace) (l := relType.toList)] at hletter
    rcases mem_append.mp hletter with hfront | htail
    · exact mem_takeWhile_imp hfront
    · exact hrest letter htail
  have hlower : ∀ letter ∈ relType.toList, isUpper letter = false := by
    intro letter hletter
    by_contra hupper
    rw [Bool.not_eq_false] at hupper
    obtain ⟨hlow, hhigh⟩ := of_decide_eq_true hupper
    have hlow : 65 ≤ letter.toNat := hlow
    have hhigh : letter.toNat ≤ 90 := hhigh
    have hcode := (hfacts.ascii_space letter (by omega)).mp (hspaces letter hletter)
    omega
  unfold relWords
  rw [spaceCamel_of_no_upper hlower]
  exact words_of_blanks fun letter hletter => by simp [isSeparator, hspaces letter hletter]

theorem canonicalRelType_of_no_words (hwords : relWords U relType = []) :
    canonicalRelType (relationText U base) relType = leftover U relType := by
  unfold leftover
  by_cases hblank : IsBlank U relType
  · rw [if_pos hblank, canonicalRelType_blank hblank]
  · rw [if_neg hblank, hfacts.canonicalRelType_eq hblank, hwords]
    rfl

end CaseFacts

def SameWords (U : CaseData) (left right : String) : Prop :=
  (relWords U left).map (casefoldText U) = (relWords U right).map (casefoldText U)

/-- The canonical form is stable, and it is the same for both spellings if
their words are. -/
structure Converges (U : CaseData) (base : Nexus.TextFns) (left right : String) : Prop where
  stable : canonicalRelType (relationText U base) (canonicalRelType (relationText U base) left) =
    canonicalRelType (relationText U base) left
  same : SameWords U left right →
    canonicalRelType (relationText U base) left = canonicalRelType (relationText U base) right

theorem not_isHidden_of_no_words (hwords : relWords U relType = []) : ¬ IsHidden U relType := by
  rintro ⟨value, hvalue, hflatten, -⟩
  rw [hwords] at hflatten
  have hempty : ∀ value ∈ singleValues, value.toList ≠ [] := by decide
  exact hempty value hvalue hflatten.symm

theorem canonicalRelType_eq_iff (hfacts : CaseFacts U) {left right : String}
    (hsame : SameWords U left right) :
    canonicalRelType (relationText U base) left = canonicalRelType (relationText U base) right ↔
      (IsHidden U left ↔ IsHidden U right) ∧
        (relWords U left = [] → leftover U left = leftover U right) := by
  by_cases hleft : relWords U left = []
  · have hright : relWords U right = [] := by
      unfold SameWords at hsame
      rw [hleft] at hsame
      exact map_eq_nil_iff.mp hsame.symm
    rw [hfacts.canonicalRelType_of_no_words hleft, hfacts.canonicalRelType_of_no_words hright]
    simp only [not_isHidden_of_no_words hleft, not_isHidden_of_no_words hright,
      hleft, true_and, forall_const]
  · have hright : relWords U right ≠ [] := by
      intro hnil
      unfold SameWords at hsame
      rw [hnil] at hsame
      exact hleft (map_eq_nil_iff.mp hsame)
    rw [hfacts.canonicalRelType_eq fun hblank =>
        hleft (hfacts.relWords_of_isBlank hblank),
      hfacts.canonicalRelType_eq fun hblank => hright (hfacts.relWords_of_isBlank hblank)]
    simp only [hleft, false_implies, and_true]
    by_cases hhiddenLeft : IsHidden U left
    · by_cases hhiddenRight : IsHidden U right
      · rw [hfacts.resolve_of_hidden hhiddenLeft, hfacts.resolve_of_hidden hhiddenRight, hsame]
        exact iff_of_true rfl (iff_of_true hhiddenLeft hhiddenRight)
      · rw [hfacts.resolve_of_hidden hhiddenLeft,
          hfacts.resolve_of_not_hidden hhiddenRight, ← hsame]
        refine iff_of_false (Ne.symm (hfacts.mapped_of_hidden hhiddenLeft)) ?_
        exact fun hiff => hhiddenRight (hiff.mp hhiddenLeft)
    · by_cases hhiddenRight : IsHidden U right
      · rw [hfacts.resolve_of_not_hidden hhiddenLeft, hfacts.resolve_of_hidden hhiddenRight, hsame]
        refine iff_of_false (hfacts.mapped_of_hidden hhiddenRight) ?_
        exact fun hiff => hhiddenLeft (hiff.mpr hhiddenRight)
      · rw [hfacts.resolve_of_not_hidden hhiddenLeft,
          hfacts.resolve_of_not_hidden hhiddenRight, hsame]
        exact iff_of_true rfl (iff_of_false hhiddenLeft hhiddenRight)

/-- Spellings of the same words converge unless one of them hides a canonical
form which the other does not. -/
theorem converges_iff (hfacts : CaseFacts U) (left right : String) :
    Converges U base left right ↔
      (SameWords U left right → (IsHidden U left ↔ IsHidden U right) ∧
        (relWords U left = [] → leftover U left = leftover U right)) := by
  constructor
  · exact fun hconverges hsame => (canonicalRelType_eq_iff hfacts hsame).mp (hconverges.same hsame)
  · exact fun hagree =>
      ⟨hfacts.canonicalRelType_canonicalRelType left, fun hsame =>
        (canonicalRelType_eq_iff hfacts hsame).mpr (hagree hsame)⟩

def asciiCase : CaseData where
  casefold := fun letter => [letter.toLower]
  isSpace := fun letter => decide (9 ≤ letter.toNat ∧ letter.toNat ≤ 13 ∨
    28 ≤ letter.toNat ∧ letter.toNat ≤ 32)

theorem toLower_cases (letter : Char) :
    letter.toLower = letter ∧ isUpper letter = false ∨
      97 ≤ letter.toLower.toNat ∧ letter.toLower.toNat ≤ 122 := by
  by_cases hupper : letter.val ≥ 'A'.val ∧ letter.val ≤ 'Z'.val
  · right
    have hlow : 65 ≤ letter.val.toNat := hupper.1
    have hhigh : letter.val.toNat ≤ 90 := hupper.2
    have hcode : letter.toLower.toNat = letter.val.toNat + 32 := by
      have hlower : letter.toLower.val = letter.val + 32 := congrArg Char.val (dif_pos hupper)
      change letter.toLower.val.toNat = _
      rw [hlower]
      change (letter.val.toNat + 32) % 4294967296 = _
      omega
    omega
  · left
    exact ⟨dif_neg hupper, decide_eq_false hupper⟩

theorem isUpper_eq_false (hletter : 97 ≤ letter.toNat) : isUpper letter = false := by
  refine decide_eq_false fun hupper => ?_
  have hhigh : letter.toNat ≤ 90 := hupper.2
  omega

theorem isUpper_toLower (letter : Char) : isUpper letter.toLower = false := by
  rcases toLower_cases letter with ⟨hsame, hupper⟩ | hlower
  · rw [hsame, hupper]
  · exact isUpper_eq_false hlower.1

theorem toLower_toLower (letter : Char) : letter.toLower.toLower = letter.toLower := by
  exact dif_neg (of_decide_eq_false (isUpper_toLower letter))

theorem asciiCase_facts : CaseFacts asciiCase where
  ascii_fold := fun _ _ => rfl
  ascii_space := fun letter _ => decide_eq_true_iff
  fold_word := fun letter hletter => by
    refine ⟨cons_ne_nil _ _, fun other hother => ?_⟩
    rw [mem_singleton.mp hother]
    rcases toLower_cases letter with ⟨hsame, -⟩ | hlower
    · rw [hsame]
      exact hletter
    · have hne : ∀ code : Char, code.toNat < 97 → letter.toLower ≠ code := by
        intro code hcode heq
        rw [heq] at hlower
        omega
      have hspace : asciiCase.isSpace letter.toLower = false := decide_eq_false (by omega)
      simp [isSeparator, hspace, hne '-' (by decide), hne '_' (by decide)]
  fold_upper := fun letter other hother => by
    rw [mem_singleton.mp hother]
    exact isUpper_toLower letter
  fold_fold := fun letter => by
    change [letter.toLower.toLower] = [letter.toLower]
    rw [toLower_toLower]

def asciiBase : Nexus.TextFns :=
  { Facts.lowerCaseText with
    btrim := fun text => text
    spaceCamel := fun text => text
    collapseSeparators := fun text => text }

theorem converges_iff_leaderOf :
    Converges asciiCase asciiBase "LeaderOf" "leader-of" ↔
      (SameWords asciiCase "LeaderOf" "leader-of" →
        (IsHidden asciiCase "LeaderOf" ↔ IsHidden asciiCase "leader-of") ∧
          (relWords asciiCase "LeaderOf" = [] →
            leftover asciiCase "LeaderOf" = leftover asciiCase "leader-of")) :=
  converges_iff asciiCase_facts "LeaderOf" "leader-of"

/-- In lower case the two words of the spelling are not found. -/
theorem not_converges_sanctions :
    SameWords asciiCase "Sanc-Tions" "sanc-tions" ∧
      canonicalRelType (relationText asciiCase asciiBase) "Sanc-Tions" = "sanctions" ∧
      canonicalRelType (relationText asciiCase asciiBase) "sanc-tions" = "sanc tions" := by
  unfold SameWords
  decide +kernel

end Legba.RelationSpelling
