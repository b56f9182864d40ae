import Legba.Words

/-!
# The fold of the comparators

`normalize_for_match` applies NFKC, deletes the soft hyphens, folds the
punctuation and the case and collapses the blanks.  NFKC comes first and is not
applied again, so what the later steps bring together stays uncomposed until
the text is folded once more.

NFKC, the full case folding of a character and the blanks are parameters.
-/

namespace Legba.TextFold

open Words List

structure UnicodeData where
  nfkc : List Char → List Char
  casefold : Char → List Char
  isSpace : Char → Bool

def softHyphen : Char := '\u00ad'

def punctFold : List (Char × Char) :=
  [('\u3010', '['), ('\u3011', ']'), ('\u2010', '-'), ('\u2011', '-'),
    ('\u2012', '-'), ('\u2013', '-'), ('\u2014', '-'), ('\u2015', '-'),
    ('\u2212', '-'), ('\u201c', '"'), ('\u201d', '"'), ('\u201e', '"'),
    ('\u00ab', '"'), ('\u00bb', '"'), ('\u2018', '\''), ('\u2019', '\''),
    ('\u201a', '\''), ('\u2028', ' '), ('\u2029', ' '), ('\ufeff', ' ')]

def foldPunct (letter : Char) : Char :=
  (punctFold.lookup letter).getD letter

section

variable (U : UnicodeData)

def casefoldText (text : List Char) : List Char := text.flatMap U.casefold

def cleaned (text : List Char) : List Char :=
  ((U.nfkc text).filter fun letter => decide (letter ≠ softHyphen)).map
    foldPunct

/-- `normalize_for_match` on a string. -/
def normalizeForMatch (text : List Char) : List Char :=
  if text = [] then []
  else strip U.isSpace (collapse U.isSpace ' ' (casefoldText U (cleaned U text)))

end

/-! ## The characters of a folded text -/

/-- What is used of Unicode.  `clean` are the characters NFKC leaves in a text,
without the soft hyphen and the punctuation which is folded. -/
structure UnicodeFacts (U : UnicodeData) (clean : Char → Prop) : Prop where
  nfkc_nil : U.nfkc [] = []
  nfkc_chars : ∀ text, ∀ letter ∈ U.nfkc text,
    clean letter ∨ letter = softHyphen ∨ letter ∈ punctFold.map Prod.fst
  clean_ne : ∀ letter, clean letter → letter ≠ softHyphen ∧ letter ∉ punctFold.map Prod.fst
  nfkc_clean : ∀ text, (∀ letter ∈ text, clean letter) → ∀ letter ∈ U.nfkc text, clean letter
  folded_clean : ∀ entry ∈ punctFold, clean entry.2
  casefold_clean : ∀ letter, clean letter → ∀ other ∈ U.casefold letter, clean other
  isSpace_blank : U.isSpace ' ' = true
  nfkc_blank : ∀ ahead behind,
    U.nfkc (ahead ++ ' ' :: behind) = U.nfkc ahead ++ ' ' :: U.nfkc behind
  nfkc_word : ∀ word, (∀ letter ∈ word, clean letter) →
    IsWord U.isSpace word → IsWord U.isSpace (U.nfkc word)
  casefold_space : ∀ letter, U.isSpace letter = true → U.casefold letter = [letter]
  casefold_letter : ∀ letter, U.isSpace letter = false → IsWord U.isSpace (U.casefold letter)

variable {U : UnicodeData} {clean : Char → Prop}

theorem foldPunct_of_notMem {letter : Char}
    (hletter : letter ∉ punctFold.map Prod.fst) : foldPunct letter = letter := by
  have hnone : punctFold.lookup letter = none := by
    rw [lookup_eq_none_iff]
    intro entry hentry
    rw [bne_iff_ne]
    exact fun heq => hletter (heq ▸ mem_map_of_mem hentry)
  rw [foldPunct, hnone, Option.getD_none]

theorem foldPunct_mem (letter : Char) :
    foldPunct letter = letter ∧ letter ∉ punctFold.map Prod.fst ∨
      ∃ entry ∈ punctFold, foldPunct letter = entry.2 := by
  by_cases hletter : letter ∈ punctFold.map Prod.fst
  · obtain ⟨⟨key, value⟩, hentry, rfl⟩ := mem_map.mp hletter
    have hall : ∀ entry ∈ punctFold, ∃ found ∈ punctFold, foldPunct entry.1 = found.2 := by decide
    exact .inr (hall (key, value) hentry)
  · exact .inl ⟨foldPunct_of_notMem hletter, hletter⟩

namespace UnicodeFacts

variable (hfacts : UnicodeFacts U clean)

include hfacts

theorem cleaned_clean (text : List Char) : ∀ letter ∈ cleaned U text, clean letter := by
  intro letter hletter
  obtain ⟨other, hother, rfl⟩ := mem_map.mp hletter
  obtain ⟨hnfkc, hhyphen⟩ := mem_filter.mp hother
  rcases foldPunct_mem other with ⟨hsame, hkept⟩ | ⟨entry, hentry, hfolded⟩
  · rw [hsame]
    rcases hfacts.nfkc_chars text other hnfkc with hclean | hsoft | hkey
    · exact hclean
    · exact absurd hsoft (of_decide_eq_true hhyphen)
    · exact absurd hkey hkept
  · rw [hfolded]
    exact hfacts.folded_clean entry hentry

theorem cleaned_eq {text : List Char} (htext : ∀ letter ∈ text, clean letter) :
    cleaned U text = U.nfkc text := by
  have hclean := hfacts.nfkc_clean text htext
  unfold cleaned
  rw [filter_eq_self.mpr fun letter hletter =>
    decide_eq_true (hfacts.clean_ne letter (hclean letter hletter)).1]
  have hsame : ∀ letter ∈ U.nfkc text, foldPunct letter = id letter :=
    fun letter hletter => foldPunct_of_notMem (hfacts.clean_ne letter (hclean letter hletter)).2
  rw [map_congr_left hsame, map_id]

theorem casefoldText_clean {text : List Char} (htext : ∀ letter ∈ text, clean letter) :
    ∀ letter ∈ casefoldText U text, clean letter := by
  intro letter hletter
  obtain ⟨other, hother, hmem⟩ := mem_flatMap.mp hletter
  exact hfacts.casefold_clean other (htext other hother) letter hmem

theorem casefoldText_word {word : List Char} (hword : IsWord U.isSpace word) :
    IsWord U.isSpace (casefoldText U word) := by
  constructor
  · obtain ⟨first, rest, rfl⟩ := exists_cons_of_ne_nil hword.1
    have hfirst := (hfacts.casefold_letter first (hword.2 first mem_cons_self)).1
    simp [casefoldText, hfirst]
  · intro letter hletter
    obtain ⟨other, hother, hmem⟩ := mem_flatMap.mp hletter
    exact (hfacts.casefold_letter other (hword.2 other hother)).2 letter hmem

theorem words_casefoldText (text : List Char) :
    words U.isSpace (casefoldText U text) = (words U.isSpace text).map (casefoldText U) := by
  refine words_map id (fun _ => True) (fun letter h => h) ?_ rfl (fun word _
    hword => hfacts.casefoldText_word hword) text (fun _ _ => trivial)
  intro ahead letter rest _ _ _ hletter
  simp [casefoldText, hfacts.casefold_space letter hletter]

theorem normalizeForMatch_eq (text : List Char) :
    normalizeForMatch U text = join ' ' (words U.isSpace (casefoldText U (cleaned U text))) := by
  unfold normalizeForMatch
  by_cases hempty : text = []
  · subst hempty
    rw [if_pos rfl, cleaned, hfacts.nfkc_nil]
    simp [casefoldText, join]
  · rw [if_neg hempty]
    exact strip_collapse (fun _ h => h) hfacts.isSpace_blank hfacts.isSpace_blank _

theorem normalizeForMatch_join {parts : List (List Char)}
    (hparts : ∀ word ∈ parts, IsWord U.isSpace word)
    (hclean : ∀ word ∈ parts, ∀ letter ∈ word, clean letter) :
    normalizeForMatch U (join ' ' parts) =
      join ' ' (parts.map fun word => casefoldText U (U.nfkc word)) := by
  have hblank : clean ' ' := hfacts.folded_clean ('\u2028', ' ') (by decide)
  have hgood : ∀ letter ∈ join ' ' parts,
      clean letter ∧ (U.isSpace letter = true → letter = ' ') := by
    intro letter hletter
    rcases mem_join hletter with rfl | ⟨word, hword, hmem⟩
    · exact ⟨hblank, fun _ => rfl⟩
    · refine ⟨hclean word hword letter hmem, fun hspace => ?_⟩
      exact absurd (((hparts word hword).2 letter hmem).symm.trans hspace) Bool.false_ne_true
  rw [hfacts.normalizeForMatch_eq, hfacts.cleaned_eq fun letter hletter => (hgood letter hletter).1]
  have hwords : words U.isSpace (casefoldText U (U.nfkc (join ' ' parts))) =
      (words U.isSpace (join ' ' parts)).map fun text =>
        casefoldText U (U.nfkc text) :=
    words_map (fun _ => ' ')
      (fun letter => clean letter ∧ (U.isSpace letter = true → letter = ' '))
      (fun _ _ => hfacts.isSpace_blank)
      (fun ahead letter rest _ hletter _ hspace => by
        rw [hletter.2 hspace, hfacts.nfkc_blank]
        simp [casefoldText, hfacts.casefold_space ' ' hfacts.isSpace_blank])
      (by simp [casefoldText, hfacts.nfkc_nil])
      (fun word hword hisWord => hfacts.casefoldText_word (hfacts.nfkc_word word
        (fun letter hletter => (hword letter hletter).1) hisWord))
      (join ' ' parts) hgood
  rw [hwords, words_join hfacts.isSpace_blank hparts]

end UnicodeFacts

/-- Folding twice is folding once exactly when NFKC and case folding leave the
folded case of every cleaned word as it is. -/
theorem normalizeForMatch_idempotent_iff (hfacts : UnicodeFacts U clean) (text : List Char) :
    normalizeForMatch U (normalizeForMatch U text) = normalizeForMatch U text ↔
      ∀ word ∈ words U.isSpace (cleaned U text),
        casefoldText U (U.nfkc (casefoldText U word)) = casefoldText U word := by
  have hparts : ∀ word ∈ words U.isSpace (casefoldText U (cleaned U text)),
      IsWord U.isSpace word := fun word hword => isWord_of_mem hword
  have hclean : ∀ word ∈ words U.isSpace (casefoldText U (cleaned U text)),
      ∀ letter ∈ word, clean letter := fun word hword letter hletter =>
    hfacts.casefoldText_clean (hfacts.cleaned_clean text) letter (mem_of_mem_words hword hletter)
  have hagain : ∀ word ∈ (words U.isSpace
      (casefoldText U (cleaned U text))).map
        (fun word => casefoldText U (U.nfkc word)), IsWord U.isSpace word := by
    intro word hword
    obtain ⟨first, hfirst, rfl⟩ := mem_map.mp hword
    exact hfacts.casefoldText_word (hfacts.nfkc_word first
      (hclean first hfirst) (hparts first hfirst))
  rw [hfacts.normalizeForMatch_eq text, hfacts.normalizeForMatch_join hparts hclean]
  rw [hfacts.words_casefoldText] at hparts hagain ⊢
  constructor
  · intro hjoin word hword
    have hwords := join_injective hfacts.isSpace_blank hagain hparts hjoin
    rw [map_map] at hwords
    exact map_inj_left.mp hwords word hword
  · intro hsettled
    congr 1
    rw [map_map]
    exact map_congr_left hsettled

def composeAcute : List Char → List Char
  | 'e' :: '\u0301' :: rest => '\u00e9' :: composeAcute rest
  | letter :: rest => letter :: composeAcute rest
  | [] => []

def acuteText : UnicodeData where
  nfkc := composeAcute
  casefold := fun letter => [letter]
  isSpace := fun letter => decide (letter = ' ')

theorem composeAcute_keep {letter : Char} {rest : List Char}
    (hkeep : letter ≠ 'e' ∨ rest.head? ≠ some '\u0301') :
    composeAcute (letter :: rest) = letter :: composeAcute rest := by
  rw [composeAcute]
  intro behind hletter hrest
  rw [hletter, hrest] at hkeep
  simp at hkeep

theorem mem_composeAcute {text : List Char} {letter : Char}
    (hletter : letter ∈ composeAcute text) : letter = '\u00e9' ∨ letter ∈ text := by
  fun_induction composeAcute text with
  | case1 rest ih =>
    rcases mem_cons.mp hletter with heq | hrest
    · exact .inl heq
    · refine (ih hrest).imp_right fun h => ?_
      exact mem_cons_of_mem _ (mem_cons_of_mem _ h)
  | case2 first rest _ ih =>
    rcases mem_cons.mp hletter with rfl | hrest
    · exact .inr mem_cons_self
    · exact (ih hrest).imp_right fun h => mem_cons_of_mem _ h
  | case3 => exact absurd hletter not_mem_nil

theorem composeAcute_blank (ahead behind : List Char) :
    composeAcute (ahead ++ ' ' :: behind) = composeAcute ahead ++ ' ' :: composeAcute behind := by
  fun_induction composeAcute ahead with
  | case1 rest ih => rw [cons_append, cons_append, composeAcute, ih, cons_append]
  | case2 first rest hkeep ih =>
    have hkept : first ≠ 'e' ∨ (rest ++ ' ' :: behind).head? ≠ some '\u0301' := by
      by_contra hnot
      rw [not_or, not_not, not_not] at hnot
      cases rest with
      | nil => exact absurd hnot.2 (by simp)
      | cons next rest => exact hkeep rest hnot.1 (by simpa using hnot.2)
    rw [cons_append, composeAcute_keep hkept, ih, cons_append]
  | case3 => exact composeAcute_keep (.inl (by decide))

theorem acuteText_facts : UnicodeFacts acuteText fun letter =>
    letter ≠ softHyphen ∧ letter ∉ punctFold.map Prod.fst where
  nfkc_nil := rfl
  nfkc_chars := fun _ letter _ => by tauto
  clean_ne := fun _ hclean => hclean
  nfkc_clean := fun text htext letter hletter => by
    rcases mem_composeAcute hletter with rfl | hmem
    · decide
    · exact htext letter hmem
  folded_clean := by decide
  casefold_clean := fun letter hclean other hother => by
    rw [mem_singleton.mp hother]
    exact hclean
  isSpace_blank := rfl
  nfkc_blank := composeAcute_blank
  nfkc_word := fun word _ hword => by
    constructor
    · obtain ⟨first, rest, rfl⟩ := exists_cons_of_ne_nil hword.1
      change composeAcute (first :: rest) ≠ []
      unfold composeAcute
      split <;> simp_all
    · intro letter hletter
      rcases mem_composeAcute hletter with rfl | hmem
      · decide
      · exact hword.2 letter hmem
  casefold_space := fun _ _ => rfl
  casefold_letter := fun letter hletter =>
    ⟨cons_ne_nil _ _, fun other hother => by
      rw [mem_singleton.mp hother]
      exact hletter⟩

theorem normalizeForMatch_idempotent_iff_hyphened :
    normalizeForMatch acuteText (normalizeForMatch acuteText ['e', '\u00ad', '\u0301']) =
      normalizeForMatch acuteText ['e', '\u00ad', '\u0301'] ↔
    ∀ word ∈ words acuteText.isSpace (cleaned acuteText ['e', '\u00ad', '\u0301']),
      casefoldText acuteText (acuteText.nfkc (casefoldText acuteText word)) =
        casefoldText acuteText word :=
  normalizeForMatch_idempotent_iff acuteText_facts ['e', '\u00ad', '\u0301']

theorem normalizeForMatch_hyphened_twice :
    normalizeForMatch acuteText ['e', '\u00ad', '\u0301'] = ['e', '\u0301'] ∧
      normalizeForMatch acuteText (normalizeForMatch acuteText
        ['e', '\u00ad', '\u0301']) = ['\u00e9'] := by
  decide +kernel

end Legba.TextFold
