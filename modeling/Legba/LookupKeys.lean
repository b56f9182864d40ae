import Legba.EntityNames
import Legba.RelationSpelling

/-!
# The key a name is looked up under

A surface and the stored names are brought to one form before they are
compared: trimmed, in small letters, without a leading article, one blank for
each run of blanks.  The process computes it for the surface and the database
for what it has stored.  Lower-casing is the same on both sides; the database
trims only spaces, and what it takes for a blank is its own.
-/

namespace Legba.LookupKeys

open RegexScan List Bool Words Char
open EntityNames (foldLetter collapseSpaces)
open JudgeReplies (isSpace strip)
open RelationSpelling (toLower_cases toLower_toLower)

attribute [local instance (high)] decidableBAll decidableBEx

local instance : LawfulBEq Text := inferInstance

def articles : List Text := [['t', 'h', 'e'], ['a'], ['a', 'n']]

/-- What `^(the|a|an)\s+` leaves, the article read through `fold`: no letter of
an article is a blank, so the article ends where the blanks begin. -/
def dropArticle (fold : Char → Char) (isBlank : Char → Bool) (text : Text) : Text :=
  let article := text.takeWhile fun letter => !isBlank letter
  let behind := text.dropWhile fun letter => !isBlank letter
  if article.map fold ∈ articles ∧ behind ≠ [] then behind.dropWhile isBlank
  else text

def lookupKey (lower : Char → Char) (name : Text) : Text :=
  let low := (strip (collapseSpaces name)).map lower
  let bare := strip (dropArticle foldLetter isSpace low)
  strip (collapseSpaces bare)

def btrim (text : Text) : Text := strip (fun letter => letter == ' ') text

/-- `regexp_replace(regexp_replace(lower(btrim(x)), '^(the|a|an)\s+', ''),
'\s+', ' ', 'g')` -/
def sqlKey (lower : Char → Char) (sqlSpace : Char → Bool) (name : Text) : Text :=
  collapse sqlSpace ' ' (dropArticle id sqlSpace ((btrim name).map lower))

structure Alphabet (lower : Char → Char) (sqlSpace : Char → Bool) : Prop where
  /-- A blank has no case. -/
  blank : ∀ letter, isSpace letter = true → lower letter = letter
  solid : ∀ letter, isSpace letter = false → isSpace (lower letter) = false
  small : ∀ letter, (lower letter).toLower = lower letter
  sql : ∀ letter, sqlSpace letter = true → isSpace letter = true
  space : sqlSpace ' ' = true

/-! ## Dropping an article -/

def bareWords : List Text → List Text
  | article :: word :: rest =>
    if article ∈ articles then word :: rest else article :: word :: rest
  | parts => parts

section

variable {fold : Char → Char} {isBlank : Char → Bool}

variable {letter : Char} {text : Text}

theorem dropArticle_blank (hletter : isBlank letter) (rest : Text) :
    dropArticle fold isBlank (letter :: rest) = letter :: rest := by
  simp [dropArticle, hletter, articles]

theorem dropArticle_word {word : Text} (hword : ∀ letter ∈ word, isBlank letter = false) :
    dropArticle fold isBlank word = word := by
  have hbehind : word.dropWhile (fun letter => !isBlank letter) = [] := by
    rw [dropWhile_eq_nil_iff]
    intro letter hletter
    rw [hword letter hletter, Bool.not_false]
  simp [dropArticle, hbehind]

theorem dropArticle_next {word : Text} (hword : Words.IsWord isBlank word)
    (hletter : isBlank letter) (rest : Text) :
    dropArticle fold isBlank (word ++ letter :: rest) =
      if word.map fold ∈ articles then rest.dropWhile isBlank
      else word ++ letter :: rest := by
  have hsolid : ∀ other ∈ word, (!isBlank other) = true := by
    intro other hother
    rw [hword.2 other hother, Bool.not_false]
  rw [dropArticle, takeWhile_append_of_pos hsolid, dropWhile_append_of_pos hsolid]
  simp [hletter]

theorem words_dropWhile (text : Text) :
    words isBlank (text.dropWhile isBlank) = words isBlank text := by
  induction text with
  | nil => rfl
  | cons letter rest ih =>
    by_cases hletter : isBlank letter = true
    · rw [dropWhile_cons_of_pos hletter, words_skip hletter, ih]
    · rw [dropWhile_cons_of_neg hletter]

theorem trimmed_dropWhile (ahead : Text) (htext : Words.Trimmed isBlank (ahead ++ text)) :
    Words.Trimmed isBlank (text.dropWhile isBlank) := by
  constructor
  · intro hne
    exact eq_false_iff.mpr (eq_false_iff.mp (head_dropWhile_not isBlank hne))
  · intro hne
    have hsuffix : text.dropWhile isBlank <:+ ahead ++ text :=
      (dropWhile_suffix _).trans (suffix_append _ _)
    rw [hsuffix.getLast hne]
    exact htext.back _

theorem dropArticle_spec (fold : Char → Char) (htext : Words.Trimmed isBlank text)
    (hfold : ∀ word ∈ words isBlank text, word.map fold ∈ articles ↔ word ∈ articles) :
    Words.Trimmed isBlank (dropArticle fold isBlank text) ∧
      words isBlank (dropArticle fold isBlank text) =
        bareWords (words isBlank text) := by
  induction text using pieces isBlank with
  | nil => exact ⟨htext, by simp [dropArticle, articles, bareWords]⟩
  | skip letter rest hletter _ =>
    have hfront := htext.front (cons_ne_nil letter rest)
    rw [head_cons, hletter] at hfront
    cases hfront
  | last word hword =>
    rw [dropArticle_word hword.2, words_word hword]
    exact ⟨htext, by simp [bareWords]⟩
  | next word letter rest hword hletter _ =>
    rw [words_next hword hletter] at hfold ⊢
    rw [dropArticle_next hword hletter]
    have hsame := hfold word mem_cons_self
    have hrest : words isBlank rest ≠ [] := by
      have hback := htext.back (by simp)
      rw [getLast_append_of_ne_nil _ (cons_ne_nil letter rest)] at hback
      cases rest with
      | nil =>
        rw [getLast_singleton, hletter] at hback
        cases hback
      | cons other rest => exact words_ne_nil (getLast_mem _) hback
    obtain ⟨other, others, hparts⟩ := exists_cons_of_ne_nil hrest
    rw [hparts, bareWords]
    by_cases harticle : word ∈ articles
    · rw [if_pos harticle, if_pos (hsame.mpr harticle), words_dropWhile, hparts]
      refine ⟨trimmed_dropWhile (word ++ [letter]) ?_, rfl⟩
      rw [append_assoc]
      exact htext
    · rw [if_neg harticle, if_neg (mt hsame.mp harticle), words_next hword hletter, hparts]
      exact ⟨htext, rfl⟩

theorem trimmed_of_dropArticle (hbare : Words.Trimmed isBlank (dropArticle fold isBlank text))
    (hne : dropArticle fold isBlank text ≠ []) : Words.Trimmed isBlank text := by
  induction text using pieces isBlank with
  | nil => exact hbare
  | skip letter rest hletter _ =>
    rw [dropArticle_blank hletter] at hbare
    exact hbare
  | last word hword =>
    rw [dropArticle_word hword.2] at hbare
    exact hbare
  | next word letter rest hword hletter _ =>
    rw [dropArticle_next hword hletter] at hbare hne
    split at hbare
    · rename_i harticle
      rw [if_pos harticle] at hne
      constructor
      · intro _
        rw [head_append_of_ne_nil hword.1]
        exact hword.2 _ (head_mem hword.1)
      · intro _
        have hsuffix : rest.dropWhile isBlank <:+ word ++ letter :: rest :=
          ((dropWhile_suffix _).trans (suffix_cons _ _)).trans
            (suffix_append _ _)
        rw [← hsuffix.getLast hne]
        exact hbare.back hne
    · exact hbare

theorem mem_dropArticle (hletter : letter ∈ text) (hblank : isBlank letter = false)
    (harticle : ∀ word ∈ articles, fold letter ∉ word) :
    letter ∈ dropArticle fold isBlank text := by
  unfold dropArticle
  simp only
  split
  · rename_i hdrop
    rw [← takeWhile_append_dropWhile (p := fun other => !isBlank other)
      (l := text), mem_append] at hletter
    have hbehind := hletter.resolve_left fun hword => harticle _ hdrop.1 (mem_map_of_mem hword)
    rw [← takeWhile_append_dropWhile (p := isBlank)
      (l := text.dropWhile _), mem_append] at hbehind
    refine hbehind.resolve_left fun hskipped => ?_
    have hall := (all_eq_true.mp all_takeWhile) letter hskipped
    rw [hblank] at hall
    cases hall
  · exact hletter

theorem solid_of_dropArticle (hne : dropArticle id isBlank text ≠ text) :
    ∃ letter ∈ text, isSpace letter = false := by
  unfold dropArticle at hne
  simp only at hne
  split at hne
  · rename_i hdrop
    have hsolid : ∀ article ∈ articles, ∃ letter ∈ article, isSpace letter = false := by decide
    obtain ⟨letter, hletter, hspace⟩ := hsolid _ hdrop.1
    rw [map_id] at hletter
    exact ⟨letter, ( takeWhile_prefix _).subset hletter, hspace⟩
  · exact absurd rfl hne

end

theorem bareWords_eq_nil {parts : List Text} (hbare : bareWords parts = []) : parts = [] := by
  unfold bareWords at hbare
  split at hbare
  · split at hbare <;> cases hbare
  · exact hbare

theorem mem_of_mem_bareWords {parts : List Text} {word : Text}
    (hword : word ∈ bareWords parts) : word ∈ parts := by
  unfold bareWords at hword
  split at hword
  · split at hword
    · exact mem_cons_of_mem _ hword
    · exact hword
  · exact hword

/-! ## The two forms -/

section

variable {lower : Char → Char} {sqlSpace : Char → Bool}

section

variable (hlower : Alphabet lower sqlSpace)

include hlower

theorem isSpace_lower (letter : Char) : isSpace (lower letter) = isSpace letter := by
  cases hletter : isSpace letter with
  | true => rw [hlower.blank letter hletter, hletter]
  | false => exact hlower.solid letter hletter

theorem words_lower (text : Text) :
    words isSpace (text.map lower) = (words isSpace text).map (map lower) := by
  apply words_map lower fun _ => True
  · intro letter hletter
    rw [isSpace_lower hlower, hletter]
  · intro ahead letter rest _ _ _ _
    rw [map_append, map_cons]
  · rfl
  · intro word _ hword
    refine ⟨by simpa using hword.1, ?_⟩
    intro letter hletter
    obtain ⟨other, hother, rfl⟩ := mem_map.mp hletter
    rw [isSpace_lower hlower, hword.2 other hother]
  · intro letter _
    trivial

theorem fold_lower_eq (letter : Char) :
    ∀ mark ∈ ['t', 'h', 'e', 'a', 'n'], foldLetter (lower letter) = mark ↔ lower letter = mark := by
  have hsmall := hlower.small letter
  generalize lower letter = low at hsmall
  intro mark hmark
  have hmarks : ∀ mark ∈ ['t', 'h', 'e', 'a', 'n'], mark ≠ 's' ∧ mark ≠ 'k' ∧ mark ≠ 'i' ∧ mark ≠
      '\u017f' ∧ mark ≠ '\u212a' ∧ mark ≠ '\u0130' ∧ mark ≠ '\u0131' := by decide
  obtain ⟨hs, hk, hi, hlong, hkelvin, hdotted, hdotless⟩ := hmarks mark hmark
  unfold foldLetter
  split
  · rename_i heq
    exact ⟨fun h => absurd h.symm hs, fun h => absurd (h.symm.trans heq) hlong⟩
  · split
    · rename_i heq
      exact ⟨fun h => absurd h.symm hk,
        fun h => absurd (h.symm.trans heq) hkelvin⟩
    · split
      · rename_i heq
        exact ⟨fun h => absurd h.symm hi, fun h => (heq.elim (fun h' => absurd
          (h.symm.trans h') hdotted) fun h' => absurd (h.symm.trans h') hdotless)⟩
      · rw [hsmall]

theorem fold_lower_mem (word : Text) :
    (word.map lower).map foldLetter ∈ articles ↔ word.map lower ∈ articles := by
  have hspell : ∀ {article : Text},
      (∀ mark ∈ article, mark ∈ ['t', 'h', 'e', 'a', 'n']) →
      ((word.map lower).map foldLetter = article ↔
        word.map lower = article) := by
    intro article harticle
    induction article generalizing word with
    | nil => simp
    | cons mark article ih =>
      rw [forall_mem_cons] at harticle
      cases word with
      | nil => simp
      | cons letter word =>
        simp only [map_cons, cons.injEq, fold_lower_eq hlower letter
          mark harticle.1, ih word harticle.2]
  have hmarks : ∀ article ∈ articles, ∀ mark ∈ article,
      mark ∈ ['t', 'h', 'e', 'a', 'n'] := by decide
  constructor
  · intro hmem
    rw [(hspell (hmarks _ hmem)).mp rfl]
    exact hmem
  · intro hmem
    rw [(hspell (hmarks _ hmem)).mpr rfl]
    exact hmem

theorem lookupKey_eq (name : Text) :
    lookupKey lower name = join ' ' (bareWords (words isSpace (name.map lower))) := by
  have hspaced : strip (collapseSpaces name) = join ' ' (words isSpace name) :=
    strip_collapse (fun _ => id) rfl rfl name
  have hlow : Words.Trimmed isSpace ((strip (collapseSpaces name)).map lower) :=
    (trimmed_map (isSpace_lower hlower)).mpr (strip_trimmed _)
  have hwords : words isSpace
      ((strip (collapseSpaces name)).map lower) =
      words isSpace (name.map lower) := by
    rw [words_lower hlower, words_lower hlower, hspaced,
      words_join rfl fun word hword => isWord_of_mem hword]
  have hbare := dropArticle_spec foldLetter hlow (by
    intro word hword
    rw [words_lower hlower] at hword
    obtain ⟨part, _, rfl⟩ := mem_map.mp hword
    exact fold_lower_mem hlower part)
  have hstrip : strip (dropArticle foldLetter isSpace ((strip (collapseSpaces name)).map lower)) =
      dropArticle foldLetter isSpace ((strip (collapseSpaces name)).map lower) := hbare.1.strip_eq
  calc lookupKey lower name
      = strip (collapseSpaces (strip (dropArticle foldLetter isSpace
          ((strip (collapseSpaces name)).map lower)))) := rfl
    _ = join ' ' (words isSpace (dropArticle foldLetter isSpace
          ((strip (collapseSpaces name)).map lower))) := by
        rw [hstrip]
        exact strip_collapse (fun _ => id) rfl rfl _
    _ = join ' ' (bareWords (words isSpace (name.map lower))) := by rw [hbare.2, hwords]

theorem sqlSpace_lower {letter : Char} (hsame : isSpace letter = true → sqlSpace letter = true) :
    sqlSpace (lower letter) = isSpace (lower letter) := by
  cases hletter : isSpace letter with
  | true => rw [hlower.blank letter hletter, hletter, hsame hletter]
  | false =>
    have hsolid := hlower.solid letter hletter
    rw [hsolid]
    apply eq_false_iff.mpr
    intro hspace
    rw [hlower.sql _ hspace] at hsolid
    cases hsolid

theorem Alphabet.trimmed {text : Text} (htext : Words.Trimmed isSpace text) :
    Words.Trimmed sqlSpace text := by
  have hsolid : ∀ letter, isSpace letter = false → sqlSpace letter = false := by
    intro letter hletter
    apply eq_false_iff.mpr
    intro hspace
    rw [hlower.sql letter hspace] at hletter
    cases hletter
  exact ⟨fun hne => hsolid _ (htext.front hne),
    fun hne => hsolid _ (htext.back hne)⟩

variable {name : Text}

theorem sqlKey_eq (hsame : ∀ letter ∈ name, isSpace letter = true → sqlSpace letter = true)
    (htrim : Words.Trimmed isSpace (btrim name)) :
    sqlKey lower sqlSpace name = join ' '
      (bareWords (words isSpace (name.map lower))) := by
  have hwords : words sqlSpace ((btrim name).map lower) =
      words isSpace (name.map lower) := by
    have hpart : btrim name <:+: name := infix_of_strip name
    have hgaps : words sqlSpace ((btrim name).map lower) =
        words isSpace ((btrim name).map lower) := by
      apply words_congr
      intro letter hletter
      obtain ⟨other, hother, rfl⟩ := mem_map.mp hletter
      exact sqlSpace_lower hlower (hsame other (hpart.subset hother))
    have hspace : ∀ letter : Char, (letter == ' ') = true → isSpace letter = true := by
      intro letter hletter
      rw [beq_iff_eq.mp hletter]
      rfl
    rw [hgaps, words_lower hlower, words_lower hlower, btrim, words_strip hspace]
  have hbare := dropArticle_spec id (hlower.trimmed ((trimmed_map
    (isSpace_lower hlower)).mpr htrim)) (fun word _ => by rw [map_id])
  rw [sqlKey, hbare.1.collapse_eq hlower.space, hbare.2, hwords]

theorem sqlSpace_of_eq (hkey : lookupKey lower name = sqlKey lower sqlSpace name) {letter : Char}
    (hletter : letter ∈ name) (hspace : isSpace letter) : sqlSpace letter := by
  by_contra hsql
  rw [not_eq_true] at hsql
  have hblank : letter ≠ ' ' := by
    intro heq
    rw [heq, hlower.space] at hsql
    cases hsql
  have hlow : letter ∈ (btrim name).map lower := by
    rw [← hlower.blank letter hspace]
    exact mem_map_of_mem (mem_strip hletter (beq_eq_false_iff_ne.mpr hblank))
  have harticles : ∀ article ∈ articles, ∀ mark ∈ article, isSpace mark = false := by decide
  have hkept : letter ∈ sqlKey lower sqlSpace name := by
    apply mem_collapse _ hsql
    apply mem_dropArticle hlow hsql
    intro article harticle hmem
    rw [id, harticles article harticle letter hmem] at *
    cases hspace
  rw [← hkey, lookupKey] at hkept
  have honly := eq_blank_of_mem_collapse ((infix_of_strip _).subset hkept) hspace
  exact hblank honly

theorem trimmed_of_eq (hkey : lookupKey lower name = sqlKey lower sqlSpace name) :
    Words.Trimmed isSpace (btrim name) := by
  have hpart : btrim name <:+: name := infix_of_strip name
  have htrim : Words.Trimmed sqlSpace ((btrim name).map lower) := by
    have hsql : Words.Trimmed sqlSpace (sqlKey lower sqlSpace name) :=
      hkey ▸ hlower.trimmed (strip_trimmed _)
    have hbare := (trimmed_collapse_iff hlower.space).mp hsql
    by_cases hne : dropArticle id sqlSpace ((btrim name).map lower) = []
    · by_cases hsame : dropArticle id sqlSpace ((btrim name).map lower) = (btrim name).map lower
      · exact hsame ▸ hbare
      · obtain ⟨letter, hletter, hsolid⟩ := solid_of_dropArticle hsame
        rw [sqlKey, hne, lookupKey_eq hlower] at hkey
        have hwords : ∀ word ∈ bareWords
            (words isSpace (name.map lower)),
            Words.IsWord isSpace word := fun word hword =>
          isWord_of_mem (mem_of_mem_bareWords hword)
        have hparts := words_join (show isSpace ' ' = true from rfl) hwords
        rw [hkey] at hparts
        exact absurd (bareWords_eq_nil hparts.symm)
          (words_ne_nil ((hpart.map lower).subset hletter) hsolid)
    · exact trimmed_of_dropArticle hbare hne
  have hback : ∀ letter ∈ btrim name, sqlSpace (lower letter) = false → isSpace letter = false := by
    intro letter hletter hsql
    rw [sqlSpace_lower hlower (sqlSpace_of_eq hlower hkey
      (hpart.subset hletter)), isSpace_lower hlower] at hsql
    exact hsql
  rw [trimmed_iff] at htrim ⊢
  simp only [head?_map, getLast?_map, Option.mem_def, Option.map_eq_some_iff,
    forall_exists_index, and_imp, forall_apply_eq_imp_iff₂] at htrim
  exact ⟨fun letter h => hback letter (mem_of_mem_head? h) (htrim.1 letter h),
    fun letter h => hback letter (mem_of_mem_getLast? h) (htrim.2 letter h)⟩

end

theorem lookupKey_eq_sqlKey_iff (hlower : Alphabet lower sqlSpace) (name : Text) :
    lookupKey lower name = sqlKey lower sqlSpace name ↔
      (∀ letter ∈ name, isSpace letter = true → sqlSpace letter = true) ∧
        Words.Trimmed isSpace (btrim name) := by
  constructor
  · intro hkey
    exact ⟨fun letter hletter => sqlSpace_of_eq hlower hkey hletter, trimmed_of_eq hlower hkey⟩
  · intro hname
    rw [lookupKey_eq hlower, sqlKey_eq hlower hname.1 hname.2]

end

theorem ascii_alphabet : Alphabet toLower isSpace where
  blank := fun letter hletter => by
    apply dif_neg
    intro hupper
    have hlow : 65 ≤ letter.toNat := hupper.1
    have hhigh : letter.toNat ≤ 90 := hupper.2
    simp only [isSpace, or_eq_true, and_eq_true, decide_eq_true_eq] at hletter
    omega
  solid := fun letter hletter => by
    rcases toLower_cases letter with ⟨hsame, -⟩ | hlower
    · rw [hsame, hletter]
    · apply eq_false_iff.mpr
      intro hspace
      simp only [isSpace, or_eq_true, and_eq_true, decide_eq_true_eq] at hspace
      omega
  small := toLower_toLower
  sql := fun _ hletter => hletter
  space := rfl

theorem lookupKey_eq_sqlKey_iff_an_article :
    (lookupKey toLower ['A', '\t', 'B'] = sqlKey toLower isSpace ['A', '\t', 'B'] ↔
      (∀ letter ∈ ['A', '\t', 'B'],
        isSpace letter = true → isSpace letter = true) ∧
        Words.Trimmed isSpace (btrim ['A', '\t', 'B'])) ∧
      lookupKey toLower ['A', '\t', 'B'] = ['b'] :=
  ⟨lookupKey_eq_sqlKey_iff ascii_alphabet _, by decide⟩

/-- A name stored with a tab behind it is not found by its own surface. -/
theorem tab_hides_name :
    Alphabet toLower isSpace ∧
      lookupKey toLower ['I', 'r', 'a', 'n', '\t'] = ['i', 'r', 'a', 'n'] ∧
      sqlKey toLower isSpace ['I', 'r', 'a', 'n', '\t'] = ['i', 'r', 'a', 'n', ' '] :=
  ⟨ascii_alphabet, by decide, by decide⟩

end Legba.LookupKeys
