import Mathlib.Data.List.Chain
import Mathlib.Data.List.DropRight

/-!
# Words between blanks

The words of a text are what lies between its blanks.  Replacing each run of
blanks by one and stripping the ends leaves the words joined by single blanks.
A map which works word by word is one which respects a blank.
-/

namespace Words

open Bool List

variable {Letter : Type*} {isBlank : Letter → Bool} {blank : Letter}

def words [DecidableEq Letter] (isBlank : Letter → Bool) (text : List Letter) :
    List (List Letter) :=
  (text.splitOnP isBlank).filter fun word => decide (word ≠ [])

/-- One `blank` for each run of blanks. -/
def collapse (isBlank : Letter → Bool) (blank : Letter) : List Letter → List Letter
  | [] => []
  | letter :: rest =>
    if isBlank letter = true then
      match rest with
      | [] => [blank]
      | next :: _ =>
        if isBlank next = true then collapse isBlank blank rest
        else blank :: collapse isBlank blank rest
    else letter :: collapse isBlank blank rest

def strip (isSpace : Letter → Bool) (text : List Letter) : List Letter :=
  (text.dropWhile isSpace).rdropWhile isSpace

def join (blank : Letter) : List (List Letter) → List Letter
  | [] => []
  | [word] => word
  | word :: next :: rest => word ++ blank :: join blank (next :: rest)

def IsWord (isBlank : Letter → Bool) (word : List Letter) : Prop :=
  word ≠ [] ∧ ∀ letter ∈ word, isBlank letter = false

/-! ## Texts piece by piece -/

theorem pieces (isBlank : Letter → Bool) {motive : List Letter → Prop} (nil : motive [])
    (skip : ∀ letter rest, isBlank letter = true → motive rest → motive (letter :: rest))
    (last : ∀ word, IsWord isBlank word → motive word)
    (next : ∀ word letter rest, IsWord isBlank word → isBlank letter = true → motive rest → motive
      (word ++ letter :: rest)) : ∀ text, motive text := by
  intro text
  induction hlength : text.length using Nat.strong_induction_on generalizing text with
  | _ length ih =>
    subst hlength
    cases text with
    | nil => exact nil
    | cons first tail =>
      by_cases hfirst : isBlank first = true
      · exact skip first tail hfirst (ih tail.length (by simp) tail rfl)
      · have hsplit := takeWhile_append_dropWhile
          (p := fun letter => !isBlank letter) (l := first :: tail)
        have hword : IsWord isBlank ((first :: tail).takeWhile fun letter => !isBlank letter) := by
          constructor
          · simp [hfirst]
          · intro letter hletter
            simpa using mem_takeWhile_imp hletter
        cases hrest : (first :: tail).dropWhile fun letter =>
            !isBlank letter with
        | nil =>
          rw [hrest, append_nil] at hsplit
          rw [← hsplit]
          exact last _ hword
        | cons letter rest =>
          have hletter : isBlank letter := by
            have hne : (first :: tail).dropWhile
                (fun letter => !isBlank letter) ≠ [] := by simp [hrest]
            have hhead := head_dropWhile_not
              (fun letter => !isBlank letter) hne
            simpa [hrest] using hhead
          have hshorter : rest.length < (first :: tail).length := by
            rw [← hsplit, hrest, length_append, length_cons]
            omega
          rw [← hsplit, hrest]
          exact next _ letter rest hword hletter (ih rest.length hshorter rest rfl)

theorem mem_join {parts : List (List Letter)} {letter : Letter}
    (hletter : letter ∈ join blank parts) : letter = blank ∨ ∃ word ∈ parts, letter ∈ word := by
  induction parts with
  | nil => exact absurd hletter not_mem_nil
  | cons word rest ih =>
    cases rest with
    | nil => exact .inr ⟨word, mem_cons_self, hletter⟩
    | cons next rest =>
      rcases mem_append.mp hletter with hword | hrest
      · exact .inr ⟨word, mem_cons_self, hword⟩
      · rcases mem_cons.mp hrest with heq | hjoin
        · exact .inl heq
        · refine (ih hjoin).imp_right ?_
          rintro ⟨other, hother, hmem⟩
          exact ⟨other, mem_cons_of_mem _ hother, hmem⟩

section

variable [DecidableEq Letter]

@[simp] theorem words_nil : words isBlank [] = [] := by
  simp [words]

variable {letter : Letter} {word text : List Letter}

theorem words_append_blank (hletter : isBlank letter) (ahead behind : List Letter) :
    words isBlank (ahead ++ letter :: behind) = words isBlank ahead ++ words isBlank behind := by
  rw [words, splitOnP_append_cons ahead behind hletter, filter_append]
  rfl

theorem words_skip (hletter : isBlank letter) (rest : List Letter) :
    words isBlank (letter :: rest) = words isBlank rest := by
  have happend := words_append_blank hletter [] rest
  exact happend

theorem words_word (hword : IsWord isBlank word) : words isBlank word = [word] := by
  rw [words, splitOnP_eq_singleton hword.2]
  simp [hword.1]

theorem words_next (hword : IsWord isBlank word) (hletter : isBlank letter) (rest : List Letter) :
    words isBlank (word ++ letter :: rest) = word :: words isBlank rest := by
  rw [words_append_blank hletter, words_word hword, singleton_append]

theorem words_of_blanks (htext : ∀ letter ∈ text, isBlank letter = true) :
    words isBlank text = [] := by
  induction text with
  | nil => exact words_nil
  | cons letter rest ih =>
    rw [forall_mem_cons] at htext
    rw [words_skip htext.1, ih htext.2]

theorem isWord_of_mem (hword : word ∈ words isBlank text) : IsWord isBlank word := by
  induction text using pieces isBlank with
  | nil => simp at hword
  | skip letter rest hletter ih =>
    rw [words_skip hletter] at hword
    exact ih hword
  | last first hfirst =>
    rw [words_word hfirst, mem_singleton] at hword
    exact hword ▸ hfirst
  | next first letter rest hfirst hletter ih =>
    rw [words_next hfirst hletter] at hword
    rcases mem_cons.mp hword with rfl | hrest
    · exact hfirst
    · exact ih hrest

theorem mem_of_mem_words (hword : word ∈ words isBlank text)
    (hletter : letter ∈ word) : letter ∈ text := by
  induction text using pieces isBlank with
  | nil => simp at hword
  | skip first rest hfirst ih =>
    rw [words_skip hfirst] at hword
    exact mem_cons_of_mem _ (ih hword)
  | last first hfirst =>
    rw [words_word hfirst, mem_singleton] at hword
    exact hword ▸ hletter
  | next first between rest hfirst hbetween ih =>
    rw [words_next hfirst hbetween] at hword
    rcases mem_cons.mp hword with rfl | hrest
    · exact mem_append_left _ hletter
    · exact mem_append_right _ (mem_cons_of_mem _ (ih hrest))

theorem words_join (hblank : isBlank blank) :
    ∀ {parts : List (List Letter)}, (∀ word ∈ parts, IsWord isBlank word) →
      words isBlank (join blank parts) = parts
  | [], _ => words_nil
  | [word], hparts => words_word (hparts word List.mem_cons_self)
  | word :: next :: rest, hparts => by
    rw [List.forall_mem_cons] at hparts
    rw [join, words_next hparts.1 hblank, words_join hblank hparts.2]

theorem join_injective (hblank : isBlank blank) {left right : List (List Letter)}
    (hleft : ∀ word ∈ left, IsWord isBlank word) (hright : ∀ word ∈ right, IsWord isBlank word)
    (hjoin : join blank left = join blank right) : left = right := by
  rw [← words_join hblank hleft, hjoin, words_join hblank hright]

theorem words_map {Other : Type*} [DecidableEq Other] {isGap : Other → Bool}
    {f : List Letter → List Other} (g : Letter → Other) (good : Letter → Prop)
    (hblank : ∀ letter, isBlank letter = true → isGap (g letter) = true)
    (hskip : ∀ ahead letter rest, (∀ c ∈ ahead, good c) → good letter → (∀ c ∈ rest, good c) →
      isBlank letter = true → f (ahead ++ letter :: rest) = f ahead ++ g letter :: f rest)
    (hnil : f [] = [])
    (hword : ∀ word, (∀ c ∈ word, good c) → IsWord isBlank word → IsWord isGap (f word))
    (text : List Letter) (hgood : ∀ c ∈ text, good c) :
    words isGap (f text) = (words isBlank text).map f := by
  induction text using pieces isBlank with
  | nil => rw [hnil, words_nil, words_nil, map_nil]
  | skip letter rest hletter ih =>
    rw [forall_mem_cons] at hgood
    have happend := hskip [] letter rest (by simp) hgood.1 hgood.2 hletter
    rw [nil_append, hnil, nil_append] at happend
    rw [happend, words_skip (hblank letter hletter), words_skip hletter, ih hgood.2]
  | last word hw => rw [words_word (hword word hgood hw), words_word hw, map_singleton]
  | next word letter rest hw hletter ih =>
    rw [forall_mem_append, forall_mem_cons] at hgood
    rw [hskip word letter rest hgood.1 hgood.2.1 hgood.2.2 hletter, words_next (hword word hgood.1
      hw) (hblank letter hletter), words_next hw hletter, ih hgood.2.2, map_cons]

end

/-! ## Collapsing and stripping -/

section

variable {isSpace : Letter → Bool}

variable {letter : Letter} {text : List Letter} {parts : List (List Letter)}

theorem collapse_keep (hletter : isBlank letter = false) (rest : List Letter) :
    collapse isBlank blank (letter :: rest) = letter :: collapse isBlank blank rest := by
  cases rest <;> simp [collapse, hletter]

theorem collapse_skip_skip {next : Letter} (hletter : isBlank letter)
    (hnext : isBlank next) (rest : List Letter) :
    collapse isBlank blank (letter :: next :: rest) = collapse isBlank blank (next :: rest) := by
  rw [collapse.eq_def]
  simp [hletter, hnext]

theorem collapse_skip_keep {next : Letter} (hletter : isBlank letter)
    (hnext : isBlank next = false) (rest : List Letter) :
    collapse isBlank blank (letter :: next :: rest) =
      blank :: collapse isBlank blank (next :: rest) := by
  rw [collapse.eq_def]
  simp [hletter, hnext]

theorem collapse_word {word : List Letter} (hword : ∀ letter ∈ word,
    isBlank letter = false) (rest : List Letter) :
    collapse isBlank blank (word ++ rest) = word ++ collapse isBlank blank rest := by
  induction word with
  | nil => rfl
  | cons letter word ih =>
    rw [forall_mem_cons] at hword
    rw [cons_append, collapse_keep hword.1, ih hword.2, cons_append]

theorem collapse_skip (hblank : isBlank blank) (hletter : isBlank letter) (rest : List Letter) :
    collapse isBlank blank (letter :: rest) =
      blank :: (collapse isBlank blank rest).dropWhile isBlank := by
  induction rest generalizing letter with
  | nil => simp [collapse, hletter]
  | cons next rest ih =>
    by_cases hnext : isBlank next = true
    · rw [collapse_skip_skip hletter hnext, ih hnext,
        dropWhile_cons_of_pos hblank, dropWhile_idempotent]
    · rw [not_eq_true] at hnext
      rw [collapse_skip_keep hletter hnext, collapse_keep hnext,
        dropWhile_cons_of_neg (by simp [hnext])]

theorem mem_collapse (hletter : letter ∈ text) (hblank : isBlank letter = false) :
    letter ∈ collapse isBlank blank text := by
  induction text with
  | nil => exact absurd hletter not_mem_nil
  | cons first rest ih =>
    by_cases hfirst : isBlank first = true
    · have hrest : letter ∈ rest := by
        refine (mem_cons.mp hletter).resolve_left fun heq => ?_
        rw [heq, hfirst] at hblank
        cases hblank
      cases rest with
      | nil => exact absurd hrest not_mem_nil
      | cons next rest =>
        by_cases hnext : isBlank next = true
        · rw [collapse_skip_skip hfirst hnext]
          exact ih hrest
        · rw [collapse_skip_keep hfirst (eq_false_iff.mpr hnext)]
          exact mem_cons_of_mem _ (ih hrest)
    · rw [collapse_keep (eq_false_iff.mpr hfirst)]
      exact mem_cons.mpr ((mem_cons.mp hletter).imp_right ih)

theorem eq_blank_of_mem_collapse (hmem : letter ∈ collapse isBlank blank text)
    (hletter : isBlank letter) : letter = blank := by
  induction text with
  | nil => exact absurd hmem not_mem_nil
  | cons first rest ih =>
    by_cases hfirst : isBlank first = true
    · cases rest with
      | nil => simpa [collapse, hfirst] using hmem
      | cons next rest =>
        by_cases hnext : isBlank next = true
        · rw [collapse_skip_skip hfirst hnext] at hmem
          exact ih hmem
        · rw [not_eq_true] at hnext
          rw [collapse_skip_keep hfirst hnext] at hmem
          exact (mem_cons.mp hmem).elim id ih
    · rw [not_eq_true] at hfirst
      rw [collapse_keep hfirst] at hmem
      rcases mem_cons.mp hmem with rfl | hrest
      · exact absurd (hletter.symm.trans hfirst) false_ne_true.symm
      · exact ih hrest

theorem rdropWhile_append (ahead behind : List Letter) :
    (ahead ++ behind).rdropWhile isSpace =
      if behind.rdropWhile isSpace = [] then ahead.rdropWhile isSpace
      else ahead ++ behind.rdropWhile isSpace := by
  simp only [rdropWhile, reverse_append, dropWhile_append,
    List.reverse_eq_nil_iff, List.isEmpty_iff]
  split
  · rfl
  · rw [List.reverse_append, List.reverse_reverse]

theorem rdropWhile_word {word : List Letter} (hword : ∀ letter ∈ word, isSpace letter = false) :
    word.rdropWhile isSpace = word := by
  rw [rdropWhile_eq_self_iff]
  intro hne
  rw [hword _ (getLast_mem hne)]
  exact false_ne_true

theorem join_cons [DecidableEq Letter] (word : List Letter) (hparts : ∀ part ∈ parts, part ≠ []) :
    join blank (word :: parts) =
      if join blank parts = [] then word
      else word ++ blank :: join blank parts := by
  cases parts with
  | nil => simp [join]
  | cons next rest =>
    have hne : join blank (next :: rest) ≠ [] := by
      rw [forall_mem_cons] at hparts
      cases rest with
      | nil => exact hparts.1
      | cons other rest => simp [join, hparts.1]
    rw [join, if_neg hne]

section

variable (hparts : ∀ word ∈ parts, word ≠ [] ∧ ∀ letter ∈ word, isSpace letter = false)

include hparts

theorem rdropWhile_join : (join blank parts).rdropWhile isSpace = join blank parts := by
  induction parts with
  | nil => rfl
  | cons word rest ih =>
    rw [forall_mem_cons] at hparts
    cases rest with
    | nil => exact rdropWhile_word hparts.1.2
    | cons next rest =>
      have hrest := ih hparts.2
      have hne : join blank (next :: rest) ≠ [] := by
        rw [forall_mem_cons] at hparts
        cases rest with
        | nil => exact hparts.2.1.1
        | cons other rest => simp [join, hparts.2.1.1]
      rw [join, rdropWhile_append, ← singleton_append,
        rdropWhile_append, hrest, if_neg hne, if_neg (by simp)]

theorem dropWhile_join : (join blank parts).dropWhile isSpace = join blank parts := by
  cases parts with
  | nil => rfl
  | cons word rest =>
    obtain ⟨hne, hplain⟩ := hparts word mem_cons_self
    obtain ⟨first, tail, rfl⟩ := exists_cons_of_ne_nil hne
    have hfirst := hplain first mem_cons_self
    cases rest with
    | nil => simp [join, hfirst]
    | cons next rest => simp [join, hfirst]

theorem strip_join : strip isSpace (join blank parts) = join blank parts := by
  rw [strip, dropWhile_join hparts, rdropWhile_join hparts]

end

theorem filter_join [DecidableEq Letter] (hparts : ∀ word ∈ parts, blank ∉ word) :
    (join blank parts).filter (fun letter => decide (letter ≠ blank)) = parts.flatten := by
  induction parts with
  | nil => rfl
  | cons word rest ih =>
    rw [forall_mem_cons] at hparts
    have hword : word.filter (fun letter => decide (letter ≠ blank)) =
        word := filter_eq_self.mpr fun letter hletter =>
      decide_eq_true fun heq => hparts.1 (heq ▸ hletter)
    cases rest with
    | nil => simpa [join] using hword
    | cons next rest =>
      have hrest := ih hparts.2
      rw [join, filter_append, hword, filter_cons_of_neg (by simp), hrest]
      exact flatten_cons.symm

theorem words_congr [DecidableEq Letter] {isGap : Letter → Bool}
    (hsame : ∀ letter ∈ text, isBlank letter = isGap letter) :
    words isBlank text = words isGap text := by
  have hsplit : text.splitOnP isBlank = text.splitOnP isGap := by
    induction text with
    | nil => rfl
    | cons letter rest ih =>
      rw [forall_mem_cons] at hsame
      rw [splitOnP_cons_eq_if_modifyHead, splitOnP_cons_eq_if_modifyHead, hsame.1, ih hsame.2]
  rw [words, words, hsplit]

section

variable [DecidableEq Letter]
  (hspace : ∀ letter, isSpace letter = true → isBlank letter = true)
  (hblank : isBlank blank = true) (hstrip : isSpace blank = true)

include hspace hblank hstrip

theorem rdropWhile_collapse (text : List Letter) :
    ((collapse isBlank blank text).dropWhile isBlank).rdropWhile isSpace =
      join blank (words isBlank text) := by
  have hplain : ∀ {word}, IsWord isBlank word → ∀ letter ∈ word, isSpace letter = false := by
    intro word hword letter hletter
    by_contra hnot
    rw [not_eq_false] at hnot
    exact false_ne_true ((hword.2 letter hletter).symm.trans (hspace letter hnot))
  have hfront : ∀ {word rest}, IsWord isBlank word →
      (word ++ rest).dropWhile isBlank = word ++ rest := by
    intro word rest hword
    obtain ⟨first, tail, rfl⟩ := exists_cons_of_ne_nil hword.1
    simp [hword.2 first mem_cons_self]
  induction text using pieces isBlank with
  | nil => simp [collapse, join]
  | skip letter rest hletter ih =>
    rw [collapse_skip hblank hletter, dropWhile_cons_of_pos hblank,
      dropWhile_idempotent, words_skip hletter]
    exact ih
  | last word hword =>
    have hcollapse : collapse isBlank blank word = word ++ [] := by
      rw [← append_nil word, collapse_word hword.2, collapse, append_nil, append_nil]
    rw [hcollapse, hfront hword, append_nil, rdropWhile_word (hplain hword), words_word hword, join]
  | next word letter rest hword hletter ih =>
    rw [collapse_word hword.2, collapse_skip hblank hletter, hfront hword,
      words_next hword hletter, join_cons word fun part hpart => (isWord_of_mem
      hpart).1, ← ih, rdropWhile_append, ← singleton_append, rdropWhile_append]
    split
    · rename_i hnone
      simp [hstrip, rdropWhile_word (hplain hword)]
    · simp

theorem strip_collapse (text : List Letter) :
    strip isSpace (collapse isBlank blank text) = join blank (words isBlank text) := by
  rw [← rdropWhile_collapse hspace hblank hstrip, strip]
  congr 1
  have hsame : ∀ letter ∈ collapse isBlank blank text, isSpace letter = isBlank letter := by
    intro letter hmem
    by_cases hletter : isBlank letter = true
    · rw [eq_blank_of_mem_collapse hmem hletter, hstrip, hblank]
    · rw [not_eq_true] at hletter
      rw [hletter]
      by_contra hnot
      rw [not_eq_false] at hnot
      exact false_ne_true (hletter.symm.trans (hspace letter hnot))
  generalize collapse isBlank blank text = collapsed at hsame
  induction collapsed with
  | nil => rfl
  | cons first rest ih =>
    rw [forall_mem_cons] at hsame
    rw [dropWhile_cons, dropWhile_cons, hsame.1, ih hsame.2]

end

end

/-! ## Trimmed and spaced texts -/

section

variable {isSpace : Letter → Bool}

structure Trimmed (isSpace : Letter → Bool) (text : List Letter) : Prop where
  front : ∀ hne : text ≠ [], isSpace (text.head hne) = false
  back : ∀ hne : text ≠ [], isSpace (text.getLast hne) = false

theorem infix_of_strip (text : List Letter) : strip isSpace text <:+: text :=
  ( rdropWhile_prefix _ _).isInfix.trans (dropWhile_suffix _).isInfix

theorem length_strip_le (text : List Letter) : (strip isSpace text).length ≤ text.length :=
  (infix_of_strip text).length_le

theorem strip_trimmed (text : List Letter) : Trimmed isSpace (strip isSpace text) := by
  constructor
  · intro hne
    have hfront := rdropWhile_prefix isSpace (text.dropWhile isSpace)
    have hdrop : text.dropWhile isSpace ≠ [] := by
      intro hnil
      rw [strip, hnil, rdropWhile_nil] at hne
      exact hne rfl
    have hhead := head_dropWhile_not isSpace hdrop
    rw [← hfront.head hne] at hhead
    exact eq_false_iff.mpr (eq_false_iff.mp hhead)
  · intro hne
    exact eq_false_iff.mpr (rdropWhile_last_not isSpace _ hne)

variable {text : List Letter}

theorem Trimmed.strip_eq (htext : Trimmed isSpace text) : strip isSpace text = text := by
  have hdrop : text.dropWhile isSpace = text := by
    cases text with
    | nil => rfl
    | cons first rest =>
      have hfirst := htext.front (cons_ne_nil first rest)
      exact dropWhile_cons_of_neg (by simpa using hfirst)
  rw [strip, hdrop, rdropWhile_eq_self_iff]
  intro hne
  rw [htext.back hne]
  exact false_ne_true

theorem strip_strip (text : List Letter) :
    strip isSpace (strip isSpace text) = strip isSpace text :=
  (strip_trimmed text).strip_eq

/-- No blank but `blank`, and no two side by side. -/
structure Spaced (isBlank : Letter → Bool) (blank : Letter) (text : List Letter) : Prop where
  only : ∀ letter ∈ text, isBlank letter = true → letter = blank
  apart : text.IsChain fun before next => isBlank before = false ∨ isBlank next = false

theorem Spaced.of_part {part : List Letter} (htext : Spaced isBlank blank text)
    (hpart : part <:+: text) :
    Spaced isBlank blank part :=
  ⟨fun letter hletter => htext.only letter (hpart.subset hletter), htext.apart.infix hpart⟩

theorem spaced_collapse (text : List Letter) :
    Spaced isBlank blank (collapse isBlank blank text) := by
  refine ⟨fun letter hmem hletter => eq_blank_of_mem_collapse hmem hletter, ?_⟩
  induction text with
  | nil => exact IsChain.nil
  | cons letter rest ih =>
    by_cases hletter : isBlank letter = true
    · cases rest with
      | nil => simp [collapse, hletter]
      | cons next rest =>
        by_cases hnext : isBlank next = true
        · rw [collapse_skip_skip hletter hnext]
          exact ih
        · rw [not_eq_true] at hnext
          rw [collapse_skip_keep hletter hnext]
          rw [collapse_keep hnext] at ih ⊢
          exact isChain_cons_cons.mpr ⟨.inr hnext, ih⟩
    · rw [not_eq_true] at hletter
      rw [collapse_keep hletter]
      exact ih.cons fun next _ => .inl hletter

theorem Spaced.collapse_eq (htext : Spaced isBlank blank text) :
    collapse isBlank blank text = text := by
  induction text with
  | nil => rfl
  | cons letter rest ih =>
    have hrest := ih (htext.of_part (suffix_cons letter rest).isInfix)
    by_cases hletter : isBlank letter = true
    · have heq := htext.only letter mem_cons_self hletter
      cases rest with
      | nil => simp [collapse, heq]
      | cons next rest =>
        have hapart := (isChain_cons_cons.mp htext.apart).1
        rw [hletter] at hapart
        have hnext := hapart.resolve_left false_ne_true.symm
        rw [collapse_skip_keep hletter hnext, hrest, heq]
    · rw [not_eq_true] at hletter
      rw [collapse_keep hletter, hrest]

theorem mem_of_mem_collapse {letter : Letter} (hmem : letter ∈ collapse isBlank blank text) :
    letter = blank ∨ letter ∈ text := by
  induction text with
  | nil => exact absurd hmem not_mem_nil
  | cons first rest ih =>
    by_cases hfirst : isBlank first = true
    · cases rest with
      | nil =>
        left
        simpa [collapse, hfirst] using hmem
      | cons next rest =>
        by_cases hnext : isBlank next = true
        · rw [collapse_skip_skip hfirst hnext] at hmem
          exact (ih hmem).imp_right (mem_cons_of_mem first)
        · rw [collapse_skip_keep hfirst (eq_false_iff.mpr hnext)] at hmem
          rcases mem_cons.mp hmem with heq | htail
          · exact .inl heq
          · exact (ih htail).imp_right (mem_cons_of_mem first)
    · rw [collapse_keep (eq_false_iff.mpr hfirst)] at hmem
      rcases mem_cons.mp hmem with rfl | htail
      · exact .inr mem_cons_self
      · exact (ih htail).imp_right (mem_cons_of_mem first)

theorem length_collapse_le (text : List Letter) :
    (collapse isBlank blank text).length ≤ text.length := by
  induction text with
  | nil => exact le_refl 0
  | cons letter rest ih =>
    by_cases hletter : isBlank letter = true
    · cases rest with
      | nil => simp [collapse, hletter]
      | cons next rest =>
        by_cases hnext : isBlank next = true
        · rw [collapse_skip_skip hletter hnext]
          exact Nat.le_succ_of_le ih
        · rw [collapse_skip_keep hletter (eq_false_iff.mpr hnext)]
          exact Nat.succ_le_succ ih
    · rw [collapse_keep (eq_false_iff.mpr hletter)]
      exact Nat.succ_le_succ ih

end

/-! ## The ends of a collapsed text -/

section

variable {isSpace : Letter → Bool}

variable {text : List Letter}

theorem trimmed_iff : Trimmed isSpace text ↔
    (∀ letter ∈ text.head?, isSpace letter = false) ∧
      ∀ letter ∈ text.getLast?, isSpace letter = false := by
  constructor
  · intro htext
    constructor
    · intro letter hletter
      cases text with
      | nil => cases hletter
      | cons first rest =>
        cases hletter
        exact htext.front (cons_ne_nil _ rest)
    · intro letter hletter
      obtain ⟨hne, rfl⟩ := mem_getLast?_eq_getLast hletter
      exact htext.back hne
  · intro htext
    exact ⟨fun hne => htext.1 _ (head_mem_head? hne),
      fun hne => htext.2 _ (getLast?_eq_getLast_of_ne_nil hne)⟩

theorem trimmed_map {Other : Type*} {isGap : Other → Bool} {g : Letter → Other}
    (hsame : ∀ letter, isGap (g letter) = isSpace letter) :
    Trimmed isGap (text.map g) ↔ Trimmed isSpace text := by
  simp only [trimmed_iff, head?_map, getLast?_map, Option.mem_def, Option.map_eq_some_iff,
    forall_exists_index, and_imp, forall_apply_eq_imp_iff₂, hsame]

theorem mem_strip {letter : Letter} (hletter : letter ∈ text)
    (hsolid : isSpace letter = false) : letter ∈ strip isSpace text := by
  have hdrop : ∀ {part : List Letter}, letter ∈ part → letter ∈ part.dropWhile isSpace := by
    intro part hpart
    rw [← takeWhile_append_dropWhile (p := isSpace) (l := part), mem_append] at hpart
    refine hpart.resolve_left fun htaken => ?_
    rw [(all_eq_true.mp all_takeWhile) letter htaken] at hsolid
    cases hsolid
  exact mem_reverse.mpr (hdrop (mem_reverse.mpr (hdrop hletter)))

theorem strip_around {before core after : List Letter}
    (hbefore : ∀ letter ∈ before, isSpace letter = true)
    (hafter : ∀ letter ∈ after, isSpace letter = true) (hcore : Trimmed isSpace core) :
    strip isSpace (before ++ (core ++ after)) = core := by
  have hblank : after.rdropWhile isSpace = [] := rdropWhile_eq_nil_iff.mpr hafter
  rw [strip, dropWhile_append_of_pos hbefore]
  cases core with
  | nil =>
    have hnone : after.dropWhile isSpace = [] := dropWhile_eq_nil_iff.mpr hafter
    rw [nil_append, hnone, rdropWhile_nil]
  | cons first rest =>
    have hfirst := hcore.front (cons_ne_nil first rest)
    rw [head_cons] at hfirst
    rw [cons_append, dropWhile_cons_of_neg (by simp [hfirst]),
      ← cons_append, rdropWhile_append, if_pos hblank]
    apply rdropWhile_eq_self_iff.mpr
    intro hne
    rw [hcore.back hne]
    exact false_ne_true

theorem head?_collapse (hblank : isBlank blank) (text : List Letter) :
    (collapse isBlank blank text).head? = text.head?.map fun letter =>
      if isBlank letter = true then blank else letter := by
  cases text with
  | nil => rfl
  | cons letter rest =>
    by_cases hletter : isBlank letter = true
    · simp [collapse_skip hblank hletter, hletter]
    · rw [not_eq_true] at hletter
      simp [collapse_keep hletter, hletter]

theorem getLast?_collapse (text : List Letter) :
    (collapse isBlank blank text).getLast? = text.getLast?.map fun letter =>
      if isBlank letter = true then blank else letter := by
  induction text with
  | nil => rfl
  | cons letter rest ih =>
    cases rest with
    | nil => by_cases hletter : isBlank letter = true <;> simp [collapse, hletter]
    | cons next rest =>
      have hlast : ∀ first, (first ::
          collapse isBlank blank (next :: rest)).getLast? =
          (collapse isBlank blank (next :: rest)).getLast? := by
        intro first
        have hsome : (collapse isBlank blank (next :: rest)).getLast? ≠
            none := by simp [ih]
        rw [getLast?_cons]
        cases hcase : (collapse isBlank blank (next :: rest)).getLast? with
        | none => exact absurd hcase hsome
        | some last => rfl
      rw [getLast?_cons_cons, ← ih]
      by_cases hletter : isBlank letter = true
      · by_cases hnext : isBlank next = true
        · rw [collapse_skip_skip hletter hnext]
        · rw [not_eq_true] at hnext
          rw [collapse_skip_keep hletter hnext, hlast]
      · rw [not_eq_true] at hletter
        rw [collapse_keep hletter, hlast]

theorem trimmed_collapse_iff (hblank : isBlank blank) :
    Trimmed isBlank (collapse isBlank blank text) ↔ Trimmed isBlank text := by
  have hend : ∀ letter, isBlank (if isBlank letter = true then blank
      else letter) = isBlank letter := by
    intro letter
    split <;> simp_all
  simp only [trimmed_iff, head?_collapse hblank, getLast?_collapse, Option.mem_def,
    Option.map_eq_some_iff, forall_exists_index, and_imp, forall_apply_eq_imp_iff₂, hend]

variable [DecidableEq Letter]

theorem Trimmed.collapse_eq (hblank : isBlank blank) (htext : Trimmed isBlank text) :
    collapse isBlank blank text = join blank (words isBlank text) := by
  rw [← strip_collapse (fun _ => id) hblank hblank,
    ((trimmed_collapse_iff hblank).mpr htext).strip_eq]

theorem words_ne_nil {letter : Letter} (hletter : letter ∈ text)
    (hsolid : isBlank letter = false) : words isBlank text ≠ [] := by
  induction text using pieces isBlank with
  | nil => exact absurd hletter not_mem_nil
  | skip first rest hfirst ih =>
    rw [words_skip hfirst]
    apply ih
    refine (mem_cons.mp hletter).resolve_left fun heq => ?_
    rw [heq, hfirst] at hsolid
    cases hsolid
  | last word hword =>
    rw [words_word hword]
    exact cons_ne_nil word []
  | next word first rest hword hfirst ih =>
    rw [words_next hword hfirst]
    exact cons_ne_nil word _

theorem words_strip (hspace : ∀ letter, isSpace letter = true → isBlank letter = true)
    (text : List Letter) : words isBlank (strip isSpace text) = words isBlank text := by
  have hfront : ∀ {blanks : List Letter},
      (∀ letter ∈ blanks, isBlank letter = true) → ∀ rest,
      words isBlank (blanks ++ rest) = words isBlank rest := by
    intro blanks hblanks rest
    induction blanks with
    | nil => rfl
    | cons letter blanks ih =>
      rw [forall_mem_cons] at hblanks
      rw [cons_append, words_skip hblanks.1, ih hblanks.2]
  have hback : ∀ {blanks : List Letter},
      (∀ letter ∈ blanks, isBlank letter = true) → ∀ ahead,
      words isBlank (ahead ++ blanks) = words isBlank ahead := by
    intro blanks hblanks ahead
    cases blanks with
    | nil => rw [append_nil]
    | cons letter blanks =>
      rw [forall_mem_cons] at hblanks
      rw [words_append_blank hblanks.1, words_of_blanks hblanks.2, append_nil]
  have hdrop := takeWhile_append_dropWhile (p := isSpace) (l := text)
  have hrdrop := rdropWhile_append_rtakeWhile (p := isSpace) (l := text.dropWhile isSpace)
  conv_rhs => rw [← hdrop, ← hrdrop]
  rw [hfront fun letter h => hspace letter ((all_eq_true.mp all_takeWhile) letter h),
    hback fun letter h => hspace letter (mem_rtakeWhile_imp h), strip]

end

end Words
