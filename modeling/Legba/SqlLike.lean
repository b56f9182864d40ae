import Legba.SqlLogic
import Mathlib.Data.List.Infix

/-!
# Prefix patterns of `LIKE`

A pattern which ends in a separator and `%` is meant to match the texts with
the pattern's own text ahead of the separator.  What follows the last separator
of a text is then beside the point.  A pattern matches its own text as long as
no backslash in it escapes the character behind.
-/

namespace SqlLogic

open List

theorem like_percent (pattern text : List Char) :
    like ('%' :: pattern) text = text.tails.any (like pattern) := by
  rw [like]

theorem like_underscore (pattern text : List Char) (letter : Char) :
    like ('_' :: pattern) (letter :: text) = like pattern text := by
  rw [like]

theorem like_escape (pattern text : List Char) (escaped letter : Char) :
    like ('\\' :: escaped :: pattern) (letter :: text) =
      (escaped == letter && like pattern text) := by
  rw [like]

theorem like_letter {expected : Char} (hpercent : expected ≠ '%') (hunderscore : expected ≠ '_')
    (hescape : expected ≠ '\\') (pattern text : List Char) (letter : Char) :
    like (expected :: pattern) (letter :: text) = (expected == letter && like pattern text) := by
  rw [like] <;> simp_all

theorem like_nil {expected : Char} (hpercent : expected ≠ '%')
    (pattern : List Char) : like (expected :: pattern) [] = false := by
  unfold like
  split <;> simp_all

theorem like_percent_all (text : List Char) : like ['%'] text := by
  rw [like_percent, any_eq_true]
  exact ⟨[], (mem_tails _ _).mpr nil_suffix, rfl⟩

/-! ## Patterns which end in a separator -/

section

variable {separator : Char}

structure IsPlain (separator : Char) : Prop where
  ne_percent : separator ≠ '%'
  ne_underscore : separator ≠ '_'
  ne_escape : separator ≠ '\\'

theorem like_tail (hplain : IsPlain separator) (text : List Char) (letter : Char) :
    like [separator, '%'] (letter :: text) = (separator == letter) := by
  rw [like_letter hplain.ne_percent hplain.ne_underscore hplain.ne_escape,
    like_percent_all, Bool.and_true]

theorem like_of_notMem (hplain : IsPlain separator) :
    ∀ (pattern text : List Char), separator ∉ text → like (pattern ++ [separator, '%']) text = false
  | [], [], _ => like_nil hplain.ne_percent _
  | [], letter :: text, hfree => by
    rw [mem_cons, not_or] at hfree
    rw [nil_append, like_tail hplain, beq_eq_false_iff_ne]
    exact hfree.1
  | expected :: pattern, text, hfree => by
    by_cases hpercent : expected = '%'
    · subst hpercent
      rw [cons_append, like_percent, any_eq_false]
      intro tail htail
      rw [Bool.not_eq_true]
      exact like_of_notMem hplain pattern tail fun hmem =>
        hfree (((mem_tails _ _).mp htail).subset hmem)
    · cases text with
      | nil => exact like_nil hpercent _
      | cons letter text =>
        rw [mem_cons, not_or] at hfree
        have hrest := like_of_notMem hplain pattern text hfree.2
        by_cases hunderscore : expected = '_'
        · subst hunderscore
          rw [cons_append, like_underscore]
          exact hrest
        · by_cases hescape : expected = '\\'
          · subst hescape
            cases pattern with
            | nil =>
              rw [cons_append, nil_append, like_escape,
                beq_eq_false_iff_ne.mpr hfree.1, Bool.false_and]
            | cons escaped pattern =>
              rw [cons_append, cons_append, like_escape, like_of_notMem hplain
                pattern text hfree.2, Bool.and_false]
          · rw [cons_append, like_letter hpercent hunderscore hescape, hrest, Bool.and_false]

theorem any_tails_separator {holds : List Char → Bool} {rest : List Char}
    (hsame : ∀ ahead, holds (ahead ++ separator :: rest) = holds (ahead ++ [separator]))
    (hnone : ∀ text, separator ∉ text → holds text = false) (hfree : separator ∉ rest)
    (text : List Char) :
    (text ++ separator :: rest).tails.any holds = (text ++ [separator]).tails.any holds := by
  induction text with
  | nil =>
    have hrest : rest.tails.any holds = false := by
      rw [any_eq_false]
      intro tail htail
      rw [hnone tail fun hmem => hfree (((mem_tails _ _).mp htail).subset hmem)]
      exact Bool.false_ne_true
    have hfirst := hsame []
    simp only [nil_append] at hfirst
    simp [tails, hfirst, hrest, hnone [] not_mem_nil]
  | cons letter text ih =>
    simp only [cons_append, tails_cons, any_cons, ih]
    rw [← cons_append, ← cons_append, hsame]

theorem like_separator (hplain : IsPlain separator) {rest : List Char} (hfree : separator ∉ rest) :
    ∀ pattern text : List Char,
      like (pattern ++ [separator, '%']) (text ++ separator :: rest) =
        like (pattern ++ [separator, '%']) (text ++ [separator])
  | [], [] => by simp only [nil_append, like_tail hplain]
  | [], letter :: text => by simp only [nil_append, cons_append, like_tail hplain]
  | expected :: pattern, text => by
    by_cases hpercent : expected = '%'
    · subst hpercent
      rw [cons_append, like_percent, like_percent]
      exact any_tails_separator (like_separator hplain hfree pattern)
        (like_of_notMem hplain pattern) hfree text
    · by_cases hunderscore : expected = '_'
      · subst hunderscore
        cases text with
        | nil =>
          simp only [nil_append, cons_append, like_underscore]
          rw [like_of_notMem hplain pattern _ hfree,
            like_of_notMem hplain pattern _ not_mem_nil]
        | cons letter text =>
          simp only [cons_append, like_underscore]
          exact like_separator hplain hfree pattern text
      · by_cases hescape : expected = '\\'
        · subst hescape
          cases pattern with
          | nil =>
            cases text with
            | nil => simp only [nil_append, cons_append, like_escape, like_percent_all]
            | cons letter text =>
              simp only [nil_append, cons_append, like_escape, like_percent_all]
          | cons escaped pattern =>
            cases text with
            | nil =>
              simp only [nil_append, cons_append, like_escape]
              rw [like_of_notMem hplain pattern _ hfree,
                like_of_notMem hplain pattern _ not_mem_nil]
            | cons letter text =>
              simp only [cons_append, like_escape]
              rw [like_separator hplain hfree pattern text]
        · cases text with
          | nil =>
            simp only [nil_append, cons_append, like_letter hpercent hunderscore hescape]
            rw [like_of_notMem hplain pattern _ hfree,
              like_of_notMem hplain pattern _ not_mem_nil]
          | cons letter text =>
            simp only [cons_append, like_letter hpercent hunderscore hescape]
            rw [like_separator hplain hfree pattern text]

end

end SqlLogic
