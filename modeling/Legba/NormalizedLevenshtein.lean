import Legba.EditDistance
import Mathlib.Data.List.Range
import Mathlib.Tactic.FieldSimp
import Mathlib.Tactic.Linarith

/-!
# The near-duplicate test

`normalized_levenshtein` fills the table of edit distances row by row and keeps
the row before only.  A row holds the distances of one prefix of the longer
text to every prefix of the shorter one.  The prefixes are read backwards here,
so that a row is the recursion on the first letters.
-/

namespace Legba.NearDuplicate

open EditDistance List

variable {Letter : Type*} [DecidableEq Letter]

/-- The cells of `current` behind its first, which is `left`. -/
def nextRow (letter : Letter) : List Letter → ℕ → List ℕ → List ℕ
  | other :: rest, left, diagonal :: above :: previous =>
    let cost := if letter = other then 0 else 1
    let cell := min (min (left + 1) (above + 1)) (diagonal + cost)
    cell :: nextRow letter rest cell (above :: previous)
  | _, _, _ => []

/-- The row after the letters from index `i` on. -/
def lastRow (b : List Letter) : List Letter → ℕ → List ℕ → List ℕ
  | [], _, previous => previous
  | letter :: rest, i, previous =>
    lastRow b rest (i + 1) ((i + 1) :: nextRow letter b (i + 1) previous)

def normalizedLevenshtein (a b : List Letter) : ℚ :=
  if a = b then 0
  else if a = [] ∨ b = [] then 1
  else
    let longer := if a.length < b.length then b else a
    let shorter := if a.length < b.length then a else b
    let previous := lastRow shorter longer 0 (List.range (shorter.length + 1))
    (previous.getD shorter.length 0 : ℚ) / longer.length

/-- The distances of a prefix to the prefixes which `done` and the letters
behind it make up; both prefixes are reversed. -/
def distanceRow (pre : List Letter) : List Letter → List Letter → List ℕ
  | done, [] => [distance pre done]
  | done, letter :: rest => distance pre done :: distanceRow pre (letter :: done) rest

theorem distanceRow_head (pre done rest : List Letter) :
    ∃ cells, distanceRow pre done rest = distance pre done :: cells := by
  cases rest with
  | nil => exact ⟨[], rfl⟩
  | cons letter rest => exact ⟨_, rfl⟩

theorem nextRow_eq (letter : Letter) (pre done rest : List Letter) :
    distance (letter :: pre) done ::
        nextRow letter rest (distance (letter :: pre) done) (distanceRow pre done rest) =
      distanceRow (letter :: pre) done rest := by
  induction rest generalizing done with
  | nil => rfl
  | cons other rest ih =>
    obtain ⟨cells, hcells⟩ := distanceRow_head pre (other :: done) rest
    have hcell : min (min (distance (letter :: pre) done + 1)
        (distance pre (other :: done) + 1))
        (distance pre done + if letter = other then 0 else 1) =
          distance (letter :: pre) (other :: done) :=
      (distance_cons_cons letter other pre done).symm
    have hrest := ih (other :: done)
    rw [hcells] at hrest
    simp only [distanceRow]
    rw [hcells]
    simp only [nextRow, hcell, hrest]

theorem lastRow_eq (b rest pre : List Letter) :
    lastRow b rest pre.length (distanceRow pre [] b) = distanceRow (rest.reverse ++ pre) [] b := by
  induction rest generalizing pre with
  | nil => rfl
  | cons letter rest ih =>
    have hrow := nextRow_eq letter pre [] b
    rw [distance_nil_right, length_cons] at hrow
    rw [lastRow, hrow]
    have hnext := ih (letter :: pre)
    rw [length_cons] at hnext
    rw [hnext, reverse_cons, append_assoc]
    rfl

theorem distanceRow_nil (done rest : List Letter) :
    distanceRow [] done rest = List.range' done.length (rest.length + 1) := by
  induction rest generalizing done with
  | nil => simp [distanceRow]
  | cons letter rest ih =>
    rw [distanceRow, ih, distance_nil_left, length_cons,
      length_cons, range'_succ (n := rest.length + 1)]

theorem distanceRow_getD (pre done rest : List Letter) :
    (distanceRow pre done rest).getD rest.length 0 = distance pre (rest.reverse ++ done) := by
  induction rest generalizing done with
  | nil => rfl
  | cons letter rest ih =>
    rw [distanceRow, length_cons, getD_cons_succ, ih, reverse_cons, append_assoc]
    rfl

section

variable (a b : List Letter)

theorem lastRow_getD :
    (lastRow b a 0 (List.range (b.length + 1))).getD b.length 0 = distance a b := by
  have hfirst : range (b.length + 1) = distanceRow ([] : List Letter) [] b := by
    rw [distanceRow_nil, range_eq_range', length_nil]
  have hrows := lastRow_eq b a []
  rw [length_nil] at hrows
  rw [hfirst, hrows, distanceRow_getD, append_nil, append_nil, distance_reverse]

theorem normalizedLevenshtein_eq :
    normalizedLevenshtein a b = (distance a b : ℚ) / max a.length b.length := by
  unfold normalizedLevenshtein
  by_cases hsame : a = b
  · rw [if_pos hsame, distance_eq_zero_iff.mpr hsame, Nat.cast_zero, zero_div]
  · rw [if_neg hsame]
    by_cases hempty : a = [] ∨ b = []
    · rw [if_pos hempty]
      rcases hempty with rfl | rfl
      · have hb : (b.length : ℚ) ≠ 0 := by simpa using Ne.symm hsame
        rw [distance_nil_left]
        simp [hb]
      · have ha : (a.length : ℚ) ≠ 0 := by simpa using hsame
        rw [distance_nil_right]
        simp [ha]
    · rw [if_neg hempty]
      by_cases hless : a.length < b.length
      · simp only [if_pos hless, lastRow_getD]
        rw [distance_comm, max_eq_right (by exact_mod_cast hless.le)]
      · simp only [if_neg hless, lastRow_getD]
        rw [max_eq_left (by exact_mod_cast not_lt.mp hless)]

theorem normalizedLevenshtein_comm : normalizedLevenshtein a b = normalizedLevenshtein b a := by
  rw [normalizedLevenshtein_eq, normalizedLevenshtein_eq, distance_comm, max_comm]

theorem normalizedLevenshtein_nonneg : 0 ≤ normalizedLevenshtein a b := by
  rw [normalizedLevenshtein_eq]
  exact div_nonneg (Nat.cast_nonneg _) (Nat.cast_nonneg _)

theorem normalizedLevenshtein_le_one : normalizedLevenshtein a b ≤ 1 := by
  rw [normalizedLevenshtein_eq]
  refine div_le_one_of_le₀ ?_ (Nat.cast_nonneg _)
  exact_mod_cast distance_le_max a b

end

theorem normalizedLevenshtein_eq_zero_iff {a b : List Letter} :
    normalizedLevenshtein a b = 0 ↔ a = b := by
  rw [normalizedLevenshtein_eq, div_eq_zero_iff, Nat.cast_eq_zero, distance_eq_zero_iff]
  refine or_iff_left_of_imp fun hmax => ?_
  have hlengths : max a.length b.length = 0 := by exact_mod_cast hmax
  rw [eq_nil_of_length_eq_zero (by omega : a.length = 0),
    eq_nil_of_length_eq_zero (by omega : b.length = 0)]

/-- The least number of edits over the length of the longer text. -/
theorem normalizedLevenshtein_spec (a b : List Letter) :
    (∃ edits, IsDistance edits a b ∧
      normalizedLevenshtein a b = (edits : ℚ) / max a.length b.length) ∧
    normalizedLevenshtein a b = normalizedLevenshtein b a ∧
    0 ≤ normalizedLevenshtein a b ∧ normalizedLevenshtein a b ≤ 1 ∧
    (normalizedLevenshtein a b = 0 ↔ a = b) :=
  ⟨⟨distance a b, isDistance_distance a b, normalizedLevenshtein_eq a b⟩,
    normalizedLevenshtein_comm a b, normalizedLevenshtein_nonneg a b,
    normalizedLevenshtein_le_one a b, normalizedLevenshtein_eq_zero_iff⟩

end Legba.NearDuplicate
