import Mathlib.Data.List.Sort

/-!
# Leading runs

A log read newest first, and the number of its leading entries which satisfy a
condition.  The run is at least `n` long exactly if the first `n` entries all
satisfy it.  A condition which holds from some instant on holds of a leading
part of the log, so that a count of entries decides where it ends.
-/

namespace LeadingRun

open List

variable {Entry : Type*}

def leadingRun (good : Entry → Bool) : List Entry → ℕ
  | [] => 0
  | entry :: rest => if good entry then leadingRun good rest + 1 else 0

theorem le_leadingRun_iff {good : Entry → Bool} {n : ℕ} {entries : List Entry} :
    n ≤ leadingRun good entries ↔
      n ≤ entries.length ∧ ∀ entry ∈ entries.take n, good entry = true := by
  induction entries generalizing n with
  | nil =>
    have hrun : leadingRun good ([] : List Entry) = 0 := rfl
    rw [hrun, length_nil, take_nil]
    simp
  | cons head rest ih =>
    cases n with
    | zero => simp
    | succ n =>
      rw [take_succ_cons, forall_mem_cons, length_cons, Nat.add_le_add_iff_right]
      by_cases hhead : good head = true
      · have hrun : leadingRun good (head :: rest) = leadingRun good rest + 1 := if_pos hhead
        rw [hrun, Nat.add_le_add_iff_right, ih]
        exact and_congr_right fun _ => (and_iff_right hhead).symm
      · have hrun : leadingRun good (head :: rest) = 0 := if_neg hhead
        rw [hrun]
        constructor
        · intro hle
          exact absurd hle (Nat.not_succ_le_zero n)
        · intro hall
          exact absurd hall.2.1 hhead

theorem le_leadingRun_take_iff {good : Entry → Bool} {n window : ℕ}
    (hwindow : n ≤ window) (entries : List Entry) :
    n ≤ leadingRun good (entries.take window) ↔ n ≤ leadingRun good entries := by
  rw [le_leadingRun_iff, le_leadingRun_iff, take_take,
    Nat.min_eq_left hwindow, length_take, Nat.le_min]
  exact and_congr_left fun _ => and_iff_right hwindow

theorem leadingRun_map {Row : Type*} (f : Entry → Row) (good : Row → Bool) (entries : List Entry) :
    leadingRun good (entries.map f) = leadingRun (fun entry => good (f entry)) entries := by
  induction entries with
  | nil => rfl
  | cons head rest ih =>
    rw [map_cons]
    unfold leadingRun
    rw [ih]

section

variable {Instant : Type*} [LinearOrder Instant] {time : Entry → Instant}

/-- Of the entries that satisfy a condition which, once it holds of an entry,
holds of all newer ones, `n` are there exactly if the `n`-th entry satisfies
it. -/
theorem le_countP_iff {good : Entry → Bool}
    (hgood : ∀ older newer, time older ≤ time newer → good older = true → good newer = true)
    {entries : List Entry} (hsorted : entries.Pairwise fun newer older => time older ≤ time newer)
    {n : ℕ} :
    n ≤ entries.countP good ↔ n ≤ entries.length ∧ ∀ entry ∈ entries.take n, good entry = true := by
  induction entries generalizing n with
  | nil => simp
  | cons head rest ih =>
    obtain ⟨hhead, hrest⟩ := pairwise_cons.mp hsorted
    cases n with
    | zero => simp
    | succ n =>
      rw [take_succ_cons, forall_mem_cons, length_cons, Nat.add_le_add_iff_right]
      by_cases hgoodHead : good head = true
      · rw [countP_cons_of_pos hgoodHead, Nat.add_le_add_iff_right, ih hrest]
        exact and_congr_right fun _ => (and_iff_right hgoodHead).symm
      · have hnone : rest.countP good = 0 := by
          rw [countP_eq_zero]
          intro entry hentry hgoodEntry
          exact hgoodHead (hgood entry head (hhead entry hentry) hgoodEntry)
        rw [countP_cons_of_neg hgoodHead, hnone]
        constructor
        · intro hle
          exact absurd hle (Nat.not_succ_le_zero n)
        · intro hall
          exact absurd hall.2.1 hgoodHead

end

end LeadingRun
