import Mathlib.Algebra.Order.Field.Basic
import Mathlib.Tactic.Linarith
import Mathlib.Tactic.Ring

/-!
# Combining degrees of belief

The noisy-or of two degrees of belief is one minus the product of the two
degrees of doubt.  It is a commutative and associative combination which lies
above both arguments.  Under a ceiling it keeps these properties, as long as
the degrees themselves lie under the ceiling.
-/

namespace NoisyOr

variable {K : Type*} [Field K] [LinearOrder K] [IsStrictOrderedRing K]

def noisyOr (a b : K) : K := 1 - (1 - a) * (1 - b)

def boundedNoisyOr (ceiling a b : K) : K := min ceiling (noisyOr a b)

variable {a b c ceiling : K}

omit [LinearOrder K] [IsStrictOrderedRing K] in
theorem noisyOr_right_comm (a b c : K) : noisyOr (noisyOr a b) c = noisyOr (noisyOr a c) b := by
  unfold noisyOr
  ring

theorem le_noisyOr (ha : a ≤ 1) (hb : 0 ≤ b) : a ≤ noisyOr a b := by
  have hdoubt : (1 - a) * (1 - b) ≤ (1 - a) * 1 :=
    mul_le_mul_of_nonneg_left (by linarith) (by linarith)
  unfold noisyOr
  linarith

theorem noisyOr_le_one (ha : a ≤ 1) (hb : b ≤ 1) : noisyOr a b ≤ 1 := by
  have hdoubt : 0 ≤ (1 - a) * (1 - b) := mul_nonneg (by linarith) (by linarith)
  unfold noisyOr
  linarith

omit [IsStrictOrderedRing K] in
theorem boundedNoisyOr_le (ceiling a b : K) :
    boundedNoisyOr ceiling a b ≤ ceiling := min_le_left _ _

theorem le_boundedNoisyOr (ha : a ≤ 1) (hb : 0 ≤ b) :
    a ≤ boundedNoisyOr ceiling a b ↔ a ≤ ceiling := by
  unfold boundedNoisyOr
  rw [le_min_iff]
  exact and_iff_left (le_noisyOr ha hb)

theorem boundedNoisyOr_boundedNoisyOr (hceiling : ceiling ≤ 1) (ha : a ≤ 1)
    (hb : b ≤ 1) (hc : 0 ≤ c) :
    boundedNoisyOr ceiling (boundedNoisyOr ceiling a b) c =
      min ceiling (noisyOr (noisyOr a b) c) := by
  have hone : noisyOr a b ≤ 1 := noisyOr_le_one ha hb
  cases le_total (noisyOr a b) ceiling with
  | inl hunder =>
    have hinner : boundedNoisyOr ceiling a b = noisyOr a b := min_eq_right hunder
    rw [hinner]
    rfl
  | inr hover =>
    have hinner : boundedNoisyOr ceiling a b = ceiling := min_eq_left hover
    have hleft : ceiling ≤ noisyOr ceiling c := le_noisyOr hceiling hc
    have hright : ceiling ≤ noisyOr (noisyOr a b) c := hover.trans (le_noisyOr hone hc)
    rw [hinner, min_eq_left hright]
    exact min_eq_left hleft

theorem boundedNoisyOr_right_comm (hceiling : ceiling ≤ 1) (ha : a ≤ 1)
    (hb : b ≤ 1) (hb0 : 0 ≤ b) (hc : c ≤ 1) (hc0 : 0 ≤ c) :
    boundedNoisyOr ceiling (boundedNoisyOr ceiling a b) c =
      boundedNoisyOr ceiling (boundedNoisyOr ceiling a c) b := by
  rw [boundedNoisyOr_boundedNoisyOr hceiling ha hb hc0,
    boundedNoisyOr_boundedNoisyOr hceiling ha hc hb0, noisyOr_right_comm]

theorem max_boundedNoisyOr_of_le (ha : a ≤ 1) (hb : 0 ≤ b) (hunder : a ≤ ceiling) :
    max a (boundedNoisyOr ceiling a b) = boundedNoisyOr ceiling a b :=
  max_eq_right ((le_boundedNoisyOr ha hb).mpr hunder)

omit [IsStrictOrderedRing K] in
theorem max_boundedNoisyOr_of_ge (hover : ceiling ≤ a) : max a (boundedNoisyOr ceiling a b) = a :=
  max_eq_left ((boundedNoisyOr_le ceiling a b).trans hover)

theorem max_boundedNoisyOr_right_comm (hceiling : ceiling ≤ 1) (ha : a ≤ 1)
    (hb : b ≤ 1) (hb0 : 0 ≤ b) (hc : c ≤ 1) (hc0 : 0 ≤ c) :
    max (max a (boundedNoisyOr ceiling a b))
        (boundedNoisyOr ceiling (max a (boundedNoisyOr ceiling a b)) c) =
      max (max a (boundedNoisyOr ceiling a c))
        (boundedNoisyOr ceiling (max a (boundedNoisyOr ceiling a c)) b) := by
  cases le_total a ceiling with
  | inl hunder =>
    have hle : ∀ x, boundedNoisyOr ceiling a x ≤ ceiling := boundedNoisyOr_le ceiling a
    rw [max_boundedNoisyOr_of_le ha hb0 hunder, max_boundedNoisyOr_of_le ha hc0
      hunder, max_boundedNoisyOr_of_le ((hle b).trans hceiling) hc0 (hle b),
      max_boundedNoisyOr_of_le ((hle c).trans hceiling) hb0 (hle c)]
    exact boundedNoisyOr_right_comm hceiling ha hb hb0 hc hc0
  | inr hover => simp only [max_boundedNoisyOr_of_ge hover]

end NoisyOr
