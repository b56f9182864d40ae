import Mathlib.Algebra.Order.Ring.Nat
import Mathlib.Data.List.Basic
import Mathlib.Order.Bounds.Basic

/-!
# Edit distance

An edit inserts, deletes or replaces one letter of a text.  The distance of two
texts is the least number of edits which lead from one to the other.  The
recursion on the first letters computes it: one edit changes its value by one
at most, and each of its three branches is an edit script.
-/

namespace EditDistance

variable {Letter : Type*}

inductive Edit : List Letter → List Letter → Prop
  | insertion (ahead behind : List Letter) (letter : Letter) :
      Edit (ahead ++ behind) (ahead ++ letter :: behind)
  | deletion (ahead behind : List Letter) (letter : Letter) :
      Edit (ahead ++ letter :: behind) (ahead ++ behind)
  | substitution (ahead behind : List Letter) (old new : Letter) :
      Edit (ahead ++ old :: behind) (ahead ++ new :: behind)

inductive EditsIn : ℕ → List Letter → List Letter → Prop
  | done (text : List Letter) : EditsIn 0 text text
  | step {count : ℕ} {text next last : List Letter} (edit : Edit text next)
      (rest : EditsIn count next last) : EditsIn (count + 1) text last

def IsDistance (count : ℕ) (a b : List Letter) : Prop :=
  IsLeast {n | EditsIn n a b} count

variable {a b c : List Letter} {count : ℕ}

theorem Edit.symm (hedit : Edit a b) : Edit b a := by
  cases hedit with
  | insertion ahead behind letter => exact .deletion ahead behind letter
  | deletion ahead behind letter => exact .insertion ahead behind letter
  | substitution ahead behind old new => exact .substitution ahead behind new old

theorem Edit.reverse (hedit : Edit a b) : Edit a.reverse b.reverse := by
  cases hedit with
  | insertion ahead behind letter => simpa using Edit.insertion behind.reverse ahead.reverse letter
  | deletion ahead behind letter => simpa using Edit.deletion behind.reverse ahead.reverse letter
  | substitution ahead behind old new =>
    simpa using Edit.substitution behind.reverse ahead.reverse old new

theorem Edit.cons (hedit : Edit a b) (first : Letter) : Edit (first :: a) (first :: b) := by
  cases hedit with
  | insertion ahead behind letter => exact .insertion (first :: ahead) behind letter
  | deletion ahead behind letter => exact .deletion (first :: ahead) behind letter
  | substitution ahead behind old new => exact .substitution (first :: ahead) behind old new

theorem EditsIn.snoc (hedits : EditsIn count a b) (hedit : Edit b c) : EditsIn (count + 1) a c := by
  induction hedits with
  | done text => exact .step hedit (.done c)
  | step first rest ih => exact .step first (ih hedit)

theorem EditsIn.symm (hedits : EditsIn count a b) : EditsIn count b a := by
  induction hedits with
  | done text => exact .done text
  | step edit rest ih => exact ih.snoc edit.symm

theorem EditsIn.map {f : List Letter → List Letter} (hf : ∀ {x y}, Edit x y → Edit (f x) (f y))
    (hedits : EditsIn count a b) : EditsIn count (f a) (f b) := by
  induction hedits with
  | done text => exact .done (f text)
  | step edit rest ih => exact .step (hf edit) ih

theorem editsIn_reverse : EditsIn count a.reverse b.reverse ↔ EditsIn count a b := by
  constructor
  · intro hedits
    simpa using hedits.map Edit.reverse
  · exact fun hedits => hedits.map Edit.reverse

theorem isDistance_reverse : IsDistance count a.reverse b.reverse ↔ IsDistance count a b := by
  simp [IsDistance, editsIn_reverse]

theorem IsDistance.unique {m n : ℕ} (hm : IsDistance m a b) (hn : IsDistance n a b) : m = n :=
  IsLeast.unique hm hn

theorem editsIn_length (a : List Letter) : EditsIn a.length a [] := by
  induction a with
  | nil => exact .done []
  | cons x a ih => exact .step (.deletion [] a x) ih

/-! ## The recursion -/

variable [DecidableEq Letter]

def distance : List Letter → List Letter → ℕ
  | [], b => b.length
  | a, [] => a.length
  | x :: a, y :: b =>
    min (min (distance (x :: a) b + 1) (distance a (y :: b) + 1))
      (distance a b + if x = y then 0 else 1)
termination_by a b => a.length + b.length

@[simp] theorem distance_nil_left (b : List Letter) : distance [] b = b.length := by
  cases b <;> simp [distance]

@[simp] theorem distance_nil_right (a : List Letter) : distance a [] = a.length := by
  cases a <;> simp [distance]

theorem distance_cons_cons (x y : Letter) (a b : List Letter) :
    distance (x :: a) (y :: b) =
      min (min (distance (x :: a) b + 1) (distance a (y :: b) + 1))
        (distance a b + if x = y then 0 else 1) := by
  rw [distance]

theorem distance_comm (a b : List Letter) : distance a b = distance b a := by
  fun_induction distance a b with
  | case1 b => simp
  | case2 a => simp
  | case3 x a y b hdelete hinsert hreplace =>
    rw [distance_cons_cons, hdelete, hinsert, hreplace, min_comm (distance b (x :: a) + 1)]
    simp [eq_comm]

theorem distance_cons_left (x : Letter) (a b : List Letter) :
    distance (x :: a) b ≤ distance a b + 1 := by
  cases b with
  | nil => simp
  | cons y b =>
    rw [distance_cons_cons]
    omega

theorem distance_cons_right (y : Letter) (a b : List Letter) :
    distance a (y :: b) ≤ distance a b + 1 := by
  rw [distance_comm, distance_comm a]
  exact distance_cons_left y b a

def Near (a c : List Letter) : Prop :=
  ∀ b, distance a b ≤ distance c b + 1

theorem near_deletion (x : Letter) (a : List Letter) : Near (x :: a) a :=
  distance_cons_left x a

theorem near_insertion (x : Letter) (a : List Letter) : Near a (x :: a) := by
  intro b
  induction b with
  | nil =>
    simp only [distance_nil_right, List.length_cons]
    omega
  | cons y b ih =>
    have hright := distance_cons_right y a b
    rw [distance_cons_cons]
    split <;> omega

theorem near_substitution (x y : Letter) (a : List Letter) : Near (x :: a) (y :: a) := by
  intro b
  induction b with
  | nil =>
    simp only [distance_nil_right, List.length_cons]
    omega
  | cons z b ih =>
    rw [distance_cons_cons, distance_cons_cons]
    split <;> split <;> omega

theorem Near.cons (hnear : Near a c) (x : Letter) : Near (x :: a) (x :: c) := by
  intro b
  induction b with
  | nil =>
    have hnil := hnear []
    simp only [distance_nil_right, List.length_cons] at hnil ⊢
    omega
  | cons y b ih =>
    have hwhole := hnear (y :: b)
    have hrest := hnear b
    rw [distance_cons_cons, distance_cons_cons]
    omega

theorem Near.append (hnear : Near a c) (ahead : List Letter) : Near (ahead ++ a) (ahead ++ c) := by
  induction ahead with
  | nil => exact hnear
  | cons x ahead ih => exact ih.cons x

theorem Edit.near (hedit : Edit a c) : Near a c := by
  cases hedit with
  | insertion ahead behind letter => exact (near_insertion letter behind).append ahead
  | deletion ahead behind letter => exact (near_deletion letter behind).append ahead
  | substitution ahead behind old new => exact (near_substitution old new behind).append ahead

theorem distance_self (a : List Letter) : distance a a = 0 := by
  induction a with
  | nil => simp
  | cons x a ih =>
    rw [distance_cons_cons, ih, if_pos rfl]
    omega

theorem distance_le_of_editsIn (hedits : EditsIn count a b) : distance a b ≤ count := by
  induction hedits with
  | done text => exact Nat.le_of_eq (distance_self text)
  | @step count text next last edit rest ih =>
    have hnear := edit.near last
    omega

theorem editsIn_distance (a b : List Letter) : EditsIn (distance a b) a b := by
  fun_induction distance a b with
  | case1 b => exact (editsIn_length b).symm
  | case2 a => exact editsIn_length a
  | case3 x a y b hinsert hdelete hreplace =>
    have hinserted : EditsIn (distance (x :: a) b + 1) (x :: a) (y :: b) :=
      hinsert.snoc (.insertion [] b y)
    have hdeleted : EditsIn (distance a (y :: b) + 1) (x :: a) (y :: b) :=
      .step (.deletion [] a x) hdelete
    have hreplaced : EditsIn (distance a b + if x = y then 0 else 1) (x :: a) (y :: b) := by
      by_cases hsame : x = y
      · subst hsame
        rw [if_pos rfl]
        exact hreplace.map fun edit => edit.cons x
      · rw [if_neg hsame]
        exact (hreplace.map fun edit => edit.cons x).snoc (.substitution [] b x y)
    rcases min_choice (min (distance (x :: a) b + 1) (distance a (y :: b) + 1))
      (distance a b + if x = y then 0 else 1) with hmin | hmin
    · rw [hmin]
      rcases min_choice (distance (x :: a) b + 1) (distance a (y :: b) + 1) with hmin | hmin
      · rw [hmin]
        exact hinserted
      · rw [hmin]
        exact hdeleted
    · rw [hmin]
      exact hreplaced

theorem isDistance_distance (a b : List Letter) : IsDistance (distance a b) a b :=
  ⟨editsIn_distance a b, fun _ hedits => distance_le_of_editsIn hedits⟩

theorem distance_reverse (a b : List Letter) : distance a.reverse b.reverse = distance a b :=
  (isDistance_reverse.mp (isDistance_distance a.reverse b.reverse)).unique (isDistance_distance a b)

theorem distance_eq_zero_iff : distance a b = 0 ↔ a = b := by
  constructor
  · intro hzero
    have hedits := editsIn_distance a b
    rw [hzero] at hedits
    cases hedits with
    | done => rfl
  · rintro rfl
    exact distance_self a

theorem distance_le_max (a b : List Letter) : distance a b ≤ max a.length b.length := by
  fun_induction distance a b with
  | case1 b => simp
  | case2 a => simp
  | case3 x a y b hinsert hdelete hreplace =>
    simp only [List.length_cons] at hinsert hdelete ⊢
    split <;> omega

end EditDistance
