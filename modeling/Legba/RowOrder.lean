import Mathlib.Data.List.Basic
import Mathlib.Order.Lattice

/-!
# The first row of an ordered selection

`ORDER BY … LIMIT 1` over a list of rows in the order the database reads
them.  `before` says that a row comes strictly earlier in the requested order;
among rows none of which is before another the first one read is taken.
-/

namespace RowOrder

open Option List

variable {Row : Type*}

def firstBy (before : Row → Row → Bool) : List Row → Option Row
  | [] => none
  | row :: rest =>
    match firstBy before rest with
    | none => some row
    | some found => if before found row then some found else some row

variable {before : Row → Row → Bool}

@[simp] theorem firstBy_nil : firstBy before ([] : List Row) = none := rfl

theorem firstBy_cons (before : Row → Row → Bool) (row : Row) (rest : List Row) :
    firstBy before (row :: rest) = some row ∨
      firstBy before (row :: rest) = firstBy before rest ∧
        ∃ found, firstBy before rest = some found ∧ before found row = true := by
  simp only [firstBy]
  cases hrest : firstBy before rest with
  | none => exact .inl rfl
  | some found =>
    by_cases hbefore : before found row = true
    · exact .inr ⟨if_pos hbefore, found, rfl, hbefore⟩
    · exact .inl (if_neg hbefore)

variable {rows : List Row} {found : Row}

theorem firstBy_mem (hfound : firstBy before rows = some found) : found ∈ rows := by
  induction rows with
  | nil => simp at hfound
  | cons row rest ih =>
    cases firstBy_cons before row rest with
    | inl hhead =>
      rw [hhead, some.injEq] at hfound
      exact hfound ▸ mem_cons_self
    | inr hrest =>
      rw [hrest.1] at hfound
      exact mem_cons_of_mem _ (ih hfound)

@[simp] theorem firstBy_eq_none : firstBy before rows = none ↔ rows = [] := by
  cases rows with
  | nil => simp
  | cons row rest =>
    cases firstBy_cons before row rest with
    | inl hhead => simp [hhead]
    | inr hrest =>
      obtain ⟨found, hfound, _⟩ := hrest.2
      simp [hrest.1, hfound]

theorem firstBy_isSome (before : Row → Row → Bool) {row : Row} (hrow : row ∈ rows) :
    ∃ found, firstBy before rows = some found := by
  cases hfound : firstBy before rows with
  | none =>
    rw [firstBy_eq_none] at hfound
    exact absurd hrow (by simp [hfound])
  | some found => exact ⟨found, rfl⟩

/-- A strict order in which rows that are not comparable are interchangeable. -/
structure IsStrictOrder (before : Row → Row → Bool) : Prop where
  asymm : ∀ a b, before a b = true → before b a = false
  split : ∀ a b c, before a b = true → before a c = true ∨ before c b = true

section

variable (horder : IsStrictOrder before)

include horder

theorem IsStrictOrder.irrefl (row : Row) : before row row = false := by
  by_contra hself
  rw [Bool.not_eq_false] at hself
  have hback := horder.asymm row row hself
  rw [hself] at hback
  simp at hback

theorem IsStrictOrder.not_before {row : Row} (hfound : firstBy before rows = some found)
    (hrow : row ∈ rows) : before row found = false := by
  induction rows generalizing found with
  | nil => simp at hrow
  | cons head rest ih =>
    cases hrest : firstBy before rest with
    | none =>
      rw [firstBy_eq_none] at hrest
      subst hrest
      simp only [firstBy, some.injEq] at hfound
      rw [mem_singleton] at hrow
      rw [hrow, hfound]
      exact horder.irrefl found
    | some best =>
      have hbound : row ∈ rest → before row best = false := fun htail => ih hrest htail
      simp only [firstBy, hrest] at hfound
      by_cases hbest : before best head = true
      · rw [if_pos hbest, some.injEq] at hfound
        subst hfound
        cases mem_cons.mp hrow with
        | inl hhead =>
          rw [hhead]
          exact horder.asymm _ _ hbest
        | inr htail => exact hbound htail
      · rw [if_neg hbest, some.injEq] at hfound
        subst hfound
        cases mem_cons.mp hrow with
        | inl hhead =>
          rw [hhead]
          exact horder.irrefl head
        | inr htail =>
          by_contra hbefore
          rw [Bool.not_eq_false] at hbefore
          cases horder.split _ _ best hbefore with
          | inl hbad =>
            rw [hbound htail] at hbad
            simp at hbad
          | inr hbad => exact hbest hbad

theorem IsStrictOrder.firstBy_eq_some {first : Row} (hfirst : first ∈ rows)
    (hbefore : ∀ row ∈ rows, row ≠ first → before first row = true) :
    firstBy before rows = some first := by
  obtain ⟨found, hfound⟩ := firstBy_isSome before hfirst
  have hmem := firstBy_mem hfound
  have hnot := horder.not_before hfound hfirst
  by_cases heq : found = first
  · rw [hfound, heq]
  · rw [hbefore found hmem heq] at hnot
    simp at hnot

theorem IsStrictOrder.firstBy_append_cons {ahead after : List Row} (hahead : found ∉ ahead) :
    firstBy before (ahead ++ found :: after) = some found ↔
      (∀ row ∈ ahead, before found row = true) ∧ ∀ row ∈ after, before row found = false := by
  induction ahead with
  | nil =>
    rw [nil_append]
    constructor
    · intro hfound
      exact ⟨by simp, fun row hrow => horder.not_before hfound (mem_cons_of_mem _ hrow)⟩
    · intro hbefore
      cases firstBy_cons before found after with
      | inl hhead => exact hhead
      | inr hrest =>
        obtain ⟨other, hother, hearlier⟩ := hrest.2
        rw [hbefore.2 other (firstBy_mem hother)] at hearlier
        simp at hearlier
  | cons head ahead ih =>
    rw [mem_cons, not_or] at hahead
    have hrest := ih hahead.2
    rw [cons_append, forall_mem_cons]
    constructor
    · intro hfound
      cases firstBy_cons before head (ahead ++ found :: after) with
      | inl hhead =>
        rw [hfound, some.injEq] at hhead
        exact absurd hhead hahead.1
      | inr htail =>
        rw [htail.1] at hfound
        obtain ⟨other, hother, hearlier⟩ := htail.2
        rw [hfound, some.injEq] at hother
        subst hother
        have hboth := hrest.mp hfound
        exact ⟨⟨hearlier, hboth.1⟩, hboth.2⟩
    · intro hbefore
      have hfound := hrest.mpr ⟨hbefore.1.2, hbefore.2⟩
      simp only [firstBy, hfound]
      rw [if_pos hbefore.1.1]

theorem IsStrictOrder.firstBy_filter {keep : Row → Bool} (hfound : firstBy before rows = some found)
    (hkeep : keep found) : firstBy before (rows.filter keep) = some found := by
  obtain ⟨ahead, after, hrows, hahead⟩ := eq_append_cons_of_mem (firstBy_mem hfound)
  rw [hrows, horder.firstBy_append_cons hahead] at hfound
  rw [hrows, filter_append, filter_cons_of_pos hkeep,
    horder.firstBy_append_cons fun hmem => hahead (mem_of_mem_filter hmem)]
  exact ⟨fun row hrow => hfound.1 row (mem_of_mem_filter hrow),
    fun row hrow => hfound.2 row (mem_of_mem_filter hrow)⟩

theorem IsStrictOrder.trans {a b c : Row} (hab : before a b) (hbc : before b c) : before a c := by
  rcases horder.split a b c hab with hac | hcb
  · exact hac
  · rw [horder.asymm b c hbc] at hcb
    simp at hcb

theorem IsStrictOrder.firstBy_append_singleton (rows : List Row) (last : Row) :
    firstBy before (rows ++ [last]) =
      if ∀ row ∈ rows, before last row = true then some last
      else firstBy before rows := by
  induction rows with
  | nil => simp [firstBy]
  | cons head rest ih =>
    rw [cons_append]
    simp only [firstBy, ih, forall_mem_cons]
    by_cases hrest : ∀ row ∈ rest, before last row = true
    · rw [if_pos hrest]
      by_cases hhead : before last head = true
      · have hall : before last head = true ∧ ∀ row ∈ rest, before last row = true := ⟨hhead, hrest⟩
        rw [if_pos hall]
        simp only [if_pos hhead]
      · have hbest : ∀ best, firstBy before rest = some best → before best head ≠ true := by
          intro best hbest hbefore
          exact hhead (horder.trans (hrest best (firstBy_mem hbest)) hbefore)
        have hnot : ¬(before last head = true ∧
            ∀ row ∈ rest, before last row = true) := fun h => hhead h.1
        rw [if_neg hnot]
        cases hfound : firstBy before rest with
        | none => simp only [if_neg hhead]
        | some best => simp only [if_neg hhead, if_neg (hbest best hfound)]
    · have hnot : ¬(before last head = true ∧
          ∀ row ∈ rest, before last row = true) := fun h => hrest h.2
      rw [if_neg hrest, if_neg hnot]

end

section

variable {Key : Type*} [LinearOrder Key]

/-- `ORDER BY key DESC`. -/
def greater (key : Row → Key) (a b : Row) : Bool :=
  decide (key b < key a)

/-- `ORDER BY key DESC, …`. -/
def greaterThen (key : Row → Key) (next : Row → Row → Bool) (a b : Row) :
    Bool :=
  decide (key b < key a) || (decide (key a = key b) && next a b)

theorem isStrictOrder_greater (key : Row → Key) : IsStrictOrder (greater key) where
  asymm := by
    intro a b hab
    simp only [greater, decide_eq_true_eq, decide_eq_false_iff_not] at *
    exact not_lt.mpr hab.le
  split := by
    intro a b c hab
    simp only [greater, decide_eq_true_eq] at *
    rcases lt_or_ge (key c) (key a) with hlt | hge
    · exact .inl hlt
    · exact .inr (lt_of_lt_of_le hab hge)

theorem IsStrictOrder.greaterThen {next : Row → Row → Bool}
    (hnext : IsStrictOrder next) (key : Row → Key) :
    IsStrictOrder (greaterThen key next) where
  asymm := by
    intro a b hab
    simp only [RowOrder.greaterThen, Bool.or_eq_true, Bool.and_eq_true, decide_eq_true_eq,
      Bool.or_eq_false_iff, Bool.and_eq_false_iff, decide_eq_false_iff_not] at hab ⊢
    rcases hab with hlt | ⟨heq, hnextab⟩
    · exact ⟨not_lt.mpr hlt.le, .inl hlt.ne⟩
    · exact ⟨not_lt.mpr heq.ge, .inr (hnext.asymm a b hnextab)⟩
  split := by
    intro a b c hab
    simp only [RowOrder.greaterThen, Bool.or_eq_true, Bool.and_eq_true, decide_eq_true_eq] at hab ⊢
    rcases lt_trichotomy (key c) (key a) with hlt | heq | hgt
    · exact .inl (.inl hlt)
    · rcases hab with hlt | ⟨hsame, hnextab⟩
      · exact .inr (.inl (heq ▸ hlt))
      · rcases hnext.split a b c hnextab with hac | hcb
        · exact .inl (.inr ⟨heq.symm, hac⟩)
        · exact .inr (.inr ⟨heq.trans hsame, hcb⟩)
    · rcases hab with hlt | ⟨hsame, _⟩
      · exact .inr (.inl (hlt.trans hgt))
      · exact .inr (.inl (hsame ▸ hgt))

end

end RowOrder
