import Mathlib.Data.List.MinMax
import Mathlib.Data.List.Sort
import Mathlib.Data.Prod.Lex

/-!
# Keyset pages

A reader walks a table in the order of an instant and an id.  It reads one page
of the rows after its watermark, and may leave rows of the page owed.  It then
resumes at the earliest owed instant, with the least id, so that every row of
that instant is read again; a page which is not left owed is resumed behind its
last row.
-/

namespace KeysetPage

open List

variable {Row Instant Id : Type*} [LinearOrder Instant] [LinearOrder Id]

def instantOf (position : Instant ×ₗ Id) : Instant := (ofLex position).1

theorem instantOf_mono {a b : Instant ×ₗ Id} (hle : a ≤ b) : instantOf a ≤ instantOf b := by
  rcases Prod.Lex.le_iff.mp hle with hlt | heq
  · exact le_of_lt hlt
  · exact le_of_eq heq.1

section

variable (position : Row → Instant ×ₗ Id)

def after (lookback : Instant) (cursor : Option (Instant ×ₗ Id)) (row : Row) :
    Bool :=
  match cursor with
  | none => decide (lookback < instantOf (position row))
  | some bound => decide (bound < position row)

def inOrder (rows : List Row) : List Row :=
  rows.insertionSort fun a b => position a ≤ position b

/-- `ORDER BY … LIMIT limit` -/
def page (limit : ℕ) (rows : List Row) : List Row :=
  (inOrder position rows).take limit

def owedInstant (left : List Row) : Option Instant :=
  (left.map fun row => instantOf (position row)).min?

/-- The watermark behind a page of which the rows `left` are owed. -/
def resume (least : Id) (cursor : Option (Instant ×ₗ Id))
    (read left : List Row) : Option (Instant ×ₗ Id) :=
  match owedInstant position left with
  | some instant => some (toLex (instant, least))
  | none =>
    match read.getLast? with
    | some last => some (position last)
    | none => cursor

end

variable {position : Row → Instant ×ₗ Id}

variable {lookback : Instant} {row : Row}

@[simp] theorem after_none :
    after position lookback none row = true ↔ lookback < instantOf (position row) := by
  rw [after, decide_eq_true_eq]

@[simp] theorem after_some {bound : Instant ×ₗ Id} :
    after position lookback (some bound) row = true ↔ bound < position row := by
  rw [after, decide_eq_true_eq]

@[simp] theorem mem_inOrder {rows : List Row} : row ∈ inOrder position rows ↔ row ∈ rows := by
  rw [inOrder, mem_insertionSort]

theorem inOrder_perm (rows : List Row) : (inOrder position rows).Perm rows :=
  perm_insertionSort _ _

variable (position) in
theorem inOrder_pairwise (rows : List Row) :
    (inOrder position rows).Pairwise fun a b => position a ≤ position b := by
  exact pairwise_insertionSort _ _

section

variable {limit : ℕ} {rows : List Row} {row other last : Row}

theorem mem_of_mem_page (hmem : row ∈ page position limit rows) : row ∈ rows :=
  mem_inOrder.mp (mem_of_mem_take hmem)

theorem page_eq_nil_iff (hlimit : 0 < limit) : page position limit rows = [] ↔ rows = [] := by
  rw [page, take_eq_nil_iff, or_iff_right hlimit.ne', ← length_eq_zero_iff,
    (inOrder_perm rows).length_eq, length_eq_zero_iff]

theorem lt_of_not_mem_page (hinj : ∀ a ∈ rows, ∀ b ∈ rows, position a = position b → a = b)
    (hrow : row ∈ rows) (hnot : row ∉ page position limit rows)
    (hother : other ∈ page position limit rows) : position other < position row := by
  have hall : row ∈ inOrder position rows := mem_inOrder.mpr hrow
  have hsorted := inOrder_pairwise position rows
  rw [← take_append_drop limit (inOrder position rows)] at hall hsorted
  have hdrop := (mem_append.mp hall).resolve_left hnot
  have hle := (pairwise_append.mp hsorted).2.2 other hother row hdrop
  refine lt_of_le_of_ne hle fun heq => ?_
  exact hnot (hinj other (mem_of_mem_page hother) row hrow heq ▸ hother)

end

section

variable {least : Id} {cursor : Option (Instant ×ₗ Id)} {read left : List Row}

omit [LinearOrder Id] in
@[simp] theorem owedInstant_eq_none : owedInstant position left = none ↔ left = [] := by
  rw [owedInstant, min?_eq_none_iff, map_eq_nil_iff]

variable {instant : Instant}

omit [LinearOrder Id] in
theorem owedInstant_eq_some (howed : owedInstant position left = some instant) :
    (∃ row ∈ left, instantOf (position row) = instant) ∧
      ∀ row ∈ left, instant ≤ instantOf (position row) := by
  obtain ⟨hmem, hle⟩ := min?_eq_some_iff.mp howed
  exact ⟨mem_map.mp hmem, fun row hrow => hle _ (mem_map.mpr ⟨row, hrow, rfl⟩)⟩

omit [LinearOrder Id] in
theorem resume_of_owed (howed : owedInstant position left = some instant) :
    resume position least cursor read left = some (toLex (instant, least)) := by
  simp only [resume, howed]

omit [LinearOrder Id] in
variable (least) in
theorem resume_of_done {last : Row} (hlast : read.getLast? = some last) :
    resume position least cursor read [] = some (position last) := by
  simp only [resume, owedInstant_eq_none.mpr, hlast]

/-- A row which was to be read, and was not read, is after the watermark behind
the page, or it has the instant at which the page is resumed. -/
theorem lt_resume_or_owed (least : Id) (cursor : Option (Instant ×ₗ Id)) {limit : ℕ}
    {rows : List Row} {row : Row} (hlimit : 0 < limit)
    (hinj : ∀ a ∈ rows, ∀ b ∈ rows, position a = position b → a = b)
    (hleft : ∀ owed ∈ left, owed ∈ page position limit rows) (hrow : row ∈ rows)
    (hunread : row ∈ page position limit rows → row ∈ left) :
    ∃ next, resume position least cursor (page position limit rows) left = some next ∧
      (next < position row ∨ owedInstant position left = some (instantOf (position row))) := by
  have hlater : ∀ other ∈ page position limit rows, row ∉ left →
      position other < position row := fun other hother hmem =>
    lt_of_not_mem_page hinj hrow (fun hpage => hmem (hunread hpage)) hother
  cases howed : owedInstant position left with
  | some instant =>
    refine ⟨_, resume_of_owed howed, ?_⟩
    have hle : instant ≤ instantOf (position row) := by
      by_cases hmem : row ∈ left
      · exact (owedInstant_eq_some howed).2 row hmem
      · obtain ⟨owed, hin, rfl⟩ := (owedInstant_eq_some howed).1
        exact instantOf_mono (hlater owed (hleft owed hin) hmem).le
    rcases lt_or_eq_of_le hle with hlt | heq
    · exact .inl (Prod.Lex.lt_iff.mpr (.inl hlt))
    · exact .inr (congrArg some heq)
  | none =>
    rw [owedInstant_eq_none] at howed
    subst howed
    have hpage : page position limit rows ≠ [] := fun hnil => by
      rw [page_eq_nil_iff hlimit] at hnil
      rw [hnil] at hrow
      exact not_mem_nil hrow
    refine ⟨_, resume_of_done least (getLast?_eq_some_getLast hpage), .inl ?_⟩
    exact hlater _ (getLast_mem hpage) not_mem_nil

omit [LinearOrder Id] in
theorem resume_cases (hleft : ∀ owed ∈ left, owed ∈ read) {next : Instant ×ₗ Id}
    (hnext : resume position least cursor read left = some next) :
    cursor = some next ∨
      (∃ row ∈ read, next = toLex (instantOf (position row), least)) ∨
      ∃ row ∈ read, next = position row := by
  cases howed : owedInstant position left with
  | some instant =>
    obtain ⟨⟨row, hrow, rfl⟩, _⟩ := owedInstant_eq_some howed
    rw [resume_of_owed howed, Option.some.injEq] at hnext
    exact .inr (.inl ⟨row, hleft row hrow, hnext.symm⟩)
  | none =>
    cases hlast : read.getLast? with
    | none =>
      simp only [resume, howed, hlast] at hnext
      exact .inl hnext
    | some last =>
      simp only [resume, howed, hlast, Option.some.injEq] at hnext
      exact .inr (.inr ⟨last, mem_of_getLast? hlast, hnext.symm⟩)

end

/-! ## A leg over many passes -/

/-- The watermark of a leg, and the bound behind which its rows count: the
watermark at the start, or the lookback of the last read without one. -/
structure Leg (Instant Id : Type*) where
  cursor : Option (Instant ×ₗ Id)
  start : Option (Instant ×ₗ Id)
  lookback : Instant

namespace Leg

def opened (leg : Leg Instant Id) (lookback : Instant) : Leg Instant Id :=
  match leg.cursor with
  | none => { leg with start := none, lookback := lookback }
  | some _ => leg

def moved (leg : Leg Instant Id) (cursor : Option (Instant ×ₗ Id)) : Leg Instant Id :=
  { leg with cursor := cursor }

variable (position) in
def InScope (leg : Leg Instant Id) (row : Row) : Prop :=
  after position leg.lookback leg.start row = true

variable (position) in
def Ahead (leg : Leg Instant Id) (row : Row) : Prop :=
  ∀ bound, leg.cursor = some bound → bound < position row

variable (position) in
def Keeps (leg : Leg Instant Id) (rows : List Row) (Done : Row → Prop) : Prop :=
  ∀ row ∈ rows, leg.InScope position row → Done row ∨ leg.Ahead position row

variable {leg : Leg Instant Id} {lookback : Instant} {rows : List Row}
  {Done Done' : Row → Prop} {row : Row}

omit [LinearOrder Instant] [LinearOrder Id] in
@[simp] theorem opened_cursor : (leg.opened lookback).cursor = leg.cursor := by
  unfold opened
  cases hcursor : leg.cursor <;> simp [hcursor]

omit [LinearOrder Instant] [LinearOrder Id] in
@[simp] theorem moved_cursor : (leg.opened lookback).moved leg.cursor = leg.opened lookback := by
  unfold opened moved
  cases hcursor : leg.cursor <;> simp [← hcursor]

omit [LinearOrder Instant] [LinearOrder Id] in
theorem opened_of_cursor_eq_some (lookback : Instant) {bound : Instant ×ₗ Id}
    (hcursor : leg.cursor = some bound) : leg.opened lookback = leg := by
  simp only [Leg.opened, hcursor]

theorem ahead_of_cursor_eq_none (hnone : leg.cursor = none) : leg.Ahead position row := by
  intro bound hbound
  rw [hnone] at hbound
  simp at hbound

theorem keeps_of_start_eq (hstart : leg.start = leg.cursor) : leg.Keeps position rows Done := by
  intro row _ hscope
  refine .inr fun bound hbound => ?_
  rw [InScope, hstart, hbound, after_some] at hscope
  exact hscope

theorem Keeps.opened (hkeeps : leg.Keeps position rows Done) :
    ∀ row ∈ rows, (leg.opened lookback).InScope position row →
      Done row ∨ leg.Ahead position row ∧ after position lookback leg.cursor row = true := by
  intro row hrow hscope
  cases hcursor : leg.cursor with
  | none =>
    simp only [InScope, Leg.opened, hcursor] at hscope
    exact .inr ⟨ahead_of_cursor_eq_none hcursor, hscope⟩
  | some bound =>
    rw [opened_of_cursor_eq_some lookback hcursor] at hscope
    refine (hkeeps row hrow hscope).imp_right fun hahead => ⟨hahead, ?_⟩
    exact after_some.mpr (hahead bound hcursor)

theorem Keeps.unmoved (hkeeps : leg.Keeps position rows Done)
    (hdone : ∀ row, Done row → Done' row) : (leg.opened lookback).Keeps position rows Done' := by
  intro row hrow hscope
  refine (hkeeps.opened row hrow hscope).imp (hdone row) fun hahead => ?_
  intro bound hbound
  rw [opened_cursor] at hbound
  exact hahead.1 bound hbound

section

variable {limit : ℕ} {left : List Row}

theorem ahead_of_mem_page (hmem : row ∈ page position limit (rows.filter (after
      position lookback leg.cursor))) : leg.Ahead position row := by
  intro bound hbound
  have hafter := (mem_filter.mp (mem_of_mem_page hmem)).2
  rw [hbound, after_some] at hafter
  exact hafter

theorem owed_of_passed {least : Id} {bound : Instant ×ₗ Id}
    (hleft : ∀ owed ∈ left, owed ∈ page position limit (rows.filter (after position lookback
      leg.cursor))) (hbound : leg.cursor = some bound) (hle : position row ≤ bound)
    (hahead : ((leg.opened lookback).moved (resume position least leg.cursor (page position limit
      (rows.filter (after position lookback leg.cursor))) left)).Ahead position row) :
    owedInstant position left = some (instantOf (position row)) := by
  cases hinstant : owedInstant position left with
  | none =>
    rw [owedInstant_eq_none] at hinstant
    subst hinstant
    cases hlast : (page position limit (rows.filter
        (after position lookback leg.cursor))).getLast? with
    | none =>
      refine absurd (hahead bound ?_) (not_lt.mpr hle)
      simp only [moved, resume, owedInstant_eq_none.mpr, hlast]
      exact hbound
    | some last =>
      have hlt := hahead (position last) (resume_of_done least hlast)
      have hbefore := ahead_of_mem_page (mem_of_getLast? hlast) bound hbound
      exact absurd (hbefore.trans hlt) (not_lt.mpr hle)
  | some instant =>
    have hlt := hahead _ (resume_of_owed hinstant)
    obtain ⟨⟨owed, hin, rfl⟩, _⟩ := owedInstant_eq_some hinstant
    have hbefore := ahead_of_mem_page (hleft owed hin) bound hbound
    have hfirst : instantOf (toLex (instantOf (position owed), least)) ≤
        instantOf (position row) := instantOf_mono hlt.le
    have hsecond : instantOf (position row) ≤ instantOf (position owed) :=
      instantOf_mono (hle.trans hbefore.le)
    exact congrArg some (le_antisymm hfirst hsecond)

/-- What a pass which reads a page makes of one row in scope.  It is done or
after the new watermark if and only if it was done or after the old one, or the
page is resumed at its instant; in that case with an id above the least one. -/
theorem moved_row_iff {done done' : Prop} (least : Id) (hlimit : 0 < limit)
    (hinj : ∀ a ∈ rows, ∀ b ∈ rows, position a = position b → a = b)
    (hleft : ∀ owed ∈ left, owed ∈ page position limit (rows.filter (after position lookback
      leg.cursor))) (hdone : done → done')
    (hread : row ∈ page position limit (rows.filter (after position lookback leg.cursor)) → row ∉
      left → done')
    (hnew : done' → done ∨ row ∈ page position limit (rows.filter (after position lookback
      leg.cursor))) (hrow : row ∈ rows) (hscope : (leg.opened lookback).InScope position row) :
    (done' ∨ ((leg.opened lookback).moved (resume position least leg.cursor
        (page position limit (rows.filter (after position lookback leg.cursor))) left)).Ahead
        position row) ↔
      (done ∨ leg.Ahead position row ∨
        owedInstant position left = some (instantOf (position row))) ∧
      (owedInstant position left = some (instantOf (position row)) →
        ¬done' →
        toLex (instantOf (position row), least) < position row) := by
  constructor
  · intro hnext
    refine ⟨?_, fun howed hnot => hnext.resolve_left hnot _ (resume_of_owed howed)⟩
    rcases hnext with hnow | hahead
    · exact (hnew hnow).imp_right fun hpage => .inl (ahead_of_mem_page hpage)
    · right
      by_cases hpassed : leg.Ahead position row
      · exact .inl hpassed
      · obtain ⟨bound, hbound, hle⟩ : ∃ bound, leg.cursor = some bound ∧ position row ≤ bound := by
          simpa [Ahead] using hpassed
        exact .inr (owed_of_passed hleft hbound hle hahead)
  · rintro ⟨hold, hleast⟩
    by_cases hnow : done'
    · exact .inl hnow
    right
    intro bound hbound
    by_cases howed : owedInstant position left = some (instantOf (position row))
    · have hsame := (resume_of_owed howed).symm.trans hbound
      rw [Option.some.injEq] at hsame
      exact hsame ▸ hleast howed hnow
    · have hahead := (hold.resolve_left fun hbefore => hnow (hdone hbefore)).resolve_right howed
      have hmem : after position lookback leg.cursor row := by
        cases hcursor : leg.cursor with
        | none =>
          simp only [InScope, Leg.opened, hcursor] at hscope
          exact hscope
        | some bound => exact after_some.mpr (hahead bound hcursor)
      obtain ⟨next, hnext, hposition⟩ := lt_resume_or_owed least leg.cursor
        hlimit
        (fun a ha b hb => hinj a (mem_filter.mp ha).1 b (mem_filter.mp hb).1)
        hleft (mem_filter.mpr ⟨hrow, hmem⟩)
        (fun hpage => by
          by_contra hnot
          exact hnow (hread hpage hnot))
      have hsame : next = bound := Option.some.inj (hnext.symm.trans hbound)
      exact hsame ▸ hposition.resolve_right howed

/-- A pass which reads a page keeps every row if and only if no row which is
not done has the instant of the resumed page and an id up to the least one. -/
theorem Keeps.moved_iff (least : Id) (hlimit : 0 < limit)
    (hinj : ∀ a ∈ rows, ∀ b ∈ rows, position a = position b → a = b)
    (hleft : ∀ owed ∈ left, owed ∈ page position limit (rows.filter (after position lookback
      leg.cursor))) (hdone : ∀ row, Done row → Done' row)
    (hread : ∀ row ∈ page position limit (rows.filter (after position lookback leg.cursor)), row ∉
      left → Done' row)
    (hnew : ∀ row, Done' row → Done row ∨ row ∈ page position limit (rows.filter (after position
      lookback leg.cursor))) (hkeeps : leg.Keeps position rows Done) :
    ((leg.opened lookback).moved (resume position least leg.cursor
        (page position limit (rows.filter (after position lookback leg.cursor))) left)).Keeps
        position rows Done' ↔
      ∀ row ∈ rows, (leg.opened lookback).InScope position row →
        owedInstant position left = some (instantOf (position row)) →
        ¬Done' row →
        toLex (instantOf (position row), least) < position row := by
  refine forall₂_congr fun row hrow => forall_congr' fun hscope => ?_
  refine (moved_row_iff least hlimit hinj hleft (hdone row) (hread row)
    (hnew row) hrow hscope).trans (and_iff_right ?_)
  exact (hkeeps.opened row hrow hscope).imp_right fun hahead => .inl hahead.1

end

end Leg
end KeysetPage
