import Legba.EventSlice
import Mathlib.Data.Finset.Card
import Mathlib.Order.WellFounded

/-!
# Repeated budget-cut passes over an unchanged signals table

Each tick reads a page after the watermark and its write loop reaches at most a
fixed number of candidates.  A cut resumes at the first instant still owed a
write, while the candidates are taken in the order of their smallest ids, so
that a tick can be cut where the passes were cut before, and the ticks repeat.
As long as this does not happen the number of instants at which a tick can
still be cut bounds the number of cuts.
-/

namespace Legba.EventClustering

open KeysetPage List Nat

/-- A signals table, the options of the clustering, the number of candidates
the budget lets a write loop reach, the lookback bound of each tick, and the
watermark at the start. -/
structure TickRun where
  table : List SignalRow
  linked : Linkage
  maxSignals : ℤ
  allowed : ℕ
  allowed_pos : 1 ≤ allowed
  since : ℕ → Datetime
  start : Option Position

namespace TickRun

def signals (r : TickRun) : List EventEvidence :=
  r.table.filterMap canonicalText

def slice (r : TickRun) (since : Datetime) (cursor : Option Position) : List EventEvidence :=
  signalSlice r.signals since r.maxSignals cursor

def tick (r : TickRun) (since : Datetime) (cursor : Option Position) :
    SignalPass :=
  signalPass r.linked (r.slice since cursor) (.write r.allowed)

def cursor (r : TickRun) : ℕ → Option Position
  | 0 => r.start
  | n + 1 => (r.tick (r.since n) (r.cursor n)).nextCursor (r.cursor n)

def pass (r : TickRun) (n : ℕ) : SignalPass :=
  r.tick (r.since n) (r.cursor n)

def AfterStart (r : TickRun) (signal : EventEvidence) : Prop :=
  after EventEvidence.position (r.since 0) r.start signal = true

/-- The signal was a member of a candidate which a write loop reached, in one
of the first `n` ticks. -/
def ReachedBefore (r : TickRun) (n : ℕ) (signal : EventEvidence) : Prop :=
  ∃ m < n, signal ∈ (r.pass m).reachedSignals

def EventuallyReached (r : TickRun) : Prop :=
  ∃ n, ∀ signal ∈ r.signals, r.AfterStart signal → r.ReachedBefore n signal

def leftCandidates (r : TickRun) (n : ℕ) : List (List EventEvidence) :=
  (clusterEvidence r.linked (r.slice (r.since n) (r.cursor n))).drop r.allowed

def owedInstant (r : TickRun) (n : ℕ) : Option Datetime :=
  KeysetPage.owedInstant EventEvidence.position (r.leftCandidates n).flatten

/-- A signal is still unreached after a tick which leaves owed an instant that
an earlier tick left owed, or at which the signal has the nil id. -/
def Stalls (r : TickRun) (n : ℕ) : Prop :=
  ∃ instant, r.owedInstant n = some instant ∧
    ∃ signal ∈ r.signals, r.AfterStart signal ∧
      ¬r.ReachedBefore (n + 1) signal ∧
      ((∃ m < n, r.owedInstant m = some instant) ∨
        signal.position = inclusiveAt instant)

variable {r : TickRun}

theorem cursor_succ (r : TickRun) (n : ℕ) :
    r.cursor (n + 1) = (r.pass n).nextCursor (r.cursor n) := rfl

theorem cursor_succ_eq_resume (r : TickRun) (n : ℕ) :
    r.cursor (n + 1) = resume EventEvidence.position 0 (r.cursor n)
      (r.slice (r.since n) (r.cursor n)) (r.leftCandidates n).flatten :=
  write_nextCursor

variable {n m : ℕ} {instant : Datetime} {signal : EventEvidence}
  {position : Position}

theorem cursor_succ_of_owed (howed : r.owedInstant n = some instant) :
    r.cursor (n + 1) = some (inclusiveAt instant) := by
  rw [cursor_succ_eq_resume]
  exact resume_of_owed howed

theorem exists_mem_slice_of_owed (howed : r.owedInstant n = some instant) :
    ∃ member ∈ r.slice (r.since n) (r.cursor n), member.fetchedAt = instant := by
  obtain ⟨⟨member, hmember, heq⟩, _⟩ := owedInstant_eq_some howed
  exact ⟨member, mem_slice_of_mem_unprocessed hmember, heq⟩

theorem ReachedBefore.mono (hreached : r.ReachedBefore m signal) (hle : m ≤ n) :
    r.ReachedBefore n signal := by
  obtain ⟨i, hi, hmem⟩ := hreached
  exact ⟨i, lt_of_lt_of_le hi hle, hmem⟩

theorem after_of_mem_reachedSignals (hmem : signal ∈ (r.pass n).reachedSignals) :
    after EventEvidence.position (r.since n) (r.cursor n) signal :=
  (mem_signalSlice (mem_slice_of_mem_reachedSignals hmem)).2

theorem cursor_succ_cases (r : TickRun) (n : ℕ) :
    (r.slice (r.since n) (r.cursor n) = [] ∧ r.cursor (n + 1) = r.cursor n) ∨
    (∃ instant, r.owedInstant n = some instant ∧ r.cursor (n + 1) = some (inclusiveAt instant)) ∨
    (r.owedInstant n = none ∧
      ∃ last, (r.slice (r.since n) (r.cursor n)).getLast? = some last ∧
        r.cursor (n + 1) = some last.position) := by
  cases howed : r.owedInstant n with
  | some instant => exact .inr (.inl ⟨instant, rfl, cursor_succ_of_owed howed⟩)
  | none =>
    have hleft := owedInstant_eq_none.mp howed
    have hnext := r.cursor_succ_eq_resume n
    rw [hleft] at hnext
    cases hlast : (r.slice (r.since n) (r.cursor n)).getLast? with
    | none =>
      have hnil := getLast?_eq_none_iff.mp hlast
      rw [hnil] at hnext
      exact .inl ⟨hnil, hnext⟩
    | some last =>
      rw [resume_of_done 0 hlast] at hnext
      exact .inr (.inr ⟨rfl, last, rfl, hnext⟩)

section

variable (hcursor : r.cursor n = some position) (hle : instant ≤ instantOf position)

include hcursor hle

theorem cursor_instant_mono : ∃ next, r.cursor (n + 1) = some next ∧ instant ≤ instantOf next := by
  have hmember : ∀ member ∈ r.slice (r.since n) (r.cursor n),
      instant ≤ instantOf member.position := by
    intro member hmem
    have hbeyond := (mem_signalSlice hmem).2
    rw [hcursor] at hbeyond
    exact hle.trans (instantOf_mono (of_decide_eq_true hbeyond).le)
  rcases r.cursor_succ_cases n with ⟨_, hsame⟩ | ⟨_, howed, hnext⟩ | ⟨_, last, hlast, hnext⟩
  · exact ⟨position, hsame.trans hcursor, hle⟩
  · obtain ⟨member, hmem, rfl⟩ := exists_mem_slice_of_owed howed
    exact ⟨_, hnext, hmember member hmem⟩
  · exact ⟨_, hnext, hmember last (mem_of_getLast? hlast)⟩

theorem cursor_instant_mono_add (j : ℕ) :
    ∃ next, r.cursor (n + j) = some next ∧ instant ≤ instantOf next := by
  induction j with
  | zero => exact ⟨position, hcursor, hle⟩
  | succ j ih =>
    obtain ⟨next, hnext, hinstant⟩ := ih
    exact cursor_instant_mono hnext hinstant

end

section

variable (hm : r.cursor m = some position) (hn : r.cursor n = some position)

include hm hn

theorem pass_eq_of_cursor_eq : r.pass m = r.pass n := by
  have hslice : r.slice (r.since m) (some position) = r.slice (r.since n) (some position) := rfl
  rw [pass, pass, hm, hn, tick, tick, hslice]

theorem cursor_add_eq (j : ℕ) :
    ∃ next, r.cursor (m + j) = some next ∧ r.cursor (n + j) = some next := by
  induction j with
  | zero => exact ⟨position, hm, hn⟩
  | succ j ih =>
    obtain ⟨next, hmj, hnj⟩ := ih
    obtain ⟨after, hafter, _⟩ := cursor_instant_mono hmj le_rfl
    refine ⟨after, hafter, ?_⟩
    change r.cursor (n + j + 1) = _
    rw [← hafter, cursor_succ, cursor_succ, pass_eq_of_cursor_eq hmj hnj, hmj, hnj]

end

theorem reachedBefore_of_repeat (hlt : m < n) (hm : r.cursor m = some position)
    (hn : r.cursor n = some position) (i : ℕ)
    (hmem : signal ∈ (r.pass i).reachedSignals) : r.ReachedBefore n signal := by
  induction i using Nat.strong_induction_on with
  | h i ih =>
    by_cases hi : i < n
    · exact ⟨i, hi, hmem⟩
    · obtain ⟨j, rfl⟩ := Nat.exists_eq_add_of_le (not_lt.mp hi)
      obtain ⟨next, hmj, hnj⟩ := cursor_add_eq hm hn j
      refine ih (m + j) (by omega) ?_
      rw [pass_eq_of_cursor_eq hmj hnj]
      exact hmem

theorem not_reached_of_repeat {N : ℕ} (hlt : m < n)
    (hm : r.cursor m = some position) (hn : r.cursor n = some position)
    (hnot : ¬r.ReachedBefore n signal) : ¬r.ReachedBefore N signal := by
  rintro ⟨i, _, hmem⟩
  exact hnot (reachedBefore_of_repeat hlt hm hn i hmem)

theorem not_reached_of_at_cursor {N : ℕ}
    (hcursor : r.cursor n = some (inclusiveAt instant))
    (hposition : signal.position = inclusiveAt instant)
    (hnot : ¬r.ReachedBefore n signal) : ¬r.ReachedBefore N signal := by
  rintro ⟨i, _, hmem⟩
  have hge : n ≤ i := by
    by_contra hlt
    exact hnot ⟨i, not_le.mp hlt, hmem⟩
  obtain ⟨j, rfl⟩ := Nat.exists_eq_add_of_le hge
  obtain ⟨position, hnext, hle⟩ := cursor_instant_mono_add hcursor le_rfl j
  have hbeyond := after_of_mem_reachedSignals hmem
  rw [hnext, after_some, hposition] at hbeyond
  exact absurd (inclusiveAt_le_iff.mpr hle) (not_le.mpr hbeyond)

theorem not_eventuallyReached_of_stalls (hstalls : r.Stalls n) : ¬r.EventuallyReached := by
  rintro ⟨N, hall⟩
  obtain ⟨instant, howed, signal, hsignal, hafter, hnot, hcause⟩ := hstalls
  have hcursor := cursor_succ_of_owed howed
  have hreached := hall signal hsignal hafter
  rcases hcause with ⟨m, hm, hrepeat⟩ | hposition
  · exact not_reached_of_repeat (succ_lt_succ hm)
      (cursor_succ_of_owed hrepeat) hcursor hnot hreached
  · exact not_reached_of_at_cursor hcursor hposition hnot hreached

/-! ## Ticks which never stall -/

theorem reachedBefore_or_after (hstalls : ∀ n, ¬r.Stalls n) (n : ℕ)
    (hsignal : signal ∈ r.signals) (hafter : r.AfterStart signal) :
    r.ReachedBefore n signal ∨
      after EventEvidence.position (r.since n) (r.cursor n) signal = true := by
  induction n with
  | zero => exact .inr hafter
  | succ n ih =>
    by_cases hreached : r.ReachedBefore (n + 1) signal
    · exact .inl hreached
    right
    have hbeyond := ih.resolve_left fun hbefore => hreached (hbefore.mono (le_succ n))
    obtain ⟨next, hnext, hposition⟩ := lt_resume_or_owed 0 (r.cursor n)
      (coerceInt_pos r.maxSignals)
      (fun _ _ _ _ heq => position_injective heq)
      (fun owed howed => mem_slice_of_mem_unprocessed howed)
      (mem_filter.mpr ⟨hsignal, hbeyond⟩)
      (fun hmem => (mem_reached_or_unprocessed hmem).resolve_left fun hpass =>
        hreached ⟨n, lt_succ_self n, hpass⟩)
    have hcursor : r.cursor (n + 1) = some next := (r.cursor_succ_eq_resume n).trans hnext
    rw [hcursor, after_some]
    rcases hposition with hlt | howed
    · exact hlt
    · rw [cursor_succ_of_owed howed, Option.some.injEq] at hcursor
      subst hcursor
      refine lt_of_le_of_ne (inclusiveAt_le_iff.mpr le_rfl) fun heq => ?_
      exact hstalls n ⟨_, howed, signal, hsignal, hafter, hreached, .inr heq.symm⟩

/-! ### The measure of a run -/

open Classical in
/-- The instants of the table which no earlier tick left owed. -/
noncomputable def freshInstants (r : TickRun) (n : ℕ) : Finset Datetime :=
  (r.signals.map EventEvidence.fetchedAt).toFinset.filter fun instant =>
    ∀ m < n, r.owedInstant m ≠ some instant

def waiting (r : TickRun) (n : ℕ) : Finset EventEvidence :=
  r.signals.toFinset.filter fun signal =>
    after EventEvidence.position (r.since n) (r.cursor n) signal = true

noncomputable def work (r : TickRun) (n : ℕ) : ℕ ×ₗ ℕ :=
  toLex ((r.freshInstants n).card, (r.waiting n).card)

theorem freshInstants_card_lt (howed : r.owedInstant n = some instant)
    (hfresh : ∀ m < n, r.owedInstant m ≠ some instant) :
    (r.freshInstants (n + 1)).card < (r.freshInstants n).card := by
  refine Finset.card_lt_card ⟨?_, fun hsub => ?_⟩
  · intro other hother
    rw [freshInstants, Finset.mem_filter] at hother ⊢
    exact ⟨hother.1, fun m hm => hother.2 m (lt_succ_of_lt hm)⟩
  · obtain ⟨member, hmember, rfl⟩ := exists_mem_slice_of_owed howed
    have hmem : member.fetchedAt ∈ r.freshInstants n := by
      rw [freshInstants, Finset.mem_filter, mem_toFinset]
      exact ⟨mem_map_of_mem (mem_signalSlice hmember).1, hfresh⟩
    have hnext := hsub hmem
    rw [freshInstants, Finset.mem_filter] at hnext
    exact hnext.2 n (lt_succ_self n) howed

theorem freshInstants_succ_of_done (howed : r.owedInstant n = none) :
    r.freshInstants (n + 1) = r.freshInstants n := by
  refine Finset.filter_congr fun instant _ => ⟨fun hall m hm =>
    hall m (Nat.lt_succ_of_lt hm), fun hall m hm => ?_⟩
  rcases Nat.lt_succ_iff_lt_or_eq.mp hm with hlt | rfl
  · exact hall m hlt
  · rw [howed]
    simp

theorem waiting_card_lt {last : EventEvidence}
    (hlast : (r.slice (r.since n) (r.cursor n)).getLast? = some last)
    (hnext : r.cursor (n + 1) = some last.position) :
    (r.waiting (n + 1)).card < (r.waiting n).card := by
  obtain ⟨hsignal, hbeyond⟩ := mem_signalSlice (mem_of_getLast? hlast)
  refine Finset.card_lt_card ⟨?_, fun hsub => ?_⟩
  · intro signal hmem
    rw [waiting, Finset.mem_filter] at hmem ⊢
    refine ⟨hmem.1, ?_⟩
    have hafter := hmem.2
    rw [hnext, after_some] at hafter
    cases hcursor : r.cursor n with
    | none =>
      rw [hcursor, after_none] at hbeyond
      rw [after_none]
      exact lt_of_lt_of_le hbeyond (instantOf_mono hafter.le)
    | some position =>
      rw [hcursor, after_some] at hbeyond
      rw [after_some]
      exact hbeyond.trans hafter
  · have hmem : last ∈ r.waiting n := by
      rw [waiting, Finset.mem_filter, mem_toFinset]
      exact ⟨hsignal, hbeyond⟩
    have hafter := hsub hmem
    rw [waiting, Finset.mem_filter, hnext, after_some] at hafter
    exact absurd hafter.2 (lt_irrefl _)

theorem work_succ_lt (hslice : r.slice (r.since n) (r.cursor n) ≠ [])
    (hfresh : ∀ instant, r.owedInstant n = some instant → ∀ m < n, r.owedInstant m
      ≠ some instant) : r.work (n + 1) < r.work n := by
  rw [work, work, Prod.Lex.toLex_lt_toLex]
  rcases r.cursor_succ_cases n with ⟨hnil, _⟩ | ⟨_, howed, _⟩ | ⟨howed, last, hlast, hnext⟩
  · exact absurd hnil hslice
  · exact .inl (freshInstants_card_lt howed (hfresh _ howed))
  · exact .inr ⟨by rw [freshInstants_succ_of_done howed], waiting_card_lt hlast hnext⟩

theorem eventuallyReached_of_not_stalls (hstalls : ∀ n, ¬r.Stalls n) : r.EventuallyReached := by
  by_contra hnever
  have hunreached : ∀ n, ∃ signal ∈ r.signals, r.AfterStart signal ∧ ¬r.ReachedBefore n signal := by
    intro n
    by_contra hall
    push Not at hall
    exact hnever ⟨n, hall⟩
  obtain ⟨n, hn⟩ := WellFounded.not_rel_apply_succ (r := (· < ·)) r.work
  refine hn (work_succ_lt (fun hnil => ?_) fun instant howed m hm hrepeat => ?_)
  · obtain ⟨signal, hsignal, hafter, hnot⟩ := hunreached n
    have hbeyond := (reachedBefore_or_after hstalls n hsignal hafter).resolve_left hnot
    rw [not_after_of_signalSlice_eq_nil hnil hsignal] at hbeyond
    simp at hbeyond
  · obtain ⟨signal, hsignal, hafter, hnot⟩ := hunreached (n + 1)
    exact hstalls n ⟨instant, howed, signal, hsignal, hafter, hnot, .inl ⟨m, hm, hrepeat⟩⟩

/-- The passes reach every signal if and only if no tick stalls. -/
theorem eventuallyReached_iff_forall_not_stalls (r : TickRun) :
    r.EventuallyReached ↔ ∀ n, ¬r.Stalls n :=
  ⟨fun hreached _ hstalls => not_eventuallyReached_of_stalls hstalls hreached,
    eventuallyReached_of_not_stalls⟩

def sameInstantRun : TickRun where
  table :=
    [{ id := some 1, fetchedAt := some 0, modality := some "text" },
      { id := some 2, fetchedAt := some 0, modality := some "text" }]
  linked := fun _ _ _ => false
  maxSignals := 500
  allowed := 1
  allowed_pos := le_rfl
  since := fun _ => -1
  start := none

/-- The second signal of the fetch is never reached. -/
theorem not_forall_eventuallyReached : ¬∀ r : TickRun, r.EventuallyReached := by
  intro hall
  refine not_eventuallyReached_of_stalls (n := 1) ?_ (hall sameInstantRun)
  refine ⟨0, by decide, { id := 2, fetchedAt := 0 }, by decide, rfl,
    ?_, .inl ⟨0, by decide, by decide⟩⟩
  unfold ReachedBefore
  decide

end TickRun
end Legba.EventClustering
