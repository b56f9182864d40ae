import Legba.LabelledRun
import Legba.SourcePoll

/-!
# Does the poll cursor pass an entry which was not written?

The handler yields what is newer than the cursor, and the cursor moves to the
newest entry read.  An entry which was not read, or whose enrichment timed out,
stays ahead of the cursor exactly if it is newer than everything read.

A run is followed together with the items of the feed which were settled:
written, collapsed as duplicates, or dropped by the baseline.
-/

namespace Legba.Sources

open LabelledRun

structure FeedItem where
  externalId : String
  publishedAt : Datetime
deriving DecidableEq

structure PollState where
  cursor : Cursor
  plane : Plane
  settled : List String

def Walk.settledIds (walk : Walk) : List String :=
  (walk.reads.filter fun entry => entry.outcome.settles).map fun entry => entry.raw.externalId

def pollStep (hashing : Hashing) (source : Source) (state : PollState)
    (poll : Poll) : Option PollState :=
  let result := pullOnce hashing source poll state.cursor state.plane
  some
    { cursor := result.1
      plane := result.2.plane
      settled := state.settled ++ result.2.settledIds }

def FeedItem.NewerThan (item : FeedItem) (bound : Option Datetime) : Prop :=
  ∀ ts, bound = some ts → ts < item.publishedAt

def Pending (lookback : Option Datetime) (settled : List String) (item : FeedItem) : Prop :=
  item.NewerThan lookback ∧ item.externalId ∉ settled

def PassesNothing (feed : List FeedItem) (lookback : Option Datetime) (state : PollState) : Prop :=
  ∀ item ∈ feed, Pending lookback state.settled item → item.NewerThan state.cursor.lastPulledAt

/-- The poll comes to an entry of this id, its baseline does not time out and
it does not raise. -/
def Poll.Settles (poll : Poll) (hashing : Hashing) (source : Source)
    (cursor : Cursor) (plane : Plane) (externalId : String) : Prop :=
  ∃ n raw, poll.Reads hashing source cursor plane n raw ∧
    (poll.turns n).baseline ≠ .timedOut ∧
    (poll.outcomeAt hashing source plane n).error = none ∧
    raw.externalId = externalId

/-- What a poll which does not fail leaves pending is newer than all it reads.
If it fails or reads nothing while no cursor is stored, what is pending is newer
than its end. -/
def LeavesNothingBehind (hashing : Hashing) (source : Source)
    (feed : List FeedItem) (lookback : Option Datetime) (state : PollState)
    (poll : Poll) (_ : PollState) : Prop :=
  poll.cursorSaved = true →
    ∀ item ∈ feed, Pending lookback state.settled item →
      ¬poll.Settles hashing source state.cursor state.plane item.externalId →
      (¬poll.Fails hashing source state.cursor state.plane →
        ∀ n raw, poll.Reads hashing source state.cursor state.plane n raw →
          entryLogicalTs (poll.turns n).now raw < item.publishedAt) ∧
      (poll.Fails hashing source state.cursor state.plane ∨
          (∀ n raw, ¬poll.Reads hashing source state.cursor state.plane n raw) →
        state.cursor.lastPulledAt = none → poll.finishedAt < item.publishedAt)

section

variable {hashing : Hashing} {source : Source}

variable {poll : Poll} {cursor : Cursor} {plane : Plane}
  {lookback : Option Datetime}

theorem mem_settledIds_walk {externalId : String} :
    externalId ∈ (poll.walk hashing source cursor plane).settledIds ↔
      poll.Settles hashing source cursor plane externalId := by
  unfold Walk.settledIds Poll.Settles
  rw [List.mem_map]
  constructor
  · rintro ⟨entry, hentry, rfl⟩
    obtain ⟨hread, hsettles⟩ := List.mem_filter.mp hentry
    obtain ⟨n, raw, hreads, rfl⟩ := Poll.mem_reads_walk.mp hread
    obtain ⟨htimely, hfine⟩ := settles_processOne_iff.mp hsettles
    exact ⟨n, raw, hreads, htimely, hfine, rfl⟩
  · rintro ⟨n, raw, hreads, htimely, hfine, rfl⟩
    refine ⟨readAt hashing source poll.turns plane.tables n raw, List.mem_filter.mpr ⟨?_, ?_⟩, rfl⟩
    · exact Poll.mem_reads_walk.mpr ⟨n, raw, hreads, rfl⟩
    · exact settles_processOne_iff.mpr ⟨htimely, hfine⟩

theorem pending_append_iff {settled : List String} {item : FeedItem} :
    Pending lookback (settled ++ (poll.walk hashing source cursor plane).settledIds) item ↔
      Pending lookback settled item ∧
        ¬poll.Settles hashing source cursor plane item.externalId := by
  unfold Pending
  rw [List.mem_append, not_or, mem_settledIds_walk, and_assoc]

theorem newerThan_newCursor_iff {item : FeedItem} (hbefore : item.NewerThan cursor.lastPulledAt) :
    item.NewerThan (poll.newCursor source cursor
        (poll.walk hashing source cursor plane)).lastPulledAt ↔
      (¬poll.Fails hashing source cursor plane →
        ∀ n raw, poll.Reads hashing source cursor plane n raw →
          entryLogicalTs (poll.turns n).now raw < item.publishedAt) ∧
      (poll.Fails hashing source cursor plane ∨
          (∀ n raw, ¬poll.Reads hashing source cursor plane n raw) →
        cursor.lastPulledAt = none → poll.finishedAt < item.publishedAt) := by
  have hconsistent : (poll.walk hashing source cursor plane).Consistent :=
    poll.consistent_walk cursor plane
  have hkept : cursor.lastPulledAt.getD poll.finishedAt < item.publishedAt ↔
      (cursor.lastPulledAt = none → poll.finishedAt < item.publishedAt) := by
    cases hlast : cursor.lastPulledAt with
    | none => simp
    | some last => simpa using hbefore last hlast
  have hall : (∀ n raw, poll.Reads hashing source cursor plane n raw →
      entryLogicalTs (poll.turns n).now raw < item.publishedAt) ↔
        ∀ entry ∈ (poll.walk hashing source cursor plane).reads,
          entry.logicalTs < item.publishedAt := by
    constructor
    · intro hreads entry hentry
      obtain ⟨n, raw, hread, rfl⟩ := Poll.mem_reads_walk.mp hentry
      exact hreads n raw hread
    · intro hreads n raw hread
      exact hreads _ (Poll.mem_reads_walk.mpr ⟨n, raw, hread, rfl⟩)
  rw [hall, ← Poll.reads_walk_eq_nil_iff, Poll.fails_iff, ← hkept]
  generalize poll.walk hashing source cursor plane = walk at hconsistent ⊢
  simp only [FeedItem.NewerThan, Poll.newCursor, Option.some.injEq, forall_eq', Poll.lastPulledAt]
  cases herrored : walk.errored with
  | some error => simp
  | none =>
    cases hlast : walk.lastProcessedTs with
    | none =>
      have hnil := hconsistent.1.mp hlast
      simp [hnil]
    | some ts =>
      have hreads : walk.reads ≠ [] := by
        intro hnil
        rw [hconsistent.1.mpr hnil] at hlast
        cases hlast
      simp only [Option.isSome_none, Bool.false_eq_true, not_false_eq_true,
        true_implies, hreads, or_self, false_implies, and_true]
      exact hconsistent.2 ts hlast item.publishedAt

theorem passesNothing_iff_leavesNothingBehind {feed : List FeedItem}
    {state next : PollState} (hpasses : PassesNothing feed lookback state)
    (hstep : pollStep hashing source state poll = some next) :
    PassesNothing feed lookback next ↔
      LeavesNothingBehind hashing source feed lookback state poll next := by
  simp only [pollStep, pullOnce, Option.some.injEq] at hstep
  subst next
  unfold PassesNothing LeavesNothingBehind
  dsimp only
  by_cases hsaved : poll.cursorSaved = true
  · simp only [hsaved, forall_const, Poll.savedCursor, if_true, pending_append_iff]
    constructor
    · intro hnext item hitem hpending hunsettled
      have hbefore := hpasses item hitem hpending
      exact (newerThan_newCursor_iff hbefore).mp (hnext item hitem ⟨hpending, hunsettled⟩)
    · rintro hleaves item hitem ⟨hpending, hunsettled⟩
      have hbefore := hpasses item hitem hpending
      exact (newerThan_newCursor_iff hbefore).mpr (hleaves item hitem hpending hunsettled)
  · simp only [hsaved, Poll.savedCursor, Bool.false_eq_true, if_false,
      false_implies, iff_true, pending_append_iff]
    intro item hitem hpending
    exact hpasses item hitem hpending.1

/-- The cursor passes no pending item in any state of a run exactly if no poll
leaves one behind. -/
theorem cursor_passes_nothing_iff (hashing : Hashing) (source : Source)
    (feed : List FeedItem) (cursor : Cursor) (plane : Plane) (polls : List Poll) :
    VisitsOnly (pollStep hashing source)
        (PassesNothing feed cursor.lastPulledAt) ⟨cursor, plane, []⟩ polls ↔
      StepsSatisfy (pollStep hashing source)
        (LeavesNothingBehind hashing source feed cursor.lastPulledAt)
        ⟨cursor, plane, []⟩ polls := by
  have hkeep : ∀ state poll next, True → pollStep hashing source state poll = some next → True :=
    fun _ _ _ _ _ => trivial
  have hexact : ∀ state poll next, True →
      PassesNothing feed cursor.lastPulledAt state →
      pollStep hashing source state poll = some next →
      (PassesNothing feed cursor.lastPulledAt next ↔
        LeavesNothingBehind hashing source feed cursor.lastPulledAt state poll next) :=
    fun _ _ _ _ hpasses hstep => passesNothing_iff_leavesNothingBehind hpasses hstep
  have hstart : PassesNothing feed cursor.lastPulledAt ⟨cursor, plane, []⟩ :=
    fun _ _ hpending => hpending.1
  exact visitsOnly_iff_stepsSatisfy hkeep hexact trivial hstart

def newestFirst : List Signal :=
  [plainSignal 2 "second" (some 20), plainSignal 1 "first" (some 10)]

def readNewest : Poll where
  startedAt := 1000
  finishedAt := 1000
  serve := rssPull (some newestFirst)
  turns := fun _ => plainTurn (.enriched (plainSignal 2 "second" (some 20)))
  cursorSaved := true

theorem newest_first_passes_older :
    ¬VisitsOnly (pollStep plainHashing (plainSource 1 Nat.one_pos false))
      (PassesNothing [⟨"first", 10⟩, ⟨"second", 20⟩] none)
      ⟨Cursor.initial, emptyPlane, []⟩ [readNewest] := by
  intro hvisits
  have hafter := ((visitsOnly_cons rfl).mp hvisits).2.start
  have hpending : Pending none ["second"] ⟨"first", 10⟩ := by
    refine ⟨?_, by decide⟩
    intro ts hts
    cases hts
  have hlt : (20 : Datetime) < 10 := hafter ⟨"first", 10⟩ List.mem_cons_self hpending 20 rfl
  exact absurd hlt (by decide)

end

end Legba.Sources
