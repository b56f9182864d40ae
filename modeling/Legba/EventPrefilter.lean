import Legba.CompassRefusal
import Legba.PreparedEvents

/-!
# The match prefilter

A candidate is matched with the open event of its signature, otherwise with the
best of the linked ones.  The prefilter leaves the events which share the
category or the geo of the candidate, unless none does.  As soon as one does,
an event whose category and geo have drifted is lost, however well it fits.
-/

namespace Legba.EventMatcher

open JudgeReplies (Text isSpace strip)
open RowOrder (firstBy greater)
open List

structure EventCandidate where
  eventSignature : Text
  category : Text
  geo : List Text
  members : List EventEvidence

section

variable (readers : Readers) (threshold : ℚ)

def prefilterPredicate (candidate : EventCandidate) : Text × Finset Text :=
  (readers.lower (strip candidate.category),
    ((candidate.geo.filter (· ≠ [])).map readers.lower).toFinset)

def plausiblyMatches (row : EventRow) (category : Text) (geos : Finset Text) :
    Bool :=
  readers.lower (strip (row.category.getD [])) == category ||
    decide (geos ∩ (row.geo.items.map readers.lower).toFinset ≠ ∅)

def isPlausible (candidate : EventCandidate) (row : EventRow) : Bool :=
  plausiblyMatches readers row (prefilterPredicate readers candidate).1
    (prefilterPredicate readers candidate).2

/-- `_prefilter_open_events` of rows, `_prefilter_prepared_events` of items. -/
def prefilterBy {Item : Type} (row : Item → EventRow)
    (candidate : EventCandidate) (items : List Item) : List Item :=
  let predicate := prefilterPredicate readers candidate
  if predicate.1 = [] ∧ predicate.2 = ∅ then items
  else
    let filtered := items.filter fun item => isPlausible readers candidate (row item)
    if filtered = [] then items else filtered

def walkStep (aggregate : Prepared) (best : ℚ × Option EventRow)
    (item : PreparedEvent) : ℚ × Option EventRow :=
  let found := matchPreparedPair threshold aggregate item.prepared
  if found.linked ∧ best.1 < found.score then (found.score, some item.row)
  else best

def preparedCacheLimit : ℤ := 5000

/-- What `_match_event` matches, without a member cap and a deadline. -/
def matchEvent (prefilter : Bool) (cache : Cache) (candidate : EventCandidate)
    (events : List EventRow) (preparedEvents : Option (List PreparedEvent)) :
    Option EventRow :=
  match events.find? (·.eventSignature = some candidate.eventSignature) with
  | some row => some row
  | none =>
    (clusterAggregate readers.toCanon candidate.members).bind fun aggregate =>
      let walk := match preparedEvents with
        | some items => if prefilter
            then prefilterBy readers PreparedEvent.row candidate items
            else items
        | none => (prepareOpenEvents readers cache
            (if prefilter then prefilterBy readers id candidate events
              else events) preparedCacheLimit).1
      (walk.foldl (walkStep threshold (prepare readers.toCanon aggregate)) (0, none)).2

/-- The events which are walked without the prefilter. -/
def walked (events : List EventRow)
    (preparedEvents : Option (List PreparedEvent)) : List PreparedEvent :=
  preparedEvents.getD (events.map fun row => ⟨row, freshFold readers row⟩)

end

/-! ## The walk -/

section

variable {readers : Readers} {threshold : ℚ} {aggregate : Prepared}
variable {items : List PreparedEvent}

def scoreOf (threshold : ℚ) (aggregate : Prepared) (item : PreparedEvent) : ℚ :=
  (matchPreparedPair threshold aggregate item.prepared).score

/-- An event which is linked, by a score which is seen. -/
def isRival (threshold : ℚ) (aggregate : Prepared) (item : PreparedEvent) :
    Bool :=
  (matchPreparedPair threshold aggregate item.prepared).linked &&
    decide (0 < scoreOf threshold aggregate item)

/-- The first of the rivals with the highest score. -/
def Leads (threshold : ℚ) (aggregate : Prepared) (items : List PreparedEvent)
    (item : PreparedEvent) : Prop :=
  ∃ ahead after,
    items.filter (isRival threshold aggregate) = ahead ++ item :: after ∧
    (∀ other ∈ ahead, scoreOf threshold aggregate other < scoreOf threshold aggregate item) ∧
    ∀ other ∈ after, scoreOf threshold aggregate other ≤ scoreOf threshold aggregate item

def leader (threshold : ℚ) (aggregate : Prepared) (items : List PreparedEvent) :
    Option PreparedEvent :=
  firstBy (greater (scoreOf threshold aggregate)) (items.filter (isRival threshold aggregate))

theorem leader_eq_some_iff {item : PreparedEvent} :
    leader threshold aggregate items = some item ↔ Leads threshold aggregate items item := by
  have horder := RowOrder.isStrictOrder_greater (scoreOf threshold aggregate)
  constructor
  · intro hleader
    obtain ⟨ahead, after, hrivals, hahead⟩ := eq_append_cons_of_mem (RowOrder.firstBy_mem hleader)
    rw [leader, hrivals, horder.firstBy_append_cons hahead] at hleader
    simp only [greater, decide_eq_true_eq, decide_eq_false_iff_not, not_lt] at hleader
    exact ⟨ahead, after, hrivals, hleader⟩
  · rintro ⟨ahead, after, hrivals, hahead, hafter⟩
    rw [leader, hrivals, horder.firstBy_append_cons fun hmem => (hahead item hmem).ne rfl]
    simp only [greater, decide_eq_true_eq, decide_eq_false_iff_not, not_lt]
    exact ⟨hahead, hafter⟩

theorem leader_append_singleton (last : PreparedEvent) :
    leader threshold aggregate (items ++ [last]) =
      if isRival threshold aggregate last = true ∧
          ∀ item, leader threshold aggregate items = some item →
            scoreOf threshold aggregate item < scoreOf threshold aggregate last
        then some last
      else leader threshold aggregate items := by
  have horder := RowOrder.isStrictOrder_greater (scoreOf threshold aggregate)
  unfold leader
  rw [filter_append]
  cases hrival : isRival threshold aggregate last with
  | false => simp [hrival]
  | true =>
    simp only [filter_cons, filter_nil, hrival, if_true,
      horder.firstBy_append_singleton, true_and, greater, decide_eq_true_eq]
    refine if_congr ⟨fun hall item hitem => ?_, fun hbest item hmem => ?_⟩ rfl rfl
    · exact hall item (RowOrder.firstBy_mem hitem)
    · obtain ⟨best, hfound⟩ := RowOrder.firstBy_isSome (greater (scoreOf threshold aggregate)) hmem
      have hle := horder.not_before hfound hmem
      rw [greater, decide_eq_false_iff_not, not_lt] at hle
      exact hle.trans_lt (hbest best hfound)

theorem foldl_walkStep (items : List PreparedEvent) :
    items.foldl (walkStep threshold aggregate) (0, none) =
      (leader threshold aggregate items).elim (0, none) fun item =>
        (scoreOf threshold aggregate item, some item.row) := by
  induction items using reverseRecOn with
  | nil => rfl
  | append_singleton items last ih =>
    rw [foldl_append, foldl_cons, foldl_nil, ih, leader_append_singleton]
    have hkept : ∀ (p : Prop) [Decidable p] (best : Option PreparedEvent),
        (if p then some last else best).elim
            ((0 : ℚ), (none : Option EventRow))
            (fun item => (scoreOf threshold aggregate item, some item.row)) =
          if p then (scoreOf threshold aggregate last, some last.row)
          else best.elim (0, none) fun item =>
            (scoreOf threshold aggregate item, some item.row) := by
      intro p _ best
      split <;> rfl
    rw [hkept, walkStep]
    refine if_congr ?_ rfl rfl
    rw [isRival, Bool.and_eq_true, decide_eq_true_eq, and_assoc]
    refine and_congr_right fun _ => ?_
    cases hleader : leader threshold aggregate items with
    | none => simp [scoreOf]
    | some item =>
      have hpositive : 0 < scoreOf threshold aggregate item := by
        have hmem := of_mem_filter (RowOrder.firstBy_mem hleader)
        rw [isRival, Bool.and_eq_true, decide_eq_true_eq] at hmem
        exact hmem.2
      simp only [Option.elim_some, Option.some.injEq, forall_eq']
      exact ⟨fun hlt => ⟨hpositive.trans hlt, hlt⟩, And.right⟩

theorem leader_filter {keep : PreparedEvent → Bool} {item : PreparedEvent}
    (hleader : leader threshold aggregate items = some item) (hkeep : keep item) :
    leader threshold aggregate (items.filter keep) = some item := by
  rw [leader, filter_comm]
  exact (RowOrder.isStrictOrder_greater _).firstBy_filter hleader hkeep

end

/-! ## What the prefilter keeps -/

variable {readers : Readers} {threshold : ℚ} {cache : Cache}
variable {candidate : EventCandidate} {events : List EventRow}

theorem prefilterBy_map {Item Other : Type} (row : Other → EventRow)
    (f : Item → Other) (items : List Item) :
    prefilterBy readers row candidate (items.map f) =
      (prefilterBy readers (row ∘ f) candidate items).map f := by
  simp only [prefilterBy, filter_map, map_eq_nil_iff, apply_ite (map f)]
  rfl

theorem matchEvent_eq (hsound : cache.Sound readers) (prefilter : Bool)
    (preparedEvents : Option (List PreparedEvent))
    (hsignature : events.find? (·.eventSignature = some candidate.eventSignature) = none) :
    matchEvent readers threshold prefilter cache candidate events preparedEvents =
      (clusterAggregate readers.toCanon candidate.members).bind fun aggregate =>
        (leader threshold (prepare readers.toCanon aggregate)
          (if prefilter then prefilterBy readers PreparedEvent.row candidate
              (walked readers events preparedEvents)
            else walked readers events preparedEvents)).map
          PreparedEvent.row := by
  unfold matchEvent
  rw [hsignature]
  dsimp only
  refine congrArg _ (funext fun aggregate => ?_)
  have hrow : ∀ found : Option PreparedEvent,
      (found.elim ((0 : ℚ), (none : Option EventRow)) fun item =>
        (scoreOf threshold (prepare readers.toCanon aggregate) item,
          some item.row)).2 = found.map PreparedEvent.row := by
    intro found
    cases found <;> rfl
  rw [foldl_walkStep, hrow]
  cases preparedEvents with
  | some items => rfl
  | none =>
    simp only [prepareOpenEvents, (prepareFrom_spec _ _ (Memos.empty readers)
      hsound).1, walked, Option.getD_none, prefilterBy_map]
    cases prefilter <;> rfl

theorem leader_prefilterBy_iff {aggregate : Prepared} {items : List PreparedEvent} :
    (∀ row,
        (leader threshold aggregate items).map PreparedEvent.row = some row →
        (leader threshold aggregate (prefilterBy readers PreparedEvent.row
          candidate items)).map PreparedEvent.row = some row) ↔
      prefilterPredicate readers candidate = ([], ∅) ∨
      (∀ item ∈ items, isPlausible readers candidate item.row = false) ∨
      ∀ item, Leads threshold aggregate items item →
        isPlausible readers candidate item.row = true := by
  simp only [← leader_eq_some_iff]
  by_cases hblank : prefilterPredicate readers candidate = ([], ∅)
  · simp [prefilterBy, hblank]
  have hpredicate : ¬((prefilterPredicate readers candidate).1 = [] ∧
      (prefilterPredicate readers candidate).2 = ∅) :=
    fun hparts => hblank (Prod.ext hparts.1 hparts.2)
  rw [prefilterBy, if_neg hpredicate, or_iff_right hblank]
  by_cases hempty : (items.filter fun item => isPlausible readers candidate item.row) = []
  · have hnone : ∀ item ∈ items, isPlausible readers candidate item.row = false :=
      by simpa using filter_eq_nil_iff.mp hempty
    simp only [if_pos hempty, imp_self, implies_true, true_iff]
    exact Or.inl hnone
  have hnone : ¬∀ item ∈ items, isPlausible readers candidate item.row = false :=
    fun hall => hempty (by simpa using hall)
  simp only [if_neg hempty, or_iff_right hnone]
  constructor
  · intro hkept item hleader
    obtain ⟨other, hother, hrow⟩ :=
      Option.map_eq_some_iff.mp (hkept item.row (by rw [hleader]; rfl))
    have hmem := mem_of_mem_filter (RowOrder.firstBy_mem hother)
    rw [← hrow]
    exact (mem_filter.mp hmem).2
  · intro hkept row hrow
    obtain ⟨item, hleader, rfl⟩ := Option.map_eq_some_iff.mp hrow
    rw [leader_filter hleader (hkept item hleader)]
    rfl

/-- No event is better than those which share the category or the geo. -/
def KeepsLeader (readers : Readers) (threshold : ℚ) (candidate : EventCandidate)
    (events : List EventRow) (items : List PreparedEvent) : Prop :=
  (∃ row ∈ events, row.eventSignature = some candidate.eventSignature) ∨
    prefilterPredicate readers candidate = ([], ∅) ∨
    (∀ item ∈ items, isPlausible readers candidate item.row = false) ∨
    ∀ aggregate,
      clusterAggregate readers.toCanon candidate.members = some aggregate →
      ∀ item, Leads threshold (prepare readers.toCanon aggregate) items item →
        isPlausible readers candidate item.row = true

theorem prefilter_keeps_match_iff (readers : Readers) (threshold : ℚ)
    (calls : List (List EventRow × ℤ)) (candidate : EventCandidate)
    (events : List EventRow) (preparedEvents : Option (List PreparedEvent)) :
    (∀ row, matchEvent readers threshold false
          (prepareCalls readers { } calls).2 candidate events preparedEvents =
          some row →
        matchEvent readers threshold true (prepareCalls readers { } calls).2
          candidate events preparedEvents = some row) ↔
      KeepsLeader readers threshold candidate events (walked readers events preparedEvents) := by
  have hsound := (@prepareCalls_spec readers { } calls Cache.sound_empty).2
  generalize (prepareCalls readers { } calls).2 = cache at hsound ⊢
  generalize hitems : walked readers events preparedEvents = items
  cases hsignature : events.find? (·.eventSignature = some candidate.eventSignature) with
  | some row =>
    have hrow : row ∈ events ∧ row.eventSignature = some candidate.eventSignature :=
      ⟨mem_of_find?_eq_some hsignature, by simpa using find?_some hsignature⟩
    simp only [matchEvent, hsignature, imp_self, implies_true, true_iff]
    exact Or.inl ⟨row, hrow⟩
  | none =>
    rw [matchEvent_eq hsound _ _ hsignature, matchEvent_eq hsound _ _ hsignature, hitems]
    have hnone : ¬∃ row ∈ events, row.eventSignature = some candidate.eventSignature := by
      simpa using hsignature
    simp only [KeepsLeader, hnone, false_or]
    cases haggregate : clusterAggregate readers.toCanon candidate.members with
    | none => simp
    | some aggregate =>
      simp only [Option.bind_some, if_true, Bool.false_eq_true, if_false,
        Option.some.injEq, forall_eq']
      exact leader_prefilterBy_iff

def asciiReaders : Readers where
  toCanon := asciiCanon
  fromisoformat _ := none
  uuid _ := none

def floodCandidate : EventCandidate where
  eventSignature := "evt:flood".toList
  category := "weather".toList
  geo := []
  members := [seoul]

def driftedEvent : EventRow where
  title := some "Flood".toList
  category := some "disaster".toList
  entityNames := .many ["Seoul".toList]
  timeEnd := some (.datetime true 0)

theorem not_forall_prefilter_keeps : ¬∀ (readers : Readers) (threshold : ℚ)
    (calls : List (List EventRow × ℤ)) (candidate : EventCandidate)
    (events : List EventRow) (preparedEvents : Option (List PreparedEvent)) row,
    matchEvent readers threshold false (prepareCalls readers { } calls).2
        candidate events preparedEvents = some row →
      matchEvent readers threshold true (prepareCalls readers { } calls).2
        candidate events preparedEvents = some row := by
  intro hall
  exact absurd (hall asciiReaders (1 / 2) [] floodCandidate
    [{ category := some "weather".toList }, driftedEvent] none driftedEvent
    (by decide +kernel)) (by decide +kernel)

end Legba.EventMatcher
