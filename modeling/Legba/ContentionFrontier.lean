import Legba.ContentionScan
import Mathlib.Algebra.Order.BigOperators.Group.List

/-!
# The frontier of budgeted contention passes

A disputed group which is recomputed stores a fingerprint.  Within one age
bucket it is recomputed at most three times: once because nothing matches, and
twice because its soak state was stored before the group was opened, or has
changed since.  A group with fewer than two clean clusters stores nothing and
is recomputed by every pass.  The passes advance as long as such groups do not
use up the budget.
-/

namespace Legba.Contention

open List Function

variable {K : Type*} [Field K] [LinearOrder K] {A : Arbiter K}

/-! ## The recomputations which a group may still need -/

def undisputed (A : Arbiter K) (bucket : Bucket) : Bool :=
  decide ((A.nonJunk bucket.rows).length < 2)

variable {rows : List FactRow} {now : Datetime} {slot : Slot} {soaked : Bool}
  {slots : Sidecar} {bucket : Bucket}

theorem skips_iff :
    A.skips rows now slot = true ↔
      ∃ group, slot.group = some group ∧
        group.fingerprint = some (A.groupFingerprint rows now
          (A.pastSoak (some group.openedAt) now)) ∧
        group.arbiterVersion = some A.version ∧ group.status ≠ .collapsed := by
  unfold Arbiter.skips Arbiter.passFingerprint Arbiter.unchanged
  cases slot.group with
  | none => simp
  | some group => simp [and_assoc]

def matchesRows (A : Arbiter K) (rows : List FactRow) (now : Datetime)
    (group : Group) (stored : Fingerprint) : Bool :=
  decide (stored = A.groupFingerprint rows now stored.soaked) &&
    decide (group.arbiterVersion = some A.version) &&
    decide (group.status ≠ .collapsed)

/-- The recomputations left to a fingerprint which matches but for its soak
state; the soak window only opens once. -/
def soakSteps : Bool → Bool → ℕ
  | true, true => 0
  | true, false => 2
  | false, _ => 1

theorem soakSteps_le (stored soaked : Bool) : soakSteps stored soaked ≤ 2 := by
  cases stored <;> cases soaked <;> decide

theorem soakSteps_lt {stored : Bool} (hdiffers : stored ≠ soaked) :
    soakSteps soaked soaked < soakSteps stored soaked := by
  cases stored <;> cases soaked <;> simp_all [soakSteps]

theorem soakSteps_later {stored later : Bool} (hmono : soaked = true → later = true) :
    soakSteps stored later ≤ soakSteps stored soaked := by
  cases stored <;> cases soaked <;> cases later <;> simp_all [soakSteps]

def unsettled (A : Arbiter K) (rows : List FactRow) (now : Datetime) (slot : Slot) : ℕ :=
  match slot.group with
  | none => 3
  | some group =>
    match group.fingerprint with
    | none => 3
    | some stored =>
      if matchesRows A rows now group stored then
        soakSteps stored.soaked (A.pastSoak (some group.openedAt) now)
      else 3

theorem unsettled_of_matches {group : Group} (hgroup : slot.group = some group)
    (hstored : group.fingerprint = some (A.groupFingerprint rows now soaked))
    (hversion : group.arbiterVersion = some A.version) (hopen : group.status ≠ .collapsed) :
    unsettled A rows now slot = soakSteps soaked (A.pastSoak (some group.openedAt) now) := by
  have hmatches : matchesRows A rows now group (A.groupFingerprint rows now soaked) := by
    simp [matchesRows, hversion, hopen, Arbiter.groupFingerprint]
  unfold unsettled
  rw [hgroup]
  simp only [hstored, hmatches, if_true]
  rfl

theorem finalizeGroup_arbiterVersion (A : Arbiter K) (prior : Group) (nonJunk junk : List ValueAgg)
    (decision : SurfaceDecision) (now : Datetime) (fingerprint : Fingerprint) :
    (A.finalizeGroup prior nonJunk junk decision now
      fingerprint).arbiterVersion = some A.version := by
  simp [Arbiter.finalizeGroup, apply_ite Group.arbiterVersion]

section

variable {llm : Bool} {turn : LlmTurn} (hdisputed : ¬(A.nonJunk rows).length < 2)

include hdisputed

theorem unsettled_processGroup :
    unsettled A rows now (A.processGroup llm rows now turn (A.passFingerprint rows now slot) slot) =
      soakSteps (A.pastSoak (slot.group.map Group.openedAt) now)
        (A.pastSoak (some (Arbiter.openGroup slot.group now).openedAt) now) := by
  unfold Arbiter.processGroup
  rw [if_neg hdisputed,
    unsettled_of_matches rfl (Arbiter.finalizeGroup_fingerprint ..)
      (finalizeGroup_arbiterVersion ..)
      (Arbiter.finalizeGroup_not_collapsed A _ _ _ _ _ _),
    Arbiter.finalizeGroup_openedAt]

theorem unsettled_processGroup_lt (hvisits : A.skips rows now slot ≠ true) :
    unsettled A rows now (A.processGroup llm rows now turn (A.passFingerprint rows now slot) slot) <
      unsettled A rows now slot := by
  rw [unsettled_processGroup hdisputed]
  by_cases hmatching : ∃ group stored, slot.group = some group ∧
      group.fingerprint = some stored ∧
      matchesRows A rows now group stored = true
  · obtain ⟨group, stored, hgroup, hstored, hmatches⟩ := hmatching
    have hbefore := hmatches
    simp only [matchesRows, Bool.and_eq_true, decide_eq_true_eq] at hmatches
    obtain ⟨⟨hsame, hversion⟩, hopen⟩ := hmatches
    have hdiffers : stored.soaked ≠ A.pastSoak (some group.openedAt) now := by
      intro hsoaked
      refine hvisits (skips_iff.mpr ⟨group, hgroup, ?_, hversion, hopen⟩)
      rw [hstored, hsame, hsoaked]
    simp only [unsettled, hgroup, hstored, hbefore, if_true, Option.map_some,
      Arbiter.openGroup, if_neg hopen]
    exact soakSteps_lt hdiffers
  · have hthree : unsettled A rows now slot = 3 := by
      unfold unsettled
      cases hgroup : slot.group with
      | none => rfl
      | some group =>
        cases hstored : group.fingerprint with
        | none => simp [hstored]
        | some stored =>
          have hno : matchesRows A rows now group stored ≠ true :=
            fun hmatches => hmatching ⟨group, stored, hgroup, hstored, hmatches⟩
          simp [hstored, hno]
    rw [hthree]
    exact Nat.lt_succ_of_le (soakSteps_le _ _)

end

theorem pastSoak_mono {opened : Option Datetime} {later : Datetime} (hlater : now ≤ later)
    (hsoaked : A.pastSoak opened now) : A.pastSoak opened later := by
  cases opened with
  | none => rfl
  | some opened =>
    simp only [Arbiter.pastSoak, Bool.or_eq_true, decide_eq_true_eq] at hsoaked ⊢
    rcases hsoaked with hsoak | hage
    · exact .inl hsoak
    · exact .inr (hage.trans (sub_le_sub_right hlater opened))

theorem unsettled_later {later : Datetime} (hlater : now ≤ later)
    (hage : A.ageBucket rows later = A.ageBucket rows now) (slot : Slot) :
    unsettled A rows later slot ≤ unsettled A rows now slot := by
  have hsame (soaked : Bool) : A.groupFingerprint rows later soaked =
      A.groupFingerprint rows now soaked := by
    unfold Arbiter.groupFingerprint
    rw [hage]
  unfold unsettled
  cases slot.group with
  | none => exact Nat.le_refl 3
  | some group =>
    cases hstored : group.fingerprint with
    | none => simp [hstored]
    | some stored =>
      have hmatches : matchesRows A rows later group stored =
          matchesRows A rows now group stored := by
        simp [matchesRows, hsame]
      simp only [hstored, hmatches]
      cases matchesRows A rows now group stored with
      | true => exact soakSteps_later (pastSoak_mono hlater)
      | false => exact Nat.le_refl 3

/-! ## One pass -/

def openCost (A : Arbiter K) (now : Datetime) (slots : Sidecar) (bucket : Bucket) : ℕ :=
  if undisputed A bucket then 0
  else unsettled A bucket.rows now (slots bucket.key)

def openCosts (A : Arbiter K) (now : Datetime) (pending : List Bucket) (slots : Sidecar) : ℕ :=
  (pending.map (openCost A now slots)).sum

theorem openCost_congr (A : Arbiter K) (now : Datetime) {other : Sidecar}
    (hsame : slots bucket.key = other bucket.key) :
    openCost A now slots bucket = openCost A now other bucket := by
  unfold openCost
  rw [hsame]

theorem openCosts_update {pending : List Bucket} {key : GroupKey}
    (hkey : key ∉ pending.map Bucket.key) :
    openCosts A now pending (update slots key slot) = openCosts A now pending slots := by
  unfold openCosts
  congr 1
  apply map_congr_left
  intro bucket hbucket
  apply openCost_congr A now
  apply update_of_ne
  rintro rfl
  exact hkey (mem_map_of_mem hbucket)

def Burdened (A : Arbiter K) (pending : List Bucket) (slots : Sidecar) : Prop :=
  ∀ bucket ∈ pending, undisputed A bucket = true →
    ∀ now, A.skips bucket.rows now (slots bucket.key) ≠ true

theorem not_skips_collapseSlot (rows : List FactRow) (now : Datetime)
    (slot : Slot) : A.skips rows now (A.collapseSlot slot) ≠ true := by
  intro hskips
  obtain ⟨group, hgroup, _, _, hopen⟩ := skips_iff.mp hskips
  obtain ⟨prior, _, rfl⟩ := Option.map_eq_some_iff.mp hgroup
  exact hopen rfl

variable {rest : List Bucket}

theorem Burdened.update (hburdened : Burdened A (bucket :: rest) slots)
    (hfresh : bucket.key ∉ rest.map Bucket.key) (slot : Slot) :
    Burdened A rest (update slots bucket.key slot) := by
  intro other hother hundisputed now
  have hne : other.key ≠ bucket.key := fun heq => hfresh (heq ▸ mem_map_of_mem hother)
  rw [update_of_ne hne]
  exact hburdened other (mem_cons_of_mem _ hother) hundisputed now

theorem Burdened.tail (hburdened : Burdened A (bucket :: rest) slots) : Burdened A rest slots :=
  fun other hother => hburdened other (mem_cons_of_mem _ hother)

section

variable (A) (llm : Bool) (now : Datetime) (turns : GroupKey → LlmTurn)

theorem openCost_processBucket {bucket : Bucket} (turn : LlmTurn) {store : Store}
    (hvisits : A.skips bucket.rows now (store.slots bucket.key) ≠ true) :
    openCost A now (A.processBucket llm now turn bucket store).slots bucket + 1 ≤
      openCost A now store.slots bucket +
        if undisputed A bucket then 1 else 0 := by
  unfold openCost
  cases hundisputed : undisputed A bucket with
  | true => simp
  | false =>
    have hdisputed : ¬(A.nonJunk bucket.rows).length < 2 := of_decide_eq_false hundisputed
    simpa [Arbiter.processBucket] using
      Nat.succ_le_of_lt (unsettled_processGroup_lt hdisputed hvisits)

variable {pending : List Bucket}

theorem runLoop_openCosts (left : ℕ) (store : Store) (hnodup : (pending.map Bucket.key).Nodup) :
    openCosts A now pending (A.runLoop llm now turns left pending store).store.slots + left ≤
      openCosts A now pending store.slots + pending.countP (undisputed A) +
        (A.runLoop llm now turns left pending store).left := by
  induction pending generalizing left store with
  | nil => simp [openCosts, Arbiter.runLoop]
  | cons bucket rest ih =>
    rw [map_cons, nodup_cons] at hnodup
    cases left with
    | zero => simp [Arbiter.runLoop]
    | succ left =>
      have hcons (slots : Sidecar) :
          openCosts A now (bucket :: rest) slots =
            openCost A now slots bucket + openCosts A now rest slots := by
        simp [openCosts]
      unfold Arbiter.runLoop
      rw [countP_cons, hcons, hcons]
      by_cases hskips : A.skips bucket.rows now (store.slots bucket.key) = true
      · rw [if_pos hskips]
        have hrest := ih (left + 1) store hnodup.2
        have hsame := openCost_congr A now
          (runLoop_slots_of_notMem A llm now turns (left + 1) store hnodup.1)
        simp only [Arbiter.Pass.reached] at hsame ⊢
        omega
      · rw [if_neg hskips]
        set after := A.processBucket llm now (turns bucket.key) bucket store with hafter
        have hrest := ih left after hnodup.2
        have hsame := openCost_congr A now
          (runLoop_slots_of_notMem A llm now turns left after hnodup.1)
        have hcost := openCost_processBucket A llm now (turns bucket.key) hskips
        have hupdate : openCosts A now rest after.slots =
            openCosts A now rest store.slots := openCosts_update hnodup.1
        simp only [Arbiter.Pass.reached] at hsame ⊢
        rw [← hafter] at hcost
        omega

theorem runLoop_visited_sublist (pending : List Bucket) (left : ℕ) (store : Store) :
    (A.runLoop llm now turns left pending store).visited.Sublist pending := by
  induction pending generalizing left store with
  | nil => exact Sublist.refl []
  | cons bucket rest ih =>
    cases left with
    | zero => exact nil_sublist _
    | succ left =>
      unfold Arbiter.runLoop
      split
      · exact (ih _ _).cons_cons bucket
      · exact (ih _ _).cons_cons bucket

theorem runLoop_visited_of_complete (left : ℕ) (store : Store)
    (hcomplete : (A.runLoop llm now turns left pending store).complete) :
    (A.runLoop llm now turns left pending store).visited = pending := by
  induction pending generalizing left store with
  | nil => rfl
  | cons bucket rest ih =>
    cases left with
    | zero => simp [Arbiter.runLoop] at hcomplete
    | succ left =>
      unfold Arbiter.runLoop at hcomplete ⊢
      split
      · rename_i hskips
        rw [if_pos hskips] at hcomplete
        exact congrArg (bucket :: ·) (ih _ _ hcomplete)
      · rename_i hskips
        rw [if_neg hskips] at hcomplete
        exact congrArg (bucket :: ·) (ih _ _ hcomplete)

section

variable (left : ℕ) (store : Store) (hnodup : (pending.map Bucket.key).Nodup)
  (hburdened : Burdened A pending store.slots)

include hnodup hburdened

theorem runLoop_left_of_burdened :
    (A.runLoop llm now turns left pending store).left = 0 ∨
      (A.runLoop llm now turns left pending store).left + pending.countP (undisputed A) ≤ left := by
  induction pending generalizing left store with
  | nil => exact .inr le_rfl
  | cons bucket rest ih =>
    rw [map_cons, nodup_cons] at hnodup
    cases left with
    | zero => exact .inl rfl
    | succ left =>
      unfold Arbiter.runLoop
      rw [countP_cons]
      split
      · rename_i hskips
        have hdisputed : undisputed A bucket ≠ true := fun hundisputed =>
          hburdened bucket mem_cons_self hundisputed now hskips
        rw [if_neg hdisputed]
        exact ih (left + 1) store hnodup.2 hburdened.tail
      · have hrest := ih left
          (A.processBucket llm now (turns bucket.key) bucket store)
          hnodup.2 (hburdened.update hnodup.1 _)
        refine hrest.imp id fun hspent => ?_
        simp only [Arbiter.Pass.reached]
        split <;> omega

theorem runLoop_burdened :
    Burdened A pending (A.runLoop llm now turns left pending store).store.slots := by
  induction pending generalizing left store with
  | nil => exact hburdened
  | cons bucket rest ih =>
    rw [map_cons, nodup_cons] at hnodup
    cases left with
    | zero => exact hburdened
    | succ left =>
      unfold Arbiter.runLoop
      split
      · intro other hother hundisputed later
        have hkeep := runLoop_slots_of_notMem A llm now turns (left + 1) store hnodup.1
        rcases mem_cons.mp hother with rfl | hrest
        · simp only [Arbiter.Pass.reached, hkeep]
          exact hburdened _ mem_cons_self hundisputed later
        · exact ih (left + 1) store hnodup.2 hburdened.tail _ hrest hundisputed later
      · intro other hother hundisputed later
        set after := A.processBucket llm now (turns bucket.key) bucket store with hafter
        have hkeep := runLoop_slots_of_notMem A llm now turns left after hnodup.1
        rcases mem_cons.mp hother with rfl | hrest
        · have hslot : after.slots other.key = A.collapseSlot (store.slots other.key) := by
            simp [hafter, Arbiter.processBucket, Arbiter.processGroup,
              of_decide_eq_true hundisputed]
          simp only [Arbiter.Pass.reached, hkeep, hslot]
          exact not_skips_collapseSlot _ _ _
        · exact ih left after hnodup.2 (hburdened.update hnodup.1 _) _ hrest hundisputed later

end

end

theorem Burdened.sweep {pending : List Bucket} {store : Store}
    (hburdened : Burdened A pending store.slots) (live : List GroupKey) :
    Burdened A pending (A.sweep live store).slots := by
  intro bucket hbucket hundisputed now
  simp only [Arbiter.sweep]
  split
  · exact not_skips_collapseSlot _ _ _
  · exact hburdened bucket hbucket hundisputed now

/-! ## Passes over an unchanged table -/

/-- Passes over one table of facts, each with room for `budget`
recomputations, within one age bucket of every group.  No group without a
dispute has a standing answer to its rows at the start. -/
structure FrontierRun (A : Arbiter K) where
  reading : Reading
  facts : List Fact
  budget : ℕ
  budget_pos : 0 < budget
  start : Store
  clock : ℕ → Datetime
  clock_mono : ∀ n, clock n ≤ clock (n + 1)
  sameAge : ∀ bucket ∈ reading.pending facts, ∀ n,
    A.ageBucket bucket.rows (clock n) = A.ageBucket bucket.rows (clock 0)
  llm : ℕ → Bool
  turns : ℕ → GroupKey → LlmTurn
  burdened : Burdened A (reading.pending facts) start.slots

namespace FrontierRun

variable (F : FrontierRun A)

def pending : List Bucket := F.reading.pending F.facts

def candidates : List Bucket :=
  F.reading.buckets F.facts ++ F.reading.roleBuckets F.facts

/-- The store before pass `n`. -/
def store : ℕ → Store
  | 0 => F.start
  | n + 1 => (A.runArbiter (F.llm n) (F.clock n) (F.turns n) F.budget F.pending (store n)).store

def pass (n : ℕ) : Arbiter.Pass :=
  A.runArbiter (F.llm n) (F.clock n) (F.turns n) F.budget F.pending (F.store n)

def loop (n : ℕ) : Arbiter.Pass :=
  A.runLoop (F.llm n) (F.clock n) (F.turns n) F.budget F.pending (F.store n)

def Advances : Prop :=
  (∀ bucket ∈ F.candidates, ∃ n, bucket ∈ (F.pass n).visited) ∧ ∃ n, (F.pass n).sweeps = true

theorem sweeps_iff (n : ℕ) : (F.pass n).sweeps = true ↔ 0 < (F.loop n).left :=
  runArbiter_sweeps_iff A _ _ _ _ _ _

theorem pending_nodup : (F.pending.map Bucket.key).Nodup :=
  pending_keys_nodup F.reading F.facts

theorem burdened_store (n : ℕ) : Burdened A F.pending (F.store n).slots := by
  induction n with
  | zero => exact F.burdened
  | succ n ih =>
    have hloop := runLoop_burdened A (F.llm n) (F.clock n) (F.turns n)
      F.budget (F.store n) F.pending_nodup ih
    rw [store]
    simp only [Arbiter.runArbiter]
    split
    · exact hloop.sweep _
    · exact hloop

def openCostsAt (n : ℕ) : ℕ :=
  openCosts A (F.clock n) F.pending (F.store n).slots

theorem openCosts_clock (n : ℕ) (slots : Sidecar) :
    openCosts A (F.clock (n + 1)) F.pending slots ≤ openCosts A (F.clock n) F.pending slots := by
  apply sum_le_sum
  intro bucket hbucket
  unfold openCost
  split
  · exact le_rfl
  · apply unsettled_later (F.clock_mono n)
    rw [F.sameAge bucket hbucket, F.sameAge bucket hbucket n]

theorem openCostsAt_lt (hburden : F.pending.countP (undisputed A) < F.budget) {n : ℕ}
    (hcut : (F.pass n).sweeps ≠ true) : F.openCostsAt (n + 1) < F.openCostsAt n := by
  have hspent := runLoop_openCosts A (F.llm n) (F.clock n) (F.turns n) F.budget
    (F.store n) F.pending_nodup
  have hleft : (F.loop n).left = 0 := by
    by_contra hleft
    exact hcut ((F.sweeps_iff n).mpr (Nat.pos_of_ne_zero hleft))
  have hstore : F.store (n + 1) = (F.loop n).store := by
    exact runArbiter_store_of_cut A _ _ _ _ _ _ hcut
  have hclock := F.openCosts_clock n (F.store (n + 1)).slots
  unfold openCostsAt
  rw [hstore] at hclock ⊢
  unfold loop at hleft hclock ⊢
  omega

theorem exists_sweeps_iff :
    (∃ n, (F.pass n).sweeps = true) ↔ F.pending.countP (undisputed A) < F.budget := by
  constructor
  · rintro ⟨n, hsweeps⟩
    have hleft := (F.sweeps_iff n).mp hsweeps
    have hspent := runLoop_left_of_burdened A (F.llm n) (F.clock n) (F.turns n)
      F.budget (F.store n) F.pending_nodup (F.burdened_store n)
    unfold loop at hleft
    omega
  · intro hburden
    by_contra hnone
    have hnever : ∀ n, (F.pass n).sweeps ≠ true := fun n hsweeps => hnone ⟨n, hsweeps⟩
    obtain ⟨n, hn⟩ := WellFounded.not_rel_apply_succ (r := (· < ·)) F.openCostsAt
    exact hn (F.openCostsAt_lt hburden (hnever n))

theorem mem_pending_of_visited {n : ℕ} {bucket : Bucket}
    (hvisited : bucket ∈ (F.pass n).visited) : bucket ∈ F.pending := by
  rw [pass, runArbiter_visited] at hvisited
  exact (runLoop_visited_sublist A _ _ _ _ _ _).subset hvisited

theorem visited_of_sweeps {n : ℕ} (hsweeps : (F.pass n).sweeps) :
    (F.pass n).visited = F.pending := by
  rw [pass, runArbiter_visited]
  apply runLoop_visited_of_complete
  exact runLoop_complete_of_left A _ _ _ _ _ ((F.sweeps_iff n).mp hsweeps)

/-- The passes advance exactly when both bucketings keep all their buckets and
the undisputed groups do not use up the budget. -/
theorem advances_iff :
    F.Advances ↔ (∀ bucket ∈ F.candidates, bucket ∈ F.pending) ∧
      F.pending.countP (undisputed A) < F.budget := by
  constructor
  · rintro ⟨hdecided, hsweeps⟩
    refine ⟨?_, F.exists_sweeps_iff.mp hsweeps⟩
    intro bucket hbucket
    obtain ⟨n, hvisited⟩ := hdecided bucket hbucket
    exact F.mem_pending_of_visited hvisited
  · rintro ⟨hkept, hburden⟩
    obtain ⟨n, hsweeps⟩ := F.exists_sweeps_iff.mpr hburden
    refine ⟨?_, n, hsweeps⟩
    intro bucket hbucket
    exact ⟨n, F.visited_of_sweeps hsweeps ▸ hkept bucket hbucket⟩

end FrontierRun

def reported (id : Uuid) (subject value : String) : Fact where
  row :=
    { id := id, subject := subject, predicate := "controlled by", value := value
      confidence := 9 / 10, sourceType := some "news"
      sourceCredibility := some (4 / 5), producedAt := some 0 }

def corroborated : List Fact :=
  [reported 1 "aden" "council", reported 2 "aden" "council",
    reported 3 "taiz" "council", reported 4 "taiz" "government"]

def starvedRun : FrontierRun (plainArbiter 0) where
  reading := plainReading
  facts := corroborated
  budget := 1
  budget_pos := Nat.one_pos
  start := {}
  clock := fun _ => 0
  clock_mono := fun _ => le_rfl
  sameAge := fun _ _ _ => rfl
  llm := fun _ => false
  turns := fun _ _ => { callsLeft := 0, affordable := false, reply := none }
  burdened := fun _ _ _ _ hskips => Bool.false_ne_true hskips

theorem starvedRun_not_advances : ¬starvedRun.Advances := by
  rintro ⟨_, hsweeps⟩
  have hburden := starvedRun.exists_sweeps_iff.mp hsweeps
  have hcount : starvedRun.pending.countP (undisputed (plainArbiter 0)) = 1 := by decide +kernel
  exact lt_irrefl 1 hburden

end Legba.Contention
