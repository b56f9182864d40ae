import Legba.ContentionGroup
import Legba.LabelledRun

/-!
# The groups which a contention pass skips

Between two passes the scores of a group with unchanged rows fall by one common
factor, as long as no fact is dated in the future, so that only the absolute
floor can be crossed.  A skipped answer is the one a recomputation would give,
provided that the fingerprint was stored with the soak state which the decision
read, and that a near tie was not left contested because the language model
could not be asked.
-/

namespace Legba.Contention

open LabelledRun List

variable {K : Type*} [Field K] [LinearOrder K] [IsStrictOrderedRing K]

/-! ## Scores which fall by a common factor -/

section

variable {scores aged : ValueAgg → K} {aggs : List ValueAgg} {factor : K}

variable {a b : ValueAgg}

theorem rankKey_le_iff (hfactor : 0 < factor) (ha : aged a = factor * scores a)
    (hb : aged b = factor * scores b) :
    rankKey aged b ≤ rankKey aged a ↔ rankKey scores b ≤ rankKey scores a := by
  refine Prod.Lex.toLex_le_toLex.trans (Iff.trans ?_ Prod.Lex.toLex_le_toLex.symm)
  simp only [ha, hb]
  rw [mul_lt_mul_iff_right₀ hfactor, mul_right_inj' hfactor.ne']

theorem ranked_aged (hfactor : 0 < factor) (haged : ∀ agg ∈ aggs, aged agg = factor * scores agg) :
    ranked aged aggs = ranked scores aggs := by
  have hsort := map_insertionSort (fun a b => rankKey scores b ≤ rankKey scores
    a) (fun a b => rankKey aged b ≤ rankKey aged a) id aggs fun a ha b hb =>
    (rankKey_le_iff hfactor (haged a ha) (haged b hb)).symm
  rw [map_id, map_id] at hsort
  exact hsort.symm

variable {best runnerUp : K} {head : ValueAgg} {rest : List ValueAgg}

theorem dominates_aged (hfactor : 0 < factor) :
    factor * best < Arbiter.dominanceRatio * (factor * runnerUp) ↔
      best < Arbiter.dominanceRatio * runnerUp := by
  rw [mul_left_comm, mul_lt_mul_iff_right₀ hfactor]

theorem minSurfaceScore_pos : (0 : K) < Arbiter.minSurfaceScore := by
  unfold Arbiter.minSurfaceScore
  norm_num

section

variable (hfactor : 0 < factor) (hle : factor ≤ 1)
  (hfloor : Arbiter.minSurfaceScore ≤ factor * best)

include hfactor hle hfloor

theorem above_of_aged : Arbiter.minSurfaceScore ≤ best := by
  have hbest : 0 < best := by
    by_contra hneg
    have := mul_nonpos_of_nonneg_of_nonpos hfactor.le (not_lt.mp hneg)
    exact absurd (minSurfaceScore_pos.trans_le hfloor) (not_lt.mpr this)
  exact hfloor.trans (mul_le_of_le_one_left hbest.le hle)

theorem scoreAbstains_aged :
    scoreAbstains (factor * best) (factor * runnerUp) = scoreAbstains best runnerUp := by
  have habove := above_of_aged hfactor hle hfloor
  unfold scoreAbstains
  rw [decide_eq_false (not_lt.mpr hfloor), decide_eq_false (not_lt.mpr habove)]
  simp [dominates_aged hfactor, mul_pos_iff_of_pos_left hfactor]

end

def BelowFloor (aggs : List ValueAgg) (scores : ValueAgg → K) : Prop :=
  ∀ agg ∈ aggs, scores agg < Arbiter.minSurfaceScore

omit [Field K] [IsStrictOrderedRing K] in
theorem mem_ranked (scores : ValueAgg → K) {agg : ValueAgg} :
    agg ∈ ranked scores aggs ↔ agg ∈ aggs :=
  (perm_insertionSort _ aggs).mem_iff

omit [Field K] [IsStrictOrderedRing K] in
theorem score_le_of_rankKey_le (hle : rankKey scores b ≤ rankKey scores a) :
    scores b ≤ scores a := by
  rcases Prod.Lex.toLex_le_toLex.mp hle with hlt | ⟨heq, _⟩
  · exact hlt.le
  · exact heq.le

omit [Field K] [IsStrictOrderedRing K] in
theorem ranked_pairwise (scores : ValueAgg → K) (aggs : List ValueAgg) :
    (ranked scores aggs).Pairwise fun a b => scores b ≤ scores a := by
  have hsorted := pairwise_insertionSort
    (fun a b => rankKey scores b ≤ rankKey scores a) aggs
  exact hsorted.imp fun h => score_le_of_rankKey_le h

omit [IsStrictOrderedRing K] in
theorem belowFloor_iff_head (hranked : ranked scores aggs = head :: rest) :
    BelowFloor aggs scores ↔ scores head < Arbiter.minSurfaceScore := by
  have hpair := ranked_pairwise scores aggs
  rw [hranked, pairwise_cons] at hpair
  constructor
  · intro hbelow
    exact hbelow head ((mem_ranked scores).mp (hranked ▸ mem_cons_self))
  · intro hhead agg hagg
    have hmem := hranked ▸ (mem_ranked scores).mpr hagg
    rcases mem_cons.mp hmem with rfl | hrest
    · exact hhead
    · exact (hpair.1 agg hrest).trans_lt hhead

theorem not_tied_of_dominates {other : K} (hstands : scoreAbstains best runnerUp = false)
    (hother : other ≤ runnerUp) : ¬|other - best| ≤ Arbiter.tieTolerance := by
  have hfloor : Arbiter.minSurfaceScore ≤ best := by
    by_contra hlow
    simp [scoreAbstains, not_le.mp hlow] at hstands
  have hdominates : 0 < runnerUp → Arbiter.dominanceRatio * runnerUp ≤ best := by
    intro hpos
    by_contra hnear
    simp [scoreAbstains, hpos, not_le.mp hnear] at hstands
  unfold Arbiter.minSurfaceScore at hfloor
  unfold Arbiter.dominanceRatio at hdominates
  unfold Arbiter.tieTolerance
  intro htied
  have hgap := (abs_le.mp htied).1
  rcases le_or_gt runnerUp 0 with hnonpos | hpos
  · linarith
  · have := hdominates hpos
    linarith

theorem tied_length_le_one (hranked : ranked scores aggs = head :: rest)
    (hstands : scoreAbstains (scores head) (runnerUpScore scores (head :: rest)) = false) :
    (aggs.filter fun agg =>
      decide (|scores agg - scores head| ≤ Arbiter.tieTolerance)).length ≤ 1 := by
  have hperm := (perm_insertionSort
    (fun a b => rankKey scores b ≤ rankKey scores a) aggs).filter
      fun agg => decide (|scores agg - scores head| ≤ Arbiter.tieTolerance)
  rw [← hperm.length_eq]
  change ((ranked scores aggs).filter _).length ≤ 1
  have hpair := ranked_pairwise scores aggs
  rw [hranked] at hpair ⊢
  have hnone : rest.filter (fun agg =>
      decide (|scores agg - scores head| ≤ Arbiter.tieTolerance)) = [] := by
    rw [filter_eq_nil_iff]
    intro agg hagg
    rw [decide_eq_true_iff]
    cases rest with
    | nil => cases hagg
    | cons second later =>
      apply not_tied_of_dominates hstands
      rcases mem_cons.mp hagg with rfl | hlater
      · exact le_rfl
      · exact (pairwise_cons.mp (pairwise_cons.mp hpair).2).1 _ hlater
  rw [filter_cons, hnone]
  split <;> simp

theorem selectWinner_eq (A : Arbiter K) (hranked : ranked scores aggs = head :: rest) :
    A.selectWinner aggs scores =
      if scoreAbstains (scores head) (runnerUpScore scores (head :: rest)) then
        none
      else if A.unsurfaceable head.representativeValue then none
      else some head := by
  unfold Arbiter.selectWinner
  rw [hranked]
  cases hstands : scoreAbstains (scores head) (runnerUpScore scores (head :: rest)) with
  | true => simp [hstands]
  | false =>
    have hone := tied_length_le_one hranked hstands
    simp [hstands, if_neg (not_lt.mpr hone)]

omit [IsStrictOrderedRing K] in
theorem abstainCause_eq (hranked : ranked scores aggs = head :: rest) :
    Arbiter.abstainCause aggs scores =
      if scores head < Arbiter.minSurfaceScore then some .weak
      else if 0 < runnerUpScore scores (head :: rest) ∧
          scores head < Arbiter.dominanceRatio *
            runnerUpScore scores (head :: rest) then some .nearTie
      else none := by
  have hsame : (aggs.map scores).insertionSort (fun a b => b ≤ a) =
      (ranked scores aggs).map scores := by
    have hperm : ((aggs.map scores).insertionSort fun a b => b ≤ a).Perm
        ((ranked scores aggs).map scores) :=
      (perm_insertionSort _ _).trans ((perm_insertionSort _ aggs).map scores).symm
    refine hperm.eq_of_pairwise (fun a b _ _ hab hba => le_antisymm hba hab)
      (pairwise_insertionSort _ _) ?_
    exact (ranked_pairwise scores aggs).map scores fun _ _ h => h
  unfold Arbiter.abstainCause
  rw [hsame, hranked]
  cases rest with
  | nil => rfl
  | cons second later => rfl

omit [IsStrictOrderedRing K] in
theorem abstainCause_of_belowFloor (hbelow : BelowFloor aggs scores) :
    Arbiter.abstainCause aggs scores ≠ some .nearTie := by
  cases hranked : ranked scores aggs with
  | nil =>
    have hempty : aggs = [] := by
      rw [eq_nil_iff_forall_not_mem]
      intro agg hagg
      have := hranked ▸ (mem_ranked scores).mpr hagg
      cases this
    rw [hempty]
    simp [Arbiter.abstainCause]
  | cons head rest =>
    have hlow := (belowFloor_iff_head hranked).mp hbelow
    rw [abstainCause_eq hranked, if_pos hlow]
    simp

theorem selectWinner_of_belowFloor (A : Arbiter K)
    (hbelow : BelowFloor aggs scores) : A.selectWinner aggs scores = none := by
  cases hranked : ranked scores aggs with
  | nil => simp [Arbiter.selectWinner, hranked]
  | cons head rest =>
    have hlow := (belowFloor_iff_head hranked).mp hbelow
    rw [selectWinner_eq A hranked, if_pos (by simp [scoreAbstains, hlow])]

/-! The decision above the floor does not see the factor. -/

omit [IsStrictOrderedRing K] in
theorem runnerUpScore_aged (haged : ∀ agg ∈ aggs, aged agg = factor * scores agg)
    (hranked : ranked scores aggs = head :: rest) :
    runnerUpScore aged (head :: rest) = factor * runnerUpScore scores (head :: rest) := by
  cases rest with
  | nil => simp [runnerUpScore]
  | cons second later =>
    apply haged
    rw [← mem_ranked scores, hranked]
    exact mem_cons_of_mem _ mem_cons_self

theorem selectWinner_aged (A : Arbiter K) (hfactor : 0 < factor) (hle : factor ≤ 1)
    (haged : ∀ agg ∈ aggs, aged agg = factor * scores agg) (habove : ¬BelowFloor aggs aged) :
    A.selectWinner aggs aged = A.selectWinner aggs scores := by
  have hsame := ranked_aged hfactor haged
  cases hranked : ranked scores aggs with
  | nil => simp [Arbiter.selectWinner, hsame, hranked]
  | cons head rest =>
    have hhead : aged head = factor * scores head :=
      haged head ((mem_ranked scores).mp (hranked ▸ mem_cons_self))
    rw [belowFloor_iff_head (hsame.trans hranked), hhead, not_lt] at habove
    rw [selectWinner_eq A (hsame.trans hranked), selectWinner_eq A hranked, runnerUpScore_aged haged
      hranked, hhead, scoreAbstains_aged hfactor hle habove]

theorem abstainCause_aged (hfactor : 0 < factor) (hle : factor ≤ 1)
    (haged : ∀ agg ∈ aggs, aged agg = factor * scores agg) (habove : ¬BelowFloor aggs aged) :
    Arbiter.abstainCause aggs aged = Arbiter.abstainCause aggs scores := by
  have hsame := ranked_aged hfactor haged
  cases hranked : ranked scores aggs with
  | nil =>
    have hbelow : BelowFloor aggs aged := fun agg hagg => by
      have := hranked ▸ (mem_ranked scores).mpr hagg
      cases this
    exact absurd hbelow habove
  | cons head rest =>
    have hhead : aged head = factor * scores head :=
      haged head ((mem_ranked scores).mp (hranked ▸ mem_cons_self))
    rw [belowFloor_iff_head (hsame.trans hranked), hhead, not_lt] at habove
    have hbefore := above_of_aged hfactor hle habove
    rw [abstainCause_eq (hsame.trans hranked), abstainCause_eq hranked, runnerUpScore_aged haged
      hranked, hhead, if_neg (not_lt.mpr habove), if_neg (not_lt.mpr hbefore)]
    simp [mul_pos_iff_of_pos_left hfactor, dominates_aged hfactor]

end

/-! ## Two decisions on the same clusters -/

def datedBy (now : Datetime) (agg : ValueAgg) : Bool :=
  match agg.latestAssertedAt with
  | none => true
  | some asserted => decide (asserted ≤ now)

theorem age_add {asserted now later : ℤ} (hdated : asserted ≤ now) (hlater : now ≤ later) :
    (max (later - asserted) 0).toNat = (later - now).toNat + (max (now - asserted) 0).toNat := by
  omega

namespace Arbiter

variable (A : Arbiter K)

variable {now later : Datetime} {aggs : List ValueAgg} {llm : Bool}

variable {agg : ValueAgg} {cache : VerdictCache} {turn : LlmTurn}

omit [IsStrictOrderedRing K] in
theorem recency_aged (hdated : datedBy now agg) (hlater : now ≤ later) :
    A.recency agg.latestAssertedAt later =
      A.decay ^ (later - now).toNat * A.recency agg.latestAssertedAt now := by
  unfold datedBy at hdated
  cases hlatest : agg.latestAssertedAt with
  | none => simp [recency]
  | some asserted =>
    simp only [hlatest, decide_eq_true_eq] at hdated
    simp only [recency]
    rw [age_add hdated hlater, pow_add]

omit [IsStrictOrderedRing K] in
theorem score_aged (hdated : datedBy now agg) (hlater : now ≤ later) :
    A.score aggs later agg = A.decay ^ (later - now).toNat * A.score aggs now agg := by
  unfold score
  rw [A.recency_aged hdated hlater]
  ring

/-- A near tie past its soak, without a winner by weight, which the language
model could not settle: no verdict is cached and none could be obtained. -/
def defers (llm : Bool) (aggs : List ValueAgg) (scores : ValueAgg → K)
    (soaked : Bool) (cache : VerdictCache) (turn : LlmTurn) : Bool :=
  decide (abstainCause aggs scores = some .nearTie) && soaked &&
    (A.selectWeightWinner aggs).isNone && llm &&
    (cache.lookup (evidence aggs)).isNone &&
    (turn.callsLeft == 0 || !turn.affordable || !(llmTiebreak aggs turn.reply).cacheable)

variable {A}

omit [IsStrictOrderedRing K] in
theorem consultLlm_replay
    (hasked : cache.lookup (evidence aggs) = none → turn.callsLeft ≠ 0 ∧ turn.affordable = true ∧
      (llmTiebreak aggs turn.reply).cacheable = true) (again : LlmTurn) :
    (consultLlm aggs (consultLlm aggs cache turn).2 again).1.winner =
      (consultLlm aggs cache turn).1.winner := by
  cases hcached : cache.lookup (evidence aggs) with
  | some verdict =>
    have hkeep : (consultLlm aggs cache turn).2 = cache := by
      simp only [consultLlm, hcached]
      split <;> rfl
    rw [hkeep]
    simp [consultLlm, hcached]
  | none =>
    obtain ⟨hcalls, hafford, hcacheable⟩ := hasked hcached
    set outcome := llmTiebreak aggs turn.reply with houtcome
    have hstored : (consultLlm aggs cache turn).2 =
        (evidence aggs,
          { winnerKey := outcome.winnerKey
            justification := outcome.justification
            modelId := outcome.modelId }) :: cache := by
      simp only [consultLlm, hcached, hcalls, hafford, ← houtcome, hcacheable]
      cases aggOf aggs outcome.winnerKey <;> rfl
    have hfirst : (consultLlm aggs cache turn).1.winner = aggOf aggs outcome.winnerKey := by
      simp only [consultLlm, hcached, hcalls, hafford, ← houtcome]
      cases aggOf aggs outcome.winnerKey <;> rfl
    rw [hstored, hfirst]
    simp only [consultLlm, lookup_cons, beq_self_eq_true]
    cases aggOf aggs outcome.winnerKey <;> rfl

omit [IsStrictOrderedRing K] in
theorem decideGroup_replay {soaked : Bool}
    (hsettled : A.defers llm aggs (A.score aggs now) soaked cache turn = false) (again : LlmTurn) :
    (A.decideGroup llm aggs now soaked
        (A.decideGroup llm aggs now soaked cache turn).2 again).1.winner =
      (A.decideGroup llm aggs now soaked cache turn).1.winner := by
  unfold decideGroup
  cases A.selectWinner aggs (A.score aggs now) with
  | some winner => rfl
  | none =>
    unfold resolveTiebreak
    by_cases hcause : abstainCause aggs (A.score aggs now) = some .nearTie
    · cases soaked with
      | false => simp [hcause]
      | true =>
        cases hweight : A.selectWeightWinner aggs with
        | some winner => simp [hcause]
        | none =>
          cases llm with
          | false => simp [hcause]
          | true =>
            simp only [hcause, ne_eq, not_true_eq_false, if_false,
              Bool.not_true, Bool.false_eq_true, if_true]
            apply consultLlm_replay
            intro hcached
            simpa [defers, hcause, hweight, hcached, and_assoc] using hsettled
    · simp [hcause]

omit [IsStrictOrderedRing K] in
theorem decideGroup_of_not_nearTie (hcause : abstainCause aggs (A.score aggs now) ≠ some .nearTie)
    (other : Bool) (soaked elapsed : Bool) (cache : VerdictCache) (turn : LlmTurn) :
    A.decideGroup llm aggs now soaked cache turn =
      A.decideGroup other aggs now elapsed cache turn := by
  unfold decideGroup resolveTiebreak
  simp [hcause]

theorem decideGroup_of_belowFloor (hbelow : BelowFloor aggs (A.score aggs now))
    (soaked : Bool) (cache : VerdictCache) (turn : LlmTurn) :
    A.decideGroup llm aggs now soaked cache turn = ({}, cache) := by
  unfold decideGroup resolveTiebreak
  rw [selectWinner_of_belowFloor A hbelow, if_pos (abstainCause_of_belowFloor hbelow)]

theorem decideGroup_aged (hdated : ∀ agg ∈ aggs, datedBy now agg = true)
    (hlater : now ≤ later) (habove : ¬BelowFloor aggs (A.score aggs later))
    (soaked : Bool) (cache : VerdictCache) (turn : LlmTurn) :
    A.decideGroup llm aggs later soaked cache turn =
      A.decideGroup llm aggs now soaked cache turn := by
  have hfactor : 0 < A.decay ^ (later - now).toNat := pow_pos A.decay_pos _
  have hle : A.decay ^ (later - now).toNat ≤ 1 := pow_le_one₀ A.decay_pos.le A.decay_le_one
  have haged : ∀ agg ∈ aggs, A.score aggs later agg =
      A.decay ^ (later - now).toNat * A.score aggs now agg :=
    fun agg hagg => A.score_aged (hdated agg hagg) hlater
  unfold decideGroup resolveTiebreak
  rw [selectWinner_aged A hfactor hle haged habove, abstainCause_aged hfactor hle haged habove]

end Arbiter

/-! ## Runs over one group key -/

structure Decided where
  rows : List FactRow
  decidedAt : Datetime
  llm : Bool
  soaked : Bool
  deferred : Bool

structure Watch where
  slot : Slot := {}
  decided : Option Decided := none
  clock : Datetime

/-- A pass visits the group with its current rows, or its sweep collapses it.
Between two labels the facts may change in any way. -/
inductive WatchLabel where
  | visit (rows : List FactRow) (now : Datetime) (llm : Bool) (turn : LlmTurn)
  | sweep (now : Datetime)

def answer (slot : Slot) : Option (Status × Option Uuid) :=
  slot.group.map fun group => (group.status, group.surfacedFactId)

namespace Watch

variable (A : Arbiter K)

def decisionAt (rows : List FactRow) (now : Datetime) (llm : Bool)
    (turn : LlmTurn) (state : Watch) : Decided :=
  let soaked := A.pastSoak (some (Arbiter.openGroup state.slot.group now).openedAt) now
  { rows := rows
    decidedAt := now
    llm := llm
    soaked := soaked
    deferred := A.defers llm (A.nonJunk rows) (A.score (A.nonJunk rows) now)
      soaked state.slot.cache turn }

def step (state : Watch) : WatchLabel → Option Watch
  | .visit rows now llm turn =>
    if now < state.clock then none
    else if A.skips rows now state.slot then
      some { state with clock := now }
    else
      some
        { slot := A.visitGroup llm rows now turn state.slot
          decided := some (decisionAt A rows now llm turn state)
          clock := now }
  | .sweep now =>
    if now < state.clock then none
    else some { state with slot := A.collapseSlot state.slot, clock := now }

/-- At a skip, the answer of a recomputation is the stored one, or the scores
of a surfaced group have fallen below the floor. -/
def Invisible (state : Watch) (label : WatchLabel) (_ : Watch) : Prop :=
  match label with
  | .visit rows now llm turn =>
    A.skips rows now state.slot = true →
      answer (A.processGroup llm rows now turn (A.passFingerprint rows now state.slot) state.slot) =
        answer state.slot ∨
      (answer state.slot).map Prod.fst = some .surfaced ∧
        BelowFloor (A.nonJunk rows) (A.score (A.nonJunk rows) now)
  | .sweep _ => True

/-- The stored answer may stand for the current rows: their clean clusters are
the ones which were decided, none of them was dated in the future, and a near
tie was decided under the same soak state with the language model consulted. -/
def Stands (state : Watch) (rows : List FactRow) (now : Datetime) (llm : Bool)
    (decided : Decided) : Prop :=
  let aggs := A.nonJunk decided.rows
  A.nonJunk rows = aggs ∧
    (∀ agg ∈ aggs, datedBy decided.decidedAt agg = true) ∧
    (Arbiter.abstainCause aggs (A.score aggs decided.decidedAt) = some .nearTie →
      decided.llm = llm ∧ decided.deferred = false ∧
        decided.soaked = A.pastSoak (state.slot.group.map Group.openedAt) now)

def Trusted (state : Watch) (label : WatchLabel) (_ : Watch) : Prop :=
  match label with
  | .visit rows now llm _ =>
    A.skips rows now state.slot = true →
      ∀ decided ∈ state.decided, Stands A state rows now llm decided
  | .sweep _ => True

def answerOf (winner : Option ValueAgg) : Status × Option Uuid :=
  (if winner.isSome then .surfaced else .contested, winner.bind ValueAgg.representativeFactId)

instance (state : Watch) (label : WatchLabel) (next : Watch) :
    Decidable (Invisible A state label next) :=
  match label with
  | .visit _ _ _ _ => inferInstanceAs (Decidable (_ → _ ∨ _ ∧ ∀ _ ∈ _, _))
  | .sweep _ => inferInstanceAs (Decidable True)

variable {A}

variable {llm : Bool} {rows : List FactRow} {now : Datetime}
  {fingerprint : Fingerprint} {state : Watch}

variable {turn : LlmTurn} {slot : Slot} {next : Watch} {label : WatchLabel}
  {decided : Decided}

omit [IsStrictOrderedRing K] in
theorem answer_processGroup (hclusters : 2 ≤ (A.nonJunk rows).length) :
    answer (A.processGroup llm rows now turn fingerprint slot) =
      some (answerOf (A.decideGroup llm (A.nonJunk rows) now
        (A.pastSoak (some (Arbiter.openGroup slot.group now).openedAt) now)
        slot.cache turn).1.winner) := by
  unfold Arbiter.processGroup
  rw [if_neg (not_lt.mpr hclusters)]
  simp [answer, answerOf]

/-- The answer of a group which is not collapsed can be decided again, if the
language model was not put off. -/
structure Replays (A : Arbiter K) (state : Watch) (decided : Decided) : Prop where
  before : decided.decidedAt ≤ state.clock
  clusters : 2 ≤ (A.nonJunk decided.rows).length
  nearTie : decided.deferred = true →
    Arbiter.abstainCause (A.nonJunk decided.rows)
      (A.score (A.nonJunk decided.rows) decided.decidedAt) = some .nearTie
  stored : ∃ winner, answer state.slot = some (answerOf winner) ∧
    (decided.deferred = false → ∀ turn,
      (A.decideGroup decided.llm (A.nonJunk decided.rows) decided.decidedAt
        decided.soaked state.slot.cache turn).1.winner = winner)

def Inv (A : Arbiter K) (state : Watch) : Prop :=
  ∀ group, state.slot.group = some group → group.status ≠ .collapsed →
    ∃ decided, state.decided = some decided ∧ Replays A state decided

omit [IsStrictOrderedRing K] in
theorem inv_start (clock : Datetime) : Inv A { clock := clock } := by
  intro group hgroup
  cases hgroup

omit [IsStrictOrderedRing K] in
theorem not_collapsed_of_skips (hskips : A.skips rows now slot) :
    ∃ group, slot.group = some group ∧ group.status ≠ .collapsed := by
  unfold Arbiter.skips Arbiter.unchanged at hskips
  cases hgroup : slot.group with
  | none => simp [hgroup] at hskips
  | some group =>
    simp only [hgroup, Bool.and_eq_true, decide_eq_true_eq] at hskips
    exact ⟨group, rfl, hskips.2⟩

omit [IsStrictOrderedRing K] in
theorem inv_collapsed (state : Watch) (now : Datetime) :
    Inv A { state with slot := A.collapseSlot state.slot, clock := now } := by
  intro group hgroup hopen
  obtain ⟨prior, _, rfl⟩ := Option.map_eq_some_iff.mp hgroup
  exact absurd rfl hopen

omit [IsStrictOrderedRing K] in
theorem replays_decisionAt (hclusters : 2 ≤ (A.nonJunk rows).length) :
    Replays A
      { slot := A.processGroup llm rows now turn fingerprint state.slot
        decided := some (decisionAt A rows now llm turn state)
        clock := now }
      (decisionAt A rows now llm turn state) where
  before := le_rfl
  clusters := hclusters
  nearTie := by
    intro hdeferred
    simp only [decisionAt, Arbiter.defers, Bool.and_eq_true, decide_eq_true_eq] at hdeferred
    exact hdeferred.1.1.1.1.1
  stored := by
    refine ⟨_, answer_processGroup hclusters, ?_⟩
    intro hsettled again
    have hcache : (A.processGroup llm rows now turn fingerprint
        state.slot).cache =
        (A.decideGroup llm (A.nonJunk rows) now
          (A.pastSoak (some (Arbiter.openGroup state.slot.group now).openedAt) now)
          state.slot.cache turn).2 := by
      unfold Arbiter.processGroup
      rw [if_neg (not_lt.mpr hclusters)]
    rw [hcache]
    exact Arbiter.decideGroup_replay hsettled again

omit [IsStrictOrderedRing K] in
theorem inv_step (hinv : Inv A state) (hstep : step A state label = some next) : Inv A next := by
  cases label with
  | sweep now =>
    simp only [step, Option.ite_none_left_eq_some] at hstep
    obtain ⟨_, hnext⟩ := hstep
    cases hnext
    exact inv_collapsed state now
  | visit rows now llm turn =>
    simp only [step, Option.ite_none_left_eq_some] at hstep
    obtain ⟨hclock, hvisit⟩ := hstep
    split at hvisit
    · cases hvisit
      intro group hgroup hopen
      obtain ⟨decided, hdecided, hreplays⟩ := hinv group hgroup hopen
      refine ⟨decided, hdecided, ?_⟩
      exact ⟨hreplays.before.trans (not_lt.mp hclock), hreplays.clusters,
        hreplays.nearTie, hreplays.stored⟩
    · rename_i hskips
      cases hvisit
      unfold Arbiter.visitGroup
      rw [if_neg hskips]
      by_cases hclusters : (A.nonJunk rows).length < 2
      · unfold Arbiter.processGroup
        rw [if_pos hclusters]
        exact inv_collapsed
          { state with
            decided := some (decisionAt A rows now llm turn state) } now
      · intro group _ _
        exact ⟨_, rfl, replays_decisionAt (not_lt.mp hclusters)⟩

theorem winner_of_stands (hstands : Stands A state rows now llm decided)
    (hnow : decided.decidedAt ≤ now)
    (habove : ¬BelowFloor (A.nonJunk rows) (A.score (A.nonJunk rows) now)) (turn : LlmTurn) :
    A.decideGroup llm (A.nonJunk rows) now
        (A.pastSoak (state.slot.group.map Group.openedAt) now)
        state.slot.cache turn =
      A.decideGroup decided.llm (A.nonJunk decided.rows) decided.decidedAt
        decided.soaked state.slot.cache turn := by
  obtain ⟨haggs, hdated, hnear⟩ := hstands
  rw [haggs] at habove ⊢
  rw [Arbiter.decideGroup_aged hdated hnow habove]
  by_cases hcause : Arbiter.abstainCause (A.nonJunk decided.rows)
      (A.score (A.nonJunk decided.rows) decided.decidedAt) = some .nearTie
  · obtain ⟨hllm, _, hsoaked⟩ := hnear hcause
    rw [hllm, hsoaked]
  · exact Arbiter.decideGroup_of_not_nearTie hcause _ _ _ _ _

omit [IsStrictOrderedRing K] in
theorem deferred_of_stands (hstands : Stands A state rows now llm decided)
    (hreplays : Replays A state decided) : decided.deferred = false := by
  cases hdeferred : decided.deferred with
  | false => rfl
  | true =>
    have hsettled := (hstands.2.2 (hreplays.nearTie hdeferred)).2.1
    exact absurd (hdeferred.symm.trans hsettled) (by simp)

theorem invisible_of_trusted (hinv : Inv A state) (hstep : step A state label = some next)
    (htrusted : Trusted A state label next) : Invisible A state label next := by
  cases label with
  | sweep now => trivial
  | visit rows now llm turn =>
    intro hskips
    simp only [step, Option.ite_none_left_eq_some] at hstep
    obtain ⟨group, hgroup, hopen⟩ := not_collapsed_of_skips hskips
    obtain ⟨decided, hdecided, hreplays⟩ := hinv group hgroup hopen
    have hstands := htrusted hskips decided hdecided
    obtain ⟨winner, hanswer, hreplay⟩ := hreplays.stored
    have hclusters : 2 ≤ (A.nonJunk rows).length := hstands.1 ▸ hreplays.clusters
    have hopened : some (Arbiter.openGroup state.slot.group now).openedAt =
        state.slot.group.map Group.openedAt := by
      simp [hgroup, Arbiter.openGroup, hopen]
    rw [answer_processGroup hclusters, hopened, hanswer]
    by_cases hbelow : BelowFloor (A.nonJunk rows) (A.score (A.nonJunk rows) now)
    · rw [Arbiter.decideGroup_of_belowFloor hbelow]
      cases winner with
      | none => exact Or.inl rfl
      | some winner => exact Or.inr ⟨rfl, hbelow⟩
    · have hnow := hreplays.before.trans (not_lt.mp hstep.1)
      left
      rw [winner_of_stands hstands hnow hbelow, hreplay (deferred_of_stands hstands hreplays)]

instance (state : Watch) (rows : List FactRow) (now : Datetime) (llm : Bool)
    (decided : Decided) : Decidable (Stands A state rows now llm decided) :=
  inferInstanceAs (Decidable (_ ∧ _ ∧ (_ → _)))

instance (state : Watch) (label : WatchLabel) (next : Watch) :
    Decidable (Trusted A state label next) :=
  match label with
  | .visit _ _ _ _ => inferInstanceAs (Decidable (_ → ∀ _ ∈ _, _))
  | .sweep _ => inferInstanceAs (Decidable True)

end Watch

def tiedRows : List FactRow :=
  [disputed 1 "government" 0, disputed 2 "council" 0]

def failedTurn : LlmTurn where
  callsLeft := 10
  affordable := true
  reply := none

def answeringTurn : LlmTurn where
  callsLeft := 10
  affordable := true
  reply := some { winner := "council", why := "newer reports", modelId := none }

namespace Watch

end Watch

end Legba.Contention
