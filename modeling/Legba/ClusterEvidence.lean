import Legba.CorrelatedComponents
import Legba.EventMatcher
import Legba.KeysetPage
import Mathlib.Data.List.AList
import Mathlib.Data.Set.Card

/-!
# Clusters of observations

Only pairs which share an entity, a fact subject, a supplied cosine or a window
of time are scored, and the linked ones are chained.  The rows are walked in
the order of their times, a row without a time in front, so that the walk
through a window stops at the first row out of it.
-/

namespace Legba.EventMatcher

open CorrelatedComponents (pairs)
open JudgeReplies (Text)
open KeysetPage (inOrder)
open List

def pairKey (a b : Uuid) : Uuid × Uuid :=
  if a.toNat ≤ b.toNat then (a, b) else (b, a)

/-- The cosines of pairs of signals, under their canonical keys. -/
structure Cosines where
  scores : AList fun _ : Uuid × Uuid => ℚ
  canonical : ∀ key ∈ scores, pairKey key.1 key.2 = key

/-- `datetime.min` -/
def datetimeMin : ℤ := -62135596800000000

def EventEvidence.position (row : EventEvidence) : ℤ ×ₗ ℕ :=
  toLex (row.fetchedAt.getD datetimeMin, row.id.toNat)

/-! ## The blocked pairs -/

section

variable (canon : Canon) (cosines : Cosines) (rows : List EventEvidence)

/-- The pairs in the buckets of an inverted index. -/
def bucketPairs (tokens : EventEvidence → Finset Text) : Finset (EventEvidence × EventEvidence) :=
  (rows.toFinset.biUnion tokens).biUnion fun token =>
    (pairs (rows.filter fun row => token ∈ tokens row)).toFinset

/-- The rows behind one of this time, up to the first out of the window. -/
def sweep (window : ℚ) (moment : ℤ) : List EventEvidence → List EventEvidence
  | [] => []
  | right :: rest =>
    match right.fetchedAt with
    | none => sweep window moment rest
    | some later =>
      if window ≤ ((later - moment : ℤ) : ℚ) then []
      else right :: sweep window moment rest

def timePairs (window : ℚ) : List EventEvidence → List (EventEvidence × EventEvidence)
  | [] => []
  | left :: rest =>
    match left.fetchedAt with
    | none => timePairs window rest
    | some moment => (sweep window moment rest).map (Prod.mk left) ++ timePairs window rest

def inRowOrder (a b : EventEvidence) : EventEvidence × EventEvidence :=
  if a.position ≤ b.position then (a, b) else (b, a)

/-- `index.get(id)` -/
def rowOf (id : Uuid) : Option EventEvidence :=
  rows.reverse.find? fun row => row.id == id

def cosinePairs : List (EventEvidence × EventEvidence) :=
  cosines.scores.keys.filterMap fun key =>
    (rowOf rows key.1).bind fun left =>
      (rowOf rows key.2).bind fun right =>
        if left = right then none else some (inRowOrder left right)

/-- An hour, in microseconds. -/
def hour : ℚ := 3600000000

/-- `_blocked_in_pairs`; an index stands for its row. -/
def blockedInPairs (windowHours : ℚ) : Finset (EventEvidence × EventEvidence) :=
  let window := max 0 windowHours * hour
  bucketPairs rows (fun row => (prepare canon row).folds) ∪
    bucketPairs rows (fun row => (prepare canon row).subjects) ∪
    (if 0 < window then timePairs window rows else []).toFinset ∪
    (cosinePairs cosines rows).toFinset

end

/-! ## The clusters -/

/-- The pairs of the rows come in the order of their indexes. -/
def admittedPairs (canon : Canon) (cosines : Cosines) (windowHours : ℚ)
    (rows : List EventEvidence) : List (EventEvidence × EventEvidence) :=
  (pairs rows).filter fun pair => pair ∈ blockedInPairs canon cosines rows windowHours

structure EventCluster where
  members : List EventEvidence
  oversized : Bool

structure MatchCounters where
  directionRefused : ℕ
  embeddingLinked : ℕ
  sharedFactLinked : ℕ
  pairsExamined : ℕ
  pairsBlocked : ℤ
  pairsLinked : ℕ
  clusters : ℕ
  oversized : ℕ

section

variable (canon : Canon) (options : Options) (cosines : Cosines)

def pairMatch (a b : EventEvidence) : EventMatch :=
  scorePrepared
    { options with
      embeddingCosine := cosines.scores.lookup (pairKey a.id b.id) }
    (prepare canon a) (prepare canon b)

abbrev Matches := AList fun _ : Uuid × Uuid => EventMatch

def matchesOf (admitted : List (EventEvidence × EventEvidence)) : Matches :=
  admitted.foldl (fun found pair => found.insert (pairKey pair.1.id pair.2.id)
    (pairMatch canon options cosines pair.1 pair.2)) ∅

def smallestId (members : List EventEvidence) : ℕ :=
  ((members.map fun member => member.id.toNat).min?).getD 0

def clusterOf (maxMembers : ℤ) (members : List EventEvidence) : EventCluster where
  members := members.insertionSort fun a b => a.id.toNat ≤ b.id.toNat
  oversized := max 1 maxMembers ≤ members.length

/-- Every run of `find` is given as many steps as there are rows. -/
def clusterEvidence (maxMembers : ℤ) (windowHours : ℚ)
    (evidence : List EventEvidence) :
    Option (List EventCluster × MatchCounters) :=
  let rows := inOrder EventEvidence.position evidence
  let admitted := admittedPairs canon cosines windowHours rows
  let score := fun pair : EventEvidence × EventEvidence =>
    pairMatch canon options cosines pair.1 pair.2
  let found := matchesOf canon options cosines admitted
  match UnionFind.unionAllBy (fun a b => a.position ≤ b.position) rows.length id
      (admitted.filter fun pair => (score pair).linked) with
  | none => none
  | some parent =>
    (UnionFind.collect rows.length parent [] rows).map fun groups =>
      let clusters := ((groups.map Prod.snd).insertionSort fun a b =>
        smallestId a ≤ smallestId b).map (clusterOf maxMembers)
      (clusters,
        { directionRefused := admitted.countP fun pair => (score pair).refusedByDirection
          embeddingLinked := admitted.countP fun pair => (score pair).viaEmbedding
          sharedFactLinked := admitted.countP fun pair => (score pair).viaSharedFacts
          pairsExamined := found.keys.length
          pairsBlocked := ((rows.length * (rows.length - 1) / 2 : ℕ) : ℤ) -
            found.keys.length
          pairsLinked := found.entries.countP fun entry => entry.2.linked
          clusters := clusters.length
          oversized := clusters.countP (·.oversized) })

end

/-! ## The score of a pair has no direction -/

theorem differsByDirectionTokens_comm (ta tb : List Text) :
    differsByDirectionTokens ta tb = differsByDirectionTokens tb ta := by
  unfold differsByDirectionTokens
  by_cases hlength : ta.length = tb.length
  · rw [if_pos hlength, if_pos hlength.symm, ← zip_swap, any_map]
    congr 1
    funext pair
    simp [Bool.or_comm, bne_comm]
  · rw [if_neg hlength, if_neg (Ne.symm hlength), Bool.eq_iff_iff]
    simp [← Bool.not_eq_true, isPerm_iff, perm_comm]

theorem opposedPair_comm (a b : NameProbe) : opposedPair a b = opposedPair b a := by
  rw [Bool.eq_iff_iff]
  simp only [opposedPair, differsByDirectionTokens_comm a.tokens,
    Bool.and_eq_true, bne_iff_ne, beq_iff_eq, and_assoc]
  refine and_congr_right fun _ => ?_
  constructor
  · exact fun hsame => ⟨hsame.2 ▸ hsame.1, hsame.2.symm⟩
  · exact fun hsame => ⟨hsame.2 ▸ hsame.1, hsame.2.symm⟩

theorem opposedCompassStem_comm (left right : Prepared) :
    opposedCompassStem left right = opposedCompassStem right left := by
  have hswap : ∀ first second : List NameProbe,
      (first.any fun a => second.any (opposedPair a)) =
        second.any fun b => first.any (opposedPair b) := by
    intro first second
    rw [Bool.eq_iff_iff]
    simp only [any_eq_true]
    constructor
    · rintro ⟨a, ha, b, hb, hpair⟩
      exact ⟨b, hb, a, ha, opposedPair_comm a b ▸ hpair⟩
    · rintro ⟨b, hb, a, ha, hpair⟩
      exact ⟨a, ha, b, hb, opposedPair_comm b a ▸ hpair⟩
  unfold opposedCompassStem
  rw [hswap, hswap left.nameProbes, Bool.or_comm]

theorem temporalProximity_comm (a b : Option ℤ) :
    temporalProximity a b = temporalProximity b a := by
  cases a with
  | none => cases b <;> rfl
  | some first =>
    cases b with
    | none => rfl
    | some second =>
      have hgap : (first - second).natAbs = (second - first).natAbs := by omega
      simp [temporalProximity, hgap]

theorem scorePrepared_comm (options : Options) (left right : Prepared) :
    scorePrepared options left right = scorePrepared options right left := by
  have hentity : entityOverlap left.folds right.folds = entityOverlap right.folds left.folds := by
    simp [entityOverlap, Finset.inter_comm, Finset.union_comm, or_comm]
  have htitle : titleSimilarity left.title right.title =
      titleSimilarity right.title left.title := by
    simp [titleSimilarity, or_comm, NearDuplicate.normalizedLevenshtein_comm left.title]
  have hcategory : categoryMatch left.terms right.terms = categoryMatch right.terms left.terms := by
    rw [categoryMatch, Finset.inter_comm, categoryMatch]
  have hembedding : embeddingGate options left right = embeddingGate options right left := by
    rw [embeddingGate, embeddingGate, Bool.and_right_comm]
  have hfacts : factGate options left right = factGate options right left := by
    rw [factGate, Finset.inter_comm, factGate]
  simp [scorePrepared, hentity, htitle, hcategory, hembedding, hfacts,
    temporalProximity_comm left.instant, opposedCompassStem_comm left,
    Finset.inter_comm left.subjects, Bool.or_comm left.hasDirection]

theorem pairKey_comm (a b : Uuid) : pairKey a b = pairKey b a := by
  unfold pairKey
  rcases Nat.lt_trichotomy a.toNat b.toNat with hlt | heq | hgt
  · rw [if_pos hlt.le, if_neg (by omega)]
  · rw [BitVec.eq_of_toNat_eq heq]
  · rw [if_neg (by omega), if_pos hgt.le]

theorem pairMatch_comm (canon : Canon) (options : Options) (cosines : Cosines)
    (a b : EventEvidence) :
    pairMatch canon options cosines a b = pairMatch canon options cosines b a := by
  rw [pairMatch, scorePrepared_comm, pairKey_comm, pairMatch]

/-! ## The candidates -/

/-- The pairs worth scoring. -/
def Candidate (canon : Canon) (cosines : Cosines) (windowHours : ℚ) (a b : EventEvidence) : Prop :=
  (∃ fold ∈ entityFolds canon a.entityNames, fold ∈ entityFolds canon b.entityNames) ∨
    (∃ subject ∈ a.factSubjects, subject ∈ b.factSubjects) ∨
    pairKey a.id b.id ∈ cosines.scores ∨
    ∃ s, a.fetchedAt = some s ∧ ∃ t, b.fetchedAt = some t ∧ ((|s - t| : ℤ) : ℚ) < windowHours * hour

section

variable {canon : Canon} {cosines : Cosines} {window windowHours : ℚ}
  {rows : List EventEvidence} {a b : EventEvidence}

theorem Candidate.symm (hcandidate : Candidate canon cosines windowHours a b) :
    Candidate canon cosines windowHours b a := by
  rcases hcandidate with ⟨fold, ha, hb⟩ | ⟨subject, ha, hb⟩ | hkey | ⟨s, ha, t, hb, hgap⟩
  · exact .inl ⟨fold, hb, ha⟩
  · exact .inr (.inl ⟨subject, hb, ha⟩)
  · exact .inr (.inr (.inl (pairKey_comm a.id b.id ▸ hkey)))
  · exact .inr (.inr (.inr ⟨t, hb, s, ha, abs_sub_comm s t ▸ hgap⟩))

theorem id_eq_of_position (heq : a.position = b.position) : a.id = b.id :=
  BitVec.eq_of_toNat_eq (Prod.mk.inj (toLex.injective heq)).2

theorem time_le_of_position_lt {s t : ℤ} (hlt : a.position < b.position)
    (ha : a.fetchedAt = some s) (hb : b.fetchedAt = some t) : s ≤ t := by
  have htimes := Prod.Lex.monotone_fst_ofLex hlt.le
  simpa [EventEvidence.position, ha, hb] using htimes

variable (hsorted : rows.Pairwise fun a b => a.position < b.position)

include hsorted

theorem mem_pairs_iff : (a, b) ∈ pairs rows ↔ a ∈ rows ∧ b ∈ rows ∧ a.position < b.position := by
  induction rows with
  | nil => simp [pairs]
  | cons first rest ih =>
    rw [pairwise_cons] at hsorted
    rw [pairs, mem_append, ih hsorted.2, mem_map]
    constructor
    · rintro (⟨later, hlater, hpair⟩ | ⟨ha, hb, hlt⟩)
      · cases hpair
        exact ⟨mem_cons_self, mem_cons_of_mem _ hlater, hsorted.1 _ hlater⟩
      · exact ⟨mem_cons_of_mem _ ha, mem_cons_of_mem _ hb, hlt⟩
    · rintro ⟨ha, hb, hlt⟩
      rcases mem_cons.mp hb with rfl | hlater
      · rcases mem_cons.mp ha with rfl | hearlier
        · exact absurd hlt (lt_irrefl _)
        · exact absurd hlt (hsorted.1 a hearlier).not_gt
      · rcases mem_cons.mp ha with rfl | hearlier
        · exact .inl ⟨b, hlater, rfl⟩
        · exact .inr ⟨hearlier, hlater, hlt⟩

theorem mem_bucketPairs_iff {tokens : EventEvidence → Finset Text} :
    (a, b) ∈ bucketPairs rows tokens ↔ (a, b) ∈ pairs rows ∧
      ∃ token ∈ tokens a, token ∈ tokens b := by
  simp only [bucketPairs, Finset.mem_biUnion, mem_toFinset, mem_pairs_iff
    hsorted, mem_pairs_iff (hsorted.filter _), mem_filter, decide_eq_true_eq]
  constructor
  · rintro ⟨token, -, ⟨ha, hatoken⟩, ⟨hb, hbtoken⟩, hlt⟩
    exact ⟨⟨ha, hb, hlt⟩, token, hatoken, hbtoken⟩
  · rintro ⟨⟨ha, hb, hlt⟩, token, hatoken, hbtoken⟩
    exact ⟨token, ⟨a, ha, hatoken⟩, ⟨ha, hatoken⟩, ⟨hb, hbtoken⟩, hlt⟩

theorem mem_sweep_iff {moment : ℤ} :
    b ∈ sweep window moment rows ↔ b ∈ rows ∧ ∃ t, b.fetchedAt = some t ∧
      ((t - moment : ℤ) : ℚ) < window := by
  induction rows with
  | nil => simp [sweep]
  | cons right rest ih =>
    rw [pairwise_cons] at hsorted
    rw [sweep, mem_cons]
    cases htime : right.fetchedAt with
    | none =>
      rw [ih hsorted.2, or_and_right, or_iff_right]
      rintro ⟨rfl, t, ht, -⟩
      rw [htime] at ht
      cases ht
    | some later =>
      by_cases hout : window ≤ ((later - moment : ℤ) : ℚ)
      · -- Whatever is behind the first row out of the window is later.
        simp only [if_pos hout, not_mem_nil, false_iff]
        rintro ⟨rfl | hb, t, ht, hin⟩
        · rw [htime] at ht
          cases ht
          exact hin.not_ge hout
        · have hle := time_le_of_position_lt (hsorted.1 b hb) htime ht
          have hcast : ((later - moment : ℤ) : ℚ) ≤ (t - moment : ℤ) := by
            exact_mod_cast Int.sub_le_sub_right hle moment
          exact (hout.trans hcast).not_gt hin
      · simp only [if_neg hout, mem_cons, ih hsorted.2, or_and_right]
        refine or_congr_left ⟨?_, And.left⟩
        rintro rfl
        exact ⟨rfl, later, htime, not_le.mp hout⟩

theorem mem_timePairs_iff :
    (a, b) ∈ timePairs window rows ↔ (a, b) ∈ pairs rows ∧
      ∃ s, a.fetchedAt = some s ∧ ∃ t, b.fetchedAt = some t ∧ ((t - s : ℤ) : ℚ) < window := by
  induction rows with
  | nil => simp [timePairs, pairs]
  | cons left rest ih =>
    rw [pairwise_cons] at hsorted
    rw [timePairs, pairs, mem_append, or_and_right, ← ih hsorted.2]
    cases htime : left.fetchedAt with
    | none =>
      rw [or_iff_right]
      rintro ⟨hmem, s, hs, -⟩
      obtain ⟨later, -, hpair⟩ := mem_map.mp hmem
      cases hpair
      rw [htime] at hs
      cases hs
    | some moment =>
      simp only [mem_append, mem_map, Prod.mk.injEq, mem_sweep_iff hsorted.2]
      refine or_congr_left ?_
      constructor
      · rintro ⟨later, ⟨hlater, t, ht, hin⟩, rfl, rfl⟩
        exact ⟨⟨later, hlater, rfl, rfl⟩, moment, htime, t, ht, hin⟩
      · rintro ⟨⟨later, hlater, rfl, rfl⟩, s, hs, t, ht, hin⟩
        rw [htime] at hs
        cases hs
        exact ⟨later, ⟨hlater, t, ht, hin⟩, rfl, rfl⟩

variable (hids : ∀ a ∈ rows, ∀ b ∈ rows, a.id = b.id → a = b)

include hids

omit hsorted in
theorem rowOf_eq_some_iff {id : Uuid} : rowOf rows id = some a ↔ a ∈ rows ∧ a.id = id := by
  unfold rowOf
  constructor
  · intro hfound
    exact ⟨mem_reverse.mp (mem_of_find?_eq_some hfound), by simpa using find?_some hfound⟩
  · rintro ⟨ha, rfl⟩
    cases hfound : rows.reverse.find? fun row => row.id == a.id with
    | none => exact absurd (beq_self_eq_true a.id) (find?_eq_none.mp hfound a (mem_reverse.mpr ha))
    | some row =>
      exact congrArg some (hids row (mem_reverse.mp (mem_of_find?_eq_some
        hfound)) a ha (by simpa using find?_some hfound))

omit hsorted in
theorem lt_or_lt_of_ne (ha : a ∈ rows) (hb : b ∈ rows) (hne : a ≠ b) :
    a.position < b.position ∨ b.position < a.position := by
  exact lt_or_gt_of_ne fun heq => hne (hids a ha b hb (id_eq_of_position heq))

theorem mem_cosinePairs_iff :
    (a, b) ∈ cosinePairs cosines rows ↔
      (a, b) ∈ pairs rows ∧ pairKey a.id b.id ∈ cosines.scores := by
  simp only [mem_pairs_iff hsorted, cosinePairs, mem_filterMap, Option.bind_eq_some_iff,
    rowOf_eq_some_iff hids, Option.ite_none_left_eq_some, Option.some.injEq]
  constructor
  · rintro ⟨key, hkey, left, ⟨hleft, hfirst⟩, right, ⟨hright, hsecond⟩, hne, hpair⟩
    have hscored : pairKey left.id right.id ∈ cosines.scores := by
      rw [hfirst, hsecond, cosines.canonical key hkey]
      exact hkey
    rcases lt_or_lt_of_ne hids hleft hright hne with hlt | hlt
    · rw [inRowOrder, if_pos hlt.le] at hpair
      cases hpair
      exact ⟨⟨hleft, hright, hlt⟩, hscored⟩
    · rw [inRowOrder, if_neg hlt.not_ge] at hpair
      cases hpair
      exact ⟨⟨hright, hleft, hlt⟩, pairKey_comm b.id a.id ▸ hscored⟩
  · rintro ⟨⟨ha, hb, hlt⟩, hkey⟩
    have hne : a ≠ b := fun heq => hlt.ne (congrArg _ heq)
    refine ⟨pairKey a.id b.id, hkey, ?_⟩
    unfold pairKey
    split
    · exact ⟨a, ⟨ha, rfl⟩, b, ⟨hb, rfl⟩, hne, if_pos hlt.le⟩
    · exact ⟨b, ⟨hb, rfl⟩, a, ⟨ha, rfl⟩, hne.symm, if_neg hlt.not_ge⟩

theorem mem_blockedInPairs_iff :
    (a, b) ∈ blockedInPairs canon cosines rows windowHours ↔
      (a, b) ∈ pairs rows ∧ Candidate canon cosines windowHours a b := by
  have htimed : (a, b) ∈ (if 0 < max 0 windowHours * hour then
      timePairs (max 0 windowHours * hour) rows else []) ↔
      (a, b) ∈ pairs rows ∧ ∃ s, a.fetchedAt = some s ∧
        ∃ t, b.fetchedAt = some t ∧ ((|s - t| : ℤ) : ℚ) < windowHours * hour := by
    have hhour : 0 < hour := by norm_num [hour]
    by_cases hpositive : 0 < windowHours
    · rw [max_eq_right hpositive.le, if_pos (mul_pos hpositive hhour), mem_timePairs_iff hsorted]
      refine and_congr_right fun hpair => exists_congr fun s =>
        and_congr_right fun hs => exists_congr fun t =>
        and_congr_right fun ht => ?_
      rw [abs_sub_comm, abs_of_nonneg (sub_nonneg.mpr (time_le_of_position_lt
        ((mem_pairs_iff hsorted).mp hpair).2.2 hs ht))]
    · rw [not_lt] at hpositive
      rw [max_eq_left hpositive, zero_mul, if_neg (lt_irrefl _)]
      refine iff_of_false not_mem_nil ?_
      rintro ⟨-, s, -, t, -, hgap⟩
      have hbelow := mul_nonpos_of_nonpos_of_nonneg hpositive hhour.le
      have habove : (0 : ℚ) ≤ (|s - t| : ℤ) := by exact_mod_cast abs_nonneg _
      exact (hgap.trans_le hbelow).not_ge habove
  simp only [blockedInPairs, Finset.mem_union, mem_toFinset, mem_bucketPairs_iff
    hsorted, mem_cosinePairs_iff hsorted hids, htimed, ← and_or_left]
  refine and_congr_right fun _ => ?_
  rw [Candidate, or_assoc, or_assoc, @or_comm (pairKey a.id b.id ∈ _)]
  rfl

end

/-! ## Single linkage -/

section

variable (canon : Canon) (options : Options) (cosines : Cosines) (maxMembers : ℤ) (windowHours : ℚ)

/-- Two of the observations are candidates, and their score links them. -/
def Linked (evidence : List EventEvidence) (a b : EventEvidence) : Prop :=
  a ∈ evidence ∧ b ∈ evidence ∧ Candidate canon cosines windowHours a b ∧
    (pairMatch canon options cosines a b).linked = true

/-- The candidates, in the order of their ids. -/
def candidatePairs (evidence : List EventEvidence) : Set (EventEvidence × EventEvidence) :=
  {pair | pair.1 ∈ evidence ∧ pair.2 ∈ evidence ∧
    pair.1.id.toNat < pair.2.id.toNat ∧
    Candidate canon cosines windowHours pair.1 pair.2}

structure SingleLinkage (evidence : List EventEvidence)
    (result : List EventCluster × MatchCounters) : Prop where
  nonempty : ∀ cluster ∈ result.1, cluster.members ≠ []
  partition : (result.1.flatMap EventCluster.members).Perm evidence
  shares_iff : ∀ a ∈ evidence, ∀ b ∈ evidence,
    (∃ cluster ∈ result.1, a ∈ cluster.members ∧ b ∈ cluster.members) ↔
      Relation.EqvGen (Linked canon options cosines windowHours evidence) a b
  examined : result.2.pairsExamined = (candidatePairs canon cosines windowHours evidence).ncard
  total : result.2.pairsExamined + result.2.pairsBlocked =
    ((evidence.length * (evidence.length - 1) / 2 : ℕ) : ℤ)

variable {canon options cosines} {evidence rows : List EventEvidence}
  {a b : EventEvidence}

theorem mem_matchesOf_iff {key : Uuid × Uuid} {admitted : List (EventEvidence × EventEvidence)} :
    key ∈ matchesOf canon options cosines admitted ↔
      ∃ pair ∈ admitted, pairKey pair.1.id pair.2.id = key := by
  have hfold : ∀ found : Matches, key ∈ admitted.foldl (fun found pair =>
      found.insert (pairKey pair.1.id pair.2.id)
        (pairMatch canon options cosines pair.1 pair.2)) found ↔
      key ∈ found ∨ ∃ pair ∈ admitted, pairKey pair.1.id pair.2.id = key := by
    induction admitted with
    | nil => simp
    | cons pair rest ih =>
      intro found
      rw [foldl_cons, ih, AList.mem_insert, exists_mem_cons_iff,
        @eq_comm _ key, or_comm (a := _ = key), or_assoc]
  simpa [matchesOf] using hfold ∅

section

variable (hsorted : rows.Pairwise fun a b => a.position < b.position)
  (hids : ∀ a ∈ rows, ∀ b ∈ rows, a.id = b.id → a = b)

include hsorted hids

theorem mem_admitted_iff :
    (a, b) ∈ admittedPairs canon cosines windowHours rows ↔
      (a ∈ rows ∧ b ∈ rows ∧ a.position < b.position) ∧
        Candidate canon cosines windowHours a b := by
  rw [admittedPairs, mem_filter, decide_eq_true_eq,
    mem_blockedInPairs_iff hsorted hids, mem_pairs_iff hsorted, and_self_left]

theorem eqvGen_linked_iff :
    Relation.EqvGen (fun a b => (a, b) ∈
        (admittedPairs canon cosines windowHours rows).filter fun pair =>
          (pairMatch canon options cosines pair.1 pair.2).linked) a b ↔
      Relation.EqvGen (Linked canon options cosines windowHours rows) a b := by
  simp only [mem_filter (p := fun pair : _ × _ => EventMatch.linked _),
    mem_admitted_iff windowHours hsorted hids]
  constructor
  · refine UnionFind.eqvGen_of_forall fun a b hlinked => .rel _ _ ?_
    exact ⟨hlinked.1.1.1, hlinked.1.1.2.1, hlinked.1.2, hlinked.2⟩
  · refine UnionFind.eqvGen_of_forall fun a b hlinked => ?_
    obtain ⟨ha, hb, hcandidate, hscore⟩ := hlinked
    by_cases heq : a = b
    · exact heq ▸ .refl a
    · rcases lt_or_lt_of_ne hids ha hb heq with hlt | hlt
      · exact .rel _ _ ⟨⟨⟨ha, hb, hlt⟩, hcandidate⟩, hscore⟩
      · exact .symm _ _ (.rel _ _ ⟨⟨⟨hb, ha, hlt⟩, hcandidate.symm⟩,
          pairMatch_comm canon options cosines a b ▸ hscore⟩)

theorem examined_eq_ncard :
    (matchesOf canon options cosines (admittedPairs canon cosines windowHours rows)).keys.length =
      (candidatePairs canon cosines windowHours rows).ncard := by
  have hinj : Set.InjOn (fun pair : EventEvidence × EventEvidence =>
      (pair.1.id, pair.2.id))
      (candidatePairs canon cosines windowHours rows) := by
    rintro ⟨a, b⟩ hpair ⟨c, d⟩ hother heq
    rw [Prod.mk.injEq] at heq
    rw [hids a hpair.1 c hother.1 heq.1, hids b hpair.2.1 d hother.2.1 heq.2]
  rw [← hinj.ncard_image, ← toFinset_card_of_nodup (AList.keys_nodup _), ← Set.ncard_coe_finset]
  congr 1
  ext key
  rw [Finset.mem_coe, mem_toFinset, ← AList.mem_keys, mem_matchesOf_iff]
  constructor
  · rintro ⟨⟨a, b⟩, hpair, rfl⟩
    obtain ⟨⟨ha, hb, hlt⟩, hcandidate⟩ := (mem_admitted_iff windowHours hsorted hids).mp hpair
    have hne : a.id.toNat ≠ b.id.toNat := fun heq => hlt.ne
      (congrArg _ (hids a ha b hb (BitVec.eq_of_toNat_eq heq)))
    unfold pairKey
    split
    · rename_i hle
      exact ⟨(a, b), ⟨ha, hb, lt_of_le_of_ne hle hne, hcandidate⟩, rfl⟩
    · rename_i hle
      exact ⟨(b, a), ⟨hb, ha, lt_of_not_ge hle, hcandidate.symm⟩, rfl⟩
  · rintro ⟨⟨a, b⟩, ⟨ha, hb, hlt, hcandidate⟩, rfl⟩
    have hkey : pairKey a.id b.id = (a.id, b.id) := if_pos hlt.le
    have hne : a ≠ b := fun heq => hlt.ne (congrArg (·.id.toNat) heq)
    rcases lt_or_lt_of_ne hids ha hb hne with hbefore | hbefore
    · exact ⟨(a, b), (mem_admitted_iff windowHours hsorted hids).mpr
        ⟨⟨ha, hb, hbefore⟩, hcandidate⟩, hkey⟩
    · exact ⟨(b, a), (mem_admitted_iff windowHours hsorted hids).mpr
        ⟨⟨hb, ha, hbefore⟩, hcandidate.symm⟩, pairKey_comm b.id a.id ▸ hkey⟩

end

theorem mem_members_clusterOf {members : List EventEvidence} :
    a ∈ (clusterOf maxMembers members).members ↔ a ∈ members :=
  mem_insertionSort _

variable (hids : (evidence.map EventEvidence.id).Nodup)

include hids

theorem inOrder_sorted :
    (inOrder EventEvidence.position evidence).Pairwise
      fun a b => a.position < b.position := by
  have hperm := @KeysetPage.inOrder_perm _ _ _ _ _ EventEvidence.position evidence
  have hdistinct := pairwise_map.mp ((hperm.map _).nodup_iff.mpr hids)
  refine ((KeysetPage.inOrder_pairwise EventEvidence.position evidence).and
    hdistinct).imp fun hboth => lt_of_le_of_ne hboth.1 fun heq => hboth.2 (id_eq_of_position heq)

theorem inOrder_eq_of_perm {reordered : List EventEvidence} (hperm : reordered.Perm evidence) :
    inOrder EventEvidence.position reordered = inOrder EventEvidence.position evidence := by
  refine Perm.eq_of_pairwise (fun a b ha hb hab hba => ?_)
    (KeysetPage.inOrder_pairwise _ _) (KeysetPage.inOrder_pairwise _ _)
    (((KeysetPage.inOrder_perm _).trans hperm).trans
      (KeysetPage.inOrder_perm _).symm)
  exact inj_on_of_nodup_map hids (hperm.mem_iff.mp (KeysetPage.mem_inOrder.mp ha))
    (KeysetPage.mem_inOrder.mp hb) (id_eq_of_position (le_antisymm hab hba))

end

end Legba.EventMatcher
