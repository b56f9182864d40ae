import Legba.JudgeReplies
import Legba.NormalizedLevenshtein
import Legba.RegexScan
import Legba.RowOrder
import Legba.UnionFind
import Mathlib.Data.List.Sort

/-!
# Cross-source coalescing

Signals of different sources are one observation when their texts are close,
they were fetched within a window and their titles agree.  Each row is compared
with the nearest ten of the other sources.  The nearest are taken before the
window and the titles are asked for, so a related row is not reached from a row
with ten nearer ones.
-/

namespace Legba.CrossSourceCoalesce

open JudgeReplies (isSpace)
open RegexScan
open UnionFind (unionAll collect)
open List

structure Row where
  sourceId : String
  fetchedAt : Option ℤ
  title : Text

variable {Id : Type} [LinearOrder Id] {S : Type} [LinearOrder S]

/-- The rows by their ids, the ids which have a vector, the similarity of two
vectors, and the options; times are in microseconds. -/
structure Pool (Id S : Type) where
  row : Id → Row
  hasVector : Id → Bool
  cosine : Id → Id → S
  zero : S
  round : S → S
  lower : Text → Text
  semanticThreshold : S
  titleDistanceThreshold : ℚ
  windowHours : ℤ

/-- `_STRIP_HTML_RE` -/
def htmlTag : Pattern where
  pieces := [one (· == '<'), several (· != '>'), one (· == '>')]
  solid := solid_of_one

namespace Pool

variable (pool : Pool Id S)

def normalizedTitle (text : Text) : Text :=
  pool.lower (Words.strip isSpace (Words.collapse isSpace ' ' (htmlTag.sub (fun _ => [' ']) text)))

def titlesClose (a b : Text) : Bool :=
  let na := pool.normalizedTitle a
  let nb := pool.normalizedTitle b
  !na.isEmpty && !nb.isEmpty && decide
    (NearDuplicate.normalizedLevenshtein na nb < pool.titleDistanceThreshold)

def withinWindow (a b : Option ℤ) : Bool :=
  match a, b with
  | some da, some db => decide ((da - db).natAbs ≤ pool.windowHours * 3600 * 1000000)
  | _, _ => false

/-- `datetime.max` -/
def latest : ℤ := 253402300799999999

/-- The order of `_pick_canonical`. -/
def before (a b : Id) : Bool :=
  let first := (pool.row a).fetchedAt.getD latest
  let second := (pool.row b).fetchedAt.getD latest
  decide (first < second ∨ first = second ∧ a < b)

def semanticTopK : ℕ := 10

/-- The other sources' rows, the nearest first. -/
def nearer (a b : S × Id) : Prop := b.1 < a.1 ∨ a.1 = b.1 ∧ a.2 ≤ b.2

instance : DecidableRel (@nearer Id _ S _) := fun a b =>
  inferInstanceAs (Decidable (b.1 < a.1 ∨ a.1 = b.1 ∧ a.2 ≤ b.2))

def scored (ids : List Id) (i : Id) : List (S × Id) :=
  ((ids.filter fun j =>
      j ≠ i ∧ (pool.row i).sourceId ≠ (pool.row j).sourceId).map fun j =>
    (pool.cosine i j, j)).insertionSort nearer

def guarded (i j : Id) : Bool :=
  pool.withinWindow (pool.row i).fetchedAt (pool.row j).fetchedAt &&
    pool.titlesClose (pool.row i).title (pool.row j).title

def neighbours (ids : List Id) (i : Id) : List (S × Id) :=
  (((pool.scored ids i).take semanticTopK).takeWhile fun entry =>
    pool.semanticThreshold ≤ entry.1).filter fun entry => pool.guarded i entry.2

/-- The pairs which are united, with their scores. -/
def links (ids : List Id) : List ((Id × Id) × S) :=
  ids.flatMap fun i => (pool.neighbours ids i).map fun entry => ((i, entry.2), entry.1)

structure DuplicateSet (Id S : Type) where
  canonical : Id
  aliases : List Id
  score : S

def setOf (links : List ((Id × Id) × S)) (members : List Id) : Option (DuplicateSet Id S) :=
  if members.length < 2 ∨ (members.map fun i => (pool.row i).sourceId).dedup.length < 2 then none
  else
    (RowOrder.firstBy pool.before members).map fun canonical =>
      let scores := (links.filter fun link =>
        members.contains link.1.1 && members.contains link.1.2).map fun link => max pool.zero link.2
      ⟨canonical, (members.filter (· ≠ canonical)).insertionSort (· ≤ ·),
        pool.round (match scores with
          | [] => pool.semanticThreshold
          | score :: rest => rest.foldl max score)⟩

/-- `_coalesce_pairs`.  Of two roots the smaller is kept in the code, which the
groups do not show. -/
def coalescePairs (rowIds : List Id) : Option (List (DuplicateSet Id S)) :=
  let ids := rowIds.filter pool.hasVector
  let links := pool.links ids
  match unionAll ids.length id (links.map Prod.fst) with
  | none => none
  | some parent => (collect ids.length parent [] ids).map fun groups =>
    (groups.filterMap fun group => pool.setOf links group.2).insertionSort
      fun a b => a.canonical ≤ b.canonical

/-- The declared relation. -/
def Related (ids : List Id) (i j : Id) : Prop :=
  i ∈ ids ∧ j ∈ ids ∧ (pool.row i).sourceId ≠ (pool.row j).sourceId ∧
    pool.semanticThreshold ≤ pool.cosine i j ∧ pool.guarded i j

/-- What the code unites: `j` is one of the nearest of `i`. -/
def Reached (ids : List Id) (i j : Id) : Prop :=
  pool.Related ids i j ∧ (pool.cosine i j, j) ∈ (pool.scored ids i).take semanticTopK

/-- A component of members of at least two sources. -/
def IsComponent (ids : List Id) (relation : Id → Id → Prop) (members : Finset Id) : Prop :=
  ∃ a ∈ ids, (∀ b, b ∈ members ↔ b ∈ ids ∧ Relation.EqvGen relation a b) ∧
    ∃ b ∈ members, ∃ c ∈ members, (pool.row b).sourceId ≠ (pool.row c).sourceId

variable {pool}

variable {ids : List Id} {entry : S × Id}

theorem mem_scored {i : Id} :
    entry ∈ pool.scored ids i ↔ entry.2 ∈ ids ∧ entry.2 ≠ i ∧
      (pool.row i).sourceId ≠ (pool.row entry.2).sourceId ∧
      entry.1 = pool.cosine i entry.2 := by
  obtain ⟨score, j⟩ := entry
  simp only [scored, mem_insertionSort, mem_map, mem_filter, decide_eq_true_eq, Prod.mk.injEq]
  constructor
  · rintro ⟨j, ⟨hj, hne, hsource⟩, rfl, rfl⟩
    exact ⟨hj, hne, hsource, rfl⟩
  · rintro ⟨hj, hne, hsource, rfl⟩
    exact ⟨j, ⟨hj, hne, hsource⟩, rfl, rfl⟩

theorem falling_scored (ids : List Id) (i : Id) :
    (pool.scored ids i).Pairwise fun a b => b.1 ≤ a.1 := by
  have htotal : Std.Total (@nearer Id _ S _) := ⟨fun a b => by
    rcases lt_trichotomy a.1 b.1 with hlt | heq | hgt
    · exact .inr (.inl hlt)
    · exact (le_total a.2 b.2).imp (fun hle => .inr ⟨heq, hle⟩)
        fun hle => .inr ⟨heq.symm, hle⟩
    · exact .inl (.inl hgt)⟩
  have htrans : IsTrans (S × Id) nearer := ⟨fun a b c hab hbc => by
    rcases hab with hab | ⟨hab, hle⟩
    · rcases hbc with hbc | ⟨hbc, -⟩
      · exact .inl (hbc.trans hab)
      · exact .inl (hbc ▸ hab)
    · rcases hbc with hbc | ⟨hbc, hle'⟩
      · exact .inl (hab ▸ hbc)
      · exact .inr ⟨hab.trans hbc, hle.trans hle'⟩⟩
  refine (pairwise_insertionSort nearer _).imp ?_
  rintro a b (hlt | ⟨heq, -⟩)
  · exact hlt.le
  · exact heq.ge

theorem mem_takeWhile_of_falling {α : Type} {entries : List α} {p : α → Bool}
    (hfalling : entries.Pairwise fun a b => p b = true → p a = true) {x : α} :
    x ∈ entries.takeWhile p ↔ x ∈ entries ∧ p x = true := by
  induction entries with
  | nil => simp
  | cons first rest ih =>
    obtain ⟨hfirst, hrest⟩ := pairwise_cons.mp hfalling
    cases hp : p first with
    | true => rw [takeWhile_cons_of_pos hp]; aesop
    | false =>
      rw [takeWhile_cons_of_neg (by simp [hp])]
      aesop

/-- The floor is asked for of a list in falling order, so the loop stops
behind the last which clears it. -/
theorem mem_neighbours {i : Id} :
    entry ∈ pool.neighbours ids i ↔
      (entry ∈ (pool.scored ids i).take semanticTopK ∧
        pool.semanticThreshold ≤ entry.1) ∧ pool.guarded i entry.2 = true := by
  have hfalling := ((pool.falling_scored ids i).sublist
    (take_sublist semanticTopK _)).imp fun {a b} hle =>
      show decide (pool.semanticThreshold ≤ b.1) = true →
        decide (pool.semanticThreshold ≤ a.1) = true by
      simpa using fun hb => hb.trans hle
  rw [neighbours, mem_filter, mem_takeWhile_of_falling hfalling, decide_eq_true_eq]

theorem mem_links {i j : Id} : (i, j) ∈ (pool.links ids).map Prod.fst ↔ pool.Reached ids i j := by
  simp only [links, map_flatMap, map_map, mem_flatMap,
    mem_map, Function.comp_apply, Prod.mk.injEq, mem_neighbours]
  constructor
  · rintro ⟨i, hi, entry, ⟨⟨htake, hfloor⟩, hguard⟩, rfl, rfl⟩
    obtain ⟨hj, -, hsource, hscore⟩ := mem_scored.mp (mem_of_mem_take htake)
    rw [hscore] at hfloor
    refine ⟨⟨hi, hj, hsource, hfloor, hguard⟩, ?_⟩
    rwa [← hscore]
  · rintro ⟨⟨hi, -, -, hfloor, hguard⟩, htake⟩
    exact ⟨i, hi, _, ⟨⟨htake, hfloor⟩, hguard⟩, rfl, rfl⟩

omit [LinearOrder S] in
theorem before_isStrictOrder : RowOrder.IsStrictOrder pool.before := by
  constructor
  · intro a b
    simp only [before, decide_eq_true_eq, decide_eq_false_iff_not]
    rintro (hlt | ⟨heq, hlt⟩) (hgt | ⟨heq', hgt⟩)
    · exact lt_asymm hlt hgt
    · exact hlt.ne' heq'
    · exact hgt.ne' heq
    · exact lt_asymm hlt hgt
  · intro a b c
    simp only [before, decide_eq_true_eq]
    have htime := lt_trichotomy ((pool.row a).fetchedAt.getD latest)
      ((pool.row c).fetchedAt.getD latest)
    have hid := lt_trichotomy a c
    grind

omit [LinearOrder Id] [LinearOrder S] in
theorem two_sources {members : List Id} :
    2 ≤ (members.map fun i => (pool.row i).sourceId).dedup.length ↔
      ∃ b ∈ members, ∃ c ∈ members, (pool.row b).sourceId ≠ (pool.row c).sourceId := by
  rw [← card_toFinset]
  have hone := Finset.one_lt_card (s := (members.map fun i => (pool.row i).sourceId).toFinset)
  simp only [mem_toFinset, mem_map] at hone
  refine hone.trans ⟨?_, ?_⟩
  · rintro ⟨_, ⟨b, hb, rfl⟩, _, ⟨c, hc, rfl⟩, hne⟩
    exact ⟨b, hb, c, hc, hne⟩
  · rintro ⟨b, hb, c, hc, hne⟩
    exact ⟨_, ⟨b, hb, rfl⟩, _, ⟨c, hc, rfl⟩, hne⟩

def DuplicateSet.members (set : DuplicateSet Id S) : Finset Id :=
  insert set.canonical set.aliases.toFinset

theorem setOf_spec {links : List ((Id × Id) × S)} {members : List Id} :
    (∀ set, pool.setOf links members = some set →
      set.members = members.toFinset ∧ set.canonical ∉ set.aliases ∧
        ∀ b ∈ set.aliases, pool.before b set.canonical = false) ∧
    ((pool.setOf links members).isSome = true ↔
      ∃ b ∈ members, ∃ c ∈ members, (pool.row b).sourceId ≠ (pool.row c).sourceId) := by
  rw [← two_sources, setOf]
  by_cases hsmall : members.length < 2 ∨
      (members.map fun i => (pool.row i).sourceId).dedup.length < 2
  · rw [if_pos hsmall]
    refine ⟨nofun, iff_of_false (by simp) ?_⟩
    have hle := (dedup_sublist (members.map fun i => (pool.row i).sourceId)).length_le
    rw [length_map] at hle
    omega
  · rw [if_neg hsmall]
    constructor
    · intro set hset
      obtain ⟨canonical, hfirst, rfl⟩ := Option.map_eq_some_iff.mp hset
      refine ⟨?_, ?_, ?_⟩
      · ext b
        have hmem := RowOrder.firstBy_mem hfirst
        simp only [DuplicateSet.members, Finset.mem_insert, mem_toFinset,
          mem_insertionSort, mem_filter, decide_eq_true_eq]
        constructor
        · rintro (rfl | hb)
          · exact hmem
          · exact hb.1
        · exact fun hb => or_iff_not_imp_left.mpr fun hne => ⟨hb, hne⟩
      · simp
      · intro b hb
        simp only [mem_insertionSort, mem_filter] at hb
        exact before_isStrictOrder.not_before hfirst hb.1
    · obtain ⟨first, rest, rfl⟩ : ∃ first rest, members = first :: rest := by
        cases members with
        | nil => simp at hsmall
        | cons first rest => exact ⟨first, rest, rfl⟩
      obtain ⟨canonical, hfirst⟩ := RowOrder.firstBy_isSome pool.before (mem_cons_self (l := rest))
      rw [hfirst]
      exact iff_of_true rfl (by omega)

omit [LinearOrder Id] [LinearOrder S] in
theorem isComponent_iff {sub relation : Id → Id → Prop} (hsub : ∀ i j, sub i j → relation i j)
    (hrelation : ∀ i j, relation i j → i ∈ ids ∧ j ∈ ids ∧ (pool.row i).sourceId ≠ (pool.row
      j).sourceId) :
    (∀ members, pool.IsComponent ids sub members ↔ pool.IsComponent ids relation members) ↔
      ∀ i j, relation i j → Relation.EqvGen sub i j := by
  classical
  constructor
  · intro hsame i j hij
    obtain ⟨hi, hj, hsource⟩ := hrelation i j hij
    have hmem (b : Id) :
        b ∈ ids.toFinset.filter (Relation.EqvGen relation i) ↔
          b ∈ ids ∧ Relation.EqvGen relation i b := by
      rw [Finset.mem_filter, mem_toFinset]
    obtain ⟨a, -, hclass, -⟩ := (hsame _).mpr ⟨i, hi, hmem, i,
      (hmem i).mpr ⟨hi, .refl i⟩, j, (hmem j).mpr ⟨hj, .rel i j hij⟩, hsource⟩
    have hleft := ((hclass i).mp ((hmem i).mpr ⟨hi, .refl i⟩)).2
    have hright := ((hclass j).mp ((hmem j).mpr ⟨hj, .rel i j hij⟩)).2
    exact hleft.symm.trans _ _ _ hright
  · intro hgen members
    have hchains (a b : Id) : Relation.EqvGen sub a b ↔ Relation.EqvGen relation a b :=
      ⟨UnionFind.eqvGen_of_forall fun i j hij => .rel i j (hsub i j hij),
        UnionFind.eqvGen_of_forall hgen⟩
    simp [IsComponent, hchains]

/-- The sets returned are the components of the declared relation if and only
if the pairs reached from a row's nearest chain together whatever is related. -/
theorem coalescePairs_components_iff (pool : Pool Id S) (rowIds : List Id) :
    let ids := rowIds.filter pool.hasVector
    ∃ sets, pool.coalescePairs rowIds = some sets ∧
      (∀ set ∈ sets, set.canonical ∉ set.aliases ∧
        ∀ b ∈ set.aliases, pool.before b set.canonical = false) ∧
      (∀ set ∈ sets, ∀ other ∈ sets, ∀ b ∈ set.members, b ∈ other.members → set = other) ∧
      ((∀ members, (∃ set ∈ sets, set.members = members) ↔
          pool.IsComponent ids (pool.Related ids) members) ↔
        ∀ i j, pool.Related ids i j → Relation.EqvGen (pool.Reached ids) i j) := by
  intro ids
  obtain ⟨parent, groups, hparent, hgroups, hperm, hunique, hclasses⟩ :=
    UnionFind.exists_classes (fun _ _ => false) fun pair
      (hpair : pair ∈ (pool.links ids).map Prod.fst) =>
        show pair.1 ∈ ids ∧ pair.2 ∈ ids from
          have hreached := mem_links.mp hpair
          ⟨hreached.1.1, hreached.1.2.1⟩
  simp only [mem_links] at hclasses
  obtain ⟨sets, hsets, hmem⟩ : ∃ sets, pool.coalescePairs rowIds = some sets ∧
      ∀ set, set ∈ sets ↔ ∃ group ∈ groups, pool.setOf (pool.links ids) group.2 = some set := by
    refine ⟨(groups.filterMap fun group => pool.setOf (pool.links ids)
      group.2).insertionSort fun a b => a.canonical ≤ b.canonical, ?_, ?_⟩
    · simp only [coalescePairs]
      rw [UnionFind.unionAll_eq_unionAllBy, hparent]
      exact (congrArg (Option.map _) hgroups :)
    · intro set
      rw [mem_insertionSort, mem_filterMap]
  refine ⟨sets, hsets, ?_, ?_, ?_⟩
  · intro set hset
    obtain ⟨group, -, hset⟩ := (hmem set).mp hset
    exact (setOf_spec.1 set hset).2
  · intro set hset other hother b hb hb'
    obtain ⟨group, hgroup, hset⟩ := (hmem set).mp hset
    obtain ⟨group', hgroup', hother⟩ := (hmem other).mp hother
    rw [(setOf_spec.1 set hset).1, mem_toFinset] at hb
    rw [(setOf_spec.1 other hother).1, mem_toFinset] at hb'
    rw [hunique group hgroup group' hgroup' b hb hb', hother] at hset
    exact (Option.some.inj hset).symm
  · rw [← isComponent_iff (fun _ _ hreached => hreached.1)
      fun i j hij => ⟨hij.1, hij.2.1, hij.2.2.1⟩]
    refine forall_congr' fun members => ?_
    suffices hcomponent : (∃ set ∈ sets, set.members = members) ↔
        pool.IsComponent ids (pool.Reached ids) members by
      rw [hcomponent]
    constructor
    · rintro ⟨set, hset, rfl⟩
      obtain ⟨group, hgroup, hset⟩ := (hmem set).mp hset
      obtain ⟨hne, hclass⟩ := hclasses group hgroup
      obtain ⟨a, ha⟩ := exists_mem_of_ne_nil _ hne
      have hsources := setOf_spec.2.mp (Option.isSome_of_mem hset)
      rw [(setOf_spec.1 set hset).1]
      simp only [IsComponent, mem_toFinset]
      exact ⟨a, ((hclass a ha a).mp ha).1, hclass a ha, hsources⟩
    · rintro ⟨a, ha, hclass, hsources⟩
      obtain ⟨_, hblock, hmema⟩ := mem_flatten.mp (hperm.mem_iff.mpr ha)
      obtain ⟨group, hgroup, rfl⟩ := mem_map.mp hblock
      have hmembers (b : Id) : b ∈ members ↔ b ∈ group.2 :=
        (hclass b).trans ((hclasses group hgroup).2 a hmema b).symm
      simp only [hmembers] at hsources
      obtain ⟨set, hset⟩ := Option.isSome_iff_exists.mp (setOf_spec.2.mpr hsources)
      refine ⟨set, (hmem set).mpr ⟨group, hgroup, hset⟩, ?_⟩
      ext b
      rw [(setOf_spec.1 set hset).1, mem_toFinset, hmembers]

/-- Rows 0 and 1 agree; ten rows without a title are nearer to both. -/
def crowded : Pool ℕ ℕ where
  row i := ⟨toString i, some 0, if i < 2 then ['a'] else []⟩
  hasVector _ := true
  cosine i j := if i < 2 ∧ j < 2 then 1 else 2
  zero := 0
  round score := score
  lower text := text
  semanticThreshold := 1
  titleDistanceThreshold := 1 / 2
  windowHours := 24

theorem crowded_pair_missed :
    crowded.Related (List.range 12) 0 1 ∧
      (crowded.coalescePairs (List.range 12)).map List.length = some 0 := by
  refine ⟨⟨by decide, by decide, by decide +kernel, by decide, ?_⟩, ?_⟩ <;> decide +kernel

end Pool
end Legba.CrossSourceCoalesce
