import Legba.NormalizedLevenshtein

/-!
# Clustering of fact values

A value joins the first cluster whose representative it is close to and opens
a cluster of its own where there is none.  The representative is the first
value of the cluster, so the values of a cluster are close to it but need not
be close to each other.

The entity canon, the joining of blanks and the case mapping are parameters.
-/

namespace Legba.ValueClustering

open NearDuplicate List Nat

/-- `joinBlanks` is `" ".join(text.split())`, and `canonicalizeEntity` the name
the entity canon gives a mention of the default class. -/
structure ValueText where
  joinBlanks : String → String
  canonicalizeEntity : String → String
  lower : String → String

def fuzzyMergeMaxDistance : ℚ := 12 / 100

def valueAliasMap : List (String × String) :=
  [("kiev", "Kyiv"), ("kyiv", "Kyiv"), ("peking", "Beijing"),
    ("beijing", "Beijing"), ("bombay", "Mumbai"), ("mumbai", "Mumbai"),
    ("calcutta", "Kolkata"), ("kolkata", "Kolkata"),
    ("saigon", "Ho Chi Minh City"), ("rangoon", "Yangon"),
    ("yangon", "Yangon")]

structure ValueCluster where
  key : String
  members : List ℕ
  canonicalKeys : List String

def levenshtein (a b : String) : ℚ := normalizedLevenshtein a.toList b.toList

def SameClaim (ckey rep : String) : Prop :=
  ckey = rep ∨ levenshtein ckey rep ≤ fuzzyMergeMaxDistance

instance (ckey rep : String) : Decidable (SameClaim ckey rep) :=
  inferInstanceAs (Decidable (_ ∨ _))

def ValueCluster.rep (cluster : ValueCluster) : String :=
  cluster.canonicalKeys.headD ""

def ValueCluster.join (cluster : ValueCluster) (idx : ℕ) (ckey : String) :
    ValueCluster :=
  { cluster with
    members := cluster.members ++ [idx]
    canonicalKeys := cluster.canonicalKeys ++ [ckey] }

def place (idx : ℕ) (ckey : String) : List ValueCluster → List ValueCluster
  | [] => [{ key := ckey, members := [idx], canonicalKeys := [ckey] }]
  | cluster :: rest =>
    if SameClaim ckey cluster.rep then cluster.join idx ckey :: rest
    else cluster :: place idx ckey rest

section

variable (text : ValueText)

def canonicalValueKey (value : String) : String :=
  let raw := text.joinBlanks value
  if raw = "" then ""
  else
    let canon := text.canonicalizeEntity raw
    let canon := if canon = "" then raw else canon
    let folded := (valueAliasMap.lookup (text.lower canon)).getD canon
    text.lower folded

/-- The loop over the values from index `idx` on. -/
def clusterFrom : List String → ℕ → List ValueCluster → List ValueCluster
  | [], _, clusters => clusters
  | raw :: rest, idx, clusters =>
    clusterFrom rest (idx + 1) (place idx (canonicalValueKey text raw) clusters)

def clusterValues (values : List String) : List ValueCluster :=
  clusterFrom text values 0 []

end

theorem sameClaim_comm {a b : String} : SameClaim a b ↔ SameClaim b a := by
  unfold SameClaim levenshtein
  rw [eq_comm, normalizedLevenshtein_comm]

theorem place_cases (idx : ℕ) (ckey : String) (clusters : List ValueCluster) :
    (∃ before cluster after, clusters = before ++ cluster :: after ∧
      SameClaim ckey cluster.rep ∧
      place idx ckey clusters = before ++ cluster.join idx ckey :: after) ∨
    ((∀ cluster ∈ clusters, ¬ SameClaim ckey cluster.rep) ∧
      place idx ckey clusters = clusters ++ [⟨ckey, [idx], [ckey]⟩]) := by
  induction clusters with
  | nil => exact .inr ⟨by simp, rfl⟩
  | cons cluster rest ih =>
    unfold place
    by_cases hsame : SameClaim ckey cluster.rep
    · rw [if_pos hsame]
      exact .inl ⟨[], cluster, rest, rfl, hsame, rfl⟩
    · rw [if_neg hsame]
      rcases ih with ⟨before, found, after, rfl, hfound, hplace⟩ | ⟨hnone, hplace⟩
      · exact .inl ⟨cluster :: before, found, after, rfl, hfound, by rw [hplace]; rfl⟩
      · exact .inr ⟨forall_mem_cons.mpr ⟨hsame, hnone⟩, by rw [hplace]; rfl⟩

/-! ## The partition -/

structure Anchored (keyAt : ℕ → String) (cluster : ValueCluster) : Prop where
  keys : cluster.canonicalKeys = cluster.members.map keyAt
  first : cluster.canonicalKeys.head? = some cluster.key
  near : ∀ idx ∈ cluster.members, SameClaim (keyAt idx) cluster.key
  sorted : cluster.members.Pairwise (· < ·)

def ValueCluster.firstSeen (cluster : ValueCluster) : ℕ :=
  cluster.members.headD 0

/-- The clusters of the first `count` values. -/
structure Partition (keyAt : ℕ → String) (count : ℕ) (clusters : List ValueCluster) : Prop where
  anchored : ∀ cluster ∈ clusters, Anchored keyAt cluster
  members : (clusters.flatMap ValueCluster.members).Perm (List.range count)
  firstSeen : (clusters.map ValueCluster.firstSeen).Pairwise (· < ·)
  apart : clusters.Pairwise fun a b => ¬ SameClaim b.key a.key

variable {keyAt : ℕ → String} {count : ℕ} {clusters : List ValueCluster}

variable {cluster : ValueCluster}

theorem Anchored.rep_eq (hanchored : Anchored keyAt cluster) : cluster.rep = cluster.key := by
  rw [ValueCluster.rep, headD_eq_head?_getD, hanchored.first, Option.getD_some]

theorem Anchored.members_ne_nil (hanchored : Anchored keyAt cluster) : cluster.members ≠ [] := by
  intro hnil
  have hfirst := hanchored.first
  rw [hanchored.keys, hnil] at hfirst
  exact Option.some_ne_none _ hfirst.symm

theorem Partition.mem_lt (hpartition : Partition keyAt count clusters)
    (hcluster : cluster ∈ clusters) {idx : ℕ} (hidx : idx ∈ cluster.members) :
    idx < count :=
  mem_range.mp (hpartition.members.mem_iff.mp (mem_flatMap.mpr ⟨cluster, hcluster, hidx⟩))

theorem Anchored.join (hanchored : Anchored keyAt cluster)
    (hnear : SameClaim (keyAt count) cluster.key) (hbelow : ∀ idx ∈ cluster.members, idx < count) :
    Anchored keyAt (cluster.join count (keyAt count)) where
  keys := by simp only [ValueCluster.join, hanchored.keys, map_append, map_singleton]
  first := by simp only [ValueCluster.join, head?_append, hanchored.first, Option.some_or]
  near := by
    intro idx hidx
    rcases mem_append.mp hidx with hold | hnew
    · exact hanchored.near idx hold
    · rw [mem_singleton.mp hnew]
      exact hnear
  sorted := by
    refine pairwise_append.mpr ⟨hanchored.sorted, pairwise_singleton _ _, ?_⟩
    intro a ha b hb
    rw [mem_singleton.mp hb]
    exact hbelow a ha

theorem firstSeen_join (hne : cluster.members ≠ []) (idx : ℕ) (ckey : String) :
    (cluster.join idx ckey).firstSeen = cluster.firstSeen := by
  obtain ⟨first, rest, hmembers⟩ := exists_cons_of_ne_nil hne
  simp [ValueCluster.firstSeen, ValueCluster.join, hmembers]

theorem Partition.place (hpartition : Partition keyAt count clusters) :
    Partition keyAt (count + 1) (place count (keyAt count) clusters) := by
  rcases place_cases count (keyAt count) clusters with
    ⟨before, cluster, after, rfl, hsame, hplace⟩ | ⟨hnone, hplace⟩
  · have hmem : cluster ∈ before ++ cluster :: after := by simp
    have hanchored := hpartition.anchored cluster hmem
    rw [hanchored.rep_eq] at hsame
    rw [hplace]
    constructor
    · intro other hother
      rcases mem_append.mp hother with hbefore | hrest
      · exact hpartition.anchored other (mem_append_left _ hbefore)
      · rcases mem_cons.mp hrest with rfl | hafter
        · exact hanchored.join hsame fun idx hidx => hpartition.mem_lt hmem hidx
        · exact hpartition.anchored other (mem_append_right _ (mem_cons_of_mem _ hafter))
    · rw [range_succ]
      refine Perm.trans ?_ (hpartition.members.append_right [count])
      simp only [flatMap_append, flatMap_cons, ValueCluster.join, append_assoc]
      exact ((perm_append_comm).append_left _).append_left _
    · have hfirst := hpartition.firstSeen
      rw [map_append, map_cons] at hfirst ⊢
      rw [firstSeen_join hanchored.members_ne_nil]
      exact hfirst
    · have hkeys : ∀ {l : List ValueCluster},
          l.Pairwise (fun a b => ¬ SameClaim b.key a.key) ↔
            (l.map ValueCluster.key).Pairwise fun a b => ¬ SameClaim b a := by
        intro l
        rw [pairwise_map]
      have hapart := hkeys.mp hpartition.apart
      rw [hkeys]
      rw [map_append, map_cons] at hapart ⊢
      exact hapart
  · rw [hplace]
    constructor
    · intro other hother
      rcases mem_append.mp hother with hold | hnew
      · exact hpartition.anchored other hold
      · rw [mem_singleton.mp hnew]
        exact ⟨rfl, rfl, fun idx hidx => by
          rw [mem_singleton.mp hidx]; exact .inl rfl,
          pairwise_singleton _ _⟩
    · rw [range_succ, flatMap_append]
      exact hpartition.members.append (by simp)
    · rw [map_append]
      refine pairwise_append.mpr ⟨hpartition.firstSeen, pairwise_singleton _ _, ?_⟩
      intro a ha b hb
      obtain ⟨cluster, hcluster, rfl⟩ := mem_map.mp ha
      rw [map_singleton, mem_singleton] at hb
      have hne := (hpartition.anchored cluster hcluster).members_ne_nil
      obtain ⟨first, rest, hmembers⟩ := exists_cons_of_ne_nil hne
      have hlt : first < count := hpartition.mem_lt hcluster (by rw [hmembers]; exact mem_cons_self)
      rw [hb, ValueCluster.firstSeen, hmembers]
      exact hlt
    · refine pairwise_append.mpr ⟨hpartition.apart, pairwise_singleton _ _, ?_⟩
      intro a ha b hb
      rw [mem_singleton.mp hb]
      have hnot := hnone a ha
      rw [(hpartition.anchored a ha).rep_eq] at hnot
      exact hnot

theorem partition_nil : Partition keyAt 0 [] where
  anchored := fun _ hcluster => absurd hcluster not_mem_nil
  members := Perm.refl _
  firstSeen := Pairwise.nil
  apart := Pairwise.nil

variable {text : ValueText}

theorem Partition.clusterFrom (values : List String) (hpartition : Partition keyAt count clusters)
    (hkeys : ∀ offset, (h : offset < values.length) → keyAt (count + offset) = canonicalValueKey
      text values[offset]) :
    Partition keyAt (count + values.length) (clusterFrom text values count clusters) := by
  induction values generalizing count clusters with
  | nil => exact hpartition
  | cons raw rest ih =>
    have hfirst : keyAt count = canonicalValueKey text raw := hkeys 0 (succ_pos _)
    have hrest := ih (hpartition.place) fun offset hoffset => by
      have hkey := hkeys (offset + 1) (succ_lt_succ hoffset)
      rw [add_assoc, add_comm 1]
      exact hkey
    rw [hfirst] at hrest
    rw [length_cons, add_comm rest.length, ← add_assoc]
    exact hrest

def keyOf (text : ValueText) (values : List String) (idx : ℕ) : String :=
  canonicalValueKey text (values.getD idx "")

/-- The indices are divided among the clusters in the order first seen, each
value is close to the first of its cluster, and the first values of two
clusters are not close. -/
structure IsFaithful (text : ValueText) (values : List String)
    (clusters : List ValueCluster) : Prop where
  members : (clusters.flatMap ValueCluster.members).Perm (List.range values.length)
  firstSeen : (clusters.map ValueCluster.firstSeen).Pairwise (· < ·)
  cluster : ∀ cluster ∈ clusters, cluster.members ≠ [] ∧
    cluster.members.Pairwise (· < ·) ∧
    cluster.canonicalKeys = cluster.members.map (keyOf text values) ∧
    cluster.canonicalKeys.head? = some cluster.key ∧
    ∀ ckey ∈ cluster.canonicalKeys, ckey = cluster.key ∨
      levenshtein ckey cluster.key ≤ fuzzyMergeMaxDistance
  apart : clusters.Pairwise fun a b => fuzzyMergeMaxDistance < levenshtein a.key b.key

theorem isFaithful_clusterValues (text : ValueText) (values : List String) :
    IsFaithful text values (clusterValues text values) := by
  have hnil : Partition (keyOf text values) 0 [] := partition_nil
  have hpartition := hnil.clusterFrom values fun offset hoffset => by
    rw [zero_add, keyOf, getD_eq_getElem?_getD, getElem?_eq_getElem hoffset, Option.getD_some]
  rw [zero_add] at hpartition
  refine ⟨hpartition.members, hpartition.firstSeen, ?_, ?_⟩
  · intro cluster hcluster
    have hanchored := hpartition.anchored cluster hcluster
    refine ⟨hanchored.members_ne_nil, hanchored.sorted, hanchored.keys, hanchored.first, ?_⟩
    intro ckey hckey
    rw [hanchored.keys] at hckey
    obtain ⟨idx, hidx, rfl⟩ := mem_map.mp hckey
    exact hanchored.near idx hidx
  · refine hpartition.apart.imp fun {a b} hnot => ?_
    have hfar : ¬ SameClaim a.key b.key := fun h => hnot (sameClaim_comm.mp h)
    exact not_le.mp fun hle => hfar (.inr hle)

theorem length_clusterValues_pair (text : ValueText) (u v : String) :
    (clusterValues text [u, v]).length = 1 ↔
      SameClaim (canonicalValueKey text v) (canonicalValueKey text u) := by
  have hrep : ValueCluster.rep ⟨canonicalValueKey text u, [0],
      [canonicalValueKey text u]⟩ = canonicalValueKey text u := rfl
  simp only [clusterValues, clusterFrom, place, hrep]
  by_cases hsame : SameClaim (canonicalValueKey text v) (canonicalValueKey text u)
  · rw [if_pos hsame]
    exact iff_of_true rfl hsame
  · rw [if_neg hsame]
    exact iff_of_false (fun hlength => succ_ne_self 1 hlength) hsame

/-- The clustering is a faithful partition, and whether two values agree does
not depend on their order. -/
theorem clusterValues_faithful (text : ValueText) :
    (∀ values, IsFaithful text values (clusterValues text values)) ∧
      ∀ u v, (clusterValues text [u, v]).length = 1 ↔ (clusterValues text [v, u]).length = 1 := by
  refine ⟨isFaithful_clusterValues text, fun u v => ?_⟩
  rw [length_clusterValues_pair, length_clusterValues_pair]
  exact sameClaim_comm

end Legba.ValueClustering
