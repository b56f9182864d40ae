import Legba.UnionFind

/-!
# Correlated evidence

The cited units of a composition are correlated when their lineages intersect,
unless they come from two known producers.  One component of correlated units
counts as one unit of evidence.  The components are found with disjoint sets,
and they are those of the chains of correlated units, in whatever order the
units are read.
-/

namespace Legba.CorrelatedComponents

open UnionFind List

universe u v w

variable {H : Type u} {D : Type v} {G : Type w}

structure Lineage (H : Type u) (D : Type v) (G : Type w) where
  derivedMap : H → Option (Finset D)
  groupMap : Option (H → Option G)

/-- `derived_map.get(id) or set()` -/
def Lineage.derived (lineage : Lineage H D G) (id : H) : Finset D :=
  (lineage.derivedMap id).getD ∅

variable [DecidableEq D]

def Lineage.Linked (lineage : Lineage H D G) (first second : H) : Prop :=
  (lineage.derived first ∩ lineage.derived second).Nonempty ∧
    ∀ groups ∈ lineage.groupMap, ∀ gi ∈ groups first, ∀ gj ∈ groups second, gi = gj

def Lineage.Chained (lineage : Lineage H D G) (ids : List H) : H → H → Prop :=
  Relation.ReflTransGen fun first second => first ∈ ids ∧ second ∈ ids ∧ lineage.Linked first second

variable {lineage : Lineage H D G}

theorem Lineage.Linked.symm {first second : H}
    (hlinked : lineage.Linked first second) : lineage.Linked second first := by
  refine ⟨by rw [Finset.inter_comm]; exact hlinked.1, ?_⟩
  intro groups hgroups gj hgj gi hgi
  exact (hlinked.2 groups hgroups gi hgi gj hgj).symm

theorem Lineage.Chained.symm {ids : List H} {first second : H}
    (hchained : lineage.Chained ids first second) : lineage.Chained ids second first := by
  induction hchained with
  | refl => exact .refl
  | tail _ hstep ih =>
    obtain ⟨hleft, hright, hlinked⟩ := hstep
    exact .head ⟨hright, hleft, hlinked.symm⟩ ih

section

variable [DecidableEq G]

def Lineage.unites (lineage : Lineage H D G) (first second : H) : Bool :=
  let da := lineage.derived first
  let db := lineage.derived second
  if ¬(da ≠ ∅ ∧ db ≠ ∅ ∧ da ∩ db ≠ ∅) then false
  else
    match lineage.groupMap with
    | none => true
    | some groups =>
      match groups first, groups second with
      | some gi, some gj => decide (gi = gj)
      | _, _ => true

def pairs : List H → List (H × H)
  | [] => []
  | first :: rest => rest.map (Prod.mk first) ++ pairs rest

theorem unites_iff {lineage : Lineage H D G} {first second : H} :
    lineage.unites first second = true ↔ lineage.Linked first second := by
  have hmeet : (lineage.derived first ≠ ∅ ∧ lineage.derived second ≠ ∅ ∧
      lineage.derived first ∩ lineage.derived second ≠ ∅) ↔
        (lineage.derived first ∩ lineage.derived second).Nonempty := by
    rw [← Finset.nonempty_iff_ne_empty, ← Finset.nonempty_iff_ne_empty,
      ← Finset.nonempty_iff_ne_empty]
    constructor
    · exact fun hall => hall.2.2
    · intro hboth
      exact ⟨hboth.mono Finset.inter_subset_left, hboth.mono Finset.inter_subset_right, hboth⟩
  unfold Lineage.unites Lineage.Linked
  simp only [hmeet]
  by_cases hboth : (lineage.derived first ∩ lineage.derived second).Nonempty
  · rw [if_neg (not_not.mpr hboth)]
    cases lineage.groupMap with
    | none => simp [hboth]
    | some groups =>
      cases hfirst : groups first with
      | none => simp [hboth, hfirst]
      | some gi =>
        cases hsecond : groups second with
        | none => simp [hboth, hfirst, hsecond]
        | some gj => simp [hboth, hfirst, hsecond]
  · simp [hboth]

theorem mem_of_mem_pairs {ids : List H} {pair : H × H}
    (hpair : pair ∈ pairs ids) : pair.1 ∈ ids ∧ pair.2 ∈ ids := by
  induction ids with
  | nil => cases hpair
  | cons first rest ih =>
    rw [pairs, mem_append, mem_map] at hpair
    rcases hpair with ⟨second, hsecond, rfl⟩ | hlater
    · exact ⟨mem_cons_self, mem_cons_of_mem _ hsecond⟩
    · exact ⟨mem_cons_of_mem _ (ih hlater).1, mem_cons_of_mem _ (ih hlater).2⟩

theorem mem_pairs_or {ids : List H} {a b : H} (ha : a ∈ ids) (hb : b ∈ ids)
    (hne : a ≠ b) : (a, b) ∈ pairs ids ∨ (b, a) ∈ pairs ids := by
  induction ids with
  | nil => cases ha
  | cons first rest ih =>
    simp only [pairs, mem_append, mem_map, Prod.mk.injEq, exists_eq_right_right]
    rcases mem_cons.mp ha with rfl | hresta
    · rcases mem_cons.mp hb with rfl | hrestb
      · exact absurd rfl hne
      · exact .inl (.inl ⟨hrestb, rfl⟩)
    · rcases mem_cons.mp hb with rfl | hrestb
      · exact .inr (.inl ⟨hresta, rfl⟩)
      · rcases ih hresta hrestb with hleft | hright
        · exact .inl (.inr hleft)
        · exact .inr (.inr hright)

theorem eqvGen_iff_chained (lineage : Lineage H D G) (ids : List H) {a b : H} :
    Relation.EqvGen (fun a b => (a, b) ∈ (pairs ids).filter fun pair =>
        lineage.unites pair.1 pair.2) a b ↔ lineage.Chained ids a b := by
  constructor
  · intro hgen
    induction hgen with
    | rel a b hpair =>
      rw [mem_filter, unites_iff] at hpair
      have hmem := mem_of_mem_pairs hpair.1
      exact .single ⟨hmem.1, hmem.2, hpair.2⟩
    | refl a => exact .refl
    | symm a b _ ih => exact ih.symm
    | trans a b c _ _ ihab ihbc => exact ihab.trans ihbc
  · intro hchained
    induction hchained with
    | refl => exact .refl a
    | @tail b c _ hstep ih =>
      obtain ⟨hb, hc, hlinked⟩ := hstep
      by_cases heq : b = c
      · exact heq ▸ ih
      · refine ih.trans _ _ _ ?_
        rcases mem_pairs_or hb hc heq with hpair | hpair
        · exact .rel _ _ (mem_filter.mpr ⟨hpair, unites_iff.mpr hlinked⟩)
        · exact Relation.EqvGen.symm _ _ (.rel _ _ (mem_filter.mpr
            ⟨hpair, unites_iff.mpr hlinked.symm⟩))

end

/-! ## The components -/

variable [DecidableEq H]

structure IsPartition (blocks : List (List H)) (ids : List H) : Prop where
  nonempty : ∀ block ∈ blocks, block ≠ []
  perm : blocks.flatten.Perm ids

def SharesBlock (blocks : List (List H)) (first second : H) : Prop :=
  ∃ block ∈ blocks, first ∈ block ∧ second ∈ block

structure IsComponents (lineage : Lineage H D G) (ids : List H)
    (blocks : List (List H)) : Prop where
  partition : IsPartition blocks ids
  shares_iff : ∀ a ∈ ids, ∀ b ∈ ids, SharesBlock blocks a b ↔ lineage.Chained ids a b
  unique : ∀ first ∈ blocks, ∀ second ∈ blocks, ∀ a ∈ first, a ∈ second → first = second

def blockSets (blocks : List (List H)) : Finset (Finset H) :=
  (blocks.map List.toFinset).toFinset

theorem IsComponents.mem_blockSets_iff {ids : List H} {blocks : List (List H)}
    (hcomponents : IsComponents lineage ids blocks) {block : Finset H} :
    block ∈ blockSets blocks ↔ ∃ a ∈ ids, ∀ b, b ∈ block ↔ b ∈ ids ∧ lineage.Chained ids a b := by
  have hmem : ∀ {members a}, members ∈ blocks → a ∈ members → a ∈ ids := by
    intro members a hmembers ha
    rw [← hcomponents.partition.perm.mem_iff]
    exact mem_flatten.mpr ⟨members, hmembers, ha⟩
  have hclass : ∀ {members}, members ∈ blocks → ∀ {a}, a ∈ members → ∀ b,
      b ∈ members ↔ b ∈ ids ∧ lineage.Chained ids a b := by
    intro members hmembers a ha b
    constructor
    · intro hb
      exact ⟨hmem hmembers hb, (hcomponents.shares_iff a (hmem hmembers ha) b
        (hmem hmembers hb)).mp ⟨members, hmembers, ha, hb⟩⟩
    · rintro ⟨hb, hchained⟩
      obtain ⟨other, hother, hothera, hotherb⟩ := (hcomponents.shares_iff a
        (hmem hmembers ha) b hb).mpr hchained
      rw [hcomponents.unique members hmembers other hother a ha hothera]
      exact hotherb
  unfold blockSets
  simp only [mem_toFinset, mem_map]
  constructor
  · rintro ⟨members, hmembers, rfl⟩
    obtain ⟨a, ha⟩ := exists_mem_of_ne_nil members (hcomponents.partition.nonempty members hmembers)
    refine ⟨a, hmem hmembers ha, fun b => ?_⟩
    rw [mem_toFinset]
    exact hclass hmembers ha b
  · rintro ⟨a, ha, hblock⟩
    obtain ⟨members, hmembers, hmema, -⟩ := (hcomponents.shares_iff a ha a ha).mpr .refl
    refine ⟨members, hmembers, ?_⟩
    ext b
    rw [mem_toFinset, hblock b]
    exact hclass hmembers hmema b

variable [DecidableEq G]

/-- `_correlated_components`.  Every run of `find` is given as many steps as
there are ids. -/
def correlatedComponents (lineage : Lineage H D G) (ids : List H) : Option (List (List H)) :=
  match unionAll ids.length id ((pairs ids).filter fun pair => lineage.unites pair.1 pair.2) with
  | none => none
  | some parent => (collect ids.length parent [] ids).map fun comps => comps.map Prod.snd

theorem exists_components (lineage : Lineage H D G) (ids : List H) :
    ∃ blocks, correlatedComponents lineage ids = some blocks ∧ IsComponents lineage ids blocks := by
  obtain ⟨parent, comps, hparent, hcomps, hperm, hunique, hclasses⟩ :=
    exists_classes (fun _ _ => false) fun pair (hpair : pair ∈ (pairs ids).filter fun pair =>
      lineage.unites pair.1 pair.2) => mem_of_mem_pairs (mem_filter.mp hpair).1
  simp only [eqvGen_iff_chained] at hclasses
  refine ⟨comps.map Prod.snd, ?_, ⟨?_, hperm⟩, ?_, ?_⟩
  · simp [correlatedComponents, unionAll_eq_unionAllBy, hparent, hcomps]
  · intro block hblock
    obtain ⟨group, hgroup, rfl⟩ := mem_map.mp hblock
    exact (hclasses group hgroup).1
  · intro a ha b hb
    constructor
    · rintro ⟨_, hblock, hmema, hmemb⟩
      obtain ⟨group, hgroup, rfl⟩ := mem_map.mp hblock
      exact (((hclasses group hgroup).2 a hmema b).mp hmemb).2
    · intro hchained
      obtain ⟨block, hblock, hmema⟩ := mem_flatten.mp (hperm.mem_iff.mpr ha)
      obtain ⟨group, hgroup, rfl⟩ := mem_map.mp hblock
      exact ⟨_, hblock, hmema, ((hclasses group hgroup).2 a hmema b).mpr ⟨hb, hchained⟩⟩
  · intro first hfirst second hsecond a hmem hmem'
    obtain ⟨group, hgroup, rfl⟩ := mem_map.mp hfirst
    obtain ⟨other, hother, rfl⟩ := mem_map.mp hsecond
    rw [hunique group hgroup other hother a hmem hmem']

/-- The components are found; they are the classes of the chains of linked
ids, and the order of the ids makes no difference. -/
theorem correlatedComponents_are_components (lineage : Lineage H D G) (ids : List H) :
    ∃ blocks, correlatedComponents lineage ids = some blocks ∧
      IsPartition blocks ids ∧
      (∀ a ∈ ids, ∀ b ∈ ids, SharesBlock blocks a b ↔ lineage.Chained ids a b) ∧
      ∀ reordered : List H, reordered.Perm ids →
        ∃ others, correlatedComponents lineage reordered = some others ∧
          blockSets others = blockSets blocks := by
  obtain ⟨blocks, hblocks, hcomponents⟩ := exists_components lineage ids
  refine ⟨blocks, hblocks, hcomponents.partition, hcomponents.shares_iff, ?_⟩
  intro reordered hperm
  obtain ⟨others, hothers, hreordered⟩ := exists_components lineage reordered
  refine ⟨others, hothers, ?_⟩
  have hchained : lineage.Chained reordered = lineage.Chained ids := by
    unfold Lineage.Chained
    simp [hperm.mem_iff]
  ext block
  rw [hreordered.mem_blockSets_iff, hcomponents.mem_blockSets_iff, hchained]
  simp [hperm.mem_iff]

/-- Three units of one lineage, of which the second has no known source: it
links the first to the third, although these are of two sources. -/
theorem correlatedComponents_are_components_bridged :
    ∃ blocks, correlatedComponents
        (⟨fun _ => some {0}, some fun id =>
          if id = 2 then none else some id⟩ : Lineage ℕ ℕ ℕ) [1, 2, 3] =
          some blocks ∧
      SharesBlock blocks 1 3 := by
  obtain ⟨blocks, hblocks, -, hshares, -⟩ :=
    correlatedComponents_are_components
      (⟨fun _ => some {0}, some fun id =>
        if id = 2 then none else some id⟩ : Lineage ℕ ℕ ℕ) [1, 2, 3]
  refine ⟨blocks, hblocks, (hshares 1 (by decide) 3 (by decide)).mpr ?_⟩
  apply Relation.ReflTransGen.tail (b := 2)
  · exact .single ⟨by decide, by decide, unites_iff.mp (by decide)⟩
  · exact ⟨by decide, by decide, unites_iff.mp (by decide)⟩

end Legba.CorrelatedComponents
