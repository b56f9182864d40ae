import Legba.ContentionGroup
import Mathlib.Data.List.Induction

/-!
# Value clusters and their winner

The clusters of a group have distinct representatives and members among its
rows, and every decision picks one of them.
-/

namespace Legba.Contention

open List

variable {K : Type*} [Field K] [LinearOrder K] (A : Arbiter K)

/-! ## The clusters of a group -/

theorem placeRow_keys (sameClaim : String → String → Bool) (key : String)
    (row : FactRow) (clusters : List ValueCluster) :
    (placeRow sameClaim key row clusters).map ValueCluster.key = clusters.map ValueCluster.key ∨
      key ∉ clusters.map ValueCluster.key ∧
        (placeRow sameClaim key row clusters).map ValueCluster.key =
          clusters.map ValueCluster.key ++ [key] := by
  induction clusters with
  | nil => exact .inr ⟨not_mem_nil, rfl⟩
  | cons cluster rest ih =>
    simp only [placeRow]
    split
    · exact .inl rfl
    · rename_i hother
      rw [Bool.or_eq_true, decide_eq_true_eq, not_or] at hother
      rcases ih with hsame | ⟨hfresh, hnew⟩
      · exact .inl (congrArg (cluster.key :: ·) hsame)
      · right
        rw [map_cons, mem_cons, not_or]
        exact ⟨⟨hother.1, hfresh⟩, congrArg (cluster.key :: ·) hnew⟩

variable {sameClaim : String → String → Bool} {clusters : List ValueCluster}
  {aggs : List ValueAgg} {winner : ValueAgg}

theorem mem_placeRow {key : String} {row member : FactRow} {cluster : ValueCluster}
    (hcluster : cluster ∈ placeRow sameClaim key row clusters)
    (hmember : member ∈ cluster.members) :
    member = row ∨ ∃ old ∈ clusters, member ∈ old.members := by
  induction clusters with
  | nil =>
    simp only [placeRow, mem_singleton] at hcluster
    subst hcluster
    exact .inl (mem_singleton.mp hmember)
  | cons first rest ih =>
    simp only [placeRow] at hcluster
    split at hcluster
    · rcases mem_cons.mp hcluster with rfl | hrest
      · rcases mem_append.mp hmember with hold | hnew
        · exact .inr ⟨first, mem_cons_self, hold⟩
        · exact .inl (mem_singleton.mp hnew)
      · exact .inr ⟨cluster, mem_cons_of_mem _ hrest, hmember⟩
    · rcases mem_cons.mp hcluster with rfl | hrest
      · exact .inr ⟨cluster, mem_cons_self, hmember⟩
      · obtain hrow | ⟨old, hold, hmem⟩ := ih hrest
        · exact .inl hrow
        · exact .inr ⟨old, mem_cons_of_mem _ hold, hmem⟩

theorem clusterValues_spec (rows : List FactRow) :
    ((A.clusterValues rows).map ValueCluster.key).Nodup ∧
      ∀ cluster ∈ A.clusterValues rows, ∀ member ∈ cluster.members, member ∈ rows := by
  unfold Arbiter.clusterValues
  induction rows using reverseRecOn with
  | nil => exact ⟨nodup_nil, fun cluster hcluster => by cases hcluster⟩
  | append_singleton rows row ih =>
    rw [foldl_append, foldl_cons, foldl_nil]
    set clusters := rows.foldl (fun clusters row => placeRow A.sameClaim
      (A.canonicalValueKey row.value) row clusters) []
    constructor
    · rcases placeRow_keys A.sameClaim (A.canonicalValueKey row.value) row
        clusters with hsame | ⟨hfresh, hnew⟩
      · rw [hsame]
        exact ih.1
      · rw [hnew]
        exact nodup_append_comm.mp (nodup_cons.mpr ⟨hfresh, ih.1⟩)
    · intro cluster hcluster member hmember
      rw [mem_append]
      obtain hrow | ⟨old, hold, hmem⟩ := mem_placeRow hcluster hmember
      · exact .inr (mem_singleton.mpr hrow)
      · exact .inl (ih.2 old hold member hmem)

theorem foldl_add_spec (rows : List FactRow) (agg : ValueAgg) :
    (rows.foldl ValueAgg.add agg).valueKey = agg.valueKey ∧
      (rows.foldl ValueAgg.add agg).supportingFactIds =
        agg.supportingFactIds ++ rows.map FactRow.id := by
  induction rows generalizing agg with
  | nil => simp
  | cons row rows ih =>
    obtain ⟨hkey, hids⟩ := ih (agg.add row)
    refine ⟨hkey, hids.trans ?_⟩
    simp [ValueAgg.add]

theorem aggregate_valueKey (cluster : ValueCluster) :
    (Arbiter.aggregate cluster).valueKey = cluster.key :=
  (foldl_add_spec _ _).1

theorem aggregate_supportingFactIds (cluster : ValueCluster) :
    (Arbiter.aggregate cluster).supportingFactIds = cluster.members.map FactRow.id :=
  (foldl_add_spec _ _).2

theorem nonJunk_keys_nodup (rows : List FactRow) :
    ((A.nonJunk rows).map ValueAgg.valueKey).Nodup := by
  unfold Arbiter.nonJunk
  rw [map_map]
  have hkey : ValueAgg.valueKey ∘ Arbiter.aggregate = ValueCluster.key := funext aggregate_valueKey
  rw [hkey]
  exact (clusterValues_spec A rows).1.sublist (filter_sublist.map _)

theorem members_ne_nil_of_placeRow {key : String} {row : FactRow}
    (hclusters : ∀ cluster ∈ clusters, cluster.members ≠ []) :
    ∀ cluster ∈ placeRow sameClaim key row clusters, cluster.members ≠ [] := by
  induction clusters with
  | nil => simp [placeRow]
  | cons first rest ih =>
    obtain ⟨hfirst, hrest⟩ := forall_mem_cons.mp hclusters
    simp only [placeRow]
    split
    · exact forall_mem_cons.mpr ⟨by simp, hrest⟩
    · exact forall_mem_cons.mpr ⟨hfirst, ih hrest⟩

theorem clusterValues_members_ne_nil (rows : List FactRow) :
    ∀ cluster ∈ A.clusterValues rows, cluster.members ≠ [] := by
  unfold Arbiter.clusterValues
  induction rows using reverseRecOn with
  | nil => exact fun cluster hcluster => by cases hcluster
  | append_singleton rows row ih =>
    rw [foldl_append, foldl_cons, foldl_nil]
    exact members_ne_nil_of_placeRow ih

theorem add_represented (agg : ValueAgg) (row : FactRow) :
    (agg.add row).representativeFactId.isSome := by
  simp only [ValueAgg.add]
  cases hrep : agg.representativeFactId with
  | none => simp
  | some id => split <;> rfl

theorem foldl_add_represented (rows : List FactRow) {agg : ValueAgg}
    (hrep : agg.representativeFactId.isSome) :
    (rows.foldl ValueAgg.add agg).representativeFactId.isSome := by
  induction rows generalizing agg with
  | nil => exact hrep
  | cons row rows ih => exact ih (add_represented agg row)

theorem represented_of_mem_nonJunk {rows : List FactRow} {agg : ValueAgg}
    (hagg : agg ∈ A.nonJunk rows) : agg.representativeFactId.isSome := by
  obtain ⟨cluster, hcluster, rfl⟩ := mem_map.mp hagg
  have hmembers := clusterValues_members_ne_nil A rows cluster (mem_filter.mp hcluster).1
  unfold Arbiter.aggregate
  cases hrows : cluster.members with
  | nil => exact absurd hrows hmembers
  | cons row rest => exact foldl_add_represented rest (add_represented _ row)

theorem getD_head_mem {tied : List ValueAgg} {head : ValueAgg} (hhead : head ∈ aggs)
    (htied : tied ⊆ aggs) : tied.head?.getD head ∈ aggs := by
  cases tied with
  | nil => exact hhead
  | cons first rest => exact htied mem_cons_self

theorem mem_of_selectWinner {scores : ValueAgg → K}
    (hwinner : A.selectWinner aggs scores = some winner) : winner ∈ aggs := by
  unfold Arbiter.selectWinner at hwinner
  cases hranked : ranked scores aggs with
  | nil => simp [hranked] at hwinner
  | cons head rest =>
    have hhead : head ∈ aggs :=
      (perm_insertionSort _ aggs).subset
        (show head ∈ ranked scores aggs from hranked ▸ mem_cons_self)
    simp only [hranked, Option.ite_none_left_eq_some, Option.some.injEq] at hwinner
    obtain ⟨_, _, rfl⟩ := hwinner
    split
    · apply getD_head_mem hhead
      exact Subset.trans (perm_insertionSort _ _).subset filter_sublist.subset
    · exact hhead

theorem mem_of_selectWeightWinner
    (hwinner : A.selectWeightWinner aggs = some winner) : winner ∈ aggs := by
  unfold Arbiter.selectWeightWinner at hwinner
  split at hwinner
  · rename_i best runner rest hsorted
    simp only [Option.ite_none_left_eq_some, Option.some.injEq] at hwinner
    obtain ⟨_, _, _, _, rfl⟩ := hwinner
    exact (perm_insertionSort _ aggs).subset (hsorted ▸ mem_cons_self)
  · cases hwinner

theorem mem_of_aggOf {key : Option String}
    (hwinner : aggOf aggs key = some winner) : winner ∈ aggs := by
  obtain ⟨wanted, _, hfind⟩ := Option.bind_eq_some_iff.mp hwinner
  exact mem_of_find?_eq_some hfind

structure SurfaceDecision.WellFormed (aggs : List ValueAgg)
    (decision : SurfaceDecision) : Prop where
  winner_mem : ∀ winner, decision.winner = some winner → winner ∈ aggs
  stamped : decision.winner.isSome = true →
    decision.surfacedBy.isSome = true ∧ decision.rationale.isSome = true

theorem wellFormed_abstain (aggs : List ValueAgg) : SurfaceDecision.WellFormed aggs {} where
  winner_mem := fun _ hwinner => by cases hwinner
  stamped := fun hwinner => by cases hwinner

theorem wellFormed_pick (hwinner : winner ∈ aggs) (decider : Decider) (why : Rationale) :
    SurfaceDecision.WellFormed aggs
      { winner := some winner, surfacedBy := some decider
        rationale := some why } where
  winner_mem := fun _ hsome => Option.some.inj hsome ▸ hwinner
  stamped := fun _ => ⟨rfl, rfl⟩

theorem consultLlm_wellFormed (aggs : List ValueAgg) (cache : VerdictCache)
    (turn : LlmTurn) : (Arbiter.consultLlm aggs cache turn).1.WellFormed aggs := by
  unfold Arbiter.consultLlm
  split
  · split
    · rename_i hagg
      exact wellFormed_pick (mem_of_aggOf hagg) _ _
    · exact wellFormed_abstain aggs
  · split
    · exact wellFormed_abstain aggs
    · dsimp only
      split
      · rename_i hagg
        exact wellFormed_pick (mem_of_aggOf hagg) _ _
      · exact wellFormed_abstain aggs

theorem decideGroup_wellFormed (llm : Bool) (aggs : List ValueAgg)
    (now : Datetime) (soaked : Bool) (cache : VerdictCache) (turn : LlmTurn) :
    (A.decideGroup llm aggs now soaked cache turn).1.WellFormed aggs := by
  unfold Arbiter.decideGroup
  split
  · rename_i hscore
    exact wellFormed_pick (mem_of_selectWinner A hscore) _ _
  · unfold Arbiter.resolveTiebreak
    split
    · exact wellFormed_abstain aggs
    · split
      · exact wellFormed_abstain aggs
      · split
        · rename_i hweight
          exact wellFormed_pick (mem_of_selectWeightWinner A hweight) _ _
        · split
          · exact consultLlm_wellFormed aggs cache turn
          · exact wellFormed_abstain aggs

end Legba.Contention
