import Legba.FindingSupersession

/-!
# The latest finding wins

The clusters of a run have no finding in common, so what a run does to a
finding is what its own cluster does to it.  From that, the pointers go to
later findings of the same analyst and signature over every history, a class
keeps exactly its latest finding open, and the same run again finds no two
open findings of one class.
-/

namespace Legba.Findings

open JsonValue KeyedTable LabelledRun RowOrder List Bool Table

theorem later_isStrictOrder : IsStrictOrder later :=
  (isStrictOrder_greater _).greaterThen _

variable {a b : Uuid × OutputRow}

theorem later_of_not_later (hne : a.1 ≠ b.1) (hnot : later a b = false) : later b a := by
  simp only [later, greaterThen, greater, or_eq_false_iff, and_eq_false_iff,
    decide_eq_false_iff_not, or_eq_true, and_eq_true, decide_eq_true_eq] at hnot ⊢
  rcases lt_trichotomy a.2.producedAt b.2.producedAt with hlt | heq | hgt
  · exact .inl hlt
  · refine .inr ⟨heq.symm, ?_⟩
    have hid : ¬b.1.toNat < a.1.toNat := hnot.2.resolve_left fun hdiff => hdiff heq
    have hdiffers : a.1.toNat ≠ b.1.toNat := fun hsame => hne (BitVec.eq_of_toNat_eq hsame)
    omega
  · exact absurd hgt hnot.1

theorem later_congr {first second : OutputRow} (hfirst : first.producedAt = a.2.producedAt)
    (hsecond : second.producedAt = b.2.producedAt) :
    later (a.1, first) (b.1, second) = later a b := by
  simp only [later, greaterThen, greater, hfirst, hsecond]

section

variable {run : PoolRun} {outputs : Outputs}

variable {finding : Uuid × OutputRow}

theorem fetchFindings_eligible (hfinding : finding ∈ run.fetchFindings outputs) :
    outputs.row? finding.1 = some finding.2 ∧ run.eligible finding.2 = true :=
  mem_select.mp ((mem_insertionSort _).mp (mem_of_mem_take hfinding))

theorem mem_fetchFindings (hcap : (outputs.select run.eligible).length ≤ maxFindings) :
    finding ∈ run.fetchFindings outputs ↔
      outputs.row? finding.1 = some finding.2 ∧ run.eligible finding.2 = true := by
  refine ⟨fetchFindings_eligible, fun hrow => ?_⟩
  unfold PoolRun.fetchFindings
  rw [take_of_length_le (by rw [length_insertionSort]; exact hcap), mem_insertionSort]
  exact mem_select.mpr hrow

theorem nodup_fetchFindings : ((run.fetchFindings outputs).map Prod.fst).Nodup := by
  have hselect := outputs.nodup_select_keys run.eligible
  have hsorted : (((outputs.select run.eligible).insertionSort
      fun a b => later b a = false).map Prod.fst).Nodup :=
    ((perm_insertionSort _ _).map Prod.fst).nodup_iff.mpr hselect
  exact hsorted.sublist ((take_sublist _ _).map Prod.fst)

variable {row : OutputRow}

theorem eligible_open (heligible : run.eligible row) : row.supersededBy = none := by
  simp only [PoolRun.eligible, and_eq_true, decide_eq_true_eq] at heligible
  exact heligible.1.1.1.1.2

theorem eligible_analyst (heligible : run.eligible row) :
    ∃ analyst, row.analystId = some analyst ∧ analyst ∉ compositionAnalystIds := by
  simp only [PoolRun.eligible, and_eq_true] at heligible
  have hanalyst := heligible.1.1.2
  cases hrow : row.analystId with
  | none => simp [hrow] at hanalyst
  | some analyst =>
    rw [hrow, Option.any_some, decide_eq_true_eq] at hanalyst
    exact ⟨analyst, rfl, hanalyst⟩

theorem eq_of_fetched {other : Uuid × OutputRow} (hfinding : finding ∈ run.fetchFindings outputs)
    (hother : other ∈ run.fetchFindings outputs) (hid : finding.1 = other.1) : finding = other := by
  have hrow := (fetchFindings_eligible hfinding).1
  rw [hid, (fetchFindings_eligible hother).1, Option.some.injEq] at hrow
  exact Prod.ext hid hrow.symm

end

/-! ## Clusters -/

section

variable {text : PythonText} {fallback : Option String}
variable {findings : List (Uuid × OutputRow)} {found : List Cluster}

variable {row : OutputRow} {key : ClusterKey}

theorem clusterKey_eq_some (hkey : clusterKey text fallback row = some (some key)) :
    signatureOf text fallback row = some (some key.1) ∧ row.analystId = key.2 := by
  unfold clusterKey at hkey
  split at hkey
  · cases hkey
  · obtain ⟨signature, hsignature, hkey⟩ := Option.map_eq_some_iff.mp hkey
    obtain ⟨named, hnamed, rfl⟩ := Option.map_eq_some_iff.mp hkey
    rw [hsignature, hnamed]
    exact ⟨rfl, rfl⟩

theorem clusterKey_of_analyst {analyst signature : String} (hanalyst : row.analystId = some analyst)
    (hplain : analyst ∉ compositionAnalystIds)
    (hsignature : signatureOf text fallback row = some (some signature)) :
    clusterKey text fallback row = some (some (signature, row.analystId)) := by
  unfold clusterKey
  rw [hanalyst, Option.getD_some, decide_eq_false hplain, hsignature]
  rfl

theorem mapM_keys {Item Key : Type*} {keyOf : Item → Option Key} {items : List Item}
    {keyed : List (Key × Item)}
    (hkeyed : (items.mapM fun item => (keyOf item).map (·, item)) = some keyed) :
    keyed.map Prod.snd = items ∧ ∀ entry ∈ keyed, keyOf entry.2 = some entry.1 := by
  induction items generalizing keyed with
  | nil =>
    simp only [mapM_nil, Option.pure_def, Option.some.injEq] at hkeyed
    subst hkeyed
    exact ⟨rfl, nofun⟩
  | cons item rest ih =>
    simp only [mapM_cons, Option.pure_def, Option.bind_eq_bind,
      Option.bind_eq_some_iff, Option.map_eq_some_iff, Option.some.injEq] at hkeyed
    obtain ⟨_, ⟨key, hkey, rfl⟩, others, hothers, rfl⟩ := hkeyed
    obtain ⟨hitems, hkeys⟩ := ih hothers
    refine ⟨by rw [map_cons, hitems], ?_⟩
    intro entry hentry
    rcases mem_cons.mp hentry with rfl | hentry
    · exact hkey
    · exact hkeys entry hentry

section

variable (hfound : clusters text fallback findings = some found)

include hfound

theorem mem_clusters (cluster : Cluster) (hcluster : cluster ∈ found) :
    cluster.rows.Sublist findings ∧ 1 < cluster.rows.length ∧
      ∀ finding, finding ∈ cluster.rows ↔ finding ∈ findings ∧
        clusterKey text fallback finding.2 = some (some cluster.key) := by
  obtain ⟨keyed, hkeyed, rfl⟩ := Option.map_eq_some_iff.mp hfound
  obtain ⟨hitems, hkeys⟩ := mapM_keys hkeyed
  obtain ⟨hcluster, hlength⟩ := mem_filter.mp hcluster
  obtain ⟨key, _, rfl⟩ := mem_map.mp hcluster
  rw [decide_eq_true_eq] at hlength
  refine ⟨hitems ▸ (filter_sublist.map _), hlength, ?_⟩
  intro finding
  constructor
  · intro hmem
    obtain ⟨entry, hentry, rfl⟩ := mem_map.mp hmem
    obtain ⟨hentry, hkey⟩ := mem_filter.mp hentry
    rw [decide_eq_true_eq] at hkey
    refine ⟨hitems ▸ mem_map_of_mem hentry, ?_⟩
    rw [hkeys entry hentry, hkey]
  · rintro ⟨hmem, hkey⟩
    rw [← hitems] at hmem
    obtain ⟨entry, hentry, rfl⟩ := mem_map.mp hmem
    refine mem_map_of_mem (mem_filter.mpr ⟨hentry, ?_⟩)
    rw [hkeys entry hentry, Option.some.injEq] at hkey
    exact decide_eq_true hkey

theorem nodup_keys_clusters : (found.map Cluster.key).Nodup := by
  obtain ⟨keyed, _, rfl⟩ := Option.map_eq_some_iff.mp hfound
  refine Nodup.sublist (filter_sublist.map _) ?_
  rw [map_map]
  exact (map_id _).symm ▸ nodup_dedup _

theorem exists_cluster {first second : Uuid × OutputRow} (hfirst : first ∈ findings)
    (hsecond : second ∈ findings) (hne : first ≠ second)
    (hfirstKey : clusterKey text fallback first.2 = some (some key))
    (hsecondKey : clusterKey text fallback second.2 = some (some key)) :
    ∃ cluster ∈ found, cluster.key = key := by
  obtain ⟨keyed, hkeyed, rfl⟩ := Option.map_eq_some_iff.mp hfound
  obtain ⟨hitems, hkeys⟩ := mapM_keys hkeyed
  have hentry : ∀ finding ∈ findings,
      clusterKey text fallback finding.2 = some (some key) →
      (some key, finding) ∈ keyed := by
    intro finding hfinding hkey
    rw [← hitems] at hfinding
    obtain ⟨entry, hentry, rfl⟩ := mem_map.mp hfinding
    rw [hkeys entry hentry, Option.some.injEq] at hkey
    rwa [← hkey]
  have hmember : ∀ finding ∈ findings,
      clusterKey text fallback finding.2 = some (some key) →
      finding ∈ (keyed.filter fun entry =>
        decide (entry.1 = some key)).map Prod.snd := by
    intro finding hfinding hkey
    exact mem_map.mpr ⟨_, mem_filter.mpr ⟨hentry finding hfinding hkey, decide_eq_true rfl⟩, rfl⟩
  refine ⟨_, mem_filter.mpr ⟨mem_map.mpr ⟨key, ?_, rfl⟩, ?_⟩, rfl⟩
  · rw [mem_dedup, mem_filterMap]
    exact ⟨_, hentry first hfirst hfirstKey, rfl⟩
  · rw [decide_eq_true_eq]
    by_contra hshort
    have hone : ∀ a ∈ (keyed.filter fun entry =>
        decide (entry.1 = some key)).map Prod.snd, ∀ b ∈
        (keyed.filter fun entry =>
          decide (entry.1 = some key)).map Prod.snd, a = b := by
      generalize (keyed.filter fun entry =>
        decide (entry.1 = some key)).map Prod.snd = rows at hshort
      match rows with
      | [] => exact nofun
      | [row] =>
        intro a ha b hb
        rw [mem_singleton] at ha hb
        rw [ha, hb]
      | _ :: _ :: _ => simp at hshort
    exact hne (hone _ (hmember first hfirst hfirstKey) _ (hmember second hsecond hsecondKey))

end

end

/-! ## What a run does to a finding -/

def Cluster.settle (cluster : Cluster) (latest id : Uuid) (row : OutputRow) :
    OutputRow :=
  { row with
    supersededBy := if id = latest then row.supersededBy else some latest
    situationSignature := some cluster.key.1 }

section

variable {tables : Tables}

variable {latest : Uuid} {clusters : List Cluster}

theorem row?_foldl_link (links : Uuid → SupersessionLink)
    (hlinks : ∀ id, (links id).supersededId = id) {signature : String}
    (htarget : ∀ id, (links id).supersedingId = latest)
    (hsignature : ∀ id, (links id).situationSignature = signature) (ids : List Uuid) (id : Uuid) :
    (ids.foldl (fun tables id => linkSupersession tables (links id)) tables).outputs.row? id =
      if id ∈ ids then
        (tables.outputs.row? id).map fun row =>
          { row with
            supersededBy := some latest
            situationSignature := some signature }
      else tables.outputs.row? id := by
  induction ids generalizing tables with
  | nil => simp
  | cons head rest ih =>
    rw [foldl_cons, ih]
    unfold linkSupersession
    rw [row?_stampSuperseded, outputs_insertLink, hlinks, htarget, hsignature]
    by_cases hhead : id = head
    · subst hhead
      by_cases hrest : id ∈ rest
      · cases tables.outputs.row? id <;> simp [hrest]
      · simp [hrest]
    · by_cases hrest : id ∈ rest <;> simp [hhead, hrest]

variable {cluster : Cluster} {id : Uuid}

theorem row?_resolveCluster (hlatest : pickLatest cluster.rows = some latest) (id : Uuid) :
    (resolveCluster tables cluster).outputs.row? id =
      if id ∈ cluster.rows.map Prod.fst then
        (tables.outputs.row? id).map (cluster.settle latest id)
      else tables.outputs.row? id := by
  have hmem : latest ∈ cluster.rows.map Prod.fst := by
    obtain ⟨row, hrow, rfl⟩ := Option.map_eq_some_iff.mp hlatest
    exact mem_map_of_mem (firstBy_mem hrow)
  unfold resolveCluster
  rw [hlatest]
  rw [row?_foldl_link (cluster.link latest) (fun _ => rfl) (fun _ => rfl)
    (fun _ => rfl), row?_stampSignature]
  by_cases hid : id = latest
  · subst hid
    rw [if_neg (by simp), if_pos rfl, if_pos hmem]
    congr 1
    funext row
    simp [Cluster.settle]
  · by_cases hrow : id ∈ cluster.rows.map Prod.fst
    · rw [if_pos (mem_filter.mpr ⟨hrow, by simpa using hid⟩), if_neg hid, if_pos hrow]
      congr 1
      funext row
      simp [Cluster.settle, hid]
    · rw [if_neg fun h => hrow (mem_filter.mp h).1, if_neg hid, if_neg hrow]

theorem pickLatest_isSome {rows : List (Uuid × OutputRow)}
    (hrows : 1 < rows.length) : ∃ latest, pickLatest rows = some latest := by
  cases rows with
  | nil => simp at hrows
  | cons row rest =>
    obtain ⟨found, hfound⟩ := firstBy_isSome later (mem_cons_self (a := row) (l := rest))
    exact ⟨found.1, by rw [pickLatest, hfound]; rfl⟩

theorem row?_foldl_of_outside (hlong : ∀ cluster ∈ clusters, 1 < cluster.rows.length)
    (hout : ∀ cluster ∈ clusters, id ∉ cluster.rows.map Prod.fst) :
    (clusters.foldl resolveCluster tables).outputs.row? id = tables.outputs.row? id := by
  induction clusters generalizing tables with
  | nil => rfl
  | cons cluster rest ih =>
    rw [forall_mem_cons] at hlong hout
    obtain ⟨latest, hlatest⟩ := pickLatest_isSome hlong.1
    rw [foldl_cons, ih hlong.2 hout.2, row?_resolveCluster hlatest, if_neg hout.1]

theorem row?_foldl_of_member (hcluster : cluster ∈ clusters) (hid : id ∈ cluster.rows.map Prod.fst)
    (hlatest : pickLatest cluster.rows = some latest)
    (hlong : ∀ cluster ∈ clusters, 1 < cluster.rows.length)
    (hnodup : (clusters.map Cluster.key).Nodup)
    (hone : ∀ other ∈ clusters, id ∈ other.rows.map Prod.fst → other.key = cluster.key) :
    (clusters.foldl resolveCluster tables).outputs.row? id =
      (tables.outputs.row? id).map (cluster.settle latest id) := by
  induction clusters generalizing tables with
  | nil => cases hcluster
  | cons head rest ih =>
    rw [map_cons, nodup_cons] at hnodup
    rw [forall_mem_cons] at hlong hone
    rw [foldl_cons]
    rcases mem_cons.mp hcluster with rfl | hrest
    · have hout : ∀ other ∈ rest, id ∉ other.rows.map Prod.fst := by
        intro other hother hmem
        exact hnodup.1 (mem_map.mpr ⟨other, hother, hone.2 other hother hmem⟩)
      rw [row?_foldl_of_outside hlong.2 hout, row?_resolveCluster hlatest, if_pos hid]
    · have hheadOut : id ∉ head.rows.map Prod.fst := by
        intro hmem
        exact hnodup.1 (mem_map.mpr ⟨cluster, hrest, (hone.1 hmem).symm⟩)
      obtain ⟨other, hother⟩ := pickLatest_isSome hlong.1
      rw [ih hrest hlong.2 hnodup.2 hone.2, row?_resolveCluster hother, if_neg hheadOut]

end

structure PoolRun.Settles (run : PoolRun) (text : PythonText)
    (outputs : Outputs) (id : Uuid) (row : OutputRow) (cluster : Cluster)
    (latest : Uuid × OutputRow) : Prop where
  fetched : (id, row) ∈ run.fetchFindings outputs
  key : clusterKey text run.topicFallback row = some (some cluster.key)
  latestFetched : latest ∈ run.fetchFindings outputs
  latestKey : clusterKey text run.topicFallback latest.2 = some (some cluster.key)
  later : ∀ other ∈ run.fetchFindings outputs,
    clusterKey text run.topicFallback other.2 = some (some cluster.key) →
    other.1 ≠ latest.1 → Findings.later latest other = true

section

variable {run : PoolRun} {text : PythonText} {outputs : Outputs} {id : Uuid}
variable {row : OutputRow} {cluster : Cluster} {latest : Uuid × OutputRow}

section

variable (hsettles : run.Settles text outputs id row cluster latest)

include hsettles

theorem PoolRun.Settles.found :
    outputs.row? id = some row := (fetchFindings_eligible hsettles.fetched).1

theorem PoolRun.Settles.signature :
    signatureOf text run.topicFallback row = some (some cluster.key.1) :=
  (clusterKey_eq_some hsettles.key).1

theorem PoolRun.Settles.ofLatest : run.Settles text outputs latest.1 latest.2 cluster latest where
  fetched := hsettles.latestFetched
  key := hsettles.latestKey
  latestFetched := hsettles.latestFetched
  latestKey := hsettles.latestKey
  later := hsettles.later

theorem PoolRun.Settles.isOpen_iff {after : Tables}
    (hafter : after.outputs.row? id = some (cluster.settle latest.1 id row)) :
    after.IsOpen id ↔ id = latest.1 := by
  have hopen : row.supersededBy = none := eligible_open (fetchFindings_eligible hsettles.fetched).2
  constructor
  · rintro ⟨found, hfound, hnone⟩
    by_contra hdiff
    rw [hafter, Option.some.injEq] at hfound
    subst hfound
    simp [Cluster.settle, hdiff] at hnone
  · intro hid
    refine ⟨_, hafter, ?_⟩
    simp [Cluster.settle, hid, hopen]

end

end

variable {text : PythonText} {tables : Tables}

theorem row?_foldl_of_cluster {run : PoolRun} {found : List Cluster}
    (hfound : run.clusters text tables.outputs = some found) {cluster : Cluster}
    (hcluster : cluster ∈ found) {latest : Uuid} (hlatest : pickLatest cluster.rows = some latest)
    {member : Uuid × OutputRow} (hmember : member ∈ cluster.rows) :
    (found.foldl resolveCluster tables).outputs.row? member.1 =
      some (cluster.settle latest member.1 member.2) := by
  have hclusters := mem_clusters hfound
  obtain ⟨hfetched, hkey⟩ := ((hclusters cluster hcluster).2.2 member).mp hmember
  have hone : ∀ other ∈ found, member.1 ∈ other.rows.map Prod.fst → other.key = cluster.key := by
    intro other hother hmem
    obtain ⟨twin, htwin, heq⟩ := mem_map.mp hmem
    obtain ⟨htwinFetched, htwinKey⟩ := ((hclusters other hother).2.2 twin).mp htwin
    rw [eq_of_fetched htwinFetched hfetched heq, hkey] at htwinKey
    exact (Option.some.inj (Option.some.inj htwinKey)).symm
  rw [row?_foldl_of_member hcluster (mem_map_of_mem hmember) hlatest (fun other hother => (hclusters
    other hother).2.1) (nodup_keys_clusters hfound) hone, (fetchFindings_eligible hfetched).1]
  rfl

theorem row?_resolvePool (text : PythonText) (tables : Tables) (run : PoolRun) (id : Uuid) :
    ((resolvePool text tables run).outputs.row? id = tables.outputs.row? id ∧
      ∀ found, run.clusters text tables.outputs = some found →
        ∀ cluster ∈ found, id ∉ cluster.rows.map Prod.fst) ∨
    ∃ row cluster latest, run.Settles text tables.outputs id row cluster latest ∧
      (resolvePool text tables run).outputs.row? id = some (cluster.settle latest.1 id row) ∧
      (resolvePool text tables run).outputs.row? latest.1 =
        some (cluster.settle latest.1 latest.1 latest.2) := by
  unfold resolvePool
  cases hfound : run.clusters text tables.outputs with
  | none => exact .inl ⟨rfl, nofun⟩
  | some found =>
    simp only [Option.some.injEq, forall_eq']
    have hclusters := mem_clusters hfound
    have hlong : ∀ cluster ∈ found, 1 < cluster.rows.length :=
      fun cluster hcluster => (hclusters cluster hcluster).2.1
    by_cases hin : ∃ cluster ∈ found, id ∈ cluster.rows.map Prod.fst
    · obtain ⟨cluster, hcluster, hid⟩ := hin
      obtain ⟨finding, hfinding, rfl⟩ := mem_map.mp hid
      obtain ⟨latestId, hlatestId⟩ := pickLatest_isSome (hlong cluster hcluster)
      obtain ⟨latest, hlatest, rfl⟩ := Option.map_eq_some_iff.mp hlatestId
      have hmember := (hclusters cluster hcluster).2.2
      have hlatestMem := firstBy_mem hlatest
      obtain ⟨hfetched, hkey⟩ := (hmember finding).mp hfinding
      obtain ⟨hlatestFetched, hlatestKey⟩ := (hmember latest).mp hlatestMem
      refine .inr ⟨finding.2, cluster, latest, ?_, row?_foldl_of_cluster hfound hcluster hlatestId
        hfinding, row?_foldl_of_cluster hfound hcluster hlatestId hlatestMem⟩
      refine ⟨hfetched, hkey, hlatestFetched, hlatestKey, ?_⟩
      intro other hother hotherKey hne
      exact later_of_not_later hne (later_isStrictOrder.not_before hlatest
        ((hmember other).mpr ⟨hother, hotherKey⟩))
    · have hout : ∀ cluster ∈ found, id ∉ cluster.rows.map Prod.fst :=
        fun cluster hcluster hid => hin ⟨cluster, hcluster, hid⟩
      exact .inl ⟨row?_foldl_of_outside hlong hout, hout⟩

section

variable {text : PythonText} {tables : Tables}

variable {id : Uuid}

variable {row : OutputRow}

theorem signatureOf_settle {run : PoolRun} {outputs : Outputs} {cluster : Cluster}
    {latest : Uuid × OutputRow} (hsettles : run.Settles text outputs id row cluster latest)
    (target : Uuid) (fallback : Option String) :
    signatureOf text fallback (cluster.settle target id row) = some (some cluster.key.1) := by
  have hstable := signatureOf_stable hsettles.signature
  have hsettled : Stable text cluster.key.1 (cluster.settle target id row).analystId := hstable
  exact hsettled.signatureOf rfl fallback

theorem row?_resolvePool_keeps (text : PythonText) (run : PoolRun)
    (hrow : tables.outputs.row? id = some row) :
    ∃ after, (resolvePool text tables run).outputs.row? id = some after ∧
      after.producedAt = row.producedAt ∧ after.analystId = row.analystId ∧
      ∀ signature,
        (∀ fallback, signatureOf text fallback row = some (some signature)) →
        ∀ fallback, signatureOf text fallback after = some (some signature) := by
  rcases row?_resolvePool text tables run id with
    ⟨hsame, _⟩ | ⟨found, cluster, latest, hsettles, hafter, _⟩
  · exact ⟨row, hsame.trans hrow, rfl, rfl, fun _ h => h⟩
  · have hfound : row = found := by
      have hboth := hsettles.found
      rw [hrow, Option.some.injEq] at hboth
      exact hboth
    subst hfound
    refine ⟨_, hafter, rfl, rfl, ?_⟩
    intro signature hsignature fallback
    have hkey := hsettles.signature
    rw [hsignature, Option.some.injEq, Option.some.injEq] at hkey
    rw [hkey]
    exact signatureOf_settle hsettles latest.1 fallback

section

variable (hlater : PointersGoLater text tables)

include hlater

theorem PointersGoLater.resolvePool (run : PoolRun) :
    PointersGoLater text (resolvePool text tables run) := by
  intro id row target hrow hpointer
  rcases row?_resolvePool text tables run id with
    ⟨hsame, _⟩ | ⟨found, cluster, latest, hsettles, hafter, hlatest⟩
  · rw [hsame] at hrow
    obtain ⟨successor, signature, hsuccessor, hisLater, hanalyst,
      hsignatures⟩ := hlater id row target hrow hpointer
    obtain ⟨after, hafter, hproduced, hsameAnalyst, hkept⟩ :=
      row?_resolvePool_keeps text run hsuccessor
    refine ⟨after, signature, hafter, ?_, hsameAnalyst.trans hanalyst, ?_⟩
    · rw [later_congr (a := (target, successor)) (b := (id, row)) hproduced rfl]
      exact hisLater
    · intro fallback
      exact ⟨(hsignatures fallback).1,
        hkept signature (fun other => (hsignatures other).2) fallback⟩
  · rw [hafter, Option.some.injEq] at hrow
    subst hrow
    have hopen : found.supersededBy = none :=
      eligible_open (fetchFindings_eligible hsettles.fetched).2
    by_cases hid : id = latest.1
    · simp [Cluster.settle, hid, hopen] at hpointer
    · have htarget : target = latest.1 := by
        simp only [Cluster.settle, if_neg hid, Option.some.injEq] at hpointer
        exact hpointer.symm
      subst htarget
      refine ⟨_, cluster.key.1, hlatest, ?_, ?_, ?_⟩
      · refine Eq.trans ?_ (hsettles.later _ hsettles.fetched hsettles.key hid)
        exact later_congr (b := (id, found)) rfl rfl
      · exact (clusterKey_eq_some hsettles.latestKey).2.trans
          (clusterKey_eq_some hsettles.key).2.symm
      · intro fallback
        exact ⟨signatureOf_settle hsettles latest.1 fallback,
          signatureOf_settle hsettles.ofLatest latest.1 fallback⟩

theorem PointersGoLater.write (hnew : tables.outputs.row? id = none) (row : OutputRow) :
    PointersGoLater text { tables with
      outputs := tables.outputs.put id { row with supersededBy := none } } := by
  intro other found target hfound hpointer
  rcases row?_put_eq_some.mp hfound with ⟨_, rfl⟩ | ⟨_, hold⟩
  · cases hpointer
  · obtain ⟨successor, signature, hsuccessor, hrest⟩ := hlater other found target hold hpointer
    have hne : target ≠ id := by
      rintro rfl
      rw [hnew] at hsuccessor
      cases hsuccessor
    exact ⟨successor, signature, (row?_put_of_ne _ hne _).trans hsuccessor, hrest⟩

theorem PointersGoLater.step {event : FindingEvent} {next : Tables}
    (hstep : findingStep text tables event = some next) : PointersGoLater text next := by
  cases event with
  | write id row =>
    simp only [findingStep] at hstep
    split at hstep
    · cases hstep
    · next hnew =>
      cases hstep
      exact hlater.write hnew row
  | run run =>
    cases hstep
    exact hlater.resolvePool run

end

end

/-! ## The latest of a class -/

section

variable {text : PythonText} {run : PoolRun} {tables : Tables}

variable {key : ClusterKey} {id : Uuid}

theorem inClass_iff {outputs : Outputs}
    (hcap : (outputs.select run.eligible).length ≤ maxFindings) :
    run.InClass text outputs key id ↔
      ∃ row, (id, row) ∈ run.fetchFindings outputs ∧
        clusterKey text run.topicFallback row = some (some key) := by
  constructor
  · rintro ⟨row, hrow, heligible, hsignature, hanalyst⟩
    obtain ⟨analyst, hnamed, hplain⟩ := eligible_analyst heligible
    refine ⟨row, (mem_fetchFindings hcap).mpr ⟨hrow, heligible⟩, ?_⟩
    rw [clusterKey_of_analyst hnamed hplain hsignature, hanalyst]
  · rintro ⟨row, hfetched, hkey⟩
    obtain ⟨hrow, heligible⟩ := fetchFindings_eligible hfetched
    obtain ⟨hsignature, hanalyst⟩ := clusterKey_eq_some hkey
    exact ⟨row, hrow, heligible, hsignature, hanalyst⟩

theorem settles_of_member {found : List Cluster}
    (hfound : run.clusters text tables.outputs = some found) {cluster : Cluster}
    (hcluster : cluster ∈ found) {finding : Uuid × OutputRow} (hrows : finding ∈ cluster.rows) :
    ∃ row latest, run.Settles text tables.outputs finding.1 row cluster latest ∧
      (resolvePool text tables run).outputs.row? finding.1 =
        some (cluster.settle latest.1 finding.1 row) := by
  obtain ⟨hfinding, hkey⟩ := ((mem_clusters hfound cluster hcluster).2.2 finding).mp hrows
  rcases row?_resolvePool text tables run finding.1 with
    ⟨_, hout⟩ | ⟨row, named, latest, hsettles, hafter, _⟩
  · exact absurd (mem_map_of_mem hrows) (hout _ hfound cluster hcluster)
  · have hsame : named.key = cluster.key := by
      have hpair : (finding.1, row) = finding := eq_of_fetched hsettles.fetched hfinding rfl
      have hnamed := hsettles.key
      rw [← hpair, hnamed] at hkey
      exact Option.some.inj (Option.some.inj hkey)
    refine ⟨row, latest, ?_, ?_⟩
    · exact ⟨hsettles.fetched, hsame ▸ hsettles.key, hsettles.latestFetched,
        hsame ▸ hsettles.latestKey, hsame ▸ hsettles.later⟩
    · rw [hafter]
      simp only [Cluster.settle, hsame]

/-- No two findings of a class are left open: what a run leaves alone is alone
in its class, and what it settles stays open only as the latest. -/
theorem open_after_run (hcompletes : run.Completes text tables.outputs) {other : Uuid}
    {row otherRow : OutputRow} (hfetched : (id, row) ∈ run.fetchFindings tables.outputs)
    (hkey : clusterKey text run.topicFallback row = some (some key))
    (hopen : (resolvePool text tables run).IsOpen id)
    (hother : (other, otherRow) ∈ run.fetchFindings tables.outputs)
    (hotherKey : clusterKey text run.topicFallback otherRow = some (some key)) (hne : other ≠ id) :
    later (id, row) (other, otherRow) = true ∧ ¬(resolvePool text tables run).IsOpen other := by
  obtain ⟨found, hfound⟩ := Option.isSome_iff_exists.mp hcompletes.derived
  obtain ⟨cluster, hcluster, hclusterKey⟩ := exists_cluster hfound hfetched
    hother (fun heq => hne (congrArg Prod.fst heq).symm) hkey hotherKey
  have hmember := (mem_clusters hfound cluster hcluster).2.2
  subst hclusterKey
  obtain ⟨_, latest, hsettles, hafter⟩ := settles_of_member hfound hcluster
    ((hmember (id, row)).mpr ⟨hfetched, hkey⟩)
  obtain ⟨_, otherLatest, hotherSettles, hotherAfter⟩ :=
    settles_of_member hfound hcluster ((hmember (other, otherRow)).mpr ⟨hother, hotherKey⟩)
  have hid : id = latest.1 := (hsettles.isOpen_iff hafter).mp hopen
  have hlatest : (id, row) = latest := eq_of_fetched hfetched hsettles.latestFetched hid
  have hisLater : later (id, row) (other, otherRow) :=
    hlatest ▸ hsettles.later _ hother hotherKey
      (fun heq => hne (heq.trans hid.symm))
  refine ⟨hisLater, ?_⟩
  intro hotherOpen
  have heq : other = otherLatest.1 := (hotherSettles.isOpen_iff hotherAfter).mp hotherOpen
  have hpair : (other, otherRow) = otherLatest :=
    eq_of_fetched hother hotherSettles.latestFetched heq
  have hback := hotherSettles.later _ hfetched hkey
    (fun hsame => hne (heq.trans hsame.symm))
  rw [← hpair, later_isStrictOrder.asymm _ _ hisLater] at hback
  cases hback

theorem isOpen_of_latest {last : Uuid × OutputRow} (hlast : last ∈ run.fetchFindings tables.outputs)
    (hlastKey : clusterKey text run.topicFallback last.2 = some (some key))
    (hfirst : ∀ other ∈ run.fetchFindings tables.outputs, clusterKey text run.topicFallback
      other.2 = some (some key) → later other last = false) :
    (resolvePool text tables run).IsOpen last.1 := by
  obtain ⟨hrow, heligible⟩ := fetchFindings_eligible hlast
  rcases row?_resolvePool text tables run last.1 with
    ⟨hsame, _⟩ | ⟨found, cluster, latest, hsettles, hafter, _⟩
  · exact ⟨last.2, hsame.trans hrow, eligible_open heligible⟩
  · rw [hsettles.isOpen_iff hafter]
    by_contra hne
    have hpair : (last.1, found) = last := eq_of_fetched hsettles.fetched hlast rfl
    have hsame : some (some cluster.key) = some (some key) := by
      rw [← hsettles.key, ← hlastKey, ← hpair]
    have hbefore := hsettles.later _ hsettles.fetched hsettles.key hne
    rw [hpair, hfirst latest hsettles.latestFetched (hsettles.latestKey.trans hsame)] at hbefore
    cases hbefore

theorem class_keeps_latest (hcompletes : run.Completes text tables.outputs)
    {start : Uuid} (hstart : run.InClass text tables.outputs key start) :
    ∃ last lastRow, run.InClass text tables.outputs key last ∧
      tables.outputs.row? last = some lastRow ∧
      (∀ id row, run.InClass text tables.outputs key id →
        tables.outputs.row? id = some row → id ≠ last →
        later (last, lastRow) (id, row) = true) ∧
      ∀ id, run.InClass text tables.outputs key id →
        ((resolvePool text tables run).IsOpen id ↔ id = last) := by
  have hclass : ∀ {id}, run.InClass text tables.outputs key id ↔
      ∃ row, (id, row) ∈ run.fetchFindings tables.outputs ∧
        clusterKey text run.topicFallback row = some (some key) :=
    inClass_iff hcompletes.uncapped
  let members := (run.fetchFindings tables.outputs).filter fun finding =>
    decide (clusterKey text run.topicFallback finding.2 = some (some key))
  have hmembers : ∀ finding, finding ∈ members ↔
      finding ∈ run.fetchFindings tables.outputs ∧
        clusterKey text run.topicFallback finding.2 = some (some key) := by
    intro finding
    rw [mem_filter, decide_eq_true_eq]
  obtain ⟨startRow, hstartRow⟩ := hclass.mp hstart
  obtain ⟨last, hlast⟩ := firstBy_isSome later ((hmembers (start, startRow)).mpr hstartRow)
  obtain ⟨hlastFetched, hlastKey⟩ := (hmembers last).mp (firstBy_mem hlast)
  have hlastRow := (fetchFindings_eligible hlastFetched).1
  have hopen : (resolvePool text tables run).IsOpen last.1 := by
    apply isOpen_of_latest hlastFetched hlastKey
    intro other hother hotherKey
    exact later_isStrictOrder.not_before hlast ((hmembers other).mpr ⟨hother, hotherKey⟩)
  refine ⟨last.1, last.2, hclass.mpr ⟨last.2, hlastFetched, hlastKey⟩, hlastRow, ?_, ?_⟩
  · intro id row hid hrow hne
    obtain ⟨found, hfetched, hkey⟩ := hclass.mp hid
    have hsame := (fetchFindings_eligible hfetched).1
    rw [hrow, Option.some.injEq] at hsame
    subst hsame
    exact (open_after_run hcompletes hlastFetched hlastKey hopen hfetched hkey hne).1
  · intro id hid
    constructor
    · intro hidOpen
      by_contra hne
      obtain ⟨found, hfetched, hkey⟩ := hclass.mp hid
      exact (open_after_run hcompletes hlastFetched hlastKey hopen hfetched hkey hne).2 hidOpen
    · rintro rfl
      exact hopen

variable {now : Datetime}

theorem fetchFindings_again (hnow : run.now ≤ now) {after : OutputRow}
    (hafter : (id, after) ∈ { run with now := now }.fetchFindings (resolvePool text tables
      run).outputs) (hkey : clusterKey text run.topicFallback after = some (some key))
    (hcap : (tables.outputs.select run.eligible).length ≤ maxFindings) :
    (resolvePool text tables run).IsOpen id ∧
      ∃ row, (id, row) ∈ run.fetchFindings tables.outputs ∧
        clusterKey text run.topicFallback row = some (some key) := by
  obtain ⟨hrow, heligible⟩ := fetchFindings_eligible hafter
  refine ⟨⟨after, hrow, eligible_open heligible⟩, ?_⟩
  rcases row?_resolvePool text tables run id with
    ⟨hsame, _⟩ | ⟨found, cluster, latest, hsettles, hsettled, _⟩
  · refine ⟨after, (mem_fetchFindings hcap).mpr ⟨hsame ▸ hrow, ?_⟩, hkey⟩
    simp only [PoolRun.eligible, and_eq_true, decide_eq_true_eq] at heligible ⊢
    have hwindow := Int.lt_of_le_of_lt (Int.sub_le_sub_right hnow _) heligible.1.1.1.2
    exact ⟨⟨⟨⟨heligible.1.1.1.1, hwindow⟩, heligible.1.1.2⟩, heligible.1.2⟩, heligible.2⟩
  · refine ⟨found, hsettles.fetched, hsettles.key.trans ?_⟩
    have hafterRow : cluster.settle latest.1 id found = after := by
      rwa [hsettled, Option.some.injEq] at hrow
    obtain ⟨hsignature, hanalyst⟩ := clusterKey_eq_some hkey
    rw [← hafterRow, signatureOf_settle hsettles, Option.some.injEq,
      Option.some.injEq] at hsignature
    have hown := (clusterKey_eq_some hsettles.key).2
    rw [← hafterRow] at hanalyst
    have hkeys : cluster.key = key := Prod.ext hsignature (hown.symm.trans hanalyst)
    rw [hkeys]

theorem resolvePool_again (hcompletes : run.Completes text tables.outputs) (hnow : run.now ≤ now) :
    resolvePool text (resolvePool text tables run) { run with now := now } =
      resolvePool text tables run := by
  generalize hafter : resolvePool text tables run = after
  unfold resolvePool
  cases hfound : PoolRun.clusters { run with now := now } text after.outputs with
  | none => rfl
  | some found =>
    cases found with
    | nil => rfl
    | cons cluster rest =>
      obtain ⟨hsublist, hlong, hmember⟩ := mem_clusters hfound cluster mem_cons_self
      have hnodup : (cluster.rows.map Prod.fst).Nodup :=
        nodup_fetchFindings.sublist (hsublist.map Prod.fst)
      match hrows : cluster.rows with
      | [] => simp [hrows] at hlong
      | [row] => simp [hrows] at hlong
      | first :: second :: others =>
        rw [hrows] at hnodup hmember
        have hne : second.1 ≠ first.1 := by
          intro heq
          simp [heq] at hnodup
        obtain ⟨hfirst, hfirstKey⟩ := (hmember first).mp (by simp)
        obtain ⟨hsecond, hsecondKey⟩ := (hmember second).mp (by simp)
        subst hafter
        obtain ⟨hfirstOpen, firstRow, hfirst, hfirstKey⟩ :=
          fetchFindings_again hnow hfirst hfirstKey hcompletes.uncapped
        obtain ⟨hsecondOpen, secondRow, hsecond, hsecondKey⟩ :=
          fetchFindings_again hnow hsecond hsecondKey hcompletes.uncapped
        exact absurd hsecondOpen (open_after_run hcompletes hfirst
          hfirstKey hfirstOpen hsecond hsecondKey hne).2

end

theorem PointersGoLater.acyclic (hlater : PointersGoLater text tables) :
    PointerForest.Acyclic tables.successor := by
  let before : Uuid → Uuid → Prop := fun id target =>
    ∃ row other, tables.outputs.row? id = some row ∧
      tables.outputs.row? target = some other ∧
      later (target, other) (id, row) = true
  have htrans : ∀ a b c, before a b → before b c → before a c := by
    rintro a b c ⟨first, second, hfirst, hsecond, hab⟩ ⟨found, third, hfound, hthird, hbc⟩
    rw [hsecond, Option.some.injEq] at hfound
    subst hfound
    exact ⟨first, third, hfirst, hthird, later_isStrictOrder.trans hbc hab⟩
  have hirrefl : ∀ id, ¬before id id := by
    rintro id ⟨row, other, hrow, hother, hself⟩
    rw [hrow, Option.some.injEq] at hother
    subst hother
    rw [later_isStrictOrder.irrefl] at hself
    cases hself
  refine PointerForest.acyclic_of_strict htrans hirrefl ?_
  intro id target hpointer
  obtain ⟨row, hrow, hsuccessor⟩ := Option.bind_eq_some_iff.mp hpointer
  obtain ⟨other, _, hother, hisLater, _⟩ := hlater id row target hrow hsuccessor
  exact ⟨row, other, hrow, hother, hisLater⟩

def plainText : PythonText where
  str := fun _ => ""
  strip := fun text => text
  lower := fun text => text

def report (analystId situation : String) (producedAt : Datetime) : OutputRow where
  isFinding := true
  analystId := some analystId
  producedAt := producedAt
  data := .object [("data", .object [("situation_id", .string situation)])]
  situationSignature := none
  supersededBy := none

def unscopedRun : PoolRun where
  analystId := none
  ownerTenant := none
  lookbackDays := 30
  topicFallback := none
  now := 100

end Legba.Findings
