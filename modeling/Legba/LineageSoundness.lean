import Legba.FirstTrails
import Legba.LineageWalk

/-!
# What the lineage walk sees

The walk looks at every row within the depth along its first trail, so its
report is determined by first trails: which rows are missing, whether the
depth was exhausted, and whether an ancestor lies on the first trail of its
row.  A cycle is seen only if one closes in this way, and the tables on which
this is enough are described exactly.
-/

namespace Legba.Lineage

open FirstTrails KeyedTable Relation List

def ancestors (rows : Rows) (id : Uuid) : List Uuid :=
  (rows.row? id).elim [] fun row => row.derivedFrom.getD []

def DerivesFrom (rows : Rows) (id ancestor : Uuid) : Prop :=
  ancestor ∈ ancestors rows id

def Reaches (rows : Rows) (root id : Uuid) : Prop :=
  ReflTransGen (DerivesFrom rows) root id

def HasCycle (rows : Rows) (root : Uuid) : Prop :=
  ∃ id, Reaches rows root id ∧ TransGen (DerivesFrom rows) id id

def ClosesOnFirstTrail (rows : Rows) (root id : Uuid) : Prop :=
  ∃ word path, First (ancestors rows) root word path id ∧
    ∃ ancestor ∈ ancestors rows id, ancestor ∈ path

def RunsOut (rows : Rows) (root : Uuid) (maxDepth : ℕ) (id : Uuid) : Prop :=
  ∃ word path, First (ancestors rows) root word path id ∧
    word.length = maxDepth ∧ ∃ ancestor ∈ ancestors rows id, ancestor ∉ path

/-- A walk which did not run out of depth reports a cycle exactly if there is
one, and exactly the missing rows, each once; and a report which is ok is of
an acyclic and complete lineage. -/
structure Sound (rows : Rows) (root : Uuid) (report : LineageReport) : Prop where
  cycles : report.depthExhausted = false → (report.cycles ≠ [] ↔ HasCycle rows root)
  dangling : report.depthExhausted = false → ∀ id,
    id ∈ report.dangling ↔ Reaches rows root id ∧ rows.row? id = none
  once : report.depthExhausted = false → report.dangling.Nodup
  ok : report.ok = true → ¬HasCycle rows root ∧
    ∀ id, Reaches rows root id → (rows.row? id).isSome = true

variable {rows : Rows} {root : Uuid} {maxDepth : ℕ}

variable {word : List ℕ} {path : List Uuid} {id : Uuid}

theorem reaches_of_trail (htrail : Trail (ancestors rows) root word path id) :
    Reaches rows root id := by
  induction htrail with
  | start => exact .refl
  | step before edge ih => exact ih.tail (mem_of_getElem? edge)

theorem derives_of_mem_path {inner : Uuid} (htrail : Trail (ancestors rows) root word path id)
    (hinner : inner ∈ path) : ReflTransGen (DerivesFrom rows) inner id := by
  induction htrail with
  | start =>
    rw [mem_singleton] at hinner
    subst hinner
    exact .refl
  | step before edge ih =>
    rcases mem_append.mp hinner with hpath | hlast
    · exact (ih hpath).tail (mem_of_getElem? edge)
    · rw [mem_singleton] at hlast
      subst hlast
      exact .refl

theorem hasCycle_of_closes (hcloses : ClosesOnFirstTrail rows root id) : HasCycle rows root := by
  obtain ⟨word, path, hfirst, ancestor, hancestor, hpath⟩ := hcloses
  have hback := derives_of_mem_path hfirst.trail hpath
  exact ⟨id, reaches_of_trail hfirst.trail, .head' hancestor hback⟩

/-! ## The walk keeps to the frontier -/

def entry (item : Item Uuid) : Uuid × ℕ × List Uuid :=
  (item.node, item.word.length, item.path)

/-- The report of a walk over the rows looked at, with the trails in its
queue. -/
structure Tracks (rows : Rows) (root : Uuid) (maxDepth : ℕ)
    (items : List (Item Uuid)) (walk : Walk) : Prop where
  frontier : Frontier (ancestors rows) root maxDepth items walk.visited
  queue : walk.queue = items.map entry
  limit : walk.report.maxDepth = maxDepth
  cycles : walk.report.cycles ≠ [] ↔ ∃ id ∈ walk.visited, ClosesOnFirstTrail rows root id
  dangling : ∀ id, id ∈ walk.report.dangling ↔ id ∈ walk.visited ∧ rows.row? id = none
  once : walk.report.dangling.Nodup
  exhausted : (walk.report.depthExhausted = true ∨ ∃ item ∈ items, maxDepth < item.word.length) ↔
    ∃ id ∈ walk.visited, RunsOut rows root maxDepth id

theorem tracks_start (table : String) :
    Tracks rows root maxDepth [⟨[], [root], root⟩] (Walk.start table root maxDepth) where
  frontier := frontier_start maxDepth
  queue := rfl
  limit := rfl
  cycles := by simp [Walk.start]
  dangling := by simp [Walk.start]
  once := nodup_nil
  exhausted := by simp [Walk.start]

theorem closes_iff (hfirst : First (ancestors rows) root word path id) :
    ClosesOnFirstTrail rows root id ↔ ∃ ancestor ∈ ancestors rows id, ancestor ∈ path := by
  constructor
  · rintro ⟨other, otherPath, hother, hcloses⟩
    rw [(hfirst.unique hother).2]
    exact hcloses
  · exact fun hcloses => ⟨word, path, hfirst, hcloses⟩

theorem runsOut_iff (hfirst : First (ancestors rows) root word path id) :
    RunsOut rows root maxDepth id ↔ word.length = maxDepth ∧
      ∃ ancestor ∈ ancestors rows id, ancestor ∉ path := by
  constructor
  · rintro ⟨other, otherPath, hother, hruns⟩
    obtain ⟨rfl, rfl⟩ := hfirst.unique hother
    exact hruns
  · exact fun hruns => ⟨word, path, hfirst, hruns⟩

theorem children_entries (item : Item Uuid) :
    (item.children (ancestors rows)).map entry =
      ((ancestors rows item.node).filter (· ∉ item.path)).map fun ancestor =>
        (ancestor, item.word.length + 1, item.path ++ [ancestor]) := by
  unfold Item.children
  generalize 0 = start
  induction ancestors rows item.node generalizing start with
  | nil => rfl
  | cons head tail ih =>
    by_cases hhead : head ∈ item.path
    · simp [hhead, ih]
    · simp [hhead, ih, entry]

theorem exists_long_child_iff {item : Item Uuid} (hlength : item.word.length ≤ maxDepth) :
    (∃ child ∈ item.children (ancestors rows), maxDepth < child.word.length) ↔
      item.word.length = maxDepth ∧
        ∃ ancestor ∈ ancestors rows item.node, ancestor ∉ item.path := by
  constructor
  · rintro ⟨child, hchild, hlong⟩
    obtain ⟨index, ancestor, hedge, hpath, rfl⟩ := Item.mem_children.mp hchild
    rw [length_append, length_singleton] at hlong
    exact ⟨by omega, ancestor, mem_of_getElem? hedge, hpath⟩
  · rintro ⟨heq, ancestor, hancestor, hpath⟩
    obtain ⟨index, hedge⟩ := mem_iff_getElem?.mp hancestor
    refine ⟨_, Item.mem_children.mpr ⟨index, ancestor, hedge, hpath, rfl⟩, ?_⟩
    rw [length_append, length_singleton]
    omega

section

variable {items : List (Item Uuid)} {item : Item Uuid} {walk : Walk}

section

variable (htracks : Tracks rows root maxDepth (item :: items) walk)

include htracks

theorem Tracks.exhausted_tail (hlength : item.word.length ≤ maxDepth) :
    (walk.report.depthExhausted = true ∨ ∃ other ∈ items, maxDepth < other.word.length) ↔
      ∃ id ∈ walk.visited, RunsOut rows root maxDepth id := by
  rw [← htracks.exhausted]
  simp [hlength.not_gt]

theorem Tracks.tooLong (hlong : maxDepth < item.word.length) :
    Tracks rows root maxDepth items
      { walk with
        report := { walk.report with depthExhausted := true }
        queue := items.map entry } where
  frontier := htracks.frontier.tail_of_long hlong
  queue := rfl
  limit := htracks.limit
  cycles := htracks.cycles
  dangling := htracks.dangling
  once := htracks.once
  exhausted := by
    have hruns := htracks.exhausted.mp (.inr ⟨item, mem_cons_self, hlong⟩)
    exact ⟨fun _ => hruns, fun _ => .inl rfl⟩

section

variable (hlength : item.word.length ≤ maxDepth)

include hlength

theorem Tracks.seen (hvisited : item.node ∈ walk.visited) :
    Tracks rows root maxDepth items
      { walk with queue := items.map entry } where
  frontier := htracks.frontier.tail_of_visited hvisited
  queue := rfl
  limit := htracks.limit
  cycles := htracks.cycles
  dangling := htracks.dangling
  once := htracks.once
  exhausted := htracks.exhausted_tail hlength

theorem Tracks.missing (hvisited : item.node ∉ walk.visited) (hrow : rows.row? item.node = none) :
    Tracks rows root maxDepth items
      { report :=
          { walk.report with
            dangling := walk.report.dangling ++ [item.node] }
        visited := item.node :: walk.visited
        queue := items.map entry } := by
  have hfirst := htracks.frontier.first_head hlength hvisited
  have hfrontier := htracks.frontier.expand hlength hvisited
  have hnone : ancestors rows item.node = [] := by simp [ancestors, hrow]
  have hchildren : item.children (ancestors rows) = [] := by simp [Item.children, hnone]
  rw [hchildren, append_nil] at hfrontier
  refine ⟨hfrontier, rfl, htracks.limit, ?_, ?_, ?_, ?_⟩
  · rw [htracks.cycles]
    simp [closes_iff hfirst, hnone]
  · intro id
    rw [mem_append, htracks.dangling, mem_singleton, mem_cons]
    constructor
    · rintro (⟨hold, hmissing⟩ | rfl)
      · exact ⟨.inr hold, hmissing⟩
      · exact ⟨.inl rfl, hrow⟩
    · rintro ⟨rfl | hold, hmissing⟩
      · exact .inr rfl
      · exact .inl ⟨hold, hmissing⟩
  · apply htracks.once.append (nodup_singleton _)
    rw [disjoint_singleton, htracks.dangling]
    exact fun hold => hvisited hold.1
  · rw [htracks.exhausted_tail hlength]
    simp [runsOut_iff hfirst, hnone]

theorem Tracks.expand (hvisited : item.node ∉ walk.visited) {row : LineageRow}
    (hrow : rows.row? item.node = some row) :
    Tracks rows root maxDepth (items ++ item.children (ancestors rows))
      (walk.expand row item.node item.word.length item.path (items.map entry)) := by
  have hfirst := htracks.frontier.first_head hlength hvisited
  have hfrontier := htracks.frontier.expand hlength hvisited
  have hancestors : ancestors rows item.node = row.derivedFrom.getD [] := by simp [ancestors, hrow]
  refine ⟨hfrontier, ?_, htracks.limit, ?_, ?_, htracks.once, ?_⟩
  · rw [map_append, children_entries, hancestors]
    rfl
  · simp only [Walk.expand, ne_eq, append_eq_nil_iff, map_eq_nil_iff, filter_eq_nil_iff, not_and_or]
    rw [← ne_eq, htracks.cycles]
    simp [closes_iff hfirst, hancestors, or_comm]
  · intro id
    simp only [Walk.expand, mem_cons]
    rw [htracks.dangling]
    constructor
    · rintro ⟨hold, hmissing⟩
      exact ⟨.inr hold, hmissing⟩
    · rintro ⟨rfl | hold, hmissing⟩
      · rw [hrow] at hmissing
        cases hmissing
      · exact ⟨hold, hmissing⟩
  · have hchild : (∃ child ∈ item.children (ancestors rows), maxDepth < child.word.length) ↔
        RunsOut rows root maxDepth item.node :=
      (exists_long_child_iff hlength).trans (runsOut_iff hfirst).symm
    simp only [Walk.expand, mem_append, mem_cons]
    rw [exists_eq_or_imp, ← hchild, ← htracks.exhausted_tail hlength]
    constructor
    · rintro (h | ⟨other, hold | hnew, hlong⟩)
      · exact .inr (.inl h)
      · exact .inr (.inr ⟨other, hold, hlong⟩)
      · exact .inl ⟨other, hnew, hlong⟩
    · rintro (⟨other, hnew, hlong⟩ | h | ⟨other, hold, hlong⟩)
      · exact .inr ⟨other, .inr hnew, hlong⟩
      · exact .inl h
      · exact .inr ⟨other, .inl hold, hlong⟩

end

theorem Tracks.look : ∃ items', Tracks rows root maxDepth items' (walk.look rows) := by
  have hqueue : walk.queue = (item.node, item.word.length, item.path) ::
      items.map entry := htracks.queue
  unfold Walk.look
  rw [hqueue, htracks.limit]
  simp only
  by_cases hlong : maxDepth < item.word.length
  · rw [if_pos hlong]
    exact ⟨items, htracks.tooLong hlong⟩
  · rw [if_neg hlong]
    have hlength : item.word.length ≤ maxDepth := by omega
    by_cases hvisited : item.node ∈ walk.visited
    · rw [if_pos hvisited]
      exact ⟨items, htracks.seen hlength hvisited⟩
    · rw [if_neg hvisited]
      cases hrow : rows.row? item.node with
      | none => exact ⟨items, htracks.missing hlength hvisited hrow⟩
      | some row =>
        exact ⟨items ++ item.children (ancestors rows), htracks.expand hlength hvisited hrow⟩

end

end

theorem Tracks.rounds {items : List (Item Uuid)} {walk : Walk}
    (htracks : Tracks rows root maxDepth items walk) (rounds : ℕ) :
    ∃ items', Tracks rows root maxDepth items' (Walk.rounds rows rounds walk) := by
  induction rounds generalizing items walk with
  | zero => exact ⟨items, htracks⟩
  | succ rounds ih =>
    cases items with
    | nil =>
      rw [Walk.rounds_of_queue_nil rows htracks.queue]
      exact ⟨[], htracks⟩
    | cons item items =>
      obtain ⟨items', hnext⟩ := htracks.look
      exact ih hnext

theorem tracks_walkLineage (table : String) :
    Tracks rows root maxDepth [] (walkLineage rows table root maxDepth) := by
  have hstart : Tracks rows root maxDepth [⟨[], [root], root⟩]
      (Walk.start table root maxDepth) := tracks_start table
  obtain ⟨items, htracks⟩ := hstart.rounds (roundsNeeded rows)
  have hqueue := walkLineage_queue rows table root maxDepth
  have hitems : items = [] := by
    have hmap := htracks.queue.symm.trans hqueue
    exact map_eq_nil_iff.mp hmap
  subst hitems
  exact htracks

/-! ## The report -/

section

variable {walk : Walk} (htracks : Tracks rows root maxDepth [] walk)

include htracks

variable {id : Uuid}

theorem Tracks.mem_visited_iff :
    id ∈ walk.visited ↔ ∃ word path,
      First (ancestors rows) root word path id ∧ word.length ≤ maxDepth := by
  constructor
  · intro hvisited
    obtain ⟨word, path, hfirst, hlength, _⟩ := htracks.frontier.settled id hvisited
    exact ⟨word, path, hfirst, hlength⟩
  · rintro ⟨word, path, hfirst, hlength⟩
    by_contra hnew
    obtain ⟨item, hitem, _⟩ := htracks.frontier.covers id word path hfirst hlength hnew
    cases hitem

theorem Tracks.depthExhausted_iff :
    walk.report.depthExhausted = true ↔ ∃ id, RunsOut rows root maxDepth id := by
  have hexhausted := htracks.exhausted
  simp only [not_mem_nil, false_and, exists_false, or_false] at hexhausted
  rw [hexhausted]
  constructor
  · rintro ⟨id, _, hruns⟩
    exact ⟨id, hruns⟩
  · rintro ⟨id, word, path, hfirst, hlength, hruns⟩
    exact ⟨id, htracks.mem_visited_iff.mpr ⟨word, path, hfirst, hlength.le⟩,
      word, path, hfirst, hlength, hruns⟩

section

variable (hdepth : walk.report.depthExhausted = false)

include hdepth

theorem Tracks.visited_of_reaches (hreaches : Reaches rows root id) : id ∈ walk.visited := by
  induction hreaches with
  | refl =>
    have hstart : Trail (ancestors rows) root [] [root] root := .start
    obtain ⟨word, path, hfirst, hnot⟩ := hstart.exists_first
    refine htracks.mem_visited_iff.mpr ⟨word, path, hfirst, ?_⟩
    by_contra hlong
    exact hnot (earlier_of_length_lt (by simp; omega))
  | @tail id ancestor _ hedge ih =>
    obtain ⟨word, path, hfirst, hlength⟩ := htracks.mem_visited_iff.mp ih
    by_cases hpath : ancestor ∈ path
    · obtain ⟨before, beforePath, suffix, htrail, rfl⟩ := hfirst.trail.of_mem hpath
      rw [length_append] at hlength
      exact htracks.mem_visited_iff.mpr ⟨before, beforePath, hfirst.initial htrail, by omega⟩
    · have hless : word.length < maxDepth := by
        by_contra hfull
        have hruns : RunsOut rows root maxDepth id :=
          ⟨word, path, hfirst, by omega, ancestor, hedge, hpath⟩
        have hexhausted := htracks.depthExhausted_iff.mpr ⟨id, hruns⟩
        rw [hdepth] at hexhausted
        cases hexhausted
      obtain ⟨index, hindex⟩ := mem_iff_getElem?.mp hedge
      obtain ⟨first, firstPath, hancestor, hnot⟩ := (Trail.step hfirst.trail hindex).exists_first
      refine htracks.mem_visited_iff.mpr ⟨first, firstPath, hancestor, ?_⟩
      by_contra hlong
      refine hnot (earlier_of_length_lt ?_)
      rw [length_append, length_singleton]
      omega

theorem Tracks.visited_iff_reaches : id ∈ walk.visited ↔ Reaches rows root id := by
  constructor
  · intro hvisited
    obtain ⟨word, path, hfirst, _⟩ := htracks.mem_visited_iff.mp hvisited
    exact reaches_of_trail hfirst.trail
  · exact htracks.visited_of_reaches hdepth

theorem Tracks.cycles_ne_nil_iff :
    walk.report.cycles ≠ [] ↔ ∃ id, ClosesOnFirstTrail rows root id := by
  rw [htracks.cycles]
  constructor
  · rintro ⟨id, _, hcloses⟩
    exact ⟨id, hcloses⟩
  · rintro ⟨id, hcloses⟩
    have hreaches : Reaches rows root id := by
      obtain ⟨word, path, hfirst, _⟩ := hcloses
      exact reaches_of_trail hfirst.trail
    exact ⟨id, htracks.visited_of_reaches hdepth hreaches, hcloses⟩

end

theorem Tracks.sound_iff :
    Sound rows root walk.report ↔
      (∃ id, RunsOut rows root maxDepth id) ∨ ¬HasCycle rows root ∨
        ∃ id, ClosesOnFirstTrail rows root id := by
  constructor
  · intro hsound
    by_cases hdepth : walk.report.depthExhausted = true
    · exact .inl (htracks.depthExhausted_iff.mp hdepth)
    · rw [Bool.not_eq_true] at hdepth
      refine .inr ?_
      rw [← imp_iff_not_or, ← htracks.cycles_ne_nil_iff hdepth]
      exact (hsound.cycles hdepth).mpr
  · intro hcondition
    have hcycles : walk.report.depthExhausted = false →
        (walk.report.cycles ≠ [] ↔ HasCycle rows root) := by
      intro hdepth
      rw [htracks.cycles_ne_nil_iff hdepth]
      refine ⟨fun ⟨id, hcloses⟩ => hasCycle_of_closes hcloses, ?_⟩
      intro hcycle
      rcases hcondition with hruns | hacyclic | hcloses
      · rw [← htracks.depthExhausted_iff, hdepth] at hruns
        cases hruns
      · exact absurd hcycle hacyclic
      · exact hcloses
    have hdangling : walk.report.depthExhausted = false → ∀ id,
        id ∈ walk.report.dangling ↔ Reaches rows root id ∧ rows.row? id = none := by
      intro hdepth id
      rw [htracks.dangling, htracks.visited_iff_reaches hdepth]
    refine ⟨hcycles, hdangling, fun _ => htracks.once, ?_⟩
    intro hok
    simp only [LineageReport.ok, Bool.not_or, Bool.not_not,
      Bool.and_eq_true, Bool.not_eq_true', List.isEmpty_iff] at hok
    obtain ⟨⟨hnoCycles, hcomplete⟩, hdepth⟩ := hok
    constructor
    · intro hcycle
      exact (hcycles hdepth).mpr hcycle hnoCycles
    · intro id hreaches
      by_contra hmissing
      rw [Option.not_isSome_iff_eq_none] at hmissing
      have hmem := (hdangling hdepth id).mpr ⟨hreaches, hmissing⟩
      rw [hcomplete] at hmem
      cases hmem

end

/-- For every table and root the loop ends, and its report is sound exactly
when the depth runs out, or no cycle is reachable, or one closes on the first
trail of its row. -/
theorem lineage_sound_iff (rows : Rows) (table : String) (root : Uuid) (maxDepth : ℕ) :
    (walkLineage rows table root maxDepth).queue = [] ∧
      (Sound rows root (walkLineage rows table root maxDepth).report ↔
        (∃ id, RunsOut rows root maxDepth id) ∨ ¬HasCycle rows root ∨
          ∃ id, ClosesOnFirstTrail rows root id) :=
  ⟨walkLineage_queue rows table root maxDepth, (tracks_walkLineage table).sound_iff⟩

def mutualSiblings : Rows :=
  ((Table.empty.put 0 ⟨none, none, some [1, 2]⟩).put 1
    ⟨none, none, some [2]⟩).put 2 ⟨none, none, some [1]⟩

/-- Each of the two is found from the root first, so neither lies on the
trail of the other, and the cycle is certified. -/
theorem mutual_siblings_certified :
    ¬Sound mutualSiblings 0 (walkLineage mutualSiblings "analyst_outputs" 0 20).report := by
  intro hsound
  have hok : (walkLineage mutualSiblings "analyst_outputs" 0 20).report.ok =
      true := by decide
  have hforth : DerivesFrom mutualSiblings 1 2 := by
    have hmem : (2 : Uuid) ∈ ancestors mutualSiblings 1 := by decide
    exact hmem
  have hback : DerivesFrom mutualSiblings 2 1 := by
    have hmem : (1 : Uuid) ∈ ancestors mutualSiblings 2 := by decide
    exact hmem
  have hroot : DerivesFrom mutualSiblings 0 1 := by
    have hmem : (1 : Uuid) ∈ ancestors mutualSiblings 0 := by decide
    exact hmem
  exact (hsound.ok hok).1 ⟨1, .single hroot, .tail (.single hforth) hback⟩

end Legba.Lineage
