import Legba.BreadthFirst
import Mathlib.Data.List.Dedup
import Mathlib.Data.List.Perm.Subperm

/-!
# The path of a breadth-first search is a shortest one

The depth of a reached node is the number of edges on its way back to the
root.  The queue is in the order of depth and spans at most two depths, and a
node which has left the queue has passed its depth on to all its neighbours.
So a walk to the target either ends in a node of at most that depth, or leads
through the queue.
-/

namespace BreadthFirst

open List Visited

variable {Node Label : Type*} [DecidableEq Node]

def depth : Visited Node Label → Node → ℕ
  | [], _ => 0
  | (next, origin) :: before, node =>
    if node = next then
      match origin with
      | none => 0
      | some (parent, _) => depth before parent + 1
    else depth before node

variable {neighbours : Node → List (Node × Label)} {root target : Node}
  {visited : Visited Node Label} {queue : List Node}

variable {node : Node} {rounds : ℕ} {after : Visited Node Label}
  {targets : List Node} {steps : List (Node × Label)}

@[simp] theorem depth_new {parent : Node} {label : Label} :
    depth ((node, some (parent, label)) :: visited) node = depth visited parent + 1 := by
  simp [depth]

theorem depth_old {next : Node} {origin : Option (Node × Label)} (hne : node ≠ next) :
    depth ((next, origin) :: visited) node = depth visited node := by
  exact if_neg hne

theorem Reaches.length_trace (hreaches : Reaches neighbours root visited)
    (hnode : node ∈ nodes visited) (hrounds : visited.length ≤ rounds) :
    (trace visited rounds node).length = depth visited node := by
  induction hreaches generalizing node rounds with
  | root =>
    rw [nodes, map_singleton, mem_singleton] at hnode
    subst hnode
    cases rounds with
    | zero => simp [trace, depth]
    | succ rounds => simp [trace, depth]
  | @visit visited parent next label before known edge new ih =>
    rw [length_cons] at hrounds
    by_cases hnext : node = next
    · subst hnext
      obtain ⟨rounds, rfl⟩ : ∃ below, rounds = below + 1 := ⟨rounds - 1, by omega⟩
      unfold trace
      rw [lookup_cons, beq_self_eq_true]
      simp only
      rw [trace_cons before new known, length_cons, ih known (by omega), depth_new]
    · have hold : node ∈ nodes visited := (mem_cons.mp hnode).resolve_left hnext
      rw [trace_cons before new hold, ih hold (by omega), depth_old hnext]

/-! ## The frontier -/

structure Frontier (neighbours : Node → List (Node × Label))
    (visited : Visited Node Label) (queue : List Node) : Prop where
  queued : ∀ node ∈ queue, node ∈ nodes visited
  sorted : queue.Pairwise fun a b => depth visited a ≤ depth visited b
  ahead : ∀ node ∈ nodes visited, ∀ waiting ∈ queue,
    depth visited node ≤ depth visited waiting + 1
  closed : ∀ node ∈ nodes visited, node ∉ queue →
    ∀ edge ∈ neighbours node, edge.1 ∈ nodes visited ∧
      depth visited edge.1 ≤ depth visited node + 1

theorem frontier_root : Frontier neighbours [(root, none)] [root] where
  queued := fun node hnode => hnode
  sorted := pairwise_singleton _ _
  ahead := by
    intro node hnode waiting hwaiting
    rw [mem_singleton.mp hwaiting, mem_singleton.mp hnode]
    exact Nat.le_succ _
  closed := fun node hnode hdone => absurd hnode hdone

structure Grows (node : Node) (edges : List (Node × Label))
    (before after : Visited Node Label) (fresh : List Node) : Prop where
  kept : ∀ other ∈ nodes before, other ∈ nodes after ∧
    depth after other = depth before other
  mem_iff : ∀ other, other ∈ nodes after ↔ other ∈ nodes before ∨ other ∈ fresh
  depth_fresh : ∀ other ∈ fresh, depth after other = depth before node + 1
  covered : ∀ edge ∈ edges, edge.1 ∈ nodes after
  targets : ∀ other ∈ fresh, ∃ edge ∈ edges, edge.1 = other
  unseen : ∀ other ∈ fresh, other ∉ nodes before
  nodup : fresh.Nodup

theorem visitNeighbours_grows (edges : List (Node × Label)) (visited : Visited Node Label)
    (queue : List Node) (hnode : node ∈ nodes visited) :
    ∃ fresh, (visitNeighbours node edges visited queue).2 = queue ++ fresh ∧
      Grows node edges visited (visitNeighbours node edges visited queue).1
        fresh := by
  induction edges generalizing visited queue with
  | nil =>
    refine ⟨[], (append_nil _).symm, ?_⟩
    constructor <;> simp [visitNeighbours]
  | cons edge rest ih =>
    obtain ⟨next, label⟩ := edge
    unfold visitNeighbours
    by_cases hnext : next ∈ nodes visited
    · rw [if_pos hnext]
      obtain ⟨fresh, hqueue, hgrows⟩ := ih visited queue hnode
      refine ⟨fresh, hqueue, { hgrows with covered := ?_, targets := ?_ }⟩
      · rw [forall_mem_cons]
        exact ⟨(hgrows.kept next hnext).1, hgrows.covered⟩
      · intro other hother
        obtain ⟨edge, hedge, hsame⟩ := hgrows.targets other hother
        exact ⟨edge, mem_cons_of_mem _ hedge, hsame⟩
    · rw [if_neg hnext]
      have hold : ∀ other ∈ nodes visited,
          other ∈ nodes ((next, some (node, label)) :: visited) ∧
            depth ((next, some (node, label)) :: visited) other = depth visited other := by
        intro other hother
        have hne : other ≠ next := fun h => hnext (h ▸ hother)
        exact ⟨mem_cons_of_mem _ hother, depth_old hne⟩
      have hnew : next ∈ nodes ((next, some (node, label)) :: visited) := mem_cons_self
      obtain ⟨fresh, hqueue, hgrows⟩ :=
        ih ((next, some (node, label)) :: visited) (queue ++ [next]) (hold node hnode).1
      refine ⟨next :: fresh, by rw [hqueue, append_assoc]; rfl, ?_⟩
      constructor
      · intro other hother
        have hkept := hgrows.kept other (hold other hother).1
        exact ⟨hkept.1, hkept.2.trans (hold other hother).2⟩
      · intro other
        rw [hgrows.mem_iff other]
        simp only [nodes, map_cons, mem_cons]
        tauto
      · rw [forall_mem_cons]
        constructor
        · rw [(hgrows.kept next hnew).2, depth_new]
        · intro other hother
          rw [hgrows.depth_fresh other hother, (hold node hnode).2]
      · rw [forall_mem_cons]
        exact ⟨(hgrows.kept next hnew).1, hgrows.covered⟩
      · rw [forall_mem_cons]
        refine ⟨⟨(next, label), mem_cons_self, rfl⟩, ?_⟩
        intro other hother
        obtain ⟨edge, hedge, hsame⟩ := hgrows.targets other hother
        exact ⟨edge, mem_cons_of_mem _ hedge, hsame⟩
      · rw [forall_mem_cons]
        exact ⟨hnext, fun other hother hbefore => hgrows.unseen other hother (hold other hbefore).1⟩
      · rw [nodup_cons]
        exact ⟨fun hmem => hgrows.unseen next hmem hnew, hgrows.nodup⟩

theorem Frontier.step {fresh : List Node} (hfrontier : Frontier neighbours visited (node :: queue))
    (hgrows : Grows node (neighbours node) visited after fresh) :
    Frontier neighbours after (queue ++ fresh) := by
  have hsorted := pairwise_cons.mp hfrontier.sorted
  have hqueued : ∀ other ∈ queue, other ∈ nodes visited :=
    fun other hother => hfrontier.queued other (mem_cons_of_mem _ hother)
  have hqueue_depth : ∀ other ∈ queue, depth visited node ≤ depth after other ∧
      depth after other ≤ depth visited node + 1 := by
    intro other hother
    rw [(hgrows.kept other (hqueued other hother)).2]
    exact ⟨hsorted.1 other hother, hfrontier.ahead other (hqueued other hother) node mem_cons_self⟩
  have hnear : ∀ other ∈ nodes after, depth after other ≤ depth visited node + 1 := by
    intro other hother
    rcases (hgrows.mem_iff other).mp hother with hold | hfresh
    · rw [(hgrows.kept other hold).2]
      exact hfrontier.ahead other hold node mem_cons_self
    · exact Nat.le_of_eq (hgrows.depth_fresh other hfresh)
  constructor
  · intro other hother
    rcases mem_append.mp hother with hold | hfresh
    · exact (hgrows.kept other (hqueued other hold)).1
    · exact (hgrows.mem_iff other).mpr (.inr hfresh)
  · rw [pairwise_append]
    refine ⟨?_, ?_, ?_⟩
    · refine hsorted.2.imp_of_mem fun {a b} ha hb hab => ?_
      rw [(hgrows.kept a (hqueued a ha)).2, (hgrows.kept b (hqueued b hb)).2]
      exact hab
    · refine pairwise_of_forall_mem_list fun a ha b hb => ?_
      exact Nat.le_of_eq ((hgrows.depth_fresh a ha).trans (hgrows.depth_fresh b hb).symm)
    · intro a ha b hb
      rw [hgrows.depth_fresh b hb]
      exact (hqueue_depth a ha).2
  · intro other hother waiting hwaiting
    have hother_near := hnear other hother
    rcases mem_append.mp hwaiting with hold | hfresh
    · have hlow := (hqueue_depth waiting hold).1
      omega
    · rw [hgrows.depth_fresh waiting hfresh]
      omega
  · intro other hother hdone edge hedge
    rw [mem_append, not_or] at hdone
    have hold : other ∈ nodes visited :=
      ((hgrows.mem_iff other).mp hother).resolve_right hdone.2
    rw [(hgrows.kept other hold).2]
    by_cases hcurrent : other = node
    · subst hcurrent
      have hcovered := hgrows.covered edge hedge
      exact ⟨hcovered, hnear edge.1 hcovered⟩
    · have hclosed := hfrontier.closed other hold (by simp [hcurrent, hdone.1]) edge hedge
      have hkept := hgrows.kept edge.1 hclosed.1
      exact ⟨hkept.1, hkept.2.symm ▸ hclosed.2⟩

def pending (targets : List Node) (visited : Visited Node Label) : List Node :=
  targets.dedup.filter fun node => decide (node ∉ nodes visited)

theorem mem_pending :
    node ∈ pending targets visited ↔ node ∈ targets ∧ node ∉ nodes visited := by
  rw [pending, mem_filter, mem_dedup, decide_eq_true_eq]

theorem nodup_pending (targets : List Node) : (pending targets visited).Nodup :=
  (nodup_dedup targets).filter _

theorem length_pending_le (targets : List Node) (visited : Visited Node Label) :
    (pending targets visited).length ≤ targets.length :=
  Nat.le_trans (length_filter_le _ _) (dedup_sublist targets).length_le

theorem Grows.length_pending {edges : List (Node × Label)} {fresh : List Node}
    (hgrows : Grows node edges visited after fresh) (htargets : ∀ edge ∈ edges, edge.1 ∈ targets) :
    fresh.length + (pending targets after).length ≤ (pending targets visited).length := by
  have hdisjoint : Disjoint fresh (pending targets after) := by
    intro other hfresh hpending
    exact (mem_pending.mp hpending).2 ((hgrows.mem_iff other).mpr (.inr hfresh))
  have hsubset : fresh ++ pending targets after ⊆ pending targets visited := by
    intro other hother
    rcases mem_append.mp hother with hfresh | hpending
    · obtain ⟨edge, hedge, rfl⟩ := hgrows.targets other hfresh
      exact mem_pending.mpr ⟨htargets edge hedge, hgrows.unseen edge.1 hfresh⟩
    · obtain ⟨htarget, hunreached⟩ := mem_pending.mp hpending
      exact mem_pending.mpr ⟨htarget, fun hold => hunreached (hgrows.kept other hold).1⟩
  rw [← length_append]
  exact (subperm_of_subset
    (hgrows.nodup.append (nodup_pending targets) hdisjoint) hsubset).length_le

theorem search_frontier (target : Node)
    (htargets : ∀ node, ∀ edge ∈ neighbours node, edge.1 ∈ targets)
    (hfrontier : Frontier neighbours visited queue)
    (hrounds : queue.length + (pending targets visited).length ≤ rounds) :
    ∃ waiting, Frontier neighbours (search neighbours target rounds queue visited) waiting ∧
      (waiting = [] ∨ ∃ rest, waiting = target :: rest) := by
  induction rounds generalizing queue visited with
  | zero =>
    have hempty : queue = [] := length_eq_zero_iff.mp (by omega)
    exact ⟨queue, hfrontier, .inl hempty⟩
  | succ rounds ih =>
    cases queue with
    | nil => exact ⟨[], hfrontier, .inl rfl⟩
    | cons node queue =>
      unfold search
      by_cases hnode : node = target
      · rw [if_pos hnode]
        exact ⟨node :: queue, hfrontier, .inr ⟨queue, hnode ▸ rfl⟩⟩
      · rw [if_neg hnode]
        obtain ⟨fresh, hqueue, hgrows⟩ :=
          visitNeighbours_grows (neighbours node) visited queue
            (hfrontier.queued node mem_cons_self)
        have hless := hgrows.length_pending (htargets node)
        rw [length_cons] at hrounds
        refine ih ?_ ?_
        · rw [hqueue]
          exact hfrontier.step hgrows
        · rw [hqueue, length_append]
          omega

theorem Frontier.walk (hfrontier : Frontier neighbours visited queue)
    (hroot : root ∈ nodes visited) (hdepth : depth visited root = 0)
    (hwalk : Walk neighbours root steps node) :
    (node ∈ nodes visited ∧ depth visited node ≤ steps.length) ∨
      ∃ waiting ∈ queue, depth visited waiting < steps.length := by
  induction hwalk with
  | stay => exact .inl ⟨hroot, Nat.le_of_eq hdepth⟩
  | @extend node next label steps walk edge ih =>
    rw [length_append, length_singleton]
    rcases ih with ⟨hnode, hle⟩ | ⟨waiting, hwaiting, hless⟩
    · by_cases hqueued : node ∈ queue
      · exact .inr ⟨node, hqueued, by omega⟩
      · obtain ⟨hnext, hnext_le⟩ := hfrontier.closed node hnode hqueued (next, label) edge
        exact .inl ⟨hnext, Nat.le_trans hnext_le (Nat.succ_le_succ hle)⟩
    · exact .inr ⟨waiting, hwaiting, by omega⟩

theorem Frontier.target_of_walk (hfrontier : Frontier neighbours visited queue)
    (hend : queue = [] ∨ ∃ rest, queue = target :: rest) (hroot : root ∈ nodes visited)
    (hdepth : depth visited root = 0) (hwalk : Walk neighbours root steps target) :
    target ∈ nodes visited ∧ depth visited target ≤ steps.length := by
  rcases hfrontier.walk hroot hdepth hwalk with hshort | ⟨other, hother, hless⟩
  · exact hshort
  · rcases hend with rfl | ⟨rest, rfl⟩
    · exact absurd hother not_mem_nil
    · refine ⟨hfrontier.queued target mem_cons_self, ?_⟩
      have hfirst : depth visited target ≤ depth visited other := by
        rcases mem_cons.mp hother with rfl | hrest
        · exact Nat.le_refl _
        · exact (pairwise_cons.mp hfrontier.sorted).1 other hrest
      omega

theorem Reaches.depth_root (hreaches : Reaches neighbours root visited) :
    root ∈ nodes visited ∧ depth visited root = 0 := by
  induction hreaches with
  | root => exact ⟨mem_singleton_self _, by simp [depth]⟩
  | @visit visited node next label before known edge new ih =>
    have hne : root ≠ next := fun h => new (h ▸ ih.1)
    exact ⟨mem_cons_of_mem _ ih.1, (depth_old hne).trans ih.2⟩

variable {targets : List Node}

section

variable (htargets : ∀ node, ∀ edge ∈ neighbours node, edge.1 ∈ targets)

include htargets

section

variable (hrounds : targets.length < rounds)

include hrounds

theorem depth_le_of_walk (hwalk : Walk neighbours root steps target) :
    target ∈ nodes (search neighbours target rounds [root] [(root, none)]) ∧
      depth (search neighbours target rounds [root] [(root, none)]) target ≤ steps.length := by
  have hpending : ([root] : List Node).length + (pending targets
      ([(root, none)] : Visited Node Label)).length ≤ rounds := by
    have hle := length_pending_le targets ([(root, none)] : Visited Node Label)
    rw [length_singleton]
    omega
  obtain ⟨waiting, hfrontier, hend⟩ := search_frontier target htargets frontier_root hpending
  have hreaches : Reaches neighbours root (search neighbours target rounds [root] [(root, none)]) :=
    search_reaches .root fun other hother => hother
  obtain ⟨hroot, hdepth⟩ := hreaches.depth_root
  exact hfrontier.target_of_walk hend hroot hdepth hwalk

theorem length_path_le {labels : List Label}
    (hpath : path (search neighbours target rounds [root] [(root, none)]) target = some labels)
    (hwalk : Walk neighbours root steps target) : labels.length ≤ steps.length := by
  obtain ⟨hmem, hle⟩ := depth_le_of_walk htargets hrounds hwalk
  have hreaches : Reaches neighbours root (search neighbours target rounds [root] [(root, none)]) :=
    search_reaches .root fun other hother => hother
  rw [path, if_pos hmem, Option.some.injEq] at hpath
  rw [← hpath, length_reverse, hreaches.length_trace hmem (Nat.le_refl _)]
  exact hle

theorem path_ne_none (hwalk : Walk neighbours root steps target) :
    path (search neighbours target rounds [root] [(root, none)]) target ≠
      none := by
  rw [path, if_pos (depth_le_of_walk htargets hrounds hwalk).1]
  exact Option.some_ne_none _

end

end

end BreadthFirst
