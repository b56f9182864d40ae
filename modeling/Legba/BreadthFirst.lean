import Mathlib.Data.List.Nodup

/-!
# Breadth-first search in a graph with labelled edges

The search records for each node it reaches the edge it came by, until the
target is taken from the queue.  The path is read off backwards from the
target.  Whatever the edges are, it is a walk from the root to the target on
which no node is met twice.
-/

namespace BreadthFirst

open List

variable {Node Label : Type*} [DecidableEq Node]

/-- The nodes reached so far, the latest first, each with the node and the
edge it was reached by. -/
abbrev Visited (Node Label : Type*) := List (Node × Option (Node × Label))

def Visited.nodes (visited : Visited Node Label) : List Node :=
  visited.map Prod.fst

def visitNeighbours (node : Node) :
    List (Node × Label) → Visited Node Label → List Node → Visited Node Label × List Node
  | [], visited, queue => (visited, queue)
  | (next, label) :: rest, visited, queue =>
    if next ∈ Visited.nodes visited then
      visitNeighbours node rest visited queue
    else
      visitNeighbours node rest ((next, some (node, label)) :: visited) (queue ++ [next])

def search (neighbours : Node → List (Node × Label)) (target : Node) :
    ℕ → List Node → Visited Node Label → Visited Node Label
  | 0, _, visited => visited
  | _ + 1, [], visited => visited
  | rounds + 1, node :: queue, visited =>
    if node = target then visited
    else
      let reached := visitNeighbours node (neighbours node) visited queue
      search neighbours target rounds reached.2 reached.1

def trace (visited : Visited Node Label) : ℕ → Node → List Label
  | 0, _ => []
  | rounds + 1, node =>
    match visited.lookup node with
    | some (some (parent, label)) => label :: trace visited rounds parent
    | _ => []

def path (visited : Visited Node Label) (target : Node) : Option (List Label) :=
  if target ∈ Visited.nodes visited then
    some (trace visited visited.length target).reverse
  else none

/-! ## The path is a walk -/

inductive Walk (neighbours : Node → List (Node × Label)) : Node → List (Node × Label) → Node → Prop
  | stay (node : Node) : Walk neighbours node [] node
  | extend {start node next : Node} {label : Label}
      {steps : List (Node × Label)} (walk : Walk neighbours start steps node)
      (edge : (next, label) ∈ neighbours node) :
      Walk neighbours start (steps ++ [(next, label)]) next

inductive Reaches (neighbours : Node → List (Node × Label)) (root : Node) :
    Visited Node Label → Prop
  | root : Reaches neighbours root [(root, none)]
  | visit {visited : Visited Node Label} {node next : Node} {label : Label}
      (before : Reaches neighbours root visited)
      (known : node ∈ Visited.nodes visited)
      (edge : (next, label) ∈ neighbours node)
      (new : next ∉ Visited.nodes visited) :
      Reaches neighbours root ((next, some (node, label)) :: visited)

variable {neighbours : Node → List (Node × Label)} {root target : Node}

variable {node : Node} {visited : Visited Node Label} {rounds : ℕ}

theorem visitNeighbours_reaches {edges : List (Node × Label)}
    (hedges : ∀ edge ∈ edges, edge ∈ neighbours node) {queue : List Node}
    (hreaches : Reaches neighbours root visited) (hnode : node ∈ Visited.nodes visited)
    (hqueue : ∀ other ∈ queue, other ∈ Visited.nodes visited) :
    Reaches neighbours root (visitNeighbours node edges visited queue).1 ∧
      ∀ other ∈ (visitNeighbours node edges visited queue).2,
        other ∈ Visited.nodes (visitNeighbours node edges visited queue).1 := by
  induction edges generalizing visited queue with
  | nil => exact ⟨hreaches, hqueue⟩
  | cons edge rest ih =>
    obtain ⟨next, label⟩ := edge
    rw [forall_mem_cons] at hedges
    unfold visitNeighbours
    by_cases hnext : next ∈ Visited.nodes visited
    · rw [if_pos hnext]
      exact ih hedges.2 hreaches hnode hqueue
    · rw [if_neg hnext]
      have hold : ∀ other, other ∈ Visited.nodes visited →
          other ∈ Visited.nodes ((next, some (node, label)) :: visited) :=
        fun other hother => mem_cons_of_mem _ hother
      apply ih hedges.2 (.visit hreaches hnode hedges.1 hnext) (hold node hnode)
      intro other hother
      rcases mem_append.mp hother with hqueued | hlast
      · exact hold other (hqueue other hqueued)
      · rw [mem_singleton.mp hlast]
        exact mem_cons_self

section

variable (hreaches : Reaches neighbours root visited)

include hreaches

theorem search_reaches {queue : List Node}
    (hqueue : ∀ other ∈ queue, other ∈ Visited.nodes visited) :
    Reaches neighbours root (search neighbours target rounds queue visited) := by
  induction rounds generalizing queue visited with
  | zero => exact hreaches
  | succ rounds ih =>
    cases queue with
    | nil => exact hreaches
    | cons node queue =>
      rw [forall_mem_cons] at hqueue
      unfold search
      by_cases hnode : node = target
      · rw [if_pos hnode]
        exact hreaches
      · rw [if_neg hnode]
        have hreached := visitNeighbours_reaches
          (fun edge hedge => hedge) hreaches hqueue.1 hqueue.2
        exact ih hreached.1 hreached.2

theorem trace_cons {next : Node} {origin : Option (Node × Label)}
    (hnew : next ∉ Visited.nodes visited) (hnode : node ∈ Visited.nodes visited) (rounds : ℕ) :
    trace ((next, origin) :: visited) rounds node = trace visited rounds node := by
  have hparents : ∀ child parent label,
      visited.lookup child = some (some (parent, label)) → parent ∈ Visited.nodes visited := by
    clear hnew hnode
    induction hreaches with
    | root =>
      intro child parent label hlookup
      rw [lookup_cons] at hlookup
      split at hlookup
      · simp at hlookup
      · simp at hlookup
    | visit before known edge new ih =>
      intro child parent label hlookup
      rw [lookup_cons] at hlookup
      split at hlookup
      · simp only [Option.some.injEq, Prod.mk.injEq] at hlookup
        exact mem_cons_of_mem _ (hlookup.1 ▸ known)
      · exact mem_cons_of_mem _ (ih child parent label hlookup)
  induction rounds generalizing node with
  | zero => rfl
  | succ rounds ih =>
    have hne : node ≠ next := fun heq => hnew (heq ▸ hnode)
    unfold trace
    rw [lookup_cons, beq_eq_false_iff_ne.mpr hne]
    cases hlookup : visited.lookup node with
    | none => rfl
    | some parent =>
      cases parent with
      | none => rfl
      | some edge =>
        have hparent := hparents node edge.1 edge.2 hlookup
        simp [ih hparent]

theorem Reaches.exists_walk (hnode : node ∈ Visited.nodes visited)
    (hrounds : visited.length ≤ rounds) :
    ∃ steps, Walk neighbours root steps node ∧
      (trace visited rounds node).reverse = steps.map Prod.snd ∧
      (steps.map Prod.fst).Nodup ∧
      ∀ step ∈ steps, step.1 ∈ Visited.nodes visited := by
  induction hreaches generalizing node rounds with
  | root =>
    rw [Visited.nodes, map_singleton, mem_singleton] at hnode
    subst hnode
    refine ⟨[], .stay _, ?_, nodup_nil, by simp⟩
    cases rounds with
    | zero => rfl
    | succ rounds => simp [trace]
  | @visit visited parent next label before known edge new ih =>
    by_cases hnext : node = next
    · subst hnext
      obtain ⟨rounds, rfl⟩ : ∃ below, rounds = below + 1 :=
        ⟨rounds - 1, by rw [length_cons] at hrounds; omega⟩
      rw [length_cons] at hrounds
      obtain ⟨steps, hwalk, htrace, hnodup, hsteps⟩ := ih known (Nat.le_of_succ_le_succ hrounds)
      refine ⟨steps ++ [(node, label)], hwalk.extend edge, ?_, ?_, ?_⟩
      · unfold trace
        rw [lookup_cons, beq_self_eq_true]
        simp only
        rw [trace_cons before new known, reverse_cons, htrace]
        simp
      · rw [map_append, map_singleton]
        apply hnodup.append (nodup_singleton _)
        rw [disjoint_singleton]
        intro hmem
        obtain ⟨step, hstep, hsame⟩ := mem_map.mp hmem
        have hvisited := hsteps step hstep
        rw [hsame] at hvisited
        exact new hvisited
      · intro step hstep
        rcases mem_append.mp hstep with hold | hlast
        · exact mem_cons_of_mem _ (hsteps step hold)
        · rw [mem_singleton.mp hlast]
          exact mem_cons_self
    · have hold : node ∈ Visited.nodes visited := by
        rcases mem_cons.mp hnode with heq | hmem
        · exact absurd heq hnext
        · exact hmem
      rw [length_cons] at hrounds
      obtain ⟨steps, hwalk, htrace, hnodup, hsteps⟩ := ih hold (Nat.le_of_succ_le hrounds)
      refine ⟨steps, hwalk, ?_, hnodup, fun step hstep => mem_cons_of_mem _ (hsteps step hstep)⟩
      rw [trace_cons before new hold, htrace]

end

theorem exists_walk_of_path {labels : List Label}
    (hpath : path (search neighbours target rounds [root] [(root, none)]) target = some labels) :
    ∃ steps, Walk neighbours root steps target ∧
      labels = steps.map Prod.snd ∧ (steps.map Prod.fst).Nodup := by
  have hreaches : Reaches neighbours root
      (search neighbours target rounds [root] [(root, none)]) := by
    apply search_reaches .root
    intro other hother
    rw [mem_singleton.mp hother]
    exact mem_singleton_self _
  unfold path at hpath
  split at hpath
  · rename_i htarget
    obtain ⟨steps, hwalk, htrace, hnodup, _⟩ := hreaches.exists_walk htarget (Nat.le_refl _)
    rw [Option.some.injEq] at hpath
    exact ⟨steps, hwalk, hpath ▸ htrace, hnodup⟩
  · simp at hpath

end BreadthFirst
