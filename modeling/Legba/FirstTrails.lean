import Mathlib.Data.List.Infix
import Mathlib.Data.List.Shortlex

/-!
# First trails and the frontier of a breadth-first walk

A trail from a root is given by the positions of its steps in the lists of
successors.  Trails are ordered by length and then by these positions, and the
first trail to a node is the least one.  A breadth-first walk whose queue holds
trails looks at every node along its first trail.

The frontier relates the queue to the nodes looked at so far, for the nodes
whose first trail is not longer than a limit.
-/

namespace FirstTrails

open List Option

variable {Node : Type*}

abbrev Earlier (word other : List ℕ) : Prop :=
  List.Shortlex (· < ·) word other

variable {word other : List ℕ}

theorem earlier_iff :
    Earlier word other ↔ word.length < other.length ∨
      word.length = other.length ∧ List.Lex (· < ·) word other :=
  shortlex_def

theorem earlier_of_length_lt (hlength : word.length < other.length) : Earlier word other :=
  Shortlex.of_length_lt hlength

theorem Earlier.length_le (h : Earlier word other) : word.length ≤ other.length := by
  rcases earlier_iff.mp h with hlt | ⟨heq, _⟩ <;> omega

theorem not_earlier_self (word : List ℕ) : ¬Earlier word word := by
  intro h
  exact asymm h h

theorem Earlier.trans {first second third : List ℕ} (h₁ : Earlier first second)
    (h₂ : Earlier second third) : Earlier first third := by
  rcases earlier_iff.mp h₁ with hlt₁ | ⟨heq₁, hlex₁⟩
  · exact earlier_of_length_lt (hlt₁.trans_le h₂.length_le)
  · rcases earlier_iff.mp h₂ with hlt₂ | ⟨heq₂, hlex₂⟩
    · exact earlier_of_length_lt (heq₁ ▸ hlt₂)
    · exact earlier_iff.mpr (.inr ⟨heq₁.trans heq₂, List.lt_trans hlex₁ hlex₂⟩)

theorem earlier_trichotomy (word other : List ℕ) :
    Earlier word other ∨ word = other ∨ Earlier other word := by
  by_contra hnone
  push Not at hnone
  obtain ⟨h₁, hne, h₂⟩ := hnone
  exact hne (Std.Trichotomous.trichotomous word other h₁ h₂)

theorem earlier_append_self (word : List ℕ) {suffix : List ℕ}
    (hsuffix : suffix ≠ []) : Earlier word (word ++ suffix) := by
  apply earlier_of_length_lt
  have hpos := length_pos_iff.mpr hsuffix
  rw [length_append]
  omega

theorem lex_append_append (hlex : List.Lex (· < ·) word other)
    (hlength : word.length = other.length) (suffix otherSuffix : List ℕ) :
    List.Lex (· < ·) (word ++ suffix) (other ++ otherSuffix) := by
  induction hlex with
  | nil => simp at hlength
  | rel hlt => exact .rel hlt
  | cons _ ih =>
    simp only [length_cons, Nat.add_right_cancel_iff] at hlength
    exact .cons (ih hlength)

theorem Earlier.append (h : Earlier word other) {suffix otherSuffix : List ℕ}
    (hsuffix : suffix.length = otherSuffix.length) :
    Earlier (word ++ suffix) (other ++ otherSuffix) := by
  rw [earlier_iff] at h ⊢
  simp only [length_append]
  rcases h with hlt | ⟨heq, hlex⟩
  · exact .inl (by omega)
  · exact .inr ⟨by omega, lex_append_append hlex heq _ _⟩

theorem earlier_snoc (word : List ℕ) {index other : ℕ} (h : index < other) :
    Earlier (word ++ [index]) (word ++ [other]) :=
  Shortlex.append_left ((shortlex_singleton_iff index other).mpr h) word

section

variable (next : Node → List Node) (root : Node)

/-- The word leads from the root along the path, which includes both ends. -/
inductive Trail : List ℕ → List Node → Node → Prop
  | start : Trail [] [root] root
  | step {word : List ℕ} {path : List Node} {node ancestor : Node}
      {index : ℕ} (before : Trail word path node)
      (edge : (next node)[index]? = some ancestor) :
      Trail (word ++ [index]) (path ++ [ancestor]) ancestor

structure First (word : List ℕ) (path : List Node) (node : Node) : Prop where
  trail : Trail next root word path node
  least : ∀ other otherPath, Trail next root other otherPath node → ¬Earlier other word

variable {next root}

variable {word suffix : List ℕ} {path inner : List Node} {node middle : Node}

theorem Trail.last_step {index : ℕ} (htrail : Trail next root (word ++ [index]) path node) :
    ∃ before previous, Trail next root word before previous ∧
      (next previous)[index]? = some node ∧ path = before ++ [node] := by
  generalize hword : word ++ [index] = full at htrail
  cases htrail with
  | start => simp at hword
  | @step word' before previous _ index' htrail edge =>
    obtain ⟨rfl, hindex⟩ := append_inj' hword rfl
    cases hindex
    exact ⟨before, previous, htrail, edge, rfl⟩

theorem Trail.unique {other : List Node} {otherNode : Node}
    (htrail : Trail next root word path node) (hother : Trail next root word other otherNode) :
    path = other ∧ node = otherNode := by
  induction htrail generalizing other otherNode with
  | start =>
    generalize hword : ([] : List ℕ) = word at hother
    cases hother with
    | start => exact ⟨rfl, rfl⟩
    | step _ _ => simp at hword
  | step before edge ih =>
    obtain ⟨before', previous', htrail', edge', rfl⟩ := hother.last_step
    obtain ⟨rfl, rfl⟩ := ih htrail'
    rw [edge, some.injEq] at edge'
    subst edge'
    exact ⟨rfl, rfl⟩

theorem Trail.of_mem {inner : Node} (htrail : Trail next root word path node)
    (hinner : inner ∈ path) :
    ∃ before beforePath suffix, Trail next root before beforePath inner ∧
      word = before ++ suffix := by
  induction htrail with
  | start =>
    rw [mem_singleton] at hinner
    subst hinner
    exact ⟨[], [inner], [], .start, rfl⟩
  | @step word path previous ancestor index before edge ih =>
    rcases mem_append.mp hinner with hpath | hlast
    · obtain ⟨start, startPath, suffix, hstart, rfl⟩ := ih hpath
      exact ⟨start, startPath, suffix ++ [index], hstart, append_assoc _ _ _⟩
    · rw [mem_singleton] at hlast
      subst hlast
      exact ⟨word ++ [index], path ++ [inner], [], .step before edge, (append_nil _).symm⟩

theorem Trail.initial (htrail : Trail next root (word ++ suffix) path node) :
    ∃ before previous, Trail next root word before previous := by
  induction suffix using reverseRecOn generalizing path node with
  | nil =>
    rw [append_nil] at htrail
    exact ⟨path, node, htrail⟩
  | append_singleton suffix index ih =>
    rw [← append_assoc] at htrail
    obtain ⟨before, previous, hbefore, _⟩ := htrail.last_step
    exact ih hbefore

theorem Trail.exchange {other : List ℕ} {otherInner : List Node}
    (htrail : Trail next root (word ++ suffix) path node)
    (hmiddle : Trail next root word inner middle)
    (hother : Trail next root other otherInner middle) :
    ∃ otherPath, Trail next root (other ++ suffix) otherPath node := by
  induction suffix using reverseRecOn generalizing path node with
  | nil =>
    rw [append_nil] at htrail
    obtain ⟨rfl, rfl⟩ := htrail.unique hmiddle
    exact ⟨otherInner, by rwa [append_nil]⟩
  | append_singleton suffix index ih =>
    rw [← append_assoc] at htrail
    obtain ⟨before, previous, hbefore, edge, rfl⟩ := htrail.last_step
    obtain ⟨otherBefore, hotherBefore⟩ := ih hbefore
    refine ⟨otherBefore ++ [node], ?_⟩
    rw [← append_assoc]
    exact .step hotherBefore edge

theorem Trail.exists_first (htrail : Trail next root word path node) :
    ∃ first firstPath, First next root first firstPath node ∧ ¬Earlier word first := by
  have hwf : WellFounded Earlier := Shortlex.wf Nat.lt_wfRel.wf
  obtain ⟨first, ⟨firstPath, hfirst⟩, hleast⟩ := hwf.has_min
    {word | ∃ path, Trail next root word path node} ⟨word, path, htrail⟩
  exact ⟨first, firstPath,
    ⟨hfirst, fun other otherPath hother => hleast other ⟨otherPath, hother⟩⟩,
    hleast word ⟨path, htrail⟩⟩

theorem First.unique {other : List ℕ} {otherPath : List Node}
    (hfirst : First next root word path node) (hother : First next root other otherPath node) :
    word = other ∧ path = otherPath := by
  have hword : word = other := by
    rcases earlier_trichotomy word other with h | h | h
    · exact absurd h (hother.least word path hfirst.trail)
    · exact h
    · exact absurd h (hfirst.least other otherPath hother.trail)
  subst hword
  exact ⟨rfl, (hfirst.trail.unique hother.trail).1⟩

theorem First.initial (hfirst : First next root (word ++ suffix) path node)
    (hmiddle : Trail next root word inner middle) : First next root word inner middle := by
  refine ⟨hmiddle, ?_⟩
  intro other otherPath hother hearlier
  obtain ⟨whole, hwhole⟩ := hfirst.trail.exchange hmiddle hother
  exact hfirst.least _ _ hwhole (hearlier.append rfl)

theorem First.not_mem {index : ℕ} {ancestor : Node}
    (hfirst : First next root (word ++ index :: suffix) path node)
    (hmiddle : Trail next root word inner middle)
    (edge : (next middle)[index]? = some ancestor) : ancestor ∉ inner := by
  intro hmem
  rw [append_cons] at hfirst
  obtain ⟨before, beforePath, rest, hbefore, rfl⟩ := hmiddle.of_mem hmem
  have hstep := hfirst.initial (.step hmiddle edge)
  refine hstep.least before beforePath hbefore ?_
  apply earlier_of_length_lt
  simp only [length_append, length_singleton]
  omega

/-! ## The frontier -/

structure Item (Node : Type*) where
  word : List ℕ
  path : List Node
  node : Node

variable (next root)

structure Frontier (limit : ℕ) (items : List (Item Node)) (visited : List Node) : Prop where
  trails : ∀ item ∈ items, Trail next root item.word item.path item.node
  sorted : items.Pairwise fun item other => Earlier item.word other.word
  parents : ∀ item ∈ items, ∀ word index, item.word = word ++ [index] →
    ∀ other ∈ items, Earlier word other.word
  settled : ∀ node ∈ visited, ∃ word path, First next root word path node ∧
    word.length ≤ limit ∧ ∀ item ∈ items, Earlier word item.word
  covers : ∀ node word path, First next root word path node →
    word.length ≤ limit → node ∉ visited → ∃ item ∈ items, ∃ suffix, word = item.word ++ suffix

variable {next root}

theorem frontier_start (limit : ℕ) : Frontier next root limit [⟨[], [root], root⟩] [] where
  trails := by
    intro item hitem
    rw [mem_singleton] at hitem
    subst hitem
    exact .start
  sorted := pairwise_singleton _ _
  parents := by
    intro item hitem word index hword
    rw [mem_singleton] at hitem
    subst hitem
    simp at hword
  settled := by simp
  covers := fun node word path _ _ _ => ⟨_, mem_singleton_self _, word, rfl⟩

variable {limit : ℕ} {item : Item Node} {items : List (Item Node)}
  {visited : List Node}

section

variable (hfrontier : Frontier next root limit (item :: items) visited)

include hfrontier

theorem Frontier.first_head (hlength : item.word.length ≤ limit) (hnode : item.node ∉ visited) :
    First next root item.word item.path item.node := by
  have htrail := hfrontier.trails item mem_cons_self
  obtain ⟨first, firstPath, hfirst, hnot⟩ := htrail.exists_first
  have hfirstLength : first.length ≤ limit := by
    by_contra hlong
    exact hnot (earlier_of_length_lt (by omega))
  obtain ⟨other, hother, suffix, rfl⟩ := hfrontier.covers _ _ _ hfirst hfirstLength hnode
  have hle : item.word = other.word ∨ Earlier item.word other.word := by
    rcases mem_cons.mp hother with rfl | hmem
    · exact .inl rfl
    · exact .inr ((pairwise_cons.mp hfrontier.sorted).1 other hmem)
  have hsame : item.word = other.word ++ suffix := by
    rcases earlier_trichotomy item.word (other.word ++ suffix) with h | h | h
    · exact absurd h hnot
    · exact h
    · exfalso
      have hother_le : other.word = other.word ++ suffix ∨
          Earlier other.word (other.word ++ suffix) := by
        by_cases hsuffix : suffix = []
        · exact .inl (by rw [hsuffix, append_nil])
        · exact .inr (earlier_append_self _ hsuffix)
      rcases hle with hle | hle <;> rcases hother_le with ho | ho
      · exact not_earlier_self item.word (by
          rw [← ho, ← hle] at h
          exact h)
      · exact not_earlier_self item.word ((hle ▸ ho : Earlier item.word _).trans h)
      · exact not_earlier_self item.word (hle.trans (ho ▸ h))
      · exact not_earlier_self item.word ((hle.trans ho).trans h)
  rw [hsame]
  rw [hsame] at htrail
  rw [(htrail.unique hfirst.trail).1]
  exact hfirst

theorem Frontier.tail (hdone : ∀ node suffix path, First next root (item.word ++
      suffix) path node → (item.word ++ suffix).length ≤ limit → node ∈ visited) :
    Frontier next root limit items visited where
  trails := fun other hother => hfrontier.trails other (mem_cons_of_mem _ hother)
  sorted := (pairwise_cons.mp hfrontier.sorted).2
  parents := fun other hother word index hword later hlater =>
    hfrontier.parents other (mem_cons_of_mem _ hother) word index hword
      later (mem_cons_of_mem _ hlater)
  settled := by
    intro node hnode
    obtain ⟨word, path, hfirst, hlength, hearlier⟩ := hfrontier.settled node hnode
    exact ⟨word, path, hfirst, hlength, fun other hother =>
      hearlier other (mem_cons_of_mem _ hother)⟩
  covers := by
    intro node word path hfirst hlength hnode
    obtain ⟨other, hother, suffix, rfl⟩ := hfrontier.covers node word path hfirst hlength hnode
    rcases mem_cons.mp hother with rfl | hmem
    · exact absurd (hdone node suffix path hfirst hlength) hnode
    · exact ⟨other, hmem, suffix, rfl⟩

theorem Frontier.tail_of_long (hlong : limit < item.word.length) :
    Frontier next root limit items visited := by
  apply hfrontier.tail
  intro node suffix path _ hlength
  rw [length_append] at hlength
  omega

theorem Frontier.tail_of_visited (hnode : item.node ∈ visited) :
    Frontier next root limit items visited := by
  apply hfrontier.tail
  intro node suffix path hfirst _
  have htrail := hfrontier.trails item mem_cons_self
  obtain ⟨word, wordPath, hword, _, hearlier⟩ := hfrontier.settled item.node hnode
  have hsame := (hword.unique (hfirst.initial htrail)).1
  exact absurd (hsame ▸ hearlier item mem_cons_self) (not_earlier_self _)

end

variable [DecidableEq Node]

def Item.children (next : Node → List Node) (item : Item Node) : List (Item Node) :=
  (next item.node).zipIdx.filterMap fun edge =>
    if edge.1 ∈ item.path then none
    else some ⟨item.word ++ [edge.2], item.path ++ [edge.1], edge.1⟩

variable {child : Item Node}

theorem Item.mem_children :
    child ∈ item.children next ↔
      ∃ index ancestor, (next item.node)[index]? = some ancestor ∧
        ancestor ∉ item.path ∧
        child = ⟨item.word ++ [index], item.path ++ [ancestor], ancestor⟩ := by
  unfold Item.children
  rw [mem_filterMap]
  constructor
  · rintro ⟨⟨ancestor, index⟩, hedge, hchild⟩
    rw [mem_zipIdx_iff_getElem?] at hedge
    split at hchild
    · cases hchild
    · rename_i hpath
      cases hchild
      exact ⟨index, ancestor, hedge, hpath, rfl⟩
  · rintro ⟨index, ancestor, hedge, hpath, rfl⟩
    refine ⟨(ancestor, index), ?_, if_neg hpath⟩
    rw [mem_zipIdx_iff_getElem?]
    exact hedge

theorem Item.pairwise_children :
    (item.children next).Pairwise fun child other =>
      Earlier child.word other.word := by
  unfold Item.children
  rw [pairwise_filterMap]
  have hsorted : (next item.node).zipIdx.Pairwise fun edge other =>
      edge.2 < other.2 := by
    have hmap : ((next item.node).zipIdx.map Prod.snd).Pairwise (· < ·) := by
      rw [zipIdx_map_snd]
      exact pairwise_lt_range'
    exact pairwise_map.mp hmap
  refine hsorted.imp ?_
  intro edge other hlt child hchild otherChild hotherChild
  simp only [ite_none_left_eq_some, some.injEq] at hchild
  simp only [ite_none_left_eq_some, some.injEq] at hotherChild
  obtain ⟨_, rfl⟩ := hchild
  obtain ⟨_, rfl⟩ := hotherChild
  exact earlier_snoc item.word hlt

theorem Item.earlier_child (hchild : child ∈ item.children next) :
    Earlier item.word child.word := by
  obtain ⟨index, ancestor, _, _, rfl⟩ := Item.mem_children.mp hchild
  exact earlier_append_self _ (cons_ne_nil _ _)

section

variable (hfrontier : Frontier next root limit (item :: items) visited)

include hfrontier

theorem Frontier.earlier_child {other : Item Node} (hother : other ∈ items)
    (hchild : child ∈ item.children next) : Earlier other.word child.word := by
  obtain ⟨index, ancestor, _, _, rfl⟩ := Item.mem_children.mp hchild
  rcases eq_nil_or_concat' other.word with hnil | ⟨word, last, hword⟩
  · rw [hnil]
    exact earlier_of_length_lt (by simp)
  · rw [hword]
    exact (hfrontier.parents other (mem_cons_of_mem _ hother) word
      last hword item mem_cons_self).append rfl

theorem Frontier.covers_children (hword : First next root (item.word ++ suffix) path node)
    (hnode : node ≠ item.node) :
    ∃ child ∈ item.children next, ∃ rest, item.word ++ suffix = child.word ++ rest := by
  have htrail := hfrontier.trails item mem_cons_self
  cases suffix with
  | nil =>
    rw [append_nil] at hword
    exact absurd (hword.trail.unique htrail).2 hnode
  | cons index suffix =>
    have hwhole := hword.trail
    rw [append_cons] at hwhole
    obtain ⟨before, ancestor, hbefore⟩ := hwhole.initial
    obtain ⟨beforePath, previous, hprevious, edge, rfl⟩ := hbefore.last_step
    obtain ⟨rfl, rfl⟩ := hprevious.unique htrail
    refine ⟨⟨item.word ++ [index], item.path ++ [ancestor], ancestor⟩, ?_,
      suffix, append_cons _ _ _⟩
    exact Item.mem_children.mpr ⟨index, ancestor, edge, hword.not_mem htrail edge, rfl⟩

theorem Frontier.expand (hlength : item.word.length ≤ limit) (hnode : item.node ∉ visited) :
    Frontier next root limit (items ++ item.children next) (item.node :: visited) := by
  have htrail := hfrontier.trails item mem_cons_self
  have hfirst := hfrontier.first_head hlength hnode
  have hafter : ∀ other ∈ items ++ item.children next, Earlier item.word other.word := by
    intro other hother
    rcases mem_append.mp hother with hold | hnew
    · exact (pairwise_cons.mp hfrontier.sorted).1 other hold
    · exact Item.earlier_child hnew
  constructor
  · intro other hother
    rcases mem_append.mp hother with hold | hnew
    · exact hfrontier.trails other (mem_cons_of_mem _ hold)
    · obtain ⟨index, ancestor, edge, _, rfl⟩ := Item.mem_children.mp hnew
      exact .step htrail edge
  · exact pairwise_append.mpr
      ⟨(pairwise_cons.mp hfrontier.sorted).2, Item.pairwise_children,
        fun _ hother _ hchild => hfrontier.earlier_child hother hchild⟩
  · intro other hother word index hword later hlater
    rcases mem_append.mp hother with hold | hnew
    · have hparent := hfrontier.parents other (mem_cons_of_mem _ hold) word index hword
      rcases mem_append.mp hlater with hlaterOld | hlaterNew
      · exact hparent later (mem_cons_of_mem _ hlaterOld)
      · exact (hparent item mem_cons_self).trans (Item.earlier_child hlaterNew)
    · obtain ⟨position, ancestor, _, _, rfl⟩ := Item.mem_children.mp hnew
      obtain ⟨rfl, _⟩ := append_inj' hword rfl
      exact hafter later hlater
  · intro node hnode
    rcases mem_cons.mp hnode with rfl | hold
    · exact ⟨item.word, item.path, hfirst, hlength, hafter⟩
    · obtain ⟨word, path, hword, hwordLength, hearlier⟩ := hfrontier.settled node hold
      refine ⟨word, path, hword, hwordLength, ?_⟩
      intro other hother
      rcases mem_append.mp hother with hotherOld | hotherNew
      · exact hearlier other (mem_cons_of_mem _ hotherOld)
      · exact (hearlier item mem_cons_self).trans (Item.earlier_child hotherNew)
  · intro node word path hword hwordLength hnew
    rw [mem_cons, not_or] at hnew
    obtain ⟨other, hother, suffix, rfl⟩ := hfrontier.covers node word path hword hwordLength hnew.2
    rcases mem_cons.mp hother with rfl | hold
    · obtain ⟨child, hchild, rest, hrest⟩ := hfrontier.covers_children hword hnew.1
      exact ⟨child, mem_append_right _ hchild, rest, hrest⟩
    · exact ⟨other, mem_append_left _ hold, suffix, rfl⟩

end

end

end FirstTrails
