import Mathlib.Data.Finset.Card
import Mathlib.Data.Nat.Find

/-!
# Disjoint sets by parent pointers

Every node points to a parent, and a root to itself.  Finding the root of a
node halves the path on the way: each node met is pointed to its grandparent.
Two sets are joined by pointing the root of one to the root of the other, with
no regard to their sizes.

The loops are given fuel.  A forest over finitely many nodes needs no more of
it than it has nodes, whatever was halved or joined before.
-/

namespace UnionFind

open Function Prod List

universe u

variable {Node : Type u}

variable {parent : Node → Node} {steps : ℕ} {node root : Node}
  {nodes : Finset Node}

def RootIn (parent : Node → Node) (steps : ℕ) (node root : Node) : Prop :=
  parent^[steps] node = root ∧ parent root = root

def IsRootOf (parent : Node → Node) (node root : Node) : Prop :=
  ∃ steps, RootIn parent steps node root

theorem RootIn.succ (hroot : RootIn parent steps node root) :
    RootIn parent (steps + 1) node root := by
  refine ⟨?_, hroot.2⟩
  rw [iterate_succ_apply', hroot.1, hroot.2]

theorem RootIn.mono {more : ℕ} (hroot : RootIn parent steps node root)
    (hle : steps ≤ more) : RootIn parent more node root := by
  induction hle with
  | refl => exact hroot
  | step _ ih => exact ih.succ

theorem rootIn_succ :
    RootIn parent (steps + 1) node root ↔ RootIn parent steps (parent node) root := by
  unfold RootIn
  rw [iterate_succ_apply]

theorem RootIn.of_self (hself : parent node = node) : RootIn parent steps node node :=
  RootIn.mono (⟨rfl, hself⟩ : RootIn parent 0 node node) (Nat.zero_le steps)

theorem IsRootOf.unique {other : Node} (hroot : IsRootOf parent node root)
    (hother : IsRootOf parent node other) : root = other := by
  obtain ⟨steps, hsteps⟩ := hroot
  obtain ⟨others, hothers⟩ := hother
  have hleft := hsteps.mono (Nat.le_max_left steps others)
  have hright := hothers.mono (Nat.le_max_right steps others)
  exact hleft.1.symm.trans hright.1

structure IsForest (parent : Node → Node) (nodes : Finset Node) : Prop where
  closed : ∀ node ∈ nodes, parent node ∈ nodes
  rooted : ∀ node ∈ nodes, ∃ root, IsRootOf parent node root

section

variable (hforest : IsForest parent nodes)

include hforest

theorem IsForest.iterate_mem (hnode : node ∈ nodes) (steps : ℕ) : parent^[steps] node ∈ nodes := by
  induction steps with
  | zero => exact hnode
  | succ steps ih =>
    rw [iterate_succ_apply']
    exact hforest.closed _ ih

theorem IsForest.root_mem (hnode : node ∈ nodes)
    (hroot : IsRootOf parent node root) : root ∈ nodes := by
  obtain ⟨steps, hsteps⟩ := hroot
  rw [← hsteps.1]
  exact hforest.iterate_mem hnode steps

theorem IsForest.exists_steps (hnode : node ∈ nodes) (hroot : IsRootOf parent node root) :
    ∃ steps < nodes.card, RootIn parent steps node root := by
  classical
  have hfirst := Nat.find_spec hroot
  refine ⟨Nat.find hroot, ?_, hfirst⟩
  have hrepeat : ∀ i j, i < j → j ≤ Nat.find hroot → parent^[i] node ≠ parent^[j] node := by
    intro i j hij hj heq
    have hshort : RootIn parent (Nat.find hroot - j + i) node root := by
      refine ⟨?_, hfirst.2⟩
      rw [iterate_add_apply, heq, ← iterate_add_apply, Nat.sub_add_cancel hj]
      exact hfirst.1
    exact Nat.find_min hroot (by omega) hshort
  have hcard : (Finset.range (Nat.find hroot + 1)).card ≤ nodes.card := by
    apply Finset.card_le_card_of_injOn (fun i => parent^[i] node)
    · intro i _
      exact hforest.iterate_mem hnode i
    · intro i hi j hj heq
      simp only [Finset.coe_range, Set.mem_Iio] at hi hj
      rcases Nat.lt_trichotomy i j with hlt | hsame | hgt
      · exact absurd heq (hrepeat i j hlt (by omega))
      · exact hsame
      · exact absurd heq.symm (hrepeat j i hgt (by omega))
  rw [Finset.card_range] at hcard
  omega

end

theorem isForest_id (nodes : Finset Node) : IsForest id nodes :=
  ⟨fun _ hnode => hnode, fun node _ => ⟨node, 0, rfl, rfl⟩⟩

def SameSet (parent : Node → Node) (first second : Node) : Prop :=
  ∃ root, IsRootOf parent first root ∧ IsRootOf parent second root

variable {first second : Node} {done : List Node}
  {groups : List (Node × List Node)} {next : Node → Node} {fuel : ℕ}
  {pairs : List (Node × Node)}

theorem SameSet.symm (hsame : SameSet parent first second) : SameSet parent second first := by
  obtain ⟨root, hfirst, hsecond⟩ := hsame
  exact ⟨root, hsecond, hfirst⟩

theorem SameSet.trans {third : Node} (hfirst : SameSet parent first second)
    (hsecond : SameSet parent second third) : SameSet parent first third := by
  obtain ⟨root, hone, htwo⟩ := hfirst
  obtain ⟨other, hthree, hfour⟩ := hsecond
  rw [hthree.unique htwo] at hfour
  exact ⟨root, hone, hfour⟩

theorem sameSet_id : SameSet id first second ↔ first = second := by
  have hself : ∀ node root : Node, IsRootOf id node root → node = root := by
    rintro node root ⟨steps, hroot, -⟩
    rw [iterate_id] at hroot
    exact hroot
  constructor
  · rintro ⟨root, hfirst, hsecond⟩
    rw [hself first root hfirst, hself second root hsecond]
  · rintro rfl
    exact ⟨first, ⟨0, rfl, rfl⟩, ⟨0, rfl, rfl⟩⟩

theorem eqvGen_of_forall {r s : Node → Node → Prop} (hle : ∀ a b, r a b → Relation.EqvGen s a b)
    {a b : Node} (hgen : Relation.EqvGen r a b) : Relation.EqvGen s a b := by
  induction hgen with
  | rel a b hrel => exact hle a b hrel
  | refl a => exact .refl a
  | symm a b _ ih => exact ih.symm
  | trans a b c _ _ ihab ihbc => exact ihab.trans _ _ _ ihbc

structure IsGrouped (parent : Node → Node) (done : List Node)
    (groups : List (Node × List Node)) : Prop where
  nodup : (groups.map fst).Nodup
  perm : (groups.map snd).flatten.Perm done
  rooted : ∀ group ∈ groups, group.2 ≠ [] ∧ ∀ node ∈ group.2, IsRootOf parent node group.1

section

variable (hgrouped : IsGrouped parent done groups)

include hgrouped

theorem IsGrouped.eq_of_root {a b : Node} {first second : Node × List Node}
    (hfirst : first ∈ groups) (ha : a ∈ first.2) (hsecond : second ∈ groups)
    (hb : b ∈ second.2) (hsame : SameSet parent a b) : first = second := by
  obtain ⟨root, hroota, hrootb⟩ := hsame
  have hleft := ((hgrouped.rooted first hfirst).2 a ha).unique hroota
  have hright := ((hgrouped.rooted second hsecond).2 b hb).unique hrootb
  exact inj_on_of_nodup_map hgrouped.nodup hfirst hsecond (hleft.trans hright.symm)

theorem IsGrouped.exists_group (hnode : node ∈ done) : ∃ group ∈ groups, node ∈ group.2 := by
  have hflat := hgrouped.perm.mem_iff.mpr hnode
  rw [mem_flatten] at hflat
  obtain ⟨members, hmembers, hmem⟩ := hflat
  obtain ⟨group, hgroup, rfl⟩ := mem_map.mp hmembers
  exact ⟨group, hgroup, hmem⟩

theorem IsGrouped.share_iff {a b : Node} (ha : a ∈ done) (hb : b ∈ done) :
    (∃ group ∈ groups, a ∈ group.2 ∧ b ∈ group.2) ↔ SameSet parent a b := by
  constructor
  · rintro ⟨group, hgroup, hmema, hmemb⟩
    exact ⟨group.1, (hgrouped.rooted group hgroup).2 a hmema,
      (hgrouped.rooted group hgroup).2 b hmemb⟩
  · intro hsame
    obtain ⟨first, hfirst, hmema⟩ := hgrouped.exists_group ha
    obtain ⟨second, hsecond, hmemb⟩ := hgrouped.exists_group hb
    have heq := hgrouped.eq_of_root hfirst hmema hsecond hmemb hsame
    exact ⟨first, hfirst, hmema, heq ▸ hmemb⟩

end

/-- Halvings: no path has become longer, and no pointer leaves a set of nodes
which none left before. -/
structure Halved (parent next : Node → Node) : Prop where
  rootIn : ∀ steps node root, RootIn parent steps node root → RootIn next steps node root
  closed : ∀ nodes : Finset Node, (∀ node ∈ nodes, parent node ∈ nodes) →
    ∀ node ∈ nodes, next node ∈ nodes

theorem Halved.refl (parent : Node → Node) : Halved parent parent :=
  ⟨fun _ _ _ hroot => hroot, fun _ hclosed => hclosed⟩

theorem Halved.trans {last : Node → Node} (hfirst : Halved parent next)
    (hsecond : Halved next last) : Halved parent last where
  rootIn steps node root hroot :=
    hsecond.rootIn steps node root (hfirst.rootIn steps node root hroot)
  closed nodes hclosed := hsecond.closed nodes (hfirst.closed nodes hclosed)

theorem Halved.isForest (hhalved : Halved parent next)
    (hforest : IsForest parent nodes) : IsForest next nodes where
  closed := hhalved.closed nodes hforest.closed
  rooted node hnode := by
    obtain ⟨root, steps, hroot⟩ := hforest.rooted node hnode
    exact ⟨root, steps, hhalved.rootIn steps node root hroot⟩

theorem Halved.isRootOf_iff (hhalved : Halved parent next) (hforest : IsForest parent nodes)
    (hnode : node ∈ nodes) : IsRootOf next node root ↔ IsRootOf parent node root := by
  obtain ⟨own, steps, hown⟩ := hforest.rooted node hnode
  have hkept : IsRootOf next node own := ⟨steps, hhalved.rootIn steps node own hown⟩
  constructor
  · intro hroot
    rw [hroot.unique hkept]
    exact ⟨steps, hown⟩
  · rintro ⟨steps, hroot⟩
    exact ⟨steps, hhalved.rootIn steps node root hroot⟩

theorem IsGrouped.halved (hgrouped : IsGrouped parent done groups)
    (hhalved : Halved parent next) : IsGrouped next done groups where
  nodup := hgrouped.nodup
  perm := hgrouped.perm
  rooted := by
    intro group hgroup
    refine ⟨(hgrouped.rooted group hgroup).1, fun node hnode => ?_⟩
    obtain ⟨steps, hroot⟩ := (hgrouped.rooted group hgroup).2 node hnode
    exact ⟨steps, hhalved.rootIn steps node _ hroot⟩

variable [DecidableEq Node]

theorem RootIn.halve {halved : Node} (hhalved : parent halved ≠ halved)
    (hroot : RootIn parent steps node root) :
    RootIn (update parent halved (parent (parent halved))) steps node
      root := by
  have hne : root ≠ halved := by
    rintro rfl
    exact hhalved hroot.2
  have hself : update parent halved (parent (parent halved)) root =
      root := by
    rw [update_of_ne hne, hroot.2]
  induction steps using Nat.strong_induction_on generalizing node with
  | _ steps ih =>
    cases steps with
    | zero => exact ⟨hroot.1, hself⟩
    | succ steps =>
      rw [rootIn_succ] at hroot ⊢
      by_cases hnode : node = halved
      · rw [hnode] at hroot ⊢
        rw [update_self]
        cases steps with
        | zero =>
          -- The parent is the root, and so is the grandparent.
          have hparent : parent halved = root := hroot.1
          have hgrand : parent (parent halved) = root := by rw [hparent, hroot.2]
          rw [hgrand] at hself ⊢
          exact RootIn.of_self hself
        | succ steps =>
          have hlater := ih steps (by omega) (rootIn_succ.mp hroot)
          exact hlater.succ
      · rw [update_of_ne hnode]
        exact ih steps (Nat.lt_succ_self steps) hroot

theorem Halved.update {halved : Node} (hhalved : parent halved ≠ halved) :
    Halved parent (update parent halved (parent (parent halved))) where
  rootIn _ _ _ hroot := hroot.halve hhalved
  closed nodes hclosed node hnode := by
    by_cases heq : node = halved
    · subst heq
      rw [update_self]
      exact hclosed _ (hclosed _ hnode)
    · rw [update_of_ne heq]
      exact hclosed _ hnode

def find : ℕ → (Node → Node) → Node → Option ((Node → Node) × Node)
  | 0, _, _ => none
  | fuel + 1, parent, node =>
    if parent node = node then some (parent, node)
    else
      let halved := update parent node (parent (parent node))
      find fuel halved (halved node)

def union (fuel : ℕ) (parent : Node → Node) (first second : Node) : Option (Node → Node) :=
  match find fuel parent first with
  | none => none
  | some (parent, firstRoot) =>
    match find fuel parent second with
    | none => none
    | some (parent, secondRoot) =>
      if firstRoot ≠ secondRoot then
        some (update parent firstRoot secondRoot)
      else some parent

theorem find_spec (hroot : RootIn parent steps node root) (hfuel : steps < fuel) :
    ∃ next, find fuel parent node = some (next, root) ∧ Halved parent next := by
  induction fuel generalizing parent steps node with
  | zero => exact absurd hfuel (Nat.not_lt_zero steps)
  | succ fuel ih =>
    unfold find
    by_cases hself : parent node = node
    · have heq : node = root := IsRootOf.unique ⟨0, rfl, hself⟩ ⟨steps, hroot⟩
      rw [if_pos hself]
      exact ⟨parent, by rw [heq], Halved.refl parent⟩
    · rw [if_neg hself]
      cases steps with
      | zero =>
        have heq : node = root := hroot.1
        rw [← heq] at hroot
        exact absurd hroot.2 hself
      | succ steps =>
        have hhalved := Halved.update hself
        have hgrand : RootIn parent steps (parent (parent node)) root := rootIn_succ.mp hroot.succ
        have hnext := hhalved.rootIn steps _ root hgrand
        obtain ⟨next, hfind, hlater⟩ := ih hnext (by omega)
        refine ⟨next, ?_, hhalved.trans hlater⟩
        simp only [update_self]
        exact hfind

theorem IsForest.find_eq (hforest : IsForest parent nodes) (hfuel : nodes.card ≤ fuel)
    (hnode : node ∈ nodes) (hroot : IsRootOf parent node root) :
    ∃ next, find fuel parent node = some (next, root) ∧ Halved parent next := by
  obtain ⟨steps, hsteps, hrootIn⟩ := hforest.exists_steps hnode hroot
  exact find_spec hrootIn (by omega)

theorem RootIn.join (hfirst : parent first = first)
    (hsecond : parent second = second) (hroot : RootIn parent steps node root) :
    RootIn (update parent first second) (steps + 1) node
      (if root = first then second else root) := by
  by_cases hsame : first = second
  · subst hsame
    rw [update_eq_self_iff.mpr hfirst.symm]
    have hif : (if root = first then first else root) = root := by
      by_cases heq : root = first
      · rw [if_pos heq, heq]
      · rw [if_neg heq]
    rw [hif]
    exact hroot.succ
  have hjoined : update parent first second second = second := by
    rw [update_of_ne (Ne.symm hsame), hsecond]
  induction steps generalizing node with
  | zero =>
    have hnode : node = root := hroot.1
    subst hnode
    rw [rootIn_succ]
    by_cases heq : node = first
    · subst heq
      rw [if_pos rfl, update_self]
      exact ⟨rfl, hjoined⟩
    · rw [if_neg heq, update_of_ne heq, hroot.2]
      exact ⟨rfl, by rw [update_of_ne heq, hroot.2]⟩
  | succ steps ih =>
    rw [rootIn_succ] at hroot ⊢
    by_cases hnode : node = first
    · subst hnode
      rw [hfirst] at hroot
      have heq : node = root := IsRootOf.unique ⟨0, rfl, hfirst⟩ ⟨steps, hroot⟩
      rw [if_pos heq.symm, update_self]
      exact RootIn.of_self hjoined
    · rw [update_of_ne hnode]
      exact ih hroot

/-- The sets of two nodes are one now, and no others are. -/
structure Joined (parent next : Node → Node) (nodes : Finset Node)
    (first second : Node) : Prop where
  forest : IsForest next nodes
  joined : SameSet next first second
  kept : ∀ a ∈ nodes, ∀ b ∈ nodes, SameSet parent a b → SameSet next a b
  only : ∀ a ∈ nodes, ∀ b ∈ nodes, SameSet next a b →
    SameSet parent a b ∨ SameSet parent a first ∧ SameSet parent second b ∨
      SameSet parent a second ∧ SameSet parent first b

omit [DecidableEq Node] in
theorem Joined.swap (hjoined : Joined parent next nodes first second) :
    Joined parent next nodes second first where
  forest := hjoined.forest
  joined := hjoined.joined.symm
  kept := hjoined.kept
  only a ha b hb hsame := (hjoined.only a ha b hb hsame).imp_right Or.symm

theorem IsForest.join {firstRoot secondRoot : Node} (hforest : IsForest parent nodes)
    (hhalved : Halved parent next) (hfirst : first ∈ nodes) (hsecond : second ∈ nodes)
    (hfirstRoot : IsRootOf parent first firstRoot)
    (hsecondRoot : IsRootOf parent second secondRoot) :
    Joined parent (update next firstRoot secondRoot) nodes first
      second := by
  have hfixed : ∀ {node root}, node ∈ nodes → IsRootOf parent node root → next root = root := by
    intro node root hnode hroot
    obtain ⟨steps, hsteps⟩ := (hhalved.isRootOf_iff hforest hnode).mpr hroot
    exact hsteps.2
  have hjoin : ∀ {node root}, node ∈ nodes → IsRootOf parent node root →
      IsRootOf (update next firstRoot secondRoot) node
        (if root = firstRoot then secondRoot else root) := by
    intro node root hnode hroot
    obtain ⟨steps, hsteps⟩ := (hhalved.isRootOf_iff hforest hnode).mpr hroot
    exact ⟨steps + 1, hsteps.join (hfixed hfirst hfirstRoot) (hfixed hsecond hsecondRoot)⟩
  refine ⟨⟨?_, ?_⟩, ?_, ?_, ?_⟩
  · intro node hnode
    by_cases heq : node = firstRoot
    · rw [heq, update_self]
      exact hforest.root_mem hsecond hsecondRoot
    · rw [update_of_ne heq]
      exact (hhalved.isForest hforest).closed node hnode
  · intro node hnode
    obtain ⟨root, hroot⟩ := hforest.rooted node hnode
    exact ⟨_, hjoin hnode hroot⟩
  · have hleft := hjoin hfirst hfirstRoot
    have hright := hjoin hsecond hsecondRoot
    have hstays : (if secondRoot = firstRoot then secondRoot
        else secondRoot) = secondRoot := ite_self secondRoot
    rw [if_pos rfl] at hleft
    rw [hstays] at hright
    exact ⟨secondRoot, hleft, hright⟩
  · rintro a ha b hb ⟨root, hroota, hrootb⟩
    exact ⟨_, hjoin ha hroota, hjoin hb hrootb⟩
  · rintro a ha b hb ⟨joint, hjointa, hjointb⟩
    obtain ⟨roota, hroota⟩ := hforest.rooted a ha
    obtain ⟨rootb, hrootb⟩ := hforest.rooted b hb
    have hmoved := ((hjoin ha hroota).unique hjointa).trans ((hjoin hb hrootb).unique hjointb).symm
    by_cases heqa : roota = firstRoot
    · by_cases heqb : rootb = firstRoot
      · exact .inl ⟨roota, hroota, by rw [heqa, ← heqb]; exact hrootb⟩
      · rw [if_pos heqa, if_neg heqb] at hmoved
        exact .inr (.inl ⟨⟨roota, hroota, heqa ▸ hfirstRoot⟩,
          ⟨rootb, hmoved ▸ hsecondRoot, hrootb⟩⟩)
    · by_cases heqb : rootb = firstRoot
      · rw [if_neg heqa, if_pos heqb] at hmoved
        exact .inr (.inr ⟨⟨roota, hroota, hmoved ▸ hsecondRoot⟩,
          ⟨rootb, heqb ▸ hfirstRoot, hrootb⟩⟩)
      · rw [if_neg heqa, if_neg heqb] at hmoved
        exact .inl ⟨roota, hroota, hmoved ▸ hrootb⟩

/-- The roots of two nodes are found, and the first is pointed to the second,
or the second to the first where they are in the order given. -/
def unionBy (ordered : Node → Node → Bool) (fuel : ℕ) (parent : Node → Node)
    (first second : Node) : Option (Node → Node) :=
  match find fuel parent first with
  | none => none
  | some (parent, firstRoot) =>
    match find fuel parent second with
    | none => none
    | some (parent, secondRoot) =>
      if firstRoot = secondRoot then some parent
      else if ordered firstRoot secondRoot then
        some (update parent secondRoot firstRoot)
      else some (update parent firstRoot secondRoot)

theorem union_eq_unionBy (fuel : ℕ) (parent : Node → Node) (first second : Node) :
    union fuel parent first second = unionBy (fun _ _ => false) fuel parent first second := by
  unfold union unionBy
  simp only [ite_not, Bool.false_eq_true, if_false]

theorem IsForest.unionBy_eq (ordered : Node → Node → Bool) (hforest : IsForest parent nodes)
    (hfuel : nodes.card ≤ fuel) (hfirst : first ∈ nodes) (hsecond : second ∈ nodes) :
    ∃ next, unionBy ordered fuel parent first second = some next ∧
      Joined parent next nodes first second := by
  obtain ⟨firstRoot, hfirstRoot⟩ := hforest.rooted first hfirst
  obtain ⟨secondRoot, hsecondRoot⟩ := hforest.rooted second hsecond
  obtain ⟨halved, hfind, hhalved⟩ := hforest.find_eq hfuel hfirst hfirstRoot
  obtain ⟨twice, hfind', hhalved'⟩ :=
    (hhalved.isForest hforest).find_eq hfuel hsecond
      ((hhalved.isRootOf_iff hforest hsecond).mpr hsecondRoot)
  have hboth := hhalved.trans hhalved'
  have hjoined := hforest.join hboth hfirst hsecond hfirstRoot hsecondRoot
  unfold unionBy
  simp only [hfind, hfind']
  split
  · rename_i hsame
    obtain ⟨steps, hsteps⟩ := (hboth.isRootOf_iff hforest hsecond).mpr hsecondRoot
    rw [hsame, update_eq_self_iff.mpr hsteps.2.symm] at hjoined
    exact ⟨twice, rfl, hjoined⟩
  · split
    · exact ⟨_, rfl, (hforest.join hboth hsecond hfirst hsecondRoot hfirstRoot).swap⟩
    · exact ⟨_, rfl, hjoined⟩

def unionAll (fuel : ℕ) : (Node → Node) → List (Node × Node) → Option (Node → Node)
  | parent, [] => some parent
  | parent, (first, second) :: rest =>
    match union fuel parent first second with
    | none => none
    | some next => unionAll fuel next rest

def unionAllBy (ordered : Node → Node → Bool) (fuel : ℕ) :
    (Node → Node) → List (Node × Node) → Option (Node → Node)
  | parent, [] => some parent
  | parent, (first, second) :: rest =>
    match unionBy ordered fuel parent first second with
    | none => none
    | some next => unionAllBy ordered fuel next rest

theorem unionAll_eq_unionAllBy (fuel : ℕ) (parent : Node → Node) (pairs : List (Node × Node)) :
    unionAll fuel parent pairs = unionAllBy (fun _ _ => false) fuel parent pairs := by
  induction pairs generalizing parent with
  | nil => rfl
  | cons pair rest ih => simp only [unionAll, unionAllBy, union_eq_unionBy, ih]

def Asked (parent : Node → Node) (nodes : Finset Node)
    (pairs : List (Node × Node)) (a b : Node) : Prop :=
  (a ∈ nodes ∧ b ∈ nodes ∧ SameSet parent a b) ∨ (a, b) ∈ pairs

variable (ordered : Node → Node → Bool)

theorem IsForest.unionAllBy_eq (hforest : IsForest parent nodes) (hfuel : nodes.card ≤ fuel)
    (hpairs : ∀ pair ∈ pairs, pair.1 ∈ nodes ∧ pair.2 ∈ nodes) :
    ∃ next, unionAllBy ordered fuel parent pairs = some next ∧
      IsForest next nodes ∧
      (∀ pair ∈ pairs, SameSet next pair.1 pair.2) ∧
      (∀ a ∈ nodes, ∀ b ∈ nodes, SameSet parent a b → SameSet next a b) ∧
      ∀ a ∈ nodes, ∀ b ∈ nodes, SameSet next a b →
        Relation.EqvGen (Asked parent nodes pairs) a b := by
  induction pairs generalizing parent with
  | nil =>
    exact ⟨parent, rfl, hforest, nofun, fun _ _ _ _ hsame => hsame,
      fun _ ha _ hb hsame => .rel _ _ (.inl ⟨ha, hb, hsame⟩)⟩
  | cons pair rest ih =>
    obtain ⟨first, second⟩ := pair
    rw [forall_mem_cons] at hpairs
    obtain ⟨⟨hfirst, hsecond⟩, hrest⟩ := hpairs
    obtain ⟨joined, hunion, hjoined⟩ := hforest.unionBy_eq ordered hfuel hfirst hsecond
    obtain ⟨next, hnext, hforestNext, hrestPairs, hkeptLater, honlyLater⟩ := ih hjoined.forest hrest
    refine ⟨next, ?_, hforestNext, ?_, ?_, ?_⟩
    · simp only [unionAllBy, hunion]
      exact hnext
    · rw [forall_mem_cons]
      exact ⟨hkeptLater first hfirst second hsecond hjoined.joined, hrestPairs⟩
    · intro a ha b hb hsame
      exact hkeptLater a ha b hb (hjoined.kept a ha b hb hsame)
    · intro a ha b hb hsame
      have hold : ∀ {a b}, a ∈ nodes → b ∈ nodes → SameSet parent a b →
          Relation.EqvGen (Asked parent nodes ((first, second) :: rest)) a b :=
        fun ha hb hsame => .rel _ _ (.inl ⟨ha, hb, hsame⟩)
      have hnew : Relation.EqvGen (Asked parent nodes ((first, second) :: rest)) first second :=
        .rel _ _ (.inr mem_cons_self)
      apply eqvGen_of_forall _ (honlyLater a ha b hb hsame)
      rintro a b (⟨ha, hb, hset⟩ | hlater)
      · rcases hjoined.only a ha b hb hset with hsame | ⟨hleft, hright⟩ | ⟨hleft, hright⟩
        · exact hold ha hb hsame
        · exact (hold ha hfirst hleft).trans _ _ _ (hnew.trans _ _ _ (hold hsecond hb hright))
        · exact (hold ha hsecond hleft).trans _ _ _ (hnew.symm.trans _ _ _ (hold hfirst hb hright))
      · exact .rel _ _ (.inr (mem_cons_of_mem _ hlater))

theorem unionAllBy_id (hfuel : nodes.card ≤ fuel)
    (hpairs : ∀ pair ∈ pairs, pair.1 ∈ nodes ∧ pair.2 ∈ nodes) :
    ∃ next, unionAllBy ordered fuel id pairs = some next ∧ IsForest next nodes ∧
      ∀ a ∈ nodes, ∀ b ∈ nodes, SameSet next a b ↔
        Relation.EqvGen (fun a b => (a, b) ∈ pairs) a b := by
  obtain ⟨next, hnext, hforest, hjoined, -, honly⟩ :=
    (isForest_id nodes).unionAllBy_eq ordered hfuel hpairs
  refine ⟨next, hnext, hforest, fun a ha b hb => ⟨?_, ?_⟩⟩
  · intro hsame
    apply eqvGen_of_forall _ (honly a ha b hb hsame)
    rintro a b (⟨-, -, heq⟩ | hpair)
    · rw [sameSet_id.mp heq]
      exact .refl b
    · exact .rel a b hpair
  · intro hgen
    have hboth : (a ∈ nodes ↔ b ∈ nodes) ∧ (a ∈ nodes → SameSet next a b) := by
      clear ha hb
      induction hgen with
      | rel a b hpair =>
        have hmem := hpairs _ hpair
        exact ⟨⟨fun _ => hmem.2, fun _ => hmem.1⟩, fun _ => hjoined _ hpair⟩
      | refl a =>
        refine ⟨Iff.rfl, fun ha => ?_⟩
        obtain ⟨root, hroot⟩ := hforest.rooted a ha
        exact ⟨root, hroot, hroot⟩
      | symm a b _ ih => exact ⟨ih.1.symm, fun hb => (ih.2 (ih.1.mpr hb)).symm⟩
      | trans a b c _ _ ihab ihbc =>
        exact ⟨ihab.1.trans ihbc.1, fun ha => (ihab.2 ha).trans (ihbc.2 (ihab.1.mp ha))⟩
    exact hboth.2 ha

/-! ## Collecting the groups -/

/-- `groups.setdefault(key, []).append(node)`. -/
def addTo (key node : Node) : List (Node × List Node) → List (Node × List Node)
  | [] => [(key, [node])]
  | (found, members) :: rest =>
    if found = key then (found, members ++ [node]) :: rest
    else (found, members) :: addTo key node rest

def collect (fuel : ℕ) : (Node → Node) → List (Node × List Node) →
    List Node → Option (List (Node × List Node))
  | _, groups, [] => some groups
  | parent, groups, node :: rest =>
    match find fuel parent node with
    | none => none
    | some (parent, root) => collect fuel parent (addTo root node groups) rest

theorem map_fst_addTo (key node : Node) (groups : List (Node × List Node)) :
    (addTo key node groups).map fst =
      if key ∈ groups.map fst then groups.map fst
      else groups.map fst ++ [key] := by
  induction groups with
  | nil => rfl
  | cons group rest ih =>
    obtain ⟨found, members⟩ := group
    by_cases hfound : found = key
    · simp [addTo, hfound]
    · simp only [addTo, if_neg hfound, map_cons, ih, mem_cons, Ne.symm hfound, false_or]
      by_cases hrest : key ∈ rest.map fst
      · rw [if_pos hrest, if_pos hrest]
      · rw [if_neg hrest, if_neg hrest, cons_append]

theorem flatten_addTo (key node : Node) (groups : List (Node × List Node)) :
    ((addTo key node groups).map snd).flatten.Perm
      ((groups.map snd).flatten ++ [node]) := by
  induction groups with
  | nil => exact Perm.refl _
  | cons group rest ih =>
    obtain ⟨found, members⟩ := group
    by_cases hfound : found = key
    · simp only [addTo, if_pos hfound, map_cons, flatten_cons, append_assoc]
      exact (perm_append_comm).append_left members
    · simp only [addTo, if_neg hfound, map_cons, flatten_cons, append_assoc]
      exact ih.append_left members

theorem mem_addTo {key node : Node} {group : Node × List Node}
    (hgroup : group ∈ addTo key node groups) :
    group ∈ groups ∨ group.1 = key ∧
      (group.2 = [node] ∨ ∃ members, (key, members) ∈ groups ∧ group.2 = members ++ [node]) := by
  induction groups with
  | nil =>
    rw [addTo, mem_singleton] at hgroup
    exact .inr ⟨by rw [hgroup], .inl (by rw [hgroup])⟩
  | cons head rest ih =>
    obtain ⟨found, members⟩ := head
    by_cases hfound : found = key
    · simp only [addTo, if_pos hfound, mem_cons] at hgroup
      rcases hgroup with hhead | hrest
      · subst hfound
        exact .inr ⟨by rw [hhead], .inr ⟨members, mem_cons_self, by rw [hhead]⟩⟩
      · exact .inl (mem_cons_of_mem _ hrest)
    · simp only [addTo, if_neg hfound, mem_cons] at hgroup
      rcases hgroup with hhead | hrest
      · exact .inl (hhead ▸ mem_cons_self)
      · rcases ih hrest with hold | ⟨hkey, hnew | ⟨others, hmem, heq⟩⟩
        · exact .inl (mem_cons_of_mem _ hold)
        · exact .inr ⟨hkey, .inl hnew⟩
        · exact .inr ⟨hkey, .inr ⟨others, mem_cons_of_mem _ hmem, heq⟩⟩

theorem IsGrouped.add (hgrouped : IsGrouped parent done groups)
    (hroot : IsRootOf parent node root) :
    IsGrouped parent (done ++ [node]) (addTo root node groups) where
  nodup := by
    rw [map_fst_addTo]
    by_cases hmem : root ∈ groups.map fst
    · rw [if_pos hmem]
      exact hgrouped.nodup
    · rw [if_neg hmem]
      exact hgrouped.nodup.append (nodup_singleton root) (disjoint_singleton.mpr hmem)
  perm := (flatten_addTo root node groups).trans
    (hgrouped.perm.append_right [node])
  rooted := by
    intro group hgroup
    rcases mem_addTo hgroup with hold | ⟨hkey, hnew | ⟨members, hmem, heq⟩⟩
    · exact hgrouped.rooted group hold
    · rw [hnew, hkey]
      refine ⟨by simp, fun other hother => ?_⟩
      rw [mem_singleton.mp hother]
      exact hroot
    · rw [heq, hkey]
      refine ⟨by simp, fun other hother => ?_⟩
      rcases mem_append.mp hother with hmembers | hnode
      · exact (hgrouped.rooted _ hmem).2 other hmembers
      · rw [mem_singleton.mp hnode]
        exact hroot

theorem IsForest.collect_eq (hforest : IsForest parent nodes) (hfuel : nodes.card ≤ fuel)
    {rest : List Node} (hgrouped : IsGrouped parent done groups)
    (hrest : ∀ node ∈ rest, node ∈ nodes) :
    ∃ final next, collect fuel parent groups rest = some final ∧
      Halved parent next ∧ IsGrouped next (done ++ rest) final := by
  induction rest generalizing parent done groups with
  | nil =>
    refine ⟨groups, parent, rfl, Halved.refl parent, ?_⟩
    rw [append_nil]
    exact hgrouped
  | cons node rest ih =>
    rw [forall_mem_cons] at hrest
    obtain ⟨root, hroot⟩ := hforest.rooted node hrest.1
    obtain ⟨halved, hfind, hhalved⟩ := hforest.find_eq hfuel hrest.1 hroot
    have hadded := (hgrouped.add hroot).halved hhalved
    obtain ⟨final, next, hfinal, hlater, hall⟩ := ih (hhalved.isForest hforest) hadded hrest.2
    refine ⟨final, next, ?_, hhalved.trans hlater, ?_⟩
    · simp only [collect, hfind]
      exact hfinal
    · rw [append_assoc] at hall
      exact hall

/-- The groups are the classes of the chains of pairs. -/
theorem exists_classes (ordered : Node → Node → Bool) {ids : List Node}
    (hpairs : ∀ pair ∈ pairs, pair.1 ∈ ids ∧ pair.2 ∈ ids) :
    ∃ parent groups, unionAllBy ordered ids.length id pairs = some parent ∧
      collect ids.length parent [] ids = some groups ∧
      (groups.map snd).flatten.Perm ids ∧
      (∀ first ∈ groups, ∀ second ∈ groups, ∀ a ∈ first.2, a ∈ second.2 → first = second) ∧
      ∀ group ∈ groups, group.2 ≠ [] ∧ ∀ a ∈ group.2, ∀ b, b ∈ group.2 ↔
        b ∈ ids ∧ Relation.EqvGen (fun a b => (a, b) ∈ pairs) a b := by
  have hfuel : ids.toFinset.card ≤ ids.length := toFinset_card_le ids
  simp only [← mem_toFinset (l := ids)] at hpairs
  obtain ⟨parent, hparent, hforest, hsame⟩ := unionAllBy_id ordered hfuel hpairs
  obtain ⟨groups, next, hgroups, hhalved, hgrouped⟩ := hforest.collect_eq hfuel (⟨nodup_nil,
    Perm.refl _, nofun⟩ : IsGrouped parent [] []) fun _ hid => mem_toFinset.mpr hid
  refine ⟨parent, groups, hparent, hgroups, hgrouped.perm, ?_,
    fun group hgroup => ⟨(hgrouped.rooted group hgroup).1, ?_⟩⟩
  · intro first hfirst second hsecond a hmem hmem'
    have hroot := (hgrouped.rooted first hfirst).2 a hmem
    exact hgrouped.eq_of_root hfirst hmem hsecond hmem' ⟨_, hroot, hroot⟩
  have hmem {node : Node} (hnode : node ∈ group.2) : node ∈ ids :=
    hgrouped.perm.mem_iff.mp (mem_flatten.mpr ⟨_, mem_map_of_mem hgroup, hnode⟩)
  have hclass {a b : Node} (ha : a ∈ ids) (hb : b ∈ ids) :
      SameSet next a b ↔ Relation.EqvGen (fun a b => (a, b) ∈ pairs) a b := by
    rw [← hsame a (mem_toFinset.mpr ha) b (mem_toFinset.mpr hb)]
    unfold SameSet
    simp only [hhalved.isRootOf_iff hforest (mem_toFinset.mpr ha),
      hhalved.isRootOf_iff hforest (mem_toFinset.mpr hb)]
  intro a ha b
  constructor
  · intro hb
    refine ⟨hmem hb, (hclass (hmem ha) (hmem hb)).mp ?_⟩
    exact ⟨group.1, (hgrouped.rooted group hgroup).2 a ha, (hgrouped.rooted group hgroup).2 b hb⟩
  · rintro ⟨hb, hchained⟩
    have hset := (hclass (hmem ha) hb).mpr hchained
    obtain ⟨other, hother, hothera, hotherb⟩ := (hgrouped.share_iff (hmem ha) hb).mpr hset
    obtain ⟨root, hroot, -⟩ := hset
    rwa [hgrouped.eq_of_root hgroup ha hother hothera ⟨root, hroot, hroot⟩]

end UnionFind
