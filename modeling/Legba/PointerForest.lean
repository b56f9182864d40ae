import Mathlib.Data.Set.Finite.List

/-!
# Pointers without cycles

Each node has at most one pointer.  Setting the pointer of one node keeps the
pointers acyclic exactly when the new target does not lead back to it, and
finitely many nodes which point among themselves without a cycle include one
that points nowhere.
-/

namespace PointerForest

open Function

universe u

variable {Node : Type u}

def Leads (next : Node → Option Node) (node target : Node) : Prop :=
  next node = some target

def Reaches (next : Node → Option Node) : Node → Node → Prop :=
  Relation.ReflTransGen (Leads next)

def Acyclic (next : Node → Option Node) : Prop :=
  ∀ node, ¬Relation.TransGen (Leads next) node node

variable {next : Node → Option Node}

theorem acyclic_of_strict {before : Node → Node → Prop}
    (htrans : ∀ a b c, before a b → before b c → before a c) (hirrefl : ∀ node, ¬before node node)
    (hup : ∀ node target, next node = some target → before node target) : Acyclic next := by
  have hpath : ∀ {node target}, Relation.TransGen (Leads next) node target →
      before node target := by
    intro node target hpath
    induction hpath with
    | single hstep => exact hup _ _ hstep
    | tail _ hstep ih => exact htrans _ _ _ ih (hup _ _ hstep)
  exact fun node hcycle => hirrefl node (hpath hcycle)

theorem acyclic_of_none (hnone : ∀ node, next node = none) : Acyclic next := by
  intro node hcycle
  obtain ⟨target, hstep, _⟩ := Relation.TransGen.head'_iff.mp hcycle
  rw [Leads, hnone] at hstep
  cases hstep

section

variable [DecidableEq Node] {node target : Node}

theorem leads_update_of_ne {other after : Node} (hother : other ≠ node) :
    Leads (update next node (some target)) other after ↔ Leads next other after := by
  unfold Leads
  rw [update_of_ne hother]

theorem leads_update_self {after : Node} :
    Leads (update next node (some target)) node after ↔ after = target := by
  unfold Leads
  rw [update_self, Option.some.injEq, eq_comm]

theorem Reaches.update {start : Node} (hreaches : Reaches next start node) :
    Reaches (update next node (some target)) start node := by
  induction hreaches using Relation.ReflTransGen.head_induction_on with
  | refl => exact .refl
  | @head first second hstep _ ih =>
    by_cases hfirst : first = node
    · subst hfirst
      exact .refl
    · exact .head ((leads_update_of_ne hfirst).mpr hstep) ih

theorem reaches_of_update (hout : ¬Reaches next target node) {start : Node}
    (hreaches : Reaches (update next node (some target)) target
      start) : Reaches next target start := by
  induction hreaches with
  | refl => exact .refl
  | @tail before after _ hstep ih =>
    have hne : before ≠ node := by
      rintro rfl
      exact hout ih
    exact .tail ih ((leads_update_of_ne hne).mp hstep)

theorem transGen_update_cases {start stop : Node}
    (hpath : Relation.TransGen (Leads (update next node (some target))) start stop) :
    Relation.TransGen (Leads next) start stop ∨
      Reaches (update next node (some target)) target stop := by
  induction hpath with
  | single hstep =>
    by_cases hstart : start = node
    · subst hstart
      rw [leads_update_self.mp hstep]
      exact .inr .refl
    · exact .inl (.single ((leads_update_of_ne hstart).mp hstep))
  | @tail before after _ hstep ih =>
    rcases ih with hold | hnew
    · by_cases hbefore : before = node
      · subst hbefore
        rw [leads_update_self.mp hstep]
        exact .inr .refl
      · exact .inl (.tail hold ((leads_update_of_ne hbefore).mp hstep))
    · exact .inr (.tail hnew hstep)

theorem acyclic_update_iff (hacyclic : Acyclic next) :
    Acyclic (update next node (some target)) ↔ ¬Reaches next target node := by
  constructor
  · intro hnext hreaches
    have hback : Reaches (update next node (some target)) target
        node := Reaches.update hreaches
    exact hnext node (.head' (leads_update_self.mpr rfl) hback)
  · intro hout start hcycle
    rcases transGen_update_cases hcycle with hold | hfrom
    · exact hacyclic start hold
    · -- The cycle lies behind the target, where nothing has changed.
      have hold : ∀ {stop}, Relation.TransGen
          (Leads (update next node (some target))) start stop →
          Relation.TransGen (Leads next) start stop := by
        intro stop hpath
        induction hpath with
        | single hstep =>
          have hne : start ≠ node := by
            rintro rfl
            exact hout (reaches_of_update hout hfrom)
          exact .single ((leads_update_of_ne hne).mp hstep)
        | @tail before after hfront hstep ih =>
          have hne : before ≠ node := by
            rintro rfl
            exact hout (reaches_of_update hout (hfrom.trans hfront.to_reflTransGen))
          exact .tail ih ((leads_update_of_ne hne).mp hstep)
      exact hacyclic start (hold hcycle)

end

theorem Acyclic.exists_end (hacyclic : Acyclic next) {nodes : List Node}
    (hclosed : ∀ node ∈ nodes, ∀ target, next node = some target → target ∈ nodes)
    {start : Node} (hstart : start ∈ nodes) : ∃ node ∈ nodes, next node = none := by
  let behind : {node // node ∈ nodes} → {node // node ∈ nodes} → Prop :=
    fun later earlier => Relation.TransGen (Leads next) earlier.1 later.1
  have htrans : IsTrans _ behind := ⟨fun _ _ _ hlater hearlier => hearlier.trans hlater⟩
  have hirrefl : Std.Irrefl behind := ⟨fun node => hacyclic node.1⟩
  have hfinite : Finite {node // node ∈ nodes} := nodes.finite_toSet
  have hwell : WellFounded behind := Finite.wellFounded_of_trans_of_irrefl behind
  obtain ⟨last, _, hlast⟩ := hwell.has_min Set.univ ⟨⟨start, hstart⟩, trivial⟩
  refine ⟨last.1, last.2, ?_⟩
  cases hnext : next last.1 with
  | none => rfl
  | some target =>
    have htarget := hclosed last.1 last.2 target hnext
    exact absurd (.single hnext) (hlast ⟨target, htarget⟩ trivial)

end PointerForest
