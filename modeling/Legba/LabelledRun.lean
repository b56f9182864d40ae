import Mathlib.Algebra.Group.Pi.Lemmas
import Mathlib.Data.Fintype.BigOperators

/-!
# Finite runs of a labelled step function

An interleaving of several parties is a word of labels, and the system is a
partial step function: a label which is not enabled has no successor.  The
results below turn facts about one step into facts about every run of any
system, which is the parameter `step`.

The last section concerns a family of parties indexed by a finite type, or a
list of entries, of which one step changes exactly one member.
-/

namespace LabelledRun

open List Function

universe u v

variable {State : Type u} {Label : Type v}

/-- Execute a word of labels.  A disabled label stops the run with `none`. -/
def run (step : State → Label → Option State) : State → List Label → Option State
  | state, [] => some state
  | state, label :: rest =>
    match step state label with
    | some next => run step next rest
    | none => none

/-- Every step taken by the word satisfies `R` (state before, label, state
after). -/
def StepsSatisfy (step : State → Label → Option State)
    (R : State → Label → State → Prop) : State → List Label → Prop
  | _, [] => True
  | state, label :: rest =>
    match step state label with
    | some next => R state label next ∧ StepsSatisfy step R next rest
    | none => True

/-- Every state visited by the word, the first and the last one included,
satisfies `P`. -/
def VisitsOnly (step : State → Label → Option State) (P : State → Prop) : State → List Label → Prop
  | state, [] => P state
  | state, label :: rest =>
    P state ∧
      match step state label with
      | some next => VisitsOnly step P next rest
      | none => True

def visitsOnlyDecidable (step : State → Label → Option State)
    (P : State → Prop) [DecidablePred P] :
    ∀ (state : State) (labels : List Label), Decidable (VisitsOnly step P state labels)
  | state, [] => inferInstanceAs (Decidable (P state))
  | state, label :: rest =>
    match hstep : step state label with
    | some next =>
      have _ := visitsOnlyDecidable step P next rest
      decidable_of_iff (P state ∧ VisitsOnly step P next rest) (by simp [VisitsOnly, hstep])
    | none => decidable_of_iff (P state) (by simp [VisitsOnly, hstep])

instance (step : State → Label → Option State) (P : State → Prop)
    [DecidablePred P] (state : State) (labels : List Label) :
    Decidable (VisitsOnly step P state labels) :=
  visitsOnlyDecidable step P state labels

def stepsSatisfyDecidable (step : State → Label → Option State)
    (R : State → Label → State → Prop)
    [∀ state label next, Decidable (R state label next)] :
    ∀ (state : State) (labels : List Label), Decidable (StepsSatisfy step R state labels)
  | _, [] => inferInstanceAs (Decidable True)
  | state, label :: rest =>
    match hstep : step state label with
    | some next =>
      have _ := stepsSatisfyDecidable step R next rest
      decidable_of_iff (R state label next ∧ StepsSatisfy step R next rest)
        (by simp [StepsSatisfy, hstep])
    | none => decidable_of_iff True (by simp [StepsSatisfy, hstep])

instance (step : State → Label → Option State)
    (R : State → Label → State → Prop)
    [∀ state label next, Decidable (R state label next)]
    (state : State) (labels : List Label) :
    Decidable (StepsSatisfy step R state labels) :=
  stepsSatisfyDecidable step R state labels

variable {step : State → Label → Option State}

@[simp] theorem run_nil (state : State) : run step state [] = some state := rfl

@[simp] theorem stepsSatisfy_nil (R : State → Label → State → Prop)
    (state : State) : StepsSatisfy step R state [] := trivial

variable {state next : State} {label : Label} {rest labels : List Label}
  {R S Good Allowed : State → Label → State → Prop} {P Inv : State → Prop}

theorem run_cons_eq_some {final : State} :
    run step state (label :: rest) = some final ↔
      ∃ next, step state label = some next ∧ run step next rest = some final := by
  cases hstep : step state label with
  | none => simp [run, hstep]
  | some next => simp [run, hstep]

theorem stepsSatisfy_cons (hstep : step state label = some next) :
    StepsSatisfy step R state (label :: rest) ↔
      R state label next ∧ StepsSatisfy step R next rest := by
  simp [StepsSatisfy, hstep]

theorem visitsOnly_cons (hstep : step state label = some next) :
    VisitsOnly step P state (label :: rest) ↔ P state ∧ VisitsOnly step P next rest := by
  simp [VisitsOnly, hstep]

theorem VisitsOnly.start (h : VisitsOnly step P state labels) : P state := by
  cases labels with
  | nil => exact h
  | cons label rest => exact h.1

theorem stepsSatisfy_append {middle : State} {before after : List Label}
    (hbefore : run step state before = some middle) :
    StepsSatisfy step R state (before ++ after) ↔
      StepsSatisfy step R state before ∧ StepsSatisfy step R middle after := by
  induction before generalizing state with
  | nil =>
    simp only [run_nil, Option.some.injEq] at hbefore
    subst middle
    simp
  | cons label rest ih =>
    obtain ⟨next, hstep, hrest⟩ := run_cons_eq_some.mp hbefore
    rw [cons_append, stepsSatisfy_cons hstep, stepsSatisfy_cons hstep, ih hrest, and_assoc]

theorem visitsOnly_iff_start_and_steps :
    VisitsOnly step P state labels ↔
      P state ∧ StepsSatisfy step (fun _ _ next => P next) state labels := by
  induction labels generalizing state with
  | nil => simp [VisitsOnly]
  | cons label rest ih =>
    cases hstep : step state label with
    | none => simp [VisitsOnly, StepsSatisfy, hstep]
    | some next => rw [visitsOnly_cons hstep, stepsSatisfy_cons hstep, ih]

/-! ## Invariants -/

theorem stepsSatisfy_of_forall
    (h : ∀ state label next, step state label = some next → R state label next)
    (state : State) (labels : List Label) : StepsSatisfy step R state labels := by
  induction labels generalizing state with
  | nil => trivial
  | cons label rest ih =>
    cases hstep : step state label with
    | none => simp [StepsSatisfy, hstep]
    | some next => exact (stepsSatisfy_cons hstep).mpr ⟨h _ _ _ hstep, ih next⟩

theorem stepsSatisfy_of_labels {Q : Label → Prop} (hlabels : ∀ label ∈ labels, Q label)
    (state : State) : StepsSatisfy step (fun _ label _ => Q label) state labels := by
  induction labels generalizing state with
  | nil => trivial
  | cons label rest ih =>
    rw [forall_mem_cons] at hlabels
    cases hstep : step state label with
    | none => simp [StepsSatisfy, hstep]
    | some next => exact (stepsSatisfy_cons hstep).mpr ⟨hlabels.1, ih hlabels.2 next⟩

/-- Two properties of single steps which agree under an invariant hold along
the same runs, if steps with the second one keep the invariant.  Only runs
whose steps are `Allowed` are considered. -/
theorem stepsSatisfy_iff_of_invariant
    (hkeep : ∀ state label next, Inv state → step state label = some next →
      Allowed state label next → Good state label next → Inv next)
    (hiff : ∀ state label next, Inv state → step state label = some next →
      Allowed state label next → (R state label next ↔ Good state label next))
    (hstart : Inv state) (hallowed : StepsSatisfy step Allowed state labels) :
    StepsSatisfy step R state labels ↔ StepsSatisfy step Good state labels := by
  induction labels generalizing state with
  | nil => exact Iff.rfl
  | cons label rest ih =>
    cases hstep : step state label with
    | none => simp [StepsSatisfy, hstep]
    | some next =>
      obtain ⟨hhead, htail⟩ := (stepsSatisfy_cons hstep).mp hallowed
      rw [stepsSatisfy_cons hstep, stepsSatisfy_cons hstep, hiff _ _ _ hstart hstep hhead]
      apply and_congr_right
      intro hgood
      exact ih (hkeep _ _ _ hstart hstep hhead hgood) htail

theorem stepsSatisfy_of_invariant
    (hkeep : ∀ state label next, Inv state → step state label = some next → Good state label next →
      Inv next)
    (hR : ∀ state label next, Inv state → step state label = some next → Good state label next → R
      state label next) (hstart : Inv state) (hgood : StepsSatisfy step Good state labels) :
    StepsSatisfy step R state labels := by
  have hall : StepsSatisfy step (fun _ _ _ => True) state labels :=
    stepsSatisfy_of_forall (fun _ _ _ _ => trivial) state labels
  refine (stepsSatisfy_iff_of_invariant (fun state label next hinv hstep hgood _
    => ?_) (fun state label next hinv hstep hgood => ?_) hstart hgood).mpr hall
  · exact hkeep state label next hinv hstep hgood
  · exact iff_true_intro (hR state label next hinv hstep hgood)

theorem StepsSatisfy.mono (hmono : ∀ state label next, R state label next → S state label next)
    (hR : StepsSatisfy step R state labels) :
    StepsSatisfy step S state labels :=
  stepsSatisfy_of_invariant (fun _ _ _ (_ : True) _ _ => trivial)
    (fun state label next _ _ => hmono state label next) trivial hR

theorem stepsSatisfy_and (hR : StepsSatisfy step R state labels)
    (hS : StepsSatisfy step S state labels) :
    StepsSatisfy step (fun state label next =>
      R state label next ∧ S state label next) state labels :=
  (stepsSatisfy_iff_of_invariant (fun _ _ _ (_ : True) _ _ _ => trivial)
    (fun _ _ _ _ _ hR => and_iff_right hR) trivial hR).mpr hS

theorem VisitsOnly.mono {Q : State → Prop} (hmono : ∀ state, P state → Q state)
    (hP : VisitsOnly step P state labels) : VisitsOnly step Q state labels := by
  rw [visitsOnly_iff_start_and_steps] at hP ⊢
  exact ⟨hmono state hP.1, hP.2.mono fun _ _ next => hmono next⟩

theorem visitsOnly_of_goodSteps (hP : ∀ state, Inv state → P state)
    (hkeep : ∀ state label next, Inv state → step state label = some next → Good state label next →
      Inv next) (hstart : Inv state) (hgood : StepsSatisfy step Good state labels) :
    VisitsOnly step P state labels := by
  rw [visitsOnly_iff_start_and_steps]
  refine ⟨hP state hstart, stepsSatisfy_of_invariant hkeep ?_ hstart hgood⟩
  intro state label next hinv hstep hgood
  exact hP next (hkeep state label next hinv hstep hgood)

theorem visitsOnly_of_steps (hP : ∀ state, Inv state → P state)
    (hkeep : ∀ state label next, Inv state → step state label = some next → Inv next)
    (hstart : Inv state) (labels : List Label) : VisitsOnly step P state labels :=
  visitsOnly_of_goodSteps hP (fun _ _ _ hinv hstep _ => hkeep _ _ _ hinv hstep) hstart
    (stepsSatisfy_of_forall (R := fun _ _ _ => True) (fun _ _ _ _ => trivial) _ _)

theorem VisitsOnly.final {final : State} (h : VisitsOnly step P state labels)
    (hrun : run step state labels = some final) : P final := by
  induction labels generalizing state with
  | nil =>
    simp only [run_nil, Option.some.injEq] at hrun
    exact hrun ▸ h
  | cons label rest ih =>
    obtain ⟨next, hstep, hrest⟩ := run_cons_eq_some.mp hrun
    exact ih ((visitsOnly_cons hstep).mp h).2 hrest

theorem invariant_of_goodSteps
    (hkeep : ∀ state label next, P state → step state label = some next → Good state label next → P
      next) {final : State} (hstart : P state) (hrun : run step state labels = some final)
    (hgood : StepsSatisfy step Good state labels) : P final :=
  (visitsOnly_of_goodSteps (fun _ => id) hkeep hstart hgood).final hrun

theorem invariant_of_steps
    (hkeep : ∀ state label next, P state → step state label = some next → P next) {final : State}
    (hstart : P state) (hrun : run step state labels = some final) : P final := by
  have hall : StepsSatisfy step (fun _ _ _ => True) state labels :=
    stepsSatisfy_of_forall (fun _ _ _ _ => trivial) state labels
  exact invariant_of_goodSteps (fun state label next hP hstep _ => hkeep state
    label next hP hstep) hstart hrun hall

/-- If `Inv` implies `P`, a step satisfying `Good` keeps `Inv` and any other
step leads out of `P`, then a run visits only states with `P` exactly when all
its steps satisfy `Good`.  Only runs whose steps are `Allowed` are
considered. -/
theorem visitsOnly_iff_goodSteps (hP : ∀ state, Inv state → P state)
    (hkeep : ∀ state label next, Inv state → step state label = some next →
      Allowed state label next → Good state label next → Inv next)
    (hbreak : ∀ state label next, Inv state → step state label = some next →
      Allowed state label next → ¬Good state label next → ¬P next)
    (hstart : Inv state) (hallowed : StepsSatisfy step Allowed state labels) :
    VisitsOnly step P state labels ↔ StepsSatisfy step Good state labels := by
  rw [visitsOnly_iff_start_and_steps, and_iff_right (hP state hstart)]
  refine stepsSatisfy_iff_of_invariant hkeep ?_ hstart hallowed
  intro state label next hinv hstep hallow
  constructor
  · intro hnext
    by_contra hbad
    exact hbreak state label next hinv hstep hallow hbad hnext
  · intro hgood
    exact hP next (hkeep state label next hinv hstep hallow hgood)

/-- If, from a state with `P`, a step keeps `P` exactly when it satisfies
`Good`, then a run visits only states with `P` exactly when all its steps
satisfy `Good`.  The auxiliary invariant `Inv` is kept by every step. -/
theorem visitsOnly_iff_stepsSatisfy
    (hInv : ∀ state label next, Inv state → step state label = some next → Inv next)
    (hexact : ∀ state label next, Inv state → P state → step state label = some next → (P next ↔
      Good state label next)) (hInvStart : Inv state) (hstart : P state) :
    VisitsOnly step P state labels ↔ StepsSatisfy step Good state labels := by
  have hall : StepsSatisfy step (fun _ _ _ => True) state labels :=
    stepsSatisfy_of_forall (fun _ _ _ _ => trivial) state labels
  refine visitsOnly_iff_goodSteps (?_ : ∀ s, Inv s ∧ P s → P s) ?_ ?_ ⟨hInvStart, hstart⟩ hall
  · exact fun s hs => hs.2
  · exact fun s label next hs hstep _ hgood =>
      ⟨hInv _ _ _ hs.1 hstep, (hexact _ _ _ hs.1 hs.2 hstep).mpr hgood⟩
  · exact fun s label next hs hstep _ hbad hnext => hbad ((hexact _ _ _ hs.1 hs.2 hstep).mp hnext)

theorem update_eq_some {Party : Type*} [DecidableEq Party] {Local : Type*}
    {locals : Party → Option Local} {party other : Party} {replacement found : Local} :
    update locals party (some replacement) other = some found ↔
      other = party ∧ found = replacement ∨ other ≠ party ∧ locals other = some found := by
  by_cases hother : other = party
  · subst other
    simp [eq_comm]
  · simp [hother]

section

variable {Party : Type*} [Fintype Party] [DecidableEq Party]
variable {Local : Type*} {Weight : Type*} [AddCommMonoid Weight]

theorem sum_update_add (locals : Party → Local) (weight : Local → Weight)
    (party : Party) (replacement : Local) :
    (∑ other, weight (update locals party replacement other)) + weight (locals party) =
      (∑ other, weight (locals other)) + weight replacement := by
  have hrest :
      (∑ other ∈ Finset.univ.erase party, weight (update locals party replacement other)) =
        ∑ other ∈ Finset.univ.erase party, weight (locals other) := by
    apply Finset.sum_congr rfl
    intro other hother
    rw [update_of_ne (Finset.ne_of_mem_erase hother)]
  rw [← Finset.sum_erase_add _ _ (Finset.mem_univ party),
    ← Finset.sum_erase_add _ (fun other => weight (locals other))
      (Finset.mem_univ party), hrest, update_self]
  exact add_right_comm _ _ _

end

theorem sum_map_modify {Entry : Type*} {Weight : Type*} [AddCommMonoid Weight]
    {entries : List Entry} {index : ℕ} {entry : Entry} (hentry : entries[index]? = some entry)
    (weight : Entry → Weight) (change : Entry → Entry) :
    ((entries.modify index change).map weight).sum + weight entry =
      (entries.map weight).sum + weight (change entry) := by
  induction entries generalizing index with
  | nil => simp at hentry
  | cons head tail ih =>
    cases index with
    | zero =>
      simp only [getElem?_cons_zero, Option.some.injEq] at hentry
      subst head
      simp only [modify_zero_cons, map_cons, sum_cons]
      rw [add_rotate, add_comm (tail.map weight).sum]
    | succ index =>
      simp only [modify_succ_cons, map_cons, sum_cons]
      rw [add_assoc, ih hentry, add_assoc]

end LabelledRun
