import Mathlib.Tactic.Common

/-!
# Descriptor lifecycles

Every family of descriptors has a lifecycle: the states, the moves allowed
from each and the terminal state.  Four families share one lifecycle; a
collection, a bounded holding of the past, has its own.  A state machine
carries the two facts the registry relies on: nothing is allowed from the
terminal state, and every other state may move there.
-/

namespace Legba.Descriptors

structure StateMachine where
  State : Type
  decidableEq : DecidableEq State
  value : State → String
  value_injective : Function.Injective value
  transitions : State → List State
  terminal : State
  transitions_terminal : transitions terminal = []
  terminal_mem : ∀ state, state ≠ terminal → terminal ∈ transitions state

instance (machine : StateMachine) : DecidableEq machine.State :=
  machine.decidableEq

namespace StateMachine

/-- A head in `current` may become a head in `next`. -/
def Allows (machine : StateMachine) (current next : machine.State) : Prop :=
  next = current ∨ next ∈ machine.transitions current

theorem Allows.of_terminal {machine : StateMachine} {next : machine.State}
    (hallows : machine.Allows machine.terminal next) : next = machine.terminal := by
  cases hallows with
  | inl hsame => exact hsame
  | inr hmoved =>
    rw [machine.transitions_terminal] at hmoved
    exact absurd hmoved List.not_mem_nil

theorem allows_terminal (machine : StateMachine) (current : machine.State) :
    machine.Allows current machine.terminal := by
  by_cases hcurrent : current = machine.terminal
  · exact Or.inl hcurrent.symm
  · exact Or.inr (machine.terminal_mem current hcurrent)

theorem ne_terminal_of_mem {machine : StateMachine} {current next : machine.State}
    (hmoves : next ∈ machine.transitions current) : current ≠ machine.terminal := by
  intro hterminal
  rw [hterminal, machine.transitions_terminal] at hmoves
  exact List.not_mem_nil hmoves

end StateMachine

inductive LifecycleState where
  | draft
  | configured
  | active
  | paused
  | retired
  deriving DecidableEq, Repr

def LifecycleState.value : LifecycleState → String
  | .draft => "draft"
  | .configured => "configured"
  | .active => "active"
  | .paused => "paused"
  | .retired => "retired"

def allowedTransitions : LifecycleState → List LifecycleState
  | .draft => [.configured, .retired]
  | .configured => [.active, .draft, .retired]
  | .active => [.paused, .retired]
  | .paused => [.active, .retired]
  | .retired => []

inductive CollectionState where
  | draft
  | reviewed
  | loaded
  | superseded
  deriving DecidableEq, Repr

def CollectionState.value : CollectionState → String
  | .draft => "draft"
  | .reviewed => "reviewed"
  | .loaded => "loaded"
  | .superseded => "superseded"

def collectionTransitions : CollectionState → List CollectionState
  | .draft => [.reviewed, .superseded]
  | .reviewed => [.loaded, .draft, .superseded]
  | .loaded => [.superseded]
  | .superseded => []

def lifecycleMachine : StateMachine where
  State := LifecycleState
  decidableEq := inferInstance
  value := LifecycleState.value
  value_injective := by
    intro state other hvalue
    cases state <;> cases other <;> simp_all [LifecycleState.value]
  transitions := allowedTransitions
  terminal := .retired
  transitions_terminal := rfl
  terminal_mem := by
    intro state hstate
    cases state <;> simp_all [allowedTransitions]

def collectionMachine : StateMachine where
  State := CollectionState
  decidableEq := inferInstance
  value := CollectionState.value
  value_injective := by
    intro state other hvalue
    cases state <;> cases other <;> simp_all [CollectionState.value]
  transitions := collectionTransitions
  terminal := .superseded
  transitions_terminal := rfl
  terminal_mem := by
    intro state hstate
    cases state <;> simp_all [collectionTransitions]

inductive Family where
  | target
  | analyst
  | source
  | actionPack
  | collection
  deriving DecidableEq, Repr

def Family.value : Family → String
  | .target => "target"
  | .analyst => "analyst"
  | .source => "source"
  | .actionPack => "action_pack"
  | .collection => "collection"

def stateMachineFor : Family → StateMachine
  | .collection => collectionMachine
  | .target | .analyst | .source | .actionPack => lifecycleMachine

abbrev Family.State (family : Family) : Type :=
  (stateMachineFor family).State

/-- The state `retire` moves a head to. -/
def terminalStateFor (family : Family) : family.State :=
  (stateMachineFor family).terminal

end Legba.Descriptors
