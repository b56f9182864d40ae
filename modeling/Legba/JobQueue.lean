import Mathlib.Algebra.Ring.Nat
import Legba.JobLedger
import Legba.LabelledRun

/-!
# The job work queue

The work-queue stream with its one shared explicit-ack consumer, as far as the
job plane relies on it: a message is delivered while it is ready and has been
delivered fewer than `max_deliver` times, a delivery which is not settled in
time becomes ready again, and an `ack` or `term` removes the message.  Removed
messages stay in the list so that a message keeps its index.
-/

namespace Legba.Jobs

open List

inductive MessageStatus where
  | ready
  | inFlight
  | settled
  deriving DecidableEq, Repr

/-- `body` is what `JobEnvelope.from_bytes` makes of the data. -/
structure Message where
  body : Option JobEnvelope
  numDelivered : ℕ := 0
  status : MessageStatus := .ready
  deriving DecidableEq, Repr

def Message.key (message : Message) : Option String :=
  message.body.map JobEnvelope.idempotencyKey

def Message.Deliverable (maxDeliver : ℕ) (message : Message) : Prop :=
  message.status ≠ .settled ∧ message.numDelivered < maxDeliver

instance (maxDeliver : ℕ) (message : Message) : Decidable (message.Deliverable maxDeliver) :=
  inferInstanceAs (Decidable (_ ∧ _))

def Message.delivered (message : Message) : Message :=
  { message with
    numDelivered := message.numDelivered + 1
    status := .inFlight }

def Message.requeued (message : Message) : Message :=
  if message.status = .inFlight then { message with status := .ready }
  else message

def Message.settled (message : Message) : Message :=
  { message with status := .settled }

section

variable (message : Message)

include message

@[simp] theorem Message.key_delivered : message.delivered.key = message.key := rfl

theorem Message.numDelivered_delivered :
    message.delivered.numDelivered = message.numDelivered + 1 := rfl

@[simp] theorem Message.key_settled : message.settled.key = message.key := rfl

@[simp] theorem Message.key_requeued : message.requeued.key = message.key := by
  unfold Message.requeued
  split <;> rfl

@[simp] theorem Message.numDelivered_requeued :
    message.requeued.numDelivered = message.numDelivered := by
  unfold Message.requeued
  split <;> rfl

end

theorem Message.requeued_ne_settled {message : Message} :
    message.requeued.status ≠ .settled ↔ message.status ≠ .settled := by
  unfold Message.requeued
  split
  · rename_i hinFlight
    simp [hinFlight]
  · rfl

structure Delivery where
  message : ℕ
  body : Option JobEnvelope
  numDelivered : ℕ
  deriving DecidableEq, Repr

def Delivery.key (delivery : Delivery) : Option String :=
  delivery.body.map JobEnvelope.idempotencyKey

inductive Settlement where
  | ack
  | nak
  | term
  deriving DecidableEq, Repr

def Settlement.change : Settlement → Message → Message
  | .ack | .term => Message.settled
  | .nak => Message.requeued

@[simp] theorem Settlement.key_change (settlement : Settlement)
    (message : Message) : (settlement.change message).key = message.key := by
  cases settlement <;> simp [Settlement.change]

@[simp] theorem Settlement.numDelivered_change (settlement : Settlement) (message : Message) :
    (settlement.change message).numDelivered = message.numDelivered := by
  cases settlement <;> simp [Settlement.change, Message.settled]

namespace JobQueue

open LabelledRun

def enqueue (messages : List Message) (body : Option JobEnvelope) : List Message :=
  messages ++ [{ body := body }]

def deliver (maxDeliver : ℕ) (messages : List Message) (index : ℕ) :
    Option (List Message × Delivery) :=
  match messages[index]? with
  | some message =>
    if message.status = .ready ∧ message.numDelivered < maxDeliver then
      some (messages.modify index Message.delivered,
        { message := index
          body := message.body
          numDelivered := message.numDelivered + 1 })
    else none
  | none => none

/-- A nak, or the expiry of `ack_wait`. -/
def requeue (messages : List Message) (index : ℕ) : List Message :=
  messages.modify index Message.requeued

def remove (messages : List Message) (index : ℕ) : List Message :=
  messages.modify index Message.settled

def settle (messages : List Message) (index : ℕ) : Settlement → List Message
  | .ack | .term => remove messages index
  | .nak => requeue messages index

theorem settle_eq_modify (messages : List Message) (index : ℕ) (settlement : Settlement) :
    settle messages index settlement = messages.modify index settlement.change := by
  cases settlement <;> rfl

variable {maxDeliver index : ℕ} {messages : List Message}
  {change : Message → Message} {key : String}

theorem deliver_eq_some {after : List Message} {delivery : Delivery}
    (hdeliver : deliver maxDeliver messages index = some (after, delivery)) :
    ∃ message, messages[index]? = some message ∧
      message.Deliverable maxDeliver ∧
      after = messages.modify index Message.delivered ∧
      delivery.key = message.key := by
  unfold deliver at hdeliver
  cases hmessage : messages[index]? with
  | none => simp [hmessage] at hdeliver
  | some message =>
    simp only [hmessage] at hdeliver
    split at hdeliver
    · rename_i hready
      obtain ⟨rfl, rfl⟩ := Prod.mk.inj (Option.some.inj hdeliver)
      refine ⟨message, rfl, ⟨?_, hready.2⟩, rfl, rfl⟩
      rw [hready.1]
      decide
    · contradiction

def published (messages : List Message) (key : String) : ℕ :=
  (messages.map fun message => if message.key = some key then 1 else 0).sum

def totalDelivered (messages : List Message) (key : String) : ℕ :=
  (messages.map fun message =>
    if message.key = some key then message.numDelivered else 0).sum

theorem totalDelivered_le (hbudget : ∀ message ∈ messages, message.numDelivered ≤ maxDeliver)
    (key : String) : totalDelivered messages key ≤ maxDeliver * published messages key := by
  unfold totalDelivered published
  induction messages with
  | nil => simp
  | cons message rest ih =>
    have hhead := hbudget message (by simp)
    have htail := ih fun other hother => hbudget other (mem_cons_of_mem _ hother)
    simp only [map_cons, sum_cons, Nat.mul_add]
    by_cases hkey : message.key = some key
    · simp only [if_pos hkey]
      omega
    · simp only [if_neg hkey]
      omega

theorem totalDelivered_modify {message : Message} (hmessage : messages[index]? = some message)
    (hkey : (change message).key = message.key) (key : String) :
    totalDelivered (messages.modify index change) key +
        (if message.key = some key then message.numDelivered else 0) =
      totalDelivered messages key +
        (if message.key = some key then (change message).numDelivered
          else 0) := by
  have hsum := sum_map_modify hmessage (fun message => if message.key = some key
    then message.numDelivered else 0) change
  simpa [totalDelivered, hkey] using hsum

theorem totalDelivered_modify_of_same (hkey : ∀ message, (change message).key = message.key)
    (hcount : ∀ message, (change message).numDelivered = message.numDelivered) (key : String) :
    totalDelivered (messages.modify index change) key = totalDelivered messages key := by
  cases hmessage : messages[index]? with
  | none =>
    have hlength := getElem?_eq_none_iff.mp hmessage
    rw [modify_eq_self hlength]
  | some message =>
    have hsum := totalDelivered_modify hmessage (hkey message) key
    rw [hcount message] at hsum
    omega

theorem totalDelivered_enqueue (messages : List Message) (body : Option JobEnvelope)
    (key : String) : totalDelivered (enqueue messages body) key = totalDelivered messages key := by
  simp [totalDelivered, enqueue]

theorem budget_modify (hbudget : ∀ message ∈ messages, message.numDelivered ≤ maxDeliver)
    (hchange : ∀ message, messages[index]? = some message → (change message).numDelivered ≤
      maxDeliver) :
    ∀ message ∈ messages.modify index change, message.numDelivered ≤ maxDeliver := by
  intro after hafter
  obtain ⟨other, hother⟩ := mem_iff_getElem?.mp hafter
  by_cases hindex : other = index
  · subst hindex
    rw [getElem?_modify_eq] at hother
    obtain ⟨message, hmessage, rfl⟩ := Option.map_eq_some_iff.mp hother
    exact hchange message hmessage
  · rw [getElem?_modify_ne _ _ (Ne.symm hindex)] at hother
    exact hbudget after (mem_of_getElem? hother)

def HasDeliverable (maxDeliver : ℕ) (messages : List Message) (key : String) : Prop :=
  ∃ message ∈ messages, message.key = some key ∧ message.Deliverable maxDeliver

instance (maxDeliver : ℕ) (messages : List Message) (key : String) :
    Decidable (HasDeliverable maxDeliver messages key) :=
  inferInstanceAs (Decidable (∃ message ∈ messages, _ ∧ _))

def OtherDeliverable (maxDeliver : ℕ) (messages : List Message) (index : ℕ) (key : String) : Prop :=
  ∃ other message, other ≠ index ∧ messages[other]? = some message ∧
    message.key = some key ∧ message.Deliverable maxDeliver

theorem HasDeliverable.enqueue (h : HasDeliverable maxDeliver messages key)
    (body : Option JobEnvelope) : HasDeliverable maxDeliver (enqueue messages body) key := by
  obtain ⟨message, hmessage, hdeliverable⟩ := h
  exact ⟨message, mem_append_left _ hmessage, hdeliverable⟩

theorem hasDeliverable_modify_iff (hkey : ∀ message, (change message).key = message.key) :
    HasDeliverable maxDeliver (messages.modify index change) key ↔
      OtherDeliverable maxDeliver messages index key ∨
        ∃ message, messages[index]? = some message ∧
          message.key = some key ∧
          (change message).Deliverable maxDeliver := by
  constructor
  · rintro ⟨after, hafter, hafterKey, hdeliverable⟩
    obtain ⟨other, hother⟩ := mem_iff_getElem?.mp hafter
    by_cases hindex : other = index
    · subst hindex
      rw [getElem?_modify_eq] at hother
      obtain ⟨message, hmessage, rfl⟩ := Option.map_eq_some_iff.mp hother
      rw [hkey] at hafterKey
      exact .inr ⟨message, hmessage, hafterKey, hdeliverable⟩
    · rw [getElem?_modify_ne _ _ (Ne.symm hindex)] at hother
      exact .inl ⟨other, after, hindex, hother, hafterKey, hdeliverable⟩
  · rintro (⟨other, message, hindex, hmessage, hmessageKey, hdeliverable⟩ |
      ⟨message, hmessage, hmessageKey, hdeliverable⟩)
    · refine ⟨message, mem_iff_getElem?.mpr ⟨other, ?_⟩, hmessageKey, hdeliverable⟩
      rw [getElem?_modify_ne _ _ (Ne.symm hindex), hmessage]
    · refine ⟨change message, mem_iff_getElem?.mpr ⟨index, ?_⟩, ?_, hdeliverable⟩
      · rw [getElem?_modify_eq, hmessage]
        rfl
      · rw [hkey, hmessageKey]

theorem hasDeliverable_iff (index : ℕ) :
    HasDeliverable maxDeliver messages key ↔
      OtherDeliverable maxDeliver messages index key ∨
        ∃ message, messages[index]? = some message ∧
          message.key = some key ∧ message.Deliverable maxDeliver := by
  have hsame : messages.modify index id = messages := by simp
  have hmodify : HasDeliverable maxDeliver (messages.modify index id) key ↔ _ :=
    hasDeliverable_modify_iff fun _ => rfl
  rwa [hsame] at hmodify

theorem hasDeliverable_requeue_iff :
    HasDeliverable maxDeliver (requeue messages index) key ↔
      HasDeliverable maxDeliver messages key := by
  have hdeliverable : ∀ message : Message,
      message.requeued.Deliverable maxDeliver ↔ message.Deliverable maxDeliver := by
    intro message
    unfold Message.Deliverable
    rw [Message.requeued_ne_settled, Message.numDelivered_requeued]
  unfold requeue
  rw [hasDeliverable_modify_iff Message.key_requeued, hasDeliverable_iff index]
  simp only [hdeliverable]

end JobQueue
end Legba.Jobs
