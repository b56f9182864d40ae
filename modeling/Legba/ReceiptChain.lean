import Legba.ReceiptTable

/-!
# The in-process receipt chain under concurrent calls

Any number of coroutines call `record` (of which `append_run` is a wrapper)
and `head` on one `RuntimeReceiptChain`.  A coroutine is suspended at the
per-analyst lock and at every statement; a step of the system runs one
coroutine up to its next suspension.  An INSERT writes its row before the
coroutine resumes to move the cached head.  A statement which raises leaves the
locked section.
-/

namespace Legba.Receipts

open Function

inductive ChainCall where
  | record (run : RunTrace)
  | head (analystId : String)

def ChainCall.analystId : ChainCall → String
  | .record run => run.analystId
  | .head analystId => analystId

inductive Phase where
  | waiting
  | selectingTip
  | tipRead (tip : Option String)
  | selectingLatest
  | latestRead (latest : Option String)
  | counting
  | countRead (count : ℕ)
  | inserting (run : RunTrace) (prev receipt : String)
  /-- the row is written, the head is not moved yet -/
  | inserted (run : RunTrace) (prev receipt : String)

def Phase.isInserted : Phase → Bool
  | .inserted .. => true
  | _ => false

structure Coroutine where
  call : ChainCall
  lock : ℕ
  phase : Phase

def Coroutine.analystId (c : Coroutine) : String := c.call.analystId

structure System (Task : Type*) where
  rows : List TraceRow
  heads : String → Option String
  counts : String → Option ℕ
  lockOf : String → Option ℕ
  nextLock : ℕ
  holder : ℕ → Option Task
  running : Task → Option Coroutine

inductive Label (Task : Type*) where
  | start (task : Task) (call : ChainCall)
  | advance (task : Task)
  /-- the statement the call is suspended at raises -/
  | fail (task : Task)

section

variable {Task : Type*} [DecidableEq Task]

def System.initial (rows : List TraceRow) : System Task where
  rows := rows
  heads := fun _ => none
  counts := fun _ => none
  lockOf := fun _ => none
  nextLock := 0
  holder := fun _ => none
  running := fun _ => none

namespace System

/-- `_lock`: the analyst's lock, made on first use. -/
def lock (s : System Task) (analystId : String) : ℕ × System Task :=
  match s.lockOf analystId with
  | some lock => (lock, s)
  | none =>
    (s.nextLock,
      { s with
        lockOf := update s.lockOf analystId (some s.nextLock)
        nextLock := s.nextLock + 1 })

def suspend (s : System Task) (task : Task) (c : Coroutine) (phase : Phase) : System Task :=
  { s with running := update s.running task (some { c with phase }) }

def setHead (s : System Task) (analystId head : String) : System Task :=
  { s with heads := update s.heads analystId (some head) }

def setCount (s : System Task) (analystId : String) (count : ℕ) : System Task :=
  { s with counts := update s.counts analystId (some count) }

def finish (s : System Task) (task : Task) (c : Coroutine) : System Task :=
  { s with
    holder := update s.holder c.lock none
    running := update s.running task none }

/-- `_head_locked` returned `head`. -/
def resume (sha : ReceiptPayload → String) (s : System Task) (task : Task)
    (c : Coroutine) (head : String) : System Task :=
  match c.call with
  | .head _ => s.finish task c
  | .record run => s.suspend task c (.inserting run head (computeReceiptHash sha run head))

def acquire (sha : ReceiptPayload → String) (s : System Task) (task : Task)
    (c : Coroutine) : Option (System Task) :=
  if (s.holder c.lock).isSome then none
  else
    let s := { s with holder := update s.holder c.lock (some task) }
    match s.heads c.analystId with
    | some head => some (s.resume sha task c head)
    | none => some (s.suspend task c .selectingTip)

/-- Primary key `run_id`. -/
def insert (s : System Task) (task : Task) (c : Coroutine) (run : RunTrace)
    (prev receipt : String) : Option (System Task) :=
  if run.runId ∈ s.rows.map TraceRow.runId then none
  else
    some ({ s with rows := s.rows ++ [traceRow run receipt prev] }.suspend task
      c (.inserted run prev receipt))

def advance (sha : ReceiptPayload → String) (s : System Task) (task : Task)
    (c : Coroutine) : Option (System Task) :=
  match c.phase with
  | .waiting => s.acquire sha task c
  | .selectingTip => some (s.suspend task c (.tipRead (newestTip s.rows c.analystId)))
  | .tipRead (some head) => some ((s.setHead c.analystId head).suspend task c .counting)
  | .tipRead none => some (s.suspend task c .selectingLatest)
  | .selectingLatest => some (s.suspend task c (.latestRead (newestRow s.rows c.analystId)))
  | .latestRead latest =>
    some ((s.setHead c.analystId (latest.getD zeroHash)).suspend task c .counting)
  | .counting => some (s.suspend task c (.countRead (own s.rows c.analystId).length))
  | .countRead count =>
    (s.heads c.analystId).map fun head => (s.setCount c.analystId count).resume sha task c head
  | .inserting run prev receipt => s.insert task c run prev receipt
  | .inserted _ _ receipt =>
    some (((s.setHead c.analystId receipt).setCount c.analystId
      ((s.counts c.analystId).getD 0 + 1)).finish task c)

def fail (s : System Task) (task : Task) (c : Coroutine) : Option (System Task) :=
  match c.phase with
  | .selectingTip | .selectingLatest | .counting | .inserting .. => some (s.finish task c)
  | _ => none

/-- The synchronous start of a call; `head` returns at once on a cached
head. -/
def start (s : System Task) (task : Task) (call : ChainCall) : Option (System Task) :=
  if (s.running task).isSome then none
  else
    let enter :=
      let locked := s.lock call.analystId
      some { locked.2 with
        running := update locked.2.running task
          (some { call, lock := locked.1, phase := .waiting }) }
    match call with
    | .head analystId =>
      if (s.heads analystId).isSome then some s else enter
    | .record _ => enter

end System

def step (sha : ReceiptPayload → String) (s : System Task) : Label Task → Option (System Task)
  | .start task call => s.start task call
  | .advance task => (s.running task).bind (s.advance sha task)
  | .fail task => (s.running task).bind (s.fail task)

end

end Legba.Receipts
