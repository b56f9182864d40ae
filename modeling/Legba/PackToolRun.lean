import Legba.PackGovernor

/-!
# One call of a pack tool

A call is resolved, checked, and admitted by the governor of its pack; then
its row is inserted into the invocation ledger, the decision is recorded as an
event, the handler runs under a timeout, and the row is settled.  What each of
these awaits comes to is given: it may return, or raise, or be cancelled.

The statements of one call are not in a transaction, so what was written stays
when a later one raises.
-/

namespace Legba.Agency

/-- What an await raises; `cancelled` stands for whatever is not an
`Exception`. -/
inductive Raised where
  | timeout
  | exception (text : String)
  | cancelled
deriving DecidableEq

inductive Await (α : Type) where
  | returns (value : α)
  | raises (raised : Raised)

inductive Statement where
  | done
  | fails (raised : Raised) (applied : Bool)
deriving DecidableEq

def Statement.applied : Statement → Bool
  | .done => true
  | .fails _ applied => applied

abbrev AgencyM := ExceptT Raised (StateM (Option Invocation))

def Await.run {α : Type} : Await α → AgencyM α
  | .returns value => pure value
  | .raises raised => throw raised

def Statement.run (statement : Statement)
    (write : Option Invocation → Option Invocation) : AgencyM Unit :=
  match statement with
  | .done => modify write
  | .fails raised applied => do
    if applied then modify write
    throw raised

/-! ## The call -/

structure PackResolution where
  granted : Bool
  allowed : Bool
  applicable : Bool
  reason : String

def PackResolution.effective (resolution : PackResolution) : Bool :=
  resolution.granted && resolution.allowed && resolution.applicable

structure GovernorDecision where
  admitted : Bool
  cause : String
  detail : String

structure ToolResult where
  status : String
  costUsd : ℚ
  units : ℤ
  error : Option String

structure AgencyOutcome where
  admitted : Bool
  packId : String
  toolName : String
  blockCause : Option String
  detail : String
  toolResult : Option ToolResult

structure PackCall where
  packId : String
  toolName : String
  packToolNames : List String
  hasHandler : Bool
  resolution : PackResolution
  estimatedCostUsd : ℚ
  estimatedUnits : ℤ
  occurredAt : Datetime
  timeoutSeconds : ℕ

/-- What the awaits of a call come to.  There is no `publish` where no
publisher is set up. -/
structure Behaviour where
  blockEvent : Statement
  precallCheck : Await GovernorDecision
  recordInvocation : Statement
  governorEvent : Statement
  publish : Option (Await Unit)
  handler : Await ToolResult
  settle : Statement

/-- `record_governor_event`; a failed publication is logged. -/
def recordGovernorEvent (write : Statement) (publish : Option (Await Unit)) : AgencyM Unit := do
  write.run id
  match publish with
  | none => pure ()
  | some publication =>
    tryCatch publication.run fun raised =>
      match raised with
      | .cancelled => throw .cancelled
      | _ => pure ()

def settledStatuses : List String :=
  ["enqueued", "emitted", "noop", "completed"]

def settle (statement : Statement) (outcome : InvocationOutcome)
    (costUsd : Option ℚ) (units : Option ℤ) : AgencyM Unit :=
  statement.run (Option.map (·.settle outcome costUsd units))

section

-- `repr` of a string
variable (repr : String → String)

def PackCall.block (call : PackCall) (behaviour : Behaviour)
    (cause detail : String) : AgencyM AgencyOutcome := do
  recordGovernorEvent behaviour.blockEvent behaviour.publish
  return ⟨false, call.packId, call.toolName, some cause, detail, none⟩

def PackCall.failed (call : PackCall) (behaviour : Behaviour)
    (detail error : String) : AgencyM AgencyOutcome := do
  settle behaviour.settle .failed none none
  return ⟨true, call.packId, call.toolName, none, detail, some ⟨"failed", 0, 1, some error⟩⟩

def PackCall.dispatch (call : PackCall) (behaviour : Behaviour) : AgencyM AgencyOutcome :=
  match behaviour.handler with
  | .raises .timeout =>
    call.failed behaviour
      ("handler exceeded " ++ toString call.timeoutSeconds ++ "s timeout")
      ("handler timeout after " ++ toString call.timeoutSeconds ++ "s")
  | .raises (.exception text) => call.failed behaviour ("handler raised: " ++ text) text
  | .raises .cancelled => throw .cancelled
  | .returns result => do
    settle behaviour.settle
      (if result.status ∈ settledStatuses then .completed else .failed)
      (if result.costUsd ≠ 0 then some result.costUsd else none)
      (if result.units ≠ 0 then some result.units else none)
    return ⟨true, call.packId, call.toolName, none, "", some result⟩

def PackCall.opened (call : PackCall) : Invocation :=
  ⟨call.occurredAt, call.estimatedCostUsd, call.estimatedUnits, .admitted⟩

def PackCall.enter (call : PackCall) (behaviour : Behaviour) : AgencyM AgencyOutcome := do
  behaviour.recordInvocation.run fun _ => some call.opened
  recordGovernorEvent behaviour.governorEvent behaviour.publish
  call.dispatch behaviour

def runPackTool (call : PackCall) (behaviour : Behaviour) : AgencyM AgencyOutcome :=
  if call.resolution.effective = false then
    call.block behaviour
      (if call.resolution.granted = false then "not_granted"
        else if call.resolution.allowed = false then "not_allowed"
        else "not_applicable")
      call.resolution.reason
  else if call.toolName ∉ call.packToolNames then
    call.block behaviour "unknown_tool"
      ("tool " ++ repr call.toolName ++ " not granted by pack " ++ repr call.packId)
  else if call.hasHandler = false then
    call.block behaviour "unknown_tool" ("no registered handler for tool " ++ repr call.toolName)
  else do
    let decision ← behaviour.precallCheck.run
    if decision.admitted = false then
      call.block behaviour decision.cause decision.detail
    else call.enter behaviour

end

def rowAfter (repr : String → String) (call : PackCall)
    (behaviour : Behaviour) : Option Invocation :=
  ((runPackTool repr call behaviour).run.run none).2

/-- The row is settled, and completed exactly when the handler returned a
result of a status which says so. -/
def LeavesNoOpenRow (repr : String → String) (call : PackCall) (behaviour : Behaviour) : Prop :=
  ∀ row ∈ rowAfter repr call behaviour,
    (row.outcome = .completed ∨ row.outcome = .failed) ∧
      (row.outcome = .completed ↔
        ∃ result, behaviour.handler = .returns result ∧ result.status ∈ settledStatuses)

def Admitted (call : PackCall) (behaviour : Behaviour) : Prop :=
  call.resolution.effective = true ∧ call.toolName ∈ call.packToolNames ∧
    call.hasHandler = true ∧
    ∃ decision, behaviour.precallCheck = .returns decision ∧ decision.admitted = true

/-- Nothing raises between the insert and the dispatch, the dispatch is not
cancelled, and the row is settled. -/
structure ReachesSettle (behaviour : Behaviour) : Prop where
  inserted : behaviour.recordInvocation = .done
  recorded : behaviour.governorEvent = .done
  published : behaviour.publish ≠ some (.raises .cancelled)
  dispatched : behaviour.handler ≠ .raises .cancelled
  settled : behaviour.settle.applied = true

/-! ## What is left -/

theorem bind_after {α β : Type} (first : AgencyM α) (next : α → AgencyM β)
    (row : Option Invocation) :
    (first >>= next).run.run row =
      match first.run.run row with
      | (.ok value, after) => (next value).run.run after
      | (.error raised, after) => (.error raised, after) := by
  simp only [ExceptT.run_bind, StateT.run_bind]
  rcases first.run.run row with ⟨result, after⟩
  cases result <;> rfl

theorem Statement.run_after (statement : Statement)
    (write : Option Invocation → Option Invocation) (row : Option Invocation) :
    (statement.run write).run.run row =
      match statement with
      | .done => (.ok (), write row)
      | .fails raised applied =>
        (.error raised, if applied then write row else row) := by
  cases statement with
  | done => rfl
  | fails raised applied => cases applied <;> rfl

theorem settle_after (statement : Statement) (outcome : InvocationOutcome)
    (costUsd : Option ℚ) (units : Option ℤ) (row : Invocation) :
    ((settle statement outcome costUsd units).run.run (some row)).2 =
      if statement.applied then some (row.settle outcome costUsd units)
      else some row := by
  cases statement with
  | done => rfl
  | fails raised applied => cases applied <;> rfl

theorem bind_pure_after {α β : Type} (first : AgencyM α) (value : β) (row : Option Invocation) :
    ((first >>= fun _ => pure value).run.run row).2 =
      (first.run.run row).2 := by
  rw [bind_after]
  rcases first.run.run row with ⟨result, after⟩
  cases result <;> rfl

variable {publish : Option (Await Unit)} {repr : String → String}
  {call : PackCall} {behaviour : Behaviour}

theorem recordGovernorEvent_of_recorded {write : Statement} (hwrite : write = .done)
    (hpublish : publish ≠ some (.raises .cancelled)) (row : Option Invocation) :
    (recordGovernorEvent write publish).run.run row = (.ok (), row) := by
  subst hwrite
  cases publish with
  | none => rfl
  | some publication =>
    cases publication with
    | returns value => rfl
    | raises raised =>
      cases raised with
      | timeout => rfl
      | exception text => rfl
      | cancelled => exact absurd rfl hpublish

theorem recordGovernorEvent_of_not_recorded {write : Statement}
    (hnot : ¬(write = .done ∧ publish ≠ some (.raises .cancelled))) (row : Option Invocation) :
    ∃ raised, (recordGovernorEvent write publish).run.run row = (.error raised, row) := by
  cases write with
  | fails raised applied =>
    refine ⟨raised, ?_⟩
    cases applied <;> rfl
  | done =>
    have hpublish : publish = some (.raises .cancelled) := by
      by_contra hother
      exact hnot ⟨rfl, hother⟩
    subst hpublish
    exact ⟨.cancelled, rfl⟩

theorem recordGovernorEvent_after (write : Statement) (publish : Option (Await Unit))
    (row : Option Invocation) : ((recordGovernorEvent write publish).run.run row).2 = row := by
  by_cases hrecorded : write = .done ∧ publish ≠ some (.raises .cancelled)
  · rw [recordGovernorEvent_of_recorded hrecorded.1 hrecorded.2]
  · obtain ⟨raised, hrun⟩ := recordGovernorEvent_of_not_recorded hrecorded row
    rw [hrun]

theorem block_after (call : PackCall) (behaviour : Behaviour) (cause detail : String)
    (row : Option Invocation) : ((call.block behaviour cause detail).run.run row).2 = row := by
  unfold PackCall.block
  rw [bind_pure_after]
  exact recordGovernorEvent_after _ _ row

theorem rowAfter_of_not_admitted (hblocked : ¬Admitted call behaviour) :
    rowAfter repr call behaviour = none := by
  unfold rowAfter runPackTool
  by_cases heffective : call.resolution.effective = false
  · rw [if_pos heffective]
    exact block_after call behaviour _ _ none
  rw [if_neg heffective]
  by_cases hknown : call.toolName ∉ call.packToolNames
  · rw [if_pos hknown]
    exact block_after call behaviour _ _ none
  rw [if_neg hknown]
  by_cases hhandler : call.hasHandler = false
  · rw [if_pos hhandler]
    exact block_after call behaviour _ _ none
  rw [if_neg hhandler]
  cases hcheck : behaviour.precallCheck with
  | raises raised => rfl
  | returns decision =>
    by_cases hadmitted : decision.admitted = false
    · have hblock := block_after call behaviour decision.cause decision.detail none
      simpa [Await.run, hadmitted] using hblock
    · exact absurd ⟨by simpa using heffective, not_not.mp hknown, by simpa using
        hhandler, decision, hcheck, by simpa using hadmitted⟩ hblocked

theorem rowAfter_of_admitted (hadmitted : Admitted call behaviour) :
    rowAfter repr call behaviour = ((call.enter behaviour).run.run none).2 := by
  obtain ⟨heffective, hknown, hhandler, decision, hcheck, hdecision⟩ := hadmitted
  unfold rowAfter runPackTool
  simp [heffective, hknown, hhandler, hcheck, Await.run, hdecision]

def Behaviour.outcome (behaviour : Behaviour) : InvocationOutcome :=
  match behaviour.handler with
  | .returns result =>
    if result.status ∈ settledStatuses then .completed else .failed
  | .raises _ => .failed

theorem dispatch_after (call : PackCall) (behaviour : Behaviour)
    (row : Invocation) (hdispatched : behaviour.handler ≠ .raises .cancelled) :
    ∃ costUsd units,
      ((call.dispatch behaviour).run.run (some row)).2 =
        if behaviour.settle.applied then
          some (row.settle behaviour.outcome costUsd units)
        else some row := by
  unfold PackCall.dispatch Behaviour.outcome
  cases hhandler : behaviour.handler with
  | returns result =>
    refine ⟨if result.costUsd ≠ 0 then some result.costUsd else none,
      if result.units ≠ 0 then some result.units else none, ?_⟩
    rw [bind_pure_after]
    exact settle_after behaviour.settle _ _ _ row
  | raises raised =>
    refine ⟨none, none, ?_⟩
    cases raised with
    | timeout =>
      simp only [PackCall.failed]
      rw [bind_pure_after]
      exact settle_after behaviour.settle .failed none none row
    | exception text =>
      simp only [PackCall.failed]
      rw [bind_pure_after]
      exact settle_after behaviour.settle .failed none none row
    | cancelled => exact absurd hhandler hdispatched

theorem enter_of_not_inserted (hinserted : behaviour.recordInvocation.applied = false) :
    ((call.enter behaviour).run.run none).2 = none := by
  unfold PackCall.enter
  cases hrecord : behaviour.recordInvocation with
  | done =>
    rw [hrecord] at hinserted
    cases hinserted
  | fails raised applied =>
    rw [hrecord] at hinserted
    cases hinserted
    rfl

theorem enter_of_reachesSettle (call : PackCall) (hreaches : ReachesSettle behaviour) :
    ∃ costUsd units, ((call.enter behaviour).run.run none).2 =
      some (call.opened.settle behaviour.outcome costUsd units) := by
  obtain ⟨costUsd, units, hdispatch⟩ :=
    dispatch_after call behaviour call.opened hreaches.dispatched
  refine ⟨costUsd, units, ?_⟩
  unfold PackCall.enter
  rw [bind_after, Statement.run_after, hreaches.inserted]
  simp only
  rw [bind_after, recordGovernorEvent_of_recorded hreaches.recorded hreaches.published]
  rw [if_pos hreaches.settled] at hdispatch
  exact hdispatch

theorem enter_of_not_reachesSettle (hinserted : behaviour.recordInvocation.applied)
    (hnot : ¬ReachesSettle behaviour) :
    ((call.enter behaviour).run.run none).2 = some call.opened := by
  unfold PackCall.enter
  rw [bind_after, Statement.run_after]
  cases hrecord : behaviour.recordInvocation with
  | fails raised applied =>
    rw [hrecord] at hinserted
    simp only [Statement.applied] at hinserted
    simp only [hinserted, if_true]
  | done =>
    simp only
    rw [bind_after]
    by_cases hevent : behaviour.governorEvent = .done ∧
        behaviour.publish ≠ some (.raises .cancelled)
    · rw [recordGovernorEvent_of_recorded hevent.1 hevent.2]
      by_cases hhandler : behaviour.handler = .raises .cancelled
      · unfold PackCall.dispatch
        rw [hhandler]
        rfl
      · obtain ⟨costUsd, units, hdispatch⟩ := dispatch_after call behaviour call.opened hhandler
        rw [hdispatch]
        by_cases hsettled : behaviour.settle.applied = true
        · exact absurd ⟨hrecord, hevent.1, hevent.2, hhandler, hsettled⟩ hnot
        · rw [if_neg hsettled]
    · obtain ⟨raised, hrun⟩ := recordGovernorEvent_of_not_recorded hevent (some call.opened)
      rw [hrun]

/-- A call leaves its row settled, with the outcome of the handler, exactly
when after an insert the governor event is written, nothing is cancelled and
the settlement is applied. -/
theorem runPackTool_settles_iff (repr : String → String) (call : PackCall) (behaviour : Behaviour) :
    LeavesNoOpenRow repr call behaviour ↔
      (Admitted call behaviour → behaviour.recordInvocation.applied = true →
        ReachesSettle behaviour) := by
  unfold LeavesNoOpenRow
  by_cases hadmitted : Admitted call behaviour
  · rw [rowAfter_of_admitted hadmitted]
    cases hinserted : behaviour.recordInvocation.applied with
    | false =>
      rw [enter_of_not_inserted hinserted]
      simp
    | true =>
      by_cases hreaches : ReachesSettle behaviour
      · obtain ⟨costUsd, units, hrow⟩ := enter_of_reachesSettle call hreaches
        have houtcome : (call.opened.settle behaviour.outcome costUsd
            units).outcome = behaviour.outcome := rfl
        simp only [hrow, Option.mem_def, Option.some.injEq, forall_eq',
          houtcome, hreaches, implies_true, iff_true]
        unfold Behaviour.outcome
        cases hhandler : behaviour.handler with
        | returns result =>
          by_cases hstatus : result.status ∈ settledStatuses
          · simp [hstatus]
          · simp [hstatus]
        | raises raised => simp
      · rw [enter_of_not_reachesSettle hinserted hreaches]
        simp [PackCall.opened, hadmitted, hreaches]
  · rw [rowAfter_of_not_admitted hadmitted]
    simp [hadmitted]

def searchCall : PackCall where
  packId := "search"
  toolName := "web_search"
  packToolNames := ["web_search"]
  hasHandler := true
  resolution := ⟨true, true, true, "ok"⟩
  estimatedCostUsd := 0
  estimatedUnits := 1
  occurredAt := 0
  timeoutSeconds := 120

def eventLost : Behaviour where
  blockEvent := .done
  precallCheck := .returns ⟨true, "ok", ""⟩
  recordInvocation := .done
  governorEvent := .fails (.exception "deadlock detected") false
  publish := none
  handler := .returns ⟨"completed", 0, 1, none⟩
  settle := .done

theorem governor_event_leaves_open_row :
    ¬∀ (repr : String → String) (call : PackCall) (behaviour : Behaviour),
      behaviour.recordInvocation = .done → behaviour.settle = .done →
        LeavesNoOpenRow repr call behaviour := by
  intro hsettled
  have hrow : rowAfter id searchCall eventLost = some searchCall.opened := rfl
  have hclosed := (hsettled id searchCall eventLost rfl rfl _ hrow).1
  rcases hclosed with hcompleted | hfailed
  · cases hcompleted
  · cases hfailed

end Legba.Agency
