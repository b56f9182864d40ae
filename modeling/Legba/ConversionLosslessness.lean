import Legba.SchemaConversion

/-!
# What a conversion keeps

The diff of a step compares the dictionary the callable was handed, as it reads
after the call, with the one it returned, and the dead letter takes the
caller's body as it reads when the step fails.  Both are what they were before
the call only if the callables leave them alone.

The chain found consists of distinct active webhooks, so an archive row of a
conversion belongs to one step.
-/

namespace Legba.Conversion

open BreadthFirst JsonValue KeyedTable ObjectHeap List

def chain (webhooks : WebhookTable) (ids : List Uuid) : List (Uuid × WebhookRow) :=
  ids.filterMap fun id => (webhooks.row? id).map (id, ·)

variable {webhooks : WebhookTable} {family : String}
  {steps : List (String × Uuid)} {request : ConversionRequest} {ids : List Uuid}
  {found : List (Uuid × WebhookRow)} {heap : Heap} {current : Value}
  {uriChain : List String} {tables : Tables} {items : List (String × Value)}
  {modules : Modules}

theorem mem_orderedWebhooks {id : Uuid} {row : WebhookRow}
    (hrow : (id, row) ∈ orderedWebhooks webhooks family) :
    webhooks.row? id = some row ∧ row.isActive = true := by
  unfold orderedWebhooks listWebhooks at hrow
  rw [mem_insertionSort, mem_insertionSort, Table.mem_select] at hrow
  exact ⟨hrow.1, (Bool.and_eq_true_iff.mp hrow.2).2⟩

theorem mem_adjacency {uri next : String} {id : Uuid}
    (hedge : (next, id) ∈ adjacency (orderedWebhooks webhooks family) uri) :
    ∃ row, webhooks.row? id = some row ∧ row.isActive = true ∧
      row.fromUri = uri ∧ row.toUri = next := by
  obtain ⟨⟨other, row⟩, hmem, hpair⟩ := mem_filterMap.mp hedge
  split at hpair
  · rename_i hfrom
    simp only [Option.some.injEq, Prod.mk.injEq] at hpair
    obtain ⟨hto, rfl⟩ := hpair
    have hactive := mem_orderedWebhooks hmem
    exact ⟨row, hactive.1, hactive.2, hfrom, hto⟩
  · simp at hpair

theorem webhooksInPath_of_walk (request : ConversionRequest) {start target : String}
    (hwalk : Walk (adjacency (orderedWebhooks webhooks family)) start steps target)
    (rest : List Uuid) (found : List (Uuid × WebhookRow)) (uriChain : List String) :
    webhooksInPath webhooks request (steps.map Prod.snd ++ rest) found uriChain start =
      webhooksInPath webhooks request rest
        (found ++ chain webhooks (steps.map Prod.snd))
        (uriChain ++ steps.map Prod.fst) target := by
  induction hwalk generalizing rest found uriChain with
  | stay => simp [chain]
  | @extend node next id steps walk edge ih =>
    obtain ⟨row, hrow, hactive, hfrom, hto⟩ := mem_adjacency edge
    rw [map_append, map_singleton, append_assoc, ih, singleton_append]
    simp only [webhooksInPath, hrow]
    rw [if_neg (by simp [hactive]), if_neg (by simp [hfrom]), hto]
    simp [chain, hrow, filterMap_append]

theorem targets_of_walk {start target : String}
    (hwalk : Walk (adjacency (orderedWebhooks webhooks family)) start steps target) :
    (steps.map Prod.snd).map (fun id => ((webhooks.row? id).map WebhookRow.toUri).getD "") =
      steps.map Prod.fst := by
  induction hwalk with
  | stay => rfl
  | extend walk edge ih =>
    obtain ⟨row, hrow, _, _, hto⟩ := mem_adjacency edge
    rw [map_append, map_append, ih]
    simp [hrow, hto]

theorem webhooksInPath_of_findPath
    (hpath : findPath webhooks request.family request.fromUri request.toUri = some ids) :
    (∃ uriChain, webhooksInPath webhooks request ids [] [request.fromUri]
      request.fromUri = .rows (chain webhooks ids) uriChain) ∧ ids.Nodup := by
  unfold findPath at hpath
  split at hpath
  · simp at hpath
  · split at hpath
    · rw [Option.some.injEq] at hpath
      subst hpath
      exact ⟨⟨_, rfl⟩, nodup_nil⟩
    · obtain ⟨steps, hwalk, rfl, hnodup⟩ := exists_walk_of_path hpath
      refine ⟨⟨[request.fromUri] ++ steps.map Prod.fst, ?_⟩, ?_⟩
      · have hrows := webhooksInPath_of_walk request hwalk [] [] [request.fromUri]
        rw [append_nil, nil_append] at hrows
        exact hrows
      · rw [← targets_of_walk hwalk] at hnodup
        exact hnodup.of_map _

theorem nodup_chain (hids : ids.Nodup) : ((chain webhooks ids).map Prod.fst).Nodup := by
  have hsublist : ((chain webhooks ids).map Prod.fst).Sublist ids := by
    unfold chain
    induction ids with
    | nil => exact nil_sublist _
    | cons id rest ih =>
      have hrest := ih (nodup_cons.mp hids).2
      rw [filterMap_cons]
      cases hrow : webhooks.row? id with
      | none => exact hrest.cons id
      | some row => exact hrest.cons_cons id
  exact hids.sublist hsublist

/-! ## The calls of a chain -/

structure StepCall where
  webhook : Uuid × WebhookRow
  before : Heap
  input : Value
  after : Heap
  output : Value

/-- `stopped` is the heap at the step which failed, if one did. -/
structure Calls where
  completed : List StepCall
  stopped : Option Heap

def stepCalls (modules : Modules) : List (Uuid × WebhookRow) → Heap → Value → Calls
  | [], _, _ => ⟨[], none⟩
  | webhook :: rest, heap, current =>
    match resolveImpl modules webhook.2.impl with
    | none => ⟨[], some heap⟩
    | some impl =>
      match impl heap current with
      | (after, .raised) => ⟨[], some after⟩
      | (after, .returned result) =>
        match after.dict? result with
        | none => ⟨[], some after⟩
        | some _ =>
          let later := stepCalls modules rest after result
          ⟨⟨webhook, heap, current, after, result⟩ :: later.completed,
            later.stopped⟩

def conversionCalls (modules : Modules) (request : ConversionRequest)
    (found : List (Uuid × WebhookRow)) (heap : Heap) : Calls :=
  stepCalls modules found (copyBody request heap) (.object heap.length)

def StepCall.inputBefore (call : StepCall) : List (String × Value) :=
  (call.before.dict? call.input).getD []

def StepCall.inputAfter (call : StepCall) : List (String × Value) :=
  (call.after.dict? call.input).getD []

def StepCall.outputItems (call : StepCall) : List (String × Value) :=
  (call.after.dict? call.output).getD []

def StepCall.dropped (call : StepCall) : List (String × Value) :=
  droppedFields call.inputAfter call.outputItems

def StepCall.Archivable (call : StepCall) : Prop :=
  ∀ item ∈ call.dropped, (call.after.dumps item.2).isSome

/-- A key of the input which the output lacks is still in the dictionary the
callable was handed, with the value it had. -/
def StepCall.KeepsDropped (call : StepCall) : Prop :=
  ∀ key value, call.inputBefore.lookup key = some value →
    call.outputItems.lookup key = none →
      ∃ left, call.inputAfter.lookup key = some left ∧
        call.after.dumps left = call.before.dumps value

def StepCall.archive (request : ConversionRequest) (call : StepCall) : Option ArchiveRow :=
  if call.dropped.isEmpty then none
  else (call.after.dumpItems call.dropped).map (request.archiveRow call.webhook.1 call.webhook.2)

variable {call : StepCall}

theorem StepCall.isSome_dumpItems (harchivable : call.Archivable) :
    ∃ fields, call.after.dumpItems call.dropped = some fields :=
  Option.isSome_iff_exists.mp (Heap.isSome_dumpItems_iff.mpr harchivable)

theorem stepCalls_webhooks_sublist (modules : Modules)
    (found : List (Uuid × WebhookRow)) (heap : Heap) (current : Value) :
    ((stepCalls modules found heap current).completed.map
      StepCall.webhook).Sublist found := by
  induction found generalizing heap current with
  | nil => exact nil_sublist _
  | cons webhook rest ih =>
    unfold stepCalls
    split
    · exact nil_sublist _
    · split
      · exact nil_sublist _
      · split
        · exact nil_sublist _
        · exact (ih _ _).cons_cons webhook

def Steps.EndsLike (steps : Steps) (calls : Calls) : Prop :=
  match calls.stopped with
  | none => ∃ body archived, steps.outcome = .finished body archived
  | some after => steps.heap = after ∧ ∃ step kind, steps.outcome = .failed step kind

section

variable (modules : Modules) (request : ConversionRequest)

theorem applySteps_cons (webhook : Uuid × WebhookRow)
    (rest : List (Uuid × WebhookRow)) (heap : Heap) (current : Value) :
    (∃ after, stepCalls modules (webhook :: rest) heap current = ⟨[], some after⟩ ∧
      ∀ step archives rows, ∃ kind,
        applySteps modules request (webhook :: rest) step heap current
          archives rows = ⟨.failed step kind, after, rows⟩) ∨
    ∃ call later, later = stepCalls modules rest call.after call.output ∧
      stepCalls modules (webhook :: rest) heap current = ⟨call :: later.completed, later.stopped⟩ ∧
      ∀ step archives rows,
        applySteps modules request (webhook :: rest) step heap current archives rows =
        if call.dropped.isEmpty then
          applySteps modules request rest (step + 1) call.after call.output archives rows
        else
          match call.archive request with
          | none => ⟨.raised, call.after, rows⟩
          | some row =>
            applySteps modules request rest (step + 1) call.after
              call.output
              (archives ++ [⟨step, call.webhook.1, call.dropped⟩])
              (rows ++ [row]) := by
  cases hresolve : resolveImpl modules webhook.2.impl with
  | none =>
    exact .inl ⟨heap, by simp [stepCalls, hresolve],
      fun step archives rows => ⟨.implResolve, by simp [applySteps, hresolve]⟩⟩
  | some impl =>
    rcases hcall : impl heap current with ⟨after, result⟩
    cases result with
    | raised =>
      exact .inl ⟨after, by simp [stepCalls, hresolve, hcall],
        fun step archives rows => ⟨.webhookRaise, by simp [applySteps, hresolve, hcall]⟩⟩
    | returned result =>
      cases houtput : after.dict? result with
      | none =>
        exact .inl ⟨after, by simp [stepCalls, hresolve, hcall, houtput], fun step archives rows =>
          ⟨.postValidate, by simp [applySteps, hresolve, hcall, houtput]⟩⟩
      | some output =>
        apply Or.inr
        refine ⟨⟨webhook, heap, current, after, result⟩, _, rfl,
          by simp [stepCalls, hresolve, hcall, houtput], ?_⟩
        intro step archives rows
        have hdropped : StepCall.dropped
            ⟨webhook, heap, current, after, result⟩ =
              droppedFields ((after.dict? current).getD []) output := by
          simp [StepCall.dropped, StepCall.inputAfter, StepCall.outputItems, houtput]
        simp only [applySteps, hresolve, hcall, houtput, StepCall.archive, hdropped]
        split
        · rfl
        · cases after.dumpItems (droppedFields ((after.dict? current).getD []) output) with
          | none => rfl
          | some fields => rfl

theorem applySteps_of_archivable
    (harchivable : ∀ call ∈ (stepCalls modules found heap current).completed, call.Archivable)
    (step : ℕ) (archives : List ArchivedStep) (rows : List ArchiveRow) :
    (applySteps modules request found step heap current archives
        rows).archives =
        rows ++ (stepCalls modules found heap current).completed.filterMap
          (StepCall.archive request) ∧
      (applySteps modules request found step heap current archives
        rows).EndsLike (stepCalls modules found heap current) := by
  induction found generalizing heap current step archives rows with
  | nil => simp [stepCalls, applySteps, Steps.EndsLike]
  | cons webhook rest ih =>
    rcases applySteps_cons modules request webhook rest heap current with
      ⟨after, hcalls, hsteps⟩ | ⟨call, later, rfl, hcalls, hsteps⟩
    · obtain ⟨kind, hfailed⟩ := hsteps step archives rows
      rw [hcalls, hfailed]
      simp [Steps.EndsLike]
    · rw [hcalls, forall_mem_cons] at harchivable
      rw [hcalls, hsteps, filterMap_cons]
      obtain ⟨fields, hfields⟩ := StepCall.isSome_dumpItems harchivable.1
      by_cases hempty : call.dropped.isEmpty = true
      · rw [if_pos hempty, StepCall.archive, if_pos hempty]
        exact ih harchivable.2 _ _ _
      · have hrow : call.archive request = some (request.archiveRow
            call.webhook.1 call.webhook.2 fields) := by
          rw [StepCall.archive, if_neg hempty, hfields, Option.map_some]
        rw [if_neg hempty, hrow]
        have hlater := ih harchivable.2 (step + 1) (archives ++ [⟨step, call.webhook.1,
          call.dropped⟩]) (rows ++ [request.archiveRow call.webhook.1 call.webhook.2 fields])
        rw [append_assoc, singleton_append] at hlater
        exact hlater

theorem applySteps_of_not_archivable
    (hcall : call ∈ (stepCalls modules found heap current).completed) (hnot : ¬call.Archivable)
    (step : ℕ) (archives : List ArchivedStep) (rows : List ArchiveRow) :
    (applySteps modules request found step heap current archives rows).outcome = .raised := by
  induction found generalizing heap current step archives rows with
  | nil => simp [stepCalls] at hcall
  | cons webhook rest ih =>
    rcases applySteps_cons modules request webhook rest heap current with
      ⟨after, hcalls, _⟩ | ⟨first, later, rfl, hcalls, hsteps⟩
    · rw [hcalls] at hcall
      simp at hcall
    · rw [hcalls] at hcall
      rw [hsteps]
      by_cases hempty : first.dropped.isEmpty = true
      · rw [if_pos hempty]
        rcases mem_cons.mp hcall with rfl | hlater
        · rw [List.isEmpty_iff] at hempty
          exact absurd (by simp [StepCall.Archivable, hempty]) hnot
        · exact ih hlater _ _ _
      · rw [if_neg hempty]
        cases hrow : first.archive request with
        | none => rfl
        | some row =>
          rcases mem_cons.mp hcall with rfl | hlater
          · rw [StepCall.archive, if_neg hempty, Option.map_eq_some_iff] at hrow
            obtain ⟨fields, hfields, _⟩ := hrow
            exact absurd (Heap.isSome_dumpItems_iff.mp (by rw [hfields]; rfl)) hnot
          · exact ih hlater _ _ _

end

theorem lookup_droppedFields (old new : List (String × Value)) (key : String) :
    (droppedFields old new).lookup key =
      if (new.lookup key).isNone then old.lookup key else none := by
  unfold droppedFields
  induction old with
  | nil => simp
  | cons item rest ih =>
    rw [filter_cons, lookup_cons]
    by_cases hkey : key = item.1
    · subst hkey
      by_cases hnew : (new.lookup item.1).isNone = true
      · rw [if_pos hnew, if_pos hnew, lookup_cons, beq_self_eq_true]
      · rw [if_neg hnew, if_neg hnew, ih, if_neg hnew]
    · rw [beq_eq_false_iff_ne.mpr hkey]
      by_cases hnew : (new.lookup item.1).isNone = true
      · rw [if_pos hnew, lookup_cons, beq_eq_false_iff_ne.mpr hkey, ih]
      · rw [if_neg hnew, ih]

/-- The archive rows written by the conversion keep what a call drops: its
key, with the value it had before the call. -/
def StepCall.Archived (call : StepCall) (rows : List ArchiveRow) : Prop :=
  ∀ key value, call.inputBefore.lookup key = some value →
    call.outputItems.lookup key = none →
      ∃ row ∈ rows, row.webhookId = call.webhook.1 ∧
        ∃ kept, field? row.legacyFields key = some kept ∧ call.before.dumps value = some kept

theorem StepCall.archived_iff {calls : List StepCall} (hcall : call ∈ calls)
    (hdistinct : (calls.map fun call => call.webhook.1).Nodup) (harchivable : call.Archivable) :
    call.Archived (calls.filterMap (StepCall.archive request)) ↔ call.KeepsDropped := by
  have hlookup : ∀ key, call.outputItems.lookup key = none →
      call.dropped.lookup key = call.inputAfter.lookup key := by
    intro key hmissing
    rw [StepCall.dropped, lookup_droppedFields, hmissing]
    rfl
  obtain ⟨fields, hfields⟩ := StepCall.isSome_dumpItems harchivable
  constructor
  · intro harchived key value hkey hmissing
    obtain ⟨row, hrow, hid, kept, hkept, hbefore⟩ := harchived key value hkey hmissing
    obtain ⟨other, hother, harchive⟩ := mem_filterMap.mp hrow
    have hsame : other = call := by
      have hwebhook : row.webhookId = other.webhook.1 := by
        unfold StepCall.archive at harchive
        split at harchive
        · simp at harchive
        · obtain ⟨_, _, rfl⟩ := Option.map_eq_some_iff.mp harchive
          rfl
      exact inj_on_of_nodup_map hdistinct hother hcall (hwebhook ▸ hid)
    subst hsame
    have hlegacy : row.legacyFields = fields := by
      unfold StepCall.archive at harchive
      split at harchive
      · simp at harchive
      · rw [hfields, Option.map_some, Option.some.injEq] at harchive
        rw [← harchive]
        rfl
    rw [hlegacy, Heap.field?_dumpItems hfields, hlookup key hmissing,
      Option.bind_eq_some_iff] at hkept
    obtain ⟨left, hleft, hafter⟩ := hkept
    exact ⟨left, hleft, by rw [hafter, hbefore]⟩
  · intro hkeeps key value hkey hmissing
    obtain ⟨left, hleft, hvalue⟩ := hkeeps key value hkey hmissing
    have hdropped := hlookup key hmissing
    rw [hleft] at hdropped
    have hitem : (key, left) ∈ call.dropped := by
      rw [lookup_eq_some_iff] at hdropped
      obtain ⟨ahead, behind, hsplit, _⟩ := hdropped
      rw [hsplit]
      simp
    have hempty : ¬call.dropped.isEmpty = true := by
      rw [List.isEmpty_iff]
      exact ne_nil_of_mem hitem
    obtain ⟨kept, hafter⟩ := Option.isSome_iff_exists.mp (harchivable _ hitem)
    have harchive : call.archive request = some (request.archiveRow
        call.webhook.1 call.webhook.2 fields) := by
      rw [StepCall.archive, if_neg hempty, hfields, Option.map_some]
    refine ⟨_, mem_filterMap.mpr ⟨call, hcall, harchive⟩, rfl, kept, ?_, by rw [← hvalue, hafter]⟩
    change field? fields key = some kept
    rw [Heap.field?_dumpItems hfields, hdropped, Option.bind_some, hafter]

/-- The dead letter has one more row, with the body as it read when the caller
passed it in. -/
def OriginalKept (request : ConversionRequest) (heap : Heap) (before after : Tables) : Prop :=
  ∃ letter, after.deadLetters = before.deadLetters ++ [letter] ∧
    heap.dumps request.body = some letter.attemptedPayload

/-- What the conversion promises: a success has archived what its steps
dropped, a failure has kept the original body. -/
def ConversionRun.NeverLossy (result : ConversionRun)
    (request : ConversionRequest) (calls : Calls) (heap : Heap)
    (tables : Tables) : Prop :=
  match result.outcome with
  | .converted _ =>
    ∀ call ∈ calls.completed, call.Archived (result.tables.archives.drop tables.archives.length)
  | .failed _ => OriginalKept request heap tables result.tables
  | .raised => OriginalKept request heap tables result.tables

structure KeepsOriginals (calls : Calls) (request : ConversionRequest) (heap : Heap) : Prop where
  archivable : ∀ call ∈ calls.completed, call.Archivable
  dropped : calls.stopped = none → ∀ call ∈ calls.completed, call.KeepsDropped
  body : ∀ after, calls.stopped = some after →
    ∃ payload, heap.dumps request.body = some payload ∧ after.dumps request.body = some payload

theorem originalKept_recordFailure_iff {err : ConversionError} {after : Heap}
    {archived : Tables} (hletters : archived.deadLetters = tables.deadLetters) :
    OriginalKept request heap tables (recordFailure request err ids uriChain after archived) ↔
      ∃ payload, heap.dumps request.body = some payload ∧
        after.dumps request.body = some payload := by
  unfold OriginalKept recordFailure
  cases hafter : after.dumps request.body with
  | none => simp [hletters]
  | some payload =>
    constructor
    · rintro ⟨letter, hletter, hbody⟩
      simp only [hletters, append_cancel_left_eq, cons.injEq, and_true] at hletter
      subst letter
      exact ⟨payload, hbody, rfl⟩
    · rintro ⟨found, hbody, hfound⟩
      obtain rfl := Option.some.inj hfound
      exact ⟨_, by rw [hletters], hbody⟩

theorem not_originalKept {before after : Tables}
    (hletters : after.deadLetters = before.deadLetters) :
    ¬OriginalKept request heap before after := by
  rintro ⟨letter, hletter, _⟩
  simp [hletters] at hletter

theorem neverLossy_conclude (request : ConversionRequest)
    (found : List (Uuid × WebhookRow)) (uriChain : List String) (heap : Heap)
    {steps : Steps} {calls : Calls} (hend : steps.EndsLike calls)
    (harchives : steps.archives = tables.archives ++
      calls.completed.filterMap (StepCall.archive request)) :
    (conclude request found uriChain tables steps).NeverLossy request calls heap tables ↔
      (calls.stopped = none → ∀ call ∈ calls.completed,
          call.Archived (calls.completed.filterMap (StepCall.archive request))) ∧
        ∀ after, calls.stopped = some after →
          ∃ payload, heap.dumps request.body = some payload ∧
            after.dumps request.body = some payload := by
  unfold Steps.EndsLike at hend
  cases hstopped : calls.stopped with
  | none =>
    rw [hstopped] at hend
    obtain ⟨body, archived, houtcome⟩ := hend
    simp [ConversionRun.NeverLossy, conclude, houtcome, harchives]
  | some after =>
    rw [hstopped] at hend
    obtain ⟨rfl, step, kind, houtcome⟩ := hend
    simp only [ConversionRun.NeverLossy, conclude, houtcome, ConversionRequest.fail]
    have hletters : ({ tables with archives := steps.archives } :
        Tables).deadLetters = tables.deadLetters := rfl
    rw [originalKept_recordFailure_iff hletters]
    simp

def OnlyCreates (modules : Modules) : Prop :=
  ∀ implPath impl, resolveImpl modules implPath = some impl →
    ∀ heap value, ∃ created, (impl heap value).1 = heap ++ created

theorem StepCall.keeps_of_created {created : Heap} (hcreated : call.after = call.before ++ created)
    (hinput : call.before.dict? call.input = some items)
    (hdump : ∀ item ∈ items, (call.before.dumps item.2).isSome) :
    call.Archivable ∧ call.KeepsDropped := by
  have hbefore : call.inputBefore = items := by rw [StepCall.inputBefore, hinput, Option.getD_some]
  have hafter : call.inputAfter = items := by
    rw [StepCall.inputAfter, hcreated, Heap.dict?_append _ _ hinput, Option.getD_some]
  have hread : ∀ item ∈ items, call.after.dumps item.2 = call.before.dumps item.2 := by
    intro item hitem
    obtain ⟨result, hresult⟩ := Option.isSome_iff_exists.mp (hdump item hitem)
    rw [hcreated, Heap.dumps_append _ _ hresult, hresult]
  constructor
  · intro item hitem
    have hmem : item ∈ items := hafter ▸ (mem_filter.mp hitem).1
    rw [hread item hmem]
    exact hdump item hmem
  · intro key value hkey _
    rw [hbefore] at hkey
    have hmem : (key, value) ∈ items := by
      rw [lookup_eq_some_iff] at hkey
      obtain ⟨ahead, behind, hsplit, _⟩ := hkey
      simp [hsplit]
    exact ⟨value, hafter ▸ hkey, hread _ hmem⟩

theorem stepCalls_of_onlyCreates (hcreates : OnlyCreates modules)
    (hcurrent : heap.dict? current = some items)
    (hdump : ∀ item ∈ items, (heap.dumps item.2).isSome)
    (houtputs : ∀ call ∈ (stepCalls modules found heap current).completed,
      (call.after.dumps call.output).isSome) :
    (∀ call ∈ (stepCalls modules found heap current).completed,
        call.Archivable ∧ call.KeepsDropped) ∧
      ∀ after, (stepCalls modules found heap current).stopped = some after →
        ∃ created, after = heap ++ created := by
  induction found generalizing heap current items with
  | nil => simp [stepCalls]
  | cons webhook rest ih =>
    unfold stepCalls at houtputs ⊢
    cases hresolve : resolveImpl modules webhook.2.impl with
    | none => simp
    | some impl =>
      obtain ⟨created, hcreated⟩ := hcreates _ impl hresolve heap current
      rcases hcall : impl heap current with ⟨after, result⟩
      rw [hcall] at hcreated
      cases result with
      | raised => simpa [hcall] using ⟨created, hcreated⟩
      | returned result =>
        cases houtput : after.dict? result with
        | none => simpa [hcall, houtput] using ⟨created, hcreated⟩
        | some output =>
          simp only [hresolve, hcall, houtput, forall_mem_cons] at houtputs ⊢
          simp only at hcreated
          have hlater := ih houtput (fun item hitem =>
            Heap.isSome_dumps_of_mem houtput houtputs.1 hitem)
            houtputs.2
          refine ⟨⟨StepCall.keeps_of_created hcreated hcurrent hdump, hlater.1⟩, ?_⟩
          intro stopped hstopped
          obtain ⟨more, hmore⟩ := hlater.2 stopped hstopped
          exact ⟨created ++ more, by rw [hmore, hcreated, append_assoc]⟩

theorem keepsOriginals_of_onlyCreates (hcreates : OnlyCreates modules) (request : ConversionRequest)
    (found : List (Uuid × WebhookRow)) (hbody : heap.dict? request.body = some items)
    (hdump : (heap.dumps request.body).isSome)
    (houtputs : ∀ call ∈ (conversionCalls modules request found heap).completed, (call.after.dumps
      call.output).isSome) :
    KeepsOriginals (conversionCalls modules request found heap) request
      heap := by
  have hcopy : (copyBody request heap).dict? (.object heap.length) = some items := by
    rw [copyBody, hbody, Option.getD_some]
    simp [Heap.dict?]
  have hfields : ∀ item ∈ items, ((copyBody request heap).dumps item.2).isSome := by
    intro item hitem
    obtain ⟨result, hresult⟩ := Option.isSome_iff_exists.mp
      (Heap.isSome_dumps_of_mem hbody hdump hitem)
    rw [copyBody, Heap.dumps_append _ _ hresult]
    rfl
  have hcalls := stepCalls_of_onlyCreates hcreates hcopy hfields houtputs
  refine ⟨fun call hcall => (hcalls.1 call hcall).1,
    fun _ call hcall => (hcalls.1 call hcall).2, ?_⟩
  intro after hstopped
  obtain ⟨created, hafter⟩ := hcalls.2 after hstopped
  obtain ⟨payload, hpayload⟩ := Option.isSome_iff_exists.mp hdump
  refine ⟨payload, hpayload, ?_⟩
  rw [hafter, copyBody, append_assoc]
  exact Heap.dumps_append _ _ hpayload

/-- A dictionary callee which deletes a key in place and returns the
dictionary it was handed. -/
def deleteInPlace (key : String) : WebhookCallable
  | heap, .object address =>
    match heap[address]? with
    | some (.dict items) =>
      (heap.set address (.dict (items.filter fun item => item.1 ≠ key)),
        .returned (.object address))
    | _ => (heap, .raised)
  | heap, _ => (heap, .raised)

def clearNestedThenRaise (key : String) : WebhookCallable := fun heap value =>
  match ((heap.dict? value).getD []).lookup key with
  | some (.object address) => (heap.set address (.dict []), .raised)
  | _ => (heap, .raised)

def copyWithout (key : String) : WebhookCallable := fun heap value =>
  let items := (heap.dict? value).getD []
  (heap ++ [.dict (items.filter fun item => item.1 ≠ key)], .returned (.object heap.length))

def sampleModules (call : WebhookCallable) : Modules := fun moduleName =>
  if moduleName = "conv" then
    some fun funcName => if funcName = "up" then some (.callable call) else none
  else none

def sampleWebhook : WebhookRow where
  fromUri := "t/1"
  toUri := "t/2"
  impl := "conv:up"
  createdAt := 0
  retiredAt := none

def sampleWebhooks : WebhookTable := Table.empty.put 7 sampleWebhook

def sampleRequest : ConversionRequest where
  body := .object 0
  family := "t"
  fromUri := "t/1"
  toUri := "t/2"
  descriptorId := none
  actor := "system"

def sampleHeap : Heap :=
  [.dict [("legacy", .string "x"), ("identity", .object 1)], .dict [("name", .string "n")]]

def emptyTables : Tables := ⟨[], [], []⟩

def sampleRun (call : WebhookCallable) : ConversionRun :=
  convert sampleWebhooks (sampleModules call) sampleRequest sampleHeap emptyTables

def sampleCalls (call : WebhookCallable) : Calls :=
  conversionCalls (sampleModules call) sampleRequest (chain sampleWebhooks [7]) sampleHeap

/-! ## When a conversion is not lossy -/

theorem families_of_findPath {fromUri toUri : String}
    (hpath : findPath webhooks family fromUri toUri = some ids) :
    familyOfUri fromUri = family ∧ familyOfUri toUri = family := by
  by_contra hother
  rw [not_and_or] at hother
  rw [findPath, if_pos hother] at hpath
  simp at hpath

section

variable (hpath : findPath webhooks request.family request.fromUri request.toUri = some ids)

include hpath

theorem neverLossy_sameUri (hsame : request.fromUri = request.toUri) :
    (convert webhooks modules request heap tables).NeverLossy request
        (conversionCalls modules request (chain webhooks ids) heap) heap
        tables ∧
      KeepsOriginals
        (conversionCalls modules request (chain webhooks ids) heap) request
        heap := by
  have hfamilies := families_of_findPath hpath
  have hnil : ids = [] := by
    rw [findPath, if_neg (by simp [hfamilies]), if_pos hsame, Option.some.injEq] at hpath
    exact hpath.symm
  have hcalls : conversionCalls modules request (chain webhooks ids) heap = ⟨[], none⟩ := by
    rw [hnil]
    rfl
  rw [hcalls, convert, if_neg (by simp [hfamilies]), if_neg (by simp [hfamilies]), if_pos hsame]
  constructor
  · simp [ConversionRun.NeverLossy]
  · exact ⟨by simp, by simp, by simp⟩

theorem convert_of_findPath (hdiffers : request.fromUri ≠ request.toUri)
    (hchain : webhooksInPath webhooks request ids [] [request.fromUri]
      request.fromUri = .rows (chain webhooks ids) uriChain) :
    convert webhooks modules request heap tables =
      conclude request (chain webhooks ids) uriChain tables
        (applySteps modules request (chain webhooks ids) 0
          (copyBody request heap) (.object heap.length) []
          tables.archives) := by
  have hfamilies := families_of_findPath hpath
  rw [convert, if_neg (by simp [hfamilies]), if_neg (by simp [hfamilies]), if_neg hdiffers, hpath]
  simp [hchain]

end

/-- Every field a conversion along a chain found drops is archived, and every
failure keeps the original body, exactly when the callables leave the dropped
fields of the dictionaries they are handed, and what the caller's body refers
to, as they were. -/
theorem neverLossy_iff (webhooks : WebhookTable) (modules : Modules)
    (request : ConversionRequest) (ids : List Uuid) (heap : Heap) (tables : Tables)
    (hpath : findPath webhooks request.family request.fromUri request.toUri = some
      ids) : let calls := conversionCalls modules request (chain webhooks ids) heap
    (convert webhooks modules request heap tables).NeverLossy request calls heap tables ↔
      KeepsOriginals calls request heap := by
  intro calls
  obtain ⟨⟨uriChain, hchain⟩, hids⟩ := webhooksInPath_of_findPath hpath
  by_cases hsame : request.fromUri = request.toUri
  · obtain ⟨hlossless, hkeeps⟩ := neverLossy_sameUri hpath hsame
    exact iff_of_true hlossless hkeeps
  · rw [convert_of_findPath hpath hsame hchain]
    by_cases harchivable : ∀ call ∈ calls.completed, call.Archivable
    · have hsteps := applySteps_of_archivable modules request harchivable 0 [] tables.archives
      have hconclude := neverLossy_conclude request (chain webhooks ids)
        uriChain heap hsteps.2 hsteps.1
      refine hconclude.trans ?_
      have hdistinct : (calls.completed.map fun call => call.webhook.1).Nodup := by
        have hsublist := (stepCalls_webhooks_sublist modules (chain webhooks
          ids) (copyBody request heap) (.object heap.length)).map Prod.fst
        rw [map_map] at hsublist
        exact (nodup_chain hids).sublist hsublist
      constructor
      · rintro ⟨harchived, hbody⟩
        exact ⟨harchivable, fun hstopped call hcall =>
          (StepCall.archived_iff hcall hdistinct (harchivable call hcall)).mp
            (harchived hstopped call hcall), hbody⟩
      · intro hkeeps
        exact ⟨fun hstopped call hcall =>
          (StepCall.archived_iff hcall hdistinct (harchivable call hcall)).mpr
            (hkeeps.dropped hstopped call hcall), hkeeps.body⟩
    · constructor
      · intro hlossless
        simp only [not_forall] at harchivable
        obtain ⟨call, hcall, hnot⟩ := harchivable
        have hraised := applySteps_of_not_archivable modules request hcall hnot 0 [] tables.archives
        simp only [ConversionRun.NeverLossy, conclude, hraised] at hlossless
        exact absurd hlossless (not_originalKept rfl)
      · exact fun hkeeps => absurd hkeeps.archivable harchivable

theorem neverLossy_iff_newDictionary :
    findPath sampleWebhooks "t" "t/1" "t/2" = some [7] ∧
      (sampleRun (copyWithout "legacy")).NeverLossy sampleRequest
        (sampleCalls (copyWithout "legacy")) sampleHeap emptyTables := by
  have hpath : findPath sampleWebhooks sampleRequest.family
      sampleRequest.fromUri sampleRequest.toUri = some [7] := by rfl
  have hcreates : OnlyCreates (sampleModules (copyWithout "legacy")) := by
    intro implPath impl hresolve heap value
    have himpl : impl = copyWithout "legacy" := by
      unfold resolveImpl sampleModules at hresolve
      grind
    rw [himpl]
    exact ⟨_, rfl⟩
  have hbody : sampleHeap.dict? sampleRequest.body =
      some [("legacy", .string "x"), ("identity", .object 1)] := rfl
  have hdump : (sampleHeap.dumps sampleRequest.body).isSome := rfl
  have houtputs : ∀ call ∈ (sampleCalls (copyWithout "legacy")).completed,
      (call.after.dumps call.output).isSome := by
    intro call hcall
    rw [mem_singleton.mp hcall]
    rfl
  have hkeeps := keepsOriginals_of_onlyCreates hcreates sampleRequest
    (chain sampleWebhooks [7]) hbody hdump houtputs
  exact ⟨hpath, (neverLossy_iff sampleWebhooks
    (sampleModules (copyWithout "legacy")) sampleRequest [7] sampleHeap
    emptyTables hpath).mpr hkeeps⟩

/-- A key deleted in place is in no archive row, and a nested object changed
before the step raises is changed in the dead letter. -/
theorem conversion_loses_changes_in_place :
    findPath sampleWebhooks "t" "t/1" "t/2" = some [7] ∧
      ¬(sampleRun (deleteInPlace "legacy")).NeverLossy sampleRequest
        (sampleCalls (deleteInPlace "legacy")) sampleHeap emptyTables ∧
      ¬(sampleRun (clearNestedThenRaise "identity")).NeverLossy sampleRequest
        (sampleCalls (clearNestedThenRaise "identity")) sampleHeap
        emptyTables := by
  refine ⟨by rfl, ?_, ?_⟩
  · intro hlossless
    have harchived : ∀ call ∈ (sampleCalls
        (deleteInPlace "legacy")).completed, call.Archived [] := hlossless
    obtain ⟨row, hrow, _⟩ := harchived _ mem_cons_self "legacy" (.string "x") rfl rfl
    simp at hrow
  · intro hlossless
    have horiginal : OriginalKept sampleRequest sampleHeap emptyTables
        (sampleRun (clearNestedThenRaise "identity")).tables := hlossless
    obtain ⟨letter, hletter, hbody⟩ := horiginal
    have hwritten : (sampleRun (clearNestedThenRaise
        "identity")).tables.deadLetters.map DeadLetterRow.attemptedPayload =
          [.object [("identity", .object []), ("legacy", .string "x")]] := by
      rfl
    have hpassed : sampleHeap.dumps sampleRequest.body = some (.object
        [("identity", .object [("name", .string "n")]),
          ("legacy", .string "x")]) := by rfl
    rw [hletter] at hwritten
    rw [hpassed] at hbody
    simp only [Option.some.injEq] at hbody
    simp [emptyTables, ← hbody] at hwritten

end Legba.Conversion
