import Legba.BreadthFirst
import Legba.KeyedTable
import Legba.ObjectHeap
import Legba.SignalRow
import Legba.SqlLogic
import Mathlib.Data.List.Sort

/-!
# Conversion of a descriptor body along a chain of webhooks

`find_path` looks for the shortest chain of active webhooks between two schema
URIs and `convert` applies the callable of each to the body.  A callable is
handed the working copy by reference: it may change any object it can reach
and may return the object it was given.  What a step drops is archived, and
the original body goes to the dead letter when a step fails.
-/

namespace Legba.Conversion

open BreadthFirst JsonValue KeyedTable ObjectHeap String

structure WebhookRow where
  fromUri : String
  toUri : String
  impl : String
  createdAt : Datetime
  retiredAt : Option Datetime
deriving DecidableEq

def WebhookRow.isActive (row : WebhookRow) : Bool := row.retiredAt.isNone

abbrev WebhookTable := Table Uuid WebhookRow

/-- `text.rsplit("/", 1)`, if there is a slash. -/
def rsplitSlash : List Char → Option (List Char × List Char)
  | [] => none
  | letter :: rest =>
    match rsplitSlash rest with
    | some (ahead, last) => some (letter :: ahead, last)
    | none => if letter = '/' then some ([], rest) else none

def familyOfUri (uri : String) : String :=
  match rsplitSlash uri.toList with
  | some (family, _) => ofList family
  | none => uri

/-- `list_webhooks(family, include_retired=False)`. -/
def listWebhooks (webhooks : WebhookTable) (family : String) : List (Uuid × WebhookRow) :=
  let pattern := family.toList ++ ['/', '%']
  let rows := webhooks.select fun row =>
    (SqlLogic.like pattern row.fromUri.toList ||
      SqlLogic.like pattern row.toUri.toList) && row.isActive
  rows.insertionSort fun a b => b.2.createdAt ≤ a.2.createdAt

def orderedWebhooks (webhooks : WebhookTable) (family : String) : List (Uuid × WebhookRow) :=
  (listWebhooks webhooks family).insertionSort fun a b => a.2.createdAt ≤ b.2.createdAt

def adjacency (rows : List (Uuid × WebhookRow)) (uri : String) : List (String × Uuid) :=
  rows.filterMap fun row =>
    if row.2.fromUri = uri then some (row.2.toUri, row.1) else none

def findPath (webhooks : WebhookTable) (family fromUri toUri : String) : Option (List Uuid) :=
  if familyOfUri fromUri ≠ family ∨ familyOfUri toUri ≠ family then none
  else if fromUri = toUri then some []
  else
    let rows := orderedWebhooks webhooks family
    path (search (adjacency rows) toUri (rows.length + 1) [fromUri] [(fromUri, none)]) toUri

inductive CallResult where
  | raised
  | returned (value : Value)

abbrev WebhookCallable := Heap → Value → Heap × CallResult

inductive Attribute where
  | callable (call : WebhookCallable)
  | other

abbrev Modules := String → Option (String → Option Attribute)

def partitionColon : List Char → Option (List Char × List Char)
  | [] => none
  | letter :: rest =>
    if letter = ':' then some ([], rest)
    else (partitionColon rest).map fun parts => (letter :: parts.1, parts.2)

/-- `none` is a `WebhookValidationError`. -/
def resolveImpl (modules : Modules) (implPath : String) : Option WebhookCallable :=
  match partitionColon implPath.toList with
  | none => none
  | some (moduleName, funcName) =>
    match modules (ofList moduleName) with
    | none => none
    | some attributes =>
      match attributes (ofList funcName) with
      | some (.callable call) => some call
      | _ => none

inductive ErrorKind where
  | noPath
  | implResolve
  | webhookRaise
  | postValidate
deriving DecidableEq

structure ConversionRequest where
  body : Value
  family : String
  fromUri : String
  toUri : String
  descriptorId : Option String
  actor : String

structure ConversionError where
  family : String
  fromUri : String
  toUri : String
  descriptorId : Option String
  path : List String
  failedAtStep : Option ℕ
  errorKind : ErrorKind
deriving DecidableEq

structure ArchiveRow where
  namespaceName : String
  descriptorId : String
  fromUri : String
  toUri : String
  webhookId : Uuid
  legacyFields : List (String × Json)

structure ExecutionRow where
  namespaceName : String
  descriptorId : Option String
  fromUri : String
  toUri : String
  pathWebhookIds : List Uuid
  pathUriChain : List String
  success : Bool
  failedAtStep : Option ℕ
  errorKind : Option ErrorKind

structure DeadLetterRow where
  actor : String
  namespaceName : String
  attemptedPayload : Json
  declaredSchemaUri : String
  validationError : ConversionError

structure Tables where
  archives : List ArchiveRow
  executions : List ExecutionRow
  deadLetters : List DeadLetterRow

def splitSlash : List Char → List (List Char)
  | [] => [[]]
  | letter :: rest =>
    if letter = '/' then [] :: splitSlash rest
    else
      match splitSlash rest with
      | [] => [[letter]]
      | part :: parts => (letter :: part) :: parts

def namespaceToken (family : String) : String :=
  match splitSlash family.toList with
  | root :: second :: _ =>
    if root = "legba".toList then ofList second else family
  | _ => family

def archiveNamespace (family : String) : String :=
  match rsplitSlash family.toList with
  | some (_, last) => ofList last
  | none => family

def ConversionRequest.error (request : ConversionRequest)
    (path : List String) (failedAtStep : Option ℕ) (kind : ErrorKind) :
    ConversionError where
  family := request.family
  fromUri := request.fromUri
  toUri := request.toUri
  descriptorId := request.descriptorId
  path := path
  failedAtStep := failedAtStep
  errorKind := kind

/-- The dead letter takes the original body as it reads now; a body which
cannot be dumped leaves no row. -/
def recordFailure (request : ConversionRequest) (err : ConversionError)
    (pathWebhookIds : List Uuid) (uriChain : List String) (heap : Heap)
    (tables : Tables) : Tables :=
  let execution : ExecutionRow :=
    { namespaceName := namespaceToken err.family
      descriptorId := err.descriptorId
      fromUri := err.fromUri
      toUri := err.toUri
      pathWebhookIds := pathWebhookIds
      pathUriChain := uriChain
      success := false
      failedAtStep := err.failedAtStep
      errorKind := some err.errorKind }
  let logged := { tables with executions := tables.executions ++ [execution] }
  match heap.dumps request.body with
  | none => logged
  | some payload =>
    let letter : DeadLetterRow :=
      { actor := request.actor
        namespaceName := namespaceToken err.family
        attemptedPayload := payload
        declaredSchemaUri := err.fromUri
        validationError := err }
    { logged with deadLetters := logged.deadLetters ++ [letter] }

/-! ## The conversion -/

def droppedFields (old new : List (String × Value)) : List (String × Value) :=
  old.filter fun item => (new.lookup item.1).isNone

structure ArchivedStep where
  step : ℕ
  webhookId : Uuid
  dropped : List (String × Value)

structure ConvertedBody where
  body : Value
  family : String
  fromUri : String
  toUri : String
  pathWebhookIds : List Uuid
  pathUriChain : List String
  archivedLegacyFields : List ArchivedStep

/-- A `ConversionError`, or another exception which nothing caught. -/
inductive Outcome where
  | converted (result : ConvertedBody)
  | failed (err : ConversionError)
  | raised

structure ConversionRun where
  outcome : Outcome
  heap : Heap
  tables : Tables

def ConversionRequest.fail (request : ConversionRequest)
    (err : ConversionError) (pathWebhookIds : List Uuid)
    (uriChain : List String) (heap : Heap) (tables : Tables) :
    ConversionRun where
  outcome := .failed err
  heap := heap
  tables := recordFailure request err pathWebhookIds uriChain heap tables

inductive ChainResult where
  | rows (webhooks : List (Uuid × WebhookRow)) (uriChain : List String)
  | refused (err : ConversionError) (uriChain : List String)
  | notFound

def webhooksInPath (webhooks : WebhookTable) (request : ConversionRequest) :
    List Uuid → List (Uuid × WebhookRow) → List String → String → ChainResult
  | [], found, uriChain, _ => .rows found uriChain
  | id :: rest, found, uriChain, currentUri =>
    match webhooks.row? id with
    | none => .notFound
    | some row =>
      if row.isActive = false then
        .refused (request.error (uriChain ++ [row.toUri]) (some found.length) .noPath) uriChain
      else if row.fromUri ≠ currentUri then
        .refused (request.error (uriChain ++ [row.toUri])
          (some found.length) .postValidate) uriChain
      else
        webhooksInPath webhooks request rest (found ++ [(id, row)])
          (uriChain ++ [row.toUri]) row.toUri

inductive StepsOutcome where
  | finished (body : Value) (archives : List ArchivedStep)
  | failed (step : ℕ) (kind : ErrorKind)
  | raised

structure Steps where
  outcome : StepsOutcome
  heap : Heap
  archives : List ArchiveRow

def ConversionRequest.archiveRow (request : ConversionRequest) (id : Uuid)
    (row : WebhookRow) (legacyFields : List (String × Json)) :
    ArchiveRow where
  namespaceName := archiveNamespace request.family
  descriptorId := request.descriptorId.getD "__unknown__"
  fromUri := row.fromUri
  toUri := row.toUri
  webhookId := id
  legacyFields := legacyFields

def applySteps (modules : Modules) (request : ConversionRequest) :
    List (Uuid × WebhookRow) → ℕ → Heap → Value → List ArchivedStep → List ArchiveRow → Steps
  | [], _, heap, current, archives, rows => ⟨.finished current archives, heap, rows⟩
  | (id, row) :: rest, step, heap, current, archives, rows =>
    match resolveImpl modules row.impl with
    | none => ⟨.failed step .implResolve, heap, rows⟩
    | some impl =>
      match impl heap current with
      | (after, .raised) => ⟨.failed step .webhookRaise, after, rows⟩
      | (after, .returned result) =>
        match after.dict? result with
        | none => ⟨.failed step .postValidate, after, rows⟩
        | some output =>
          let dropped := droppedFields ((after.dict? current).getD []) output
          if dropped.isEmpty then
            applySteps modules request rest (step + 1) after result archives rows
          else
            match after.dumpItems dropped with
            | none => ⟨.raised, after, rows⟩
            | some legacyFields =>
              applySteps modules request rest (step + 1) after
                result (archives ++ [⟨step, id, dropped⟩])
                (rows ++ [request.archiveRow id row legacyFields])

def conclude (request : ConversionRequest)
    (found : List (Uuid × WebhookRow)) (uriChain : List String)
    (tables : Tables) (steps : Steps) : ConversionRun :=
  let archived := { tables with archives := steps.archives }
  let ids := found.map Prod.fst
  match steps.outcome with
  | .raised => ⟨.raised, steps.heap, archived⟩
  | .failed step kind =>
    request.fail (request.error uriChain (some step) kind) ids uriChain steps.heap archived
  | .finished body archivedSteps =>
    let execution : ExecutionRow :=
      { namespaceName := namespaceToken request.family
        descriptorId := request.descriptorId
        fromUri := request.fromUri
        toUri := request.toUri
        pathWebhookIds := ids
        pathUriChain := uriChain
        success := true
        failedAtStep := none
        errorKind := none }
    ⟨.converted ⟨body, request.family, request.fromUri, request.toUri, ids,
        uriChain, archivedSteps⟩, steps.heap,
      { archived with executions := archived.executions ++ [execution] }⟩

/-- `dict(body)`: the copy is the last object of the heap. -/
def copyBody (request : ConversionRequest) (heap : Heap) : Heap :=
  heap ++ [.dict ((heap.dict? request.body).getD [])]

def convert (webhooks : WebhookTable) (modules : Modules)
    (request : ConversionRequest) (heap : Heap) (tables : Tables) :
    ConversionRun :=
  let copied := copyBody request heap
  if familyOfUri request.fromUri ≠ request.family then
    ⟨.failed (request.error [] none .noPath), heap, tables⟩
  else if familyOfUri request.toUri ≠ request.family then
    ⟨.failed (request.error [] none .noPath), heap, tables⟩
  else if request.fromUri = request.toUri then
    ⟨.converted ⟨.object heap.length, request.family, request.fromUri,
      request.toUri, [], [request.fromUri], []⟩, copied, tables⟩
  else
    match findPath webhooks request.family request.fromUri request.toUri with
    | none => request.fail (request.error [] none .noPath) [] [request.fromUri] heap tables
    | some ids =>
      match webhooksInPath webhooks request ids [] [request.fromUri] request.fromUri with
      | .notFound => ⟨.raised, heap, tables⟩
      | .refused err uriChain => request.fail err ids uriChain heap tables
      | .rows found uriChain =>
        conclude request found uriChain tables
          (applySteps modules request found 0 copied (.object heap.length) [] tables.archives)

end Legba.Conversion
