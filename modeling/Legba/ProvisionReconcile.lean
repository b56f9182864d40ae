import Legba.JsonValue
import Mathlib.Data.List.Dedup
import Mathlib.Data.List.Sort
import Mathlib.Data.String.Basic

/-!
# Provisioning a source upstream

A source which subscribes upstream keeps the watches it asked for in line with
a desired set.  Each pass registers what is missing and deregisters what is no
longer wanted, call by call, and stores what the upstream confirmed.  A call
which reports a failure may have taken effect all the same.

The upstream is given by its answer to each call of a pass.  The Python sets
are lists of which only the members count.
-/

namespace Legba.Provision

open JsonValue

/-- `register_call` or `deregister_call` of a descriptor. -/
structure CallTemplate where
  url : String
  method : Option String
  body : Option Json

structure ProvisionBlock where
  enabled : Bool
  registerCall : CallTemplate
  deregisterCall : CallTemplate
  credentialSecret : Option String
  idempotencyKeyField : Option String

structure UpstreamCall where
  template : CallTemplate
  watchParam : String
  idempotencyKey : String
  credential : Option String

inductive Answer where
  | confirmed
  | failed (tookEffect : Bool)
deriving DecidableEq

def Answer.ok : Answer → Bool
  | .confirmed => true
  | .failed _ => false

def Answer.tookEffect : Answer → Bool
  | .confirmed => true
  | .failed tookEffect => tookEffect

theorem Answer.tookEffect_of_ok (answer : Answer) (hok : answer.ok) : answer.tookEffect := by
  cases answer with
  | confirmed => rfl
  | failed tookEffect => cases hok

structure UpstreamClient where
  register : UpstreamCall → Answer
  deregister : UpstreamCall → Answer

structure HttpRequest where
  method : String
  url : String
  body : Option Json
  idempotencyKey : String
  authorization : Option String

inductive HttpExchange where
  | raised (tookEffect : Bool)
  | responded (status : ℕ) (tookEffect : Bool)

/-- `str.replace` on characters; the first argument counts the characters of a
match still to be passed over. -/
def replaceChars (old new : List Char) : ℕ → List Char → List Char
  | _, [] => []
  | skip + 1, _ :: rest => replaceChars old new skip rest
  | 0, c :: rest =>
    if old.isPrefixOf (c :: rest) then
      new ++ replaceChars old new (old.length - 1) rest
    else c :: replaceChars old new 0 rest

def replaceParam (text watchParam : String) : String :=
  String.ofList (replaceChars "\x7bwatch_param\x7d".toList watchParam.toList 0 text.toList)

def renderValue (watchParam : String) : Json → Json
  | .string text => .string (replaceParam text watchParam)
  | value => value

/-- `_render`; a body which is no dict is sent as it is. -/
def renderBody (watchParam : String) : Option Json → Option Json
  | some (.object fields) =>
    some (.object (fields.map fun field => (field.1, renderValue watchParam field.2)))
  | body => body

/-- `_send`.  A 2xx status confirms the call. -/
def send (http : HttpRequest → HttpExchange) (defaultMethod : String)
    (call : UpstreamCall) : Answer :=
  let url := replaceParam call.template.url call.watchParam
  if url = "" then .failed false
  else
    let method := call.template.method.filter fun method => method ≠ ""
    let credential := call.credential.filter fun credential => credential ≠ ""
    match http
        { method := (method.getD defaultMethod).toUpper
          url := url
          body := renderBody call.watchParam call.template.body
          idempotencyKey := call.idempotencyKey
          authorization := credential.map fun text => "Bearer " ++ text } with
    | .raised tookEffect => .failed tookEffect
    | .responded status tookEffect =>
      if 200 ≤ status ∧ status < 300 then .confirmed
      else .failed tookEffect

def httpUpstreamClient (http : HttpRequest → HttpExchange) : UpstreamClient where
  register := send http "POST"
  deregister := send http "DELETE"

/-! ## Reconciliation -/

structure ReconcileResult where
  added : List String
  removed : List String
  pending : List String
  pendingRemovals : List String
  registered : List String

def ReconcileResult.empty : ReconcileResult := ⟨[], [], [], [], []⟩

def ReconcileResult.converged (result : ReconcileResult) : Bool :=
  result.pending.isEmpty && result.pendingRemovals.isEmpty

/-- What `_STATE_KEY` holds. -/
structure ProvisionState where
  registered : List String
  pending : List String
  pendingRemovals : List String

/-- `_load_state`, of a store which may hold nothing yet. -/
def loadState (stored : Option ProvisionState) : ProvisionState :=
  stored.getD ⟨[], [], []⟩

structure SourceContext where
  sourceId : String
  /-- `none` if no resolver is wired; a resolver returns `none` if it raises
  or finds no text. -/
  secretsResolve : Option (String → Option String)

def resolveCredential (ctx : SourceContext) (provision : ProvisionBlock) : Option String :=
  (provision.credentialSecret.filter fun secret => secret ≠ "").bind
    fun secret =>
      match ctx.secretsResolve with
      | none => some secret
      | some resolve => resolve secret

def idempotencyKey (provision : ProvisionBlock) (sourceId : String)
    (watchParam : String) : String :=
  let field := provision.idempotencyKeyField.filter fun field => field ≠ ""
  sourceId ++ ":" ++ field.getD "key" ++ ":" ++ watchParam

def upstreamCall (ctx : SourceContext) (provision : ProvisionBlock)
    (template : CallTemplate) (watchParam : String) : UpstreamCall where
  template := template
  watchParam := watchParam
  idempotencyKey := idempotencyKey provision ctx.sourceId watchParam
  credential := resolveCredential ctx provision

def registerAnswer (ctx : SourceContext) (provision : ProvisionBlock)
    (client : UpstreamClient) (watchParam : String) : Answer :=
  client.register (upstreamCall ctx provision provision.registerCall watchParam)

def deregisterAnswer (ctx : SourceContext) (provision : ProvisionBlock)
    (client : UpstreamClient) (watchParam : String) : Answer :=
  client.deregister (upstreamCall ctx provision provision.deregisterCall watchParam)

def sorted (params : List String) : List String :=
  params.dedup.insertionSort (· ≤ ·)

def discard (params : List String) (param : String) : List String :=
  params.filter fun other => decide (other ≠ param)

@[simp] theorem mem_sorted {params : List String} {param : String} :
    param ∈ sorted params ↔ param ∈ params := by
  unfold sorted
  rw [List.mem_insertionSort, List.mem_dedup]

@[simp] theorem mem_discard {params : List String} {param other : String} :
    other ∈ discard params param ↔ other ∈ params ∧ other ≠ param := by
  simp [discard]

/-- The sets of a pass under way, its result so far, and the watches which
exist upstream. -/
structure Pass where
  registered : List String
  pending : List String
  pendingRemovals : List String
  result : ReconcileResult
  upstream : List String

def registerOne (answer : String → Answer) (pass : Pass) (param : String) :
    Pass :=
  let upstream :=
    if (answer param).tookEffect then pass.upstream.insert param
    else pass.upstream
  if (answer param).ok then
    { pass with
      registered := pass.registered.insert param
      pending := discard pass.pending param
      result := { pass.result with added := pass.result.added ++ [param] }
      upstream := upstream }
  else
    { pass with
      pending := pass.pending.insert param
      result := { pass.result with pending := pass.result.pending ++ [param] }
      upstream := upstream }

def deregisterOne (answer : String → Answer) (pass : Pass) (param : String) :
    Pass :=
  let upstream :=
    if (answer param).tookEffect then discard pass.upstream param
    else pass.upstream
  if (answer param).ok then
    { pass with
      registered := discard pass.registered param
      pendingRemovals := discard pass.pendingRemovals param
      result := { pass.result with removed := pass.result.removed ++ [param] }
      upstream := upstream }
  else
    { pass with
      pendingRemovals := pass.pendingRemovals.insert param
      result :=
        { pass.result with
          pendingRemovals := pass.result.pendingRemovals ++ [param] }
      upstream := upstream }

def ProvisionState.toAdd (state : ProvisionState) (desired : List String) : List String :=
  desired.filter (fun param => decide (param ∉ state.registered)) ++
    state.pending.filter fun param => decide (param ∈ desired)

def ProvisionState.toRemove (state : ProvisionState) (desired : List String) : List String :=
  (state.registered ++ state.pendingRemovals).filter fun param => decide (param ∉ desired)

def startPass (state : ProvisionState) (upstream : List String) : Pass where
  registered := state.registered
  pending := state.pending
  pendingRemovals := state.pendingRemovals
  result := ReconcileResult.empty
  upstream := upstream

def reconcilePass (ctx : SourceContext) (provision : ProvisionBlock)
    (desired : List String) (client : UpstreamClient) (state : ProvisionState)
    (upstream : List String) : Pass :=
  let added := (sorted (state.toAdd desired)).foldl
    (registerOne (registerAnswer ctx provision client))
    (startPass state upstream)
  (sorted (state.toRemove desired)).foldl
    (deregisterOne (deregisterAnswer ctx provision client)) added

/-- The state store of a source, the watches which exist upstream, and the
desired set and result of the last pass. -/
structure WatchState where
  stored : Option ProvisionState
  upstream : List String
  desired : List String
  result : ReconcileResult

def WatchState.start : WatchState where
  stored := none
  upstream := []
  desired := []
  result := ReconcileResult.empty

def reconcileProvision (ctx : SourceContext) (provision : ProvisionBlock)
    (desired : List String) (client : UpstreamClient) (state : WatchState) :
    WatchState :=
  if provision.enabled then
    let pass := reconcilePass ctx provision desired client (loadState state.stored) state.upstream
    { stored := some
        { registered := sorted pass.registered
          pending := sorted pass.pending
          pendingRemovals := sorted pass.pendingRemovals }
      upstream := pass.upstream
      desired := desired
      result := { pass.result with registered := sorted pass.registered } }
  else { state with desired := desired, result := ReconcileResult.empty }

def deprovisionAll (ctx : SourceContext) (provision : ProvisionBlock)
    (client : UpstreamClient) (state : WatchState) : WatchState :=
  reconcileProvision ctx provision [] client state

inductive ProvisionEvent where
  | reconcile (provision : ProvisionBlock) (desired : List String) (client : UpstreamClient)
  | deprovision (provision : ProvisionBlock) (client : UpstreamClient)

/-- `reconcile_upstream` and `deprovision_upstream` make a pass only for an
enabled block. -/
def provisionStep (ctx : SourceContext) (state : WatchState) : ProvisionEvent → Option WatchState
  | .reconcile provision desired client =>
    if provision.enabled then
      some (reconcileProvision ctx provision desired client state)
    else none
  | .deprovision provision client =>
    if provision.enabled then
      some (deprovisionAll ctx provision client state)
    else none

end Legba.Provision
