import Legba.LabelledRun
import Legba.SourcePoll

/-!
# The inbound webhook drain

A webhook envelope is queued, and the drain takes it off the queue: it resolves
the handler, builds the signals of the body, writes and publishes each of them,
and acknowledges the envelope.  The drain may crash between any two of these
steps, after which the envelope is delivered again.

A run records which envelope inserted which row, and the rows whose delivery
crashed before they were published.
-/

namespace Legba.Sources

open JsonValue

structure Envelope where
  sourceId : String
  body : String
  /-- The `x-webhook-token` header. -/
  token : Option String

structure Codec where
  loads : String → Option Json
  contentHash : Json → String
  deterministicSignalId : String → String → Uuid
  /-- `str` of a payload value. -/
  text : Json → String

structure WebhookConfig where
  sharedSecret : Option String
  idField : String
  urlField : String

structure WebhookHandler where
  source : Source
  config : WebhookConfig

def WebhookConfig.verifyToken (config : WebhookConfig) (token : Option String) : Bool :=
  match config.sharedSecret with
  | none => true
  | some secret => secret = "" || decide (token.getD "" = secret)

def Codec.parseBody (codec : Codec) (body : String) : Option (List (String × Json)) :=
  if body = "" then none
  else
    match codec.loads body with
    | some (.object payload) => some payload
    | _ => none

def payloadStr (codec : Codec) (payload : List (String × Json)) (key : String) : String :=
  match field? payload key with
  | some .null => ""
  | some value => codec.text value
  | none => ""

def firstText (codec : Codec) (payload : List (String × Json)) : List String → String
  | [] => ""
  | key :: rest =>
    if payloadStr codec payload key = "" then firstText codec payload rest
    else payloadStr codec payload key

def buildSignal (codec : Codec) (config : WebhookConfig) (sourceId : String)
    (fetchedAt : Datetime) (payload : List (String × Json)) : Signal :=
  let contentHash := codec.contentHash (Json.object payload).sortKeys
  { signalId := codec.deterministicSignalId sourceId contentHash
    sourceId := sourceId
    ownerTenant := "default"
    fetchedAt := fetchedAt
    externalId := payloadStr codec payload config.idField
    publishedAt := none
    canonicalUrl := (field? payload config.urlField).bind Json.string?
    payloadUrl := firstText codec payload ["url", "link", "source_url"]
    contentHash := contentHash
    canonicalSignalId := none }

/-- `ingest`; it raises on a wrong token or a body which is no object. -/
def WebhookHandler.ingest (handler : WebhookHandler) (codec : Codec)
    (fetchedAt : Datetime) (envelope : Envelope) : Option (List Signal) :=
  if handler.config.verifyToken envelope.token then
    (codec.parseBody envelope.body).map fun payload =>
      [buildSignal codec handler.config envelope.sourceId fetchedAt payload]
  else none

/-! ## The queue and the drain -/

/-- An envelope on the stream, `none` if its bytes do not decode. -/
structure Letter where
  message : Option Envelope
  delivered : ℕ
  acked : Bool
  terminated : Bool

def maxDeliver : ℕ := 5

def Letter.ack (letter : Letter) : Letter := { letter with acked := true }

def Letter.term (letter : Letter) : Letter :=
  { letter with terminated := true }

def Letter.nakOrTerm (letter : Letter) : Letter :=
  if maxDeliver ≤ letter.delivered then letter.term else letter

/-- How far `_handle_message` has come. -/
inductive Stage where
  | received
  | emitting (source : Source) (pending : List Signal)
  | written (id : Uuid) (source : Source) (pending : List Signal)

structure Delivery where
  index : ℕ
  stage : Stage

structure DrainState where
  letters : List Letter
  current : Option Delivery
  plane : Plane
  inserted : List (ℕ × Uuid)
  torn : List (ℕ × Uuid)

def DrainState.start (tables : Tables) : DrainState where
  letters := []
  current := none
  plane := ⟨tables, []⟩
  inserted := []
  torn := []

inductive DrainEvent where
  | accept (message : Option Envelope)
  | deliver (index : ℕ)
  | ingest (router : String → Option WebhookHandler) (fetchedAt : Datetime)
  | process (turn : EntryTurn) (baseline : Signal → BaselineResult)
  | publish
  | ack (kept : Bool)
  | crash

def DrainState.settle (state : DrainState) (index : ℕ) (change : Letter → Letter) : DrainState :=
  { state with
    letters := state.letters.modify index change
    current := none }

def DrainState.at (state : DrainState) (index : ℕ) (stage : Stage) :
    DrainState :=
  { state with current := some ⟨index, stage⟩ }

/-- The rest of `_handle_message` for a letter on the stream. -/
def ingestLetter (codec : Codec) (router : String → Option WebhookHandler)
    (fetchedAt : Datetime) (state : DrainState) (index : ℕ)
    (letter : Letter) : DrainState :=
  match letter.message with
  | none => state.settle index Letter.term
  | some envelope =>
    match router envelope.sourceId with
    | none => state.settle index Letter.nakOrTerm
    | some handler =>
      match handler.ingest codec fetchedAt envelope with
      | none => state.settle index Letter.term
      | some signals => state.at index (.emitting handler.source signals)

/-- `_emit` of one signal up to its publication. -/
def emitSignal (hashing : Hashing) (turn : EntryTurn) (state : DrainState)
    (index : ℕ) (source : Source) (rest : List Signal) : DrainState :=
  let result := processOne hashing source turn state.plane.tables
  let after := { state with plane := { state.plane with tables := result.1 } }
  match result.2 with
  | .written id =>
    { after.at index (.written id source rest) with
      inserted := state.inserted ++ [(index, id)] }
  | .raised _ => after.settle index Letter.nakOrTerm
  | _ => after.at index (.emitting source rest)

def DrainState.crash (state : DrainState) : DrainState :=
  { state with
    current := none
    torn :=
      match state.current with
      | some ⟨index, .written id _ _⟩ => state.torn ++ [(index, id)]
      | _ => state.torn }

def drainStep (hashing : Hashing) (codec : Codec) (state : DrainState) :
    DrainEvent → Option DrainState
  | .accept message => some { state with letters := state.letters ++ [⟨message, 0, false, false⟩] }
  | .deliver index =>
    match state.current, state.letters[index]? with
    | none, some letter =>
      if letter.acked || letter.terminated then none
      else
        some { state with
          letters := state.letters.modify index fun letter =>
            { letter with delivered := letter.delivered + 1 }
          current := some ⟨index, .received⟩ }
    | _, _ => none
  | .ingest router fetchedAt =>
    match state.current with
    | some ⟨index, .received⟩ =>
      state.letters[index]?.map (ingestLetter codec router fetchedAt state index)
    | _ => none
  | .process turn baseline =>
    match state.current with
    | some ⟨index, .emitting source (raw :: rest)⟩ =>
      some (emitSignal hashing { turn with baseline := baseline raw } state index source rest)
    | _ => none
  | .publish =>
    match state.current with
    | some ⟨index, .written id source rest⟩ =>
      some { state.at index (.emitting source rest) with
        plane := { state.plane with
          published := state.plane.published ++ [id] } }
    | _ => none
  | .ack kept =>
    match state.current with
    | some ⟨index, .emitting _ []⟩ => some (state.settle index (if kept then Letter.ack else id))
    | _ => none
  | .crash => some state.crash

end Legba.Sources
