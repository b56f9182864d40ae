import Legba.AnalystOutputs
import Legba.LabelledRun
import Legba.PointerForest

/-!
# Folding the heads of a composition

A composition analyst inserts the head it has produced and folds the prior
heads: it stamps the signature of the new head, selects the other open heads
of the analyst and signature, and closes each of them by an audit row and a
pointer to the new head.  The pointer is set whatever has become of the head
since it was selected.

Any number of writers of one analyst and signature run at once, and their
statements interleave.
-/

namespace Legba.Findings

open JsonValue KeyedTable LabelledRun PointerForest

def compositionRawSigPrefix : String := "composition:"

def compositionSigColumnPrefix : String := "sit:"

/-- `COALESCE(data->'data'->>'situation_signature',
data->>'situation_signature')`. -/
def rawSignature (data : Json) : Option String :=
  match (member data "data").bind fun inner =>
      memberText inner "situation_signature" with
  | some signature => some signature
  | none => memberText data "situation_signature"

/-- What `fold_prior_composition_heads` asks of its arguments. -/
def foldApplies (analystId rawSignature : Option String) : Bool :=
  analystId.any (fun analyst => decide (analyst ≠ "")) &&
    rawSignature.any fun signature => compositionRawSigPrefix.toList.isPrefixOf signature.toList

structure HeadKey where
  analystId : String
  rawSignature : String
  applies : foldApplies (some analystId) (some rawSignature) = true

def HeadKey.columnSig (key : HeadKey) : String :=
  compositionSigColumnPrefix ++ key.rawSignature

def HeadKey.isOpenHead (key : HeadKey) (row : OutputRow) : Bool :=
  decide (row.analystId = some key.analystId) && row.isFinding &&
    decide (row.supersededBy = none) &&
    decide (Findings.rawSignature row.data = some key.rawSignature)

def HeadKey.priorHeads (key : HeadKey) (outputs : Outputs) (newHeadId : Uuid) : List Uuid :=
  (outputs.selectMatching fun id row => key.isOpenHead row && decide (id ≠ newHeadId)).map Prod.fst

def HeadKey.link (key : HeadKey) (prior newHeadId : Uuid) : SupersessionLink where
  supersededId := prior
  supersedingId := newHeadId
  situationSignature := key.columnSig
  reason := "composition head supersession (FU6)"

/-- The statement a writer comes to next; the first of the heads it has
selected is the one it is closing. -/
inductive WriterPhase where
  | absent
  | stamp
  | select
  | audit (prior : List Uuid)
  | close (prior : List Uuid)
  | finished
deriving DecidableEq

def WriterPhase.prior : WriterPhase → List Uuid
  | .audit prior => prior
  | .close prior => prior
  | _ => []

def WriterPhase.closeNext (prior : List Uuid) : WriterPhase :=
  if prior = [] then .finished else .audit prior

structure FoldState where
  tables : Tables
  phase : Uuid → WriterPhase

def FoldState.start (tables : Tables) : FoldState := ⟨tables, fun _ => .absent⟩

def FoldState.move (state : FoldState) (writer : Uuid) (tables : Tables)
    (phase : WriterPhase) : FoldState :=
  ⟨tables, Function.update state.phase writer phase⟩

inductive FoldEvent where
  | insert (head : Uuid) (row : OutputRow)
  | statement (writer : Uuid)

def foldStep (key : HeadKey) (state : FoldState) : FoldEvent → Option FoldState
  | .insert head row =>
    match state.tables.outputs.row? head with
    | some _ => none
    | none =>
      if key.isOpenHead row then
        some (state.move head
          { state.tables with
            outputs := state.tables.outputs.put head row } .stamp)
      else none
  | .statement writer =>
    match state.phase writer with
    | .stamp =>
      if foldApplies (some key.analystId) (some key.rawSignature) then
        some (state.move writer (stampSignature state.tables writer key.columnSig) .select)
      else some (state.move writer state.tables .finished)
    | .select =>
      some (state.move writer state.tables
        (.closeNext (key.priorHeads state.tables.outputs writer)))
    | .audit (head :: rest) =>
      some (state.move writer
        (insertLink state.tables (key.link head writer))
        (.close (head :: rest)))
    | .close (head :: rest) =>
      some (state.move writer
        (stampSuperseded state.tables (key.link head writer))
        (.closeNext rest))
    | _ => none

def FoldState.IsHead (state : FoldState) (id : Uuid) : Prop :=
  state.phase id ≠ .absent

def FoldState.successor (state : FoldState) (id : Uuid) : Option Uuid :=
  state.tables.successor id

def FoldState.pointer (state : FoldState) (id : Uuid) : Option Uuid :=
  if state.phase id = .absent then none else state.successor id

def FoldState.Finished (state : FoldState) : Prop :=
  ∀ id, state.IsHead id → state.phase id = .finished

/-- The pointers of the heads have no cycle, and when all writers have
finished, exactly one head is open. -/
structure FoldState.OneSurvivor (state : FoldState) : Prop where
  acyclic : Acyclic state.pointer
  survivor : state.Finished → (∃ id, state.IsHead id) →
    ∃! id, state.IsHead id ∧ state.successor id = none

def ClosesNoPredecessor (state : FoldState) : FoldEvent → FoldState → Prop
  | .statement writer, _ =>
    ∀ head rest, state.phase writer = .close (head :: rest) → ¬Reaches state.pointer writer head
  | _, _ => True

end Legba.Findings
