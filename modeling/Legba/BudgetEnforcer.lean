import Legba.KeyedTable
import Legba.LabelledRun
import Legba.RowOrder
import Mathlib.Algebra.Ring.Rat

/-!
# The daily token budget

The ledger accumulates tokens per analyst, version and day, the calls of a
judge under a version of their own.  Before a call the enforcer of an analyst
reads the global envelope of the day, carried over from the last day which has
one, and then the tokens used against the budget of the descriptor.

An enforcer belongs to one version of a descriptor, and a check is one step.
-/

namespace Legba.Budget

open KeyedTable LabelledRun

abbrev Bucket := ℤ

/-- `analyst_version` in the ledger: the hash of a descriptor, which never
begins with `judge:`, or a component of the judge. -/
inductive LedgerVersion where
  | descriptor (hash : String)
  | judge (componentId : String)
deriving DecidableEq

structure LedgerKey where
  analystId : String
  analystVersion : LedgerVersion
  bucket : Bucket
deriving DecidableEq

structure LedgerRow where
  tokensUsed : ℤ
  runs : ℤ

abbrev Ledger := Table LedgerKey LedgerRow

/-- `record_budget`, with the sum of the prompt, completion and reasoning
tokens. -/
def recordBudget (ledger : Ledger) (key : LedgerKey) (tokens runsIncrement : ℤ) : Ledger :=
  match ledger.row? key with
  | none => ledger.put key ⟨tokens, runsIncrement⟩
  | some row => ledger.put key ⟨row.tokensUsed + tokens, row.runs + runsIncrement⟩

/-- `COALESCE(SUM(tokens_used), 0)` over the rows whose key qualifies. -/
def tokensUsed (ledger : Ledger) (condition : LedgerKey → Bool) : ℤ :=
  ledger.sumOf fun key row => if condition key then row.tokensUsed else 0

structure EnvelopeRow where
  tokensCap : Option ℤ
  usdCap : Option ℚ
  onExceeded : String

abbrev Envelope := Table Bucket EnvelopeRow

def Envelope.previous (envelope : Envelope) (bucket : Bucket) : Option EnvelopeRow :=
  (RowOrder.firstBy (fun a b => decide (b < a))
    (envelope.keys.filter (· < bucket))).bind envelope.row?

/-- The row of the day, or the last earlier one if that has a cap; the
earlier row is then written for the day. -/
def Envelope.resolve (envelope : Envelope) (bucket : Bucket) : Envelope × Option EnvelopeRow :=
  match envelope.row? bucket with
  | some row => (envelope, some row)
  | none =>
    match envelope.previous bucket with
    | none => (envelope, none)
    | some previous =>
      if previous.tokensCap.isSome then
        (envelope.put bucket previous, some previous)
      else (envelope, none)

def Envelope.tokensCap (envelope : Envelope) (bucket : Bucket) : Option ℤ :=
  (envelope.resolve bucket).2.bind EnvelopeRow.tokensCap

inductive BudgetOutcome where
  | ok
  | throttle
  | exhausted
  | globalExhausted
deriving DecidableEq

inductive Cause where
  | perAnalyst
  | global
deriving DecidableEq

structure BudgetDecision where
  outcome : BudgetOutcome
  tokensUsedToday : ℤ
  tokensBudgetPerDay : Option ℤ
  detail : String
  cause : Option Cause
  globalTokensCap : Option ℤ
  globalTokensUsed : Option ℤ
deriving DecidableEq

structure BudgetEnforcer where
  analystId : String
  analystVersion : String
  budgetTokensPerDay : Option ℤ
deriving DecidableEq

def BudgetEnforcer.key (enforcer : BudgetEnforcer) (bucket : Bucket) :
    LedgerKey :=
  ⟨enforcer.analystId, .descriptor enforcer.analystVersion, bucket⟩

def perAnalystCheck (enforcer : BudgetEnforcer) (used estimatedTokens : ℤ)
    (globalCap : Option ℤ) (globalUsed : ℤ) (budget : ℤ) : BudgetDecision :=
  let globalTokensUsed := globalCap.map fun _ => globalUsed
  let decision : BudgetDecision :=
    { outcome := .ok
      tokensUsedToday := used
      tokensBudgetPerDay := enforcer.budgetTokensPerDay
      detail := ""
      cause := none
      globalTokensCap := globalCap
      globalTokensUsed := globalTokensUsed }
  if budget ≤ used then
    { decision with
      outcome := .exhausted
      detail := "used " ++ toString used ++ " >= budget " ++ toString budget
      cause := some .perAnalyst }
  else
    match globalCap.filter (· < globalUsed + estimatedTokens) with
    | some cap =>
      { decision with
        outcome := .throttle
        detail := "projected global used+estimate (" ++
          toString globalUsed ++ "+" ++ toString estimatedTokens ++
          ") exceeds cap " ++ toString cap
        cause := some .global }
    | none =>
      if budget < used + estimatedTokens then
        { decision with
          outcome := .throttle
          detail := "projected used+estimate (" ++ toString used ++ "+" ++
            toString estimatedTokens ++ ") exceeds budget " ++
            toString budget
          cause := some .perAnalyst }
      else decision

/-- The decision of `precall_check` on the ledger and the cap of the day. -/
def precallDecision (ledger : Ledger) (globalCap : Option ℤ)
    (enforcer : BudgetEnforcer) (estimatedTokens : ℤ) (bucket : Bucket) :
    BudgetDecision :=
  let globalUsed := tokensUsed ledger fun key => decide (key.bucket = bucket)
  match globalCap.filter (· ≤ globalUsed) with
  | some cap =>
    { outcome := .globalExhausted
      tokensUsedToday := 0
      tokensBudgetPerDay := enforcer.budgetTokensPerDay
      detail := "global envelope used " ++ toString globalUsed ++
        " >= cap " ++ toString cap
      cause := some .global
      globalTokensCap := some cap
      globalTokensUsed := some globalUsed }
  | none =>
    match enforcer.budgetTokensPerDay.filter (· ≠ 0) with
    | none =>
      { outcome := .ok
        tokensUsedToday := 0
        tokensBudgetPerDay := enforcer.budgetTokensPerDay
        detail := "no per-analyst budget configured"
        cause := none
        globalTokensCap := globalCap
        globalTokensUsed := globalCap.map fun _ => globalUsed }
    | some budget =>
      perAnalystCheck enforcer
        (tokensUsed ledger fun key => decide (key = enforcer.key bucket))
        estimatedTokens globalCap globalUsed budget

structure Commit where
  key : LedgerKey
  tokens : ℤ

structure State where
  ledger : Ledger
  envelope : Envelope
  /-- The versions descriptors have had. -/
  enforcers : List BudgetEnforcer
  commits : List Commit

def initial : State := ⟨Table.empty, Table.empty, [], []⟩

inductive Event where
  | edit (enforcer : BudgetEnforcer)
  | record (enforcer : BudgetEnforcer) (bucket : Bucket) (tokens runsIncrement : ℤ)
  | recordJudge (analystId componentId : String) (bucket : Bucket) (tokens calls : ℤ)
  | setEnvelope (bucket : Bucket) (row : EnvelopeRow)
  | check (enforcer : BudgetEnforcer) (estimatedTokens : ℤ) (bucket : Bucket)

def State.commit (state : State) (key : LedgerKey) (tokens runsIncrement : ℤ) : State :=
  { state with
    ledger := recordBudget state.ledger key tokens runsIncrement
    commits := state.commits ++ [⟨key, tokens⟩] }

/-- `precall_check`, with the row it may write. -/
def State.precallCheck (state : State) (enforcer : BudgetEnforcer)
    (estimatedTokens : ℤ) (bucket : Bucket) : State × BudgetDecision :=
  ({ state with envelope := (state.envelope.resolve bucket).1 },
    precallDecision state.ledger (state.envelope.tokensCap bucket) enforcer estimatedTokens bucket)

def step (state : State) : Event → Option State
  | .edit enforcer => some { state with enforcers := state.enforcers ++ [enforcer] }
  | .record enforcer bucket tokens runsIncrement =>
    if enforcer ∈ state.enforcers then
      some (state.commit (enforcer.key bucket) tokens runsIncrement)
    else none
  | .recordJudge analystId componentId bucket tokens calls =>
    some (state.commit ⟨analystId, .judge componentId, bucket⟩ tokens calls)
  | .setEnvelope bucket row => some { state with envelope := state.envelope.put bucket row }
  | .check enforcer estimatedTokens bucket =>
    if enforcer ∈ state.enforcers then
      some (state.precallCheck enforcer estimatedTokens bucket).1
    else none

end Legba.Budget
