import Legba.Datetime
import Legba.RowOrder
import Mathlib.Algebra.Order.Field.Rat
import Mathlib.Data.String.Basic

/-!
# The latest faithfulness verdict on a finding

A finding and the critiques of it are rows of one table.  A read which folds
the verdicts into its findings takes, for each finding, the newest scored
critique whose title marks it as the faithfulness verify pass.
-/

namespace Legba.CriticFold

open RowOrder

/-- The columns and data keys of an `analyst_outputs` row which the folds and
their callers read.  `overallScore` is the score as its cast reads it. -/
structure AnalystRow where
  id : String
  kind : String
  analystId : Option String
  targetId : Option String := none
  title : Option String := none
  confidence : Option ℚ := none
  severity : Option String := none
  tags : List String := []
  producedAt : Datetime
  supersededBy : Option String := none
  analyzedOutputId : Option String := none
  overallScore : Option ℚ := none
  deriving DecidableEq

def faithfulnessTitle : String := "Faithfulness verify"

/-- `title LIKE 'Faithfulness verify%'` -/
def AnalystRow.titledFaithfulness (row : AnalystRow) : Bool :=
  row.title.any fun title => faithfulnessTitle.toList.isPrefixOf title.toList

def AnalystRow.isVerdictOn (findingId : String) (row : AnalystRow) : Bool :=
  row.kind == "critique" && row.overallScore.isSome &&
    row.titledFaithfulness && row.analyzedOutputId == some findingId

/-- `ORDER BY produced_at DESC, id DESC` -/
def newestFirst : AnalystRow → AnalystRow → Bool :=
  greaterThen AnalystRow.producedAt (greater AnalystRow.id)

/-- `faithfulness_score_cte` at one finding. -/
def latestVerdict (rows : List AnalystRow) (findingId : String) : Option ℚ :=
  (firstBy newestFirst (rows.filter (AnalystRow.isVerdictOn findingId))).bind
    AnalystRow.overallScore

/-- `LEAST(confidence, faithfulness_score)` of a verified finding. -/
def leastConfidence (confidence : Option ℚ) (score : ℚ) : ℚ :=
  match confidence with
  | none => score
  | some own => min own score

def meetsFloor (rows : List AnalystRow) (floor : ℚ) (row : AnalystRow) : Bool :=
  (latestVerdict rows row.id).any fun score => decide (floor ≤ leastConfidence row.confidence score)

end Legba.CriticFold
