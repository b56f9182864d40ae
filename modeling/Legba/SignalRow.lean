import Mathlib.Data.Rat.Init
import Legba.Datetime
import Legba.JsonValue

/-!
# A row of the signals pool

The part of a `signals` row that the subscription and trigger planes read.
The same record stands for a row fetched from the pool and for a published
envelope, where every column may be absent.
-/

namespace Legba

open JsonValue

abbrev Uuid := BitVec 128

instance : LawfulBEq Uuid := inferInstance

/-- `none` is SQL `NULL` and Python `None`. -/
structure SignalRow where
  id : Option Uuid := none
  sourceId : Option String := none
  ownerTenant : Option String := none
  fetchedAt : Option Datetime := none
  modality : Option String := none
  language : Option String := none
  geo : Option (List (Option String)) := none
  tags : Option (List (Option String)) := none
  entityClasses : Option (List (Option String)) := none
  sourceCredibility : Option ℚ := none
  canonicalSignalId : Option Uuid := none
  payload : List (String × Json) := []
  severity : Option String := none
  originClass : Option String := none

end Legba
