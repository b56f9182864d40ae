import Legba.KeyedTable
import Legba.SignalRow

/-!
# Findings and their successors

The rows of `analyst_outputs` which supersession reads and writes, and the
audit table of its links.  A link is written by two statements: the audit row,
which a repetition leaves alone, and the pointer of the superseded row.
-/

namespace Legba.Findings

open JsonValue KeyedTable Table

structure OutputRow where
  isFinding : Bool
  analystId : Option String
  producedAt : Datetime
  data : Json
  situationSignature : Option String
  supersededBy : Option Uuid

abbrev Outputs := Table Uuid OutputRow

/-- A row of `finding_supersessions`. -/
structure SupersessionLink where
  supersededId : Uuid
  supersedingId : Uuid
  situationSignature : String
  reason : String
deriving DecidableEq

structure Tables where
  outputs : Outputs
  links : List SupersessionLink

def Tables.successor (tables : Tables) (id : Uuid) : Option Uuid :=
  (tables.outputs.row? id).bind OutputRow.supersededBy

/-- `value -> key`. -/
def member (value : Json) (key : String) : Option Json :=
  match value with
  | .object fields => field? fields key
  | _ => none

/-- `value ->> key`. -/
def memberText (value : Json) (key : String) : Option String :=
  (member value key).bind Json.asText

/-- `ON CONFLICT (superseded_finding_id, superseding_finding_id) DO NOTHING`. -/
def insertLink (tables : Tables) (link : SupersessionLink) : Tables :=
  if tables.links.any fun other =>
      decide (other.supersededId = link.supersededId) &&
        decide (other.supersedingId = link.supersedingId) then tables
  else { tables with links := tables.links ++ [link] }

def stampSuperseded (tables : Tables) (link : SupersessionLink) : Tables :=
  { tables with
    outputs := tables.outputs.update link.supersededId fun row =>
      { row with
        supersededBy := some link.supersedingId
        situationSignature := some link.situationSignature } }

def linkSupersession (tables : Tables) (link : SupersessionLink) : Tables :=
  stampSuperseded (insertLink tables link) link

/-- `SET situation_signature = $2`, where it is distinct. -/
def stampSignature (tables : Tables) (id : Uuid) (signature : String) :
    Tables :=
  { tables with
    outputs := tables.outputs.update id fun row =>
      { row with situationSignature := some signature } }

section

variable {tables : Tables}

@[simp] theorem outputs_insertLink (link : SupersessionLink) :
    (insertLink tables link).outputs = tables.outputs := by
  unfold insertLink
  split <;> rfl

theorem successor_of_outputs {other : Tables} (hsame : other.outputs = tables.outputs) :
    other.successor = tables.successor := by
  funext id
  rw [Tables.successor, hsame, Tables.successor]

theorem successor_put (id : Uuid) (row : OutputRow) (other : Uuid) :
    ({ tables with outputs := tables.outputs.put id row } : Tables).successor other =
      if other = id then row.supersededBy else tables.successor other := by
  unfold Tables.successor
  split
  · next heq =>
    subst heq
    rw [row?_put_self, Option.bind_some]
  · next hne => rw [row?_put_of_ne _ hne]

theorem row?_stampSuperseded (link : SupersessionLink) (id : Uuid) :
    (stampSuperseded tables link).outputs.row? id =
      if id = link.supersededId then
        (tables.outputs.row? id).map fun row =>
          { row with
            supersededBy := some link.supersedingId
            situationSignature := some link.situationSignature }
      else tables.outputs.row? id := by
  split
  · next heq =>
    subst heq
    exact row?_update_self _ _ _
  · next hne => exact row?_update_of_ne _ hne _

theorem row?_stampSignature (id : Uuid) (signature : String) (other : Uuid) :
    (stampSignature tables id signature).outputs.row? other =
      if other = id then
        (tables.outputs.row? other).map fun row => { row with situationSignature := some signature }
      else tables.outputs.row? other := by
  split
  · next heq =>
    subst heq
    exact row?_update_self _ _ _
  · next hne => exact row?_update_of_ne _ hne _

end

end Legba.Findings
