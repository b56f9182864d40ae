import Legba.FindingSignature
import Legba.KeyGroups
import Legba.SituationTrajectory
import Mathlib.Data.Rat.Floor

/-!
# The split of the mega-frames

An open frame with an undimensioned signature is split by the dimensions of
its members.  One dimension, the keeper, takes over the row; every other one
becomes a new row.  Both writes belong to one statement and read the table as
it was before: a new row is skipped when its key is taken, and the row of the
frame stays as it is when the key of the keeper is taken.
-/

namespace Legba.Situations

open Findings JsonValue RowOrder

/-- A row of `analyst_outputs`, as far as the split reads it. -/
structure MemberOutput where
  analystId : Option String
  producedAt : Datetime
  title : Option String

/-- `data.split_from`. -/
structure SplitMark where
  parentSituationId : Uuid
  parentSignature : Option String
  parentMemberCount : ℕ
  splitShare : ℚ
  dimension : String
  keptLedger : Bool
  deriving DecidableEq

/-- `data`.  `evidenceClock` are the keys about the clock of the frame's own
evidence, and `rest` the keys which the split carries along. -/
structure FrameData where
  situationSignature : Option String
  memberFindingIds : List (Option Uuid)
  dimension : Option String := none
  trajectoryParentId : Option Uuid := none
  splitFrom : Option SplitMark := none
  evidenceClock : List (String × String) := []
  rest : List (String × String) := []
  deriving DecidableEq

structure FrameOrigin where
  targetId : Option String := none
  targetVersion : Option String := none
  analystVersion : Option String := none
  schemaUri : String := ""
  runId : Option Uuid := none
  deriving DecidableEq

/-- A row of `situations`.  `derivedFrom` are its members. -/
structure Frame where
  id : Uuid
  signature : Option String
  analystId : Option String
  derivedFrom : List (Option Uuid)
  intensity : ℚ
  status : String
  supersededBy : Option Uuid := none
  name : String
  category : String := ""
  eventCount : ℕ := 0
  lastEventAt : Option Datetime := none
  validFrom : Option Datetime := none
  validUntil : Option Datetime := none
  origin : FrameOrigin := {}
  data : FrameData
  producedAt : Datetime
  updatedAt : Datetime
  deriving DecidableEq

/-- The table with its primary key and `uq_situations_signature_analyst`. -/
structure Frames where
  rows : List Frame
  distinct : (rows.map Frame.id).Nodup
  unique : ∀ a ∈ rows, ∀ b ∈ rows, a.signature.isSome = true →
    a.analystId.isSome = true → a.signature = b.signature →
    a.analystId = b.analystId → a = b

/-- What the statement reads besides the frames: the outputs, the ledger, the
clock, `lower` and the order of `text`. -/
structure SplitRead where
  outputs : Uuid → Option MemberOutput
  ledger : Ledger
  now : Datetime
  lower : String → String
  collates : String → String → Bool

def btrim (chars : List Char) (text : String) : String :=
  String.ofList
    ((text.toList.dropWhile chars.contains).reverse.dropWhile
      chars.contains).reverse

def blanks : List Char :=
  [' ', '\t', '\n', '\r', Char.ofNat 12, Char.ofNat 11]

def underscored (c : Char) : Char :=
  if c = '#' then '_' else if c = '|' then '_' else c

/-- `open` frames on the signature from before the dimensions. -/
def Frame.isLegacy (frame : Frame) : Bool :=
  frame.signature.any (fun signature =>
    startsWith signature "sig:" && !includes signature dimensionMarker) &&
  frame.supersededBy.isNone && frame.status != "closed" &&
  !frame.derivedFrom.isEmpty

def Frame.dimensioned (frame : Frame) (dim : String) : Option String :=
  frame.signature.map fun signature => signature ++ (dimensionMarker ++ dim)

section

variable (read : SplitRead)

def sqlDimension (analystId : Option String) : String :=
  let token := btrim blanks (analystId.getD "")
  if token = "" then unattributedDimension
  else String.ofList (((read.lower token).toList.map underscored).take dimensionMaxChars)

def memberOutput (member : Option Uuid) : Option MemberOutput :=
  member.bind read.outputs

def memberDimension (member : Option Uuid) : String :=
  sqlDimension read ((memberOutput read member).bind MemberOutput.analystId)

def dimensions (frame : Frame) : List String :=
  (frame.derivedFrom.map (memberDimension read)).dedup

/-- `member_ids` -/
def bucket (frame : Frame) (dim : String) : List (Option Uuid) :=
  frame.derivedFrom.filter fun member => memberDimension read member == dim

def newestAt (frame : Frame) (dim : String) : Option Datetime :=
  ((bucket read frame dim).filterMap fun member =>
    (memberOutput read member).map MemberOutput.producedAt).max?

def newestTitle (frame : Frame) (dim : String) : Option String :=
  let titled := (bucket read frame dim).filterMap fun member =>
    member.bind fun id => (read.outputs id).bind fun output =>
      output.title.map fun title => (output.producedAt, id, title)
  (firstBy (greaterThen Prod.fst (greater fun row => row.2.1.toNat)) titled).map fun row => row.2.2

def citedCount (frame : Frame) (dim : String) : ℕ :=
  (((rowsOf read.ledger frame.id).filter fun row =>
      row.event.delta != .unchangedCheckpoint).flatMap fun row =>
    row.event.derivedFrom.map fun cited => (bucket read frame dim).count (some cited)).sum

def keeper (frame : Frame) : Option String :=
  firstBy
    (greaterThen (citedCount read frame)
      (greaterThen (fun dim => (bucket read frame dim).length) read.collates))
    (dimensions read frame)

def share (frame : Frame) (dim : String) : ℚ :=
  ((bucket read frame dim).length : ℚ) / (frame.derivedFrom.length : ℚ)

/-- `round(…, 6)` -/
def round6 (x : ℚ) : ℚ :=
  (⌊x * 1000000 + 1 / 2⌋ : ℚ) / 1000000

def splitMark (frame : Frame) (dim : String) (keptLedger : Bool) : SplitMark where
  parentSituationId := frame.id
  parentSignature := frame.signature
  parentMemberCount := frame.derivedFrom.length
  splitShare := round6 (share read frame dim)
  dimension := dim
  keptLedger := keptLedger

def splitName (frame : Frame) (dim : String) : String :=
  let title := btrim [' '] ((newestTitle read frame dim).getD "")
  String.ofList ((if title = "" then frame.name else title).toList.take 512)

def splitCategory (frame : Frame) : String :=
  btrim [' '] (String.ofList (((frame.signature.getD "").toList.drop 4).takeWhile (· ≠ '|')))

def childRow (id : Uuid) (frame : Frame) (dim : String) : Frame where
  id := id
  signature := frame.dimensioned dim
  analystId := frame.analystId
  derivedFrom := bucket read frame dim
  intensity := frame.intensity * (bucket read frame dim).length /
    frame.derivedFrom.length
  status := frame.status
  name := splitName read frame dim
  category := splitCategory frame
  eventCount := (bucket read frame dim).length
  lastEventAt := (newestAt read frame dim).or frame.lastEventAt
  validFrom := frame.validFrom
  validUntil := frame.validUntil
  origin := frame.origin
  data :=
    { frame.data with
      situationSignature := frame.dimensioned dim
      memberFindingIds := bucket read frame dim
      dimension := some dim
      trajectoryParentId := some frame.id
      splitFrom := some (splitMark read frame dim false)
      evidenceClock := [] }
  producedAt := read.now
  updatedAt := read.now

def rekeyedRow (frame : Frame) (dim : String) : Frame :=
  { frame with
    signature := frame.dimensioned dim
    derivedFrom := bucket read frame dim
    eventCount := (bucket read frame dim).length
    intensity := frame.intensity * (bucket read frame dim).length /
      frame.derivedFrom.length
    name := splitName read frame dim
    lastEventAt := (newestAt read frame dim).or frame.lastEventAt
    data :=
      { frame.data with
        situationSignature := frame.dimensioned dim
        memberFindingIds := bucket read frame dim
        dimension := some dim
        splitFrom := some (splitMark read frame dim true) }
    updatedAt := read.now }

/-- The guard of the `UPDATE`: another row has the key. -/
def keyTaken (rows : List Frame) (frame : Frame) (dim : String) : Bool :=
  rows.any fun other => decide (other.signature = frame.dimensioned dim) &&
    decide (other.analystId = frame.analystId) && decide (other.id ≠ frame.id)

def rekey (rows : List Frame) (frame : Frame) : Frame :=
  if frame.isLegacy then
    match keeper read frame with
    | none => frame
    | some dim =>
      if keyTaken rows frame dim then frame else rekeyedRow read frame dim
  else frame

/-- The arbiter of the `INSERT`; a null never conflicts. -/
def conflicts (rows : List Frame) (frame : Frame) : Bool :=
  frame.signature.isSome && frame.analystId.isSome &&
    rows.any fun other => decide (other.signature = frame.signature) &&
      decide (other.analystId = frame.analystId)

/-- The rows which `INSERT … ON CONFLICT DO NOTHING` adds. -/
def inserted : List Frame → List Frame → List Frame
  | _, [] => []
  | rows, frame :: rest =>
    if conflicts rows frame then inserted rows rest
    else frame :: inserted (rows ++ [frame]) rest

def otherDimensions (frame : Frame) : List String :=
  (dimensions read frame).filter fun dim => keeper read frame ≠ some dim

def children (draw : Uuid → String → Uuid) (rows : List Frame) : List Frame :=
  (rows.filter Frame.isLegacy).flatMap fun frame =>
    (otherDimensions read frame).map fun dim => childRow read (draw frame.id dim) frame dim

def splitMegaFrames (draw : Uuid → String → Uuid) (rows : List Frame) : List Frame :=
  rows.map (rekey read rows) ++ inserted rows (children read draw rows)

end

structure Draws (rows : List Frame) where
  draw : Uuid → String → Uuid
  fresh : ∀ parent dim, draw parent dim ∉ rows.map Frame.id

/-- The rows of the frame after the statement: its own, and the new ones which
name it as their parent. -/
def heirs (before after : List Frame) (frame : Frame) : List Frame :=
  after.filter fun row => decide (row.id = frame.id) ||
    (decide (row.data.trajectoryParentId = some frame.id) && !(before.map Frame.id).contains row.id)

/-- The rows share the members and the intensity of the frame, and exactly one
of them, under a dimensioned key, has the id which the ledger rows name. -/
structure SplitsInto (frame : Frame) (rows : List Frame) : Prop where
  members : (rows.flatMap Frame.derivedFrom).Perm frame.derivedFrom
  intensity : (rows.map Frame.intensity).sum = frame.intensity
  keptLedger : ∃ row dim, (rows.filter fun other => other.id = frame.id) =
    [row] ∧ row.signature = frame.dimensioned dim

def Conserved (before after : List Frame) (frame : Frame) : Prop :=
  heirs before after frame = [frame] ∨ SplitsInto frame (heirs before after frame)

/-- A statement which conserves every legacy frame, and whose second run, at
any later time, changes nothing. -/
structure SplitConserves (read : SplitRead) (table : Frames) (draws : Draws table.rows) : Prop where
  conserved : ∀ frame ∈ table.rows, frame.isLegacy = true →
    Conserved table.rows (splitMegaFrames read draws.draw table.rows) frame
  idempotent : ∀ now draw,
    splitMegaFrames { read with now := now } draw (splitMegaFrames read draws.draw table.rows) =
      splitMegaFrames read draws.draw table.rows

/-- None of the keys of the frame's dimensions is taken by another row, or all
are.  Without an analyst no new row is ever skipped, so the keeper's key must
be free if there is any other dimension. -/
def KeysAgree (read : SplitRead) (rows : List Frame) (frame : Frame) : Prop :=
  (frame.analystId.isSome = true →
    (∀ dim ∈ dimensions read frame, keyTaken rows frame dim = false) ∨
      ∀ dim ∈ dimensions read frame, keyTaken rows frame dim = true) ∧
  (frame.analystId = none → ∀ kept, keeper read frame = some kept →
    keyTaken rows frame kept = false ∨ otherDimensions read frame = [])

end Legba.Situations
