import Legba.EntityCanon
import Legba.KeyedTable
import Legba.LabelledRun
import Legba.RowOrder

/-!
# Resolution of mentions to profiles

`_resolve_batch` links each mention of a signal to a profile.  A mention whose
identity fold was resolved before in the batch takes the cached row.  Any other
mention goes down a ladder of lookups, may change the class of the row elected,
and is written by an upsert on the name and the class.
-/

namespace Legba.EntityResolution

open KeyedTable

inductive GcStatus where
  | active
  | dormant
  | merged
  | junk
  deriving DecidableEq, Repr

structure Identity where
  canonicalName : String
  entityClass : String
  gcStatus : Option GcStatus
  mergedInto : Option Uuid
  mergedAliases : List String
  createdAt : Datetime
  deriving DecidableEq, Repr

structure Profile where
  identity : Identity
  lastEventLinkAt : Option Datetime
  derivedFrom : List Uuid
  deriving DecidableEq, Repr

abbrev Profiles := Table Uuid Profile

abbrev Identities := List (Uuid × Identity)

def identities (profiles : Profiles) : Identities :=
  profiles.keys.filterMap fun id => (profiles.row? id).map fun row => (id, row.identity)

def Identity.retired (row : Identity) : Bool :=
  row.gcStatus = some .merged || row.gcStatus = some .junk

/-- What a mention meets at the database: the id a new row would get, the time,
the order among rows which the query does not order, and whether the
transliteration probe fails. -/
structure Draw where
  newId : Uuid
  now : Datetime
  prefer : Uuid → ℕ
  probeFails : Bool

/-- A mention of a signal; `opens` marks the signal's first one. -/
structure Encounter where
  signal : Uuid
  opens : Bool
  draw : Draw
  mention : Mention

/-- `ORDER BY` class priority, `created_at` -/
def electedBefore (prefer : Uuid → ℕ) (a b : Uuid × Identity) : Bool :=
  let left := classPriority a.2.entityClass
  let right := classPriority b.2.entityClass
  left < right || left = right && (a.2.createdAt < b.2.createdAt ||
    a.2.createdAt = b.2.createdAt && prefer a.1 < prefer b.1)

/-- `ORDER BY` `created_at`, `id` -/
def olderBefore (a b : Uuid × Identity) : Bool :=
  a.2.createdAt < b.2.createdAt || a.2.createdAt = b.2.createdAt && a.1 < b.1

def sameName (canon : Canon) (left right : String) : Bool :=
  canon.lower left = canon.lower right

def exactLookup (canon : Canon) (rows : Identities) (draw : Draw)
    (text : String) : Option (Uuid × Identity) :=
  RowOrder.firstBy (electedBefore draw.prefer) <| rows.filter fun row =>
    !row.2.retired && sameName canon row.2.canonicalName text

def fallbackLookup (canon : Canon) (rows : Identities) (draw : Draw)
    (text : String) : Option (Uuid × Identity) :=
  let probe := lookupKey canon text
  if probe = "" then none
  else
    RowOrder.firstBy (electedBefore draw.prefer) <| rows.filter fun row =>
      !row.2.retired && (storedKey canon row.2.canonicalName = probe ||
        row.2.mergedAliases.any fun name => storedKey canon name = probe)

/-- `_probe_transliteration_variant` -/
def transliterationLookup (canon : Canon) (rows : Identities) (draw : Draw)
    (text cls : String) : Option (Uuid × Identity) :=
  if cls ≠ "person" || draw.probeFails then none
  else
    match RowOrder.firstBy olderBefore <| rows.filter fun row =>
      row.2.entityClass = "person" && row.2.mergedInto.isNone &&
        !row.2.retired && canon.soundsLike row.2.canonicalName text with
    | none => none
    | some row =>
      if canon.differsByDirection row.2.canonicalName text then none
      else some row

structure Elected where
  id : Uuid
  row : Identity
  viaFallback : Bool
  deriving DecidableEq, Repr

def preLookup (canon : Canon) (rows : Identities) (draw : Draw)
    (mention : Mention) : Option Elected :=
  match exactLookup canon rows draw mention.text with
  | some row => some ⟨row.1, row.2, false⟩
  | none =>
    match fallbackLookup canon rows draw mention.text with
    | some row => some ⟨row.1, row.2, true⟩
    | none =>
      (transliterationLookup canon rows draw mention.text mention.cls).map
        fun row => ⟨row.1, row.2, true⟩

/-- The name and the class the mention is written with, the surface forms
recorded, and the row whose class it is to change. -/
structure Plan where
  name : String
  cls : String
  aliases : List String
  promote : Option Uuid
  deriving DecidableEq, Repr

def adoptedName (canon : Canon) (stored text : String) : String :=
  if sameName canon stored text then text else stored

def adoptedAliases (canon : Canon) (stored text : String) (aliases : List String) : List String :=
  if sameName canon stored text then aliases else (aliases ++ [text]).dedup

def Mention.asItIs (mention : Mention) : Plan :=
  ⟨mention.text, mention.cls, mention.aliases, none⟩

def planOf (canon : Canon) (pre : Option Elected) (mention : Mention) : Plan :=
  match pre with
  | none => mention.asItIs
  | some elected =>
    let stored := elected.row
    let name := adoptedName canon stored.canonicalName mention.text
    let aliases := adoptedAliases canon stored.canonicalName mention.text mention.aliases
    if isCountryLocation stored.entityClass mention.cls then mention.asItIs
    else if elected.viaFallback then
      if fallbackClassCompatible stored.entityClass mention.cls then
        ⟨name, stored.entityClass, aliases, none⟩
      else mention.asItIs
    else if classRank mention.cls < classRank stored.entityClass then
      ⟨name, mention.cls, aliases, some elected.id⟩
    else ⟨name, stored.entityClass, aliases, none⟩

def hasKey (canon : Canon) (name cls : String) (row : Uuid × Identity) : Bool :=
  sameName canon row.2.canonicalName name && row.2.entityClass = cls

def Identity.withClass (row : Identity) (cls : String) : Identity :=
  { row with entityClass := cls }

def promote (canon : Canon) (profiles : Profiles) (plan : Plan) : Profiles :=
  match plan.promote with
  | none => profiles
  | some id =>
    if (identities profiles).any fun row =>
      hasKey canon plan.name plan.cls row && row.1 ≠ id then profiles
    else
      profiles.update id fun row => { row with identity := row.identity.withClass plan.cls }

def unionIds (left right : List Uuid) : List Uuid :=
  (left ++ right).dedup.insertionSort (· ≤ ·)

def rowNamed (canon : Canon) (rows : Identities) (name cls : String) : Option (Uuid × Identity) :=
  rows.find? (hasKey canon name cls)

/-- `INSERT … ON CONFLICT (lower(canonical_name), entity_class)` -/
def upsert (canon : Canon) (profiles : Profiles) (draw : Draw) (signal : Uuid)
    (name cls : String) : Profiles × Uuid :=
  match rowNamed canon (identities profiles) name cls with
  | some found =>
    (profiles.update found.1 fun row =>
      { row with
        lastEventLinkAt := some draw.now
        derivedFrom := unionIds row.derivedFrom [signal] }, found.1)
  | none =>
    (profiles.put draw.newId
      ⟨⟨name, cls, none, none, [], draw.now⟩, some draw.now, [signal]⟩,
      draw.newId)

def Identity.withAliases (row : Identity) (aliases : List String) : Identity :=
  { row with
    mergedAliases := (row.mergedAliases ++ aliases).dedup.insertionSort (· ≤ ·) }

def recordProvenance (canon : Canon) (profiles : Profiles) (id : Uuid)
    (aliases : List String) : Profiles :=
  if aliases = [] then profiles
  else
    profiles.update id fun row =>
      { row with
        derivedFrom := unionIds row.derivedFrom (aliases.map canon.aliasMarker)
        identity := row.identity.withAliases aliases }

structure Resolved where
  profiles : Profiles
  id : Uuid
  surface : String
  cls : String

def resolveAnew (canon : Canon) (profiles : Profiles) (encounter : Encounter) : Resolved :=
  let mention := encounter.mention
  let pre := preLookup canon (identities profiles) encounter.draw mention
  let plan := planOf canon pre mention
  let written := upsert canon (promote canon profiles plan) encounter.draw
    encounter.signal plan.name plan.cls
  ⟨recordProvenance canon written.1 written.2 plan.aliases, written.2, plan.name, plan.cls⟩

/-- A mention linked to a profile, under the name it goes into the
co-occurrence edges with. -/
structure Linked where
  signal : Uuid
  entity : Uuid
  surface : String
  deriving DecidableEq, Repr

/-- The profiles, the cache `name_to_id` and the mentions linked so far. -/
structure Batch where
  profiles : Profiles
  nameToId : String → Option (Uuid × String)
  linked : List Linked

def Batch.start (profiles : Profiles) : Batch := ⟨profiles, fun _ => none, []⟩

def Batch.cleared (batch : Batch) : Batch :=
  { batch with nameToId := fun _ => none }

def cacheHit (batch : Batch) (mention : Mention) : Option Uuid :=
  match batch.nameToId mention.fold with
  | none => none
  | some (id, cls) =>
    if isCountryLocation cls mention.cls then none else some id

def reuse (canon : Canon) (batch : Batch) (encounter : Encounter) (id : Uuid) : Batch :=
  { batch with
    profiles := recordProvenance canon batch.profiles id encounter.mention.aliases
    linked := batch.linked ++ [⟨encounter.signal, id, encounter.mention.text⟩] }

def linkAnew (canon : Canon) (batch : Batch) (encounter : Encounter) : Batch :=
  let resolved := resolveAnew canon batch.profiles encounter
  { profiles := resolved.profiles
    nameToId := Function.update batch.nameToId encounter.mention.fold
      (some (resolved.id, resolved.cls))
    linked := batch.linked ++ [⟨encounter.signal, resolved.id, resolved.surface⟩] }

def resolveStep (canon : Canon) (batch : Batch) (encounter : Encounter) : Option Batch :=
  if (batch.profiles.row? encounter.draw.newId).isSome then none
  else
    match cacheHit batch encounter.mention with
    | some id => some (reuse canon batch encounter id)
    | none => some (linkAnew canon batch encounter)

structure Signal where
  id : Uuid
  spans : List Span
  draw : String → Draw

def encountersAfter (signal : Signal) (mentions : List Mention) : List Encounter :=
  mentions.map fun mention => ⟨signal.id, false, signal.draw mention.fold, mention⟩

def encountersOf (canon : Canon) (signal : Signal) : List Encounter :=
  match mentionsOf canon signal.spans with
  | [] => []
  | first :: rest => ⟨signal.id, true, signal.draw first.fold, first⟩ :: encountersAfter signal rest

def batchOf (canon : Canon) (signals : List Signal) : List Encounter :=
  signals.flatMap (encountersOf canon)

def maxEntitiesPerSignal : ℕ := 8

/-- The rows of `signal_entity_links`, `ON CONFLICT DO NOTHING`. -/
def linksOf (linked : List Linked) : List (Uuid × Uuid) :=
  (linked.map fun entry => (entry.signal, entry.entity)).eraseDups

def pairsOf : List String → List (String × String)
  | [] => []
  | name :: rest => rest.map (name, ·) ++ pairsOf rest

def signalNames (linked : List Linked) (signal : Uuid) : List String :=
  let names := (linked.filter fun entry => entry.signal = signal).map Linked.surface
  (names.dedup.insertionSort (· ≤ ·)).take maxEntitiesPerSignal

def addEdge (canon : Canon) (edges : List (String × String))
    (edge : String × String) : List (String × String) :=
  if edges.any fun old => sameName canon old.1 edge.1 && sameName canon old.2 edge.2 then edges
  else edges ++ [edge]

def edgesOf (canon : Canon) (linked : List Linked)
    (edges : List (String × String)) : List (String × String) :=
  ((linked.map Linked.signal).eraseDups.flatMap fun signal =>
    pairsOf (signalNames linked signal)).foldl (addEdge canon) edges

end Legba.EntityResolution
