import Legba.DescriptorLifecycle
import Legba.DescriptorTable
import Legba.JsonValue

/-!
# The descriptor registry

A version of a descriptor is the content hash of its body, the version itself
left out.  The five calls move the head of a descriptor id in three ways:
`register` and `update` insert a row, `retire` writes the `state` column of
the head, and `promote`, `rollback` and an `update` to content which is
already stored move the head pointer to another row.

`sha256` is the digest of the compact UTF-8 text of a JSON value and `repr` the
quoting of a text in an error message.  A raised error rolls the transaction
back.
-/

namespace Legba.Descriptors

open JsonValue KeyedTable

/-! ## Descriptors and their hashes -/

/-- `extra` holds the fields of the identity block no call reads. -/
structure Identity (family : Family) where
  id : String
  name : String
  schemaUri : String
  version : String
  state : family.State
  owner : String
  extra : List (String × Json)

/-- `blocks` holds the fields beside the identity block. -/
structure Descriptor (family : Family) where
  identity : Identity family
  blocks : List (String × Json)

variable {family : Family}

def Identity.dump (identity : Identity family) : List (String × Json) :=
  [("id", .string identity.id), ("name", .string identity.name),
    ("schema_uri", .string identity.schemaUri),
    ("version", .string identity.version),
    ("state", .string ((stateMachineFor family).value identity.state)),
    ("owner", .string identity.owner)] ++ identity.extra

def Descriptor.modelDump (descriptor : Descriptor family) : List (String × Json) :=
  ("identity", .object descriptor.identity.dump) :: descriptor.blocks

def identityField? (body : List (String × Json)) (key : String) : Option Json :=
  match field? body "identity" with
  | some (.object identity) => field? identity key
  | _ => none

def dropVersion : Json → Json
  | .object fields => .object (fields.filter fun field => field.1 ≠ "version")
  | value => value

/-- `exclude={"identity": {"version"}}`. -/
def excludeVersion (body : List (String × Json)) : List (String × Json) :=
  body.map fun field =>
    if field.1 = "identity" then (field.1, dropVersion field.2) else field

def hashPayload (body : List (String × Json)) : List (String × Json) :=
  sortFields (excludeVersion body)

def bodyHash (sha256 : Json → String) (body : List (String × Json)) : String :=
  sha256 (.object (hashPayload body))

def contentHash (sha256 : Json → String) (descriptor : Descriptor family) :
    String :=
  bodyHash sha256 descriptor.modelDump

def stampVersion (descriptor : Descriptor family) (version : String) : Descriptor family :=
  { descriptor with identity := { descriptor.identity with version } }

def stampState (descriptor : Descriptor family) (state : family.State) : Descriptor family :=
  { descriptor with identity := { descriptor.identity with state } }

section

variable (descriptor : Descriptor family)

include descriptor

theorem field?_identity :
    field? descriptor.modelDump "identity" = some (.object descriptor.identity.dump) := by
  simp [field?, Descriptor.modelDump]

theorem identityField?_state :
    identityField? descriptor.modelDump "state" =
      some (.string ((stateMachineFor family).value descriptor.identity.state)) := by
  unfold identityField?
  rw [field?_identity]
  simp [field?, Identity.dump, List.lookup_cons]

theorem identityField?_version :
    identityField? descriptor.modelDump "version" = some (.string descriptor.identity.version) := by
  unfold identityField?
  rw [field?_identity]
  simp [field?, Identity.dump, List.lookup_cons]

theorem excludeVersion_stampVersion (version : String) :
    excludeVersion (stampVersion descriptor version).modelDump =
      excludeVersion descriptor.modelDump := by
  simp [excludeVersion, Descriptor.modelDump, stampVersion, Identity.dump, dropVersion]

theorem hashPayload_stampVersion (version : String) :
    hashPayload (stampVersion descriptor version).modelDump = hashPayload descriptor.modelDump := by
  unfold hashPayload
  rw [excludeVersion_stampVersion]

end

theorem bodyHash_stampVersion (sha256 : Json → String)
    (descriptor : Descriptor family) (version : String) :
    bodyHash sha256 (stampVersion descriptor version).modelDump =
      contentHash sha256 descriptor := by
  unfold contentHash bodyHash
  rw [hashPayload_stampVersion]

theorem stampState_self (descriptor : Descriptor family) :
    stampState descriptor descriptor.identity.state = descriptor := rfl

theorem state_eq_of_hashPayload_eq {first second : Descriptor family}
    (hpayload : hashPayload first.modelDump = hashPayload second.modelDump) :
    first.identity.state = second.identity.state := by
  have hidentity : ∀ descriptor : Descriptor family,
      field? (hashPayload descriptor.modelDump) "identity" =
        some (.object (sortFields
          (descriptor.identity.dump.filter
            fun field => field.1 ≠ "version"))) := by
    intro descriptor
    unfold hashPayload
    rw [field?_sortFields]
    simp [excludeVersion, Descriptor.modelDump, field?, dropVersion, Json.sortKeys]
  have hstate : ∀ descriptor : Descriptor family,
      field? (sortFields (descriptor.identity.dump.filter
          fun field => field.1 ≠ "version")) "state" =
        some (.string ((stateMachineFor family).value descriptor.identity.state)) := by
    intro descriptor
    rw [field?_sortFields]
    simp [Identity.dump, field?, List.lookup_cons, Json.sortKeys]
  have hobjects := hidentity first
  rw [hpayload, hidentity second, Option.some.injEq, Json.object.injEq] at hobjects
  have hvalues := hstate first
  rw [← hobjects, hstate second, Option.some.injEq, Json.string.injEq] at hvalues
  exact ((stateMachineFor family).value_injective hvalues).symm

inductive RegistryError where
  | descriptorValidation (message : String)
  | descriptorNotFound (message : String)
  | illegalLifecycleTransition (message : String)
  | versionConflict (message : String)
  | uniqueViolation (constraint : String)
  | statementRaised (message : String)
  deriving DecidableEq, Repr

/-- What the code around a call raises: the validation of the descriptor, the
registration of its panels and the write of the audit row. -/
structure Surroundings where
  validation : Option String
  panels : Option String
  audit : Option String
  deriving DecidableEq, Repr

def Surroundings.clear : Surroundings where
  validation := none
  panels := none
  audit := none

def raiseIf (error : String → RegistryError) (raised : Option String) : Except RegistryError Unit :=
  match raised with
  | none => .ok ()
  | some message => .error (error message)

def Family.table (family : Family) : String :=
  family.value ++ "_descriptors"

def illegalTransition (current next : family.State) : RegistryError :=
  .illegalLifecycleTransition
    ("illegal transition " ++ (stateMachineFor family).value current ++
      " -> " ++ (stateMachineFor family).value next)

/-! ## Calls -/

abbrev FamilyTable (family : Family) :=
  DescriptorTable family.State (List (String × Json))

def headRow (descriptor : Descriptor family) : Row family.State (List (String × Json)) where
  schemaUri := descriptor.identity.schemaUri
  isHead := true
  state := descriptor.identity.state
  owner := descriptor.identity.owner
  name := descriptor.identity.name
  body := descriptor.modelDump

def insertRow (table : FamilyTable family) (descriptor : Descriptor family)
    (version : String) : Except RegistryError (FamilyTable family) :=
  if (table.row? (descriptor.identity.id, version)).isSome then
    .error (.uniqueViolation (family.table ++ "_pkey"))
  else
    .ok (table.put (descriptor.identity.id, version) (headRow descriptor))

/-- Demote the row at `fromVersion` and promote the row at `toVersion`. -/
def shiftHead (table : FamilyTable family)
    (descriptorId fromVersion toVersion : String) : FamilyTable family :=
  setIsHead (setIsHead table descriptorId fromVersion false) descriptorId toVersion true

/-- The row which already holds the new content, or else a new row, takes the
head over from `fromVersion`. -/
def replaceHead (table : FamilyTable family)
    (descriptorId fromVersion : String) (newDescriptor : Descriptor family)
    (newHash : String) : Except RegistryError (FamilyTable family) :=
  if (table.row? (descriptorId, newHash)).isSome then
    .ok (shiftHead table descriptorId fromVersion newHash)
  else
    insertRow (setIsHead table descriptorId fromVersion false) newDescriptor newHash

section

variable (sha256 : Json → String) (repr : String → String)

def described (family : Family) (descriptorId : String) : String :=
  family.value ++ " descriptor " ++ repr descriptorId

def notFound (family : Family) (descriptorId : String) : RegistryError :=
  .descriptorNotFound (described repr family descriptorId ++ " not found")

def register (table : FamilyTable family) (descriptor : Descriptor family)
    (around : Surroundings) :
    Except RegistryError (FamilyTable family × String) := do
  raiseIf .descriptorValidation around.validation
  let hash := contentHash sha256 descriptor
  let stamped := stampVersion descriptor hash
  match head? table descriptor.identity.id with
  | some (version, _) =>
    .error (.versionConflict
      (described repr family descriptor.identity.id ++
        " already registered (head version=" ++ version ++
        "); use update()"))
  | none =>
    let inserted ← insertRow table stamped hash
    raiseIf .statementRaised around.panels
    raiseIf .statementRaised around.audit
    .ok (inserted, hash)

structure PreparedUpdate (family : Family) where
  fromVersion : String
  fromState : family.State
  newHash : String
  newDescriptor : Descriptor family

/-- The part of `update` before the transaction. -/
def prepareUpdate (table : FamilyTable family) (descriptorId : String)
    (newDescriptor : Descriptor family) (around : Surroundings) :
    Except RegistryError (PreparedUpdate family) := do
  if newDescriptor.identity.id ≠ descriptorId then
    .error (.descriptorValidation
      ("identity.id mismatch: update target was " ++ repr descriptorId ++
        " but descriptor.identity.id = " ++ repr newDescriptor.identity.id))
  else
    raiseIf .descriptorValidation around.validation
    match head? table descriptorId with
    | none => .error (notFound repr family descriptorId)
    | some (fromVersion, head) =>
      let newState := newDescriptor.identity.state
      if newState ≠ head.state ∧ newState ∉ (stateMachineFor family).transitions head.state then
        .error (illegalTransition head.state newState)
      else
        let carried :=
          if newState ≠ head.state then newDescriptor
          else stampState newDescriptor head.state
        let newHash := contentHash sha256 carried
        .ok
          { fromVersion
            fromState := head.state
            newHash
            newDescriptor := stampVersion carried newHash }

/-- The transaction of `update`. -/
def commitUpdate (table : FamilyTable family) (descriptorId : String)
    (prepared : PreparedUpdate family) (around : Surroundings) :
    Except RegistryError (FamilyTable family × String) := do
  let fromVersion := prepared.fromVersion
  let newHash := prepared.newHash
  match head? table descriptorId with
  | none => .error (notFound repr family descriptorId)
  | some (version, head) =>
    if version ≠ fromVersion then
      .error (.versionConflict
        (described repr family descriptorId ++ ": head shifted from " ++
          fromVersion ++ " to " ++ version ++ " during update; retry"))
    else if head.state ≠ prepared.fromState then
      .error (.versionConflict
        (described repr family descriptorId ++ ": state shifted from " ++
          (stateMachineFor family).value prepared.fromState ++ " to " ++
          (stateMachineFor family).value head.state ++
          " during update; retry"))
    else if fromVersion = newHash then .ok (table, newHash)
    else
      let moved ← replaceHead table descriptorId fromVersion prepared.newDescriptor newHash
      raiseIf .statementRaised around.panels
      raiseIf .statementRaised around.audit
      .ok (moved, newHash)

def update (table : FamilyTable family) (descriptorId : String)
    (newDescriptor : Descriptor family) (around : Surroundings) :
    Except RegistryError (FamilyTable family × String) := do
  let prepared ← prepareUpdate sha256 repr table descriptorId newDescriptor around
  commitUpdate repr table descriptorId prepared around

def retire (table : FamilyTable family) (descriptorId : String)
    (around : Surroundings) :
    Except RegistryError (FamilyTable family × String) := do
  match head? table descriptorId with
  | none => .error (notFound repr family descriptorId)
  | some (version, head) =>
    let new := terminalStateFor family
    if new ∉ (stateMachineFor family).transitions head.state then
      .error (illegalTransition head.state new)
    else
      raiseIf .statementRaised around.audit
      .ok (setState table descriptorId version new, version)

def setHead (table : FamilyTable family) (descriptorId targetVersion : String)
    (around : Surroundings) :
    Except RegistryError (FamilyTable family × String) := do
  match head? table descriptorId with
  | none => .error (notFound repr family descriptorId)
  | some (version, _) =>
    if (table.row? (descriptorId, targetVersion)).isNone then
      .error (.versionConflict
        (described repr family descriptorId ++ ": target version " ++
          targetVersion ++ " does not exist"))
    else if version = targetVersion then
      .error (.versionConflict
        (described repr family descriptorId ++ ": version " ++
          targetVersion ++ " is already the head"))
    else
      raiseIf .statementRaised around.audit
      .ok (shiftHead table descriptorId version targetVersion, targetVersion)

def promote (table : FamilyTable family)
    (descriptorId candidateVersion : String) (around : Surroundings) :
    Except RegistryError (FamilyTable family × String) :=
  setHead repr table descriptorId candidateVersion around

def rollback (table : FamilyTable family)
    (descriptorId targetVersion : String) (around : Surroundings) :
    Except RegistryError (FamilyTable family × String) :=
  setHead repr table descriptorId targetVersion around

end

inductive RegistryCall (family : Family) where
  | register (descriptor : Descriptor family) (around : Surroundings)
  | update (descriptorId : String) (newDescriptor : Descriptor family) (around : Surroundings)
  | retire (descriptorId : String) (around : Surroundings)
  | promote (descriptorId candidateVersion : String) (around : Surroundings)
  | rollback (descriptorId targetVersion : String) (around : Surroundings)

namespace RegistryCall

def descriptorId : RegistryCall family → String
  | .register descriptor _ => descriptor.identity.id
  | .update descriptorId _ _ => descriptorId
  | .retire descriptorId _ => descriptorId
  | .promote descriptorId _ _ => descriptorId
  | .rollback descriptorId _ _ => descriptorId

def submitted? : RegistryCall family → Option (Descriptor family)
  | .register descriptor _ => some descriptor
  | .update _ newDescriptor _ => some newDescriptor
  | .retire _ _ | .promote _ _ _ | .rollback _ _ _ => none

def perform (sha256 : Json → String) (repr : String → String)
    (table : FamilyTable family) :
    RegistryCall family → Except RegistryError (FamilyTable family × String)
  | .register descriptor around => Descriptors.register sha256 repr table descriptor around
  | .update descriptorId newDescriptor around =>
    Descriptors.update sha256 repr table descriptorId newDescriptor around
  | .retire descriptorId around => Descriptors.retire repr table descriptorId around
  | .promote descriptorId candidateVersion around =>
    Descriptors.promote repr table descriptorId candidateVersion around
  | .rollback descriptorId targetVersion around =>
    Descriptors.rollback repr table descriptorId targetVersion around

end RegistryCall

def registryStep (sha256 : Json → String) (repr : String → String)
    (table : FamilyTable family) (call : RegistryCall family) :
    Option (FamilyTable family) :=
  match call.perform sha256 repr table with
  | .ok (next, _) => some next
  | .error _ => some table

def submittedBy (calls : List (RegistryCall family)) : List (Descriptor family) :=
  calls.filterMap RegistryCall.submitted?

def CollisionFree (sha256 : Json → String) (descriptors : List (Descriptor family)) : Prop :=
  ∀ first ∈ descriptors, ∀ second ∈ descriptors,
    contentHash sha256 first = contentHash sha256 second →
      hashPayload first.modelDump = hashPayload second.modelDump

def samplePack (state : LifecycleState) : Descriptor .actionPack where
  identity :=
    { id := "watch"
      name := "Watch pack"
      schemaUri := "legba/action_pack/1.0.0"
      version := "0000000000000000"
      state
      owner := "operator"
      extra := [("abstraction_level", .string "L1"), ("inherits", .array []),
        ("created", .string "2026-01-01T00:00:00Z"), ("retire_after", .null)] }
  blocks :=
    [("tools", .array []), ("prompt_fragments", .array []),
      ("rules", .array []),
      ("channels", .array [.object [("name", .string "ops"),
        ("kind", .string "alert"), ("config", .object [])]]),
      ("governor", .object [("budget_account", .null),
        ("max_invocations_per_hour", .null), ("max_cost_usd_per_day", .null),
        ("max_sources_per_window", .null), ("crawl_max_depth", .null),
        ("crawl_max_pages", .null), ("api_rate_per_minute", .null)]),
      ("applies_to_tags", .array []), ("applicability_predicate", .null)]

def sampleDigest : LifecycleState → String
  | .draft => "a119e7388d351de00cefe2e8736d991fc59d6d3140c8f855fa6c6844c4c57bd8"
  | .configured => "980035e9f070abd47a74a4d9d3ddcd0f7de459778c8cdd9b73c76f918f605ebb"
  | .active => "1e132adab4675c41722b61ca54deaecbeef9af1890883cd0fb598ee659b63bef"
  | .paused => "26a5bbb03e883668531c67fa513abc4c576866fbdb34acc2e8bdf2a091c64230"
  | .retired => "98ef5f69228b5d05f65faf97dba1440f8ac20a6ab42fef2a7c6797df317a08eb"

def sampleSha256 (value : Json) : String :=
  match value with
  | .object fields =>
    match identityField? fields "state" with
    | some (.string state) =>
      (([.draft, .configured, .active, .paused, .retired] :
        List LifecycleState).find? fun found => found.value = state).elim "" sampleDigest
    | _ => ""
  | _ => ""

def sampleRepr (text : String) : String :=
  "'" ++ text ++ "'"

theorem contentHash_samplePack (state : LifecycleState) :
    contentHash sampleSha256 (samplePack state) = sampleDigest state := by
  cases state with
  | draft => rfl
  | configured => rfl
  | active => rfl
  | paused => rfl
  | retired => rfl

theorem sampleDigest_injective : Function.Injective sampleDigest := by
  intro first second hdigest
  cases first <;> cases second <;> simp_all [sampleDigest]

theorem collisionFree_samplePacks (states : List LifecycleState) :
    CollisionFree sampleSha256 (states.map samplePack) := by
  intro first hfirst second hsecond hhash
  obtain ⟨state, _, hstate⟩ := List.mem_map.mp hfirst
  obtain ⟨state', _, hstate'⟩ := List.mem_map.mp hsecond
  rw [← hstate, ← hstate', contentHash_samplePack, contentHash_samplePack] at hhash
  rw [← hstate, ← hstate', sampleDigest_injective hhash]

end Legba.Descriptors
