import Legba.DescriptorTable
import Legba.JsonValue
import Mathlib.Data.List.Induction

/-!
# Subscription grants

A source whose `subscription_policy` is `grant` admits a target through a row
of `wiring_descriptors`.  The row is found under a descriptor id made from the
two ids of the pair, with the dots of the source id flattened, so the pairs
whose source ids agree after flattening share one row.

`hash` of a pair of strings differs from process to process, so each
`write_grant` carries the value its process computed.
-/

namespace Legba.Subscriptions

open Descriptors JsonValue KeyedTable List Option Table

/-- `wiring_descriptors`; a grant's `state` is free text. -/
abbrev WiringTable := DescriptorTable String (List (String × Json))

def sharedTenant : String := "shared"

def grantSchemaUri : String := "legba/wiring/subscription_grant/1.0.0"

/-- `source_id.replace(".", "_")`. -/
def flattenDots (text : String) : List Char :=
  text.toList.map fun c => if c = '.' then '_' else c

def grantDescriptorId (sourceId targetId : String) : String :=
  String.ofList ("subgrant.".toList ++ (flattenDots sourceId ++ '.' :: targetId.toList))

structure SubscriptionPolicyError where
  sourceId : String
  targetId : String
  policy : String
  reason : String
  deriving DecidableEq, Repr

structure SourcePolicy where
  sourceId : String
  ownerTenant : String
  subscriptionPolicy : String
  allowedTargets : List String
  allowedTenants : List String
  deriving DecidableEq, Repr

def isHonoured (state : String) : Bool :=
  !(["retired", "revoked"].contains state)

def grantExists (table : WiringTable) (sourceId targetId : String) : Bool :=
  match head? table (grantDescriptorId sourceId targetId) with
  | none => false
  | some (_, row) => isHonoured row.state

def enforceSubscription (repr : String → String) (table : WiringTable)
    (source : SourcePolicy) (targetId targetTenant : String) :
    Except SubscriptionPolicyError Unit :=
  let policy := source.subscriptionPolicy
  let refuse (reason : String) : Except SubscriptionPolicyError Unit :=
    .error { sourceId := source.sourceId, targetId, policy, reason }
  let sameTenant := targetTenant == source.ownerTenant || source.ownerTenant == sharedTenant
  if policy = "open" then
    if !sameTenant then
      refuse ("cross-tenant: target tenant " ++ repr targetTenant ++
        " != source tenant " ++ repr source.ownerTenant ++
        " and source is not 'shared'")
    else .ok ()
  else if policy = "allowlist" then
    if source.allowedTargets.contains targetId then .ok ()
    else if source.allowedTenants.contains targetTenant then .ok ()
    else
      refuse ("target " ++ repr targetId ++ " (tenant " ++
        repr targetTenant ++ ") not in allowed_targets/allowed_tenants")
  else if policy = "grant" then
    if grantExists table source.sourceId targetId then .ok ()
    else
      refuse ("no active subscription grant (wiring_descriptor " ++
        repr (grantDescriptorId source.sourceId targetId) ++ ")")
  else refuse ("unknown subscription_policy " ++ repr policy)

def grantVersion (hash : ℤ) : String :=
  let digits := Nat.toDigits 16 (hash.natAbs % 0x1000000000000)
  String.ofList ("grant-".toList ++ List.replicate (12 - digits.length) '0' ++ digits)

def grantBody (sourceId targetId reason : String) : List (String × Json) :=
  [("kind", .string "subscription_grant"), ("source_id", .string sourceId),
    ("target_id", .string targetId), ("reason", .string reason)]

/-- `INSERT … ON CONFLICT (descriptor_id, version) DO UPDATE`. -/
def upsertGrant (table : WiringTable) (key : RowKey)
    (inserted : Row String (List (String × Json))) : WiringTable :=
  match table.row? key with
  | none => table.put key inserted
  | some row =>
    table.put key
      { row with isHead := true, state := "active", body := inserted.body }

def writeGrant (hash : ℤ) (table : WiringTable)
    (sourceId targetId owner reason : String) : WiringTable × String :=
  let gid := grantDescriptorId sourceId targetId
  let existing := head? table gid
  if existing.any fun found => isHonoured found.2.state then (table, gid)
  else
    let demoted := if existing.isSome then demoteHead table gid else table
    (upsertGrant demoted (gid, grantVersion hash)
      { schemaUri := grantSchemaUri
        isHead := true
        state := "active"
        owner
        name := "grant " ++ targetId ++ " -> " ++ sourceId
        body := grantBody sourceId targetId reason }, gid)

def revokeGrant (table : WiringTable) (sourceId targetId : String) : WiringTable × Bool :=
  let gid := grantDescriptorId sourceId targetId
  match head? table gid with
  | none => (table, false)
  | some (version, _) => (setState table gid version "revoked", true)

inductive GrantCall where
  | writeGrant (hash : ℤ) (sourceId targetId owner reason : String)
  | revokeGrant (sourceId targetId : String)

namespace GrantCall

def sourceId : GrantCall → String
  | .writeGrant _ sourceId _ _ _ => sourceId
  | .revokeGrant sourceId _ => sourceId

def targetId : GrantCall → String
  | .writeGrant _ _ targetId _ _ => targetId
  | .revokeGrant _ targetId => targetId

def isWrite : GrantCall → Bool
  | .writeGrant .. => true
  | .revokeGrant .. => false

def apply (table : WiringTable) : GrantCall → WiringTable
  | .writeGrant hash sourceId targetId owner reason =>
    (Subscriptions.writeGrant hash table sourceId targetId owner reason).1
  | .revokeGrant sourceId targetId => (Subscriptions.revokeGrant table sourceId targetId).1

def forPair (sourceId targetId : String) (call : GrantCall) : Bool :=
  call.sourceId == sourceId && call.targetId == targetId

/-- The call was made for a pair which reads the same once the dots of the
source id are flattened. -/
def forFlattenedPair (sourceId targetId : String) (call : GrantCall) : Bool :=
  flattenDots call.sourceId == flattenDots sourceId && call.targetId == targetId

end GrantCall

def history (table : WiringTable) (calls : List GrantCall) : WiringTable :=
  calls.foldl GrantCall.apply table

/-- The last of the calls selected by `selects` is a `write_grant`. -/
def lastIsWrite (selects : GrantCall → Bool) (calls : List GrantCall) : Bool :=
  ((calls.filter selects).getLast?).any GrantCall.isWrite

structure Ungranted (table : WiringTable) : Prop where
  headUnique : HeadUnique table
  noGrant : ∀ sourceId targetId, head? table (grantDescriptorId sourceId targetId) = none

theorem append_cons_inj_of_not_mem {α : Type*} {separator : α} :
    ∀ {left left' right right' : List α}, separator ∉ left →
      separator ∉ left' →
      left ++ separator :: right = left' ++ separator :: right' →
      left = left' ∧ right = right' := by
  intro left
  induction left with
  | nil =>
    intro left' right right' _ hleft' heq
    cases left' with
    | nil => exact ⟨rfl, (cons.inj heq).2⟩
    | cons head tail =>
      have hhead : separator = head := (cons.inj heq).1
      exact absurd (hhead ▸ mem_cons_self) hleft'
  | cons head tail ih =>
    intro left' right right' hleft hleft' heq
    cases left' with
    | nil =>
      have hhead : head = separator := (cons.inj heq).1
      exact absurd (hhead ▸ mem_cons_self) hleft
    | cons head' tail' =>
      have hheads := (cons.inj heq).1
      have htails := ih (fun h => hleft (mem_cons_of_mem _ h))
        (fun h => hleft' (mem_cons_of_mem _ h)) (cons.inj heq).2
      exact ⟨by rw [hheads, htails.1], htails.2⟩

theorem not_mem_flattenDots (text : String) : '.' ∉ flattenDots text := by
  intro hmem
  obtain ⟨c, _, hc⟩ := mem_map.mp hmem
  by_cases hdot : c = '.'
  · rw [if_pos hdot] at hc
    exact absurd hc (by decide)
  · rw [if_neg hdot] at hc
    exact hdot hc

variable {sourceId targetId : String}
  {inserted : Row String (List (String × Json))} {table : WiringTable}

variable {sourceId' targetId' version : String} {next : WiringTable}

theorem grantDescriptorId_inj :
    grantDescriptorId sourceId targetId = grantDescriptorId sourceId' targetId' ↔
      flattenDots sourceId = flattenDots sourceId' ∧ targetId = targetId' := by
  unfold grantDescriptorId
  rw [String.ofList_inj, append_cancel_left_eq]
  constructor
  · intro heq
    have hparts := append_cons_inj_of_not_mem (not_mem_flattenDots sourceId)
      (not_mem_flattenDots sourceId') heq
    exact ⟨hparts.1, String.toList_inj.mp hparts.2⟩
  · rintro ⟨hsource, htarget⟩
    rw [hsource, htarget]

theorem GrantCall.forFlattenedPair_iff {call : GrantCall} :
    call.forFlattenedPair sourceId targetId = true ↔
      grantDescriptorId call.sourceId call.targetId = grantDescriptorId sourceId targetId := by
  unfold GrantCall.forFlattenedPair
  rw [grantDescriptorId_inj, Bool.and_eq_true, beq_iff_eq, beq_iff_eq]

/-! ## What a call does -/

theorem row?_upsertGrant_of_ne (table : WiringTable) {key other : RowKey}
    (hother : other ≠ key) (inserted : Row String (List (String × Json))) :
    (upsertGrant table key inserted).row? other = table.row? other := by
  unfold upsertGrant
  cases table.row? key with
  | none => exact row?_put_of_ne table hother _
  | some row => exact row?_put_of_ne table hother _

theorem row?_upsertGrant_self (table : WiringTable) (key : RowKey)
    (hhead : inserted.isHead) (hstate : inserted.state = "active") :
    ∃ row, (upsertGrant table key inserted).row? key = some row ∧
      row.isHead = true ∧ row.state = "active" := by
  unfold upsertGrant
  cases table.row? key with
  | none => exact ⟨inserted, row?_put_self table key _, hhead, hstate⟩
  | some row => exact ⟨_, row?_put_self table key _, rfl, rfl⟩

theorem grantExists_congr
    (hhead : head? next (grantDescriptorId sourceId' targetId') =
      head? table (grantDescriptorId sourceId targetId)) :
    grantExists next sourceId' targetId' = grantExists table sourceId targetId := by
  unfold grantExists
  rw [hhead]

theorem grantExists_of_isHead {row : Row String (List (String × Json))}
    (hunique : HeadUniqueAt table (grantDescriptorId sourceId targetId))
    (hrow : IsHead table (grantDescriptorId sourceId targetId) version row) :
    grantExists table sourceId targetId = isHonoured row.state := by
  unfold grantExists
  rw [(head?_eq_some hunique).mpr hrow]

/-- What a call leaves behind: the rows under other descriptor ids, one head
at most, and its own decision. -/
structure CallEffect (table next : WiringTable) (sourceId targetId : String)
    (decision : Bool) : Prop where
  otherRows : ∀ id version, id ≠ grantDescriptorId sourceId targetId →
    next.row? (id, version) = table.row? (id, version)
  headUniqueAt : HeadUniqueAt next (grantDescriptorId sourceId targetId)
  decided : grantExists next sourceId targetId = decision

theorem upsertGrant_effect {demoted : WiringTable}
    (hother : ∀ id version', id ≠ grantDescriptorId sourceId targetId → demoted.row? (id, version')
      = table.row? (id, version'))
    (hnoHead : ∀ version' row, ¬IsHead demoted (grantDescriptorId sourceId targetId) version' row)
    (hhead : inserted.isHead) (hstate : inserted.state = "active") :
    CallEffect table
      (upsertGrant demoted (grantDescriptorId sourceId targetId, version)
        inserted) sourceId targetId true := by
  have hself := row?_upsertGrant_self demoted
    (grantDescriptorId sourceId targetId, version) hhead hstate
  obtain ⟨written, hwritten, hwrittenHead, hwrittenState⟩ := hself
  have honly : ∀ version' row, IsHead (upsertGrant demoted
      (grantDescriptorId sourceId targetId, version) inserted)
      (grantDescriptorId sourceId targetId) version' row →
      version' = version := by
    intro version' row hrow
    by_contra hversion
    have hkey : (grantDescriptorId sourceId targetId, version') ≠
        (grantDescriptorId sourceId targetId, version) :=
      fun heq => hversion (Prod.mk.inj heq).2
    have hold := hrow.1
    rw [row?_upsertGrant_of_ne demoted hkey] at hold
    exact hnoHead version' row ⟨hold, hrow.2⟩
  have hunique : HeadUniqueAt (upsertGrant demoted
      (grantDescriptorId sourceId targetId, version) inserted)
      (grantDescriptorId sourceId targetId) := by
    intro first second row row' hrow hrow'
    rw [honly first row hrow, honly second row' hrow']
  have hdecided := grantExists_of_isHead hunique ⟨hwritten, hwrittenHead⟩
  rw [hwrittenState] at hdecided
  exact
    { otherRows := fun id version' hid => by
        have hkey : (id, version') ≠ (grantDescriptorId sourceId targetId, version) :=
          fun heq => hid (Prod.mk.inj heq).1
        rw [row?_upsertGrant_of_ne demoted hkey, hother id version' hid]
      headUniqueAt := hunique
      decided := hdecided }

theorem writeGrant_effect (hunique : HeadUnique table) (hash : ℤ)
    (sourceId targetId owner reason : String) :
    CallEffect table (writeGrant hash table sourceId targetId owner reason).1
      sourceId targetId true := by
  cases hhead : head? table (grantDescriptorId sourceId targetId) with
  | none =>
    simp only [writeGrant, hhead, any_none, Bool.false_eq_true, if_false, isSome_none]
    apply upsertGrant_effect
    · exact fun _ _ _ => rfl
    · exact head?_eq_none.mp hhead
    · rfl
    · rfl
  | some found =>
    by_cases hhonoured : isHonoured found.2.state = true
    · simp only [writeGrant, hhead, any_some, hhonoured, if_true]
      have hrow : IsHead table (grantDescriptorId sourceId targetId) found.1
          found.2 := isHead_of_head? hhead
      exact
        { otherRows := fun _ _ _ => rfl
          headUniqueAt := hunique _
          decided := by rw [grantExists_of_isHead (hunique _) hrow, hhonoured] }
    · simp only [writeGrant, hhead, any_some, hhonoured,
        Bool.false_eq_true, if_false, isSome_some, if_true]
      apply upsertGrant_effect
      · exact fun id version hid => row?_demoteHead_of_ne hid version
      · exact not_isHead_demoteHead table _
      · rfl
      · rfl

theorem revokeGrant_effect (hunique : HeadUnique table) (sourceId targetId : String) :
    CallEffect table (revokeGrant table sourceId targetId).1 sourceId targetId false := by
  cases hhead : head? table (grantDescriptorId sourceId targetId) with
  | none =>
    simp only [revokeGrant, hhead]
    exact
      { otherRows := fun _ _ _ => rfl
        headUniqueAt := hunique _
        decided := by simp [grantExists, hhead] }
  | some found =>
    simp only [revokeGrant, hhead]
    have hrow : IsHead table (grantDescriptorId sourceId targetId) found.1
        found.2 := isHead_of_head? hhead
    have hself := row?_setState_self hrow.1 "revoked"
    have hunique' := headUnique_setState hunique
      (grantDescriptorId sourceId targetId) found.1 "revoked"
    exact
      { otherRows := fun id version hid =>
          row?_setState_of_ne table (fun heq => hid (Prod.mk.inj heq).1) _
        headUniqueAt := hunique' _
        decided := grantExists_of_isHead (hunique' _) ⟨hself, hrow.2⟩ }

theorem GrantCall.apply_effect (hunique : HeadUnique table) (call : GrantCall) :
    CallEffect table (call.apply table) call.sourceId call.targetId call.isWrite := by
  cases call with
  | writeGrant hash sourceId targetId owner reason =>
    exact writeGrant_effect hunique hash sourceId targetId owner reason
  | revokeGrant sourceId targetId => exact revokeGrant_effect hunique sourceId targetId

theorem CallEffect.headUnique {decision : Bool}
    (heffect : CallEffect table next sourceId targetId decision)
    (hunique : HeadUnique table) : HeadUnique next := by
  intro id
  by_cases hid : id = grantDescriptorId sourceId targetId
  · rw [hid]
    exact heffect.headUniqueAt
  · exact headUniqueAt_congr (hunique id)
      fun version => heffect.otherRows id version hid

/-- The answer for a pair after a call: the call's own decision if it shares
the pair's descriptor id, and the answer before it otherwise. -/
theorem GrantCall.grantExists_apply (hunique : HeadUnique table)
    (call : GrantCall) (sourceId targetId : String) :
    grantExists (call.apply table) sourceId targetId =
      if call.forFlattenedPair sourceId targetId then call.isWrite
      else grantExists table sourceId targetId := by
  have heffect := call.apply_effect hunique
  by_cases hflat : call.forFlattenedPair sourceId targetId = true
  · rw [if_pos hflat, ← heffect.decided]
    apply grantExists_congr
    rw [GrantCall.forFlattenedPair_iff.mp hflat]
  · rw [if_neg hflat]
    apply grantExists_congr
    apply head?_congr (hunique _)
    intro version
    apply heffect.otherRows
    intro hid
    exact hflat (GrantCall.forFlattenedPair_iff.mpr hid.symm)

theorem history_append (table : WiringTable) (calls : List GrantCall) (call : GrantCall) :
    history table (calls ++ [call]) = call.apply (history table calls) := by
  unfold history
  rw [foldl_append, foldl_cons, foldl_nil]

theorem headUnique_history (hunique : HeadUnique table)
    (calls : List GrantCall) : HeadUnique (history table calls) := by
  induction calls using reverseRecOn with
  | nil => exact hunique
  | append_singleton calls call ih =>
    rw [history_append]
    exact (call.apply_effect ih).headUnique ih

theorem lastIsWrite_append (selects : GrantCall → Bool)
    (calls : List GrantCall) (call : GrantCall) :
    lastIsWrite selects (calls ++ [call]) =
      if selects call then call.isWrite else lastIsWrite selects calls := by
  unfold lastIsWrite
  by_cases hselects : selects call = true
  · simp [filter_append, hselects]
  · simp [filter_append, hselects]

theorem grantExists_history (hstart : Ungranted table) (calls : List GrantCall)
    (sourceId targetId : String) :
    grantExists (history table calls) sourceId targetId =
      lastIsWrite (GrantCall.forFlattenedPair sourceId targetId) calls := by
  induction calls using reverseRecOn with
  | nil =>
    unfold grantExists
    rw [show history table [] = table from rfl, hstart.noGrant]
    rfl
  | append_singleton calls call ih =>
    rw [history_append, lastIsWrite_append, call.grantExists_apply
      (headUnique_history hstart.headUnique calls), ih]

theorem enforceSubscription_eq_ok {repr : String → String} {source : SourcePolicy}
    (hpolicy : source.subscriptionPolicy = "grant") (targetId targetTenant : String) :
    enforceSubscription repr table source targetId targetTenant = .ok () ↔
      grantExists table source.sourceId targetId = true := by
  have hopen : ("grant" : String) ≠ "open" := by decide
  have hallowlist : ("grant" : String) ≠ "allowlist" := by decide
  unfold enforceSubscription
  simp only [hpolicy, if_neg hopen, if_neg hallowlist, if_true]
  by_cases hexists : grantExists table source.sourceId targetId = true
  · simp [hexists]
  · simp [hexists]

/-- For a `grant` source the last call for a pair decides it exactly when the
last call for any pair with the same flattened source id and the same target
decides alike, and a call for another pair leaves the answer alone exactly
when it is not such a pair or repeats the decision in force. -/
theorem grantAuthorisation_iff (repr : String → String) {table : WiringTable}
    (hstart : Ungranted table) {source : SourcePolicy}
    (hpolicy : source.subscriptionPolicy = "grant")
    (targetId targetTenant : String) (calls : List GrantCall) :
    ((enforceSubscription repr (history table calls) source targetId targetTenant = .ok () ↔
        lastIsWrite (GrantCall.forPair source.sourceId targetId) calls = true) ↔
      lastIsWrite (GrantCall.forFlattenedPair source.sourceId targetId) calls =
        lastIsWrite (GrantCall.forPair source.sourceId targetId) calls) ∧
    ∀ call : GrantCall, call.forPair source.sourceId targetId = false →
      ((enforceSubscription repr (history table (calls ++ [call])) source
            targetId targetTenant = .ok () ↔
          enforceSubscription repr (history table calls) source targetId targetTenant = .ok ()) ↔
        (call.forFlattenedPair source.sourceId targetId = true →
          call.isWrite =
            lastIsWrite (GrantCall.forFlattenedPair source.sourceId targetId) calls)) := by
  constructor
  · rw [enforceSubscription_eq_ok hpolicy, grantExists_history hstart]
    exact Bool.eq_iff_iff.symm
  · intro call _
    rw [enforceSubscription_eq_ok hpolicy, enforceSubscription_eq_ok hpolicy, grantExists_history
      hstart, grantExists_history hstart, lastIsWrite_append, ← Bool.eq_iff_iff]
    by_cases hflat : call.forFlattenedPair source.sourceId targetId = true
    · simp [hflat]
    · simp [hflat]

theorem grantAuthorisation_iff_dotted :
    Ungranted empty ∧
    (enforceSubscription id
        (history empty [.writeGrant (-5) "feed.reuters" "unit_a" "operator" ""])
        { sourceId := "feed.reuters", ownerTenant := "default",
          subscriptionPolicy := "grant", allowedTargets := [],
          allowedTenants := [] } "unit_a" "default" = .ok () ↔
      lastIsWrite (GrantCall.forPair "feed.reuters" "unit_a")
        [.writeGrant (-5) "feed.reuters" "unit_a" "operator" ""] = true) := by
  have hstart : Ungranted empty :=
    { headUnique := headUnique_empty
      noGrant := fun _ _ => rfl }
  exact ⟨hstart, ((grantAuthorisation_iff id hstart rfl "unit_a" "default"
    [.writeGrant (-5) "feed.reuters" "unit_a" "operator" ""]).1).mpr (by decide)⟩

/-- A grant for the source `feed.reuters` also admits `feed_reuters`. -/
theorem grant_admits_other_source :
    enforceSubscription id
        (history empty [.writeGrant 7 "feed.reuters" "unit_a" "operator" ""])
        { sourceId := "feed_reuters", ownerTenant := "default",
          subscriptionPolicy := "grant", allowedTargets := [],
          allowedTenants := [] } "unit_a" "default" = .ok () ∧
      lastIsWrite (GrantCall.forPair "feed_reuters" "unit_a")
        [.writeGrant 7 "feed.reuters" "unit_a" "operator" ""] = false := by
  constructor
  · rfl
  · rfl

end Legba.Subscriptions
