import Legba.LoadedJson
import Legba.ParallelLists
import Mathlib

/-!
# Structural claims

A structural finding declares what it counted, and from what.  Each quantity is
derived again and compared with the asserted one, and numbers are compared, and
summed, as floats.  What raises is refused.
-/

namespace Legba.StructuralClaims

open LoadedJson (Value get?)
open List Option

variable {F : Type} [DecidableEq F]

/-- `ofInt` is `float(n)`, `trunc` is `int(x)`, `near` has the tolerance of
`1e-9`, and `whole` is the integer a float is equal to. -/
structure Floats (F : Type) where
  ofInt : ℤ → Option F
  zero : F
  add : F → F → F
  trunc : F → Option ℤ
  near : F → F → Bool
  whole : F → Option ℤ
  str : Value F → String
  repr : Value F → String

/-- An integer has no text from so many digits on. -/
def digitsLimit : ℕ := 10 ^ 4300

mutual

def writable : Value F → Bool
  | .int value => value.natAbs < digitsLimit
  | .array items => writableItems items
  | .object fields => writableFields fields
  | _ => true

def writableItems : List (Value F) → Bool
  | [] => true
  | item :: rest => writable item && writableItems rest

def writableFields : List (List Char × Value F) → Bool
  | [] => true
  | (_, value) :: rest => writable value && writableFields rest

end

/-- A value as a member of a set: `True`, `1` and `1.0` are one. -/
inductive Key (F : Type) where
  | null
  | int (value : ℤ)
  | float (value : F)
  | string (value : List Char)
  deriving DecidableEq

namespace Floats

variable (floats : Floats F)

/-- Lists and dictionaries are unhashable. -/
def key : Value F → Option (Key F)
  | .null => some .null
  | .bool value => some (.int (if value then 1 else 0))
  | .int value => some (.int value)
  | .float value =>
    some (match floats.whole value with
      | some number => .int number
      | none => .float value)
  | .string value => some (.string value)
  | _ => none

mutual

/-- `==` -/
def same : Value F → Value F → Bool
  | .array items, .array others => sameItems items others
  | .object fields, .object others => fields.length == others.length && sameFields fields others
  | value, other =>
    match floats.key value, floats.key other with
    | some a, some b => a == b
    | _, _ => false

def sameItems : List (Value F) → List (Value F) → Bool
  | [], [] => true
  | item :: rest, other :: others => same item other && sameItems rest others
  | _, _ => false

def sameFields : List (List Char × Value F) → List (List Char × Value F) → Bool
  | [], _ => true
  | (name, value) :: rest, others =>
    (match get? others name with
      | some other => same value other
      | none => false) && sameFields rest others

end

/-- `str(value or otherwise)` -/
def orText (value : Option (Value F)) (otherwise : String) : Option String :=
  match value with
  | some (.string []) | none => some otherwise
  | some (.string letters) => some (String.ofList letters)
  | some value =>
    if value.truthy (floats.whole · == some 0) = false then some otherwise
    else if writable value then some (floats.str value)
    else none

inductive Stop where
  | raised
  | unverifiable (detail : String)

def orRaise {α : Type} : Option α → Except Stop α
  | some value => .ok value
  | none => .error .raised

def notProjectable : Stop := .unverifiable "basis/field not projectable"

/-- A dictionary is asked for a list or a dictionary: that raises. -/
def project : Value F → Value F → Except Stop (Value F)
  | .null, item => .ok item
  | .string name, .object fields =>
    match get? fields name with
    | some value => .ok value
    | none => .error notProjectable
  | .array _, .object _ | .object _, .object _ => .error .raised
  | _, _ => .error notProjectable

def structuralProjectDistinct (field : Value F) : Value F → Except Stop ℕ
  | .array items => do
    let keys ← items.mapM (project field)
    match keys.mapM floats.key with
    | some hashed => .ok hashed.dedup.length
    | none => .error notProjectable
  | _ => .error notProjectable

def notNumbers : Stop := .unverifiable "basis is not a list of numbers"

def addItem (sum : F × Bool) : Value F → Except Stop (F × Bool)
  | .int value => do
    let number ← orRaise (floats.ofInt value)
    .ok (floats.add sum.1 number, sum.2)
  | .float value => .ok (floats.add sum.1 value, false)
  | _ => .error notNumbers

def structuralSum : Value F → Except Stop (Value F)
  | .array items => do
    let (total, allInt) ← items.foldlM floats.addItem (floats.zero, true)
    if allInt then
      let value ← orRaise (floats.trunc total)
      .ok (.int value)
    else .ok (.float total)
  | _ => .error notNumbers

def isNumber : Value F → Bool
  | .int _ | .float _ => true
  | _ => false

def toFloat : Value F → Option F
  | .int value => floats.ofInt value
  | .float value => some value
  | _ => none

/-- `_structural_values_match`: a boolean is no number here. -/
def structuralValuesMatch (asserted rederived : Value F) : Option Bool :=
  if isNumber asserted && isNumber rederived then do
    let a ← floats.toFloat asserted
    let b ← floats.toFloat rederived
    some (floats.near a b)
  else some (floats.same asserted rederived)

def structuralOps : List String := ["count", "distinct_count", "sum", "equals"]

def rederive (op : String) (field basis : Value F) : Except Stop (Value F) :=
  if op = "count" then
    match basis with
    | .array items => .ok (.int items.length)
    | _ => .error (.unverifiable "basis is not a list")
  else if op = "distinct_count" then do
    let count ← floats.structuralProjectDistinct field basis
    .ok (.int count)
  else if op = "sum" then floats.structuralSum basis
  else
    match basis with
    | .null => .error (.unverifiable "no expected value")
    | _ => .ok basis

inductive Verdict where
  | supported
  | miscount
  | unverifiable
  deriving DecidableEq

def judge (op : String) (asserted field basis : Value F) : Option (Verdict × Value F × String) :=
  if op ∉ structuralOps then
    some (.unverifiable, .null, "unknown op " ++ floats.repr (.string op.toList))
  else
    match asserted, floats.rederive op field basis with
    | .null, _ => some (.unverifiable, .null, "no asserted value")
    | _, .error .raised => none
    | _, .error (.unverifiable detail) => some (.unverifiable, .null, detail)
    | _, .ok rederived => do
      if ← floats.structuralValuesMatch asserted rederived then
        some (.supported, rederived, "")
      else if writable asserted && writable rederived then
        some (.miscount, rederived, "asserted " ++ floats.repr asserted ++
          " != re-derived " ++ floats.repr rederived)
      else none

/-- `StructuralClaimVerdict` -/
structure ClaimVerdict (F : Type) where
  claimId : String
  statement : String
  op : String
  asserted : Value F
  rederived : Value F
  verdict : Verdict
  detail : String

def field (fields : List (List Char × Value F)) (name : String) : Value F :=
  (get? fields name.toList).getD .null

/-- `STRUCTURAL_DERIVED_FROM_SENTINEL` -/
def isDerivedFrom : Value F → Bool
  | .string letters => letters == "@derived_from".toList
  | _ => false

def basisOf (ids : List String) (fields : List (List Char × Value F)) : Value F :=
  if isDerivedFrom (field fields "basis") then
    .array (ids.map fun id => .string id.toList)
  else field fields "basis"

def opOf (fields : List (List Char × Value F)) : Option String :=
  floats.orText (get? fields "op".toList) ""

def verifyOneStructuralClaim (ids : List String) : Value F × ℕ → Option (ClaimVerdict F)
  | (.object fields, idx) => do
    let claimId ← floats.orText (get? fields "id".toList) ("claim_" ++ toString idx)
    let statement ← floats.orText (get? fields "statement".toList) ""
    let op ← floats.opOf fields
    let asserted := field fields "asserted"
    let (verdict, rederived, detail) ← floats.judge op asserted
      (field fields "field") (basisOf ids fields)
    some ⟨claimId, statement, op, asserted, rederived, verdict, detail⟩
  | (_, idx) => some ⟨"claim_" ++ toString idx, "", "", .null, .null,
      .unverifiable, "claim is not an object"⟩

/-- `StructuralVerifyReport` -/
structure Report (F : Type) where
  claimVerdicts : List (ClaimVerdict F)
  hadClaims : Bool
  counters : List (String × ℕ)

namespace Report

def count (report : Report F) (verdict : Verdict) : ℕ :=
  report.claimVerdicts.countP (·.verdict = verdict)

def structuralVerified (report : Report F) : Bool :=
  report.hadClaims &&
    decide (1 ≤ report.count .supported + report.count .miscount) &&
    report.count .miscount == 0 && report.count .unverifiable == 0

end Report

def bump (counters : List (String × ℕ)) (key : String) (n : ℕ) : List (String × ℕ) :=
  if n = 0 then counters
  else if (counters.lookup key).isSome then
    counters.map fun entry =>
      if entry.1 = key then (key, entry.2 + n) else entry
  else counters ++ [(key, n)]

/-- `_STRUCTURAL_VERDICT_COUNTER` -/
def verdictCounter : Verdict → String
  | .supported => "structural_supported"
  | .miscount => "structural_miscount"
  | .unverifiable => "structural_unverifiable"

def receipts (claims : List (Value F)) (verdicts : List (ClaimVerdict F)) : List (String × ℕ) :=
  let counters := verdicts.foldl (fun counters verdict =>
    bump (bump counters (verdictCounter verdict.verdict) 1) ("structural_op_" ++
      if verdict.op ∈ structuralOps then verdict.op else "unknown") 1) []
  bump counters "structural_derived_from_basis" (claims.countP fun raw =>
    match raw with
    | .object fields => isDerivedFrom (field fields "basis")
    | _ => false)

def claimsOf : Value F → List (Value F)
  | .object fields =>
    match get? fields "structural_claims".toList with
    | some (.array claims) => claims
    | _ => []
  | _ => []

def derivedIds (derivedFrom : List (Option String)) : List String :=
  (derivedFrom.filterMap id).filter (· ≠ "")

def verifyStructuralClaims (data : Value F)
    (derivedFrom : List (Option String)) : Option (Report F) :=
  match claimsOf data with
  | [] => some ⟨[], false, []⟩
  | claims => do
    let verdicts ← claims.zipIdx.mapM (floats.verifyOneStructuralClaim (derivedIds derivedFrom))
    some ⟨verdicts, true, receipts claims verdicts⟩

/-- What doubles do with whole numbers. -/
structure Whole (floats : Floats F) : Prop where
  exact {n : ℤ} : n.natAbs ≤ 2 ^ 53 → ∃ x, floats.ofInt n = some x ∧ floats.trunc x = some n
  zero : floats.ofInt 0 = some floats.zero
  add {m n : ℤ} {x y : F} : floats.ofInt m = some x →
    floats.ofInt n = some y → m.natAbs ≤ 2 ^ 53 → n.natAbs ≤ 2 ^ 53 →
    (m + n).natAbs ≤ 2 ^ 53 → floats.ofInt (m + n) = some (floats.add x y)
  near_iff {m n : ℤ} {x y : F} : floats.ofInt m = some x →
    floats.ofInt n = some y → (floats.near x y = true ↔ x = y)

def asInt : Value F → Option ℤ
  | .int value => some value
  | _ => none

def member : Value F → Value F → Option (Key F)
  | .null, item => floats.key item
  | .string name, .object fields => (get? fields name).bind floats.key
  | _, _ => none

/-- The integer a claim is about. -/
def exactValue (op : String) (field : Value F) : Value F → Option ℤ
  | .array items =>
    if op = "count" then some items.length
    else if op = "distinct_count" then
      (items.mapM (floats.member field)).map (·.toFinset.card)
    else if op = "sum" then (items.mapM asInt).map List.sum
    else none
  | .int value => if op = "equals" then some value else none
  | _ => none

/-- Two numbers have floats, two different integers have different ones, and
what is not equal can be written into the detail. -/
def Comparable (asserted rederived : Value F) : Prop :=
  (isNumber asserted && isNumber rederived →
    (floats.toFloat asserted).isSome ∧ (floats.toFloat rederived).isSome) ∧
  (∀ m n, asserted = .int m → rederived = .int n → floats.ofInt m = floats.ofInt n → m = n) ∧
  (writable asserted ∧ writable rederived ∨
    (isNumber asserted && isNumber rederived) = false ∧ floats.same asserted rederived)

structure Derivable (op : String) (asserted field basis : Value F) : Prop where
  projected : op = "distinct_count" → ∀ inner rest,
    basis = .array (.object inner :: rest) → (floats.key field).isSome
  converted : op = "sum" → ∀ items, basis = .array items →
    ∀ n, .int n ∈ items.takeWhile isNumber → (floats.ofInt n).isSome
  summed : op = "sum" → ∀ items numbers, basis = .array items →
    items.mapM asInt = some numbers → (∀ n ∈ numbers, n.natAbs ≤ 2 ^ 53) ∧
      ∀ front, front <+: numbers → front.sum.natAbs ≤ 2 ^ 53
  exact : ∀ n, floats.exactValue op field basis = some n → floats.Comparable asserted (.int n)
  mixed : op = "sum" → ∀ items, basis = .array items →
    items.mapM asInt = none → items.all isNumber →
      ∀ total, floats.Comparable asserted (.float total)
  named : op = "equals" → basis ≠ .null → floats.Comparable asserted basis

structure InReach (ids : List String) (fields : List (List Char × Value F)) : Prop where
  texts : ∀ name ∈ ["id", "statement", "op"], ∀ otherwise,
    (floats.orText (get? fields name.toList) otherwise).isSome
  body : ∀ op ∈ structuralOps, floats.opOf fields = some op →
    field fields "asserted" ≠ .null →
      floats.Derivable op (field fields "asserted") (field fields "field") (basisOf ids fields)

variable {floats}

omit [DecidableEq F] in
theorem project_raised {field item : Value F} (hfield : (floats.key field).isSome) :
    project field item ≠ .error .raised := by
  cases field <;> cases item <;>
    simp only [project, key, isSome_none, notProjectable] at hfield ⊢ <;>
    first
      | contradiction
      | (split <;> simp)
      | simp

variable {items : List (Value F)} {asserted : Value F}

omit [DecidableEq F] in
theorem mapM_project_raised {field : Value F}
    (hhead : ∀ inner rest, items = .object inner :: rest → (floats.key
      field).isSome) : items.mapM (project field) ≠ .error .raised := by
  by_cases hfield : (floats.key field).isSome
  · clear hhead
    induction items with
    | nil => simp [pure, Except.pure]
    | cons item rest ih =>
      rw [mapM_cons]
      cases hitem : project field item with
      | error stop =>
        intro hstop
        cases hstop
        exact project_raised hfield hitem
      | ok value =>
        cases hrest : rest.mapM (project field) with
        | error stop =>
          intro hstop
          cases hstop
          exact ih hrest
        | ok values => simp [bind, Except.bind, pure, Except.pure]
  · cases items with
    | nil => simp [pure, Except.pure]
    | cons item rest =>
      cases item with
      | object inner => exact absurd (hhead inner rest rfl) hfield
      | _ =>
        cases field <;> simp_all [key, project, mapM_cons, bind, Except.bind, notProjectable]

omit [DecidableEq F] in
theorem member_eq (field item : Value F) :
    floats.member field item = (project field item).toOption.bind floats.key := by
  cases field <;> cases item <;>
    simp only [member, project, Except.toOption, bind_none, bind_some]
  cases get? _ _ <;> rfl

omit [DecidableEq F] in
theorem mapM_member (field : Value F) (items : List (Value F)) :
    items.mapM (floats.member field) =
      (items.mapM (project field)).toOption.bind (·.mapM floats.key) := by
  induction items with
  | nil => rfl
  | cons item rest ih =>
    rw [mapM_cons, mapM_cons, member_eq, ih]
    cases hitem : project field item with
    | error stop => simp [bind, Except.bind, Except.toOption]
    | ok value =>
      cases hrest : rest.mapM (project field) with
      | error stop =>
        cases hkey : floats.key value <;> simp [bind, Except.bind, Except.toOption, hkey]
      | ok values => simp [bind, Except.bind, Except.toOption, pure, Except.pure, mapM_cons]

theorem structuralProjectDistinct_spec {field : Value F}
    (hhead : ∀ inner rest, items = .object inner :: rest → (floats.key field).isSome) :
    (∃ detail, floats.structuralProjectDistinct field (.array items) =
        .error (.unverifiable detail) ∧
      items.mapM (floats.member field) = none) ∨
    ∃ keys, items.mapM (floats.member field) = some keys ∧
      floats.structuralProjectDistinct field (.array items) = .ok keys.toFinset.card := by
  have hraised := mapM_project_raised hhead
  rw [mapM_member]
  cases hvalues : items.mapM (project field) with
  | error stop =>
    cases stop with
    | raised => exact absurd hvalues hraised
    | unverifiable detail =>
      refine .inl ⟨detail, ?_, rfl⟩
      simp [structuralProjectDistinct, hvalues, bind, Except.bind]
  | ok values =>
    cases hkeys : values.mapM floats.key with
    | none =>
      refine .inl ⟨"basis/field not projectable", ?_, ?_⟩
      · simp [structuralProjectDistinct, hvalues, bind, Except.bind, hkeys, notProjectable]
      · simp [Except.toOption, hkeys]
    | some keys =>
      exact .inr ⟨keys, by simp [Except.toOption, hkeys], by
        simp [structuralProjectDistinct, hvalues, bind, Except.bind, hkeys, List.card_toFinset]⟩

omit [DecidableEq F] in
/-- The running total is the float of the exact one. -/
theorem foldlM_addItem_exact (hwhole : floats.Whole) (flag : Bool) :
    ∀ {items : List (Value F)} {numbers : List ℤ} {m : ℤ} {x : F},
      items.mapM asInt = some numbers → floats.ofInt m = some x →
      (∀ n ∈ numbers, n.natAbs ≤ 2 ^ 53) →
      (∀ front, front <+: numbers → (m + front.sum).natAbs ≤ 2 ^ 53) →
      ∃ y, items.foldlM floats.addItem (x, flag) = .ok (y, flag) ∧
        floats.ofInt (m + numbers.sum) = some y := by
  intro items
  induction items with
  | nil =>
    intro numbers m x hnumbers hx _ _
    cases hnumbers
    exact ⟨x, rfl, by simpa using hx⟩
  | cons item rest ih =>
    intro numbers m x hnumbers hx hsmall hrunning
    rw [ParallelLists.mapM_eq_some_iff] at hnumbers
    obtain - | ⟨n, numbers⟩ := numbers
    · cases hnumbers
    rw [map_cons, map_cons, cons.injEq, ← ParallelLists.mapM_eq_some_iff] at hnumbers
    obtain ⟨hitem, hrest⟩ := hnumbers
    have hvalue : item = .int n := by
      cases item <;> simp_all [asInt]
    subst hvalue
    have hn := hsmall n mem_cons_self
    obtain ⟨z, hz, -⟩ := hwhole.exact hn
    have hm : m.natAbs ≤ 2 ^ 53 := by simpa using hrunning [] nil_prefix
    have hmn : (m + n).natAbs ≤ 2 ^ 53 := by simpa using hrunning [n] (by simp)
    obtain ⟨y, hfold, hy⟩ := ih hrest (hwhole.add hx hz hm hn hmn)
      (fun k hk => hsmall k (mem_cons_of_mem _ hk))
      (fun front hfront => by
        have hmore := hrunning (n :: front) (cons_prefix_cons.mpr ⟨rfl, hfront⟩)
        rwa [sum_cons, ← Int.add_assoc] at hmore)
    refine ⟨y, ?_, by rwa [sum_cons, ← Int.add_assoc]⟩
    simpa [addItem, hz, orRaise, bind, Except.bind] using hfold

omit [DecidableEq F] in
theorem foldlM_addItem_total
    (hconverted : ∀ n, .int n ∈ items.takeWhile isNumber → (floats.ofInt n).isSome) :
    ∀ (x : F) (flag : Bool),
      items.foldlM floats.addItem (x, flag) = .error notNumbers ∧ items.mapM asInt = none ∨
      ∃ y, items.all isNumber ∧ items.foldlM floats.addItem (x, flag) =
        .ok (y, flag && (items.mapM asInt).isSome) := by
  induction items with
  | nil => exact fun x flag => .inr ⟨x, rfl, by simp [pure, Except.pure]⟩
  | cons item rest ih =>
    intro x flag
    have hrest (hitem : isNumber item) : ∀ n,
        .int n ∈ rest.takeWhile isNumber → (floats.ofInt n).isSome := by
      intro n hn
      refine hconverted n ?_
      rw [takeWhile_cons_of_pos hitem]
      exact mem_cons_of_mem _ hn
    cases item with
    | int n =>
      obtain ⟨z, hz⟩ := isSome_iff_exists.mp (hconverted n (by
        exact mem_cons_self))
      have hmore := ih (hrest rfl) (floats.add x z) flag
      cases hnumbers : rest.mapM asInt <;>
        simpa [addItem, hz, orRaise, bind, Except.bind, asInt, isNumber, hnumbers] using hmore
    | float z =>
      have hmore := ih (hrest rfl) (floats.add x z) false
      simpa [addItem, bind, Except.bind, asInt, isNumber] using hmore.imp_left And.left
    | _ => exact .inl ⟨by simp [addItem, bind, Except.bind], rfl⟩

section

variable (hwhole : floats.Whole)

include hwhole

omit [DecidableEq F] in
theorem structuralSum_spec
    (hconverted : ∀ n, .int n ∈ items.takeWhile isNumber → (floats.ofInt n).isSome)
    (hsummed : ∀ numbers, items.mapM asInt = some numbers → (∀ n ∈ numbers,
      n.natAbs ≤ 2 ^ 53) ∧ ∀ front, front <+: numbers → front.sum.natAbs ≤ 2 ^ 53) :
    match items.mapM asInt with
    | some numbers => floats.structuralSum (.array items) = .ok (.int numbers.sum)
    | none => floats.structuralSum (.array items) = .error notNumbers ∨
        items.all isNumber ∧ ∃ total, floats.structuralSum (.array items) = .ok (.float total) := by
  cases hnumbers : items.mapM asInt with
  | some numbers =>
    obtain ⟨hsmall, hrunning⟩ := hsummed numbers hnumbers
    obtain ⟨total, hfold, htotal⟩ := foldlM_addItem_exact hwhole true
      hnumbers hwhole.zero hsmall (by simpa using hrunning)
    obtain ⟨other, hother, htrunc⟩ := hwhole.exact (hrunning numbers prefix_rfl)
    rw [Int.zero_add, hother, some.injEq] at htotal
    simp [structuralSum, hfold, ← htotal, htrunc, orRaise, bind, Except.bind]
  | none =>
    obtain ⟨hfold, -⟩ | ⟨total, hall, hfold⟩ := foldlM_addItem_total hconverted floats.zero true
    · exact .inl (by simp [structuralSum, hfold, bind, Except.bind])
    · refine .inr ⟨hall, total, ?_⟩
      simp [structuralSum, hfold, hnumbers, bind, Except.bind]

theorem rederive_spec {op : String} {field basis : Value F} (hop : op ∈ structuralOps)
    (hderivable : floats.Derivable op asserted field basis) :
    (∃ detail, floats.rederive op field basis = .error (.unverifiable detail) ∧
      floats.exactValue op field basis = none) ∨
    ∃ r, floats.rederive op field basis = .ok r ∧
      floats.Comparable asserted r ∧
      ∀ n, floats.exactValue op field basis = some n → r = .int n := by
  obtain ⟨hprojected, hconverted, hsummed, hexact, hmixed, hnamed⟩ := hderivable
  simp only [structuralOps, mem_cons, not_mem_nil, or_false] at hop
  obtain rfl | rfl | rfl | rfl := hop
  · cases basis with
    | array items =>
      exact .inr ⟨_, rfl, hexact _ rfl, fun n hn => by rw [← some.inj hn]⟩
    | _ => exact .inl ⟨_, rfl, rfl⟩
  · cases basis with
    | array items =>
      obtain ⟨detail, hstop, hnone⟩ | ⟨keys, hkeys, hcount⟩ :=
        structuralProjectDistinct_spec fun inner rest hitems =>
          hprojected rfl inner rest (hitems ▸ rfl)
      · exact .inl ⟨detail, by simp [rederive, hstop, bind, Except.bind],
          by simp [exactValue, hnone]⟩
      · have hvalue : floats.exactValue "distinct_count" field
            (.array items) = some (keys.toFinset.card : ℤ) := by
          simp [exactValue, hkeys]
        refine .inr ⟨_, ?_, hexact _ hvalue, fun n hn => ?_⟩
        · simp [rederive, hcount, bind, Except.bind]
        · rw [hvalue] at hn
          rw [← some.inj hn]
    | _ => exact .inl ⟨_, rfl, rfl⟩
  · cases basis with
    | array items =>
      have hsum := structuralSum_spec hwhole (hconverted rfl items rfl)
        fun numbers => hsummed rfl items numbers rfl
      cases hnumbers : items.mapM asInt with
      | some numbers =>
        rw [hnumbers] at hsum
        have hvalue : floats.exactValue "sum" field (.array items) = some numbers.sum := by
          simp [exactValue, hnumbers]
        refine .inr ⟨_, by simpa [rederive] using hsum, hexact _ hvalue,
          fun n hn => ?_⟩
        rw [hvalue] at hn
        rw [← some.inj hn]
      | none =>
        have hvalue : floats.exactValue "sum" field (.array items) = none := by
          simp [exactValue, hnumbers]
        rw [hnumbers] at hsum
        obtain hstop | ⟨hall, total, htotal⟩ := hsum
        · exact .inl ⟨_, hstop, hvalue⟩
        · refine .inr ⟨_, by simpa [rederive] using htotal,
            hmixed rfl items rfl hnumbers hall total, fun n hn => ?_⟩
          rw [hvalue] at hn
          cases hn
    | _ => exact .inl ⟨_, rfl, rfl⟩
  · cases basis with
    | null => exact .inl ⟨_, rfl, rfl⟩
    | int value =>
      exact .inr ⟨_, rfl, hnamed rfl (by simp), fun n hn => by rw [← some.inj hn]⟩
    | _ => exact .inr ⟨_, rfl, hnamed rfl (by simp), by simp [exactValue]⟩

theorem structuralValuesMatch_spec {rederived : Value F}
    (hcomparable : floats.Comparable asserted rederived) :
    ∃ matched, floats.structuralValuesMatch asserted rederived = some matched ∧
      (matched = true ∨ writable asserted ∧ writable rederived) ∧
      ∀ m n, asserted = .int m → rederived = .int n → (matched = true ↔ m = n) := by
  obtain ⟨hfloats, hdistinct, hwritten⟩ := hcomparable
  unfold structuralValuesMatch
  cases hnumbers : isNumber asserted && isNumber rederived with
  | true =>
    obtain ⟨hx, hy⟩ := hfloats hnumbers
    obtain ⟨x, hx⟩ := isSome_iff_exists.mp hx
    obtain ⟨y, hy⟩ := isSome_iff_exists.mp hy
    refine ⟨floats.near x y, by simp [hx, hy], ?_, ?_⟩
    · exact .inr (hwritten.resolve_right (by simp [hnumbers]))
    · rintro m n rfl rfl
      refine (hwhole.near_iff hx hy).trans ⟨fun heq => ?_, fun heq => ?_⟩
      · exact hdistinct m n rfl rfl (hx.trans (heq ▸ hy.symm))
      · exact some.inj (hx.symm.trans (heq ▸ hy))
  | false =>
    refine ⟨_, rfl, hwritten.symm.imp_left And.right, ?_⟩
    rintro m n rfl rfl
    cases hnumbers

theorem judge_spec {op : String} {field basis : Value F}
    (hbody : op ∈ structuralOps → asserted ≠ .null → floats.Derivable op asserted field basis) :
    ∃ verdict rederived detail,
      floats.judge op asserted field basis = some (verdict, rederived, detail) ∧
        ∀ m n, op ∈ structuralOps → asserted = .int m →
          floats.exactValue op field basis = some n →
          (verdict = .supported ↔ m = n) := by
  unfold judge
  by_cases hop : op ∈ structuralOps
  case neg => exact ⟨_, _, _, if_pos hop, fun _ _ hin => absurd hin hop⟩
  rw [if_neg (not_not.mpr hop)]
  by_cases hnull : asserted = .null
  · subst hnull
    exact ⟨_, _, _, rfl, fun m n _ hm => by cases hm⟩
  obtain ⟨detail, hstop, hvalue⟩ | ⟨rederived, hderived, hcomparable, hvalue⟩ :=
    rederive_spec hwhole hop (hbody hop hnull)
  · refine ⟨.unverifiable, .null, detail, ?_, fun m n _ _ hn => ?_⟩
    · rw [hstop]
      cases asserted <;> first | rfl | exact absurd rfl hnull
    · rw [hvalue] at hn
      cases hn
  · obtain ⟨matched, hmatched, hwritten, hints⟩ := structuralValuesMatch_spec hwhole hcomparable
    rw [hderived]
    cases matched with
    | true =>
      refine ⟨.supported, rederived, "", ?_, fun m n _ hm hn => ?_⟩
      · cases asserted <;> first | exact absurd rfl hnull | simp [hmatched]
      · exact iff_of_true rfl ((hints m n hm (hvalue n hn)).mp rfl)
    | false =>
      obtain ⟨hasserted, hrederived⟩ := hwritten.resolve_left (by simp)
      refine ⟨.miscount, rederived, "asserted " ++ floats.repr asserted ++
        " != re-derived " ++ floats.repr rederived, ?_,
        fun m n _ hm hn => ?_⟩
      · cases asserted <;> first
          | exact absurd rfl hnull
          | simp [hmatched, hasserted, hrederived]
      · exact iff_of_false (by simp)
          fun heq => by simpa using (hints m n hm (hvalue n hn)).mpr heq

theorem verifyOneStructuralClaim_spec {ids : List String} (raw : Value F) (idx : ℕ)
    (hreach : ∀ fields, raw = .object fields → floats.InReach ids fields) :
    ∃ verdict, floats.verifyOneStructuralClaim ids (raw, idx) = some verdict ∧
      ∀ fields op m n, raw = .object fields → floats.opOf fields = some op →
        op ∈ structuralOps → field fields "asserted" = .int m →
        floats.exactValue op (field fields "field") (basisOf ids fields) = some n →
        (verdict.verdict = .supported ↔ m = n) := by
  cases raw with
  | object fields =>
    obtain ⟨htexts, hbody⟩ := hreach fields rfl
    obtain ⟨claimId, hid⟩ := isSome_iff_exists.mp
      (htexts "id" (by simp) ("claim_" ++ toString idx))
    obtain ⟨statement, hstatement⟩ := isSome_iff_exists.mp (htexts "statement" (by simp) "")
    obtain ⟨op, hop⟩ := isSome_iff_exists.mp (htexts "op" (by simp) "")
    obtain ⟨verdict, rederived, detail, hjudge, hints⟩ :=
      judge_spec hwhole fun hin => hbody op hin hop
    refine ⟨⟨claimId, statement, op, field fields "asserted", rederived, verdict, detail⟩, ?_, ?_⟩
    · simp only [verifyOneStructuralClaim, hid, hstatement, opOf, hop,
        hjudge, bind_eq_bind, bind_some]
    · rintro _ op' m n ⟨rfl⟩ hop'
      obtain rfl : op = op' := some.inj (hop.symm.trans hop')
      exact hints m n
  | _ => exact ⟨_, rfl, fun _ _ _ _ heq => by cases heq⟩

end

omit [DecidableEq F] in
theorem structuralVerified_iff (report : Report F) :
    report.structuralVerified = true ↔
      report.hadClaims = true ∧ report.claimVerdicts ≠ [] ∧
        ∀ verdict ∈ report.claimVerdicts, verdict.verdict = .supported := by
  simp only [Report.structuralVerified, Report.count, Bool.and_eq_true,
    decide_eq_true_eq, beq_iff_eq, countP_eq_zero, and_assoc]
  refine and_congr_right fun _ => ⟨?_, ?_⟩
  · rintro ⟨hone, hmiscount, hunverifiable⟩
    refine ⟨fun hnil => by simp [hnil] at hone, fun verdict hin => ?_⟩
    cases hverdict : verdict.verdict <;> simp_all
  · rintro ⟨hne, hall⟩
    refine ⟨?_, by simp +contextual [hall], by simp +contextual [hall]⟩
    obtain ⟨verdict, hin⟩ := exists_mem_of_ne_nil _ hne
    have hpos : 0 < report.claimVerdicts.countP (·.verdict = .supported) :=
      countP_pos_iff.mpr ⟨verdict, hin, by simpa using hall verdict hin⟩
    exact decide_eq_true (by omega)

/-- What raises, and what a float does not tell apart, is all which keeps a
structural claim from its exact value. -/
theorem structural_claims_exact (hwhole : floats.Whole) (data : Value F)
    (derivedFrom : List (Option String)) :
    (∀ report, floats.verifyStructuralClaims data derivedFrom = some report →
      (report.structuralVerified = true ↔ claimsOf data ≠ [] ∧
        ∀ verdict ∈ report.claimVerdicts, verdict.verdict = .supported)) ∧
    ((∀ fields, .object fields ∈ claimsOf data → floats.InReach (derivedIds derivedFrom) fields) →
      ∃ report, floats.verifyStructuralClaims data derivedFrom = some report ∧
        report.claimVerdicts.length = (claimsOf data).length ∧
        ∀ (idx : ℕ) fields op m n,
          (claimsOf data)[idx]? = some (.object fields) →
          floats.opOf fields = some op → op ∈ structuralOps →
          field fields "asserted" = .int m →
          floats.exactValue op (field fields "field")
            (basisOf (derivedIds derivedFrom) fields) = some n →
          ∃ verdict, report.claimVerdicts[idx]? = some verdict ∧
            (verdict.verdict = .supported ↔ m = n)) := by
  unfold verifyStructuralClaims
  cases hclaims : claimsOf data with
  | nil =>
    refine ⟨fun report hreport => ?_, fun _ => ⟨_, rfl, rfl, by simp⟩⟩
    cases hreport
    simp [structuralVerified_iff]
  | cons first rest =>
    dsimp only
    rw [← hclaims]
    constructor
    · intro report hreport
      obtain ⟨verdicts, hverdicts, hreport⟩ := bind_eq_some_iff.mp hreport
      cases hreport
      have hlength := congrArg length (ParallelLists.mapM_eq_some_iff.mp hverdicts)
      rw [structuralVerified_iff]
      simp only [length_map, length_zipIdx] at hlength
      simp [← length_pos_iff, ← hlength]
    · intro hreach
      have hone (idx : ℕ) (raw : Value F) (hin : raw ∈ claimsOf data) :=
        verifyOneStructuralClaim_spec hwhole raw idx
          fun fields heq => hreach fields (heq ▸ hin)
      cases hverdicts : (claimsOf data).zipIdx.mapM
          (floats.verifyOneStructuralClaim (derivedIds derivedFrom)) with
      | none =>
        obtain ⟨⟨raw, idx⟩, hin, hnone⟩ := ParallelLists.mapM_eq_none_iff.mp hverdicts
        obtain ⟨verdict, hverdict, -⟩ := hone idx raw (fst_mem_of_mem_zipIdx hin)
        rw [hnone] at hverdict
        cases hverdict
      | some verdicts =>
        have hmap := ParallelLists.mapM_eq_some_iff.mp hverdicts
        have hlength := congrArg length hmap
        simp only [length_map, length_zipIdx] at hlength
        refine ⟨_, rfl, hlength.symm, ?_⟩
        intro idx fields op m n hclaim hop hknown hasserted hvalue
        obtain ⟨verdict, hverdict, hints⟩ := hone idx _ (mem_of_getElem? hclaim)
        refine ⟨verdict, ?_, hints fields op m n rfl hop hknown hasserted hvalue⟩
        have hat := congrArg (·[idx]?) hmap
        simp only [getElem?_map, getElem?_zipIdx, hclaim,
          map_some, Nat.zero_add, hverdict] at hat
        cases hget : verdicts[idx]? <;> simp_all

/-- To 53 digits, half to even. -/
def roundNat (n : ℕ) : ℕ :=
  let unit := 2 ^ (n.log2 - 52)
  let rest := n % unit
  let up := unit < 2 * rest ∨ unit = 2 * rest ∧ n / unit % 2 = 1
  (n / unit + if up then 1 else 0) * unit

theorem roundNat_exact {n : ℕ} (hn : n ≤ 2 ^ 53) : roundNat n = n := by
  obtain rfl | hlt := hn.eq_or_lt
  · decide +kernel
  · have hlog : n.log2 - 52 = 0 := by
      obtain rfl | hne := n.eq_zero_or_pos
      · rfl
      · have hlog := (Nat.log2_lt (by omega)).mpr hlt
        omega
    simp [roundNat, hlog, Nat.mod_one]

/-- `2 ^ 1024` -/
def doubleLimit : ℕ := (2 ^ 128) ^ 8

def roundInt (n : ℤ) : Option ℤ :=
  if roundNat n.natAbs < doubleLimit then some (n.sign * roundNat n.natAbs)
  else none

theorem roundInt_exact {n : ℤ} (hn : n.natAbs ≤ 2 ^ 53) : roundInt n = some n := by
  have hlimit : 2 ^ 53 < doubleLimit := by decide +kernel
  rw [roundInt, roundNat_exact hn, if_pos (by omega), Int.sign_mul_natAbs]

/-- The whole doubles; `none` stands for an infinity. -/
def wholeFloats : Floats (Option ℤ) where
  ofInt n := (roundInt n).map some
  zero := some 0
  add x y := x.bind fun m => y.bind fun n => roundInt (m + n)
  trunc x := x
  near x y := x.isSome && x == y
  whole x := x
  str _ := ""
  repr
    | .int n => toString n
    | _ => ""

theorem wholeFloats_whole : wholeFloats.Whole where
  exact {n} hn := ⟨some n, by simp [wholeFloats, roundInt_exact hn], rfl⟩
  zero := rfl
  add {m n x y} hx hy hm hn hmn := by
    simp only [wholeFloats, roundInt_exact hm, roundInt_exact hn,
      map_some, some.injEq] at hx hy
    subst hx hy
    simp [wholeFloats, roundInt_exact hmn]
  near_iff {m n x y} hx hy := by
    obtain ⟨k, -, rfl⟩ := map_eq_some_iff.mp hx
    simp [wholeFloats]

/-- `{"structural_claims": [fields]}` -/
def finding (fields : List (String × Value (Option ℤ))) : Value (Option ℤ) :=
  .object [("structural_claims".toList,
    .array [.object (fields.map fun entry => (entry.1.toList, entry.2))])]

def equals (asserted basis : ℤ) : Value (Option ℤ) :=
  finding [("op", .string "equals".toList), ("asserted", .int asserted), ("basis", .int basis)]

def verdictsOf (data : Value (Option ℤ)) : Option (List Verdict) :=
  (wholeFloats.verifyStructuralClaims data []).map fun report =>
    report.claimVerdicts.map (·.verdict)

theorem equals_inReach (fields : List (List Char × Value (Option ℤ)))
    (hin : .object fields ∈ claimsOf (equals 3 4)) : wholeFloats.InReach [] fields := by
  obtain ⟨-, rfl⟩ | ⟨⟨⟩⟩ := mem_cons.mp hin
  have hcomparable : wholeFloats.Comparable (.int 3) (.int 4) := by
    refine ⟨fun _ => by decide +kernel, ?_, .inl (by decide +kernel)⟩
    rintro m n ⟨⟩ ⟨⟩ hsame
    exact absurd hsame (by decide +kernel)
  refine ⟨fun name hname otherwise => ?_, fun op _ hop _ => ?_⟩
  · simp only [mem_cons, not_mem_nil, or_false] at hname
    obtain rfl | rfl | rfl := hname <;> rfl
  · cases hop
    refine ⟨nofun, nofun, nofun, ?_, nofun, fun _ _ => hcomparable⟩
    rintro n ⟨⟩
    exact hcomparable

theorem structural_claims_exact_three :
    ∃ report, wholeFloats.verifyStructuralClaims (equals 3 4) [] = some report ∧
      ∃ verdict, report.claimVerdicts[0]? = some verdict ∧
        (verdict.verdict = .supported ↔ (3 : ℤ) = 4) := by
  obtain ⟨report, hreport, -, hints⟩ :=
    (structural_claims_exact wholeFloats_whole (equals 3 4) []).2 equals_inReach
  exact ⟨report, hreport, hints 0 _ "equals" 3 4 rfl rfl (by decide) rfl rfl⟩

/-- Two integers with one float match; an integer without a float, and a
dictionary asked for a list, raise. -/
theorem structural_claims_inexact :
    verdictsOf (equals (2 ^ 53 + 1) (2 ^ 53)) = some [.supported] ∧
    verdictsOf (equals (10 ^ 400) 0) = none ∧
    verdictsOf (finding [("op", .string "distinct_count".toList),
      ("asserted", .int 1), ("field", .array []),
      ("basis", .array [.object []])]) = none := by
  decide +kernel

end Floats
end Legba.StructuralClaims
