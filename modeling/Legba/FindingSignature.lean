import Legba.AnalystOutputs
import Mathlib.Data.List.Dedup
import Mathlib.Data.List.Infix
import Mathlib.Data.List.Sort

/-!
# The situation signature of a finding

A stored signature is taken as it is, with the producing analyst added to one
which has no dimension yet.  Without one it is an explicit situation of the
payload, or derived from the topic of a payload which names some entity.  A
payload is read at two levels, the finding and its inner `data`.

A derivation raises where an entity field cannot be iterated.
-/

namespace Legba.Findings

open JsonValue String Option

/-- The operations of `str`: the text of a value which is none, and the ones
which depend on Unicode. -/
structure PythonText where
  str : Json → String
  strip : String → String
  lower : String → String

def startsWith (text head : String) : Bool :=
  head.toList.isPrefixOf text.toList

def includes (text part : String) : Bool :=
  decide (part.toList <:+: text.toList)

/-- `_SIGNATURE_DIMENSION_MARKER`. -/
def dimensionMarker : String := "#dim:"

def unattributedDimension : String := "_unattributed"

def dimensionMaxChars : ℕ := 64

section

variable (text : PythonText)

def dimensionToken (analystId : Option String) : String :=
  let token := (text.lower (text.strip (analystId.getD ""))).toList.map
    fun c => if c = '#' then '_' else if c = '|' then '_' else c
  if token = [] then unattributedDimension
  else String.ofList (token.take dimensionMaxChars)

def withDimension (signature : String) (analystId : Option String) : String :=
  if !startsWith signature "sig:" || includes signature dimensionMarker then
    signature
  else signature ++ dimensionMarker ++ dimensionToken text analystId

def parseData : Json → List (String × Json)
  | .object fields => fields
  | _ => []

def truthy : Json → Bool
  | .null => false
  | .bool value => value
  | .number mantissa _ => decide (mantissa ≠ 0)
  | .string value => decide (value ≠ "")
  | .array items => !items.isEmpty
  | .object fields => !fields.isEmpty

def pyStr : Json → String
  | .string value => value
  | value => text.str value

/-- The payload and its inner `data`, if that is an object. -/
def sources (data : List (String × Json)) : List (List (String × Json)) :=
  match field? data "data" with
  | some (.object inner) => [data, inner]
  | _ => [data]

/-- `source.get(key)`, if it is truthy. -/
def given (source : List (String × Json)) (key : String) : Option Json :=
  (field? source key).filter truthy

def firstGiven (data : List (String × Json)) (keys : List String) : Option Json :=
  (sources data).findSome? fun source => keys.findSome? (given source)

def entityKeys : List String :=
  ["key_entities", "entities", "actors", "locations", "geo", "geo_countries"]

def topicKeys : List String :=
  ["category", "topic", "situation_kind", "event_type"]

/-- What `for v in vals` runs over, a text being wrapped into a list; `none`
if it raises. -/
def iterate : Json → Option (List Json)
  | .string value => some [.string value]
  | .array items => some items
  | .object fields => some (fields.map fun field => .string field.1)
  | _ => none

def tokensOf (values : List Json) : List String :=
  (values.map fun value => text.lower (text.strip (pyStr text value))).filter
    fun token => decide (2 ≤ token.length)

/-- The sorted entity tokens, `none` if a field cannot be iterated. -/
def entityTokens (data : List (String × Json)) : Option (List String) :=
  let fields := (sources data).flatMap fun source => entityKeys.filterMap (given source)
  (fields.mapM iterate).map fun values =>
    (values.flatMap (tokensOf text)).dedup.insertionSort (· ≤ ·)

def topic (data : List (String × Json)) (fallback : Option String) : String :=
  match firstGiven data topicKeys with
  | some value => text.lower (text.strip (pyStr text value))
  | none => text.lower (text.strip (fallback.getD ""))

def explicitSignature (data : List (String × Json)) : Option String :=
  (firstGiven data ["situation_signature", "situation_id"]).map
    fun value => text.strip (pyStr text value)

def situationSignatureEntityK : ℕ := 0

/-- The outer option is `none` if the derivation raises, the inner one if the
finding is not to be clustered. -/
def deriveSignature (data : List (String × Json)) (fallback : Option String)
    (analystId : Option String) : Option (Option String) :=
  match (explicitSignature text data).filter (· ≠ "") with
  | some explicit => some (some ("sit:" ++ explicit))
  | none =>
    (entityTokens text data).map fun tokens =>
      tokens.head?.map fun first =>
        let named := topic text data fallback
        let base := "sig:" ++ if named = "" then first else named
        let keyed :=
          if 0 < situationSignatureEntityK then
            base ++ "|" ++ String.intercalate "," (tokens.take situationSignatureEntityK)
          else base
        withDimension text keyed analystId

/-- The signature `_cluster` gives a finding: the stored one, or a derived
one. -/
def signatureOf (fallback : Option String) (row : OutputRow) : Option (Option String) :=
  match row.situationSignature.filter (· ≠ "") with
  | some signature => some (some (withDimension text signature row.analystId))
  | none => deriveSignature text (parseData row.data) fallback row.analystId

variable {text}

theorem withDimension_withDimension (signature : String) (analystId : Option String) :
    withDimension text (withDimension text signature analystId) analystId =
      withDimension text signature analystId := by
  by_cases hkept : (!startsWith signature "sig:" || includes signature dimensionMarker) = true
  · have hsame : withDimension text signature analystId = signature :=
      if_pos hkept
    rw [hsame, hsame]
  · have hlong : withDimension text signature analystId =
        signature ++ dimensionMarker ++ dimensionToken text analystId :=
      if_neg hkept
    have hincludes : includes (signature ++ dimensionMarker ++
        dimensionToken text analystId) dimensionMarker := by
      unfold includes
      rw [decide_eq_true_eq, toList_append, toList_append]
      exact List.infix_append _ _ _
    rw [hlong]
    exact if_pos (by rw [hincludes, Bool.or_true])

variable {signature : String} {fallback : Option String}

theorem withDimension_ne_empty (hsignature : signature ≠ "")
    (analystId : Option String) : withDimension text signature analystId ≠ "" := by
  unfold withDimension
  split
  · exact hsignature
  · intro hempty
    have hlength := congrArg length hempty
    simp [length_append, dimensionMarker] at hlength

/-- A signature found for a finding of the analyst is found again once it is
stored. -/
structure Stable (text : PythonText) (signature : String) (analystId : Option String) : Prop where
  nonempty : signature ≠ ""
  dimensioned : withDimension text signature analystId = signature

theorem stable_withDimension (hsignature : signature ≠ "") (analystId : Option String) :
    Stable text (withDimension text signature analystId) analystId where
  nonempty := withDimension_ne_empty hsignature analystId
  dimensioned := withDimension_withDimension signature analystId

theorem stable_explicit (explicit : String) (analystId : Option String) :
    Stable text ("sit:" ++ explicit) analystId where
  nonempty := by
    intro hempty
    have hlength := congrArg length hempty
    simp [length_append] at hlength
  dimensioned := by
    have hother : startsWith ("sit:" ++ explicit) "sig:" = false := by
      unfold startsWith
      rw [toList_append]
      rfl
    unfold withDimension
    rw [hother]
    rfl

theorem deriveSignature_stable {data : List (String × Json)}
    {analystId : Option String}
    (hsignature : deriveSignature text data fallback analystId =
      some (some signature)) : Stable text signature analystId := by
  unfold deriveSignature at hsignature
  split at hsignature
  · simp only [some.injEq] at hsignature
    subst hsignature
    exact stable_explicit _ _
  · obtain ⟨tokens, _, hsignature⟩ := map_eq_some_iff.mp hsignature
    obtain ⟨first, _, hsignature⟩ := map_eq_some_iff.mp hsignature
    subst hsignature
    apply stable_withDimension
    intro hempty
    have hlength := congrArg length hempty
    simp [situationSignatureEntityK, length_append] at hlength

theorem signatureOf_stable {row : OutputRow}
    (hsignature : signatureOf text fallback row = some (some signature)) :
    Stable text signature row.analystId := by
  unfold signatureOf at hsignature
  split at hsignature
  next stored hstored =>
    simp only [some.injEq] at hsignature
    subst hsignature
    have hne := (filter_eq_some_iff.mp hstored).2
    exact stable_withDimension (of_decide_eq_true hne) _
  next => exact deriveSignature_stable hsignature

theorem Stable.signatureOf {row : OutputRow} (hstable : Stable text signature row.analystId)
    (hstored : row.situationSignature = some signature) (fallback : Option String) :
    Findings.signatureOf text fallback row = some (some signature) := by
  have hgiven : row.situationSignature.filter (· ≠ "") = some signature := by
    simp [hstored, Option.filter, hstable.nonempty]
  unfold Findings.signatureOf
  rw [hgiven]
  simp only [hstable.dimensioned]

end

end Legba.Findings
