import Mathlib.Data.Int.Init
import Mathlib.Data.List.Basic

/-!
# JSON values and their text

A JSON value with exact decimal numbers, field access, and the text a
relational `->>` operator extracts: the content of a string, nothing for
`null`, and the rendering of every other value.  The one fact which needs an
argument is that a rendering is never an ordinary word, so extraction can be
compared with a word exactly when the value is that string.  The canonical
order of the keys leaves every field where a reader finds it.
-/

namespace JsonValue

open Option Nat List

/-- A JSON value; `number m k` is `m` divided by ten to the power `k`. -/
inductive Json where
  | null
  | bool (value : Bool)
  | number (mantissa : ℤ) (scale : ℕ)
  | string (value : String)
  | array (items : List Json)
  | object (fields : List (String × Json))

def field? (fields : List (String × Json)) (key : String) : Option Json :=
  fields.lookup key

def setField (fields : List (String × Json)) (key : String) (value : Json) : List (String × Json) :=
  if (field? fields key).isSome then
    fields.map fun field => if field.1 = key then (key, value) else field
  else fields ++ [(key, value)]

@[simp] theorem field?_setField_self (fields : List (String × Json)) (key : String)
    (value : Json) : field? (setField fields key value) key = some value := by
  unfold setField
  split
  · rename_i hfound
    unfold field? at hfound ⊢
    induction fields with
    | nil => simp at hfound
    | cons field rest ih =>
      rw [map_cons, lookup_cons]
      by_cases hfield : field.1 = key
      · simp [hfield]
      · have hmiss : (key == field.1) = false := beq_eq_false_iff_ne.mpr fun heq => hfield heq.symm
        rw [if_neg hfield, hmiss]
        rw [lookup_cons, hmiss] at hfound
        exact ih hfound
  · rename_i hmissing
    rw [not_isSome_iff_eq_none] at hmissing
    unfold field? at hmissing ⊢
    simp [lookup_append, hmissing]

theorem field?_setField_of_ne (fields : List (String × Json))
    {key other : String} (hother : other ≠ key) (value : Json) :
    field? (setField fields key value) other = field? fields other := by
  have hmiss : (other == key) = false := beq_eq_false_iff_ne.mpr hother
  have hmap : (fields.map fun field =>
        if field.1 = key then (key, value) else field).lookup other =
      fields.lookup other := by
    induction fields with
    | nil => rfl
    | cons field rest ih =>
      rw [map_cons, lookup_cons, lookup_cons, ih]
      by_cases hfield : field.1 = key
      · rw [if_pos hfield, hfield, hmiss]
      · rw [if_neg hfield]
  unfold setField field?
  split
  · exact hmap
  · simp [lookup_append, lookup_cons, hmiss]

def Json.string? : Json → Option String
  | .string value => some value
  | _ => none

theorem Json.string?_eq_some {value : Json} {text : String} :
    value.string? = some text ↔ value = .string text := by
  cases value with
  | string found => simp [Json.string?]
  | null => simp [Json.string?]
  | bool _ => simp [Json.string?]
  | number _ _ => simp [Json.string?]
  | array _ => simp [Json.string?]
  | object _ => simp [Json.string?]

def escapeChar (c : Char) : List Char :=
  if c = '"' then ['\\', '"']
  else if c = '\\' then ['\\', '\\']
  else if c = '\n' then ['\\', 'n']
  else if c = '\t' then ['\\', 't']
  else if c = '\r' then ['\\', 'r']
  else [c]

def quote (value : String) : List Char :=
  '"' :: (value.toList.flatMap escapeChar ++ ['"'])

def decimalDigits (magnitude scale : ℕ) : List Char :=
  let digits := toDigits 10 magnitude
  if scale = 0 then digits
  else
    let padded := List.replicate (scale + 1 - digits.length) '0' ++ digits
    padded.take (padded.length - scale) ++ '.' :: padded.drop (padded.length - scale)

def renderNumber (mantissa : ℤ) (scale : ℕ) : List Char :=
  if mantissa < 0 then '-' :: decimalDigits mantissa.natAbs scale
  else decimalDigits mantissa.natAbs scale

mutual

def Json.render : Json → List Char
  | .null => ['n', 'u', 'l', 'l']
  | .bool true => ['t', 'r', 'u', 'e']
  | .bool false => ['f', 'a', 'l', 's', 'e']
  | .number mantissa scale => renderNumber mantissa scale
  | .string value => quote value
  | .array items => '[' :: (renderItems items ++ [']'])
  | .object fields => '\x7b' :: (renderFields fields ++ ['\x7d'])

def renderItems : List Json → List Char
  | [] => []
  | [item] => item.render
  | item :: next :: rest => item.render ++ [',', ' '] ++ renderItems (next :: rest)

def renderFields : List (String × Json) → List Char
  | [] => []
  | [(key, value)] => quote key ++ [':', ' '] ++ value.render
  | (key, value) :: next :: rest =>
    quote key ++ [':', ' '] ++ value.render ++ [',', ' '] ++ renderFields (next :: rest)

end

/-- The text of a value: the content of a string, SQL `NULL` for JSON `null`,
the rendering otherwise. -/
def Json.asText : Json → Option String
  | .null => none
  | .string value => some value
  | value => some (String.ofList value.render)

theorem decimalDigits_head (magnitude scale : ℕ) :
    ∀ c, (decimalDigits magnitude scale).head? = some c → c.isDigit = true := by
  intro c hc
  have hdigits : ∀ d ∈ toDigits 10 magnitude, d.isDigit = true :=
    fun d hd => isDigit_of_mem_toDigits (by omega) (by omega) hd
  have hzero : ('0' : Char).isDigit = true := by decide
  unfold decimalDigits at hc
  dsimp only at hc
  split at hc
  · exact hdigits c (mem_of_mem_head? hc)
  · have hpadded : ∀ d ∈ replicate
        (scale + 1 - (toDigits 10 magnitude).length) '0' ++
          toDigits 10 magnitude, d.isDigit = true := by
      intro d hd
      rcases mem_append.mp hd with hpad | hdigit
      · exact eq_of_mem_replicate hpad ▸ hzero
      · exact hdigits d hdigit
    have hlength : scale + 1 ≤ (replicate
        (scale + 1 - (toDigits 10 magnitude).length) '0' ++
          toDigits 10 magnitude).length := by
      simp only [length_append, length_replicate]
      omega
    generalize replicate
      (scale + 1 - (toDigits 10 magnitude).length) '0' ++
        toDigits 10 magnitude = padded at hc hpadded hlength
    cases padded with
    | nil => simp at hlength
    | cons first rest =>
      have htake : (first :: rest).length - scale =
          ((first :: rest).length - scale - 1) + 1 := by omega
      rw [htake, take_succ_cons, cons_append, head?_cons, some.injEq] at hc
      exact hpadded c (hc ▸ mem_cons_self)

theorem not_isDigit_of_isLower {c : Char} (hlower : c.isLower) : c.isDigit ≠ true := by
  intro hdigit
  have hletter : 'a'.val ≤ c.val := of_decide_eq_true (Bool.and_eq_true_iff.mp hlower).1
  have hnumeral : c.val ≤ '9'.val := of_decide_eq_true (Bool.and_eq_true_iff.mp hdigit).2
  exact absurd (UInt32.le_trans hletter hnumeral) (by decide)

theorem asText_eq_some_iff {word : String} {first : Char} (hfirst : word.toList.head? = some first)
    (hlower : first.isLower) (htrue : word.toList ≠ ['t', 'r', 'u', 'e'])
    (hfalse : word.toList ≠ ['f', 'a', 'l', 's', 'e']) (value : Json) :
    value.asText = some word ↔ value = .string word := by
  have hword : ∀ text : List Char, String.ofList text = word → text = word.toList := by
    intro text htext
    rw [← htext, String.toList_ofList]
  cases value with
  | null => simp [Json.asText]
  | string text => simp [Json.asText]
  | bool flag =>
    simp only [Json.asText, some.injEq, reduceCtorEq, iff_false]
    intro htext
    cases flag with
    | false => exact hfalse (hword _ htext).symm
    | true => exact htrue (hword _ htext).symm
  | number mantissa scale =>
    simp only [Json.asText, some.injEq, reduceCtorEq, iff_false]
    intro htext
    have hhead : (renderNumber mantissa scale).head? = some first := by
      rw [← hfirst, ← hword _ htext, Json.render]
    unfold renderNumber at hhead
    split at hhead
    · simp only [head?_cons, some.injEq] at hhead
      subst first
      exact absurd hlower (by decide)
    · have hdigit := decimalDigits_head _ _ first hhead
      exact not_isDigit_of_isLower hlower hdigit
  | array items =>
    simp only [Json.asText, some.injEq, reduceCtorEq, iff_false]
    intro htext
    have hhead := hfirst
    rw [← hword _ htext, Json.render, head?_cons, some.injEq] at hhead
    subst first
    exact absurd hlower (by decide)
  | object fields =>
    simp only [Json.asText, some.injEq, reduceCtorEq, iff_false]
    intro htext
    have hhead := hfirst
    rw [← hword _ htext, Json.render, head?_cons, some.injEq] at hhead
    subst first
    exact absurd hlower (by decide)

def insertField (field : String × Json) : List (String × Json) → List (String × Json)
  | [] => [field]
  | head :: rest =>
    if head.1 < field.1 then head :: insertField field rest
    else field :: head :: rest

mutual

def Json.sortKeys : Json → Json
  | .null => .null
  | .bool value => .bool value
  | .number mantissa scale => .number mantissa scale
  | .string value => .string value
  | .array items => .array (sortItems items)
  | .object fields => .object (sortFields fields)

def sortItems : List Json → List Json
  | [] => []
  | item :: rest => item.sortKeys :: sortItems rest

def sortFields : List (String × Json) → List (String × Json)
  | [] => []
  | (key, value) :: rest => insertField (key, value.sortKeys) (sortFields rest)

end

theorem field?_insertField (field : String × Json) (fields : List (String × Json)) (key : String) :
    field? (insertField field fields) key =
      if key = field.1 then some field.2 else field? fields key := by
  unfold field?
  induction fields with
  | nil =>
    rw [insertField, lookup_cons, lookup_nil]
    by_cases hkey : key = field.1
    · simp [hkey]
    · simp [hkey, beq_eq_false_iff_ne.mpr hkey]
  | cons head rest ih =>
    by_cases hsmaller : head.1 < field.1
    · rw [insertField, if_pos hsmaller, lookup_cons, lookup_cons, ih]
      by_cases hkey : key = field.1
      · have hne : key ≠ head.1 := by
          intro heq
          rw [← heq, hkey] at hsmaller
          exact String.lt_irrefl _ hsmaller
        rw [beq_eq_false_iff_ne.mpr hne]
      · simp [hkey]
    · rw [insertField, if_neg hsmaller, lookup_cons]
      by_cases hkey : key = field.1
      · simp [hkey]
      · rw [beq_eq_false_iff_ne.mpr hkey]
        simp [hkey]

theorem field?_sortFields (fields : List (String × Json)) (key : String) :
    field? (sortFields fields) key = (field? fields key).map Json.sortKeys := by
  induction fields with
  | nil => rfl
  | cons field rest ih =>
    obtain ⟨name, value⟩ := field
    rw [sortFields, field?_insertField, ih]
    unfold field?
    rw [lookup_cons]
    by_cases hkey : key = name
    · simp [hkey]
    · rw [beq_eq_false_iff_ne.mpr hkey]
      simp [hkey]

end JsonValue
