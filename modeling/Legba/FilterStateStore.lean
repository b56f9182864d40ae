import Legba.JsonRoundTrip

/-!
# The state of a filter

An actor keeps a value for each filter and key.  The value is written as a JSON
text, which the connection passes to a `jsonb` column as it is.  What comes back
is decoded by the connection and, when it is a string, once more by the store.

The column is a parameter: what it makes of a text is read as the same value,
though the fields may come in another order.  A text may also be refused.
-/

namespace Legba.FilterState

open LoadedJson JsonText Option Function

universe u v

variable {F : Type u} {J : Type v}

abbrev Text := List Char

/-- The type `jsonb`: its input, which may refuse a text, and its output. -/
structure Jsonb (J : Type v) where
  input : Text → Option J
  output : J → Text

inductive Same : Value F → Value F → Prop where
  | null : Same .null .null
  | bool (value : Bool) : Same (.bool value) (.bool value)
  | int (n : ℤ) : Same (.int n) (.int n)
  | float (x : F) : Same (.float x) (.float x)
  | string (text : Text) : Same (.string text) (.string text)
  | array (items others : List (Value F))
      (hlength : items.length = others.length)
      (hitems : ∀ (position : ℕ) (item other : Value F),
        items[position]? = some item → others[position]? = some other →
        Same item other) :
      Same (.array items) (.array others)
  | object (fields others : List (Text × Value F))
      (hkeys : ∀ key, (get? fields key).isSome = (get? others key).isSome)
      (hfields : ∀ (key : Text) (value other : Value F),
        get? fields key = some value → get? others key = some other →
        Same value other) :
      Same (.object fields) (.object others)

abbrev FloatFree (value : Value F) : Prop := WellFormed (fun _ => False) value

def Jsonb.Keeps (P : Jsonb J) (L : Floats F) : Prop :=
  ∀ text value stored, loads L text = some value → FloatFree value →
    P.input text = some stored →
    ∃ decoded, loads L (P.output stored) = some decoded ∧ Same value decoded

structure RowKey where
  actorId : Text
  filterId : Text
  stateKey : Text
deriving DecidableEq

structure Row (J : Type v) where
  value : J
  updatedAt : ℕ

/-- The rows of `actor_filter_state` by their primary key. -/
abbrev Table (J : Type v) := RowKey → Option (Row J)

/-- `_encode_json`: a text goes through as it is. -/
def encodeJson (L : Floats F) (parameter : Value F) : Option Text :=
  match parameter with
  | .string text => some text
  | value => dumps L value

/-- The statement of `set`, given its parameter. -/
def upsert (L : Floats F) (P : Jsonb J) (table : Table J) (key : RowKey)
    (parameter : Value F) (now : ℕ) : Option (Table J) :=
  (encodeJson L parameter).bind fun text =>
    (P.input text).map fun stored =>
      update table key (some { value := stored, updatedAt := now })

/-- The statement of `get`: the column as the connection decodes it. -/
def fetchValue (L : Floats F) (P : Jsonb J) (row : Row J) : Option (Value F) :=
  loads L (P.output row.value)

structure FilterStateStore where
  actorId : Text
  filterId : Text

def FilterStateStore.rowKey (store : FilterStateStore) (key : Text) : RowKey :=
  { actorId := store.actorId, filterId := store.filterId, stateKey := key }

/-- `set`, with `none` where it raises. -/
def FilterStateStore.set (L : Floats F) (P : Jsonb J)
    (store : FilterStateStore) (table : Table J) (key : Text)
    (value : Value F) (now : ℕ) : Option (Table J) :=
  (dumps L value).bind fun text => upsert L P table (store.rowKey key) (.string text) now

def decodeAgain (L : Floats F) (raw : Value F) : Value F :=
  match raw with
  | .string text => (loads L text).getD raw
  | _ => raw

/-- `get`, with `none` where it raises. -/
def FilterStateStore.get (L : Floats F) (P : Jsonb J)
    (store : FilterStateStore) (table : Table J) (key : Text) :
    Option (Value F) :=
  match table (store.rowKey key) with
  | none => some .null
  | some row => (fetchValue L P row).map (decodeAgain L)

section

variable {L : Floats F} {P : Jsonb J} {store : FilterStateStore}
  {table table' : Table J} {key : Text} {value : Value F} {now : ℕ}

theorem set_spec (hset : store.set L P table key value now = some table') :
    ∃ text stored, dumps L value = some text ∧ P.input text = some stored ∧
      table' = update table (store.rowKey key)
        (some { value := stored, updatedAt := now }) := by
  obtain ⟨text, htext, hupsert⟩ := bind_eq_some_iff.mp hset
  obtain ⟨encoded, hencoded, hinput⟩ := bind_eq_some_iff.mp hupsert
  cases hencoded
  obtain ⟨stored, hstored, htable⟩ := map_eq_some_iff.mp hinput
  exact ⟨text, stored, htext, hstored, htable.symm⟩

theorem set_others (hset : store.set L P table key value now = some table') {other : RowKey}
    (hother : other ≠ store.rowKey key) : table' other = table other := by
  obtain ⟨text, stored, -, -, rfl⟩ := set_spec hset
  exact update_of_ne hother _ _

theorem reads_of_floatFree (hvalue : FloatFree value) : WellFormed L.Reads value := by
  induction hvalue with
  | null => exact .null
  | bool value => exact .bool value
  | int n => exact .int n
  | float x hx => exact hx.elim
  | string text => exact .string text
  | array items hitems ih => exact .array items ih
  | object fields hkeys hfields ih => exact .object fields hkeys ih

theorem get_set (hkeeps : P.Keeps L) (hvalue : FloatFree value)
    (hset : store.set L P table key value now = some table') :
    ∃ decoded, Same value decoded ∧ store.get L P table' key = some (decodeAgain L decoded) := by
  obtain ⟨text, stored, htext, hstored, rfl⟩ := set_spec hset
  have hread := loads_dumps (reads_of_floatFree hvalue) htext
  obtain ⟨decoded, hdecoded, hsame⟩ := hkeeps text value stored hread hvalue hstored
  refine ⟨decoded, hsame, ?_⟩
  unfold FilterStateStore.get fetchValue
  rw [update_self]
  simp only [hdecoded, map_some]

end

/-- Once a value is set, `get` returns it, unless it is a string which is
itself a JSON text; no other row changes. -/
theorem set_round_trips_iff (L : Floats F) (P : Jsonb J) (hkeeps : P.Keeps L)
    (store : FilterStateStore) (table table' : Table J) (key : Text) (value : Value F)
    (hvalue : FloatFree value) (now : ℕ) (hset : store.set L P table key value now = some table') :
    ((∃ got, store.get L P table' key = some got ∧ Same value got) ∧
        ∀ other, other ≠ store.rowKey key → table' other = table other) ↔
      ∀ text, value = .string text → loads L text = none := by
  obtain ⟨decoded, hsame, hget⟩ := get_set hkeeps hvalue hset
  constructor
  · rintro ⟨⟨got, hgot, hsamegot⟩, -⟩ text rfl
    cases hsame
    cases hsamegot
    rw [hget, some.injEq, decodeAgain] at hgot
    cases hagain : loads L text with
    | none => rfl
    | some again =>
      rw [hagain, getD_some] at hgot
      rw [hgot] at hagain
      exact absurd (length_loads_string hagain) (lt_irrefl _)
  · intro hrefused
    refine ⟨?_, fun other hother => set_others hset hother⟩
    cases hsame with
    | string text =>
      rw [decodeAgain, hrefused text rfl, getD_none] at hget
      exact ⟨_, hget, .string text⟩
    | null => exact ⟨_, hget, .null⟩
    | bool value => exact ⟨_, hget, .bool value⟩
    | int n => exact ⟨_, hget, .int n⟩
    | float x => exact ⟨_, hget, .float x⟩
    | array items others hlength hitems => exact ⟨_, hget, .array items others hlength hitems⟩
    | object fields others hkeys hfields => exact ⟨_, hget, .object fields others hkeys hfields⟩

def oneFloat : Floats Unit where
  text _ := "0.0".toList
  ofText _ := ()

def textColumn : Jsonb Text where
  input text := some text
  output text := text

theorem same_refl {value : Value F} (hvalue : FloatFree value) : Same value value := by
  induction hvalue with
  | null => exact .null
  | bool value => exact .bool value
  | int n => exact .int n
  | float x hx => exact .float x
  | string text => exact .string text
  | array items hitems ih =>
    refine .array items items rfl ?_
    intro position item other hitem hother
    rw [hitem, some.injEq] at hother
    subst hother
    exact ih item (List.mem_of_getElem? hitem)
  | object fields hkeys hfields ih =>
    refine .object fields fields (fun _ => rfl) ?_
    intro key value other hvalue hother
    rw [hvalue, some.injEq] at hother
    subst hother
    obtain ⟨before, after, hmem, -⟩ := List.lookup_eq_some_iff.mp hvalue
    exact ih (key, value) (by simp [hmem])

theorem textColumn_keeps : textColumn.Keeps oneFloat := by
  intro text value stored hloads hvalue hstored
  cases hstored
  exact ⟨value, hloads, same_refl hvalue⟩

def gdelt : FilterStateStore :=
  { actorId := "gdelt".toList, filterId := "files".toList }

/-- The cursor `42`, a string, comes back as a number. -/
theorem digits_come_back_as_number :
    ∃ table, gdelt.set oneFloat textColumn (fun _ => none) "cursor".toList
        (.string "42".toList) 0 = some table ∧
      gdelt.get oneFloat textColumn table "cursor".toList = some (.int 42) ∧
      ¬Same (.string "42".toList : Value Unit) (.int 42) := by
  refine ⟨_, rfl, rfl, ?_⟩
  rintro ⟨⟩

theorem set_round_trips_iff_timestamp :
    ∃ table, gdelt.set oneFloat textColumn (fun _ => none) "cursor".toList
        (.string "2026-07".toList) 0 = some table ∧
      ∃ got, gdelt.get oneFloat textColumn table "cursor".toList = some got ∧
        Same (.string "2026-07".toList) got := by
  refine ⟨_, rfl, ?_⟩
  refine ((set_round_trips_iff oneFloat textColumn textColumn_keeps gdelt
    (fun _ => none) _ "cursor".toList (.string "2026-07".toList)
    (.string _) 0 rfl).mpr ?_).1
  rintro text ⟨⟩
  rfl

end Legba.FilterState
