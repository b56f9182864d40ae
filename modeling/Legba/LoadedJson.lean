import Mathlib.Data.Int.Init
import Mathlib.Data.List.Basic

/-!
# What a JSON text is loaded as

A loaded value is null, a boolean, an integer, a float, a string, a list or a
dictionary.  The floats are a parameter, since a decoder may also load the
infinities and a number which is none.  A dictionary has its keys in the order
in which they were met, each of them once.
-/

namespace LoadedJson

universe u

inductive Value (F : Type u) where
  | null
  | bool (value : Bool)
  | int (value : ℤ)
  | float (value : F)
  | string (value : List Char)
  | array (items : List (Value F))
  | object (fields : List (List Char × Value F))

variable {F : Type u}

/-- `fields.get(key)`, with `none` for a key which is absent. -/
def get? (fields : List (List Char × Value F)) (key : List Char) : Option (Value F) :=
  fields.lookup key

def Value.truthy (isZero : F → Bool) : Value F → Bool
  | .null => false
  | .bool value => value
  | .int value => value != 0
  | .float value => !isZero value
  | .string value => !value.isEmpty
  | .array items => !items.isEmpty
  | .object fields => !fields.isEmpty

end LoadedJson
