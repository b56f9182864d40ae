import Legba.LoadedJson
import Mathlib.Data.String.Basic

/-!
# JSON texts

A value is written with a blank behind each comma and colon and with everything
but the printable ASCII letters escaped.  A text is read by a scanner for each
kind of value; the scanners of items and fields count down a fuel, of which the
length of the text is enough.

How a float is written and read is a parameter.  Texts hold characters, so an
escape for half of a surrogate pair is read as the replacement character.
-/

namespace JsonText

open LoadedJson Nat Char

universe u

variable {F : Type u}

structure Floats (F : Type u) where
  text : F → List Char
  ofText : List Char → F

def maxStrDigits : ℕ := 4300

def simpleEscapes : List (Char × Char) :=
  [('"', '"'), ('\\', '\\'), ('n', '\n'), ('r', '\r'), ('t', '\t'),
    ('f', ofNat 12), ('b', ofNat 8)]

def escapeUnit (unit : ℕ) : List Char :=
  ['\\', 'u', digitChar (unit / 4096 % 16), digitChar (unit / 256 % 16),
    digitChar (unit / 16 % 16), digitChar (unit % 16)]

def printable (letter : Char) : Bool := ' ' ≤ letter && letter ≤ '~'

def escape (letter : Char) : List Char :=
  match simpleEscapes.find? (·.2 = letter) with
  | some (mark, _) => ['\\', mark]
  | none =>
    if printable letter then [letter]
    else if letter.toNat < 0x10000 then escapeUnit letter.toNat
    else
      escapeUnit (0xD800 + (letter.toNat - 0x10000) / 1024) ++
        escapeUnit (0xDC00 + (letter.toNat - 0x10000) % 1024)

def dumpsString (text : List Char) : List Char :=
  '"' :: text.flatMap escape ++ ['"']

def dumpsInt (n : ℤ) : List Char :=
  if n < 0 then '-' :: toDigits 10 n.natAbs else toDigits 10 n.natAbs

mutual

def dumpsText (L : Floats F) : Value F → List Char
  | .null => "null".toList
  | .bool value => if value then "true".toList else "false".toList
  | .int n => dumpsInt n
  | .float x => L.text x
  | .string text => dumpsString text
  | .array [] => ['[', ']']
  | .array (item :: rest) => '[' :: dumpsText L item ++ dumpsItems L rest
  | .object [] => ['{', '}']
  | .object ((key, value) :: rest) =>
    '{' :: dumpsString key ++ ':' :: ' ' :: dumpsText L value ++ dumpsFields L rest

def dumpsItems (L : Floats F) : List (Value F) → List Char
  | [] => [']']
  | item :: rest => ',' :: ' ' :: dumpsText L item ++ dumpsItems L rest

def dumpsFields (L : Floats F) : List (List Char × Value F) → List Char
  | [] => ['}']
  | (key, value) :: rest =>
    ',' :: ' ' :: dumpsString key ++ ':' :: ' ' :: dumpsText L value ++ dumpsFields L rest

end

mutual

def encodable : Value F → Bool
  | .int n => (toDigits 10 n.natAbs).length ≤ maxStrDigits
  | .array items => encodableItems items
  | .object fields => encodableFields fields
  | _ => true

def encodableItems : List (Value F) → Bool
  | [] => true
  | item :: rest => encodable item && encodableItems rest

def encodableFields : List (List Char × Value F) → Bool
  | [] => true
  | (_, value) :: rest => encodable value && encodableFields rest

end

/-- `json.dumps`, with `none` where it raises. -/
def dumps (L : Floats F) (value : Value F) : Option (List Char) :=
  if encodable value then some (dumpsText L value) else none

inductive WellFormed (floats : F → Prop) : Value F → Prop where
  | null : WellFormed floats .null
  | bool (value : Bool) : WellFormed floats (.bool value)
  | int (n : ℤ) : WellFormed floats (.int n)
  | float (x : F) (hx : floats x) : WellFormed floats (.float x)
  | string (text : List Char) : WellFormed floats (.string text)
  | array (items : List (Value F))
      (hitems : ∀ item ∈ items, WellFormed floats item) :
      WellFormed floats (.array items)
  | object (fields : List (List Char × Value F))
      (hkeys : (fields.map Prod.fst).Nodup)
      (hfields : ∀ field ∈ fields, WellFormed floats field.2) :
      WellFormed floats (.object fields)

/-! ## Reading -/

def isWhite (letter : Char) : Bool :=
  letter = ' ' || letter = '\t' || letter = '\n' || letter = '\r'

def skipWhite (text : List Char) : List Char := text.dropWhile isWhite

def hexValue (letter : Char) : Option ℕ :=
  if '0' ≤ letter ∧ letter ≤ '9' then some (letter.toNat - 48)
  else if 'a' ≤ letter ∧ letter ≤ 'f' then some (letter.toNat - 87)
  else if 'A' ≤ letter ∧ letter ≤ 'F' then some (letter.toNat - 55)
  else none

def hex4 (a b c d : Char) : Option ℕ :=
  match hexValue a, hexValue b, hexValue c, hexValue d with
  | some a, some b, some c, some d => some (((a * 16 + b) * 16 + c) * 16 + d)
  | _, _, _, _ => none

inductive StringUnit where
  | letter (letter : Char)
  | code (unit : ℕ)
deriving DecidableEq

def unescape (mark : Char) : Option Char :=
  if mark = '/' then some '/' else simpleEscapes.lookup mark

def scanUnits : List Char → Option (List StringUnit × List Char)
  | [] => none
  | '"' :: rest => some ([], rest)
  | '\\' :: 'u' :: a :: b :: c :: d :: rest =>
    match hex4 a b c d with
    | some unit => (scanUnits rest).map fun scanned => (.code unit :: scanned.1, scanned.2)
    | none => none
  | '\\' :: mark :: rest =>
    match unescape mark with
    | some letter => (scanUnits rest).map fun scanned => (.letter letter :: scanned.1, scanned.2)
    | none => none
  | letter :: rest =>
    if letter.toNat < 32 ∨ letter = '\\' then none
    else (scanUnits rest).map fun scanned => (.letter letter :: scanned.1, scanned.2)
termination_by structural text => text

def isHigh (unit : ℕ) : Bool := 0xD800 ≤ unit && unit < 0xDC00

def isLow (unit : ℕ) : Bool := 0xDC00 ≤ unit && unit < 0xE000

def single (unit : ℕ) : Char :=
  if isHigh unit || isLow unit then ofNat 0xFFFD else ofNat unit

def joinUnits : List StringUnit → List Char
  | [] => []
  | .letter letter :: rest => letter :: joinUnits rest
  | .code high :: .code low :: rest =>
    if isHigh high && isLow low then
      ofNat (0x10000 + (high - 0xD800) * 1024 + (low - 0xDC00)) :: joinUnits rest
    else single high :: joinUnits (.code low :: rest)
  | .code unit :: rest => single unit :: joinUnits rest

def scanString (text : List Char) : Option (List Char × List Char) :=
  (scanUnits text).map fun scanned => (joinUnits scanned.1, scanned.2)

def startsWithDigit : List Char → Bool
  | [] => false
  | letter :: _ => letter.isDigit

def splitSign : List Char → List Char × List Char
  | '-' :: rest => (['-'], rest)
  | text => ([], text)

def splitWhole (text : List Char) : Option (List Char × List Char) :=
  match text with
  | '0' :: rest => some (['0'], rest)
  | _ =>
    if startsWithDigit text then
      some (text.takeWhile isDigit, text.dropWhile isDigit)
    else none

def splitFraction : List Char → List Char × List Char
  | '.' :: rest =>
    if startsWithDigit rest then
      ('.' :: rest.takeWhile isDigit, rest.dropWhile isDigit)
    else ([], '.' :: rest)
  | text => ([], text)

def splitExponentSign : List Char → List Char × List Char
  | '+' :: rest => (['+'], rest)
  | '-' :: rest => (['-'], rest)
  | text => ([], text)

def splitExponent : List Char → List Char × List Char
  | [] => ([], [])
  | mark :: rest =>
    let signed := splitExponentSign rest
    if (mark = 'e' || mark = 'E') && startsWithDigit signed.2 then
      (mark :: (signed.1 ++ signed.2.takeWhile isDigit), signed.2.dropWhile isDigit)
    else ([], mark :: rest)

def scanNumber (L : Floats F) (text : List Char) : Option (Value F × List Char) :=
  let signed := splitSign text
  match splitWhole signed.2 with
  | none => none
  | some (digits, rest) =>
    let fraction := splitFraction rest
    let exponent := splitExponent fraction.2
    if fraction.1 = [] ∧ exponent.1 = [] then
      -- an integer of more digits is refused with a `ValueError`
      if maxStrDigits < digits.length then none
      else
        let n : ℤ := ofDigitChars 10 digits 0
        some (.int (if signed.1 = [] then n else -n), exponent.2)
    else
      some (.float (L.ofText (signed.1 ++ digits ++ fraction.1 ++ exponent.1)), exponent.2)

def constants (L : Floats F) : List (List Char × Value F) :=
  [("null".toList, .null), ("true".toList, .bool true),
    ("false".toList, .bool false),
    ("NaN".toList, .float (L.ofText "NaN".toList)),
    ("Infinity".toList, .float (L.ofText "Infinity".toList)),
    ("-Infinity".toList, .float (L.ofText "-Infinity".toList))]

def scanScalar (L : Floats F) (text : List Char) : Option (Value F × List Char) :=
  match (constants L).find? (·.1 <+: text) with
  | some (name, value) => some (value, text.drop name.length)
  | none => scanNumber L text

def setField : List (List Char × Value F) → List Char → Value F → List (List Char × Value F)
  | [], key, value => [(key, value)]
  | field :: rest, key, value =>
    if field.1 = key then (key, value) :: rest
    else field :: setField rest key value

mutual

def scanValue (L : Floats F) : ℕ → List Char → Option (Value F × List Char)
  | 0, _ => none
  | fuel + 1, text =>
    match text with
    | '"' :: rest => (scanString rest).map fun scanned => (.string scanned.1, scanned.2)
    | '[' :: rest =>
      match skipWhite rest with
      | ']' :: rest => some (.array [], rest)
      | body => scanItems L fuel [] body
    | '{' :: rest =>
      match skipWhite rest with
      | '}' :: rest => some (.object [], rest)
      | body => scanFields L fuel [] body
    | _ => scanScalar L text

def scanItems (L : Floats F) : ℕ → List (Value F) → List Char → Option (Value F × List Char)
  | 0, _, _ => none
  | fuel + 1, items, text =>
    match scanValue L fuel text with
    | none => none
    | some (item, rest) =>
      match skipWhite rest with
      | ',' :: rest => scanItems L fuel (items ++ [item]) (skipWhite rest)
      | ']' :: rest => some (.array (items ++ [item]), rest)
      | _ => none

def scanFields (L : Floats F) :
    ℕ → List (List Char × Value F) → List Char → Option (Value F × List Char)
  | 0, _, _ => none
  | fuel + 1, fields, text =>
    match text with
    | '"' :: rest =>
      match scanString rest with
      | none => none
      | some (key, rest) =>
        match skipWhite rest with
        | ':' :: rest =>
          match scanValue L fuel (skipWhite rest) with
          | none => none
          | some (value, rest) =>
            match skipWhite rest with
            | ',' :: rest => scanFields L fuel (setField fields key value) (skipWhite rest)
            | '}' :: rest => some (.object (setField fields key value), rest)
            | _ => none
        | _ => none
    | _ => none

end

/-- `json.loads`, with `none` where it raises a `ValueError`. -/
def loads (L : Floats F) (text : List Char) : Option (Value F) :=
  match scanValue L (text.length + 1) (skipWhite text) with
  | some (value, rest) => if skipWhite rest = [] then some value else none
  | none => none

end JsonText
