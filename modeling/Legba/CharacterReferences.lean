import Legba.RegexEdits
import Mathlib.Data.List.DropRight

/-!
# Character references of HTML

A reference stands for a letter by its number, in decimal or hexadecimal, or
by a name.  The closing semicolon may be missing, and a name may run on into
what follows, in which case the longest name at its front counts.

A decimal number which is too long to be converted raises.  Otherwise replacing
the references of a text either leaves it as it was or shortens it, so that a
text can only be unescaped so many times.
-/

namespace CharacterReferences

open RegexScan List

def isHexDigit (letter : Char) : Bool :=
  letter.isDigit || ('a' ≤ letter && letter ≤ 'f') || ('A' ≤ letter && letter ≤ 'F')

def digitValue (letter : Char) : ℕ :=
  if letter.isDigit then letter.toNat - '0'.toNat
  else letter.toLower.toNat - 'a'.toNat + 10

def ofDigits (base : ℕ) (digits : Text) : ℕ :=
  digits.foldl (fun number digit => base * number + digitValue digit) 0

def isHexMark (letter : Char) : Bool := letter = 'x' || letter = 'X'

def isNameLetter (letter : Char) : Bool :=
  !([' ', '\t', '\n', '\x0c', '<', '&', '#', ';'].contains letter)

def decimal : Piece
  | '#' :: digits => several Char.isDigit digits
  | _ => false

def hexadecimal : Piece
  | '#' :: mark :: digits => isHexMark mark && several isHexDigit digits
  | _ => false

def closed (piece : Piece) : Piece := fun text =>
  piece text || (text.getLast? = some ';' && piece text.dropLast)

def charref : Pattern where
  pieces := [one (· = '&'),
    closed (anyOf [decimal, hexadecimal, between 1 32 isNameLetter])]
  solid := solid_of_one

def invalidCharrefs : List (ℕ × Char) :=
  [(0x00, '\ufffd'), (0x0d, '\r'), (0x80, '\u20ac'), (0x81, '\u0081'),
    (0x82, '\u201a'), (0x83, '\u0192'), (0x84, '\u201e'), (0x85, '\u2026'),
    (0x86, '\u2020'), (0x87, '\u2021'), (0x88, '\u02c6'), (0x89, '\u2030'),
    (0x8a, '\u0160'), (0x8b, '\u2039'), (0x8c, '\u0152'), (0x8d, '\u008d'),
    (0x8e, '\u017d'), (0x8f, '\u008f'), (0x90, '\u0090'), (0x91, '\u2018'),
    (0x92, '\u2019'), (0x93, '\u201c'), (0x94, '\u201d'), (0x95, '\u2022'),
    (0x96, '\u2013'), (0x97, '\u2014'), (0x98, '\u02dc'), (0x99, '\u2122'),
    (0x9a, '\u0161'), (0x9b, '\u203a'), (0x9c, '\u0153'), (0x9d, '\u009d'),
    (0x9e, '\u017e'), (0x9f, '\u0178')]

def isInvalidCodepoint (number : ℕ) : Bool :=
  (0x1 ≤ number && number ≤ 0x8) || number = 0xb ||
    (0xe ≤ number && number ≤ 0x1f) || (0x7f ≤ number && number ≤ 0x9f) ||
    (0xfdd0 ≤ number && number ≤ 0xfdef) || 0xfffe ≤ number % 0x10000

def ofNumber (number : ℕ) : Text :=
  match invalidCharrefs.lookup number with
  | some letter => [letter]
  | none =>
    if (0xd800 ≤ number ∧ number ≤ 0xdfff) ∨ 0x10ffff < number then
      ['\ufffd']
    else if isInvalidCodepoint number then []
    else [Char.ofNat number]

def dropSemicolons (text : Text) : Text := text.rdropWhile (· = ';')

def maxStrDigits : ℕ := 4300

def isOverlong : List Text → Bool
  | [_, '#' :: mark :: rest] =>
    !isHexMark mark && decide (maxStrDigits < (dropSemicolons (mark :: rest)).length)
  | _ => false

section

variable (names : Text → Option Text)

def longestName (name : Text) : ℕ → Text
  | length + 2 =>
    match names (name.take (length + 2)) with
    | some value => value ++ name.drop (length + 2)
    | none => longestName name (length + 1)
  | _ => '&' :: name

def replaceCharref : List Text → Text
  | [_, '#' :: mark :: rest] =>
    if isHexMark mark then ofNumber (ofDigits 16 (dropSemicolons rest))
    else ofNumber (ofDigits 10 (dropSemicolons (mark :: rest)))
  | [_, name] =>
    match names name with
    | some value => value
    | none => longestName names name (name.length - 1)
  | groups => groups.flatten

def unescape (text : Text) : Option Text :=
  if '&' ∈ text then
    if (charref.findAll text).any isOverlong then none
    else some (charref.sub (replaceCharref names) text)
  else some text

end

def Short (names : Text → Option Text) : Prop :=
  ∀ name value, names name = some value → value.length ≤ name.length

variable {names : Text → Option Text}

theorem length_ofNumber (number : ℕ) : (ofNumber number).length ≤ 1 := by
  unfold ofNumber
  split
  · exact le_refl 1
  · split
    · exact le_refl 1
    · split
      · exact Nat.zero_le 1
      · exact le_refl 1

theorem longestName_shorter (hshort : Short names) (name : Text) (length : ℕ) :
    longestName names name length = '&' :: name ∨
      (longestName names name length).length < name.length + 1 := by
  induction length with
  | zero => exact .inl rfl
  | succ length ih =>
    cases length with
    | zero => exact .inl rfl
    | succ length =>
      rw [longestName]
      cases hvalue : names (name.take (length + 2)) with
      | none => exact ih
      | some value =>
        right
        have hle := hshort _ _ hvalue
        rw [length_take] at hle
        simp only [length_append, length_drop]
        omega

theorem replaceCharref_shorter (hshort : Short names) {groups : List Text}
    (hfits : Fits charref.pieces groups) :
    replaceCharref names groups = groups.flatten ∨
      (replaceCharref names groups).length < groups.flatten.length := by
  obtain ⟨first, rest, rfl, hfirst, hrest⟩ := fits_cons.mp hfits
  obtain ⟨body, tail, rfl, -, htail⟩ := fits_cons.mp hrest
  obtain rfl := fits_nil.mp htail
  obtain ⟨letter, rfl, hletter⟩ := one_eq_true.mp hfirst
  obtain rfl := of_decide_eq_true hletter
  have hlength : ['&'] ++ (body ++ []) = '&' :: body := by simp
  rw [flatten_cons, flatten_cons, flatten_nil, hlength]
  unfold replaceCharref
  split
  · rename_i mark behind heq
    right
    simp only [cons.injEq, and_true] at heq
    rw [heq.2]
    have hle : ∀ number, (ofNumber number).length < ('&' :: '#' :: mark :: behind).length := by
      intro number
      have hone := length_ofNumber number
      simp only [length_cons]
      omega
    split
    · exact hle _
    · exact hle _
  · rename_i name hmark heq
    obtain ⟨-, rfl⟩ := heq
    split
    · rename_i value hvalue
      right
      exact Nat.lt_succ_of_le (hshort _ _ hvalue)
    · exact longestName_shorter hshort body _
  · rename_i hname
    exact absurd rfl (hname ['&'] body)

theorem unescape_of_notMem {text : Text} (htext : '&' ∉ text) :
    unescape names text = some text := if_neg htext

theorem unescape_shorter (hshort : Short names) {text result : Text}
    (hresult : unescape names text = some result) :
    result = text ∨ result.length < text.length := by
  unfold unescape at hresult
  split at hresult
  · split at hresult
    · cases hresult
    · cases hresult
      by_cases hsame : ∀ groups, Token.found groups ∈ charref.tokens 0 text →
          replaceCharref names groups = groups.flatten
      · exact .inl (sub_eq_self hsame)
      · right
        push Not at hsame
        obtain ⟨groups, hgroups, hne⟩ := hsame
        have hle : ∀ groups, Fits charref.pieces groups →
            (replaceCharref names groups).countP (fun _ => true) ≤
              groups.flatten.countP fun _ => true := by
          intro groups hfits
          rw [countP_true]
          rcases replaceCharref_shorter hshort hfits with heq | hlt
          · exact le_of_eq (congrArg length heq)
          · exact le_of_lt hlt
        have hlt : (replaceCharref names groups).countP (fun _ => true) <
            groups.flatten.countP fun _ => true := by
          rw [countP_true]
          have hfits := (tokenized_tokens charref text).fits hgroups
          exact (replaceCharref_shorter hshort hfits).resolve_left hne
        have hcount := countP_sub_lt hle hgroups hlt
        rwa [countP_true] at hcount
  · cases hresult
    exact .inl rfl

end CharacterReferences
