import Legba.JsonText
import Mathlib.Data.List.TakeWhile
import Mathlib.Tactic.IntervalCases

/-!
# Written JSON texts are read back

What is written for a letter, a string, an integer and a whole value is read as
it was, whatever follows it.  The length of a text is fuel enough to read it.
-/

namespace JsonText

open LoadedJson List Nat Char

attribute [local instance (high)] decidableBAll

universe u

variable {F : Type u}

/-! ## Strings -/

theorem hexValue_digitChar {n : ℕ} (hn : n < 16) : hexValue (digitChar n) = some n := by
  interval_cases n <;> rfl

theorem scanUnits_quote (rest : List Char) : scanUnits ('"' :: rest) = some ([], rest) := rfl

variable {letter : Char} {unit fuel : ℕ} {text rest string : List Char}
  {L : Floats F}

theorem scanUnits_plain (hquote : letter ≠ '"') (hslash : letter ≠ '\\')
    (hcontrol : ¬letter.toNat < 32) (rest : List Char) :
    scanUnits (letter :: rest) =
      (scanUnits rest).map fun scanned =>
        (.letter letter :: scanned.1, scanned.2) := by
  rw [scanUnits, if_neg (not_or.mpr ⟨hcontrol, hslash⟩)]
  · exact hquote
  · intro a b c d rest' heq
    exact absurd heq hslash
  · intro mark rest' heq
    exact absurd heq hslash

theorem scanUnits_mark {mark : Char} (hmark : mark ≠ 'u')
    (hletter : unescape mark = some letter) (rest : List Char) :
    scanUnits ('\\' :: mark :: rest) =
      (scanUnits rest).map fun scanned =>
        (.letter letter :: scanned.1, scanned.2) := by
  rw [scanUnits, hletter]
  intro a b c d rest' heq
  exact absurd heq hmark

theorem scanUnits_code {a b c d : Char} (hunit : hex4 a b c d = some unit) (rest : List Char) :
    scanUnits ('\\' :: 'u' :: a :: b :: c :: d :: rest) =
      (scanUnits rest).map fun scanned =>
        (.code unit :: scanned.1, scanned.2) := by
  rw [scanUnits, hunit]

def unitsOf (letter : Char) : List StringUnit :=
  match simpleEscapes.find? (·.2 = letter) with
  | some _ => [.letter letter]
  | none =>
    if printable letter then [.letter letter]
    else if letter.toNat < 0x10000 then [.code letter.toNat]
    else
      [.code (0xD800 + (letter.toNat - 0x10000) / 1024),
        .code (0xDC00 + (letter.toNat - 0x10000) % 1024)]

theorem hex4_escapeUnit (hunit : unit < 0x10000) :
    hex4 (digitChar (unit / 4096 % 16)) (digitChar (unit / 256 % 16))
      (digitChar (unit / 16 % 16)) (digitChar (unit % 16)) = some unit := by
  unfold hex4
  rw [hexValue_digitChar (by omega), hexValue_digitChar (by omega),
    hexValue_digitChar (by omega), hexValue_digitChar (by omega)]
  simp only [Option.some.injEq]
  omega

theorem scanUnits_escapeUnit (hunit : unit < 0x10000) (rest : List Char) :
    scanUnits (escapeUnit unit ++ rest) =
      (scanUnits rest).map fun scanned =>
        (.code unit :: scanned.1, scanned.2) :=
  scanUnits_code (hex4_escapeUnit hunit) rest

theorem scanUnits_escape (letter : Char) (rest : List Char) :
    scanUnits (escape letter ++ rest) =
      (scanUnits rest).map fun scanned =>
        (unitsOf letter ++ scanned.1, scanned.2) := by
  unfold escape unitsOf
  cases hsimple : simpleEscapes.find? (·.2 = letter) with
  | some pair =>
    obtain ⟨mark, found⟩ := pair
    have hmem := mem_of_find?_eq_some hsimple
    have hfound := find?_some hsimple
    rw [decide_eq_true_eq] at hfound
    subst hfound
    have hmark : ∀ pair ∈ simpleEscapes, pair.1 ≠ 'u' ∧ unescape pair.1 = some pair.2 := by decide
    obtain ⟨hne, hunescape⟩ := hmark _ hmem
    exact scanUnits_mark hne hunescape rest
  | none =>
    have hne : ∀ pair ∈ simpleEscapes, letter ≠ pair.2 := by
      intro pair hpair heq
      have hnot := find?_eq_none.mp hsimple pair hpair
      exact hnot (by rw [heq]; exact decide_eq_true rfl)
    have hquote : letter ≠ '"' := hne ('"', '"') (by decide)
    have hslash : letter ≠ '\\' := hne ('\\', '\\') (by decide)
    by_cases hprintable : printable letter = true
    · have hcontrol : ¬letter.toNat < 32 := by
        unfold printable at hprintable
        rw [Bool.and_eq_true, decide_eq_true_eq] at hprintable
        have hle : (' ').toNat ≤ letter.toNat := hprintable.1
        exact not_lt.mpr hle
      simp only [if_pos hprintable]
      exact scanUnits_plain hquote hslash hcontrol rest
    · simp only [if_neg hprintable]
      by_cases hbasic : letter.toNat < 0x10000
      · simp only [if_pos hbasic, cons_append, nil_append]
        exact scanUnits_escapeUnit hbasic rest
      · have hvalid : letter.toNat < 0x110000 := by
          rcases letter.valid with h | h
          · exact lt_trans h (by decide)
          · exact h.2
        simp only [if_neg hbasic, append_assoc]
        rw [scanUnits_escapeUnit (by omega), scanUnits_escapeUnit (by omega)]
        simp [Function.comp_def]

theorem scanUnits_flatMap (text rest : List Char) :
    scanUnits (text.flatMap escape ++ '"' :: rest) = some (text.flatMap unitsOf, rest) := by
  induction text with
  | nil => exact scanUnits_quote rest
  | cons letter text ih =>
    rw [flatMap_cons, append_assoc, scanUnits_escape, ih]
    rfl

theorem joinUnits_unitsOf (letter : Char) (rest : List StringUnit) :
    joinUnits (unitsOf letter ++ rest) = letter :: joinUnits rest := by
  have hvalid : letter.toNat < 0xD800 ∨
      0xDFFF < letter.toNat ∧ letter.toNat < 0x110000 := letter.valid
  unfold unitsOf
  split
  · rfl
  · split_ifs with hprintable hbasic
    · rfl
    · -- a character is no half of a pair
      have hhigh : isHigh letter.toNat = false := by
        simp only [isHigh, Bool.and_eq_false_iff, decide_eq_false_iff_not]
        omega
      have hlow : isLow letter.toNat = false := by
        simp only [isLow, Bool.and_eq_false_iff, decide_eq_false_iff_not]
        omega
      have hsingle : single letter.toNat = letter := by
        unfold single
        rw [hhigh, hlow]
        exact ofNat_toNat letter
      have hcode : joinUnits (.code letter.toNat :: rest) =
          single letter.toNat :: joinUnits rest := by
        cases rest with
        | nil => rfl
        | cons unit rest =>
          cases unit with
          | letter next => rfl
          | code low => rw [joinUnits, hhigh, Bool.false_and, if_neg (by simp)]
      rw [singleton_append, hcode, hsingle]
    · have hpair : (isHigh (0xD800 + (letter.toNat - 0x10000) / 1024) &&
          isLow (0xDC00 + (letter.toNat - 0x10000) % 1024)) = true := by
        simp only [isHigh, isLow, Bool.and_eq_true, decide_eq_true_eq]
        omega
      have hcode : 0x10000 + (0xD800 + (letter.toNat - 0x10000) / 1024 -
          0xD800) * 1024 + (0xDC00 + (letter.toNat - 0x10000) % 1024 -
            0xDC00) = letter.toNat := by omega
      rw [cons_append, singleton_append, joinUnits, if_pos hpair, hcode, ofNat_toNat]

theorem joinUnits_flatMap (text : List Char) : joinUnits (text.flatMap unitsOf) = text := by
  induction text with
  | nil => rfl
  | cons letter text ih => rw [flatMap_cons, joinUnits_unitsOf, ih]

theorem scanString_dumpsString (text rest : List Char) :
    scanString (text.flatMap escape ++ '"' :: rest) = some (text, rest) := by
  unfold scanString
  rw [scanUnits_flatMap, Option.map_some, joinUnits_flatMap]

/-! ## Integers -/

def continues (letter : Char) : Bool :=
  letter.isDigit || letter = '.' || letter = 'e' || letter = 'E'

def Delimited (text : List Char) : Prop :=
  ∀ letter ∈ text.head?, continues letter = false

theorem Delimited.not_startsWithDigit (htext : Delimited text) : startsWithDigit text = false := by
  cases text with
  | nil => rfl
  | cons letter rest =>
    have hletter := htext letter rfl
    simp only [continues, Bool.or_eq_false_iff] at hletter
    exact hletter.1.1.1

theorem Delimited.splitFraction (htext : Delimited text) : splitFraction text = ([], text) := by
  cases text with
  | nil => rfl
  | cons letter rest =>
    have hletter := htext letter rfl
    simp only [continues, Bool.or_eq_false_iff, decide_eq_false_iff_not] at hletter
    unfold JsonText.splitFraction
    split
    next heq => exact absurd (cons.inj heq).1 hletter.1.1.2
    next => rfl

theorem Delimited.splitExponent (htext : Delimited text) : splitExponent text = ([], text) := by
  cases text with
  | nil => rfl
  | cons letter rest =>
    have hletter := htext letter rfl
    simp only [continues, Bool.or_eq_false_iff, decide_eq_false_iff_not] at hletter
    simp [JsonText.splitExponent, hletter.1.2, hletter.2]

theorem takeWhile_digits {digits : List Char} (hdigits : ∀ digit ∈ digits, digit.isDigit = true)
    (hrest : startsWithDigit rest = false) :
    (digits ++ rest).takeWhile isDigit = digits ∧
      (digits ++ rest).dropWhile isDigit = rest := by
  have hstop : rest.takeWhile isDigit = [] ∧ rest.dropWhile isDigit = rest := by
    cases rest with
    | nil => exact ⟨rfl, rfl⟩
    | cons letter rest =>
      have hletter : ¬letter.isDigit = true := by
        rw [startsWithDigit] at hrest
        simp [hrest]
      exact ⟨takeWhile_cons_of_neg hletter, dropWhile_cons_of_neg hletter⟩
  rw [takeWhile_append_of_pos hdigits,
    dropWhile_append_of_pos hdigits, hstop.1, hstop.2, append_nil]
  exact ⟨rfl, rfl⟩

theorem toDigits_head {n : ℕ} (hn : n ≠ 0) :
    ∀ letter ∈ (Nat.toDigits 10 n).head?, letter ≠ '0' := by
  induction n using Nat.strong_induction_on with
  | _ n ih =>
    by_cases hsmall : n < 10
    · rw [Nat.toDigits_of_lt_base hsmall]
      rintro letter ⟨⟩
      rw [Ne, Nat.digitChar_eq_zero]
      exact hn
    · rw [Nat.toDigits_of_base_le (by omega) (by omega)]
      rw [head?_append_of_ne_nil _ Nat.toDigits_ne_nil]
      exact ih (n / 10) (by omega) (by omega)

theorem splitWhole_toDigits (n : ℕ) (hrest : Delimited rest) :
    splitWhole (toDigits 10 n ++ rest) = some (toDigits 10 n, rest) := by
  by_cases hzero : n = 0
  · subst hzero
    rfl
  · have hhead := toDigits_head hzero
    have hdigits : ∀ digit ∈ toDigits 10 n, digit.isDigit = true :=
      fun digit => isDigit_of_mem_toDigits (by omega) (by omega)
    obtain ⟨htake, hdrop⟩ := takeWhile_digits hdigits hrest.not_startsWithDigit
    cases hletters : toDigits 10 n with
    | nil => exact absurd hletters toDigits_ne_nil
    | cons letter letters =>
      rw [hletters] at hhead hdigits htake hdrop
      have hne : letter ≠ '0' := hhead letter rfl
      have hdigit : letter.isDigit := hdigits letter mem_cons_self
      unfold splitWhole
      rw [cons_append] at htake hdrop ⊢
      split
      next heq => exact absurd (cons.inj heq).1 hne
      next => simp only [startsWithDigit, hdigit, if_true, htake, hdrop]

theorem scanNumber_dumpsInt (L : Floats F) {n : ℤ}
    (hlength : (toDigits 10 n.natAbs).length ≤ maxStrDigits) (hrest : Delimited rest) :
    scanNumber L (dumpsInt n ++ rest) = some (.int n, rest) := by
  have hwhole := splitWhole_toDigits n.natAbs hrest
  have hvalue := @ofDigitChars_ten_toDigits n.natAbs
  unfold dumpsInt scanNumber
  by_cases hneg : n < 0
  · simp only [if_pos hneg, cons_append, splitSign, hwhole,
      hrest.splitFraction, hrest.splitExponent, hvalue,
      if_neg (not_lt.mpr hlength), and_self, if_true, reduceCtorEq, if_false]
    rw [Int.ofNat_natAbs_of_nonpos (le_of_lt hneg), neg_neg]
  · have hsign : splitSign (toDigits 10 n.natAbs ++ rest) =
        ([], toDigits 10 n.natAbs ++ rest) := by
      unfold splitSign
      split
      next heq =>
        have hmem : '-' ∈ toDigits 10 n.natAbs := by
          cases hletters : toDigits 10 n.natAbs with
          | nil => exact absurd hletters toDigits_ne_nil
          | cons letter letters =>
            rw [hletters, cons_append] at heq
            rw [(cons.inj heq).1]
            exact mem_cons_self
        exact absurd (isDigit_of_mem_toDigits (by omega) (by omega) hmem) (by decide)
      next => rfl
    simp only [if_neg hneg, hsign, hwhole, hrest.splitFraction, hrest.splitExponent,
      hvalue, if_neg (not_lt.mpr hlength), and_self, if_true]
    rw [Int.natAbs_of_nonneg (not_lt.mp hneg)]

def floatLetters : List Char := "+-.0123456789eEINafinty".toList

structure Floats.Reads (L : Floats F) (x : F) : Prop where
  nonempty : L.text x ≠ []
  letters : ∀ letter ∈ L.text x, letter ∈ floatLetters
  scan : ∀ rest, Delimited rest → scanScalar L (L.text x ++ rest) = some (.float x, rest)

theorem scanScalar_null (L : Floats F) (rest : List Char) :
    scanScalar L ("null".toList ++ rest) = some (.null, rest) := by
  simp [scanScalar, constants]

theorem scanScalar_bool (L : Floats F) (value : Bool) (rest : List Char) :
    scanScalar L ((if value then "true".toList else "false".toList) ++ rest) =
      some (.bool value, rest) := by
  cases value <;> simp [scanScalar, constants]

theorem dumpsInt_start (n : ℤ) :
    ∃ digit tail, digit.isDigit = true ∧
      (dumpsInt n = digit :: tail ∨ dumpsInt n = '-' :: digit :: tail) := by
  cases hletters : toDigits 10 n.natAbs with
  | nil => exact absurd hletters toDigits_ne_nil
  | cons digit tail =>
    have hdigit : digit ∈ toDigits 10 n.natAbs := by
      rw [hletters]
      exact mem_cons_self
    refine ⟨digit, tail, isDigit_of_mem_toDigits (by omega) (by omega) hdigit, ?_⟩
    unfold dumpsInt
    rw [hletters]
    by_cases hneg : n < 0
    · exact .inr (if_pos hneg)
    · exact .inl (if_neg hneg)

theorem scanScalar_dumpsInt (L : Floats F) {n : ℤ}
    (hlength : (toDigits 10 n.natAbs).length ≤ maxStrDigits) (hrest : Delimited rest) :
    scanScalar L (dumpsInt n ++ rest) = some (.int n, rest) := by
  have hnone : (constants L).find? (·.1 <+: dumpsInt n ++ rest) = none := by
    rw [find?_eq_none]
    intro constant hconstant
    rw [decide_eq_true_eq]
    obtain ⟨digit, tail, hdigit, hstart⟩ := dumpsInt_start n
    have hne : ∀ letter : Char, letter.isDigit = false → letter ≠ digit := by
      rintro letter hletter rfl
      rw [hdigit] at hletter
      cases hletter
    have hn := hne 'n' (by decide)
    have ht := hne 't' (by decide)
    have hf := hne 'f' (by decide)
    have hN := hne 'N' (by decide)
    have hI := hne 'I' (by decide)
    have hminus := hne '-' (by decide)
    simp only [constants, mem_cons, not_mem_nil, or_false] at hconstant
    rcases hstart with hstart | hstart <;> rw [hstart] <;> rcases hconstant with
      rfl | rfl | rfl | rfl | rfl | rfl <;> simp [hn, ht, hf, hN, hI, hminus]
  unfold scanScalar
  rw [hnone]
  exact scanNumber_dumpsInt L hlength hrest

theorem scanValue_scalar (L : Floats F) (fuel : ℕ) (hquote : letter ≠ '"')
    (hbracket : letter ≠ '[') (hbrace : letter ≠ '{') (rest : List Char) :
    scanValue L (fuel + 1) (letter :: rest) = scanScalar L (letter :: rest) := by
  rw [scanValue]
  · intro rest' heq
    exact absurd (cons.inj heq).1 hquote
  · intro rest' heq
    exact absurd (cons.inj heq).1 hbracket
  · intro rest' heq
    exact absurd (cons.inj heq).1 hbrace

/-! ## Values -/

/-- What is written for a value starts no blank and no end, and is read as the
value with its length as fuel. -/
structure Scanned (L : Floats F) (value : Value F) : Prop where
  start : ∃ letter tail, dumpsText L value = letter :: tail ∧ isWhite letter = false ∧ letter ≠ ']'
  scan : ∀ fuel rest, (dumpsText L value).length ≤ fuel → Delimited rest →
    scanValue L fuel (dumpsText L value ++ rest) = some (value, rest)

section

variable {L : Floats F}

theorem exists_succ {fuel length : ℕ} (hfuel : length ≤ fuel)
    (hpos : 0 < length) : ∃ n, fuel = n + 1 :=
  ⟨fuel - 1, by omega⟩

variable {letter : Char} {value : Value F}

theorem skipWhite_cons (hletter : isWhite letter = false) (rest : List Char) :
    skipWhite (letter :: rest) = letter :: rest := by
  unfold skipWhite
  exact dropWhile_cons_of_neg (by rw [hletter]; simp)

theorem skipWhite_blank (hletter : isWhite letter = false) (rest : List Char) :
    skipWhite (' ' :: letter :: rest) = letter :: rest :=
  skipWhite_cons hletter rest

theorem delimited_cons (hletter : continues letter = false) (rest : List Char) :
    Delimited (letter :: rest) := by
  rintro other ⟨⟩
  exact hletter

theorem delimited_dumpsItems (items : List (Value F)) (rest : List Char) :
    Delimited (dumpsItems L items ++ rest) := by
  cases items with
  | nil => exact delimited_cons rfl rest
  | cons item items => exact delimited_cons rfl _

theorem delimited_dumpsFields (fields : List (List Char × Value F))
    (rest : List Char) : Delimited (dumpsFields L fields ++ rest) := by
  cases fields with
  | nil => exact delimited_cons rfl rest
  | cons field fields => exact delimited_cons rfl _

theorem scanned_of_scalar
    (hstart : ∃ letter tail, dumpsText L value = letter :: tail ∧ isWhite letter =
      false ∧ letter ≠ ']' ∧ letter ≠ '"' ∧ letter ≠ '[' ∧ letter ≠ '{')
    (hscan : ∀ rest, Delimited rest → scanScalar L (dumpsText L value ++ rest) =
      some (value, rest)) : Scanned L value := by
  obtain ⟨letter, tail, htext, hwhite, hend, hquote, hbracket, hbrace⟩ := hstart
  refine ⟨⟨letter, tail, htext, hwhite, hend⟩, ?_⟩
  intro fuel rest hfuel hrest
  have hvalue := hscan rest hrest
  rw [htext] at hfuel hvalue ⊢
  obtain ⟨fuel, rfl⟩ := exists_succ hfuel (by simp)
  rw [cons_append] at hvalue ⊢
  rw [scanValue_scalar L fuel hquote hbracket hbrace, hvalue]

theorem scanItems_dumpsItems (items : List (Value F)) (hitems : ∀ item ∈ items, Scanned L item)
    {first : Value F} (hfirst : Scanned L first) (before : List (Value F)) (fuel : ℕ)
    (rest : List Char) (hfuel : (dumpsText L first).length + (dumpsItems L items).length ≤ fuel) :
    scanItems L fuel before (dumpsText L first ++ (dumpsItems L items ++ rest)) =
      some (.array (before ++ first :: items), rest) := by
  induction items generalizing first before fuel with
  | nil =>
    obtain ⟨fuel, rfl⟩ := exists_succ hfuel (by simp [dumpsItems])
    simp only [dumpsItems, length_singleton] at hfuel
    have hscan := hfirst.scan fuel (dumpsItems L [] ++ rest) (by omega)
      (delimited_dumpsItems [] rest)
    rw [scanItems, hscan]
    rfl
  | cons next items ih =>
    obtain ⟨fuel, rfl⟩ := exists_succ hfuel (by simp [dumpsItems])
    rw [forall_mem_cons] at hitems
    simp only [dumpsItems, length_cons, length_append,
      cons_append, append_assoc] at hfuel ⊢
    have hscan := hfirst.scan fuel (',' :: ' ' :: (dumpsText L next ++
      (dumpsItems L items ++ rest))) (by omega) (delimited_cons rfl _)
    have htail := ih hitems.2 hitems.1 (before ++ [first]) fuel (by omega)
    obtain ⟨letter, tail, htext, hwhite, -⟩ := hitems.1.start
    rw [scanItems, hscan]
    rw [htext, cons_append] at htail ⊢
    simp only [skipWhite_cons (show isWhite ',' = false from rfl),
      skipWhite_blank hwhite, htail, append_assoc, singleton_append]

theorem setField_of_notMem {fields : List (List Char × Value F)} {key : List Char}
    (hkey : key ∉ fields.map Prod.fst) : setField fields key value = fields ++ [(key, value)] := by
  induction fields with
  | nil => rfl
  | cons field fields ih =>
    rw [map_cons, mem_cons, not_or] at hkey
    rw [setField, if_neg (Ne.symm hkey.1), ih hkey.2, cons_append]

theorem scanFields_field (first : List Char × Value F) (hfirst : Scanned L first.2)
    {before : List (List Char × Value F)} (hnew : first.1 ∉ before.map Prod.fst) {fuel : ℕ}
    {rest : List Char} (hfuel : (dumpsText L first.2).length ≤ fuel) (hrest : Delimited rest) :
    scanFields L (fuel + 1) before
        (dumpsString first.1 ++ ':' :: ' ' :: (dumpsText L first.2 ++ rest)) =
      match skipWhite rest with
      | ',' :: rest => scanFields L fuel (before ++ [first]) (skipWhite rest)
      | '}' :: rest => some (.object (before ++ [first]), rest)
      | _ => none := by
  have hscan := hfirst.scan fuel rest hfuel hrest
  obtain ⟨letter, tail, htext, hwhite, -⟩ := hfirst.start
  rw [htext, cons_append] at hscan ⊢
  unfold dumpsString
  simp only [cons_append, append_assoc, nil_append]
  rw [scanFields]
  simp only [scanString_dumpsString, skipWhite_blank hwhite, hscan,
    skipWhite_cons (show isWhite ':' = false from rfl),
    setField_of_notMem hnew] <;> rfl

theorem scanFields_dumpsFields (fields : List (List Char × Value F))
    (hfields : ∀ field ∈ fields, Scanned L field.2) (first : List Char × Value F)
    (hfirst : Scanned L first.2) (before : List (List Char × Value F))
    (hkeys : ((before ++ first :: fields).map Prod.fst).Nodup) (fuel : ℕ) (rest : List Char)
    (hfuel : (dumpsText L first.2).length + (dumpsFields L fields).length ≤ fuel) :
    scanFields L fuel before
        (dumpsString first.1 ++ ':' :: ' ' :: (dumpsText L first.2 ++
          (dumpsFields L fields ++ rest))) =
      some (.object (before ++ first :: fields), rest) := by
  have hpos : 0 < (dumpsFields L fields).length := by
    cases fields <;> simp [dumpsFields]
  obtain ⟨fuel, rfl⟩ := exists_succ hfuel (by omega)
  have hnew : first.1 ∉ before.map Prod.fst := by
    rw [map_append, nodup_append] at hkeys
    intro hin
    exact hkeys.2.2 _ hin first.1 (by simp) rfl
  rw [scanFields_field first hfirst hnew (by omega) (delimited_dumpsFields fields rest)]
  cases fields with
  | nil => rfl
  | cons next fields =>
    rw [forall_mem_cons] at hfields
    simp only [dumpsFields, length_cons, length_append] at hfuel
    have hkeys' : (((before ++ [first]) ++ next :: fields).map Prod.fst).Nodup := by
      rw [append_assoc, singleton_append]
      exact hkeys
    have htail := scanFields_dumpsFields fields hfields.2 next hfields.1
      (before ++ [first]) hkeys' fuel rest (by omega)
    rw [append_assoc, singleton_append] at htail
    simp only [dumpsFields, cons_append, append_assoc]
    rw [skipWhite_cons (show isWhite ',' = false from rfl)]
    unfold dumpsString at htail ⊢
    simp only [cons_append, append_assoc, nil_append] at htail ⊢
    rw [skipWhite_blank (show isWhite '"' = false from rfl), htail]

theorem encodable_array (items : List (Value F)) :
    encodable (.array items) = items.all encodable := by
  rw [encodable]
  induction items with
  | nil => rfl
  | cons item items ih => rw [encodableItems, all_cons, ih]

theorem encodable_object (fields : List (List Char × Value F)) :
    encodable (.object fields) = fields.all fun field => encodable field.2 := by
  rw [encodable]
  induction fields with
  | nil => rfl
  | cons field fields ih => rw [encodableFields, all_cons, ih]

theorem scanned (hvalue : WellFormed L.Reads value)
    (hencodable : encodable value) : Scanned L value := by
  induction hvalue with
  | null =>
    exact scanned_of_scalar ⟨'n', _, rfl, by decide⟩
      fun rest _ => scanScalar_null L rest
  | bool value =>
    apply scanned_of_scalar
    · cases value with
      | true => exact ⟨'t', _, rfl, by decide⟩
      | false => exact ⟨'f', _, rfl, by decide⟩
    · exact fun rest _ => scanScalar_bool L value rest
  | int n =>
    apply scanned_of_scalar
    · obtain ⟨digit, tail, hdigit, hstart | hstart⟩ := dumpsInt_start n
      · have hne : ∀ letter : Char, letter.isDigit = false → digit ≠ letter := by
          rintro letter hletter rfl
          rw [hdigit] at hletter
          cases hletter
        refine ⟨digit, tail, hstart, ?_, hne _ rfl, hne _ rfl, hne _ rfl, hne _ rfl⟩
        simp [isWhite, hne]
      · exact ⟨'-', digit :: tail, hstart, by decide⟩
    · intro rest hrest
      exact scanScalar_dumpsInt L (of_decide_eq_true hencodable) hrest
  | float x hx =>
    apply scanned_of_scalar
    · cases htext : L.text x with
      | nil => exact absurd htext hx.nonempty
      | cons letter tail =>
        have hletter := hx.letters letter (by simp [htext])
        have hall : ∀ letter ∈ floatLetters, isWhite letter = false ∧
            letter ≠ ']' ∧ letter ≠ '"' ∧ letter ≠ '[' ∧
            letter ≠ '{' := by decide
        exact ⟨letter, tail, htext, hall letter hletter⟩
    · exact hx.scan
  | string text =>
    refine ⟨⟨'"', _, rfl, by decide⟩, ?_⟩
    intro fuel rest hfuel hrest
    obtain ⟨fuel, rfl⟩ := exists_succ hfuel (by simp [dumpsText, dumpsString])
    simp only [dumpsText, dumpsString, cons_append, append_assoc, nil_append]
    rw [scanValue, scanString_dumpsString]
    rfl
  | array items hitems ih =>
    rw [encodable_array, all_eq_true] at hencodable
    cases items with
    | nil =>
      refine ⟨⟨'[', _, rfl, by decide⟩, ?_⟩
      intro fuel rest hfuel hrest
      obtain ⟨fuel, rfl⟩ := exists_succ hfuel (by simp [dumpsText])
      rfl
    | cons first items =>
      have hscanned : ∀ item ∈ first :: items, Scanned L item :=
        fun item hitem => ih item hitem (hencodable item hitem)
      rw [forall_mem_cons] at hscanned
      refine ⟨⟨'[', _, rfl, by decide⟩, ?_⟩
      intro fuel rest hfuel hrest
      obtain ⟨fuel, rfl⟩ := exists_succ hfuel (by simp [dumpsText])
      simp only [dumpsText, length_cons, length_append] at hfuel
      have hread := scanItems_dumpsItems items hscanned.2 hscanned.1 [] fuel rest (by omega)
      obtain ⟨letter, tail, htext, hwhite, hend⟩ := hscanned.1.start
      simp only [dumpsText, cons_append, append_assoc]
      rw [htext, cons_append] at hread ⊢
      rw [scanValue]
      simp only [skipWhite_cons hwhite]
      split
      next heq => exact absurd (cons.inj heq).1 hend
      next => exact hread
  | object fields hkeys hfields ih =>
    rw [encodable_object, all_eq_true] at hencodable
    cases fields with
    | nil =>
      refine ⟨⟨'{', _, rfl, by decide⟩, ?_⟩
      intro fuel rest hfuel hrest
      obtain ⟨fuel, rfl⟩ := exists_succ hfuel (by simp [dumpsText])
      rfl
    | cons first fields =>
      have hscanned : ∀ field ∈ first :: fields, Scanned L field.2 :=
        fun field hfield => ih field hfield (hencodable field hfield)
      rw [forall_mem_cons] at hscanned
      refine ⟨⟨'{', _, rfl, by decide⟩, ?_⟩
      intro fuel rest hfuel hrest
      obtain ⟨fuel, rfl⟩ := exists_succ hfuel (by simp [dumpsText])
      simp only [dumpsText, length_cons, length_append] at hfuel
      have hread := scanFields_dumpsFields fields hscanned.2 first
        hscanned.1 [] hkeys fuel rest (by omega)
      simp only [dumpsText, cons_append, append_assoc]
      unfold dumpsString at hread ⊢
      simp only [cons_append] at hread ⊢
      rw [scanValue]
      simp only [skipWhite_cons (show isWhite '"' = false from rfl)]
      exact hread

theorem loads_dumps {text : List Char} (hvalue : WellFormed L.Reads value)
    (hdumps : dumps L value = some text) : loads L text = some value := by
  unfold dumps at hdumps
  rw [Option.ite_none_right_eq_some, Option.some.injEq] at hdumps
  obtain ⟨hencodable, rfl⟩ := hdumps
  obtain ⟨⟨letter, tail, htext, hwhite, -⟩, hscan⟩ := scanned hvalue hencodable
  have hread := hscan ((dumpsText L value).length + 1) [] (by omega) (by rintro letter ⟨⟩)
  rw [append_nil] at hread
  have hskip : skipWhite (dumpsText L value) = dumpsText L value := by
    rw [htext]
    exact skipWhite_cons hwhite tail
  unfold loads
  rw [hskip, hread]
  rfl

end

/-! ## Strings are shorter than their texts -/

theorem length_scanUnits {units : List StringUnit} (hscan : scanUnits text = some (units, rest)) :
    units.length + rest.length < text.length := by
  fun_induction scanUnits text generalizing units rest with
  | case1 => cases hscan
  | case2 text =>
    cases hscan
    simp
  | case3 a b c d text unit hunit ih =>
    obtain ⟨⟨tail, after⟩, htail, heq⟩ := Option.map_eq_some_iff.mp hscan
    cases heq
    have hlength := ih htail
    simp only [length_cons] at hlength ⊢
    omega
  | case4 => cases hscan
  | case5 mark text hne letter hletter ih =>
    obtain ⟨⟨tail, after⟩, htail, heq⟩ := Option.map_eq_some_iff.mp hscan
    cases heq
    have hlength := ih htail
    simp only [length_cons] at hlength ⊢
    omega
  | case6 => cases hscan
  | case7 => cases hscan
  | case8 letter text hquote hcode hmark hplain ih =>
    obtain ⟨⟨tail, after⟩, htail, heq⟩ := Option.map_eq_some_iff.mp hscan
    cases heq
    have hlength := ih htail
    simp only [length_cons] at hlength ⊢
    omega

theorem length_joinUnits (units : List StringUnit) : (joinUnits units).length ≤ units.length := by
  fun_induction joinUnits units with
  | case1 => rfl
  | case2 letter rest ih =>
    simp only [length_cons]
    omega
  | case3 high low rest hpair ih =>
    simp only [length_cons]
    omega
  | case4 high low rest hpair ih =>
    simp only [length_cons] at ih ⊢
    omega
  | case5 unit rest hnext ih =>
    simp only [length_cons]
    omega

theorem length_scanString (hscan : scanString text = some (string, rest)) :
    string.length + rest.length < text.length := by
  obtain ⟨⟨units, after⟩, hunits, heq⟩ := Option.map_eq_some_iff.mp hscan
  cases heq
  have hlength := length_scanUnits hunits
  have hjoin := length_joinUnits units
  simp only
  omega

theorem scanItems_array {before : List (Value F)} {value : Value F}
    (hscan : scanItems L fuel before text = some (value, rest)) :
    ∃ items, value = .array items := by
  induction fuel generalizing before text with
  | zero => cases hscan
  | succ fuel ih =>
    rw [scanItems] at hscan
    split at hscan
    · cases hscan
    · split at hscan
      · exact ih hscan
      · cases hscan
        exact ⟨_, rfl⟩
      · cases hscan

theorem scanFields_object {before : List (List Char × Value F)} {value : Value F}
    (hscan : scanFields L fuel before text = some (value, rest)) :
    ∃ fields, value = .object fields := by
  induction fuel generalizing before text with
  | zero => cases hscan
  | succ fuel ih =>
    rw [scanFields.eq_def] at hscan
    simp only at hscan
    split at hscan
    · split at hscan
      · cases hscan
      · split at hscan
        · split at hscan
          · cases hscan
          · split at hscan
            · exact ih hscan
            · cases hscan
              exact ⟨_, rfl⟩
            · cases hscan
        · cases hscan
    · cases hscan

theorem scanScalar_ne_string : scanScalar L text ≠ some (.string string, rest) := by
  intro hscan
  unfold scanScalar at hscan
  split at hscan
  next name value hfind =>
    have hmem := mem_of_find?_eq_some hfind
    cases hscan
    simp [constants] at hmem
  next =>
    unfold scanNumber at hscan
    simp only at hscan
    split at hscan
    · cases hscan
    · split_ifs at hscan <;> cases hscan

theorem length_scanValue_string (hscan : scanValue L fuel text = some (.string string, rest)) :
    string.length < text.length := by
  cases fuel with
  | zero => cases hscan
  | succ fuel =>
    rw [scanValue.eq_def] at hscan
    simp only at hscan
    split at hscan
    next body =>
      obtain ⟨scanned, hscanned, heq⟩ := Option.map_eq_some_iff.mp hscan
      cases heq
      have hlength := length_scanString hscanned
      rw [length_cons]
      omega
    next =>
      split at hscan
      · cases hscan
      · obtain ⟨items, hitems⟩ := scanItems_array hscan
        cases hitems
    next =>
      split at hscan
      · cases hscan
      · obtain ⟨fields, hfields⟩ := scanFields_object hscan
        cases hfields
    next => exact absurd hscan scanScalar_ne_string

theorem length_loads_string (hloads : loads L text = some (.string string)) :
    string.length < text.length := by
  unfold loads at hloads
  split at hloads
  next value rest hscan =>
    rw [Option.ite_none_right_eq_some, Option.some.injEq] at hloads
    obtain ⟨-, rfl⟩ := hloads
    have hlength := length_scanValue_string hscan
    have hskip := (dropWhile_sublist isWhite (l := text)).length_le
    unfold skipWhite at hlength
    omega
  next => cases hloads

end JsonText
