import Legba.JsonRoundTrip

/-!
# Backticks in JSON texts

A backtick of a value is written as it is, and no escape in a written text
stands for one.  Of any part of such a text which is read as a value, the value
has no more backticks than the part.
-/

namespace JsonText

open Option Char List

open LoadedJson

universe u

variable {F : Type u}

def backticks (text : List Char) : ℕ := text.count '`'

mutual

def ticks : Value F → ℕ
  | .string text => backticks text
  | .array items => ticksItems items
  | .object fields => ticksFields fields
  | _ => 0

def ticksItems : List (Value F) → ℕ
  | [] => 0
  | item :: rest => ticks item + ticksItems rest

def ticksFields : List (List Char × Value F) → ℕ
  | [] => 0
  | (key, value) :: rest => backticks key + ticks value + ticksFields rest

end

theorem ticksItems_append (items others : List (Value F)) :
    ticksItems (items ++ others) = ticksItems items + ticksItems others := by
  induction items with
  | nil => simp [ticksItems]
  | cons item items ih =>
    rw [cons_append, ticksItems, ticksItems, ih]
    omega

theorem ticksFields_setField (fields : List (List Char × Value F))
    (key : List Char) (value : Value F) :
    ticksFields (setField fields key value) ≤ ticksFields fields + backticks key + ticks value := by
  induction fields with
  | nil => simp [setField, ticksFields]
  | cons field fields ih =>
    rw [setField]
    split_ifs with hkey
    · subst hkey
      simp only [ticksFields]
      omega
    · simp only [ticksFields]
      omega

theorem backticks_append (front back : List Char) :
    backticks (front ++ back) = backticks front + backticks back :=
  count_append

def BacktickCode (text : List Char) : Prop :=
  ∃ a b c d rest, text = a :: b :: c :: d :: rest ∧ hex4 a b c d = some 96

def Aligned : List Char → Prop
  | '\\' :: mark :: rest => mark ≠ '{' ∧ (mark = 'u' → ¬BacktickCode rest) ∧ Aligned rest
  | _ :: rest => Aligned rest
  | [] => True

section

variable {text front back : List Char}

theorem aligned_cons {letter : Char} (hletter : letter ≠ '\\') :
    Aligned (letter :: text) ↔ Aligned text := by
  rw [Aligned]
  intro mark rest heq
  exact absurd heq hletter

theorem aligned_of_append (hfront : '\\' ∉ front) : Aligned (front ++ back) ↔ Aligned back := by
  induction front with
  | nil => rfl
  | cons letter front ih =>
    rw [mem_cons, not_or] at hfront
    rw [cons_append, aligned_cons (Ne.symm hfront.1), ih hfront.2]

theorem Aligned.from_brace (htext : Aligned (front ++ '{' :: back)) : Aligned ('{' :: back) := by
  fun_induction Aligned front with
  | case1 mark rest ih => exact ih htext.2.2
  | case2 letter rest hnot ih =>
    cases rest with
    | nil =>
      by_cases hletter : letter = '\\'
      · subst hletter
        exact absurd rfl htext.1
      · exact (aligned_cons hletter).mp htext
    | cons mark rest =>
      have hletter : letter ≠ '\\' := by
        rintro rfl
        exact hnot mark rest rfl rfl
      exact ih ((aligned_cons hletter).mp htext)
  | case3 => exact htext

theorem Aligned.of_append (htext : Aligned (front ++ back)) : Aligned front := by
  fun_induction Aligned front with
  | case1 mark rest ih =>
    obtain ⟨hbrace, hcode, hrest⟩ := htext
    refine ⟨hbrace, ?_, ih hrest⟩
    rintro hmark ⟨a, b, c, d, tail, rfl, hhex⟩
    exact hcode hmark ⟨a, b, c, d, tail ++ back, rfl, hhex⟩
  | case2 letter rest hnot ih =>
    by_cases hletter : letter = '\\'
    · subst hletter
      cases rest with
      | nil => exact True.intro
      | cons mark rest => exact absurd rfl (hnot mark rest rfl)
    · exact ih ((aligned_cons hletter).mp htext)
  | case3 => exact True.intro

end

/-! ## What is read has no more backticks -/

/-- A text is read as something with that many backticks, and the rest is read
with the same escapes. -/
def ReadsTicks (text : List Char) (n : ℕ) (rest : List Char) : Prop :=
  n + backticks rest ≤ backticks text ∧ Aligned rest

section

variable {L : Floats F} {text rest front : List Char}

theorem backticks_cons (letter : Char) (text : List Char) :
    backticks (letter :: text) = backticks text + if letter = '`' then 1 else 0 := by
  unfold backticks
  rw [count_cons]
  simp

theorem toNat_ofNat (n : ℕ) : (ofNat n).toNat = n ∨ (ofNat n).toNat = 0 := by
  by_cases hvalid : n.isValidChar
  · left
    rw [ofNat, dif_pos hvalid]
    rfl
  · right
    rw [ofNat, dif_neg hvalid]
    rfl

variable {n fuel : ℕ} {split : List Char × List Char} {value : Value F}

theorem ofNat_eq_backtick (hn : ofNat n = '`') : n = 96 := by
  have hvalue := toNat_ofNat n
  rw [hn] at hvalue
  rcases hvalue with hvalue | hvalue
  · exact hvalue.symm
  · cases hvalue

def unitTicks : List StringUnit → ℕ
  | [] => 0
  | unit :: rest => unitTicks rest + if unit = .letter '`' ∨ unit = .code 96 then 1 else 0

theorem backticks_joinUnits (units : List StringUnit) :
    backticks (joinUnits units) ≤ unitTicks units := by
  have hsingle : ∀ unit, single unit = '`' → unit = 96 := by
    intro unit hunit
    unfold single at hunit
    split_ifs at hunit with hhalf
    · exact absurd hunit (by decide)
    · exact ofNat_eq_backtick hunit
  fun_induction joinUnits units with
  | case1 => exact le_rfl
  | case2 letter rest ih =>
    rw [backticks_cons, unitTicks]
    by_cases hletter : letter = '`' <;> simp [hletter] <;> omega
  | case3 high low rest hpair ih =>
    have hne : ofNat (0x10000 + (high - 0xD800) * 1024 + (low - 0xDC00)) ≠ '`' := by
      intro heq
      have hvalue := ofNat_eq_backtick heq
      omega
    rw [backticks_cons, if_neg hne, unitTicks, unitTicks]
    omega
  | case4 high low rest hpair ih =>
    rw [backticks_cons, unitTicks]
    by_cases hhigh : single high = '`'
    · rw [if_pos hhigh, hsingle high hhigh, if_pos (.inr rfl)]
      omega
    · rw [if_neg hhigh]
      omega
  | case5 unit rest hnext ih =>
    rw [backticks_cons, unitTicks]
    by_cases hunit : single unit = '`'
    · rw [if_pos hunit, hsingle unit hunit, if_pos (.inr rfl)]
      omega
    · rw [if_neg hunit]
      omega

theorem hexValue_ne_slash {letter : Char} (hletter : hexValue letter = some n) : letter ≠ '\\' := by
  rintro rfl
  cases hletter

theorem hex4_digits {a b c d : Char} {unit : ℕ} (hunit : hex4 a b c d = some unit) :
    '\\' ∉ [a, b, c, d] := by
  unfold hex4 at hunit
  split at hunit
  next ha hb hc hd =>
    simp [(hexValue_ne_slash ha).symm, (hexValue_ne_slash hb).symm,
      (hexValue_ne_slash hc).symm, (hexValue_ne_slash hd).symm]
  next => cases hunit

theorem unescape_ne_backtick {mark letter : Char}
    (hletter : unescape mark = some letter) : letter ≠ '`' := by
  rintro rfl
  unfold unescape at hletter
  split_ifs at hletter with hmark
  · cases hletter
  obtain ⟨before, after, hmem, -⟩ := lookup_eq_some_iff.mp hletter
  have hpair : (mark, '`') ∈ simpleEscapes := by
    rw [hmem]
    simp
  have hnone : ∀ pair ∈ simpleEscapes, pair.2 ≠ '`' := by decide
  exact hnone _ hpair rfl

theorem scanUnits_ticks {units : List StringUnit} (hscan : scanUnits text = some (units, rest))
    (htext : Aligned text) : ReadsTicks text (unitTicks units) rest := by
  fun_induction scanUnits text generalizing units rest with
  | case1 => cases hscan
  | case2 text =>
    cases hscan
    have hrest := (aligned_cons (by decide)).mp htext
    refine ⟨?_, hrest⟩
    rw [backticks_cons, unitTicks]
    omega
  | case3 a b c d text unit hunit ih =>
    obtain ⟨⟨tail, after⟩, htail, heq⟩ := map_eq_some_iff.mp hscan
    cases heq
    obtain ⟨-, hcode, hdigits⟩ := htext
    have hne : unit ≠ 96 := by
      rintro rfl
      exact hcode rfl ⟨a, b, c, d, text, rfl, hunit⟩
    obtain ⟨hticks, halign⟩ := ih htail ((aligned_of_append (hex4_digits hunit)).mp hdigits)
    refine ⟨?_, halign⟩
    have hsplit := backticks_append ['\\', 'u', a, b, c, d] text
    simp only [cons_append, nil_append] at hsplit
    simp only [unitTicks, hsplit]
    rw [if_neg (by simp [hne])]
    omega
  | case4 => cases hscan
  | case5 mark text hne letter hletter ih =>
    obtain ⟨⟨tail, after⟩, htail, heq⟩ := map_eq_some_iff.mp hscan
    cases heq
    obtain ⟨-, -, hrest⟩ := htext
    obtain ⟨hticks, halign⟩ := ih htail hrest
    refine ⟨?_, halign⟩
    have hsplit := backticks_append ['\\', mark] text
    simp only [cons_append, nil_append] at hsplit
    simp only [unitTicks, hsplit]
    rw [if_neg (by simp [unescape_ne_backtick hletter])]
    omega
  | case6 => cases hscan
  | case7 => cases hscan
  | case8 letter text hquote hcode hmark hplain ih =>
    obtain ⟨⟨tail, after⟩, htail, heq⟩ := map_eq_some_iff.mp hscan
    cases heq
    rw [not_or] at hplain
    obtain ⟨hticks, halign⟩ := ih htail ((aligned_cons hplain.2).mp htext)
    refine ⟨?_, halign⟩
    rw [backticks_cons, unitTicks]
    by_cases hletter : letter = '`' <;> simp [hletter] <;> omega

theorem scanString_ticks {string : List Char} (hscan : scanString text = some (string, rest))
    (htext : Aligned text) : ReadsTicks text (backticks string) rest := by
  obtain ⟨⟨units, after⟩, hunits, heq⟩ := map_eq_some_iff.mp hscan
  cases heq
  obtain ⟨hticks, halign⟩ := scanUnits_ticks hunits htext
  have hjoin := backticks_joinUnits units
  refine ⟨?_, halign⟩
  simp only
  omega

/-! ### Scalars -/

theorem readsTicks_zero (htext : text = front ++ rest) (hfront : '\\' ∉ front)
    (halign : Aligned text) : ReadsTicks text 0 rest := by
  subst htext
  refine ⟨?_, (aligned_of_append hfront).mp halign⟩
  rw [backticks_append]
  omega

theorem skipWhite_ticks (htext : Aligned text) : ReadsTicks text 0 (skipWhite text) := by
  apply readsTicks_zero takeWhile_append_dropWhile.symm _ htext
  intro hmem
  exact absurd (mem_takeWhile_imp hmem) (by decide)

def PlainSplit (text : List Char) (split : List Char × List Char) : Prop :=
  text = split.1 ++ split.2 ∧ '\\' ∉ split.1

theorem plainSplit_digits (text : List Char) :
    PlainSplit text (text.takeWhile isDigit, text.dropWhile isDigit) := by
  refine ⟨takeWhile_append_dropWhile.symm, ?_⟩
  intro hmem
  exact absurd (mem_takeWhile_imp hmem) (by decide)

theorem PlainSplit.cons {letter : Char} (hsplit : PlainSplit text split) (hletter : letter ≠ '\\') :
    PlainSplit (letter :: text) (letter :: split.1, split.2) := by
  obtain ⟨rfl, hplain⟩ := hsplit
  refine ⟨rfl, ?_⟩
  rw [mem_cons, not_or]
  exact ⟨hletter.symm, hplain⟩

theorem plainSplit_nil (text : List Char) : PlainSplit text ([], text) :=
  ⟨rfl, by simp⟩

theorem plainSplit_sign (text : List Char) : PlainSplit text (splitSign text) := by
  unfold splitSign
  split
  · exact (plainSplit_nil _).cons (by decide)
  · exact plainSplit_nil _

theorem plainSplit_whole (hsplit : splitWhole text = some split) : PlainSplit text split := by
  unfold splitWhole at hsplit
  split at hsplit
  · cases hsplit
    exact (plainSplit_nil _).cons (by decide)
  · rw [ite_none_right_eq_some, some.injEq] at hsplit
    obtain ⟨-, rfl⟩ := hsplit
    exact plainSplit_digits _

theorem plainSplit_fraction (text : List Char) : PlainSplit text (splitFraction text) := by
  unfold splitFraction
  split
  · split_ifs
    · exact (plainSplit_digits _).cons (by decide)
    · exact plainSplit_nil _
  · exact plainSplit_nil _

theorem PlainSplit.append {first second : List Char × List Char} (hfirst : PlainSplit text first)
    (hsecond : PlainSplit first.2 second) : PlainSplit text (first.1 ++ second.1, second.2) := by
  obtain ⟨htext, hplain⟩ := hfirst
  obtain ⟨htext', hplain'⟩ := hsecond
  refine ⟨by rw [append_assoc, ← htext']; exact htext, ?_⟩
  rw [mem_append, not_or]
  exact ⟨hplain, hplain'⟩

theorem plainSplit_exponent (text : List Char) : PlainSplit text (splitExponent text) := by
  unfold splitExponent
  cases text with
  | nil => exact plainSplit_nil _
  | cons mark rest =>
    have hsign : PlainSplit rest (splitExponentSign rest) := by
      unfold splitExponentSign
      split
      · exact (plainSplit_nil _).cons (by decide)
      · exact (plainSplit_nil _).cons (by decide)
      · exact plainSplit_nil _
    simp only
    split_ifs with hmark
    · have hne : mark ≠ '\\' := by
        rintro rfl
        simp at hmark
      exact (hsign.append (plainSplit_digits _)).cons hne
    · exact plainSplit_nil _

theorem scanNumber_ticks (hscan : scanNumber L text = some (value, rest)) :
    ticks value = 0 ∧ ∃ front, PlainSplit text (front, rest) := by
  unfold scanNumber at hscan
  have hsign := plainSplit_sign text
  simp only at hscan
  split at hscan
  next => cases hscan
  next digits after hwhole =>
    have hall := ((hsign.append (plainSplit_whole hwhole)).append
      (plainSplit_fraction _)).append (plainSplit_exponent _)
    split_ifs at hscan <;> cases hscan <;> exact ⟨rfl, _, hall⟩

theorem scanScalar_ticks (hscan : scanScalar L text = some (value, rest))
    (htext : Aligned text) : ReadsTicks text (ticks value) rest := by
  unfold scanScalar at hscan
  split at hscan
  next name constant hfind =>
    have hmem := mem_of_find?_eq_some hfind
    have hstart := find?_some hfind
    rw [decide_eq_true_eq] at hstart
    obtain ⟨back, rfl⟩ := hstart
    have hconstants : ∀ pair ∈ constants L, ticks pair.2 = 0 ∧ '\\' ∉ pair.1 := by
      intro pair hpair
      simp only [constants, mem_cons, not_mem_nil, or_false] at hpair
      rcases hpair with rfl | rfl | rfl | rfl | rfl | rfl <;> exact ⟨rfl, by simp⟩
    obtain ⟨hzero, hplain⟩ := hconstants _ hmem
    cases hscan
    rw [hzero, drop_left]
    exact readsTicks_zero rfl hplain htext
  next =>
    obtain ⟨hzero, front, hsplit, hplain⟩ := scanNumber_ticks hscan
    rw [hzero]
    exact readsTicks_zero hsplit hplain htext

/-! ### Values -/

theorem ReadsTicks.trans {m : ℕ} {next : List Char} (hfirst : ReadsTicks text n next)
    (hsecond : ReadsTicks next m rest) : ReadsTicks text (n + m) rest := by
  obtain ⟨hticks, -⟩ := hfirst
  obtain ⟨hticks', halign⟩ := hsecond
  exact ⟨by omega, halign⟩

theorem ReadsTicks.letter {letter : Char} (htext : ReadsTicks text n (letter :: rest))
    (hletter : letter ≠ '\\') : ReadsTicks text n rest := by
  obtain ⟨hticks, halign⟩ := htext
  rw [backticks_cons] at hticks
  exact ⟨by omega, (aligned_cons hletter).mp halign⟩

theorem ReadsTicks.white (htext : ReadsTicks text n rest) : ReadsTicks text n (skipWhite rest) :=
  htext.trans (skipWhite_ticks htext.2)

/-- What the scanners of a fuel read has no more backticks than the text. -/
structure ScansTicks (L : Floats F) (fuel : ℕ) : Prop where
  value : ∀ text value rest, scanValue L fuel text = some (value, rest) →
    Aligned text → ReadsTicks text (ticks value) rest
  items : ∀ before text value rest,
    scanItems L fuel before text = some (value, rest) → Aligned text →
    ticks value + backticks rest ≤ ticksItems before + backticks text ∧ Aligned rest
  fields : ∀ before text value rest,
    scanFields L fuel before text = some (value, rest) → Aligned text →
    ticks value + backticks rest ≤ ticksFields before + backticks text ∧ Aligned rest

theorem scansTicks_value (ih : ScansTicks L fuel) (text : List Char) (value : Value F)
    (rest : List Char) (hscan : scanValue L (fuel + 1) text = some (value, rest))
    (htext : Aligned text) : ReadsTicks text (ticks value) rest := by
  have hself : ReadsTicks text 0 text := ⟨by omega, htext⟩
  rw [scanValue.eq_def] at hscan
  simp only at hscan
  split at hscan
  next body =>
    obtain ⟨scanned, hscanned, heq⟩ := map_eq_some_iff.mp hscan
    cases heq
    have hbody := hself.letter (by decide)
    have hall := hbody.trans (scanString_ticks hscanned hbody.2)
    rw [zero_add] at hall
    exact hall
  next body =>
    have hbody := (hself.letter (by decide)).white
    split at hscan
    next after hafter =>
      cases hscan
      rw [hafter] at hbody
      exact hbody.letter (by decide)
    next =>
      obtain ⟨hticks, halign⟩ := ih.items _ _ _ _ hscan hbody.2
      rw [ticksItems] at hticks
      have hfirst := hbody.1
      exact ⟨by omega, halign⟩
  next body =>
    have hbody := (hself.letter (by decide)).white
    split at hscan
    next after hafter =>
      cases hscan
      rw [hafter] at hbody
      exact hbody.letter (by decide)
    next =>
      obtain ⟨hticks, halign⟩ := ih.fields _ _ _ _ hscan hbody.2
      rw [ticksFields] at hticks
      have hfirst := hbody.1
      exact ⟨by omega, halign⟩
  next => exact scanScalar_ticks hscan htext

theorem scansTicks_items (ih : ScansTicks L fuel) (before : List (Value F)) (text : List Char)
    (value : Value F) (rest : List Char)
    (hscan : scanItems L (fuel + 1) before text = some (value, rest)) (htext : Aligned text) :
    ticks value + backticks rest ≤ ticksItems before + backticks text ∧ Aligned rest := by
  rw [scanItems] at hscan
  split at hscan
  next => cases hscan
  next item after hitem =>
    have hread := (ih.value _ _ _ hitem htext).white
    split at hscan
    next tail htail =>
      rw [htail] at hread
      have hnext := (hread.letter (by decide)).white
      obtain ⟨hticks, halign⟩ := ih.items _ _ _ _ hscan hnext.2
      have hfirst := hnext.1
      rw [ticksItems_append, ticksItems, ticksItems] at hticks
      exact ⟨by omega, halign⟩
    next tail htail =>
      cases hscan
      rw [htail] at hread
      have hnext := hread.letter (by decide)
      have hfirst := hnext.1
      rw [ticks, ticksItems_append, ticksItems, ticksItems]
      exact ⟨by omega, hnext.2⟩
    next => cases hscan

theorem scansTicks_fields (ih : ScansTicks L fuel) (before : List (List Char × Value F))
    (text : List Char) (value : Value F) (rest : List Char)
    (hscan : scanFields L (fuel + 1) before text = some (value, rest)) (htext : Aligned text) :
    ticks value + backticks rest ≤ ticksFields before + backticks text ∧ Aligned rest := by
  have hself : ReadsTicks text 0 text := ⟨by omega, htext⟩
  rw [scanFields.eq_def] at hscan
  simp only at hscan
  split at hscan
  next body =>
    have hbody := hself.letter (by decide)
    split at hscan
    next => cases hscan
    next key after hkey =>
      have hafter := (hbody.trans (scanString_ticks hkey hbody.2)).white
      split at hscan
      next colon hcolon =>
        rw [hcolon] at hafter
        have hvalue := (hafter.letter (by decide)).white
        split at hscan
        next => cases hscan
        next item behind hitem =>
          have hread := (hvalue.trans (ih.value _ _ _ hitem hvalue.2)).white
          have hset := ticksFields_setField before key item
          split at hscan
          next tail htail =>
            rw [htail] at hread
            have hnext := (hread.letter (by decide)).white
            obtain ⟨hticks, halign⟩ := ih.fields _ _ _ _ hscan hnext.2
            have hfirst := hnext.1
            exact ⟨by omega, halign⟩
          next tail htail =>
            cases hscan
            rw [htail] at hread
            have hnext := hread.letter (by decide)
            have hfirst := hnext.1
            rw [ticks]
            exact ⟨by omega, hnext.2⟩
          next => cases hscan
      next => cases hscan
  next => cases hscan

theorem scansTicks (L : Floats F) (fuel : ℕ) : ScansTicks L fuel := by
  induction fuel with
  | zero =>
    constructor
    · intro text value rest hscan
      cases hscan
    · intro before text value rest hscan
      cases hscan
    · intro before text value rest hscan
      cases hscan
  | succ fuel ih => exact ⟨scansTicks_value ih, scansTicks_items ih, scansTicks_fields ih⟩

theorem ticks_loads_le (htext : Aligned text)
    (hloads : loads L text = some value) : ticks value ≤ backticks text := by
  unfold loads at hloads
  split at hloads
  next found rest hscan =>
    rw [ite_none_right_eq_some, some.injEq] at hloads
    obtain ⟨-, rfl⟩ := hloads
    have hwhite := skipWhite_ticks htext
    have hread := (scansTicks L _).value _ _ _ hscan hwhite.2
    have hskip := hwhite.1
    have hvalue := hread.1
    omega
  next => cases hloads

end

/-! ## What is written -/

def Sealed (text : List Char) : Prop :=
  ∀ back, Aligned back → Aligned (text ++ back)

section

variable {L : Floats F} {text front back : List Char}

theorem Sealed.append (hfront : Sealed front) (hback : Sealed back) : Sealed (front ++ back) := by
  intro rest hrest
  rw [append_assoc]
  exact hfront _ (hback _ hrest)

theorem sealed_of_plain (htext : '\\' ∉ text) : Sealed text :=
  fun _ hback => (aligned_of_append htext).mpr hback

theorem digitChar_plain {n : ℕ} (hn : n < 16) : Nat.digitChar n ≠ '\\' ∧ Nat.digitChar n ≠ '`' := by
  interval_cases n <;> decide

structure Writes (text : List Char) (n : ℕ) : Prop where
  ticks : backticks text = n
  closed : Sealed text

theorem Writes.append {n m : ℕ} (hfront : Writes front n)
    (hback : Writes back m) : Writes (front ++ back) (n + m) := by
  refine ⟨?_, hfront.closed.append hback.closed⟩
  rw [backticks_append, hfront.ticks, hback.ticks]

theorem writes_plain (hslash : '\\' ∉ text) (htick : '`' ∉ text) : Writes text 0 :=
  ⟨count_eq_zero.mpr htick, sealed_of_plain hslash⟩

theorem writes_escapeUnit {unit : ℕ} (hunit : unit < 0x10000)
    (hne : unit ≠ 96) : Writes (escapeUnit unit) 0 := by
  have hmod : ∀ n, n % 16 < 16 := fun n => Nat.mod_lt n (by decide)
  constructor
  · unfold backticks escapeUnit
    rw [count_eq_zero]
    simp [(digitChar_plain (hmod _)).2.symm]
  · intro rest hrest
    refine ⟨by decide, ?_, ?_⟩
    · rintro - ⟨a, b, c, d, tail, heq, hhex⟩
      cases heq
      rw [hex4_escapeUnit hunit, some.injEq] at hhex
      exact hne hhex
    · apply sealed_of_plain _ rest hrest
      simp [(digitChar_plain (hmod _)).1.symm]

theorem toNat_ne_backtick {letter : Char} (hletter : letter ≠ '`') : letter.toNat ≠ 96 := by
  intro hvalue
  apply hletter
  rw [← ofNat_toNat letter, hvalue]

theorem writes_escape (letter : Char) : Writes (escape letter) (if letter = '`' then 1 else 0) := by
  by_cases htick : letter = '`'
  · subst htick
    exact ⟨rfl, sealed_of_plain (by decide)⟩
  · have hvalid : letter.toNat < 0xD800 ∨
        0xDFFF < letter.toNat ∧ letter.toNat < 0x110000 := letter.valid
    have hcode := toNat_ne_backtick htick
    rw [if_neg htick]
    unfold escape
    split
    next mark found hsimple =>
      have hmem := mem_of_find?_eq_some hsimple
      have hmark : ∀ pair ∈ simpleEscapes, pair.1 ≠ '{' ∧ pair.1 ≠ 'u' ∧ pair.1 ≠ '`' := by decide
      obtain ⟨hbrace, hu, hne⟩ := hmark _ hmem
      constructor
      · unfold backticks
        rw [count_eq_zero]
        simp [hne.symm]
      · intro rest hrest
        exact ⟨hbrace, fun heq => absurd heq hu, hrest⟩
    next hsimple =>
      have hslash : letter ≠ '\\' := by
        rintro rfl
        cases hsimple
      split_ifs with hprintable hbasic
      · exact writes_plain (by simp [hslash.symm]) (by simp [Ne.symm htick])
      · exact writes_escapeUnit hbasic hcode
      · exact (writes_escapeUnit (by omega) (by omega)).append
          (writes_escapeUnit (by omega) (by omega))

theorem writes_dumpsString (string : List Char) :
    Writes (dumpsString string) (backticks string) := by
  have hbody : Writes (string.flatMap escape) (backticks string) := by
    induction string with
    | nil => exact writes_plain (by simp) (by simp)
    | cons letter string ih =>
      rw [flatMap_cons, backticks_cons, add_comm]
      exact (writes_escape letter).append ih
  have hquote : Writes ['"'] 0 := writes_plain (by decide) (by decide)
  have hall := (hquote.append hbody).append hquote
  rw [zero_add, add_zero] at hall
  exact hall

theorem writes_dumpsInt (n : ℤ) : Writes (dumpsInt n) 0 := by
  have hdigits : ∀ letter : Char, letter.isDigit = false → letter ∉ Nat.toDigits 10 n.natAbs := by
    intro letter hletter hmem
    have hdigit := Nat.isDigit_of_mem_toDigits (by omega) (by omega) hmem
    rw [hletter] at hdigit
    cases hdigit
  unfold dumpsInt
  split_ifs
  · exact writes_plain (by simp [hdigits]) (by simp [hdigits])
  · exact writes_plain (hdigits _ rfl) (hdigits _ rfl)

theorem writes_dumpsItems {items : List (Value F)}
    (hitems : ∀ item ∈ items, Writes (dumpsText L item) (ticks item)) :
    Writes (dumpsItems L items) (ticksItems items) := by
  induction items with
  | nil =>
    rw [dumpsItems]
    exact writes_plain (by decide) (by decide)
  | cons item items ih =>
    rw [forall_mem_cons] at hitems
    have hcomma : Writes [',', ' '] 0 := writes_plain (by decide) (by decide)
    have hall := (hcomma.append hitems.1).append (ih hitems.2)
    rw [zero_add] at hall
    exact hall

theorem writes_field {field : List Char × Value F}
    (hfield : Writes (dumpsText L field.2) (ticks field.2)) :
    Writes (dumpsString field.1 ++ (':' :: ' ' :: dumpsText L field.2))
      (backticks field.1 + ticks field.2) := by
  have hcolon : Writes [':', ' '] 0 := writes_plain (by decide) (by decide)
  have hall := (writes_dumpsString field.1).append (hcolon.append hfield)
  rw [zero_add] at hall
  exact hall

theorem writes_dumpsFields {fields : List (List Char × Value F)}
    (hfields : ∀ field ∈ fields, Writes (dumpsText L field.2) (ticks field.2)) :
    Writes (dumpsFields L fields) (ticksFields fields) := by
  induction fields with
  | nil =>
    rw [dumpsFields]
    exact writes_plain (by decide) (by decide)
  | cons field fields ih =>
    rw [forall_mem_cons] at hfields
    have hcomma : Writes [',', ' '] 0 := writes_plain (by decide) (by decide)
    have hall := (hcomma.append (writes_field hfields.1)).append (ih hfields.2)
    rw [zero_add] at hall
    exact hall

theorem writes_dumpsText {value : Value F} (hvalue : WellFormed L.Reads value) :
    Writes (dumpsText L value) (ticks value) := by
  induction hvalue with
  | null => exact writes_plain (by simp [dumpsText]) (by simp [dumpsText])
  | bool value =>
    cases value <;> exact writes_plain (by simp [dumpsText]) (by simp [dumpsText])
  | int n => exact writes_dumpsInt n
  | float x hx =>
    have hletters : '\\' ∉ floatLetters ∧ '`' ∉ floatLetters := by decide
    exact writes_plain (fun hmem => hletters.1 (hx.letters _ hmem))
      (fun hmem => hletters.2 (hx.letters _ hmem))
  | string text => exact writes_dumpsString text
  | array items hitems ih =>
    cases items with
    | nil =>
      rw [dumpsText]
      exact writes_plain (by decide) (by decide)
    | cons first items =>
      rw [forall_mem_cons] at ih
      have hopen : Writes ['['] 0 := writes_plain (by decide) (by decide)
      have hall := (hopen.append ih.1).append (writes_dumpsItems ih.2)
      rw [zero_add] at hall
      exact hall
  | object fields hkeys hfields ih =>
    cases fields with
    | nil =>
      rw [dumpsText]
      exact writes_plain (by decide) (by decide)
    | cons first fields =>
      rw [forall_mem_cons] at ih
      have hopen : Writes ['{'] 0 := writes_plain (by decide) (by decide)
      have hall := (hopen.append (writes_field ih.1)).append (writes_dumpsFields ih.2)
      rw [zero_add] at hall
      exact hall

theorem loads_part_ne {value : Value F} {before block after : List Char}
    (hvalue : WellFormed L.Reads value)
    (htext : dumpsText L value = before ++ ('{' :: block) ++ after)
    (hfewer : backticks ('{' :: block) < backticks (dumpsText L value)) :
    loads L ('{' :: block) ≠ some value := by
  intro hloads
  have hwrites := writes_dumpsText hvalue
  have haligned : Aligned (dumpsText L value) := by
    have hall := hwrites.closed [] True.intro
    rw [append_nil] at hall
    exact hall
  rw [htext, append_assoc, cons_append] at haligned
  have hpart : Aligned ('{' :: block) := by
    have hback := haligned.from_brace
    exact hback.of_append
  have hle := ticks_loads_le hpart hloads
  rw [hwrites.ticks] at hfewer
  omega

end

end JsonText
