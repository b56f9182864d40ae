import Legba.JsonRoundTrip
import Legba.Words

/-!
# The objects in a judge's reply

A judge's reply may surround its JSON object with prose or put it in a code
fence.  The first fence which closes is unwrapped; what is left is searched for
blocks of balanced braces, where braces in strings do not count, and the blocks
which are JSON objects are returned.

Prose which leaves a block open takes the object that follows into it, and an
object whose strings hold fences is cut by them.
-/

namespace Legba.JudgeReplies

open LoadedJson JsonText List Option

attribute [local instance (high)] List.decidableBAll

universe u

variable {F : Type u}

abbrev Text := List Char

abbrev Fields (F : Type u) := List (Text × Value F)

structure ScanState where
  depth : ℕ
  inStr : Bool
  escaped : Bool
deriving DecidableEq

def outside (depth : ℕ) : ScanState :=
  { depth := depth, inStr := false, escaped := false }

def ScanState.step (state : ScanState) (ch : Char) : ScanState :=
  if state.inStr then
    if state.escaped then { state with escaped := false }
    else if ch = '\\' then { state with escaped := true }
    else if ch = '"' then { state with inStr := false }
    else state
  else if ch = '"' then { state with inStr := true }
  else if ch = '{' then { state with depth := state.depth + 1 }
  else if ch = '}' then { state with depth := state.depth - 1 }
  else state

def blockEnd : ScanState → Text → Option (Text × Text)
  | _, [] => none
  | state, ch :: rest =>
    if state.inStr = false ∧ ch = '}' ∧ (state.step ch).depth = 0 then
      some ([ch], rest)
    else
      (blockEnd (state.step ch) rest).map fun found => (ch :: found.1, found.2)

def blocksFrom : ℕ → Text → List Text
  | 0, _ => []
  | _ + 1, [] => []
  | fuel + 1, ch :: rest =>
    if ch = '{' then
      match blockEnd (outside 0) (ch :: rest) with
      | none => []
      | some (block, rest) => block :: blocksFrom fuel rest
    else blocksFrom fuel rest

def blocks (text : Text) : List Text := blocksFrom text.length text

/-- `str.isspace`, and `\s` of a pattern. -/
def isSpace (letter : Char) : Bool :=
  let n := letter.toNat
  (9 ≤ n && n ≤ 13) || (28 ≤ n && n ≤ 32) || n = 0x85 || n = 0xa0 ||
    n = 0x1680 || (0x2000 ≤ n && n ≤ 0x200a) || n = 0x2028 || n = 0x2029 ||
    n = 0x202f || n = 0x205f || n = 0x3000

def strip (text : Text) : Text := Words.strip isSpace text

def fence : Text := ['`', '`', '`']

def splitFence : Text → Option (Text × Text)
  | [] => none
  | letter :: rest =>
    if fence <+: letter :: rest then some ([], (letter :: rest).drop 3)
    else (splitFence rest).map fun split => (letter :: split.1, split.2)

/-- `json` without regard to case, where the long s is taken for an s. -/
def isLabel : Text → Bool
  | [a, b, c, d] =>
    (a = 'j' || a = 'J') && (b = 's' || b = 'S' || b = 'ſ') &&
      (c = 'o' || c = 'O') && (d = 'n' || d = 'N')
  | _ => false

/-- `(?:json)?` -/
def dropLabel (text : Text) : Text :=
  if isLabel (text.take 4) then text.drop 4 else text

def fenceGroup (text : Text) : Option Text :=
  (splitFence text).bind fun opened =>
    (splitFence ((dropLabel opened.2).dropWhile isSpace)).map Prod.fst

def objectOf (L : Floats F) (block : Text) : Option (Fields F) :=
  match loads L block with
  | some (.object fields) => some fields
  | _ => none

def extractJsonObjects (L : Floats F) (text : Text) : List (Fields F) :=
  if text.isEmpty then []
  else
    let candidate := strip text
    let candidate :=
      match fenceGroup candidate with
      | some group => strip group
      | none => candidate
    (blocks candidate).filterMap (objectOf L)

/-! ## Balanced blocks -/

def ScanState.after (state : ScanState) (text : Text) : ScanState :=
  text.foldl ScanState.step state

def Stays (state : ScanState) (text : Text) : Prop :=
  ∀ front back, text = front ++ back → 0 < (state.after front).depth

def Balanced (block : Text) : Prop :=
  ∃ body, block = '{' :: body ++ ['}'] ∧ Stays (outside 1) body ∧ (outside 1).after body = outside 1

inductive Closed : Text → Prop where
  | nil : Closed []
  | letter (ch : Char) (rest : Text) (hch : ch ≠ '{') (hrest : Closed rest) : Closed (ch :: rest)
  | block (block rest : Text) (hblock : Balanced block)
      (hrest : Closed rest) : Closed (block ++ rest)

section

variable {state : ScanState} {text front back : Text} {ch : Char}

theorem after_append : state.after (front ++ back) = (state.after front).after back :=
  foldl_append

theorem Stays.depth_pos (hstays : Stays state text) : 0 < state.depth :=
  hstays [] text rfl

theorem Stays.after_pos (hstays : Stays state text) : 0 < (state.after text).depth :=
  hstays text [] (append_nil text).symm

theorem Stays.of_append (hstays : Stays state (front ++ back)) : Stays state front := by
  rintro first rest rfl
  exact hstays first (rest ++ back) (append_assoc _ _ _)

theorem stays_nil (hdepth : 0 < state.depth) : Stays state [] := by
  intro front back heq
  obtain ⟨rfl, -⟩ := append_eq_nil_iff.mp heq.symm
  exact hdepth

theorem stays_cons (hdepth : 0 < state.depth)
    (hrest : Stays (state.step ch) text) : Stays state (ch :: text) := by
  intro front back heq
  cases front with
  | nil => exact hdepth
  | cons first front =>
    obtain ⟨rfl, htext⟩ := cons.inj heq
    exact hrest front back htext

theorem Stays.of_cons (hstays : Stays state (ch :: text)) : Stays (state.step ch) text := by
  rintro front back rfl
  exact hstays (ch :: front) back rfl

theorem Stays.append (hfront : Stays state front)
    (hback : Stays (state.after front) back) : Stays state (front ++ back) := by
  induction front generalizing state with
  | nil => exact hback
  | cons first front ih => exact stays_cons hfront.depth_pos (ih hfront.of_cons hback)

theorem blockEnd_of_stays (hstays : Stays state text) (rest : Text) :
    blockEnd state (text ++ rest) =
      (blockEnd (state.after text) rest).map fun found =>
        (text ++ found.1, found.2) := by
  induction text generalizing state with
  | nil =>
    cases hrest : blockEnd state rest <;> simp [ScanState.after, hrest]
  | cons first text ih =>
    have htail := ih hstays.of_cons
    have hpos := hstays.of_cons.depth_pos
    rw [cons_append, blockEnd, if_neg (by omega), htail, Option.map_map]
    rfl

theorem step_depth_pos (hdepth : 0 < state.depth)
    (hopen : ¬(state.inStr = false ∧ ch = '}' ∧ (state.step ch).depth = 0)) :
    0 < (state.step ch).depth := by
  by_contra hzero
  apply hopen
  unfold ScanState.step at hzero ⊢
  split_ifs at hzero ⊢ <;> simp_all

theorem blockEnd_eq_none_iff (hdepth : 0 < state.depth) :
    blockEnd state text = none ↔ Stays state text := by
  induction text generalizing state with
  | nil => exact ⟨fun _ => stays_nil hdepth, fun _ => rfl⟩
  | cons first text ih =>
    rw [blockEnd]
    by_cases hclose : state.inStr = false ∧ first = '}' ∧ (state.step first).depth = 0
    · rw [if_pos hclose]
      constructor
      · rintro ⟨⟩
      · intro hstays
        have hpos := hstays.of_cons.depth_pos
        omega
    · rw [if_neg hclose, map_eq_none_iff, ih (step_depth_pos hdepth hclose)]
      exact ⟨stays_cons hdepth, Stays.of_cons⟩

theorem step_escaped (hescaped : state.escaped = true → state.inStr = true) :
    (state.step ch).escaped = true → (state.step ch).inStr = true := by
  unfold ScanState.step
  split_ifs <;> simp_all

variable {block : Text}

variable {rest : Text}

theorem blockEnd_spec (hdepth : 0 < state.depth)
    (hescaped : state.escaped = true → state.inStr = true)
    (hfound : blockEnd state text = some (block, rest)) :
    ∃ body, text = body ++ '}' :: rest ∧ block = body ++ ['}'] ∧
      Stays state body ∧ state.after body = outside 1 := by
  induction text generalizing state block with
  | nil => cases hfound
  | cons first text ih =>
    rw [blockEnd] at hfound
    by_cases hclose : state.inStr = false ∧ first = '}' ∧ (state.step first).depth = 0
    · rw [if_pos hclose] at hfound
      cases hfound
      obtain ⟨hplain, rfl, hzero⟩ := hclose
      have hone : state = outside 1 := by
        obtain ⟨depth, inStr, escaped⟩ := state
        simp only at hplain hescaped hdepth
        subst hplain
        have hunescaped : escaped = false := by
          cases escaped with
          | false => rfl
          | true => exact absurd (hescaped rfl) (by simp)
        subst hunescaped
        simp only [ScanState.step, Bool.false_eq_true, if_false, Char.reduceEq, if_true] at hzero
        have hdepth' : depth = 1 := by omega
        rw [hdepth', outside]
      exact ⟨[], rfl, rfl, stays_nil hdepth, hone⟩
    · rw [if_neg hclose] at hfound
      obtain ⟨⟨tail, after⟩, htail, heq⟩ := map_eq_some_iff.mp hfound
      cases heq
      obtain ⟨body, rfl, rfl, hstays, hafter⟩ := ih
        (step_depth_pos hdepth hclose) (step_escaped hescaped) htail
      exact ⟨first :: body, rfl, rfl, stays_cons hdepth hstays, hafter⟩

theorem Balanced.blockEnd (hblock : Balanced block) (rest : Text) :
    blockEnd (outside 0) (block ++ rest) = some (block, rest) := by
  obtain ⟨body, rfl, hstays, hafter⟩ := hblock
  have hbody := blockEnd_of_stays hstays ('}' :: rest)
  rw [hafter] at hbody
  have hlast : JudgeReplies.blockEnd (outside 1) ('}' :: rest) = some (['}'], rest) := rfl
  rw [cons_append, cons_append, append_assoc, JudgeReplies.blockEnd, if_neg (by decide)]
  change (JudgeReplies.blockEnd (outside 1) _).map _ = _
  rw [singleton_append, hbody]
  rfl

theorem balanced_of_blockEnd (hfound : blockEnd (outside 0) ('{' :: text) = some (block, rest)) :
    '{' :: text = block ++ rest ∧ Balanced block := by
  obtain ⟨⟨tail, after⟩, htail, heq⟩ := map_eq_some_iff.mp hfound
  cases heq
  obtain ⟨body, rfl, rfl, hstays, hafter⟩ := blockEnd_spec (by decide) (by decide) htail
  exact ⟨by simp, body, rfl, hstays, hafter⟩

end

/-! ## All blocks of a text -/

section

variable {text front : Text}

variable {block : Text}

theorem Balanced.length_pos (hblock : Balanced block) : 0 < block.length := by
  obtain ⟨body, rfl, -⟩ := hblock
  simp

theorem blocksFrom_eq {fuel : ℕ} (hfuel : text.length ≤ fuel) :
    blocksFrom fuel text = blocks text := by
  unfold blocks
  induction hlength : text.length using Nat.strong_induction_on generalizing text fuel with
  | _ length ih =>
    subst hlength
    cases text with
    | nil => cases fuel <;> rfl
    | cons ch rest =>
      obtain ⟨fuel, rfl⟩ : ∃ n, fuel = n + 1 := by
        cases fuel with
        | zero => cases hfuel
        | succ n => exact ⟨n, rfl⟩
      rw [length_cons] at hfuel ⊢
      rw [blocksFrom, blocksFrom]
      by_cases hch : ch = '{'
      · subst hch
        rw [if_pos rfl, if_pos rfl]
        cases hfound : blockEnd (outside 0) ('{' :: rest) with
        | none => rfl
        | some found =>
          obtain ⟨heq, hblock⟩ := balanced_of_blockEnd hfound
          have hpos := hblock.length_pos
          have hsum := congrArg length heq
          rw [length_cons, length_append] at hsum
          have hafter : found.2.length < rest.length + 1 := by omega
          have hleft := @ih _ hafter found.2 fuel (by omega) rfl
          have hright := @ih _ hafter found.2 rest.length (by omega) rfl
          simp only [hleft, hright]
      · rw [if_neg hch, if_neg hch]
        exact @ih _ (by simp) rest fuel (by omega) rfl

theorem blocks_letter {ch : Char} (hch : ch ≠ '{') (rest : Text) :
    blocks (ch :: rest) = blocks rest := by
  unfold blocks
  rw [length_cons, blocksFrom, if_neg hch]

theorem blocks_block (hblock : Balanced block) (rest : Text) :
    blocks (block ++ rest) = block :: blocks rest := by
  have hfound := hblock.blockEnd rest
  obtain ⟨body, rfl, -⟩ := hblock
  have hlength : ('{' :: body ++ ['}'] ++ rest).length = (body ++ ['}'] ++ rest).length + 1 := rfl
  unfold blocks
  rw [hlength]
  rw [cons_append, cons_append] at hfound ⊢
  rw [blocksFrom, if_pos rfl, hfound]
  simp only
  rw [blocksFrom_eq (by simp; omega)]
  rfl

theorem Closed.blocks_append (hfront : Closed front) (text : Text) :
    blocks (front ++ text) = blocks front ++ blocks text := by
  induction hfront with
  | nil => rfl
  | letter ch rest hch hrest ih => rw [cons_append, blocks_letter hch, blocks_letter hch, ih]
  | block block rest hblock hrest ih =>
    rw [append_assoc, blocks_block hblock, blocks_block hblock, ih, cons_append]

theorem pieces {motive : Text → Prop} (nil : motive [])
    (letter : ∀ ch rest, ch ≠ '{' → motive rest → motive (ch :: rest))
    (block : ∀ block rest, Balanced block → motive rest → motive (block ++ rest))
    (opened : ∀ body, Stays (outside 1) body → motive ('{' :: body)) : ∀ text, motive text := by
  intro text
  induction hlength : text.length using Nat.strong_induction_on generalizing text with
  | _ length ih =>
    subst hlength
    cases text with
    | nil => exact nil
    | cons ch rest =>
      by_cases hch : ch = '{'
      · subst hch
        cases hfound : blockEnd (outside 0) ('{' :: rest) with
        | none =>
          rw [blockEnd, if_neg (by decide), map_eq_none_iff] at hfound
          exact opened rest ((blockEnd_eq_none_iff (by decide)).mp hfound)
        | some found =>
          obtain ⟨heq, hblock⟩ := balanced_of_blockEnd hfound
          have hpos := hblock.length_pos
          have hsum := congrArg length heq
          rw [length_append] at hsum
          rw [heq]
          exact block _ _ hblock (ih _ (by omega) found.2 rfl)
      · exact letter ch rest hch (ih _ (by simp) rest rfl)

theorem closed_or_open (text : Text) :
    Closed text ∨ ∃ front body, text = front ++ '{' :: body ∧ Closed front ∧
      Stays (outside 1) body := by
  induction text using pieces with
  | nil => exact .inl .nil
  | letter ch rest hch ih =>
    rcases ih with hclosed | ⟨front, body, rfl, hfront, hstays⟩
    · exact .inl (.letter ch rest hch hclosed)
    · exact .inr ⟨ch :: front, body, rfl, .letter ch _ hch hfront, hstays⟩
  | block block rest hblock ih =>
    rcases ih with hclosed | ⟨front, body, rfl, hfront, hstays⟩
    · exact .inl (.block _ _ hblock hclosed)
    · exact .inr ⟨block ++ front, body, (append_assoc _ _ _).symm, .block _ _ hblock hfront, hstays⟩
  | opened body hstays => exact .inr ⟨[], body, rfl, .nil, hstays⟩

theorem blocks_open {body : Text} (hstays : Stays (outside 1) body) :
    blocks ('{' :: body) = [] := by
  have hopen : blockEnd (outside 0) ('{' :: body) = none := by
    rw [blockEnd, if_neg (by decide), map_eq_none_iff]
    exact (blockEnd_eq_none_iff (by decide)).mpr hstays
  unfold blocks
  rw [length_cons, blocksFrom, if_pos rfl, hopen]

theorem balanced_of_mem_blocks (hmem : block ∈ blocks text) : Balanced block ∧ block <:+: text := by
  induction text using pieces with
  | nil => cases hmem
  | letter ch rest hch ih =>
    rw [blocks_letter hch] at hmem
    obtain ⟨hblock, hwithin⟩ := ih hmem
    exact ⟨hblock, hwithin.trans (suffix_cons ch rest).isInfix⟩
  | block first rest hfirst ih =>
    rw [blocks_block hfirst] at hmem
    rcases mem_cons.mp hmem with rfl | hmem
    · exact ⟨hfirst, (prefix_append block rest).isInfix⟩
    · obtain ⟨hblock, hwithin⟩ := ih hmem
      exact ⟨hblock, hwithin.trans (suffix_append first rest).isInfix⟩
  | opened body hstays =>
    rw [blocks_open hstays] at hmem
    cases hmem

end

/-! ## Written objects -/

def Keeps (state : ScanState) (text : Text) : Prop :=
  Stays state text ∧ state.after text = state

variable {state : ScanState} {front back text body : Text}

theorem Keeps.append (hfront : Keeps state front) (hback : Keeps state back) :
    Keeps state (front ++ back) := by
  obtain ⟨hstays, hafter⟩ := hfront
  obtain ⟨hstays', hafter'⟩ := hback
  refine ⟨hstays.append (by rw [hafter]; exact hstays'), ?_⟩
  rw [after_append, hafter, hafter']

theorem keeps_of_step (hdepth : 0 < state.depth)
    (htext : ∀ ch ∈ text, state.step ch = state) : Keeps state text := by
  induction text with
  | nil => exact ⟨stays_nil hdepth, rfl⟩
  | cons ch rest ih =>
    rw [forall_mem_cons] at htext
    obtain ⟨hstays, hafter⟩ := ih htext.2
    refine ⟨stays_cons hdepth (by rw [htext.1]; exact hstays), ?_⟩
    change (state.step ch).after rest = state
    rw [htext.1, hafter]

def inside (depth : ℕ) : ScanState :=
  { depth := depth, inStr := true, escaped := false }

variable {depth : ℕ}

theorem inside_step {ch : Char} (hquote : ch ≠ '"') (hslash : ch ≠ '\\') :
    (inside depth).step ch = inside depth := by
  simp [inside, ScanState.step, hquote, hslash]

theorem keeps_escape_mark (hdepth : 0 < depth) (mark : Char) : Keeps (inside depth) ['\\', mark] :=
  ⟨stays_cons hdepth (stays_cons hdepth (stays_nil hdepth)), rfl⟩

theorem digitChar_inside {n : ℕ} (hn : n < 16) :
    (inside depth).step (Nat.digitChar n) = inside depth := by
  apply inside_step <;> interval_cases n <;> decide

theorem keeps_escapeUnit (hdepth : 0 < depth) (unit : ℕ) :
    Keeps (inside depth) (escapeUnit unit) := by
  apply (keeps_escape_mark hdepth 'u').append
  apply keeps_of_step hdepth
  intro ch hch
  simp only [mem_cons, not_mem_nil, or_false] at hch
  rcases hch with rfl | rfl | rfl | rfl <;> exact digitChar_inside (Nat.mod_lt _ (by decide))

theorem keeps_escape (hdepth : 0 < depth) (letter : Char) :
    Keeps (inside depth) (escape letter) := by
  unfold escape
  split
  next mark found hsimple => exact keeps_escape_mark hdepth mark
  next hsimple =>
    have hne : ∀ pair ∈ simpleEscapes, letter ≠ pair.2 := by
      intro pair hpair heq
      have hnot := find?_eq_none.mp hsimple pair hpair
      exact hnot (by rw [heq]; exact decide_eq_true rfl)
    split_ifs
    · apply keeps_of_step hdepth
      intro ch hch
      rw [mem_singleton] at hch
      subst hch
      exact inside_step (hne ('"', '"') (by decide)) (hne ('\\', '\\') (by decide))
    · exact keeps_escapeUnit hdepth _
    · exact (keeps_escapeUnit hdepth _).append (keeps_escapeUnit hdepth _)

def Neutral (text : Text) : Prop :=
  ∀ depth, 0 < depth → Keeps (outside depth) text

theorem Neutral.append (hfront : Neutral front) (hback : Neutral back) : Neutral (front ++ back) :=
  fun depth hdepth => (hfront depth hdepth).append (hback depth hdepth)

def isPlain (ch : Char) : Bool := ch != '"' && ch != '{' && ch != '}'

theorem neutral_of_plain (htext : ∀ ch ∈ text, isPlain ch = true) : Neutral text := by
  intro depth hdepth
  apply keeps_of_step hdepth
  intro ch hch
  have hplain := htext ch hch
  simp only [isPlain, bne_iff_ne, Bool.and_eq_true, ne_eq] at hplain
  simp [outside, ScanState.step, hplain.1.1, hplain.1.2, hplain.2]

theorem neutral_dumpsString (text : Text) : Neutral (dumpsString text) := by
  intro depth hdepth
  have hbody : Keeps (inside depth) (text.flatMap escape) := by
    induction text with
    | nil => exact ⟨stays_nil hdepth, rfl⟩
    | cons letter text ih => exact (keeps_escape hdepth letter).append ih
  have hlast : Stays (inside depth) ['"'] := stays_cons hdepth (stays_nil hdepth)
  have hopen : (outside depth).step '"' = inside depth := rfl
  constructor
  · apply stays_cons hdepth
    apply hbody.1.append
    rw [hbody.2]
    exact hlast
  · change ((outside depth).step '"').after (text.flatMap escape ++ ['"']) = _
    rw [hopen, after_append, hbody.2]
    rfl

theorem Neutral.braces (hbody : Neutral body) : Neutral ('{' :: body ++ ['}']) := by
  intro depth hdepth
  obtain ⟨hstays, hafter⟩ := hbody (depth + 1) (by omega)
  have hopen : (outside depth).step '{' = outside (depth + 1) := rfl
  have hclose : (outside (depth + 1)).step '}' = outside depth := rfl
  constructor
  · apply stays_cons hdepth
    apply hstays.append
    rw [hafter]
    exact stays_cons (by exact Nat.succ_pos depth) (by rw [hclose]; exact stays_nil hdepth)
  · change ((outside depth).step '{').after (body ++ ['}']) = _
    rw [hopen, after_append, hafter]
    exact hclose

theorem Neutral.balanced (hbody : Neutral body) : Balanced ('{' :: body ++ ['}']) := by
  obtain ⟨hstays, hafter⟩ := hbody 1 (by decide)
  exact ⟨body, rfl, hstays, hafter⟩

section

variable {L : Floats F}

theorem neutral_dumpsInt (n : ℤ) : Neutral (dumpsInt n) := by
  apply neutral_of_plain
  have hdigits : ∀ ch ∈ Nat.toDigits 10 n.natAbs, isPlain ch = true := by
    intro ch hch
    have hdigit := Nat.isDigit_of_mem_toDigits (by omega) (by omega) hch
    have hne : ∀ other : Char, other.isDigit = false → ch ≠ other := by
      rintro other hother rfl
      rw [hdigit] at hother
      cases hother
    simp [isPlain, hne]
  unfold dumpsInt
  split_ifs
  · rw [forall_mem_cons]
    exact ⟨by decide, hdigits⟩
  · exact hdigits

theorem neutral_dumpsItems {items : List (Value F)}
    (hitems : ∀ item ∈ items, Neutral (dumpsText L item)) : Neutral (dumpsItems L items) := by
  induction items with
  | nil =>
    rw [dumpsItems]
    exact neutral_of_plain (by decide)
  | cons item items ih =>
    rw [forall_mem_cons] at hitems
    have hcomma : Neutral [',', ' '] := neutral_of_plain (by decide)
    exact (hcomma.append hitems.1).append (ih hitems.2)

def fieldTexts (L : Floats F) : List (Text × Value F) → Text
  | [] => []
  | (key, value) :: rest =>
    ',' :: ' ' :: dumpsString key ++ ':' :: ' ' :: dumpsText L value ++ fieldTexts L rest

theorem dumpsFields_eq (fields : List (Text × Value F)) :
    dumpsFields L fields = fieldTexts L fields ++ ['}'] := by
  induction fields with
  | nil => rfl
  | cons field fields ih =>
    rw [dumpsFields, fieldTexts, ih]
    simp only [append_assoc, cons_append]

variable {fields : List (Text × Value F)}

theorem neutral_fieldTexts (hfields : ∀ field ∈ fields, Neutral (dumpsText L field.2)) :
    Neutral (fieldTexts L fields) := by
  induction fields with
  | nil =>
    rw [fieldTexts]
    exact neutral_of_plain (by decide)
  | cons field fields ih =>
    rw [forall_mem_cons] at hfields
    have hcomma : Neutral [',', ' '] := neutral_of_plain (by decide)
    have hcolon : Neutral [':', ' '] := neutral_of_plain (by decide)
    exact ((hcomma.append (neutral_dumpsString field.1)).append
      (hcolon.append hfields.1)).append (ih hfields.2)

def objectBody (L : Floats F) : List (Text × Value F) → Text
  | [] => []
  | (key, value) :: rest =>
    dumpsString key ++ (':' :: ' ' :: dumpsText L value) ++ fieldTexts L rest

theorem dumpsText_object (fields : List (Text × Value F)) :
    dumpsText L (.object fields) = '{' :: objectBody L fields ++ ['}'] := by
  cases fields with
  | nil => rfl
  | cons field fields =>
    rw [dumpsText, dumpsFields_eq, objectBody]
    simp only [append_assoc, cons_append]

theorem neutral_objectBody (hfields : ∀ field ∈ fields, Neutral (dumpsText L field.2)) :
    Neutral (objectBody L fields) := by
  cases fields with
  | nil =>
    rw [objectBody]
    exact neutral_of_plain (by decide)
  | cons field fields =>
    rw [forall_mem_cons] at hfields
    have hcolon : Neutral [':', ' '] := neutral_of_plain (by decide)
    exact ((neutral_dumpsString field.1).append
      (hcolon.append hfields.1)).append (neutral_fieldTexts hfields.2)

theorem neutral_dumpsText {value : Value F}
    (hvalue : WellFormed L.Reads value) : Neutral (dumpsText L value) := by
  induction hvalue with
  | null =>
    rw [dumpsText]
    exact neutral_of_plain (by decide)
  | bool value =>
    rw [dumpsText]
    cases value <;> exact neutral_of_plain (by decide)
  | int n => exact neutral_dumpsInt n
  | float x hx =>
    have hplain : ∀ ch ∈ floatLetters, isPlain ch = true := by decide
    exact neutral_of_plain fun ch hch => hplain ch (hx.letters ch hch)
  | string text => exact neutral_dumpsString text
  | array items hitems ih =>
    have hopen : Neutral ['['] := neutral_of_plain (by decide)
    cases items with
    | nil =>
      rw [dumpsText]
      exact neutral_of_plain (by decide)
    | cons first items =>
      rw [forall_mem_cons] at ih
      exact (hopen.append ih.1).append (neutral_dumpsItems ih.2)
  | object fields hkeys hfields ih =>
    rw [dumpsText_object]
    exact (neutral_objectBody ih).braces

theorem balanced_dumpsText (hobject : WellFormed L.Reads (.object fields)) :
    Balanced (dumpsText L (.object fields)) := by
  cases hobject with
  | object _ hkeys hfields =>
    rw [dumpsText_object]
    exact (neutral_objectBody fun field hfield => neutral_dumpsText (hfields field hfield)).balanced

end

end Legba.JudgeReplies
