import Mathlib.Data.List.Infix

/-!
# Substitution by a regular expression

A pattern is a sequence of pieces, each of which takes a part of the text, the
longest first, and gives some of it back where what follows does not fit.  A
text is scanned from the left: where the pattern fits, the fitting part is
one token, and everywhere else a letter is one.

What a substitution keeps is decided at the borders of the tokens.  A part of
the text which no fitting part touches is kept, and a part of the result which
nothing written touches was there before.
-/

namespace RegexScan

open List

abbrev Text := List Char

abbrev Piece := Text → Bool

def one (p : Char → Bool) : Piece
  | [letter] => p letter
  | _ => false

def many (p : Char → Bool) : Piece := fun text => text.all p

def several (p : Char → Bool) : Piece := fun text =>
  !text.isEmpty && text.all p

def between (low high : ℕ) (p : Char → Bool) : Piece := fun text =>
  decide (low ≤ text.length) && decide (text.length ≤ high) && text.all p

def word (same : Char → Char → Bool) : List Char → Piece
  | [], text => text.isEmpty
  | _ :: _, [] => false
  | letter :: rest, other :: text => same letter other && word same rest text

def anyOf (pieces : List Piece) : Piece := fun text =>
  pieces.any fun piece => piece text

/-- All the ways in which the pieces fit the front of a text, in the order in
which they are tried. -/
def fits : List Piece → Text → List (List Text)
  | [], _ => [[]]
  | piece :: pieces, text =>
    ((List.range (text.length + 1)).reverse.filter fun taken =>
      piece (text.take taken)).flatMap fun taken =>
        (fits pieces (text.drop taken)).map (text.take taken :: ·)

def Fits (pieces : List Piece) (groups : List Text) : Prop :=
  List.Forall₂ (fun piece group => piece group = true) pieces groups

structure Pattern where
  pieces : List Piece
  solid : ∀ groups, Fits pieces groups → groups.flatten ≠ []

def Pattern.matchAt (pattern : Pattern) (text : Text) : Option (List Text) :=
  (fits pattern.pieces text).head?

inductive Token where
  | plain (letter : Char)
  | found (groups : List Text)

/-- The tokens after `skip` letters, which a fitting part has taken. -/
def Pattern.tokens (pattern : Pattern) : ℕ → Text → List Token
  | _, [] => []
  | skip + 1, _ :: rest => pattern.tokens skip rest
  | 0, letter :: rest =>
    match pattern.matchAt (letter :: rest) with
    | some groups => .found groups :: pattern.tokens (groups.flatten.length - 1) rest
    | none => .plain letter :: pattern.tokens 0 rest

def Token.source : Token → Text
  | .plain letter => [letter]
  | .found groups => groups.flatten

def Token.rewrite (replace : List Text → Text) : Token → Text
  | .plain letter => [letter]
  | .found groups => replace groups

def Pattern.sub (pattern : Pattern) (replace : List Text → Text) (text : Text) : Text :=
  (pattern.tokens 0 text).flatMap (Token.rewrite replace)

def Token.groups? : Token → Option (List Text)
  | .plain _ => none
  | .found groups => some groups

/-- `re.finditer`. -/
def Pattern.findAll (pattern : Pattern) (text : Text) : List (List Text) :=
  (pattern.tokens 0 text).filterMap Token.groups?

variable {p : Char → Bool} {text : Text} {same : Char → Char → Bool}
  {groups : List Text} {pieces : List Piece} {pattern : Pattern}
  {tokens : List Token}

@[simp] theorem one_eq_true : one p text = true ↔ ∃ letter, text = [letter] ∧ p letter = true := by
  match text with
  | [] => simp [one]
  | [letter] => simp [one]
  | letter :: next :: rest => simp [one]

@[simp] theorem many_eq_true : many p text = true ↔ ∀ letter ∈ text, p letter = true := all_eq_true

@[simp] theorem several_eq_true :
    several p text = true ↔ text ≠ [] ∧ ∀ letter ∈ text, p letter = true := by
  simp [several]

@[simp] theorem between_eq_true {low high : ℕ} :
    between low high p text = true ↔
      (low ≤ text.length ∧ text.length ≤ high) ∧ ∀ letter ∈ text, p letter = true := by
  simp [between]

@[simp] theorem word_nil_eq_true : word same [] text = true ↔ text = [] := isEmpty_iff

@[simp] theorem word_cons_eq_true {letter : Char} {rest : Text} :
    word same (letter :: rest) text = true ↔
      ∃ other behind, text = other :: behind ∧ same letter other = true ∧
        word same rest behind = true := by
  cases text with
  | nil => simp [word]
  | cons other behind => simp [word]

@[simp] theorem fits_nil : Fits [] groups ↔ groups = [] :=
  ⟨fun hfits => by cases hfits; rfl, fun hgroups => hgroups ▸ Forall₂.nil⟩

@[simp] theorem fits_cons {piece : Piece} : Fits (piece :: pieces) groups ↔
      ∃ group rest, groups = group :: rest ∧ piece group = true ∧ Fits pieces rest := by
  constructor
  · intro hfits
    cases hfits with
    | cons hpiece hrest => exact ⟨_, _, rfl, hpiece, hrest⟩
  · rintro ⟨group, rest, rfl, hpiece, hrest⟩
    exact Forall₂.cons hpiece hrest

theorem solid_of_one (groups : List Text) (hfits : Fits (one p :: pieces) groups) :
    groups.flatten ≠ [] := by
  obtain ⟨group, rest, rfl, hone, -⟩ := fits_cons.mp hfits
  obtain ⟨letter, rfl, -⟩ := one_eq_true.mp hone
  exact cons_ne_nil letter _

theorem mem_fits :
    groups ∈ fits pieces text ↔ Fits pieces groups ∧ ∃ rest, text = groups.flatten ++ rest := by
  induction pieces generalizing text groups with
  | nil =>
    rw [fits, mem_singleton]
    constructor
    · rintro rfl
      exact ⟨Forall₂.nil, text, rfl⟩
    · rintro ⟨hfits, -⟩
      cases hfits
      rfl
  | cons piece pieces ih =>
    simp only [fits, mem_flatMap, mem_filter, mem_reverse, mem_range, mem_map, ih]
    constructor
    · rintro ⟨taken, ⟨-, hpiece⟩, tail, ⟨hfits, rest, hrest⟩, rfl⟩
      refine ⟨Forall₂.cons hpiece hfits, rest, ?_⟩
      rw [flatten_cons, append_assoc, ← hrest, take_append_drop]
    · rintro ⟨hfits, rest, rfl⟩
      cases hfits with
      | cons hpiece htail =>
        rename_i group tail
        rw [flatten_cons, append_assoc]
        refine ⟨group.length, ⟨?_, ?_⟩, tail, ⟨htail, rest, ?_⟩, ?_⟩
        · rw [length_append]
          omega
        · rwa [take_left]
        · exact drop_left
        · rw [take_left]

theorem fits_of_matchAt (hmatch : pattern.matchAt text = some groups) :
    Fits pattern.pieces groups ∧ ∃ rest, text = groups.flatten ++ rest :=
  mem_fits.mp (mem_of_mem_head? hmatch)

theorem matchAt_ne_none (hfits : Fits pattern.pieces groups) (rest : Text) :
    pattern.matchAt (groups.flatten ++ rest) ≠ none := by
  have hmem : groups ∈ fits pattern.pieces (groups.flatten ++ rest) :=
    mem_fits.mpr ⟨hfits, rest, rfl⟩
  intro hnone
  rw [Pattern.matchAt, head?_eq_none_iff] at hnone
  rw [hnone] at hmem
  cases hmem

inductive Tokenized (pattern : Pattern) : Text → List Token → Prop where
  | nil : Tokenized pattern [] []
  | plain {letter : Char} {rest : Text} {tokens : List Token}
      (hnone : pattern.matchAt (letter :: rest) = none)
      (hrest : Tokenized pattern rest tokens) :
      Tokenized pattern (letter :: rest) (.plain letter :: tokens)
  | found {groups : List Text} {rest : Text} {tokens : List Token}
      (hfits : Fits pattern.pieces groups)
      (hmatch : pattern.matchAt (groups.flatten ++ rest) = some groups)
      (hrest : Tokenized pattern rest tokens) :
      Tokenized pattern (groups.flatten ++ rest) (.found groups :: tokens)

theorem tokens_skip (pattern : Pattern) (skip : ℕ) (text : Text) :
    pattern.tokens skip text = pattern.tokens 0 (text.drop skip) := by
  induction text generalizing skip with
  | nil => cases skip <;> rfl
  | cons letter rest ih =>
    cases skip with
    | zero => rfl
    | succ skip => exact ih skip

theorem tokenized_tokens (pattern : Pattern) (text : Text) :
    Tokenized pattern text (pattern.tokens 0 text) := by
  induction hlength : text.length using Nat.strong_induction_on generalizing text with
  | _ length ih =>
    cases text with
    | nil => exact Tokenized.nil
    | cons letter rest =>
      cases hmatch : pattern.matchAt (letter :: rest) with
      | none =>
        simp only [Pattern.tokens, hmatch]
        exact Tokenized.plain hmatch (ih rest.length (by simp [← hlength]) rest rfl)
      | some groups =>
        obtain ⟨hfits, behind, htext⟩ := fits_of_matchAt hmatch
        have hsolid := pattern.solid groups hfits
        have hpos := length_pos_of_ne_nil hsolid
        have hdrop : rest.drop (groups.flatten.length - 1) = behind := by
          have hall := congrArg (drop groups.flatten.length) htext
          rw [drop_left] at hall
          rw [← hall, ← drop_succ_cons]
          congr 1
          omega
        have hshort : behind.length < length := by
          have hsum := congrArg List.length htext
          rw [length_append] at hsum
          omega
        simp only [Pattern.tokens, hmatch]
        rw [tokens_skip, hdrop, htext]
        rw [htext] at hmatch
        exact Tokenized.found hfits hmatch (ih _ hshort behind rfl)

theorem Tokenized.source (htokens : Tokenized pattern text tokens) :
    tokens.flatMap Token.source = text := by
  induction htokens with
  | nil => rfl
  | plain hnone hrest ih =>
    rw [flatMap_cons, ih]
    rfl
  | found hfits hmatch hrest ih =>
    rw [flatMap_cons, ih]
    rfl

theorem Tokenized.split {before : List Token}
    (htokens : Tokenized pattern text (before ++ tokens)) :
    Tokenized pattern (tokens.flatMap Token.source) tokens := by
  induction before generalizing text with
  | nil =>
    rw [htokens.source.symm] at htokens
    exact htokens
  | cons token before ih =>
    cases htokens with
    | plain hnone hrest => exact ih hrest
    | found hfits hmatch hrest => exact ih hrest

theorem Tokenized.not_fits {before after : List Token} {letter : Char}
    (htokens : Tokenized pattern text (before ++ .plain letter :: after))
    {rest : Text} (hfits : Fits pattern.pieces groups) :
    letter :: after.flatMap Token.source ≠ groups.flatten ++ rest := by
  intro htext
  have hsplit := htokens.split
  generalize hsource : (Token.plain letter :: after).flatMap Token.source = behind at hsplit
  cases hsplit with
  | plain hnone hrest =>
    have hbehind : letter :: after.flatMap Token.source = letter :: _ := hsource
    rw [← hbehind, htext] at hnone
    exact matchAt_ne_none hfits rest hnone

theorem Tokenized.fits (htokens : Tokenized pattern text tokens)
    (hfound : Token.found groups ∈ tokens) : Fits pattern.pieces groups := by
  induction htokens with
  | nil => cases hfound
  | plain hnone hrest ih =>
    rcases mem_cons.mp hfound with hhead | htail
    · cases hhead
    · exact ih htail
  | found hfits hmatch hrest ih =>
    rcases mem_cons.mp hfound with hhead | htail
    · cases hhead
      exact hfits
    · exact ih htail

/-! ## Cutting a text of tokens -/

section

variable {view : Token → Text}

variable {tokens : List Token} {left right first second part block : Text}

theorem cut (hview : ∀ letter, view (.plain letter) = [letter])
    (htext : tokens.flatMap view = left ++ right) :
    (∃ before after, tokens = before ++ after ∧
      before.flatMap view = left ∧ after.flatMap view = right) ∨
    ∃ before groups after first second,
      tokens = before ++ .found groups :: after ∧
      view (.found groups) = first ++ second ∧ first ≠ [] ∧ second ≠ [] ∧
      left = before.flatMap view ++ first ∧
      right = second ++ after.flatMap view := by
  induction tokens generalizing left with
  | nil =>
    left
    have hempty := append_eq_nil_iff.mp htext.symm
    exact ⟨[], [], rfl, hempty.1.symm, hempty.2.symm⟩
  | cons token tokens ih =>
    rcases append_eq_append_iff.mp htext with ⟨rest, hleft, hrest⟩ | ⟨rest, htoken, hright⟩
    · rcases ih hrest with ⟨before, after, hsplit, hbefore, hafter⟩ |
        ⟨before, groups, after, first, second, hsplit, hgroups, hfirst, hsecond, hbefore, hafter⟩
      · left
        refine ⟨token :: before, after, by rw [hsplit]; rfl, ?_, hafter⟩
        rw [flatMap_cons, hbefore, hleft]
      · right
        refine ⟨token :: before, groups, after, first, second,
          by rw [hsplit]; rfl, hgroups, hfirst, hsecond, ?_, hafter⟩
        rw [flatMap_cons, append_assoc, ← hbefore, hleft]
    · by_cases hleft : left = []
      · left
        subst hleft
        refine ⟨[], token :: tokens, rfl, rfl, ?_⟩
        rw [flatMap_cons, htoken, hright]
        rfl
      by_cases hrest : rest = []
      · left
        subst hrest
        refine ⟨[token], tokens, rfl, ?_, hright.symm⟩
        rw [flatMap_cons, htoken, append_nil]
        exact append_nil left
      cases token with
      | plain letter =>
        rw [hview] at htoken
        rcases singleton_eq_append_iff.mp htoken with ⟨hempty, -⟩ | ⟨-, hempty⟩
        · exact absurd hempty hleft
        · exact absurd hempty hrest
      | found groups =>
        right
        exact ⟨[], groups, tokens, left, rest, rfl, htoken, hleft, hrest, rfl, hright⟩

def Compatible (first second : Text) : Prop :=
  first <+: second ∨ second <+: first

theorem Compatible.symm (hcompatible : Compatible first second) : Compatible second first :=
  Or.symm hcompatible

theorem compatible_of_append (htext : first ++ left = second ++ right) :
    Compatible first second := by
  rcases append_eq_append_iff.mp htext with ⟨rest, hsecond, -⟩ | ⟨rest, hfirst, -⟩
  · exact .inl ⟨rest, hsecond.symm⟩
  · exact .inr ⟨rest, hfirst.symm⟩

theorem Compatible.head {first second : Char}
    (hcompatible : Compatible (first :: left) (second :: right)) :
    first = second ∧ Compatible left right := by
  rcases hcompatible with hprefix | hprefix
  · obtain ⟨hhead, htail⟩ := cons_prefix_cons.mp hprefix
    exact ⟨hhead, .inl htail⟩
  · obtain ⟨hhead, htail⟩ := cons_prefix_cons.mp hprefix
    exact ⟨hhead.symm, .inr htail⟩

/-- No later part of `part` can be the beginning of `block`. -/
def StaysOutside (part block : Text) : Prop :=
  ∀ front behind, part = front ++ behind → behind ≠ [] → ¬ Compatible behind block

/-- No border of `block` falls into `part`, nor the other way round. -/
structure Avoids (part block : Text) : Prop where
  inside : StaysOutside part block
  around : StaysOutside block part

theorem Compatible.of_append {rest : Text} (hcompatible : Compatible first (second ++ rest)) :
    Compatible first second := by
  rcases hcompatible with hfirst | hsecond
  · exact prefix_or_prefix_of_prefix hfirst (prefix_append _ _)
  · exact .inr ((prefix_append _ _).trans hsecond)

theorem StaysOutside.append_block (hpart : StaysOutside part block) (rest : Text) :
    StaysOutside part (block ++ rest) :=
  fun front behind hsplit hbehind hcompatible =>
    hpart front behind hsplit hbehind hcompatible.of_append

theorem StaysOutside.concat {rest : Text} (hpart : StaysOutside part block)
    (hrest : StaysOutside rest block) : StaysOutside (part ++ rest) block := by
  intro front behind hsplit hbehind hcompatible
  rcases append_eq_append_iff.mp hsplit with ⟨middle, -, hlast⟩ | ⟨middle, hfirst, hlast⟩
  · exact hrest middle behind hlast hbehind hcompatible
  · by_cases hmiddle : middle = []
    · subst hmiddle
      exact hrest [] behind (by rw [hlast]; rfl) hbehind hcompatible
    · rw [hlast] at hcompatible
      exact hpart front middle hfirst hmiddle hcompatible.symm.of_append.symm

theorem staysOutside_nil : StaysOutside [] block := by
  intro front behind hsplit hbehind
  exact absurd (append_eq_nil_iff.mp hsplit.symm).2 hbehind

theorem Avoids.symm (havoids : Avoids part block) : Avoids block part :=
  ⟨havoids.around, havoids.inside⟩

theorem Avoids.flatMap {α : Type*} {block : α → Text} {items : List α} (hitems : items ≠ [])
    (havoids : ∀ item ∈ items, Avoids part (block item)) : Avoids part (items.flatMap block) := by
  constructor
  · cases items with
    | nil => exact absurd rfl hitems
    | cons item items => exact (havoids item mem_cons_self).inside.append_block _
  · clear hitems
    induction items with
    | nil => exact staysOutside_nil
    | cons item items ih =>
      rw [forall_mem_cons] at havoids
      exact havoids.1.around.concat (ih havoids.2)

section

variable (hview : ∀ letter, view (.plain letter) = [letter])

include hview

theorem plain_or_block (htext : tokens.flatMap view = part ++ right) :
    (∃ after, tokens = part.map Token.plain ++ after ∧ after.flatMap view = right) ∨
    ∃ front behind groups after, part = front ++ behind ∧ behind ≠ [] ∧
      tokens = front.map Token.plain ++ .found groups :: after ∧
      view (.found groups) ++ after.flatMap view = behind ++ right := by
  induction part generalizing tokens with
  | nil => exact .inl ⟨tokens, rfl, htext⟩
  | cons letter part ih =>
    cases tokens with
    | nil => cases htext
    | cons token tokens =>
      cases token with
      | plain other =>
        rw [flatMap_cons, hview] at htext
        obtain ⟨rfl, htail⟩ := cons_eq_cons.mp htext
        rcases ih htail with ⟨after, rfl, hright⟩ |
          ⟨front, behind, groups, after, rfl, hbehind, rfl, hblock⟩
        · exact .inl ⟨after, rfl, hright⟩
        · exact .inr ⟨other :: front, behind, groups, after, rfl, hbehind, rfl, hblock⟩
      | found groups =>
        exact .inr ⟨[], letter :: part, groups, tokens, rfl, cons_ne_nil _ _, rfl, htext⟩

theorem plain_of_avoids (htext : tokens.flatMap view = part ++ right)
    (havoids : ∀ groups, .found groups ∈ tokens → StaysOutside part (view (.found groups))) :
    ∃ after, tokens = part.map Token.plain ++ after ∧ after.flatMap view = right := by
  rcases plain_or_block hview htext with hplain |
    ⟨front, behind, groups, after, rfl, hbehind, rfl, hblock⟩
  · exact hplain
  · exact absurd (compatible_of_append hblock).symm
      (havoids groups (mem_append_right _ mem_cons_self) front behind rfl hbehind)

theorem plain_part (htext : tokens.flatMap view = left ++ (part ++ right))
    (havoids : ∀ groups, .found groups ∈ tokens → Avoids part (view (.found groups))) :
    ∃ before after, tokens = before ++ (part.map Token.plain ++ after) ∧
      before.flatMap view = left ∧ after.flatMap view = right := by
  rcases cut hview htext with ⟨before, rest, rfl, hbefore, hrest⟩ |
    ⟨before, groups, rest, first, second, rfl, hgroups, -, hsecond, -, hrest⟩
  · obtain ⟨after, rfl, hafter⟩ := plain_of_avoids hview hrest
      fun groups hgroups => (havoids groups (mem_append_right before hgroups)).inside
    exact ⟨before, after, rfl, hbefore, hafter⟩
  · have havoid := havoids groups (mem_append_right before mem_cons_self)
    rw [hgroups] at havoid
    exact absurd (compatible_of_append hrest).symm (havoid.around first second rfl hsecond)

end

end

/-! ## Texts told apart by a letter -/

/-- In the text every `mark` is followed by a letter of which `P` holds. -/
def FollowedBy (mark : Char) (P : Char → Prop) (text : Text) : Prop :=
  ∀ front rest, text = front ++ mark :: rest → ∃ next behind, rest = next :: behind ∧ P next

section

variable {mark letter next : Char} {P : Char → Prop} {part block text : Text}

theorem followedBy_of_notMem (hmark : mark ∉ text) : FollowedBy mark P text := by
  rintro front rest rfl
  exact absurd (mem_append_right front mem_cons_self) hmark

theorem FollowedBy.cons (hletter : letter ≠ mark) (htext : FollowedBy mark P text) :
    FollowedBy mark P (letter :: text) := by
  intro front rest hsplit
  cases front with
  | nil => exact absurd (cons_eq_cons.mp hsplit).1 hletter
  | cons first front => exact htext front rest (cons_eq_cons.mp hsplit).2

theorem FollowedBy.here (hnext : P next) (htext : FollowedBy mark P (next :: text)) :
    FollowedBy mark P (mark :: next :: text) := by
  intro front rest hsplit
  cases front with
  | nil => exact ⟨next, text, (cons_eq_cons.mp hsplit).2.symm, hnext⟩
  | cons first front => exact htext front rest (cons_eq_cons.mp hsplit).2

theorem FollowedBy.append (hpart : mark ∉ part)
    (htext : FollowedBy mark P text) : FollowedBy mark P (part ++ text) := by
  induction part with
  | nil => exact htext
  | cons letter part ih =>
    rw [mem_cons, not_or] at hpart
    exact (ih hpart.2).cons (Ne.symm hpart.1)

theorem FollowedBy.concat (hpart : FollowedBy mark P part)
    (htext : FollowedBy mark P text) : FollowedBy mark P (part ++ text) := by
  intro front rest hsplit
  rcases append_eq_append_iff.mp hsplit with ⟨behind, hfront, htail⟩ | ⟨behind, hpartSplit, htail⟩
  · exact htext behind rest htail
  · cases behind with
    | nil => exact htext [] rest htail.symm
    | cons first behind =>
      obtain ⟨rfl, rfl⟩ := cons_eq_cons.mp htail
      obtain ⟨next, others, rfl, hnext⟩ := hpart front behind hpartSplit
      exact ⟨next, others ++ text, rfl, hnext⟩

theorem staysOutside_of_notMem (hletter : letter ∉ part) : StaysOutside part (letter :: block) := by
  rintro front behind rfl hbehind hcompatible
  cases behind with
  | nil => exact hbehind rfl
  | cons first behind =>
    rw [hcompatible.head.1] at hletter
    exact hletter (mem_append_right front mem_cons_self)

theorem staysOutside_of_once (hletter : letter ∉ part) (hpart : part ≠ []) :
    StaysOutside (letter :: part) (letter :: letter :: block) := by
  intro front behind hsplit hbehind hcompatible
  cases front with
  | nil =>
    cases part with
    | nil => exact hpart rfl
    | cons first part =>
      rw [nil_append] at hsplit
      rw [← hsplit] at hcompatible
      rw [hcompatible.head.2.head.1] at hletter
      exact hletter mem_cons_self
  | cons first front =>
    obtain ⟨-, hrest⟩ := cons_eq_cons.mp hsplit
    exact staysOutside_of_notMem hletter front behind hrest hbehind hcompatible

theorem FollowedBy.staysOutside (hpart : FollowedBy mark P part)
    (hnext : ¬ P next) : StaysOutside part (mark :: next :: block) := by
  intro front behind hsplit hbehind hcompatible
  cases behind with
  | nil => exact hbehind rfl
  | cons first behind =>
    obtain ⟨rfl, htail⟩ := hcompatible.head
    obtain ⟨second, rest, rfl, hsecond⟩ := hpart front behind hsplit
    exact hnext (htail.head.1 ▸ hsecond)

theorem StaysOutside.cons (hfirst : ¬ Compatible (letter :: part) block)
    (hrest : StaysOutside part block) : StaysOutside (letter :: part) block := by
  intro front behind hsplit hbehind
  cases front with
  | nil =>
    rw [nil_append] at hsplit
    exact hsplit ▸ hfirst
  | cons first front => exact hrest front behind (cons_eq_cons.mp hsplit).2 hbehind

theorem StaysOutside.skip (hletter : letter ≠ mark) (hrest : StaysOutside part (mark :: block)) :
    StaysOutside (letter :: part) (mark :: block) :=
  hrest.cons fun hcompatible => hletter hcompatible.head.1

theorem StaysOutside.append (hpart : mark ∉ part) (hrest : StaysOutside text (mark :: block)) :
    StaysOutside (part ++ text) (mark :: block) := by
  induction part with
  | nil => exact hrest
  | cons letter part ih =>
    rw [mem_cons, not_or] at hpart
    exact (ih hpart.2).skip (Ne.symm hpart.1)

theorem eq_of_compatible {first : Char} {front behind : Text} (hpart : mark ∉ part)
    (hrest : StaysOutside text (mark :: block)) (hsplit : part ++ first :: text = front ++ behind)
    (hbehind : behind ≠ []) (hcompatible : Compatible behind (mark :: block)) :
    front = part ∧ behind = first :: text := by
  induction part generalizing front with
  | nil =>
    cases front with
    | nil => exact ⟨rfl, hsplit.symm⟩
    | cons other front =>
      exact absurd hcompatible (hrest front behind (cons_eq_cons.mp hsplit).2 hbehind)
  | cons letter part ih =>
    rw [mem_cons, not_or] at hpart
    cases front with
    | nil =>
      rw [nil_append, cons_append] at hsplit
      rw [← hsplit] at hcompatible
      exact absurd hcompatible.head.1.symm hpart.1
    | cons other front =>
      obtain ⟨rfl, htail⟩ := cons_eq_cons.mp hsplit
      obtain ⟨rfl, hbehindEq⟩ := ih hpart.2 htail
      exact ⟨rfl, hbehindEq⟩

theorem Compatible.run {p : Char → Prop} {first second left right : Text}
    {one other : Char} (hfirst : ∀ letter ∈ first, p letter)
    (hsecond : ∀ letter ∈ second, p letter) (hone : ¬ p one) (hother : ¬ p other)
    (hcompatible : Compatible (first ++ one :: left) (second ++ other :: right)) :
    first = second ∧ Compatible (one :: left) (other :: right) := by
  induction first generalizing second with
  | nil =>
    cases second with
    | nil => exact ⟨rfl, hcompatible⟩
    | cons letter second =>
      have hhead := hcompatible.head.1
      exact absurd (hhead ▸ hsecond letter mem_cons_self) hone
  | cons letter first ih =>
    rw [forall_mem_cons] at hfirst
    cases second with
    | nil =>
      have hhead := hcompatible.head.1
      exact absurd (hhead ▸ hfirst.1) hother
    | cons letter' second =>
      rw [forall_mem_cons] at hsecond
      obtain ⟨rfl, htail⟩ := hcompatible.head
      obtain ⟨rfl, hrest⟩ := ih hfirst.2 hsecond.2 htail
      exact ⟨rfl, hrest⟩

end

theorem flatMap_plain {view : Token → Text} (hview : ∀ letter, view (.plain letter) = [letter])
    (part : Text) : (part.map Token.plain).flatMap view = part := by
  induction part with
  | nil => rfl
  | cons letter part ih =>
    rw [map_cons, flatMap_cons, ih, hview]
    rfl

section

variable {pattern : Pattern} {replace : List Text → Text} {text part : Text}

variable {groups : List Text}

theorem not_infix_sub (hfits : Fits pattern.pieces groups)
    (havoids : ∀ others, Fits pattern.pieces others → Avoids groups.flatten
      (replace others)) : ¬ groups.flatten <:+: pattern.sub replace text := by
  rintro ⟨left, right, hsub⟩
  have htokens := tokenized_tokens pattern text
  rw [append_assoc] at hsub
  obtain ⟨before, after, hsplit, -, -⟩ := plain_part (fun _ => rfl)
    hsub.symm fun others hothers => havoids others (htokens.fits hothers)
  cases hregion : groups.flatten with
  | nil => exact pattern.solid groups hfits hregion
  | cons letter rest =>
    rw [hregion, map_cons, cons_append] at hsplit
    rw [hsplit] at htokens
    have hbehind : letter :: (rest.map Token.plain ++ after).flatMap
        Token.source = groups.flatten ++ after.flatMap Token.source := by
      rw [flatMap_append, flatMap_plain fun _ => rfl, hregion]
      rfl
    exact htokens.not_fits hfits hbehind

theorem found_of_infix (hfits : Fits pattern.pieces groups) (hwithin : groups.flatten <:+: text)
    (hinside : ∀ others, Fits pattern.pieces others → StaysOutside others.flatten.tail
      groups.flatten) :
    ∃ others, Token.found others ∈ pattern.tokens 0 text ∧
      Compatible groups.flatten others.flatten := by
  obtain ⟨left, right, rfl⟩ := hwithin
  rw [append_assoc]
  have htokens := tokenized_tokens pattern (left ++ (groups.flatten ++ right))
  rcases cut (fun _ => rfl) htokens.source with
    ⟨before, after, hsplit, hbefore, hafter⟩ |
    ⟨before, others, after, first, second, hsplit, hothers, hfirst, hsecond, -, hright⟩
  · cases after with
    | nil =>
      have hempty := append_eq_nil_iff.mp hafter.symm
      exact absurd hempty.1 (pattern.solid groups hfits)
    | cons token after =>
      cases token with
      | plain letter =>
        rw [hsplit] at htokens
        exact absurd hafter (htokens.not_fits hfits)
      | found others =>
        refine ⟨others, ?_, (compatible_of_append hafter).symm⟩
        rw [hsplit]
        exact mem_append_right before mem_cons_self
  · have hmem : Token.found others ∈ pattern.tokens 0 (left ++ (groups.flatten ++ right)) := by
      rw [hsplit]
      exact mem_append_right before mem_cons_self
    cases first with
    | nil => exact absurd rfl hfirst
    | cons letter first =>
      have hsource : others.flatten = letter :: (first ++ second) := hothers
      have hstays := hinside others (htokens.fits hmem)
      rw [hsource, tail_cons] at hstays
      exact absurd (compatible_of_append hright).symm (hstays first second rfl hsecond)

theorem mem_findAll (hgroups : Token.found groups ∈ pattern.tokens 0 text) :
    groups ∈ pattern.findAll text :=
  mem_filterMap.mpr ⟨_, hgroups, rfl⟩

theorem infix_of_mem_findAll (hfound : groups ∈ pattern.findAll text) :
    Fits pattern.pieces groups ∧ groups.flatten <:+: text := by
  have htokens := tokenized_tokens pattern text
  obtain ⟨token, hmem, htoken⟩ := mem_filterMap.mp hfound
  cases token with
  | plain letter => cases htoken
  | found others =>
    cases htoken
    refine ⟨htokens.fits hmem, ?_⟩
    obtain ⟨before, after, hsplit⟩ := append_of_mem hmem
    have hsource := htokens.source
    rw [hsplit, flatMap_append, flatMap_cons] at hsource
    exact ⟨_, _, (append_assoc _ _ _).trans hsource⟩

end

end RegexScan
