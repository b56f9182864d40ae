import Legba.CitationMarkers
import Legba.JudgeReplies

/-!
# Claim segmentation

A finding's body is cut into claim spans.  Lines are read one after the other,
a heading opens or closes a section that is left out, and the lines which are
kept are cut into sentences.

A heading is recognized by its marks alone.  The shape of a label, which tells
a heading from a bold sentence, is asked for elsewhere.
-/

namespace Legba.ClaimSegmentation

open RegexScan List
open CitationMarkers (CharClasses claimMarker refPattern isOneOf group normalizeVerifyMarkers)
open JudgeReplies (isSpace strip)

structure TextClasses extends CharClasses where
  /-- `\w` -/
  isWordLetter : Char → Bool
  lower : Text → Text

def isTerminator : Char → Bool := isOneOf ['.', '!', '?']

def whole (pieces : List Piece) (text : Text) : Option (List Text) :=
  (fits pieces text).find? fun groups => groups.flatten.length == text.length

section

variable (T : TextClasses)

/-- The classes, with the white space of `str`. -/
def classes : CharClasses :=
  { T.toCharClasses with isSpace := isSpace }

/-- One marker after the other, with blanks between them. -/
def markersOnly : ℕ → Text → Bool
  | 0, _ => false
  | fuel + 1, text =>
    match ((claimMarker (classes T)).matchAt text).or ((refPattern (classes T)).matchAt text) with
    | none => false
    | some groups =>
      let rest := text.drop groups.flatten.length
      rest.isEmpty || markersOnly fuel (rest.dropWhile isSpace)

def markerRun : Piece := fun text => markersOnly T text.length text

/-- `_CITATION_ONLY_RE` -/
def citationOnly (text : Text) : Bool := markerRun T (strip text)

/-- `_TRAILING_MARKER_PULL_RE` -/
def trailingMarkers : Pattern where
  pieces := [one isTerminator, several isSpace, markerRun T]
  solid := solid_of_one

def pullMarkers (text : Text) : Text :=
  (trailingMarkers T).sub (fun groups =>
    ' ' :: (group groups 2 ++ group groups 0 ++ group groups 1)) text

/-- `_INLINE_HEADING_RE`, without the letter before it. -/
def inlineHeading : List Piece :=
  [between 2 6 (· == '#'), several isSpace, one fun letter => !isSpace letter]

/-- A new line before each inline heading; `skip` letters are of the last. -/
def breakHeadings (before : Char) : ℕ → Text → Text
  | _, [] => []
  | skip + 1, letter :: rest => letter :: breakHeadings letter skip rest
  | 0, letter :: rest =>
    match (fits inlineHeading (letter :: rest)).head? with
    | some groups =>
      if before = '\n' then letter :: breakHeadings letter 0 rest
      else '\n' :: letter :: breakHeadings letter (groups.flatten.length - 1) rest
    | none => letter :: breakHeadings letter 0 rest

def isLineBreak : Char → Bool :=
  isOneOf ['\n', '\r', '\x0b', '\x0c', '\x1c', '\x1d', '\x1e', '\u0085', '\u2028', '\u2029']

def splitLines : Text → List Text
  | [] => []
  | '\r' :: '\n' :: rest => [] :: splitLines rest
  | letter :: rest =>
    if isLineBreak letter then [] :: splitLines rest
    else
      match splitLines rest with
      | [] => [[letter]]
      | line :: lines => (letter :: line) :: lines

/-- `(?:[-*>]\s+)*` -/
def bullets : Piece := fun text =>
  text.head?.all (fun letter => !isSpace letter) && text.getLast?.all isSpace &&
    (Words.words isSpace text).all fun word => [['-'], ['*'], ['>']].contains word

def same (letter other : Char) : Bool := letter == other

def closing : List Piece :=
  [many isSpace, between 0 1 (· == ':'), many isSpace]

/-- `_BOLD_HEADING_RE` -/
def boldHeading : List Piece :=
  [many isSpace, bullets, word same ['*', '*'],
    several fun letter => letter != '*' && letter != '\n',
    word same ['*', '*']] ++ closing

/-- `_BACKTICK_HEADING_RE` -/
def backtickHeading : List Piece :=
  [many isSpace, bullets, word same ['`'],
    between 1 64 fun letter => letter != '`' && letter != '\n',
    word same ['`']] ++ closing

/-- `_PLAIN_HEADING_RE` -/
def plainHeading : List Piece :=
  [many isSpace, one Char.isAlpha,
    between 0 63 fun letter => letter != '\n' && letter != ':',
    word same [':'], many isSpace]

/-- `_PROSE_BULLET_LEAD_RE` -/
def isBulletLead (line : Text) : Bool :=
  !(fits [many isSpace, anyOf [one (isOneOf ['-', '*', '+', '•']), fun text =>
      several T.isDigit text.dropLast &&
        text.getLast?.any (isOneOf ['.', ')'])], several isSpace] line).isEmpty

/-- The words of `_PRESENT_FACT_VERB_RE`. -/
def presentFactVerbs : List String :=
  ["is", "are", "was", "were", "be", "been", "being", "has", "have", "had",
    "remain", "remains", "appear", "appears", "continue", "continues", "hold",
    "holds", "maintain", "maintains", "stand", "stands", "resumed", "seized",
    "deployed", "launched", "killed", "announced", "began", "fired",
    "mobilised", "mobilized", "halted", "suspended", "restored", "captured",
    "invaded", "shelled", "bombed", "declared", "imposed", "signed", "breached",
    "assassinated", "detained", "arrested", "ousted", "toppled", "erupted",
    "escalated", "conducts", "enriches", "deploys", "seizes", "imposes",
    "expands", "announces", "suspends", "mobilises", "mobilizes", "expels",
    "ratifies", "withdraws", "invades", "unveils", "escalates", "besieges",
    "bombards", "occupies", "detains", "ousts"]

def isLabel (content : Text) : Bool :=
  let content := strip content
  !content.isEmpty && decide (content.length ≤ 48) &&
    decide ((Words.words isSpace content).length ≤ 7) &&
    !content.getLast?.any isTerminator &&
    !presentFactVerbs.any fun verb => (Words.words
      (fun letter => !T.isWordLetter letter) (T.lower content)).contains verb.toList

def isHash (line : Text) : Bool :=
  ['#'].isPrefixOf (line.dropWhile isSpace)

/-- `_is_bold_heading` and `_is_backtick_heading` -/
def isMarkedHeading (pieces : List Piece) (line : Text) : Bool :=
  (whole pieces line).any fun groups => isLabel T (group groups 3)

def isPlainHeading (line : Text) : Bool :=
  !isBulletLead T line &&
    (whole plainHeading line).any fun groups => isLabel T (group groups 1 ++ group groups 2)

/-- The `is_heading` of the scanner. -/
def isHeading (line : Text) : Bool :=
  isHash line || (whole boldHeading line).isSome ||
    (whole backtickHeading line).isSome || isPlainHeading T line

def isLabelHeading (line : Text) : Bool :=
  isHash line || isMarkedHeading T boldHeading line ||
    isMarkedHeading T backtickHeading line || isPlainHeading T line

def nonFactualHeadings : List String :=
  ["indicators to watch", "indicators", "watch", "what to watch",
    "watch items", "watch for", "watchlist", "watch list", "signposts",
    "leading indicators", "key indicators", "indicators & triggers",
    "indicators and triggers", "triggers to watch", "developments to watch",
    "things to watch", "indicators to monitor", "what would confirm",
    "what would break", "what would change"]

def opensWatch (line : Text) : Bool :=
  let head := T.lower (Words.strip (isOneOf ['#', '*', '-', '>', ':', '`', ' ']) (strip line))
  nonFactualHeadings.any fun heading => heading.toList.isPrefixOf head

/-- Each line, and whether it lies in a section which is left out. -/
def scan (heading : Text → Bool) : Bool → List Text → List (Text × Bool)
  | _, [] => []
  | skipping, line :: rest =>
    let now := if heading line then opensWatch T line else skipping
    (line, now) :: scan heading now rest

def kept (scanned : List (Text × Bool)) : List Text :=
  (scanned.filter fun entry => !entry.2).map Prod.fst

/-- The lookbehind of `_SENTENCE_SPLIT_RE`, on the letters before, the last
one first. -/
def endsSentence : Text → Bool
  | '.' :: letter :: '.' :: _ => !letter.isUpper
  | letter :: _ => isTerminator letter
  | [] => false

def splitSentences : Text → ℕ → Text → List Text
  | _, _, [] => [[]]
  | before, skip + 1, letter :: rest => splitSentences (letter :: before) skip rest
  | before, 0, letter :: rest =>
    match ((letter :: rest).takeWhile
        (if endsSentence before then isSpace else (· == '\n'))).length with
    | skip + 1 => [] :: splitSentences (letter :: before) skip rest
    | 0 =>
      match splitSentences (letter :: before) 0 rest with
      | [] => [[letter]]
      | piece :: pieces => (letter :: piece) :: pieces

def abbreviations : List String :=
  ["vs", "cf", "e.g", "i.e", "approx", "fig", "figs", "mr", "mrs", "ms", "dr", "prof"]

/-- `_NON_TERMINAL_ABBREV_RE` -/
def endsAbbreviated (text : Text) : Bool :=
  abbreviations.any fun abbreviation =>
    let letters := abbreviation.toList ++ ['.']
    let start := text.length - letters.length
    word T.same letters (text.drop start) &&
      !(text.take start).getLast?.any fun letter => T.isWordLetter letter || letter == '-'

/-- The merged spans, the last one first, and the spans to come. -/
def merge : List Text → List Text → List Text
  | merged, [] => merged.reverse
  | [], span :: rest => merge [span] rest
  | last :: merged, span :: rest =>
    if citationOnly T span || endsAbbreviated T last then
      merge ((last ++ ' ' :: span) :: merged) rest
    else merge (span :: last :: merged) rest

def brokenLines (body : Text) : List Text :=
  splitLines (breakHeadings '\n' 0 (pullMarkers T (normalizeVerifyMarkers (classes T) body)))

def segmentClaimsRaw (body : Text) : List Text :=
  if body.isEmpty then []
  else
    let text := Words.join '\n' (kept (scan T (isHeading T) false (brokenLines T body)))
    merge T [] (((splitSentences [] 0 text).map strip).filter (· ≠ []))

end

/-- What is not white space. -/
def ink (text : Text) : Text := text.filter fun letter => !isSpace letter

def inkOf (texts : List Text) : Text := texts.flatMap ink

variable {T : TextClasses} {text : Text} {texts : List Text}

theorem ink_append (front back : Text) : ink (front ++ back) = ink front ++ ink back :=
  filter_append front back

theorem ink_cons (letter : Char) (rest : Text) : ink (letter :: rest) = ink [letter] ++ ink rest :=
  ink_append [letter] rest

@[simp] theorem inkOf_nil : inkOf [] = [] := rfl

@[simp] theorem inkOf_cons (first : Text) (rest : List Text) :
    inkOf (first :: rest) = ink first ++ inkOf rest := flatMap_cons

theorem ink_of_blank (htext : ∀ letter ∈ text, isSpace letter = true) : ink text = [] :=
  filter_eq_nil_iff.mpr fun letter hletter => by simp [htext letter hletter]

theorem ink_dropWhile (text : Text) : ink (text.dropWhile isSpace) = ink text := by
  conv_rhs => rw [← takeWhile_append_dropWhile (p := isSpace) (l := text)]
  rw [ink_append, ink_of_blank fun letter => mem_takeWhile_imp]
  rfl

theorem ink_strip (text : Text) : ink (strip text) = ink text := by
  have hreverse (part : Text) : ink part.reverse = (ink part).reverse := filter_reverse
  rw [strip, Words.strip, rdropWhile, hreverse, ink_dropWhile, hreverse,
    reverse_reverse, ink_dropWhile]

theorem ink_join (texts : List Text) : ink (Words.join '\n' texts) = inkOf texts := by
  match texts with
  | [] => rfl
  | [line] => simp [Words.join]
  | line :: next :: rest =>
    have ih := ink_join (next :: rest)
    rw [Words.join, ink_append, inkOf_cons]
    exact congrArg (ink line ++ ·) ih

/-- By induction on the text; the letters skipped are blanks. -/
theorem ink_splitSentences (before : Text) (skip : ℕ)
    (hskip : ∀ letter ∈ text.take skip, isSpace letter = true) :
    inkOf (splitSentences before skip text) = ink text := by
  induction text generalizing before skip with
  | nil => rfl
  | cons letter rest ih =>
    rw [ink_cons]
    cases skip with
    | succ skip =>
      rw [take_succ_cons, forall_mem_cons] at hskip
      have hletter : ink [letter] = [] := ink_of_blank (by simpa using hskip.1)
      rw [splitSentences, ih _ _ hskip.2, hletter, nil_append]
    | zero =>
      rw [splitSentences]
      split
      · rename_i skip hlength
        have hblank : ∀ other ∈ (letter :: rest).take skip.succ, isSpace other = true := by
          rw [← hlength, ← prefix_iff_eq_take.mp ( takeWhile_prefix _)]
          intro other hother
          have hone := mem_takeWhile_imp hother
          split at hone
          · exact hone
          · rw [eq_of_beq hone]
            rfl
        rw [take_succ_cons, forall_mem_cons] at hblank
        have hletter : ink [letter] = [] := ink_of_blank (by simpa using hblank.1)
        rw [inkOf_cons, ih _ _ hblank.2, hletter]
        rfl
      · have hrest := ih (letter :: before) 0 (by simp)
        rw [← hrest]
        cases splitSentences (letter :: before) 0 rest with
        | nil => rw [inkOf_cons]
        | cons piece pieces => rw [inkOf_cons, inkOf_cons, ink_cons, append_assoc]

theorem inkOf_merge (merged spans : List Text) :
    inkOf (merge T merged spans) = inkOf merged.reverse ++ inkOf spans := by
  have happend (front back : List Text) :
      inkOf (front ++ back) = inkOf front ++ inkOf back := flatMap_append
  induction spans generalizing merged with
  | nil => rw [merge.eq_def, inkOf_nil, append_nil]
  | cons span rest ih =>
    cases merged with
    | nil => rw [merge, ih, inkOf_cons]; simp
    | cons last merged =>
      have hglued : ink (last ++ ' ' :: span) = ink last ++ ink span :=
        ink_append last (' ' :: span)
      rw [merge]
      split <;> rw [ih] <;> simp [happend, hglued]

theorem inkOf_strip (texts : List Text) :
    inkOf ((texts.map strip).filter (· ≠ [])) = inkOf texts := by
  induction texts with
  | nil => rfl
  | cons text rest ih =>
    have htext := ink_strip text
    by_cases hnil : strip text = []
    · rw [hnil] at htext
      have hempty : ink text = [] := htext.symm
      simpa [hnil, hempty] using ih
    · simpa [hnil, htext] using ih

theorem inkOf_segmentClaimsRaw (body : Text) :
    inkOf (segmentClaimsRaw T body) =
      inkOf (kept (scan T (isHeading T) false (brokenLines T body))) := by
  unfold segmentClaimsRaw
  cases body with
  | nil =>
    have hlines : brokenLines T [] = [] := by rfl
    rfl
  | cons letter rest =>
    simp only [isEmpty_cons, Bool.false_eq_true, if_false]
    rw [inkOf_merge, inkOf_strip, ink_splitSentences _ _ (by simp), ink_join,
      reverse_nil, inkOf_nil, nil_append]

/-- The lines which are not blank, and where they lie. -/
def inked (scanned : List (Text × Bool)) : List (Text × Bool) :=
  scanned.filter fun entry => !(ink entry.1).isEmpty

theorem inked_cons (entry : Text × Bool) (rest : List (Text × Bool)) :
    inked (entry :: rest) =
      if ink entry.1 = [] then inked rest else entry :: inked rest := by
  by_cases hblank : ink entry.1 = [] <;> simp [inked, hblank]

/-- By induction on the lines.  A line which only looks like a heading parts
the two scans exactly if it opens what is closed or closes what is open. -/
theorem scan_eq_iff {heading other : Text → Bool}
    (hother : ∀ line, other line = true → heading line = true)
    (hink : ∀ line, heading line = true → ink line ≠ []) (skipping : Bool) (lines : List Text) :
    inked (scan T heading skipping lines) = inked (scan T other skipping lines) ↔
      ∀ entry ∈ scan T other skipping lines, heading entry.1 = true →
        other entry.1 = false → opensWatch T entry.1 = entry.2 := by
  induction lines generalizing skipping with
  | nil => simp [scan]
  | cons line rest ih =>
    rw [scan, scan, forall_mem_cons, inked_cons, inked_cons]
    cases hline : heading line with
    | false =>
      have hnot : other line = false := by
        rw [← Bool.not_eq_true]
        exact fun htrue => by simp [hother line htrue] at hline
      simp only [hnot, Bool.false_eq_true, if_false, false_implies, true_and, ← ih skipping]
      split <;> simp
    | true =>
      rw [if_neg (hink line hline), if_neg (hink line hline)]
      cases hnot : other line with
      | true =>
        simp only [if_true, reduceCtorEq, implies_true, true_and,
          ← ih (opensWatch T line), cons.injEq]
      | false =>
        simp only [if_true, Bool.false_eq_true, if_false, forall_const,
          cons.injEq, Prod.mk.injEq, true_and]
        refine and_congr_right fun hsame => ?_
        rw [hsame]
        exact ih skipping

theorem inkOf_kept (scanned : List (Text × Bool)) :
    inkOf (kept scanned) = inkOf (kept (inked scanned)) := by
  induction scanned with
  | nil => rfl
  | cons entry rest ih =>
    have hcons (others : List (Text × Bool)) :
        kept (entry :: others) =
          if entry.2 then kept others else entry.1 :: kept others := by
      cases hskip : entry.2 <;> simp [kept, hskip]
    rw [inked_cons, hcons]
    by_cases hblank : ink entry.1 = []
    · rw [if_pos hblank, ← ih]
      split <;> simp [hblank]
    · rw [if_neg hblank, hcons]
      split <;> simp [ih]

/-- What a pattern with a letter of its own fits is not blank. -/
theorem ink_of_whole {pieces : List Piece} {line : Text} {groups : List Text} (mark : Char)
    (tail : Text) (hmark : isSpace mark = false) (hpiece : word same (mark :: tail) ∈ pieces)
    (hwhole : whole pieces line = some groups) : ink line ≠ [] := by
  have hlength := find?_some hwhole
  obtain ⟨hfits, hfront⟩ := mem_fits.mp (mem_of_find?_eq_some hwhole)
  have hflat : groups.flatten = line :=
    List.IsPrefix.eq_of_length (hfront.imp fun _ => Eq.symm) (eq_of_beq hlength)
  have hgroup : ∃ group ∈ groups, word same (mark :: tail) group = true := by
    clear hwhole hlength hfront hflat
    induction hfits with
    | nil => cases hpiece
    | cons hfirst _ ih =>
      obtain rfl | hrest := mem_cons.mp hpiece
      · exact ⟨_, mem_cons_self, hfirst⟩
      · obtain ⟨group, hin, hword⟩ := ih hrest
        exact ⟨group, mem_cons_of_mem _ hin, hword⟩
  obtain ⟨group, hin, hword⟩ := hgroup
  obtain ⟨other, rest, rfl, hsame, -⟩ := word_cons_eq_true.mp hword
  rw [← eq_of_beq hsame] at hin
  have hkept : (!isSpace mark) = true := by rw [hmark]; rfl
  refine ne_nil_of_mem (mem_filter.mpr ⟨?_, hkept⟩)
  rw [← hflat]
  exact mem_flatten.mpr ⟨_, hin, mem_cons_self⟩

theorem ink_of_isHeading {line : Text} (hline : isHeading T line) : ink line ≠ [] := by
  simp only [isHeading, Bool.or_eq_true, Option.isSome_iff_exists] at hline
  obtain ((hhash | ⟨groups, hbold⟩) | ⟨groups, htick⟩) | hplain := hline
  · obtain ⟨rest, hrest⟩ := isPrefixOf_iff_prefix.mp hhash
    rw [← ink_dropWhile, ← hrest]
    exact cons_ne_nil _ _
  · exact ink_of_whole '*' ['*'] rfl (by simp [boldHeading]) hbold
  · exact ink_of_whole '`' [] rfl (by simp [backtickHeading]) htick
  · simp only [isPlainHeading, Bool.and_eq_true, Option.any_eq_true] at hplain
    obtain ⟨-, groups, hgroups, -⟩ := hplain
    exact ink_of_whole ':' [] rfl (by simp [plainHeading]) hgroups

theorem isHeading_of_isLabelHeading {line : Text}
    (hline : isLabelHeading T line) : isHeading T line := by
  have hmarked {pieces : List Piece}
      (hpieces : isMarkedHeading T pieces line = true) :
      (whole pieces line).isSome = true := by
    unfold isMarkedHeading at hpieces
    cases hwhole : whole pieces line <;> simp_all
  simp only [isLabelHeading, Bool.or_eq_true] at hline
  simp only [isHeading, Bool.or_eq_true]
  exact hline.imp_left fun hleft => hleft.imp (.imp_right hmarked) hmarked

/-- The spans hold what the scanner keeps.  It keeps what lies outside the
watch sections if every line with the marks but not the shape of a heading
would leave the section it stands in as it is, and only then. -/
theorem segments_hide_watch_only_iff (T : TextClasses) (body : Text) :
    let lines := brokenLines T body
    inkOf (segmentClaimsRaw T body) = inkOf (kept (scan T (isHeading T) false lines)) ∧
    (inked (scan T (isHeading T) false lines) = inked (scan T (isLabelHeading T) false lines) ↔
      ∀ entry ∈ scan T (isLabelHeading T) false lines,
        isHeading T entry.1 = true → isLabelHeading T entry.1 = false →
          opensWatch T entry.1 = entry.2) ∧
    ((∀ entry ∈ scan T (isLabelHeading T) false lines,
        isHeading T entry.1 = true → isLabelHeading T entry.1 = false →
          opensWatch T entry.1 = entry.2) →
      inkOf (segmentClaimsRaw T body) = inkOf (kept (scan T (isLabelHeading T) false lines))) := by
  intro lines
  have hiff := scan_eq_iff (T := T) (fun _ => @isHeading_of_isLabelHeading T _)
    (fun _ => @ink_of_isHeading T _) false lines
  refine ⟨inkOf_segmentClaimsRaw body, hiff, fun hlines => ?_⟩
  rw [inkOf_segmentClaimsRaw, inkOf_kept, hiff.mpr hlines, ← inkOf_kept]

def plain : TextClasses where
  isDigit := Char.isDigit
  isSpace := isSpace
  digitValue digit := digit.toNat - '0'.toNat
  same letter other := letter.toLower == other.toLower
  casefold letter := [letter.toLower]
  isWordLetter letter := letter.isAlphanum || letter == '_'
  lower := map Char.toLower

/-- A bold sentence, and what follows it, is left out. -/
theorem bold_sentence_hidden :
    isLabelHeading plain "**Watch is**".toList = false ∧
      segmentClaimsRaw plain "**Watch is**\nA".toList = [] := by
  decide +kernel

end Legba.ClaimSegmentation
