import Legba.RegexScan
import Legba.Words

/-!
# Citation markers and their variants

A unit cites by `[N]`, a composition by `[[ref:N]]`, a survey by a range
`[lo-hi]`.  Before a text is parsed ten substitutions rewrite the spellings
which a model writes instead: full-width brackets, lists in parentheses,
brackets with a dagger, and the annotations which say that nothing is cited.

The classes `\\d` and `\\s`, letters up to case and case folding depend on
Unicode and are parameters.  Where a pattern strips the blanks around a
number, the group is the number alone.
-/

namespace Legba.CitationMarkers

open RegexScan

structure CharClasses where
  isDigit : Char → Bool
  isSpace : Char → Bool
  digitValue : Char → ℕ
  /-- Whether a letter of a pattern matches, up to case. -/
  same : Char → Char → Bool
  casefold : Char → Text

def openBrackets : List Char := ['【', '［', '〔', '〖']

def closeBrackets : List Char := ['】', '］', '〕', '〗']

def isOpen (letter : Char) : Bool := openBrackets.contains letter

def isClose (letter : Char) : Bool := closeBrackets.contains letter

def isOneOf (letters : List Char) (letter : Char) : Bool :=
  letters.contains letter

def noCitationMarker : Text := "[no citation]".toList

def maxRangeWidth : ℕ := 500

def group (groups : List Text) (index : ℕ) : Text := groups.getD index []

def unitMarker (number : Text) : Text := '[' :: number ++ [']']

def refMarker (number : Text) : Text := "[[ref:".toList ++ number ++ "]]".toList

section

variable (U : CharClasses)

def strip (text : Text) : Text := Words.strip U.isSpace text

def numbers (least : ℕ) : Piece := fun text =>
  decide (least ≤ (text.splitOn ',').length) &&
    (text.splitOn ',').all fun number => several U.isDigit (strip U number)

def ref : Piece := word U.same "ref".toList

/-- `_CLAIM_MARKER_RE`. -/
def claimMarker : Pattern where
  pieces := [one (isOneOf ['[']), several U.isDigit, one (isOneOf [']'])]
  solid := solid_of_one

/-- `_CLAIM_RANGE_RE`. -/
def claimRange : Pattern where
  pieces := [one (isOneOf ['[']), several U.isDigit, many U.isSpace,
    one (isOneOf ['-', '–', '—']), many U.isSpace, several U.isDigit,
    one (isOneOf [']'])]
  solid := solid_of_one

/-- `_REF_MARKER_RE`. -/
def refPattern : Pattern where
  pieces := [one (isOneOf ['[']), one (isOneOf ['[']),
    word (fun letter other => letter == other) "ref:".toList,
    several U.isDigit, one (isOneOf [']']), one (isOneOf [']'])]
  solid := solid_of_one

/-- `_PRIOR_READ_REF_RE`. -/
def priorReadRef : Pattern where
  pieces := [one (isOneOf ['(', '[']), many U.isSpace,
    word U.same "prior".toList,
    many (fun letter => U.isSpace letter || isOneOf ['_', '-'] letter),
    word U.same "read".toList, many U.isSpace,
    anyOf [word U.same "reference".toList, ref U, word U.same []],
    many U.isSpace, one (fun letter => letter == ':' || U.isSpace letter),
    many U.isSpace, several U.isDigit, many U.isSpace,
    one (isOneOf [')', ']'])]
  solid := solid_of_one

/-- `_VARIANT_CITATION_RE`. -/
def variantCitation : Pattern where
  pieces := [one isOpen, many U.isSpace, several U.isDigit, many U.isSpace,
    one isClose]
  solid := solid_of_one

/-- `_PAREN_CITATION_LIST_RE`. -/
def parenCitationList : Pattern where
  pieces := [one (isOneOf ['(']), numbers U 2, one (isOneOf [')'])]
  solid := solid_of_one

/-- `_VARIANT_RANGE_CITATION_RE`. -/
def variantRangeCitation : Pattern where
  pieces := [one isOpen, many U.isSpace, several U.isDigit, many U.isSpace,
    one (isOneOf ['-', '–', '—', '‑']), many U.isSpace,
    several U.isDigit, many U.isSpace, one isClose]
  solid := solid_of_one

/-- `_VARIANT_DAGGER_CITATION_RE`. -/
def variantDaggerCitation : Pattern where
  pieces := [one isOpen, many U.isSpace, several U.isDigit, many U.isSpace,
    one (isOneOf ['†']), many (fun letter => !isClose letter), one isClose]
  solid := solid_of_one

/-- `_VARIANT_REF_CITATION_RE`. -/
def variantRefCitation : Pattern where
  pieces := [one isOpen, many U.isSpace, between 0 1 (isOneOf ['[']),
    many U.isSpace, ref U, one (isOneOf [':']), many U.isSpace,
    several U.isDigit, many U.isSpace, between 0 1 (isOneOf [']']),
    many U.isSpace, one isClose]
  solid := solid_of_one

/-- `_COMPOUND_REF_CITATION_RE`. -/
def compoundRefCitation : Pattern where
  pieces := [one (isOneOf ['[']), one (isOneOf ['[']), many U.isSpace, ref U,
    one (isOneOf [':']), numbers U 2, one (isOneOf [']']),
    one (isOneOf [']'])]
  solid := solid_of_one

/-- `_PAREN_REF_CITATION_RE`. -/
def parenRefCitation : Pattern where
  pieces := [one (isOneOf ['(']), many U.isSpace,
    between 0 2 (isOneOf ['[']), many U.isSpace, ref U,
    one (isOneOf [':']), numbers U 1, between 0 2 (isOneOf [']']),
    many U.isSpace, one (isOneOf [')'])]
  solid := solid_of_one

def variantAnnotationRe : Pattern where
  pieces := [one isOpen, between 1 40 (fun letter => !isClose letter),
    one isClose]
  solid := solid_of_one

/-- `_ASCII_NO_CITATION_VARIANT_RE`. -/
def asciiNoCitation : Pattern where
  pieces := [one (isOneOf ['[']), many U.isSpace, word U.same "no".toList,
    between 0 1 (fun letter => U.isSpace letter || isOneOf ['_', '-'] letter),
    word U.same "citation".toList, many U.isSpace, one (isOneOf [']'])]
  solid := solid_of_one

def unitMarkers (text : Text) : List Text :=
  ((claimMarker U).findAll text).map (group · 1)

def refMarkers (text : Text) : List Text :=
  ((refPattern U).findAll text).map (group · 3)

/-- `int` of a group of digits. -/
def toInt (digits : Text) : ℕ :=
  digits.foldl (fun value digit => 10 * value + U.digitValue digit) 0

def rangeMembers (groups : List Text) : List ℕ :=
  let low := toInt U (group groups 1)
  let high := toInt U (group groups 5)
  if low ≤ high ∧ high - low ≤ maxRangeWidth then
    List.range' low (high + 1 - low)
  else []

def rangeMarkers (text : Text) : List ℕ :=
  ((claimRange U).findAll text).flatMap (rangeMembers U)

def expandRefList (digits : Text) : Text :=
  (digits.splitOn ',').flatMap fun number => refMarker (strip U number)

def uncitableAnnotations : List Text :=
  ["none".toList, "no citation".toList, "not observed".toList,
    "assessed".toList, "assessment".toList, "assessed situation".toList,
    "assessed situations".toList, "assessed structure".toList,
    "system assessed".toList, "derived structure".toList,
    "authoritative current context".toList]

def isSeparator (letter : Char) : Bool :=
  letter == '_' || letter == '-' || U.isSpace letter

def canonicalAnnotationOf (token : Text) : Option Text :=
  let flat := (strip U (Words.collapse (isSeparator U) ' ' token)).flatMap U.casefold
  if uncitableAnnotations.contains flat then some noCitationMarker else none

def beforeDaggers (text : Text) : Text :=
  let text := (priorReadRef U).sub
    (fun groups => unitMarker (group groups 10)) text
  let text := (variantCitation U).sub
    (fun groups => unitMarker (group groups 2)) text
  let text := (parenCitationList U).sub
    (fun groups => ((group groups 1).splitOn ',').flatMap fun number =>
      unitMarker (strip U number)) text
  (variantRangeCitation U).sub
    (fun groups => unitMarker (group groups 2 ++ '-' :: group groups 6)) text

def withoutDaggers (text : Text) : Text :=
  (variantDaggerCitation U).sub (fun groups => unitMarker (group groups 2)) text

/-- The substitutions between the one for daggers and the one for references in
parentheses. -/
def beforeParenRefs (text : Text) : Text :=
  let text := (variantRefCitation U).sub
    (fun groups => refMarker (group groups 7)) text
  (compoundRefCitation U).sub
    (fun groups => expandRefList U (group groups 5)) text

def withoutParenRefs (text : Text) : Text :=
  (parenRefCitation U).sub (fun groups => expandRefList U (group groups 6)) text

def withoutAnnotations (text : Text) : Text :=
  variantAnnotationRe.sub
    (fun groups => (canonicalAnnotationOf U (group groups 1)).getD groups.flatten) text

def withNoCitation (text : Text) : Text :=
  (asciiNoCitation U).sub (fun _ => noCitationMarker) text

def normalizeVerifyMarkers (text : Text) : Text :=
  if text = [] then text
  else
    withNoCitation U (withoutAnnotations U (withoutParenRefs U
      (beforeParenRefs U (withoutDaggers U (beforeDaggers U text)))))

end

end Legba.CitationMarkers
