import Legba.FindingSignature
import Legba.JudgeReplies

/-!
# A signature and its dimension

A derived signature is its topic and, behind a marker, the token of the
producing analyst.  Both are read back by cutting at the last marker.  A topic
is free text: where it holds a marker of its own, no dimension is added, and
what is read back is a part of the topic.

The migration computes the token once more in SQL.
-/

namespace Legba.Findings

open JudgeReplies (isSpace)
open List

/-- `_SIGNATURE_EVENT_MARKER` -/
def eventMarker : String := "#evt:"

/-- `text.rsplit(marker, 1)`, where the marker occurs. -/
def splitLast (marker : List Char) : List Char → Option (List Char × List Char)
  | [] => none
  | letter :: rest =>
    match splitLast marker rest with
    | some (front, tail) => some (letter :: front, tail)
    | none =>
      if marker.isPrefixOf (letter :: rest) then
        some ([], (letter :: rest).drop marker.length)
      else none

/-- `text.split(marker, 1)[0]` -/
def beforeFirst (marker : List Char) : List Char → List Char
  | [] => []
  | letter :: rest =>
    if marker.isPrefixOf (letter :: rest) then []
    else letter :: beforeFirst marker rest

def lastDimension (signature : String) : Option (List Char × List Char) :=
  if startsWith signature "sig:" then
    splitLast dimensionMarker.toList signature.toList
  else none

def signatureDimension (signature : String) : Option String :=
  ((lastDimension signature).map fun parts =>
    String.ofList (beforeFirst eventMarker.toList parts.2)).filter (· ≠ "")

def stripDimension (signature : String) : String :=
  match lastDimension signature with
  | some parts => String.ofList parts.1
  | none => signature

/-- The letters of `E' \t\n\r\f\v'`; what the database reads for `\v` is a
vertical tab or the letter itself. -/
def sqlBlanks (vertical : Char) : List Char :=
  [' ', '\t', '\n', '\r', '\x0c', vertical]

def sqlTrim (vertical : Char) (text : String) : String :=
  String.ofList (Words.strip (sqlBlanks vertical).contains text.toList)

def sqlToken (vertical : Char) (sqlLower : String → String) (analystId : Option String) : String :=
  let token := sqlTrim vertical (analystId.getD "")
  if token = "" then unattributedDimension
  else String.ofList (((sqlLower token).toList.map fun c =>
    if c = '#' ∨ c = '|' then '_' else c).take dimensionMaxChars)

section

variable {marker text front tail : List Char}

theorem splitLast_of_notMem (hmark : '#' ∉ text) : splitLast ('#' :: marker) text = none := by
  induction text with
  | nil => rfl
  | cons letter rest ih =>
    rw [mem_cons, not_or] at hmark
    rw [splitLast, ih hmark.2]
    simp [hmark.1]

theorem splitLast_append (hmarker : '#' ∉ marker) (htail : '#' ∉ tail) (front : List Char) :
    splitLast ('#' :: marker) (front ++ ('#' :: marker ++ tail)) = some (front, tail) := by
  induction front with
  | nil =>
    have hnone : splitLast ('#' :: marker) (marker ++ tail) = none :=
      splitLast_of_notMem (by simp [hmarker, htail])
    rw [nil_append, cons_append, splitLast, hnone]
    simp
  | cons letter rest ih => rw [cons_append, splitLast, ih]

theorem splitLast_spec (hsplit : splitLast marker text = some (front, tail)) :
    text = front ++ marker ++ tail := by
  induction text generalizing front with
  | nil => cases hsplit
  | cons letter rest ih =>
    rw [splitLast] at hsplit
    split at hsplit
    · rename_i before after hrest
      cases hsplit
      rw [ih hrest]
      rfl
    · split at hsplit
      · rename_i hmarker
        cases hsplit
        obtain ⟨after, hafter⟩ := isPrefixOf_iff_prefix.mp hmarker
        rw [← hafter, drop_left, nil_append]
      · cases hsplit

theorem not_infix_of_splitLast (hmarker : marker ≠ [])
    (hsplit : splitLast marker text = none) : ¬ marker <:+: text := by
  induction text with
  | nil => exact fun hinfix => hmarker (eq_nil_of_infix_nil hinfix)
  | cons letter rest ih =>
    rw [splitLast] at hsplit
    split at hsplit
    · cases hsplit
    · rename_i hrest
      split at hsplit
      · cases hsplit
      · rename_i hprefix
        intro hinfix
        rcases infix_cons_iff.mp hinfix with hfirst | hlater
        · exact hprefix ( isPrefixOf_iff_prefix.mpr hfirst)
        · exact ih hrest hlater

theorem beforeFirst_of_notMem (hmark : '#' ∉ text) : beforeFirst ('#' :: marker) text = text := by
  induction text with
  | nil => rfl
  | cons letter rest ih =>
    rw [mem_cons, not_or] at hmark
    rw [beforeFirst, ih hmark.2]
    simp [hmark.1]

end

/-! ## Derived signatures -/

section

variable {text : PythonText}

theorem notMem_dimensionToken (analystId : Option String) :
    '#' ∉ (dimensionToken text analystId).toList := by
  unfold dimensionToken
  simp only
  split
  · decide
  · rw [String.toList_ofList]
    intro hmem
    obtain ⟨letter, -, hletter⟩ := mem_map.mp (mem_of_mem_take hmem)
    split at hletter
    · cases hletter
    · split at hletter
      · cases hletter
      · contradiction

theorem dimensionToken_ne_empty (analystId : Option String) :
    dimensionToken text analystId ≠ "" := by
  unfold dimensionToken
  simp only
  split
  · decide
  · rename_i hne
    intro hempty
    have hnil := congrArg String.toList hempty
    rw [String.toList_ofList] at hnil
    rcases take_eq_nil_iff.mp hnil with hzero | hnil
    · cases hzero
    · exact hne hnil

theorem startsWith_sig (topic : String) : startsWith ("sig:" ++ topic) "sig:" := by
  rw [startsWith, String.toList_append]
  exact isPrefixOf_iff_prefix.mpr (prefix_append _ _)

theorem lastDimension_derived {signature : String} (hsig : startsWith signature "sig:")
    (hnone : includes signature dimensionMarker = false) (analystId : Option String) :
    lastDimension (withDimension text signature analystId) =
      some (signature.toList, (dimensionToken text analystId).toList) := by
  have hlong : withDimension text signature analystId =
      signature ++ dimensionMarker ++ dimensionToken text analystId := by
    rw [withDimension, hsig, hnone]
    rfl
  have hstarts : startsWith (withDimension text signature analystId) "sig:" =
      true := by
    rw [hlong, startsWith, String.toList_append, String.toList_append]
    obtain ⟨rest, hrest⟩ := isPrefixOf_iff_prefix.mp hsig
    rw [← hrest, append_assoc, append_assoc]
    exact isPrefixOf_iff_prefix.mpr (prefix_append _ _)
  rw [lastDimension, if_pos hstarts, hlong, String.toList_append,
    String.toList_append, append_assoc]
  exact splitLast_append (by decide) (notMem_dimensionToken analystId) _

theorem infix_append_iff {front rest marker : List Char} (hfront : '#' ∉ front) :
    '#' :: marker <:+: front ++ rest ↔ '#' :: marker <:+: rest := by
  induction front with
  | nil => rfl
  | cons letter front ih =>
    rw [mem_cons, not_or] at hfront
    rw [cons_append, infix_cons_iff, ih hfront.2]
    refine or_iff_right fun hprefix => hfront.1 ?_
    exact (cons_prefix_cons.mp hprefix).1

theorem includes_sig (topic : String) :
    includes ("sig:" ++ topic) dimensionMarker = includes topic dimensionMarker := by
  unfold includes
  rw [String.toList_append, decide_eq_decide]
  exact infix_append_iff (by decide)

variable (text) in
def derivedTopic (data : List (String × JsonValue.Json))
    (fallback : Option String) : Option String :=
  ((entityTokens text data).bind List.head?).map fun first =>
    if topic text data fallback = "" then first
    else topic text data fallback

variable (text) in
def derivedKey (topic : String) (analystId : Option String) : String :=
  withDimension text ("sig:" ++ topic) analystId

theorem deriveSignature_eq {data : List (String × JsonValue.Json)}
    (hexplicit : (explicitSignature text data).filter (· ≠ "") = none)
    (fallback analystId : Option String) :
    (deriveSignature text data fallback analystId).join =
      (derivedTopic text data fallback).map fun topic =>
        derivedKey text topic analystId := by
  rw [deriveSignature, hexplicit, derivedTopic]
  cases entityTokens text data with
  | none => rfl
  | some tokens => cases tokens <;> rfl

/-- The ends of an id are blanks for both sides, and neither side trims, or
lower-cases, the rest differently. -/
structure SharedId (text : PythonText) (vertical : Char)
    (sqlLower : String → String) (id : String) (core : List Char) : Prop where
  around : ∃ before after, id.toList = before ++ (core ++ after) ∧
    ∀ letter ∈ before ++ after, isSpace letter = true ∧ (sqlBlanks vertical).contains letter = true
  solid : Words.Trimmed isSpace core
  kept : Words.Trimmed (sqlBlanks vertical).contains core
  lower : text.lower (String.ofList core) = sqlLower (String.ofList core)

structure RoundTrips (text : PythonText) (vertical : Char)
    (sqlLower : String → String) (topic : String)
    (analystId : Option String) : Prop where
  stripped : stripDimension (derivedKey text topic analystId) = "sig:" ++ topic
  dimension : signatureDimension (derivedKey text topic analystId) =
    some (dimensionToken text analystId)
  apart : ∀ other,
    dimensionToken text other ≠ dimensionToken text analystId →
    derivedKey text topic other ≠ derivedKey text topic analystId
  again : withDimension text (derivedKey text topic analystId) analystId =
    derivedKey text topic analystId
  twin : ∀ core, SharedId text vertical sqlLower (analystId.getD "") core →
    dimensionToken text analystId = sqlToken vertical sqlLower analystId

section

variable (hstrip : ∀ value, text.strip value = String.ofList (JudgeReplies.strip value.toList))

include hstrip

section

variable {sqlLower : String → String} (hlower : ∀ value, sqlLower value = "" ↔ value = "")

include hlower

theorem dimensionToken_eq_sqlToken {vertical : Char} {analystId : Option String} {core : List Char}
    (hid : SharedId text vertical sqlLower (analystId.getD "") core) :
    dimensionToken text analystId = sqlToken vertical sqlLower analystId := by
  obtain ⟨before, after, hsplit, hblank⟩ := hid.around
  rw [forall_mem_append] at hblank
  have hpython : text.strip (analystId.getD "") = String.ofList core := by
    rw [hstrip, hsplit]
    exact congrArg String.ofList (Words.strip_around (fun letter h => (hblank.1
      letter h).1) (fun letter h => (hblank.2 letter h).1) hid.solid)
  have hsql : sqlTrim vertical (analystId.getD "") = String.ofList core := by
    rw [sqlTrim, hsplit]
    exact congrArg String.ofList (Words.strip_around (fun letter h => (hblank.1
      letter h).2) (fun letter h => (hblank.2 letter h).2) hid.kept)
  unfold dimensionToken sqlToken
  simp only [hpython, hsql, hid.lower]
  by_cases hempty : String.ofList core = ""
  · rw [if_pos hempty, (hlower _).mpr hempty]
    rfl
  · have hsome : (sqlLower (String.ofList core)).toList ≠ [] := by
      intro hnil
      exact hempty ((hlower _).mp (String.toList_eq_nil_iff.mp hnil))
    rw [if_neg hempty, if_neg (by simpa using hsome)]
    congr 3
    funext letter
    by_cases hhash : letter = '#' <;> by_cases hbar : letter = '|' <;> simp [hhash, hbar]

theorem roundTrips_iff (vertical : Char) (topic : String) (analystId : Option String) :
    RoundTrips text vertical sqlLower topic analystId ↔ includes topic dimensionMarker = false := by
  rw [← includes_sig]
  constructor
  · intro htrips
    by_contra hmarked
    rw [Bool.not_eq_false] at hmarked
    have hkey : derivedKey text topic analystId = "sig:" ++ topic := by
      rw [derivedKey, withDimension, hmarked, Bool.or_true]
      rfl
    have hstripped := htrips.stripped
    rw [hkey, stripDimension, lastDimension, if_pos (startsWith_sig topic)] at hstripped
    cases hsplit : splitLast dimensionMarker.toList ("sig:" ++ topic).toList with
    | none => exact not_infix_of_splitLast (by decide) hsplit (of_decide_eq_true hmarked)
    | some parts =>
      rw [hsplit] at hstripped
      have hlength := congrArg length (splitLast_spec hsplit)
      have hsame := congrArg (fun value => value.toList.length) hstripped
      simp only [String.toList_ofList, length_append] at hlength hsame
      have hmarker : dimensionMarker.toList.length = 5 := by decide
      omega
  · intro hplain
    have hlast : ∀ id, lastDimension (derivedKey text topic id) = some
        (("sig:" ++ topic).toList, (dimensionToken text id).toList) :=
      lastDimension_derived (startsWith_sig topic) hplain
    have hdimension : ∀ other, signatureDimension
        (derivedKey text topic other) = some (dimensionToken text other) := by
      intro other
      have hcut : beforeFirst eventMarker.toList
          (dimensionToken text other).toList =
          (dimensionToken text other).toList :=
        beforeFirst_of_notMem (notMem_dimensionToken other)
      rw [signatureDimension, hlast other, Option.map_some, hcut, String.ofList_toList]
      simp [Option.filter, dimensionToken_ne_empty]
    refine ⟨?_, hdimension analystId, ?_, withDimension_withDimension _ _,
      fun core hid => dimensionToken_eq_sqlToken hstrip hlower hid⟩
    · rw [stripDimension, hlast analystId]
      exact String.ofList_toList
    · intro other hother hshared
      have hsame := (hdimension other).symm.trans
        ((congrArg signatureDimension hshared).trans (hdimension analystId))
      exact hother (Option.some.inj hsame)

end

end

theorem derived_signature_round_trips_iff
    (hstrip : ∀ value, text.strip value = String.ofList (JudgeReplies.strip value.toList))
    {sqlLower : String → String} (hlower : ∀ value, sqlLower value = "" ↔ value = "")
    (vertical : Char) (analystId : Option String) :
    (∀ data fallback,
      (explicitSignature text data).filter (· ≠ "") = none →
      (deriveSignature text data fallback analystId).join =
        (derivedTopic text data fallback).map fun topic => derivedKey text topic analystId) ∧
    ∀ topic, RoundTrips text vertical sqlLower topic analystId ↔
      includes topic dimensionMarker = false :=
  ⟨fun _ fallback hexplicit => deriveSignature_eq hexplicit fallback analystId,
    fun topic => roundTrips_iff hstrip hlower vertical topic analystId⟩

end

def asciiText : PythonText where
  str := fun _ => ""
  strip := fun value => String.ofList (JudgeReplies.strip value.toList)
  lower := fun value => String.ofList (value.toList.map Char.toLower)

theorem derived_signature_round_trips_iff_energy :
    RoundTrips asciiText '\x0b' asciiText.lower "iran" (some "energy") ↔
      includes "iran" dimensionMarker = false :=
  (derived_signature_round_trips_iff (fun _ => rfl) (by
    intro value
    simp [asciiText]) '\x0b' (some "energy")).2 "iran"

/-- A topic with a marker keeps producers in one frame and loses its tail; an
id which starts with the letter the database reads for `\v` loses it. -/
theorem marked_topic_loses_dimension :
    derivedKey asciiText "a#dim:b" (some "x") = derivedKey asciiText "a#dim:b" (some "y") ∧
    stripDimension (derivedKey asciiText "a#dim:b" (some "x")) = "sig:a" ∧
    signatureDimension (derivedKey asciiText "a#dim:b" (some "x")) = some "b" ∧
    dimensionToken asciiText (some "vote") = "vote" ∧
    sqlToken 'v' asciiText.lower (some "vote") = "ote" := by
  decide +kernel

end Legba.Findings
