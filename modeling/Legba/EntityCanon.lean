import Legba.SignalRow
import Mathlib.Data.List.Nodup
import Mathlib.Data.String.Basic

/-!
# Names, classes and mentions of entities

What the resolver does to a span of the NER model before it looks at the
database: canonicalization, the class of the name, and the class-agnostic
identity fold by which the mentions of one signal are put together.
-/

namespace Legba.EntityResolution

/-- The text functions of the canon and of the database, and the gazetteers. -/
structure Canon where
  strip : String → String
  btrim : String → String
  lower : String → String
  collapseSpaces : String → String
  dropArticle : String → String
  stripLeadingArticle : String → String
  stripResidue : String → String
  dropZeroWidth : String → String
  dropNonAlnum : String → String
  canonicalizeEntity : String → String → String × String
  isJunkEntity : String → Bool
  isOrgSurface : String → Bool
  soundsLike : String → String → Bool
  differsByDirection : String → String → Bool
  aliasMarker : String → Uuid

def defaultClass : String := "entity"

def identityFold (canon : Canon) (name : String) : String :=
  let deResidue := canon.stripResidue name
  let canonical := (canon.canonicalizeEntity deResidue defaultClass).1
  let named := if canonical = "" then deResidue else canonical
  let bare := canon.stripLeadingArticle (canon.strip named)
  canon.dropNonAlnum (canon.dropZeroWidth (canon.lower bare))

def lookupKey (canon : Canon) (name : String) : String :=
  let spaced := canon.lower (canon.strip (canon.collapseSpaces name))
  let bare := canon.strip (canon.dropArticle spaced)
  canon.strip (canon.collapseSpaces bare)

def storedKey (canon : Canon) (name : String) : String :=
  canon.collapseSpaces (canon.dropArticle (canon.lower (canon.btrim name)))

/-- `_CLASS_RANK` and `_CLASS_PRIORITY_SQL` -/
def classPriority : String → ℕ
  | "country" => 0
  | "organization" => 1
  | "corporation" => 1
  | "location" => 2
  | "person" => 3
  | "entity" => 4
  | _ => 5

def orDefault (cls : String) : String :=
  if cls = "" then defaultClass else cls

def classRank (cls : String) : ℕ := classPriority (orDefault cls)

def isCountryLocation (stored cls : String) : Bool :=
  stored = "country" && cls = "location" || stored = "location" && cls = "country"

def fallbackClassCompatible (stored cls : String) : Bool :=
  stored = cls || stored = "organization" && cls = "corporation" ||
    stored = "corporation" && cls = "organization"

/-- `_ARTICLE_PREFIX_RE` matches. -/
def hasArticlePrefix (canon : Canon) (name : String) : Bool :=
  canon.dropArticle name ≠ name

def resolveEntityClass (canon : Canon) (name canonicalClass : String) :
    String :=
  let cls := orDefault (canon.strip (orDefault canonicalClass))
  let first := if classPriority cls < 5 then cls else defaultClass
  let winner :=
    if canon.isOrgSurface name && classPriority "organization" <
        classPriority first then "organization"
    else first
  if winner = "person" && hasArticlePrefix canon name then defaultClass
  else winner

theorem classRank_eq_of_compatible {stored cls : String}
    (hcompatible : fallbackClassCompatible stored cls) : classRank stored = classRank cls := by
  unfold fallbackClassCompatible at hcompatible
  simp only [Bool.or_eq_true, Bool.and_eq_true, decide_eq_true_eq] at hcompatible
  rcases hcompatible with (heq | ⟨hstored, hcls⟩) | ⟨hstored, hcls⟩
  · rw [heq]
  · rw [hstored, hcls]
    rfl
  · rw [hstored, hcls]
    rfl

structure Span where
  text : String
  cls : String
  deriving DecidableEq, Repr

/-- The mentions of one identity in a signal, and the surface forms which the
canon changed. -/
structure Mention where
  fold : String
  text : String
  cls : String
  aliases : List String
  deriving DecidableEq, Repr

def minNameLen : ℕ := 2

def Mention.absorb (old new : Mention) : Mention :=
  let best :=
    if classRank new.cls < classRank old.cls then
      { old with text := new.text, cls := new.cls }
    else old
  { best with aliases := (old.aliases ++ new.aliases).dedup }

def note (seen : List Mention) (mention : Mention) : List Mention :=
  if mention.fold ∈ seen.map Mention.fold then
    seen.map fun old =>
      if old.fold = mention.fold then old.absorb mention else old
  else seen ++ [mention]

def readSpan (canon : Canon) (span : Span) : Option Mention :=
  let rawText := canon.strip span.text
  let rawClass := orDefault (canon.strip (orDefault span.cls))
  let canonical := canon.canonicalizeEntity rawText rawClass
  let text := canonical.1
  if text.length < minNameLen || canon.isJunkEntity text then none
  else
    let cls := resolveEntityClass canon text canonical.2
    let fold := identityFold canon text
    if fold = "" then none
    else
      let aliases := if rawText ≠ text ∨ rawClass ≠ cls then [rawText] else []
      some ⟨fold, text, cls, aliases⟩

def mentionsOf (canon : Canon) (spans : List Span) : List Mention :=
  (spans.filterMap (readSpan canon)).foldl note []

@[simp] theorem Mention.fold_absorb (old new : Mention) : (old.absorb new).fold = old.fold := by
  unfold Mention.absorb
  dsimp only
  split
  · rfl
  · rfl

theorem nodup_folds_note {seen : List Mention} (hseen : (seen.map Mention.fold).Nodup)
    (mention : Mention) : ((note seen mention).map Mention.fold).Nodup := by
  unfold note
  by_cases hfold : mention.fold ∈ seen.map Mention.fold
  · rw [if_pos hfold, List.map_map]
    have hsame : Mention.fold ∘ (fun old : Mention =>
        if old.fold = mention.fold then old.absorb mention else old) =
        Mention.fold := by
      funext old
      by_cases hold : old.fold = mention.fold
      · simp [hold]
      · simp [hold]
    rw [hsame]
    exact hseen
  · rw [if_neg hfold, List.map_append]
    apply List.Nodup.append hseen (List.nodup_singleton mention.fold)
    simpa using hfold

theorem nodup_folds_mentionsOf (canon : Canon) (spans : List Span) :
    ((mentionsOf canon spans).map Mention.fold).Nodup := by
  unfold mentionsOf
  have hfold : ∀ (mentions seen : List Mention),
      (seen.map Mention.fold).Nodup →
      ((mentions.foldl note seen).map Mention.fold).Nodup := by
    intro mentions
    induction mentions with
    | nil => exact fun _ hseen => hseen
    | cons mention rest ih =>
      intro seen hseen
      exact ih _ (nodup_folds_note hseen mention)
  exact hfold _ [] List.nodup_nil

end Legba.EntityResolution
