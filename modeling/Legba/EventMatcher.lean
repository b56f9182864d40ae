import Legba.ContentionGroup
import Legba.CrossSourceCoalesce

/-!
# The event matcher

Two observations are linked by the weighted score of four features, by the
cosine of their embeddings or by the facts they share.  A pair in which two
surfaces differ by a compass word only is refused: only the surfaces which bear
such a word are walked.

An instant is its microseconds in UTC, and scores are exact.
-/

namespace Legba.EventMatcher

open JudgeReplies (Text isSpace strip)

/-- `str.lower`, and the fold and the junk list of entity names. -/
structure Canon where
  lower : Text → Text
  identityFold : Text → Text
  isJunkEntity : Text → Bool

structure EventEvidence where
  id : Uuid
  title : Text := []
  category : Text := []
  tags : List Text := []
  fetchedAt : Option ℤ := none
  entityNames : List Text := []
  embeddingRef : Text := []
  factSubjects : Finset Text := ∅
  deriving DecidableEq

def directionalTokens : List Text := [
  "north", "south", "east", "west",
  "northern", "southern", "eastern", "western",
  "northeast", "northwest", "southeast", "southwest",
  "north-east", "north-west", "south-east", "south-west",
  "northeastern", "northwestern", "southeastern", "southwestern",
  "upper", "lower", "central", "mid", "middle", "inner", "outer",
  "nord", "sud", "est", "ouest", "ost", "sued", "süd",
  "norte", "sur", "oeste", "gharb", "sharq"].map String.toList

def isDirectional (token : Text) : Bool := directionalTokens.contains token

def orgTokenStrip : Text := " \t\"'`.,;:!?()[]\x7b\x7d".toList

def stemStrip : Text := ".,;:!?()[]\x7b\x7d\"'".toList

/-- With equally many tokens these are compared in place, otherwise the sorted
direction tokens are. -/
def differsByDirectionTokens (ta tb : List Text) : Bool :=
  if ta.length = tb.length then
    (ta.zip tb).any fun pair => pair.1 != pair.2 && (isDirectional pair.1 || isDirectional pair.2)
  else !(ta.filter isDirectional).isPerm (tb.filter isDirectional)

/-- `sorted` of a set, by code points. -/
def sortedSet (texts : List Text) : List Text :=
  texts.dedup.insertionSort fun a b => a ≤ b

def round6 (x : ℚ) : ℚ := Contention.roundTo 6 x / 1000000

structure NameProbe where
  name : Text
  tokens : List Text
  stem : List Text
  hasDirection : Bool
  deriving DecidableEq

structure Prepared where
  row : EventEvidence
  folds : Finset Text
  terms : Finset Text
  title : Text
  instant : Option ℤ
  subjects : Finset Text
  embedOk : Bool
  hasDirection : Bool
  nameProbes : List NameProbe
  directionNames : List NameProbe
  deriving DecidableEq

/-! ## The features of a row -/

section

variable (canon : Canon)

def directionProbeTokens (name : Text) : List Text :=
  ((Words.words isSpace (Words.collapse isSpace ' '
    (canon.lower (strip name)))).map (Words.strip orgTokenStrip.contains)).filter (· ≠ [])

def differsByDirection (a b : Text) : Bool :=
  differsByDirectionTokens (directionProbeTokens canon a) (directionProbeTokens canon b)

def nonDirectionStem (name : Text) : List Text :=
  ((Words.words isSpace name).map fun token =>
    canon.lower (Words.strip stemStrip.contains token)).filter fun token =>
      token ≠ [] && !isDirectional token

def probeName (name : Text) : NameProbe :=
  let tokens := directionProbeTokens canon name
  { name := name
    tokens := tokens
    stem := nonDirectionStem canon name
    hasDirection := tokens.any isDirectional }

def probeNames (names : List Text) : List NameProbe :=
  (names.filter fun name => strip name ≠ []).map (probeName canon)

def entityFolds (names : List Text) : Finset Text :=
  (((names.filter fun name =>
    strip name ≠ [] && !canon.isJunkEntity name).map canon.identityFold).filter (· ≠ [])).toFinset

def lowerList (values : List Text) : List Text :=
  sortedSet ((values.filter fun value => strip value ≠ []).map fun value =>
    canon.lower (strip value))

def EventEvidence.categoryTerms (row : EventEvidence) : List Text :=
  if row.category = [] then lowerList canon row.tags
  else (canon.lower row.category :: lowerList canon row.tags).dedup

def normalizedTitle (title : Text) : Text :=
  canon.lower (strip (Words.collapse isSpace ' '
    (CrossSourceCoalesce.htmlTag.sub (fun _ => [' ']) title)))

def uuidShaped (text : Text) : Bool :=
  text.length == 36 && text.zipIdx.all fun entry =>
    if [8, 13, 18, 23].contains entry.2 then entry.1 == '-'
    else entry.1.isDigit || "abcdef".toList.contains entry.1

/-- Where the pattern ends, one more line feed may. -/
def validEmbeddingRef (value : Text) : Bool :=
  let ref := canon.lower value
  uuidShaped ref || ref.getLast? == some '\n' && uuidShaped ref.dropLast

def prepare (row : EventEvidence) : Prepared :=
  let probes := probeNames canon row.entityNames
  let directionNames := probes.filter (·.hasDirection)
  { row := row
    folds := entityFolds canon row.entityNames
    terms := (row.categoryTerms canon).toFinset
    title := normalizedTitle canon row.title
    instant := row.fetchedAt
    subjects := row.factSubjects
    embedOk := validEmbeddingRef canon row.embeddingRef
    hasDirection := !directionNames.isEmpty
    nameProbes := probes
    directionNames := directionNames }

end

/-! ## The score of a pair -/

def opposedPair (a b : NameProbe) : Bool :=
  differsByDirectionTokens a.tokens b.tokens && a.stem != [] && a.stem == b.stem

def opposedCompassStem (left right : Prepared) : Bool :=
  (left.directionNames.any fun a => right.nameProbes.any (opposedPair a)) ||
    left.nameProbes.any fun a => right.directionNames.any (opposedPair a)

def entityOverlap (a b : Finset Text) : ℚ :=
  if a = ∅ ∨ b = ∅ then 0 else ((a ∩ b).card : ℚ) / (a ∪ b).card

def titleSimilarity (a b : Text) : ℚ :=
  if a = [] ∨ b = [] then 0
  else max 0 (1 - NearDuplicate.normalizedLevenshtein a b)

/-- `TEMPORAL_WINDOW_SECONDS`, in microseconds. -/
def temporalWindow : ℕ := 86400000000

def temporalProximity (a b : Option ℤ) : ℚ :=
  match a, b with
  | some a, some b =>
    let gap := (a - b).natAbs
    if temporalWindow ≤ gap then 0 else 1 - (gap : ℚ) / temporalWindow
  | _, _ => 0

def categoryMatch (a b : Finset Text) : ℚ := if a ∩ b = ∅ then 0 else 1

def weightEntity : ℚ := 3 / 10
def weightTitle : ℚ := 3 / 10
def weightTemporal : ℚ := 2 / 10
def weightCategory : ℚ := 2 / 10

structure Options where
  threshold : ℚ := 1 / 2
  embeddingCosine : Option ℚ := none
  embeddingThreshold : ℚ := 97 / 100
  sharedFactThreshold : ℤ := 1

structure EventMatch where
  score : ℚ
  linked : Bool
  entityOverlap : ℚ
  titleSimilarity : ℚ
  temporalProximity : ℚ
  categoryMatch : ℚ
  embeddingCosine : Option ℚ
  sharedFactSubjects : ℕ
  viaEmbedding : Bool
  viaSharedFacts : Bool
  refusedByDirection : Bool
  deriving DecidableEq

/-- The embedding gate in front of the refusal. -/
def embeddingGate (options : Options) (left right : Prepared) : Bool :=
  options.embeddingCosine.any (options.embeddingThreshold ≤ ·) && left.embedOk && right.embedOk

def factGate (options : Options) (left right : Prepared) : Bool :=
  max 1 options.sharedFactThreshold ≤ (left.subjects ∩ right.subjects).card

def scorePrepared (options : Options) (left right : Prepared) : EventMatch :=
  let refused := (left.hasDirection || right.hasDirection) && opposedCompassStem left right
  let entity := if refused then 0 else entityOverlap left.folds right.folds
  let title := titleSimilarity left.title right.title
  let temporal := temporalProximity left.instant right.instant
  let category := categoryMatch left.terms right.terms
  let base := weightEntity * entity + weightTitle * title +
    weightTemporal * temporal + weightCategory * category
  let viaEmbedding := embeddingGate options left right && !refused
  let viaFacts := factGate options left right && !refused
  { score := round6 base
    linked := (options.threshold ≤ base || viaEmbedding || viaFacts) && !refused
    entityOverlap := round6 entity
    titleSimilarity := round6 title
    temporalProximity := round6 temporal
    categoryMatch := round6 category
    embeddingCosine := options.embeddingCosine
    sharedFactSubjects := (left.subjects ∩ right.subjects).card
    viaEmbedding := viaEmbedding
    viaSharedFacts := viaFacts
    refusedByDirection := refused }

def scorePair (canon : Canon) (options : Options) (left right : EventEvidence) :
    EventMatch :=
  scorePrepared options (prepare canon left) (prepare canon right)

end Legba.EventMatcher
