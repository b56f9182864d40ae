import Legba.SignatureDimensions

/-!
# The bridge between events and situations

An event and a derived situation are linked when the topics read back from
their signatures agree.  Either signature is cut at the first separator of its
grammar, so that stems of the topics are compared.
-/

namespace Legba.Findings

open List

/-! ## Stems -/

section

variable {markers : List (List Char)} {stem text : List Char}

/-- What is in front of the first marker. -/
def cutAt (markers : List (List Char)) : List Char → List Char
  | [] => []
  | letter :: rest =>
    if markers.any (·.isPrefixOf (letter :: rest)) then []
    else letter :: cutAt markers rest

/-- The stem holds no marker, and ends with the text or in front of one. -/
def Stem (markers : List (List Char)) (stem text : List Char) : Prop :=
  (∀ marker ∈ markers, ¬marker <:+: stem) ∧
    (text = stem ∨ ∃ marker ∈ markers, stem ++ marker <+: text)

/-- No marker begins inside another one. -/
def Plain (markers : List (List Char)) : Prop :=
  ∀ marker ∈ markers, marker ≠ [] ∧ ∀ other ∈ markers, ∀ first,
    other.head? = some first → first ∉ marker.tail

theorem Stem.eq_nil_of_prefix (hplain : Plain markers) {marker : List Char}
    (hmarker : marker ∈ markers) (hstarts : marker <+: text)
    (hstem : Stem markers stem text) : stem = [] := by
  obtain ⟨hclean, rfl | ⟨other, hother, hend⟩⟩ := hstem
  · exact absurd hstarts.isInfix (hclean marker hmarker)
  · cases stem with
    | nil => rfl
    | cons letter stem =>
      obtain ⟨first, tail, rfl⟩ := exists_cons_of_ne_nil (hplain other hother).1
      rcases prefix_or_prefix_of_prefix hstarts
        ((prefix_append _ (first :: tail)).trans hend) with hin | hout
      · exact absurd hin.isInfix (hclean marker hmarker)
      · obtain ⟨within, rfl⟩ := hout
        cases within with
        | nil => exact absurd (by simp) (hclean _ hmarker)
        | cons next within =>
          obtain ⟨before, hbefore⟩ := hstarts
          obtain ⟨after, hafter⟩ := hend
          have hboth : stem ++ next :: (within ++ before) = stem ++ first :: (tail ++ after) := by
            simpa using hbefore.trans hafter.symm
          have hnext : next = first := (cons.inj (append_cancel_left hboth)).1
          refine absurd ?_ ((hplain _ hmarker).2 _ hother first rfl)
          simp [hnext]

theorem Stem.isPrefix_text (hstem : Stem markers stem text) : stem <+: text := by
  rcases hstem.2 with rfl | ⟨marker, -, hend⟩
  · exact prefix_rfl
  · exact (prefix_append _ _).trans hend

theorem cutAt_eq_iff (hplain : Plain markers) :
    cutAt markers text = stem ↔ Stem markers stem text := by
  induction text generalizing stem with
  | nil =>
    constructor
    · rintro rfl
      exact ⟨fun marker hmarker hinfix => (hplain marker hmarker).1
        (eq_nil_of_infix_nil hinfix), .inl rfl⟩
    · rintro ⟨-, hnil | ⟨marker, hmarker, hstarts⟩⟩
      · exact hnil
      · exact absurd (append_eq_nil_iff.mp (prefix_nil.mp hstarts)).2 (hplain marker hmarker).1
  | cons letter rest ih =>
    rw [cutAt]
    by_cases hcut : markers.any (·.isPrefixOf (letter :: rest)) = true
    · obtain ⟨marker, hmarker, hstarts⟩ := any_eq_true.mp hcut
      rw [ isPrefixOf_iff_prefix] at hstarts
      rw [if_pos hcut]
      constructor
      · rintro rfl
        exact ⟨fun other hother hinfix => (hplain other hother).1
          (eq_nil_of_infix_nil hinfix), .inr ⟨marker, hmarker, hstarts⟩⟩
      · intro hstem
        exact (hstem.eq_nil_of_prefix hplain hmarker hstarts).symm
    · rw [if_neg hcut]
      have hnone : ∀ marker ∈ markers, ¬marker <+: letter :: rest := by simpa using hcut
      cases stem with
      | nil =>
        refine iff_of_false (cons_ne_nil _ _) ?_
        rintro ⟨-, hnil | ⟨marker, hmarker, hstarts⟩⟩
        · cases hnil
        · exact hnone marker hmarker hstarts
      | cons first stem =>
        rw [cons.injEq, ih]
        constructor
        · rintro ⟨rfl, hstem⟩
          refine ⟨fun marker hmarker hinfix => ?_, hstem.2.imp
            (congrArg _) fun ⟨marker, hmarker, hend⟩ => ⟨marker, hmarker,
              cons_prefix_cons.mpr ⟨rfl, hend⟩⟩⟩
          rcases infix_cons_iff.mp hinfix with hstarts | hlater
          · exact hnone marker hmarker (hstarts.trans
              (cons_prefix_cons.mpr ⟨rfl, hstem.isPrefix_text⟩))
          · exact hstem.1 marker hmarker hlater
        · rintro ⟨hclean, hend⟩
          have hfirst : letter = first ∧ stem <+: rest := by
            rcases hend with hsame | ⟨marker, -, hend⟩
            · cases hsame
              exact ⟨rfl, prefix_rfl⟩
            · have hcons := cons_prefix_cons.mp hend
              exact ⟨hcons.1.symm, (prefix_append _ _).trans hcons.2⟩
          obtain ⟨rfl, -⟩ := hfirst
          refine ⟨rfl, fun marker hmarker hinfix => hclean marker hmarker
            (infix_cons hinfix), hend.imp tail_eq_of_cons_eq
            fun ⟨marker, hmarker, hend⟩ => ⟨marker, hmarker, (cons_prefix_cons.mp hend).2⟩⟩

theorem cutAt_append (hplain : Plain markers) {marker : List Char} (hmarker : marker ∈ markers)
    (rest : List Char) : cutAt markers (text ++ (marker ++ rest)) = cutAt markers text := by
  obtain ⟨hclean, hend⟩ : Stem markers (cutAt markers text) text := (cutAt_eq_iff hplain).mp rfl
  refine (cutAt_eq_iff hplain).mpr ⟨hclean, .inr ?_⟩
  rcases hend with hsame | ⟨other, hother, hstarts⟩
  · refine ⟨marker, hmarker, ?_⟩
    rw [← hsame, ← append_assoc]
    exact prefix_append _ _
  · exact ⟨other, hother, hstarts.trans (prefix_append _ _)⟩

theorem take_min_beforeFirst (first second text : List Char) :
    text.take (min (beforeFirst first text).length
        (beforeFirst second text).length) = cutAt [first, second] text := by
  induction text with
  | nil => rfl
  | cons letter rest ih =>
    rw [beforeFirst, beforeFirst, cutAt]
    by_cases hfirst : first.isPrefixOf (letter :: rest) = true
    · simp [hfirst]
    · by_cases hsecond : second.isPrefixOf (letter :: rest) = true
      · simp [hfirst, hsecond]
      · simp [hfirst, hsecond, Nat.add_min_add_right, ih]

theorem beforeFirst_beforeFirst (mark : Char) (marker text : List Char) :
    beforeFirst [mark] (beforeFirst marker text) = cutAt [[mark], marker] text := by
  induction text with
  | nil => rfl
  | cons letter rest ih =>
    rw [beforeFirst, cutAt]
    by_cases hmarker : marker.isPrefixOf (letter :: rest) = true
    · simp [hmarker, beforeFirst]
    · by_cases hmark : mark = letter
      · simp [hmarker, hmark, beforeFirst]
      · simp [hmarker, hmark, beforeFirst, ih]

end

/-! ## Signatures and links -/

section

variable {Polity Time : Type*} (text : PythonText)

/-- What an event's signature reads of its entities and its polity. -/
structure EventCanon (Polity : Type*) where
  identityFold : String → String
  isJunkEntity : String → Bool
  anchorToken : Polity → String

def eventSignatureEntityK : ℕ := 3

def signatureEntityTokens (canon : EventCanon Polity) (entityNames : List String) : List String :=
  let names := (entityNames.map text.strip).filter fun name => name ≠ "" && !canon.isJunkEntity name
  let folds := (names.map canon.identityFold).filter (· ≠ "")
  (folds.dedup.insertionSort (· ≤ ·)).take eventSignatureEntityK

def topicOf (value : String) : String := text.lower (text.strip value)

/-- The topic an event is keyed by, empty where nothing keys it. -/
def eventBlock (canon : EventCanon Polity) (topic : String) (entityNames : List String) : String :=
  if topicOf text topic = "" then
    (signatureEntityTokens text canon entityNames).headD ""
  else topicOf text topic

def eventSignature (canon : EventCanon Polity) (topic : String)
    (entityNames : List String) (primaryPolity : Polity) : Option String :=
  let tokens := signatureEntityTokens text canon entityNames
  let block := eventBlock text canon topic entityNames
  if block = "" then none
  else
    let tail := if tokens = [] then "" else "|" ++ String.intercalate "," tokens
    some ("evt:" ++ block ++ tail ++ eventMarker ++ canon.anchorToken primaryPolity)

/-- `body.find(mark)` is the length of what is in front of the mark, which is
the whole body where there is none. -/
def eventTopicKey (signature : Option String) : Option String :=
  let value := signature.getD ""
  if startsWith value "evt:" then
    let body := value.toList.drop 4
    let topic := body.take (min (beforeFirst ['|'] body).length
      (beforeFirst eventMarker.toList body).length)
    if topic = [] then none else some (String.ofList topic)
  else none

/-- The topic in `LINK_EVENT_SITUATIONS_SQL`. -/
def situationTopic (signature : String) : String :=
  let body := if startsWith signature "sig:" then signature.toList.drop 4
    else signature.toList
  String.ofList (beforeFirst ['|'] (beforeFirst dimensionMarker.toList body))

structure Situation (Time : Type*) where
  status : String
  situationSignature : String
  validFrom : Option Time
  validUntil : Option Time

def Situation.Open [LE Time] (situation : Situation Time) (moment : Time) :
    Prop :=
  situation.status ≠ "closed" ∧
    (∀ start ∈ situation.validFrom, start ≤ moment) ∧
    ∀ stop ∈ situation.validUntil, moment ≤ stop

instance [LE Time] [DecidableLE Time] (situation : Situation Time)
    (moment : Time) : Decidable (situation.Open moment) :=
  inferInstanceAs (Decidable (_ ∧ _ ∧ _))

/-- The situations `link_event_to_situations` links. -/
def linkedSituations [LE Time] [DecidableLE Time] (signature : Option String)
    (windowAt : Time) (situations : List (Situation Time)) :
    List (Situation Time) :=
  match eventTopicKey signature with
  | none => []
  | some key => situations.filter fun situation =>
    situation.Open windowAt ∧
      startsWith situation.situationSignature "sig:" = true ∧
      situationTopic situation.situationSignature = key

/-- A finding a key is derived for: it names an entity, and no explicit
situation. -/
structure DerivedFinding where
  data : List (String × JsonValue.Json)
  fallback : Option String
  first : String
  others : List String
  derived : (explicitSignature text data).filter (· ≠ "") = none
  tokens : entityTokens text data = some (first :: others)

end

/-! ## The compared stems -/

section

variable {Polity : Type*} {text : PythonText}

def DerivedFinding.topic (finding : DerivedFinding text) : String :=
  Findings.topic text finding.data finding.fallback

/-- The topic a situation is keyed by. -/
def DerivedFinding.block (finding : DerivedFinding text) : String :=
  if finding.topic = "" then finding.first else finding.topic

def eventMarks : List (List Char) := [['|'], eventMarker.toList]

def situationMarks : List (List Char) := [['|'], dimensionMarker.toList]

theorem plain_eventMarks : Plain eventMarks := by
  simp [Plain, eventMarks, eventMarker]

theorem plain_situationMarks : Plain situationMarks := by
  simp [Plain, situationMarks, dimensionMarker]

theorem DerivedFinding.deriveSignature_eq (finding : DerivedFinding text)
    (analystId : Option String) :
    deriveSignature text finding.data finding.fallback analystId =
      some (some (derivedKey text finding.block analystId)) := by
  rw [deriveSignature, finding.derived, finding.tokens]
  rfl

variable {topic : String} {names : List String}
  (canon : EventCanon Polity) (polity : Polity)
  (finding : DerivedFinding text) (analystId : Option String)

theorem eventSignature_toList (hblock : eventBlock text canon topic names ≠ "") :
    ∃ signature, eventSignature text canon topic names polity = some signature ∧
      ∃ marker ∈ eventMarks, ∃ rest, signature.toList = "evt:".toList ++
        ((eventBlock text canon topic names).toList ++ (marker ++ rest)) := by
  refine ⟨_, if_neg hblock, ?_⟩
  by_cases htokens : signatureEntityTokens text canon names = []
  · exact ⟨eventMarker.toList, by simp [eventMarks],
      (canon.anchorToken polity).toList, by simp [htokens]⟩
  · exact ⟨['|'], by simp [eventMarks],
      (String.intercalate "," (signatureEntityTokens text canon names) ++
        eventMarker ++ canon.anchorToken polity).toList, by simp [htokens]⟩

theorem eventTopicKey_eq_some_iff (key : String) :
    eventTopicKey (eventSignature text canon topic names polity) = some key ↔
      key ≠ "" ∧ Stem eventMarks key.toList (eventBlock text canon topic names).toList := by
  by_cases hblock : eventBlock text canon topic names = ""
  · rw [eventSignature, if_pos hblock]
    refine iff_of_false (by simp [eventTopicKey, startsWith]) ?_
    rintro ⟨hkey, hstem⟩
    rw [hblock] at hstem
    exact hkey (String.toList_eq_nil_iff.mp (prefix_nil.mp hstem.isPrefix_text))
  · obtain ⟨signature, hsignature, marker, hmarker, rest, hlist⟩ :=
      eventSignature_toList canon polity hblock
    have hstarts : startsWith signature "evt:" = true := by
      rw [startsWith, hlist]
      exact isPrefixOf_iff_prefix.mpr (prefix_append _ _)
    have hbody : signature.toList.drop 4 =
        (eventBlock text canon topic names).toList ++ (marker ++ rest) := by
      rw [hlist]
      rfl
    rw [hsignature, eventTopicKey, Option.getD_some, if_pos hstarts, hbody]
    dsimp only
    rw [take_min_beforeFirst, ← cutAt_eq_iff plain_eventMarks]
    change (if cutAt eventMarks _ = [] then none else some (String.ofList
      (cutAt eventMarks _))) = _ ↔ _
    rw [cutAt_append plain_eventMarks hmarker]
    split
    · rename_i hnil
      rw [hnil]
      refine iff_of_false (by simp) ?_
      rintro ⟨hkey, hsame⟩
      exact hkey (String.toList_eq_nil_iff.mp hsame.symm)
    · rename_i hcut
      rw [Option.some.injEq]
      constructor
      · rintro rfl
        exact ⟨by simpa using hcut, String.toList_ofList.symm⟩
      · rintro ⟨-, hsame⟩
        rw [hsame, String.ofList_toList]

theorem derivedKey_toList (block : String) :
    ∃ rest, (rest = [] ∨ ∃ more, rest = dimensionMarker.toList ++ more) ∧
      (derivedKey text block analystId).toList = "sig:".toList ++ (block.toList ++ rest) := by
  unfold derivedKey withDimension
  split
  · exact ⟨[], .inl rfl, by simp⟩
  · exact ⟨dimensionMarker.toList ++ (dimensionToken text analystId).toList, .inr ⟨_, rfl⟩, by simp⟩

theorem startsWith_derivedKey (block : String) :
    startsWith (derivedKey text block analystId) "sig:" := by
  obtain ⟨rest, -, hkey⟩ := @derivedKey_toList text analystId block
  rw [startsWith, hkey]
  exact isPrefixOf_iff_prefix.mpr (prefix_append _ _)

theorem situationTopic_derivedKey (block : String) :
    (situationTopic (derivedKey text block analystId)).toList =
      cutAt situationMarks block.toList := by
  obtain ⟨rest, hrest, hkey⟩ := @derivedKey_toList text analystId block
  rw [situationTopic, if_pos (startsWith_derivedKey analystId _), hkey,
    String.toList_ofList, beforeFirst_beforeFirst]
  change cutAt situationMarks (block.toList ++ rest) = _
  rcases hrest with rfl | ⟨more, rfl⟩
  · rw [append_nil]
  · exact cutAt_append plain_situationMarks (by simp [situationMarks]) more

theorem mem_linkedSituations {Time : Type*} [LE Time] [DecidableLE Time] {signature : Option String}
    {windowAt : Time} {situations : List (Situation Time)} {situation : Situation Time}
    (hmem : situation ∈ situations) (hsig : startsWith situation.situationSignature "sig:") :
    situation ∈ linkedSituations signature windowAt situations ↔
      eventTopicKey signature = some (situationTopic situation.situationSignature) ∧
      situation.Open windowAt := by
  rw [linkedSituations]
  cases hkey : eventTopicKey signature with
  | none => simp
  | some key =>
    rw [mem_filter, decide_eq_true_eq, Option.some.injEq]
    constructor
    · rintro ⟨-, hopen, -, hsame⟩
      exact ⟨hsame.symm, hopen⟩
    · rintro ⟨hsame, hopen⟩
      exact ⟨hmem, hopen, hsig, hsame.symm⟩

/-- What an event's topic and a situation's say of one another. -/
structure StemsTell (topic : String) (names : List String) : Prop where
  same : topicOf text topic = finding.topic →
    ∃ stem ≠ [], Stem eventMarks stem (eventBlock text canon topic names).toList ∧
      Stem situationMarks stem finding.block.toList
  apart : topicOf text topic ≠ finding.topic →
    ∀ stem ≠ [], Stem eventMarks stem (eventBlock text canon topic names).toList →
      ¬Stem situationMarks stem finding.block.toList

theorem sameTopic_iff :
    eventTopicKey (eventSignature text canon topic names polity) =
        some (situationTopic (derivedKey text finding.block analystId)) ↔
      ∃ stem ≠ [], Stem eventMarks stem (eventBlock text canon topic names).toList ∧
        Stem situationMarks stem finding.block.toList := by
  rw [eventTopicKey_eq_some_iff, ne_eq, ← String.toList_eq_nil_iff, situationTopic_derivedKey]
  constructor
  · rintro ⟨hne, hstem⟩
    exact ⟨_, hne, hstem, (cutAt_eq_iff plain_situationMarks).mp rfl⟩
  · rintro ⟨stem, hne, hevent, hsituation⟩
    obtain rfl := (cutAt_eq_iff plain_situationMarks).mpr hsituation
    exact ⟨hne, hevent⟩

theorem event_links_own_topic_iff {Time : Type*} [LinearOrder Time]
    (topic : String) (names : List String) :
    (∀ key, deriveSignature text finding.data finding.fallback analystId = some (some key) →
      (eventTopicKey (eventSignature text canon topic names polity) =
          some (situationTopic key) ↔ topicOf text topic = finding.topic) ∧
      ∀ (windowAt : Time) (situations : List (Situation Time)),
        ∀ situation ∈ situations, situation.situationSignature = key →
        (situation ∈ linkedSituations
            (eventSignature text canon topic names polity) windowAt situations ↔
          situation.Open windowAt ∧ topicOf text topic = finding.topic)) ↔
      StemsTell canon finding topic names := by
  simp only [finding.deriveSignature_eq, Option.some.injEq, forall_eq']
  rw [sameTopic_iff]
  constructor
  · rintro ⟨htells, -⟩
    exact ⟨htells.mpr, fun hne stem hstem hevent hsituation =>
      hne (htells.mp ⟨stem, hstem, hevent, hsituation⟩)⟩
  · intro htell
    have htells := (@sameTopic_iff _ text topic names canon polity finding
      analystId).trans ⟨fun ⟨stem, hstem, hevent, hsituation⟩ =>
        not_not.mp fun hne => htell.apart hne stem hstem hevent hsituation,
        htell.same⟩
    refine ⟨(sameTopic_iff canon polity finding analystId).symm.trans htells, ?_⟩
    intro windowAt situations situation hmem hkey
    rw [mem_linkedSituations hmem (hkey ▸ startsWith_derivedKey analystId _),
      hkey, htells, and_comm]

/-- A situation whose topic holds the separator. -/
def barredFinding : DerivedFinding asciiText where
  data := [("topic", .string "a|y"), ("entities", .string "iran")]
  fallback := none
  first := "iran"
  others := []
  derived := by decide +kernel
  tokens := by decide +kernel

/-- Two topics with one stem are taken for one another. -/
theorem not_forall_topics_compare :
    ¬∀ (canon : EventCanon String) (topic : String) (names : List String)
      (polity : String) (finding : DerivedFinding asciiText)
      (analystId : Option String),
      topic ≠ "" → finding.topic ≠ "" → ∀ key, deriveSignature asciiText
        finding.data finding.fallback analystId = some (some key) →
      (eventTopicKey (eventSignature asciiText canon topic names polity) =
          some (situationTopic key) ↔
        topicOf asciiText topic = finding.topic) := by
  intro hall
  have hsame := (hall ⟨id, fun _ => false, id⟩ "a|x" [] "" barredFinding none
    (by decide) (by decide +kernel) "sig:a|y#dim:_unattributed"
    (by decide +kernel)).mp (by decide +kernel)
  exact absurd hsame (by decide +kernel)

end

end Legba.Findings
