import Legba.LoadedJson
import Legba.Words
import Mathlib

/-!
# The verdicts of the situation tracker

The model answers a batch of situations with an array of verdicts.  A verdict
is bound to its situation by the handle it echoes, and one which cannot be
taken as it stands is dropped and counted.  A citation is read as an integer,
and what is no integer is passed over, with one exception.
-/

namespace Legba.TrackerReplies

open LoadedJson List

universe u

variable {F : Type u}

abbrev Text := List Char

abbrev Fields (F : Type u) := List (Text × Value F)

def deltaUnchangedCheckpoint : Text := "unchanged_checkpoint".toList

def deltaKinds : List Text :=
  ["escalates".toList, "de_escalates".toList, "broadens".toList, deltaUnchangedCheckpoint]

structure EvidenceItem where
  ordinal : ℤ
  findingId : ℕ
  title : Text
  body : Text
deriving DecidableEq

structure SituationCandidate where
  situationId : ℕ
  handle : Text
  evidence : List EvidenceItem

structure Verdict where
  candidate : SituationCandidate
  delta : Text
  why : Text
  cited : List EvidenceItem
  resolution : Bool

/-- What `int` finds in a float. -/
inductive Number where
  | finite (truncated : ℤ)
  | infinite
  | nan
deriving DecidableEq

structure Decoding (F : Type u) where
  isSpace : Char → Bool
  repr : Value F → Text
  intOfText : Text → Option ℤ
  isZero : F → Bool
  number : F → Number
  loads : Text → Option (Value F)

inductive Raised where
  | typeError
  | valueError
  | overflowError
deriving DecidableEq

section

variable (D : Decoding F)

def fence : Text := "```".toList

/-- `.*?\]` up to the first bracket behind which the fence closes. -/
def arrayEnd : Text → Option Text
  | [] => none
  | letter :: rest =>
    if letter = ']' ∧ fence <+: rest.dropWhile D.isSpace then some [letter]
    else (arrayEnd rest).map (letter :: ·)

def fencedHere (text : Text) : Option Text :=
  let body := (if "json".toList <+: text then text.drop 4 else text).dropWhile D.isSpace
  match body with
  | '[' :: rest => (arrayEnd D rest).map ('[' :: ·)
  | _ => none

def fenceSearch : Text → Option Text
  | [] => none
  | letter :: rest =>
    let here :=
      if fence <+: letter :: rest then
        fencedHere D ((letter :: rest).drop fence.length)
      else none
    match here with
    | some group => some group
    | none => fenceSearch rest

def bracketed (text : Text) : Text :=
  (text.dropWhile (· ≠ '[')).rdropWhile (· ≠ ']')

def extractJsonArray (content : Text) : List (Value F) :=
  let text := Words.strip D.isSpace content
  match bracketed ((fenceSearch D text).getD text) with
  | [] => []
  | slice =>
    match D.loads slice with
    | some (.array items) => items
    | _ => []

/-! ## Reading an item -/

/-- `str(fields.get(key) or "")` -/
def textAt (fields : Fields F) (key : String) : Text :=
  match get? fields key.toList with
  | none => []
  | some value =>
    if value.truthy D.isZero then
      match value with
      | .string text => text
      | _ => D.repr value
    else []

def handleIn (fields : Fields F) : Text :=
  Words.strip D.isSpace (textAt D fields "handle")

def deltaIn (fields : Fields F) : Text :=
  Words.strip D.isSpace (textAt D fields "delta")

def whyIn (fields : Fields F) : Text :=
  Words.join ' ' (Words.words D.isSpace (textAt D fields "why"))

def citesIn (fields : Fields F) : List (Value F) :=
  match get? fields "cites".toList with
  | some (.array cites) => cites
  | _ => []

/-- `by_handle.get` -/
def byHandle (batch : List SituationCandidate) (handle : Text) : Option SituationCandidate :=
  batch.reverse.find? fun candidate => candidate.handle = handle

/-- `own.get`: the last item with an ordinal is the one under it. -/
def own (candidate : SituationCandidate) (n : ℤ) : Option EvidenceItem :=
  candidate.evidence.reverse.find? fun item => item.ordinal = n

/-- `int` -/
def intOf : Value F → Except Raised ℤ
  | .null => .error .typeError
  | .bool value => .ok (if value then 1 else 0)
  | .int n => .ok n
  | .float x =>
    match D.number x with
    | .finite n => .ok n
    | .infinite => .error .overflowError
    | .nan => .error .valueError
  | .string text =>
    match D.intOfText text with
    | some n => .ok n
    | none => .error .valueError
  | .array _ => .error .typeError
  | .object _ => .error .typeError

def readCites (candidate : SituationCandidate) :
    List (Value F) → List EvidenceItem → Except Raised (List EvidenceItem)
  | [], cited => .ok cited
  | raw :: rest, cited =>
    match intOf D raw with
    | .ok n =>
      match own candidate n with
      | some item => readCites candidate rest (if item ∈ cited then cited else cited ++ [item])
      | none => readCites candidate rest cited
    -- only `TypeError` and `ValueError` are caught
    | .error .overflowError => .error .overflowError
    | .error _ => readCites candidate rest cited

def verdictOf (candidate : SituationCandidate) (fields : Fields F)
    (cited : List EvidenceItem) : Option Verdict :=
  if deltaIn D fields ≠ deltaUnchangedCheckpoint ∧ cited = [] then none
  else some
    { candidate := candidate
      delta := deltaIn D fields
      why := (whyIn D fields).take 2000
      cited := cited.mergeSort fun first second => first.ordinal ≤ second.ordinal
      resolution :=
        match get? fields "resolution".toList with
        | some value => value.truthy D.isZero
        | none => false }

local instance : LawfulBEq Text := inferInstance

/-- What an item comes to: a verdict, or `none` when it is dropped. -/
def readItem (batch : List SituationCandidate) (seen : List Text)
    (item : Value F) : Except Raised (Option Verdict) :=
  match item with
  | .object fields =>
    match byHandle batch (handleIn D fields) with
    | none => .ok none
    | some candidate =>
      if handleIn D fields ∈ seen then .ok none
      else if deltaIn D fields ∉ deltaKinds then .ok none
      else if whyIn D fields = [] then .ok none
      else
        (readCites D candidate (citesIn fields) []).map (verdictOf D candidate fields)
  | _ => .ok none

/-- The loop of `parse_verdicts`, given the handles already bound. -/
def bindItems (batch : List SituationCandidate) :
    List (Value F) → List Text → Except Raised (List Verdict × ℕ)
  | [], _ => .ok ([], 0)
  | item :: rest, seen =>
    match readItem D batch seen item with
    | .error raised => .error raised
    | .ok none => (bindItems batch rest seen).map fun bound => (bound.1, bound.2 + 1)
    | .ok (some verdict) =>
      (bindItems batch rest (verdict.candidate.handle :: seen)).map
        fun bound => (verdict :: bound.1, bound.2)

def parseVerdicts (content : Text) (batch : List SituationCandidate) :
    Except Raised (List Verdict × ℕ) :=
  bindItems D batch (extractJsonArray D content) []

end

/-! ## What is cited -/

section

variable {D : Decoding F} {candidate : SituationCandidate}

theorem mem_of_own {n : ℤ} {item : EvidenceItem} (hown : own candidate n = some item) :
    item ∈ candidate.evidence ∧ item.ordinal = n := by
  have hmem := mem_of_find?_eq_some hown
  have hordinal := find?_some hown
  exact ⟨mem_reverse.mp hmem, of_decide_eq_true hordinal⟩

theorem exists_own {n : ℤ} {item : EvidenceItem} (hitem : item ∈ candidate.evidence)
    (hordinal : item.ordinal = n) : ∃ found, own candidate n = some found := by
  rw [← Option.isSome_iff_exists]
  unfold own
  rw [find?_isSome]
  exact ⟨item, mem_reverse.mpr hitem, decide_eq_true hordinal⟩

def CitesInfinity (D : Decoding F) (cites : List (Value F)) : Prop :=
  ∃ x, .float x ∈ cites ∧ D.number x = .infinite

def CitesOwn (D : Decoding F) (candidate : SituationCandidate) (cites : List (Value F)) : Prop :=
  ∃ raw ∈ cites, ∃ item ∈ candidate.evidence, intOf D raw = .ok item.ordinal

theorem intOf_overflow_iff {raw : Value F} :
    intOf D raw = .error .overflowError ↔ ∃ x, raw = .float x ∧ D.number x = .infinite := by
  cases raw with
  | float x =>
    cases hnumber : D.number x <;> simp [intOf, hnumber]
  | string text =>
    cases htext : D.intOfText text <;> simp [intOf, htext]
  | _ => simp [intOf]

variable {cites : List (Value F)} {cited : List EvidenceItem}

theorem readCites_raised {raised : Raised}
    (hread : readCites D candidate cites cited = .error raised) :
    raised = .overflowError ∧ CitesInfinity D cites := by
  induction cites generalizing cited with
  | nil => cases hread
  | cons raw rest ih =>
    have hrest : ∀ others, readCites D candidate rest others =
        .error raised → raised = .overflowError ∧ CitesInfinity D (raw :: rest) := by
      intro others hothers
      obtain ⟨hraised, x, hmem, hx⟩ := ih hothers
      exact ⟨hraised, x, mem_cons_of_mem _ hmem, hx⟩
    rw [readCites] at hread
    cases hraw : intOf D raw with
    | ok n =>
      rw [hraw] at hread
      cases hown : own candidate n with
      | none =>
        simp only [hown] at hread
        exact hrest _ hread
      | some item =>
        simp only [hown] at hread
        exact hrest _ hread
    | error raisedHere =>
      rw [hraw] at hread
      cases raisedHere with
      | overflowError =>
        obtain ⟨x, rfl, hx⟩ := intOf_overflow_iff.mp hraw
        cases hread
        exact ⟨rfl, x, mem_cons_self, hx⟩
      | typeError => exact hrest _ hread
      | valueError => exact hrest _ hread

theorem readCites_of_infinity (hinfinity : CitesInfinity D cites) (cited : List EvidenceItem) :
    readCites D candidate cites cited = .error .overflowError := by
  induction cites generalizing cited with
  | nil => simp [CitesInfinity] at hinfinity
  | cons raw rest ih =>
    rw [readCites]
    obtain ⟨x, hmem, hx⟩ := hinfinity
    rcases mem_cons.mp hmem with rfl | hrest
    · rw [intOf_overflow_iff.mpr ⟨x, rfl, hx⟩]
    · have htail := ih ⟨x, hrest, hx⟩
      cases hraw : intOf D raw with
      | ok n =>
        cases hown : own candidate n with
        | none => simp only [hown, htail]
        | some item => simp only [hown, htail]
      | error raised =>
        cases raised with
        | overflowError => rfl
        | typeError => exact htail cited
        | valueError => exact htail cited

theorem readCites_spec {found : List EvidenceItem}
    (hread : readCites D candidate cites cited = .ok found) :
    (∀ item ∈ found, item ∈ cited ∨ item ∈ candidate.evidence) ∧
    (found = [] ↔ cited = [] ∧ ¬CitesOwn D candidate cites) := by
  induction cites generalizing cited with
  | nil =>
    cases hread
    refine ⟨fun item hitem => .inl hitem, ?_⟩
    simp [CitesOwn]
  | cons raw rest ih =>
    have hskip : (∀ item ∈ candidate.evidence,
        intOf D raw ≠ .ok item.ordinal) →
        (CitesOwn D candidate (raw :: rest) ↔ CitesOwn D candidate rest) := by
      intro hnot
      unfold CitesOwn
      rw [exists_mem_cons_iff, or_iff_right]
      rintro ⟨item, hitem, hraw⟩
      exact hnot item hitem hraw
    rw [readCites] at hread
    cases hraw : intOf D raw with
    | error raised =>
      rw [hskip (by intro item _; rw [hraw]; simp)]
      rw [hraw] at hread
      cases raised with
      | overflowError => cases hread
      | typeError => exact ih hread
      | valueError => exact ih hread
    | ok n =>
      rw [hraw] at hread
      cases hown : own candidate n with
      | none =>
        simp only [hown] at hread
        rw [hskip]
        · exact ih hread
        · intro item hitem heq
          rw [hraw, Except.ok.injEq] at heq
          obtain ⟨other, hother⟩ := exists_own hitem heq.symm
          rw [hown] at hother
          cases hother
      | some item =>
        simp only [hown] at hread
        obtain ⟨hitem, hordinal⟩ := mem_of_own hown
        obtain ⟨hfrom, hempty⟩ := ih hread
        have hcites : CitesOwn D candidate (raw :: rest) :=
          ⟨raw, mem_cons_self, item, hitem, by rw [hraw, hordinal]⟩
        constructor
        · intro other hother
          rcases hfrom other hother with hin | hin
          · split at hin
            · exact .inl hin
            · rcases mem_append.mp hin with hin | hin
              · exact .inl hin
              · rw [mem_singleton] at hin
                exact .inr (hin ▸ hitem)
          · exact .inr hin
        · have hnonempty : found ≠ [] := by
            intro hnil
            have hnone := (hempty.mp hnil).1
            split at hnone
            next hmem =>
              rw [hnone] at hmem
              cases hmem
            next => simp at hnone
          simp [hnonempty, hcites]

end

/-! ## What an item comes to -/

def names (D : Decoding F) (handle : Text) : Value F → Bool
  | .object fields => handleIn D fields = handle
  | _ => false

/-- An item which is bound to a situation as soon as its citations are read. -/
structure Ready (D : Decoding F) (batch : List SituationCandidate)
    (fields : Fields F) (candidate : SituationCandidate) : Prop where
  offered : byHandle batch (handleIn D fields) = some candidate
  delta : deltaIn D fields ∈ deltaKinds
  why : whyIn D fields ≠ []

/-- An item with an offered handle, a known delta, a reason and, unless nothing
changed, a citation of its situation's evidence. -/
def WellFormed (D : Decoding F) (batch : List SituationCandidate) (item : Value F) : Prop :=
  ∃ fields candidate, item = .object fields ∧
    Ready D batch fields candidate ∧
    (deltaIn D fields = deltaUnchangedCheckpoint ∨ CitesOwn D candidate (citesIn fields))

section

variable {D : Decoding F} {batch : List SituationCandidate}
  {seen others : List Text} {item : Value F} {handle : Text}

variable {candidate : SituationCandidate}

theorem byHandle_spec (hfound : byHandle batch handle = some candidate) :
    candidate ∈ batch ∧ candidate.handle = handle := by
  have hmem := mem_of_find?_eq_some hfound
  have hhandle := find?_some hfound
  exact ⟨mem_reverse.mp hmem, of_decide_eq_true hhandle⟩

theorem names_iff :
    names D handle item = true ↔ ∃ fields, item = .object fields ∧ handleIn D fields = handle := by
  cases item <;> simp [names]

theorem readItem_congr
    (hseen : ∀ handle, names D handle item = true → (handle ∈ seen ↔ handle ∈
      others)) : readItem D batch seen item = readItem D batch others item := by
  cases item with
  | object fields =>
    have hiff := hseen (handleIn D fields) (names_iff.mpr ⟨fields, rfl, rfl⟩)
    unfold readItem
    simp only [hiff]
  | _ => rfl

theorem readItem_of_ready {fields : Fields F}
    (hready : Ready D batch fields candidate) (hseen : handleIn D fields ∉ seen) :
    readItem D batch seen (.object fields) =
      (readCites D candidate (citesIn fields) []).map (verdictOf D candidate fields) := by
  unfold readItem
  simp only [hready.offered, if_neg hseen, hready.delta, not_true_eq_false,
    if_false, if_neg hready.why]

theorem ready_of_readItem (hread : readItem D batch seen item ≠ .ok none) :
    ∃ fields candidate, item = .object fields ∧
      Ready D batch fields candidate ∧ handleIn D fields ∉ seen := by
  cases item with
  | object fields =>
    unfold readItem at hread
    cases hoffered : byHandle batch (handleIn D fields) with
    | none => simp [hoffered] at hread
    | some candidate =>
      by_cases hseen : handleIn D fields ∈ seen
      · simp [hoffered, hseen] at hread
      · by_cases hdelta : deltaIn D fields ∈ deltaKinds
        · by_cases hwhy : whyIn D fields = []
          · simp [hoffered, hseen, hdelta, hwhy] at hread
          · exact ⟨fields, candidate, rfl, ⟨hoffered, hdelta, hwhy⟩, hseen⟩
        · simp [hoffered, hseen, hdelta] at hread
  | _ => exact absurd rfl hread

theorem readItem_raised_iff {raised : Raised} :
    readItem D batch seen item = .error raised ↔
      raised = .overflowError ∧ ∃ fields candidate, item = .object fields ∧
        Ready D batch fields candidate ∧ handleIn D fields ∉ seen ∧
        CitesInfinity D (citesIn fields) := by
  constructor
  · intro hread
    have hkept : readItem D batch seen item ≠ .ok none := by simp [hread]
    obtain ⟨fields, candidate, rfl, hready, hseen⟩ := ready_of_readItem hkept
    rw [readItem_of_ready hready hseen] at hread
    cases hcites : readCites D candidate (citesIn fields) [] with
    | ok cited =>
      rw [hcites] at hread
      cases hread
    | error raisedHere =>
      rw [hcites] at hread
      cases hread
      obtain ⟨hraised, hinfinity⟩ := readCites_raised hcites
      exact ⟨hraised, fields, candidate, rfl, hready, hseen, hinfinity⟩
  · rintro ⟨rfl, fields, candidate, rfl, hready, hseen, hinfinity⟩
    rw [readItem_of_ready hready hseen, readCites_of_infinity hinfinity]
    rfl

theorem readItem_kept {verdict : Verdict}
    (hread : readItem D batch seen item = .ok (some verdict)) :
    verdict.candidate ∈ batch ∧
    names D verdict.candidate.handle item = true ∧
    verdict.candidate.handle ∉ seen ∧
    (∀ evidence ∈ verdict.cited, evidence ∈ verdict.candidate.evidence) ∧
    WellFormed D batch item := by
  have hkept : readItem D batch seen item ≠ .ok none := by simp [hread]
  obtain ⟨fields, candidate, rfl, hready, hseen⟩ := ready_of_readItem hkept
  rw [readItem_of_ready hready hseen] at hread
  cases hcites : readCites D candidate (citesIn fields) [] with
  | error raised =>
    rw [hcites] at hread
    cases hread
  | ok cited =>
    rw [hcites, Except.map, Except.ok.injEq] at hread
    unfold verdictOf at hread
    rw [Option.ite_none_left_eq_some, Option.some.injEq] at hread
    obtain ⟨hsome, rfl⟩ := hread
    obtain ⟨hmem, hhandle⟩ := byHandle_spec hready.offered
    obtain ⟨hfrom, hempty⟩ := readCites_spec hcites
    refine ⟨hmem, names_iff.mpr ⟨fields, rfl, hhandle.symm⟩, ?_, ?_,
      fields, candidate, rfl, hready, ?_⟩
    · rw [hhandle]
      exact hseen
    · intro evidence hevidence
      have hcited := (mergeSort_perm _ _).mem_iff.mp hevidence
      rcases hfrom evidence hcited with hnil | hown
      · cases hnil
      · exact hown
    · by_contra hneither
      rw [not_or] at hneither
      exact hsome ⟨hneither.1, hempty.mpr ⟨rfl, hneither.2⟩⟩

theorem readItem_dropped (hread : readItem D batch seen item = .ok none)
    (hwell : WellFormed D batch item) : ∃ handle ∈ seen, names D handle item = true := by
  obtain ⟨fields, candidate, rfl, hready, hcites⟩ := hwell
  by_contra hnot
  have hseen : handleIn D fields ∉ seen := by
    intro hin
    exact hnot ⟨_, hin, names_iff.mpr ⟨fields, rfl, rfl⟩⟩
  rw [readItem_of_ready hready hseen] at hread
  cases hread' : readCites D candidate (citesIn fields) [] with
  | error raised =>
    rw [hread'] at hread
    cases hread
  | ok cited =>
    rw [hread', Except.map, Except.ok.injEq] at hread
    unfold verdictOf at hread
    rw [ite_eq_left_iff] at hread
    have hnothing := not_imp_comm.mp hread (by simp)
    rcases hcites with hunchanged | hown
    · exact hnothing.1 hunchanged
    · exact ((readCites_spec hread').2.mp hnothing.2).2 hown

end

/-! ## What a list of items comes to -/

/-- Given the handles already bound, some item which would be bound cites an
infinite float, and no well-formed item before it names the same situation. -/
def Overflows (D : Decoding F) (batch : List SituationCandidate)
    (seen : List Text) (items : List (Value F)) : Prop :=
  ∃ before fields after candidate, items = before ++ .object fields :: after ∧
    Ready D batch fields candidate ∧ handleIn D fields ∉ seen ∧
    CitesInfinity D (citesIn fields) ∧
    ∀ earlier ∈ before, names D (handleIn D fields) earlier = true → ¬WellFormed D batch earlier

section

variable {D : Decoding F} {batch : List SituationCandidate}
  {items : List (Value F)} {seen : List Text}

theorem names_unique {item : Value F} {first second : Text} (hfirst : names D first item)
    (hsecond : names D second item) : first = second := by
  obtain ⟨fields, rfl, hhandle⟩ := names_iff.mp hfirst
  exact hhandle.symm.trans (of_decide_eq_true hsecond)

theorem map_eq_error {α β : Type} {result : Except Raised α} {f : α → β}
    {raised : Raised} : result.map f = .error raised ↔ result = .error raised := by
  cases result <;> simp [Except.map]

theorem map_eq_ok {α β : Type} {result : Except Raised α} {f : α → β} {value : β}
    (hresult : result.map f = .ok value) : ∃ found, result = .ok found ∧ f found = value := by
  cases result with
  | error raised => cases hresult
  | ok found => exact ⟨found, rfl, Except.ok.inj hresult⟩

theorem overflows_of_raised {raised : Raised}
    (hbind : bindItems D batch items seen = .error raised) :
    raised = .overflowError ∧ Overflows D batch seen items := by
  induction items generalizing seen with
  | nil => cases hbind
  | cons item rest ih =>
    rw [bindItems] at hbind
    cases hread : readItem D batch seen item with
    | error raisedHere =>
      rw [hread] at hbind
      cases hbind
      obtain ⟨hraised, fields, candidate, rfl, hready, hseen, hinfinity⟩ :=
        readItem_raised_iff.mp hread
      exact ⟨hraised, [], fields, rest, candidate, rfl, hready, hseen, hinfinity, by simp⟩
    | ok found =>
      rw [hread] at hbind
      cases found with
      | none =>
        obtain ⟨hraised, before, fields, after, candidate, rfl, hready,
          hseen, hinfinity, hearlier⟩ := ih (map_eq_error.mp hbind)
        refine ⟨hraised, item :: before, fields, after, candidate, rfl,
          hready, hseen, hinfinity, ?_⟩
        rw [forall_mem_cons]
        refine ⟨fun hnames hwell => ?_, hearlier⟩
        obtain ⟨handle, hin, hhandle⟩ := readItem_dropped hread hwell
        exact hseen (names_unique hhandle hnames ▸ hin)
      | some verdict =>
        obtain ⟨hraised, before, fields, after, candidate, rfl, hready,
          hseen, hinfinity, hearlier⟩ := ih (map_eq_error.mp hbind)
        rw [mem_cons, not_or] at hseen
        have hkept := (readItem_kept hread).2.1
        refine ⟨hraised, item :: before, fields, after, candidate, rfl,
          hready, hseen.2, hinfinity, ?_⟩
        rw [forall_mem_cons]
        exact ⟨fun hnames _ => hseen.1 (names_unique hnames hkept), hearlier⟩

theorem raised_of_overflows (hoverflows : Overflows D batch seen items) :
    bindItems D batch items seen = .error .overflowError := by
  obtain ⟨before, fields, after, candidate, rfl, hready, hseen, hinfinity, hearlier⟩ := hoverflows
  induction before generalizing seen with
  | nil =>
    have hread := readItem_raised_iff.mpr ⟨rfl, fields, candidate, rfl, hready, hseen, hinfinity⟩
    rw [nil_append, bindItems, hread]
  | cons item before ih =>
    rw [forall_mem_cons] at hearlier
    rw [cons_append, bindItems]
    cases hread : readItem D batch seen item with
    | error raised => rw [(readItem_raised_iff.mp hread).1]
    | ok found =>
      cases found with
      | none => exact map_eq_error.mpr (ih hseen hearlier.2)
      | some verdict =>
        obtain ⟨-, hnames, -, -, hwell⟩ := readItem_kept hread
        have hne : handleIn D fields ≠ verdict.candidate.handle := by
          intro heq
          exact hearlier.1 (heq ▸ hnames) hwell
        have hseen' : handleIn D fields ∉ verdict.candidate.handle :: seen := by
          rw [mem_cons, not_or]
          exact ⟨hne, hseen⟩
        exact map_eq_error.mpr (ih hseen' hearlier.2)

variable {bound : List Verdict × ℕ}

theorem bindItems_spec (hbind : bindItems D batch items seen = .ok bound) :
    bound.1.length + bound.2 = items.length ∧
    (∀ verdict ∈ bound.1, verdict.candidate ∈ batch ∧
      verdict.candidate.handle ∉ seen ∧
      ∀ item ∈ verdict.cited, item ∈ verdict.candidate.evidence) ∧
    (bound.1.map fun verdict => verdict.candidate.handle).Nodup := by
  induction items generalizing seen bound with
  | nil =>
    cases hbind
    simp
  | cons item rest ih =>
    rw [bindItems] at hbind
    cases hread : readItem D batch seen item with
    | error raised =>
      rw [hread] at hbind
      cases hbind
    | ok found =>
      rw [hread] at hbind
      cases found with
      | none =>
        obtain ⟨others, hothers, rfl⟩ := map_eq_ok hbind
        obtain ⟨hcount, hverdicts, hnodup⟩ := ih hothers
        refine ⟨?_, hverdicts, hnodup⟩
        simp only [length_cons]
        omega
      | some verdict =>
        obtain ⟨others, hothers, rfl⟩ := map_eq_ok hbind
        obtain ⟨hcount, hverdicts, hnodup⟩ := ih hothers
        obtain ⟨hmem, -, hseen, hcited, -⟩ := readItem_kept hread
        refine ⟨?_, ?_, ?_⟩
        · simp only [length_cons]
          omega
        · rw [forall_mem_cons]
          refine ⟨⟨hmem, hseen, hcited⟩, ?_⟩
          intro other hother
          obtain ⟨hmem, hnot, hcited⟩ := hverdicts other hother
          exact ⟨hmem, fun hin => hnot (mem_cons_of_mem _ hin), hcited⟩
        · rw [map_cons, nodup_cons]
          refine ⟨?_, hnodup⟩
          intro hin
          obtain ⟨other, hother, heq⟩ := mem_map.mp hin
          apply (hverdicts other hother).2.1
          rw [heq]
          exact mem_cons_self

theorem bindItems_filter {others : List Text} {handle : Text}
    (hiff : handle ∈ seen ↔ handle ∈ others) (hbind : bindItems D batch items seen = .ok bound) :
    ∃ dropped, bindItems D batch (items.filter (names D handle)) others =
      .ok (bound.1.filter (·.candidate.handle = handle), dropped) := by
  induction items generalizing seen others bound with
  | nil =>
    cases hbind
    exact ⟨0, rfl⟩
  | cons item rest ih =>
    rw [bindItems] at hbind
    by_cases hnames : names D handle item = true
    · have hsame : readItem D batch seen item = readItem D batch others item := by
        apply readItem_congr
        intro other hother
        rw [names_unique hother hnames]
        exact hiff
      rw [filter_cons_of_pos hnames, bindItems, ← hsame]
      cases hread : readItem D batch seen item with
      | error raised =>
        rw [hread] at hbind
        cases hbind
      | ok found =>
        rw [hread] at hbind
        cases found with
        | none =>
          obtain ⟨tail, htail, rfl⟩ := map_eq_ok hbind
          obtain ⟨dropped, hdropped⟩ := ih hiff htail
          simp only [hdropped]
          exact ⟨_, rfl⟩
        | some verdict =>
          obtain ⟨tail, htail, rfl⟩ := map_eq_ok hbind
          have hkept := (readItem_kept hread).2.1
          have hhandle := names_unique hkept hnames
          have hiff' : handle ∈ verdict.candidate.handle :: seen ↔
              handle ∈ verdict.candidate.handle :: others := by
            rw [mem_cons, mem_cons, hiff]
          obtain ⟨dropped, hdropped⟩ := ih hiff' htail
          simp only [hdropped]
          rw [filter_cons_of_pos (by simpa using hhandle)]
          exact ⟨_, rfl⟩
    · rw [filter_cons_of_neg hnames]
      cases hread : readItem D batch seen item with
      | error raised =>
        rw [hread] at hbind
        cases hbind
      | ok found =>
        rw [hread] at hbind
        cases found with
        | none =>
          obtain ⟨tail, htail, rfl⟩ := map_eq_ok hbind
          have hfiltered := ih hiff htail
          exact hfiltered
        | some verdict =>
          obtain ⟨tail, htail, rfl⟩ := map_eq_ok hbind
          have hkept := (readItem_kept hread).2.1
          have hne : handle ≠ verdict.candidate.handle := by
            rintro rfl
            exact hnames hkept
          rw [filter_cons_of_neg (by simpa using hne.symm)]
          apply ih _ htail
          rw [mem_cons, or_iff_right hne]
          exact hiff

end

/-- The reply is read: every item is accounted for, no situation is answered
twice, what is cited belongs to the situation, and the answer for a situation
does not depend on the items which do not name it. -/
def Isolates (D : Decoding F) (batch : List SituationCandidate)
    (sent : List (Value F)) (parsed : Except Raised (List Verdict × ℕ)) :
    Prop :=
  ∃ verdicts dropped, parsed = .ok (verdicts, dropped) ∧
    verdicts.length + dropped = sent.length ∧
    (∀ verdict ∈ verdicts, verdict.candidate ∈ batch ∧
      ∀ item ∈ verdict.cited, item ∈ verdict.candidate.evidence) ∧
    (verdicts.map fun verdict => verdict.candidate.handle).Nodup ∧
    ∀ handle others bound,
      others.filter (names D handle) = sent.filter (names D handle) →
      bindItems D batch others [] = .ok bound →
      bound.1.filter (·.candidate.handle = handle) = verdicts.filter (·.candidate.handle = handle)

/-- A reply is read item by item exactly when the decoder takes it and no item
to be bound cites an infinite float. -/
theorem parseVerdicts_isolates_iff (D : Decoding F) (content : Text)
    (batch : List SituationCandidate) (sent : List (Value F))
    (hsent : extractJsonArray D content = sent ∨ extractJsonArray D content = []) :
    Isolates D batch sent (parseVerdicts D content batch) ↔
      extractJsonArray D content = sent ∧ ¬Overflows D batch [] sent := by
  unfold parseVerdicts
  constructor
  · rintro ⟨verdicts, dropped, hparsed, hcount, -⟩
    have hread : extractJsonArray D content = sent := by
      rcases hsent with hread | hnil
      · exact hread
      · have hlength := (bindItems_spec hparsed).1
        rw [hnil] at hlength ⊢
        have hzero : sent.length = 0 := hcount.symm.trans hlength
        exact (length_eq_zero_iff.mp hzero).symm
    refine ⟨hread, ?_⟩
    intro hoverflows
    rw [hread, raised_of_overflows hoverflows] at hparsed
    cases hparsed
  · rintro ⟨hread, hnot⟩
    rw [hread]
    cases hbind : bindItems D batch sent [] with
    | error raised => exact absurd (overflows_of_raised hbind).2 hnot
    | ok found =>
      obtain ⟨hcount, hverdicts, hnodup⟩ := bindItems_spec hbind
      refine ⟨found.1, found.2, rfl, hcount, ?_, hnodup, ?_⟩
      · intro verdict hverdict
        obtain ⟨hmem, -, hcited⟩ := hverdicts verdict hverdict
        exact ⟨hmem, hcited⟩
      · intro handle others bound hsame hothers
        have hseen : handle ∈ ([] : List Text) ↔ handle ∈ ([] : List Text) := Iff.rfl
        obtain ⟨_, hfirst⟩ := bindItems_filter hseen hothers
        obtain ⟨_, hsecond⟩ := bindItems_filter hseen hbind
        rw [hsame, hsecond] at hfirst
        exact (Prod.mk.inj (Except.ok.inj hfirst)).1.symm

def decodingOf (text : Text) (items : List (Value (Option ℤ))) : Decoding (Option ℤ) where
  isSpace letter := letter == ' ' || letter == '\n'
  repr _ := []
  intOfText _ := none
  isZero x := x == some 0
  number
    | some n => .finite n
    | none => .infinite
  loads slice := if slice = text then some (.array items) else none

def situation (handle : String) : SituationCandidate :=
  { situationId := 0
    handle := handle.toList
    evidence := [{ ordinal := 1, findingId := 1, title := [], body := [] }] }

def verdictItem (handle : String) (cite : Value (Option ℤ)) : Value (Option ℤ) :=
  .object [("handle".toList, .string handle.toList),
    ("delta".toList, .string "escalates".toList),
    ("why".toList, .string "shelling".toList),
    ("cites".toList, .array [cite])]

def twoSituations : Text :=
  ("[\x7b\"handle\":\"S1\",\"delta\":\"escalates\"," ++
    "\"why\":\"shelling\",\"cites\":[1e999]\x7d," ++
    "\x7b\"handle\":\"S2\",\"delta\":\"escalates\"," ++
    "\"why\":\"shelling\",\"cites\":[1]\x7d]").toList

set_option maxRecDepth 20000 in
/-- The citation `1e999` of one situation takes the verdict of the other. -/
theorem infinite_citation_aborts :
    ¬Isolates
      (decodingOf twoSituations [verdictItem "S1" (.float none), verdictItem "S2" (.int 1)])
      [situation "S1", situation "S2"]
      [verdictItem "S1" (.float none), verdictItem "S2" (.int 1)]
      (parseVerdicts
        (decodingOf twoSituations [verdictItem "S1" (.float none), verdictItem "S2" (.int 1)])
        twoSituations [situation "S1", situation "S2"]) := by
  rintro ⟨verdicts, dropped, hparsed, -⟩
  have hraised : parseVerdicts
      (decodingOf twoSituations [verdictItem "S1" (.float none), verdictItem "S2" (.int 1)])
      twoSituations [situation "S1", situation "S2"] = .error .overflowError := rfl
  cases hparsed

def oneSituation : Text :=
  ("[null,\x7b\"handle\":\"S1\",\"delta\":\"escalates\"," ++
    "\"why\":\"shelling\",\"cites\":[1]\x7d]").toList

set_option maxRecDepth 20000 in
theorem parseVerdicts_isolates_iff_one_situation :
    Isolates
      (decodingOf oneSituation [.null, verdictItem "S1" (.int 1)])
      [situation "S1"] [.null, verdictItem "S1" (.int 1)]
      (parseVerdicts
        (decodingOf oneSituation [.null, verdictItem "S1" (.int 1)])
        oneSituation [situation "S1"]) := by
  have hread : extractJsonArray
      (decodingOf oneSituation [.null, verdictItem "S1" (.int 1)])
      oneSituation = [.null, verdictItem "S1" (.int 1)] := rfl
  apply (parseVerdicts_isolates_iff _ _ _ _ (.inl hread)).mpr
  refine ⟨hread, ?_⟩
  rintro ⟨before, fields, after, candidate, heq, -, -, ⟨x, hx, -⟩, -⟩
  have hmem : Value.object fields ∈ [Value.null, verdictItem "S1" (.int 1)] := by
    rw [heq]
    simp
  simp only [mem_cons, reduceCtorEq, false_or, verdictItem,
    Value.object.injEq, not_mem_nil, or_false] at hmem
  subst hmem
  simp [citesIn, get?, lookup_cons] at hx

end Legba.TrackerReplies
