import Legba.FactWrites

/-!
# Confidence under corroboration

Five expressions combine the confidence of an open row with that of a write
which asserts its triple again.  The three of the analyst path cap the result
at 0.99, so a confidence above the cap is lowered; the two of the ingest path
take the greater of the stored and the capped value.
-/

namespace Legba.Facts

open JsonValue NoisyOr Json

/-- Python's `noisy_or_confidence`. -/
def noisyOrConfidence (existing incoming cap : ℚ) : ℚ :=
  let e := if existing < 0 then 0 else if 1 < existing then 1 else existing
  let i := if incoming < 0 then 0 else if 1 < incoming then 1 else incoming
  let combined := 1 - (1 - e) * (1 - i)
  if combined < cap then combined else cap

inductive CombinePath where
  | noisyOrConfidence
  | collapseOpenTriple
  | factUpsert
  | ingestionRefresh
  | ingestionUpsert

/-- The two statements of `_insert_ingestion_fact`. -/
def CombinePath.ofIngestion : CombinePath → Bool
  | .ingestionRefresh => true
  | .ingestionUpsert => true
  | _ => false

/-- The open row after a write which would have inserted `excluded`. -/
def CombinePath.combine (path : CombinePath) (excluded : FactRow)
    (sourceId : Option String) (now : Datetime) (row : FactRow) : FactRow :=
  match path with
  | .noisyOrConfidence =>
    { row with
      confidence := Facts.noisyOrConfidence row.confidence excluded.confidence (99 / 100) }
  | .collapseOpenTriple => collapseSet (excluded.reassertion now) row
  | .factUpsert => upsertSet excluded row now
  | .ingestionRefresh => ingestionRefreshSet (excluded.reassertion now) sourceId row
  | .ingestionUpsert => ingestionUpsertSet sourceId excluded row now

def InUnit (confidence : ℚ) : Prop :=
  0 ≤ confidence ∧ confidence ≤ 1

/-- The combination does not lower the stored confidence, and keeps it under
certainty if both sides were. -/
def OnlyRaises (path : CombinePath) (excluded : FactRow)
    (sourceId : Option String) (now : Datetime) (row : FactRow) : Prop :=
  row.confidence ≤ (path.combine excluded sourceId now row).confidence ∧
    (row.confidence < 1 → excluded.confidence < 1 →
      (path.combine excluded sourceId now row).confidence < 1)

def DistinctSources (row : FactRow) (first second : Option String) : Prop :=
  backedBy row.data first = false ∧ backedBy row.data second = false ∧
    ∀ source, first = some source → second ≠ some source

theorem noisyOrConfidence_eq {existing incoming : ℚ}
    (hexisting : InUnit existing) (hincoming : InUnit incoming) (cap : ℚ) :
    noisyOrConfidence existing incoming cap = boundedNoisyOr cap existing incoming := by
  have he : (if existing < 0 then 0 else if 1 < existing then 1
      else existing) = existing := by
    rw [if_neg (not_lt.mpr hexisting.1), if_neg (not_lt.mpr hexisting.2)]
  have hi : (if incoming < 0 then 0 else if 1 < incoming then 1
      else incoming) = incoming := by
    rw [if_neg (not_lt.mpr hincoming.1), if_neg (not_lt.mpr hincoming.2)]
  unfold noisyOrConfidence boundedNoisyOr noisyOr
  simp only [he, hi]
  cases lt_or_ge (1 - (1 - existing) * (1 - incoming)) cap with
  | inl hlt => rw [if_pos hlt, min_eq_right hlt.le]
  | inr hge => rw [if_neg (not_lt.mpr hge), min_eq_left hge]

variable {path : CombinePath} {row excluded first second : FactRow}
  {firstId secondId : Option String}

theorem confidence_of_analyst (hpath : path.ofIngestion = false) (hrow : InUnit row.confidence)
    (hexcluded : InUnit excluded.confidence) (sourceId : Option String) (now : Datetime) :
    (path.combine excluded sourceId now row).confidence =
      boundedNoisyOr (99 / 100) row.confidence excluded.confidence := by
  cases path with
  | noisyOrConfidence => exact noisyOrConfidence_eq hrow hexcluded _
  | collapseOpenTriple => rfl
  | factUpsert => rfl
  | ingestionRefresh => exact absurd hpath (by decide)
  | ingestionUpsert => exact absurd hpath (by decide)

theorem confidence_of_ingestion (hpath : path.ofIngestion)
    (row excluded : FactRow) (sourceId : Option String) (now : Datetime) :
    (path.combine excluded sourceId now row).confidence =
      ingestionConfidence sourceId excluded.confidence row := by
  cases path with
  | noisyOrConfidence => exact absurd hpath (by decide)
  | collapseOpenTriple => exact absurd hpath (by decide)
  | factUpsert => exact absurd hpath (by decide)
  | ingestionRefresh => rfl
  | ingestionUpsert => rfl

theorem floorCeiling_lt_one (confidence : ℚ) : floorCeiling confidence < 1 := by
  unfold floorCeiling
  split
  · norm_num
  · norm_num

theorem onlyRaises_of_ingestion (hpath : path.ofIngestion) (row excluded : FactRow)
    (sourceId : Option String) (now : Datetime) : OnlyRaises path excluded sourceId now row := by
  unfold OnlyRaises
  rw [confidence_of_ingestion hpath]
  unfold ingestionConfidence
  split
  · exact ⟨le_refl _, fun hrow _ => hrow⟩
  · constructor
    · exact le_max_left _ _
    · intro hrow _
      apply max_lt hrow
      exact (boundedNoisyOr_le _ _ _).trans_lt (floorCeiling_lt_one _)

theorem onlyRaises_of_analyst (hpath : path.ofIngestion = false) (hrow : InUnit row.confidence)
    (hexcluded : InUnit excluded.confidence) (sourceId : Option String) (now : Datetime) :
    OnlyRaises path excluded sourceId now row ↔ row.confidence ≤ 99 / 100 := by
  unfold OnlyRaises
  rw [confidence_of_analyst hpath hrow hexcluded, le_boundedNoisyOr hrow.2 hexcluded.1]
  apply and_iff_left
  intro _ _
  have hcap : (99 / 100 : ℚ) < 1 := by norm_num
  exact (boundedNoisyOr_le _ _ _).trans_lt hcap

/-! ## Two combinations -/

theorem hasText_appendText {ledger : Json} {first second : String}
    (hne : first ≠ second) (hmissing : hasText ledger second = false) :
    hasText (appendText ledger first) second = false := by
  cases ledger with
  | array items =>
    simp only [hasText, appendText, List.any_append, Bool.or_eq_false_iff] at hmissing ⊢
    exact ⟨hmissing, by simp [string?, hne]⟩
  | string found =>
    have hfound : found ≠ second := of_decide_eq_false hmissing
    simp [hasText, appendText, string?, hne, hfound]
  | null => simp [hasText, appendText, string?, hne]
  | bool _ => simp [hasText, appendText, string?, hne]
  | number _ _ => simp [hasText, appendText, string?, hne]
  | object _ => simp [hasText, appendText, string?, hne]

theorem backedBy_ledgerWith {first second : Option String}
    (hdistinct : DistinctSources row first second) :
    backedBy (ledgerWith row.data first) second = false := by
  obtain ⟨_, hsecond, hne⟩ := hdistinct
  cases first with
  | none => exact hsecond
  | some source =>
    cases second with
    | none => rfl
    | some other =>
      unfold ledgerWith
      dsimp only
      split
      · exact hsecond
      · have hother : source ≠ other := by
          intro heq
          exact hne source rfl (by rw [heq])
        have hledger : sourceIds (setField row.data "source_ids"
            (appendText (sourceIds row.data) source)) = appendText (sourceIds row.data) source := by
          simp [sourceIds]
        unfold backedBy
        rw [hledger]
        exact hasText_appendText hother hsecond

theorem combine_inUnit (hrow : InUnit row.confidence) (hexcluded : InUnit excluded.confidence)
    (hpath : path.ofIngestion = false) (sourceId : Option String) (now : Datetime) :
    InUnit (path.combine excluded sourceId now row).confidence := by
  have hcap : (0 : ℚ) ≤ 99 / 100 := by norm_num
  have hcapOne : (99 / 100 : ℚ) ≤ 1 := by norm_num
  rw [confidence_of_analyst hpath hrow hexcluded]
  constructor
  · exact le_min hcap (hrow.1.trans (le_noisyOr hrow.2 hexcluded.1))
  · exact (boundedNoisyOr_le _ _ _).trans hcapOne

theorem floorCeiling_of_above {confidence : ℚ} (habove : 1 / 2 < confidence) :
    floorCeiling confidence = 99 / 100 := if_neg (not_le.mpr habove)

theorem combine_comm_of_analyst (hpath : path.ofIngestion = false) (hrow : InUnit row.confidence)
    (hfirst : InUnit first.confidence) (hsecond : InUnit second.confidence)
    (firstId secondId : Option String) (now later : Datetime) :
    (path.combine second secondId later (path.combine first firstId now row)).confidence =
      (path.combine first firstId later (path.combine second secondId now row)).confidence := by
  have hcap : (99 / 100 : ℚ) ≤ 1 := by norm_num
  rw [confidence_of_analyst hpath (combine_inUnit hrow hfirst hpath firstId now) hsecond,
    confidence_of_analyst hpath (combine_inUnit hrow hsecond hpath secondId now) hfirst,
    confidence_of_analyst hpath hrow hfirst, confidence_of_analyst hpath hrow hsecond]
  exact boundedNoisyOr_right_comm hcap hrow.2 hfirst.2 hfirst.1 hsecond.2 hsecond.1

section

variable (hpath : path.ofIngestion = true)

include hpath

theorem data_of_ingestion (row excluded : FactRow) (sourceId : Option String) (now : Datetime) :
    (path.combine excluded sourceId now row).data = ledgerWith row.data sourceId := by
  cases path with
  | noisyOrConfidence => exact absurd hpath (by decide)
  | collapseOpenTriple => exact absurd hpath (by decide)
  | factUpsert => exact absurd hpath (by decide)
  | ingestionRefresh => rfl
  | ingestionUpsert => rfl

theorem ingestion_twice (hfirst : 1 / 2 < first.confidence) (hsecond : 1 / 2 < second.confidence)
    (hdistinct : DistinctSources row firstId secondId) (now later : Datetime) :
    (path.combine second secondId later (path.combine first firstId now row)).confidence =
      max (max row.confidence (boundedNoisyOr (99 / 100) row.confidence first.confidence))
        (boundedNoisyOr (99 / 100)
          (max row.confidence (boundedNoisyOr (99 / 100) row.confidence first.confidence))
          second.confidence) := by
  have hfirstNew : (path.combine first firstId now row).confidence =
      max row.confidence (boundedNoisyOr (99 / 100) row.confidence first.confidence) := by
    rw [confidence_of_ingestion hpath]
    unfold ingestionConfidence
    rw [hdistinct.1, if_neg (by simp), floorCeiling_of_above hfirst]
  rw [confidence_of_ingestion hpath]
  unfold ingestionConfidence
  rw [data_of_ingestion hpath, backedBy_ledgerWith hdistinct,
    if_neg (by simp), floorCeiling_of_above hsecond, hfirstNew]

theorem combine_comm_of_ingestion (hrow : InUnit row.confidence) (hfirst : InUnit first.confidence)
    (hsecond : InUnit second.confidence) (hfirstAbove : 1 / 2 < first.confidence)
    (hsecondAbove : 1 / 2 < second.confidence) (hdistinct : DistinctSources row firstId secondId)
    (now later : Datetime) :
    (path.combine second secondId later (path.combine first firstId now row)).confidence =
      (path.combine first firstId later (path.combine second secondId now row)).confidence := by
  have hcap : (99 / 100 : ℚ) ≤ 1 := by norm_num
  have hswapped : DistinctSources row secondId firstId := by
    refine ⟨hdistinct.2.1, hdistinct.1, ?_⟩
    intro source hsecondId hfirstId
    exact hdistinct.2.2 source hfirstId hsecondId
  rw [ingestion_twice hpath hfirstAbove hsecondAbove hdistinct,
    ingestion_twice hpath hsecondAbove hfirstAbove hswapped]
  exact max_boundedNoisyOr_right_comm hcap hrow.2 hfirst.2 hfirst.1 hsecond.2 hsecond.1

end

/-- On every path a combination of degrees of belief only raises the stored
one exactly on the ingest path or under the cap of 0.99, and two
corroborations of different new sources above the floor commute. -/
theorem corroboration_iff (path : CombinePath) (row : FactRow) (hrow : InUnit row.confidence) :
    (∀ excluded sourceId now, InUnit excluded.confidence →
      (OnlyRaises path excluded sourceId now row ↔
        path.ofIngestion = true ∨ row.confidence ≤ 99 / 100)) ∧
    ∀ first second firstId secondId now later,
      InUnit first.confidence → InUnit second.confidence →
      1 / 2 < first.confidence → 1 / 2 < second.confidence →
      DistinctSources row firstId secondId →
      (path.combine second secondId later (path.combine first firstId now row)).confidence =
        (path.combine first firstId later (path.combine second secondId now row)).confidence := by
  cases hpath : path.ofIngestion with
  | true =>
    constructor
    · intro excluded sourceId now _
      exact iff_of_true (onlyRaises_of_ingestion hpath ..) (Or.inl rfl)
    · intro first second firstId secondId now later hfirst hsecond
        hfirstAbove hsecondAbove hdistinct
      exact combine_comm_of_ingestion hpath hrow hfirst hsecond hfirstAbove
        hsecondAbove hdistinct now later
  | false =>
    constructor
    · intro excluded sourceId now hexcluded
      rw [onlyRaises_of_analyst hpath hrow hexcluded]
      simp
    · intro first second firstId secondId now later hfirst hsecond _ _ _
      exact combine_comm_of_analyst hpath hrow hfirst hsecond firstId secondId now later

def capitalRow (confidence : ℚ) : FactRow :=
  { (capitalWrite 1 "a" "agent" 1).row lowerCaseText with
    confidence := confidence }

theorem corroboration_iff_half :
    OnlyRaises .collapseOpenTriple (capitalRow (3 / 5)) none 2 (capitalRow (1 / 2)) ↔
      CombinePath.collapseOpenTriple.ofIngestion = true ∨
        (capitalRow (1 / 2)).confidence ≤ 99 / 100 := by
  have hrow : InUnit (capitalRow (1 / 2)).confidence := by
    constructor
    · norm_num [capitalRow]
    · norm_num [capitalRow]
  have hexcluded : InUnit (capitalRow (3 / 5)).confidence := by
    constructor
    · norm_num [capitalRow]
    · norm_num [capitalRow]
  exact (corroboration_iff .collapseOpenTriple (capitalRow (1 / 2)) hrow).1
    (capitalRow (3 / 5)) none 2 hexcluded

/-- Asserting a certain fact again lowers its confidence to the cap. -/
theorem certain_fact_lowered :
    (CombinePath.collapseOpenTriple.combine (capitalRow 1) none 2
        (capitalRow 1)).confidence = 99 / 100 ∧
      ¬OnlyRaises .collapseOpenTriple (capitalRow 1) none 2 (capitalRow 1) := by
  have hstored : (CombinePath.collapseOpenTriple.combine (capitalRow 1) none 2
      (capitalRow 1)).confidence = 99 / 100 := by
    norm_num [CombinePath.combine, collapseSet, FactRow.reassertion,
      capitalRow, boundedNoisyOr, noisyOr]
  constructor
  · exact hstored
  · intro hraises
    have hle := hraises.1
    rw [hstored] at hle
    norm_num [capitalRow] at hle

end Legba.Facts
