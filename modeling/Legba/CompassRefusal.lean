import Legba.EventMatcher

/-!
# The compass refusal

Two surfaces are opposed when they differ by a direction word and have the same
other words.  A pair of rows is refused exactly when a surface of one is opposed
to a surface of the other.
-/

namespace Legba.EventMatcher

open List

open JudgeReplies (Text isSpace strip)

variable {canon : Canon} {ta tb : List Text} {name : Text}
variable {left right : EventEvidence}

theorem any_directional_of_differs (hdiffers : differsByDirectionTokens ta tb) :
    ta.any isDirectional = true ∨ tb.any isDirectional = true := by
  unfold differsByDirectionTokens at hdiffers
  split at hdiffers
  · obtain ⟨pair, hmem, hpair⟩ := any_eq_true.mp hdiffers
    obtain ⟨hta, htb⟩ := of_mem_zip hmem
    rw [Bool.and_eq_true, Bool.or_eq_true] at hpair
    exact hpair.2.imp (fun hdirection => any_eq_true.mpr ⟨_, hta,
      hdirection⟩) fun hdirection => any_eq_true.mpr ⟨_, htb, hdirection⟩
  · by_contra hnone
    simp only [not_or, Bool.not_eq_true, any_eq_false] at hnone
    rw [filter_eq_nil_iff.mpr fun token htoken => by
        simpa using hnone.1 token htoken,
      filter_eq_nil_iff.mpr fun token htoken => by
        simpa using hnone.2 token htoken] at hdiffers
    exact absurd hdiffers (by decide)

theorem nonDirectionStem_of_blank (hblank : strip name = []) :
    nonDirectionStem canon name = [] := by
  have hwords := @Words.words_strip _ isSpace isSpace _ (fun _ => id) name
  rw [show Words.strip isSpace name = [] from hblank] at hwords
  rw [nonDirectionStem, ← hwords]
  rfl

theorem mem_nameProbes {probe : NameProbe} :
    probe ∈ (prepare canon left).nameProbes ↔
      ∃ name ∈ left.entityNames, strip name ≠ [] ∧ probeName canon name = probe := by
  simp [prepare, probeNames, and_assoc]

theorem mem_directionNames {probe : NameProbe} :
    probe ∈ (prepare canon left).directionNames ↔
      probe ∈ (prepare canon left).nameProbes ∧ probe.hasDirection = true := by
  simp [prepare]

/-- The surfaces differ by a direction word and share their other words. -/
def Opposed (canon : Canon) (a b : Text) : Prop :=
  differsByDirection canon a b = true ∧
    nonDirectionStem canon a = nonDirectionStem canon b ∧
    nonDirectionStem canon a ≠ []

theorem opposedPair_probeName {a b : Text} :
    opposedPair (probeName canon a) (probeName canon b) = true ↔ Opposed canon a b := by
  simp [opposedPair, probeName, Opposed, differsByDirection, and_assoc, and_comm]

theorem Opposed.nonblank {a b : Text} (hopposed : Opposed canon a b) :
    strip a ≠ [] ∧ strip b ≠ [] := by
  constructor
  · exact fun hblank => hopposed.2.2 (nonDirectionStem_of_blank hblank)
  · intro hblank
    exact hopposed.2.2 (hopposed.2.1.trans (nonDirectionStem_of_blank hblank))

theorem opposedCompassStem_prepare (canon : Canon) (left right : EventEvidence) :
    opposedCompassStem (prepare canon left) (prepare canon right) = true ↔
      ∃ a ∈ left.entityNames, ∃ b ∈ right.entityNames, Opposed canon a b := by
  have hnames : ∀ {a b : NameProbe}, a ∈ (prepare canon left).nameProbes →
      b ∈ (prepare canon right).nameProbes → opposedPair a b = true →
      ∃ a ∈ left.entityNames, ∃ b ∈ right.entityNames, Opposed canon a b := by
    intro first second hfirst hsecond hopposed
    obtain ⟨a, ha, -, rfl⟩ := mem_nameProbes.mp hfirst
    obtain ⟨b, hb, -, rfl⟩ := mem_nameProbes.mp hsecond
    exact ⟨a, ha, b, hb, opposedPair_probeName.mp hopposed⟩
  simp only [opposedCompassStem, Bool.or_eq_true, any_eq_true]
  constructor
  · rintro (⟨a, ha, b, hb, hopposed⟩ | ⟨a, ha, b, hb, hopposed⟩)
    · exact hnames (mem_directionNames.mp ha).1 hb hopposed
    · exact hnames ha (mem_directionNames.mp hb).1 hopposed
  · rintro ⟨a, ha, b, hb, hopposed⟩
    have hpair := opposedPair_probeName.mpr hopposed
    have hprobes := Opposed.nonblank hopposed
    have ha : probeName canon a ∈ (prepare canon left).nameProbes :=
      mem_nameProbes.mpr ⟨a, ha, hprobes.1, rfl⟩
    have hb : probeName canon b ∈ (prepare canon right).nameProbes :=
      mem_nameProbes.mpr ⟨b, hb, hprobes.2, rfl⟩
    exact (any_directional_of_differs hopposed.1).imp
      (fun hdirection => ⟨_, mem_directionNames.mpr ⟨ha, hdirection⟩, _, hb, hpair⟩)
      fun hdirection => ⟨_, ha, _, mem_directionNames.mpr ⟨hb, hdirection⟩, hpair⟩

/-- No pair of surfaces is lost by the walk over the direction names. -/
theorem opposedCompassStem_iff (canon : Canon) (left right : EventEvidence) :
    opposedCompassStem (prepare canon left) (prepare canon right) = true ↔
      ∃ a ∈ left.entityNames, ∃ b ∈ right.entityNames,
        differsByDirection canon a b = true ∧
        nonDirectionStem canon a = nonDirectionStem canon b ∧
        nonDirectionStem canon a ≠ [] :=
  opposedCompassStem_prepare canon left right

theorem refusedByDirection_iff (canon : Canon) (options : Options) (left right : EventEvidence) :
    (scorePair canon options left right).refusedByDirection = true ↔
      ∃ a ∈ left.entityNames, ∃ b ∈ right.entityNames, Opposed canon a b := by
  refine Iff.trans ?_ (opposedCompassStem_prepare canon left right)
  show ((prepare canon left).hasDirection || (prepare canon right).hasDirection) && _ ↔ _
  rw [Bool.and_eq_true, and_iff_right_of_imp]
  intro hopposed
  simp only [opposedCompassStem, Bool.or_eq_true, any_eq_true] at hopposed
  rw [Bool.or_eq_true]
  obtain ⟨a, ha, -⟩ | ⟨-, -, b, hb, -⟩ := hopposed
  · exact .inl (by simpa [prepare] using ⟨a, (mem_directionNames.mp ha)⟩)
  · exact .inr (by simpa [prepare] using ⟨b, (mem_directionNames.mp hb)⟩)

/-! ## Rows with the same evidence -/

def NoneOpposed (canon : Canon) (names : List Text) : Prop :=
  ∀ a ∈ names, ∀ b ∈ names, ¬Opposed canon a b

theorem not_refused_iff (options : Options)
    (hnames : ∀ name, name ∈ left.entityNames ↔ name ∈ right.entityNames) :
    (scorePair canon options left right).refusedByDirection = false ↔
      NoneOpposed canon left.entityNames := by
  rw [← Bool.not_eq_true, refusedByDirection_iff]
  simp only [NoneOpposed, ← hnames]
  push Not
  rfl

theorem entityOverlap_self {folds : Finset Text} (hfolds : folds ≠ ∅) :
    entityOverlap folds folds = 1 := by
  simp [entityOverlap, hfolds]

theorem titleSimilarity_self {title : Text} (htitle : title ≠ []) :
    titleSimilarity title title = 1 := by
  simp [titleSimilarity, htitle, NearDuplicate.normalizedLevenshtein]

theorem temporalProximity_self {instant : Option ℤ} (hinstant : instant ≠ none) :
    temporalProximity instant instant = 1 := by
  obtain ⟨instant, rfl⟩ := Option.ne_none_iff_exists'.mp hinstant
  simp [temporalProximity, temporalWindow]

theorem entityFolds_congr {names others : List Text}
    (hnames : ∀ name, name ∈ names ↔ name ∈ others) :
    entityFolds canon names = entityFolds canon others := by
  ext fold
  simp [entityFolds, hnames]

/-- An observation of which each feature can be compared. -/
structure Complete (canon : Canon) (row : EventEvidence) : Prop where
  title : normalizedTitle canon row.title ≠ []
  time : row.fetchedAt ≠ none
  entity : entityFolds canon row.entityNames ≠ ∅
  category : row.category ≠ []

def weightSum : ℚ :=
  weightEntity + weightTitle + weightTemporal + weightCategory

/-- The two rows share a category term, or one of the gates is open. -/
def SharedEvidence (canon : Canon) (options : Options) (left right : EventEvidence) : Prop :=
  (prepare canon left).terms ∩ (prepare canon right).terms ≠ ∅ ∨
    embeddingGate options (prepare canon left) (prepare canon right) = true ∨
    factGate options (prepare canon left) (prepare canon right) = true

theorem linked_iff (options : Options) (left right : Prepared) :
    (scorePrepared options left right).linked = true ↔
      (scorePrepared options left right).refusedByDirection = false ∧
      (options.threshold ≤ weightEntity * entityOverlap left.folds right.folds +
          weightTitle * titleSimilarity left.title right.title +
          weightTemporal * temporalProximity left.instant right.instant +
          weightCategory * categoryMatch left.terms right.terms ∨
        embeddingGate options left right = true ∨
        factGate options left right = true) := by
  simp only [scorePrepared]
  generalize ((left.hasDirection || right.hasDirection) && opposedCompassStem left right) = refused
  cases refused <;> simp [or_assoc]

/-- Rows with the same surfaces are refused exactly when two of these surfaces
are opposed.  Otherwise equal evidence links them at every threshold if the
categories, which may differ, do not leave its weight out. -/
theorem same_surfaces_iff (canon : Canon) (options : Options) (left right : EventEvidence)
    (hnames : ∀ name, name ∈ left.entityNames ↔ name ∈ right.entityNames) :
    ((scorePair canon options left right).refusedByDirection = false ↔
      NoneOpposed canon left.entityNames) ∧
    (Complete canon left → left.title = right.title →
      left.tags = right.tags → left.fetchedAt = right.fetchedAt →
      ((∀ threshold ≤ weightSum, (scorePair canon
          { options with threshold := threshold } left right).linked = true) ↔
        NoneOpposed canon left.entityNames ∧ SharedEvidence canon options left right)) := by
  refine ⟨not_refused_iff options hnames, ?_⟩
  intro hcomplete htitle _ htime
  have hfeatures :
      entityOverlap (prepare canon left).folds (prepare canon right).folds = 1 ∧
      titleSimilarity (prepare canon left).title (prepare canon right).title = 1 ∧
      temporalProximity (prepare canon left).instant (prepare canon right).instant = 1 := by
    simp only [prepare, ← htitle, ← htime, ← entityFolds_congr hnames]
    exact ⟨entityOverlap_self hcomplete.entity, titleSimilarity_self
      hcomplete.title, temporalProximity_self hcomplete.time⟩
  have hlinked : ∀ threshold : ℚ, (scorePair canon
      { options with threshold := threshold } left right).linked = true ↔
      NoneOpposed canon left.entityNames ∧
        (threshold ≤ 8 / 10 + 2 / 10 * categoryMatch
            (prepare canon left).terms (prepare canon right).terms ∨
          embeddingGate options (prepare canon left) (prepare canon right) = true ∨
          factGate options (prepare canon left) (prepare canon right) = true) := by
    intro threshold
    rw [scorePair, linked_iff, hfeatures.1, hfeatures.2.1, hfeatures.2.2]
    refine and_congr (not_refused_iff _ hnames) (or_congr_left ?_)
    norm_num [weightEntity, weightTitle, weightTemporal, weightCategory]
  simp only [hlinked]
  constructor
  · intro hall
    have hsum := hall weightSum le_rfl
    refine ⟨hsum.1, hsum.2.imp_left ?_⟩
    intro hle hempty
    norm_num [weightSum, weightEntity, weightTitle, weightTemporal,
      weightCategory, categoryMatch, hempty] at hle
  · rintro ⟨hnone, hshared⟩ threshold hle
    refine ⟨hnone, hshared.imp_left fun hterms => hle.trans ?_⟩
    norm_num [weightSum, weightEntity, weightTitle, weightTemporal,
      weightCategory, categoryMatch, hterms]

def asciiCanon : Canon where
  lower text := text.map Char.toLower
  identityFold := id
  isJunkEntity _ := false

def koreas : EventEvidence where
  id := 1
  entityNames := ["North Korea".toList, "South Korea".toList]

def seoul : EventEvidence where
  id := 2
  title := "Flood".toList
  category := "weather".toList
  fetchedAt := some 0
  entityNames := ["Seoul".toList]

theorem same_surfaces_seoul :
    (scorePair asciiCanon { threshold := weightSum } seoul seoul).linked =
      true := by
  refine ((same_surfaces_iff asciiCanon { } seoul seoul fun _ => Iff.rfl).2
    ⟨by decide +kernel, by decide +kernel, by decide +kernel,
      by decide +kernel⟩ rfl rfl rfl).mpr ⟨?_, .inl (by decide +kernel)⟩ _ le_rfl
  rintro a ha b hb ⟨hdiffers, -⟩
  rw [mem_singleton.mp ha, mem_singleton.mp hb] at hdiffers
  exact absurd hdiffers (by decide +kernel)

theorem not_forall_same_surfaces : ¬∀ (canon : Canon) (options : Options)
    (left right : EventEvidence),
    (∀ name, name ∈ left.entityNames ↔ name ∈ right.entityNames) →
    (scorePair canon options left right).refusedByDirection = false := by
  intro hall
  exact absurd (hall asciiCanon { } koreas koreas fun _ => Iff.rfl) (by decide +kernel)

end Legba.EventMatcher
