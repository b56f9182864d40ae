import Legba.MergeCompaction

/-!
# Homonyms of a merged entity

A name is not a key: profiles of different classes share one.  The sweep goes
by the loser's name, so a live profile with that name keeps its edges exactly
if the turn finds none it would change.
-/

namespace Legba.EntityGc

open KeyedTable Option Table List LabelledRun Prod

section

variable {lower : String → String} {loser keeper : String}

def ProposedEdgeRow.ends (row : ProposedEdgeRow) : String × String × String :=
  (row.sourceEntity, row.targetEntity, row.relationshipType)

def ProposedEdgeRow.standing (row : ProposedEdgeRow) : (String × String × String) × String :=
  (row.ends, row.status)

def SettledEdge (lower : String → String) (loser keeper : String)
    (edges : Table Uuid ProposedEdgeRow) (entry : Uuid × ProposedEdgeRow) :
    Prop :=
  let source := renamed lower loser keeper entry.2.sourceEntity
  let target := renamed lower loser keeper entry.2.targetEntity
  if isSelfLoop lower source target then entry.2.status = "rejected"
  else
    entry.2.status = proposedEdgeMergedStatus ∧
      (edges.selectFirst (collidesProposedEdge lower entry.1 source target
        entry.2.relationshipType)).isSome = true

variable {key : Uuid} {row : ProposedEdgeRow}
  {edges : Table Uuid ProposedEdgeRow} {entry : Uuid × ProposedEdgeRow}

theorem collides_not_names (hne : lower loser ≠ lower keeper) {id : Uuid}
    {source target relationshipType : String}
    (hcollides : collidesProposedEdge lower id (renamed lower loser keeper source)
      (renamed lower loser keeper target) relationshipType key row) :
    namesProposedEdge lower loser key row = false := by
  unfold collidesProposedEdge at hcollides
  rw [decide_eq_true_eq] at hcollides
  obtain ⟨hsource, htarget, _, _⟩ := hcollides
  have hnotSource := hasName_renamed hne source
  have hnotTarget := hasName_renamed hne target
  unfold hasName at hnotSource hnotTarget
  unfold namesProposedEdge hasName
  rw [hsource, htarget, hnotSource, hnotTarget]
  rfl

theorem repointProposedEdge_row?_of_ne (hne : lower loser ≠ lower keeper)
    (edges : Table Uuid ProposedEdgeRow) (entry : Uuid × ProposedEdgeRow) (hkey : key ≠ entry.1) :
    let after := repointProposedEdge lower loser keeper edges entry
    after.row? key = edges.row? key ∨
      ∃ row, edges.row? key = some row ∧
        namesProposedEdge lower loser key row = false ∧
        after.row? key = some (foldedOnto entry.2 row) := by
  intro after
  have hafter : after = repointProposedEdge lower loser keeper edges entry := rfl
  unfold repointProposedEdge at hafter
  dsimp only at hafter
  split at hafter
  · left
    rw [hafter]
    exact row?_update_of_ne _ hkey _
  · split at hafter
    · rename_i survivor hsurvivor
      obtain ⟨hrow, hcollides⟩ := selectFirst_eq_some hsurvivor
      rw [hafter, row?_update_of_ne _ hkey]
      by_cases hfolded : key = survivor.1
      · right
        subst hfolded
        refine ⟨survivor.2, hrow, collides_not_names hne hcollides, ?_⟩
        rw [row?_update_self, hrow, map_some]
      · left
        exact row?_update_of_ne _ hfolded _
    · left
      rw [hafter]
      exact row?_update_of_ne _ hkey _

theorem ends_foldedOnto (row survivor : ProposedEdgeRow) :
    (foldedOnto row survivor).ends = survivor.ends := rfl

theorem names_congr {other : Uuid} {next : ProposedEdgeRow} (hends : next.ends = row.ends) :
    namesProposedEdge lower loser other next = namesProposedEdge lower loser key row := by
  obtain ⟨hsource, htarget, _⟩ : next.sourceEntity = row.sourceEntity ∧
      next.targetEntity = row.targetEntity ∧
      next.relationshipType = row.relationshipType := by
    simpa [ProposedEdgeRow.ends] using hends
  unfold namesProposedEdge
  rw [hsource, htarget]

theorem later_turns (hne : lower loser ≠ lower keeper) (fetched : List (Uuid × ProposedEdgeRow))
    (hkey : key ∉ fetched.map fst) (hrow : edges.row? key = some row) :
    ∃ last,
      (fetched.foldl (repointProposedEdge lower loser keeper) edges).row? key = some last ∧
      last.ends = row.ends ∧
      (namesProposedEdge lower loser key row = true → last = row) := by
  induction fetched generalizing edges row with
  | nil => exact ⟨row, hrow, rfl, fun _ => rfl⟩
  | cons head rest ih =>
    rw [map_cons, mem_cons, not_or] at hkey
    rcases repointProposedEdge_row?_of_ne hne edges head hkey.1 with
      hsame | ⟨found, hfound, hnames, hfolded⟩
    · exact ih hkey.2 (hsame.trans hrow)
    · obtain rfl : found = row := some.inj (hfound.symm.trans hrow)
      obtain ⟨last, hlast, hends, _⟩ := ih hkey.2 hfolded
      refine ⟨last, hlast, hends.trans (ends_foldedOnto head.2 found), ?_⟩
      intro hnamed
      rw [hnames] at hnamed
      simp at hnamed

theorem own_turn (hne : lower loser ≠ lower keeper) (hrow : edges.row? entry.1 = some entry.2)
    (hnames : namesProposedEdge lower loser entry.1 entry.2) :
    ∃ next,
      (repointProposedEdge lower loser keeper edges entry).row? entry.1 = some next ∧
      (next.standing = entry.2.standing ↔ SettledEdge lower loser keeper edges entry) ∧
      (next.ends = entry.2.ends ∨ namesProposedEdge lower loser entry.1 next = false) := by
  unfold repointProposedEdge SettledEdge
  dsimp only
  split
  · rename_i hloop
    rw [row?_update_self, hrow, map_some]
    by_cases hrejected : entry.2.status = "rejected"
    · refine ⟨entry.2, ?_, ?_, .inl rfl⟩
      · rw [if_neg (not_not.mpr hrejected)]
      · exact iff_of_true rfl hrejected
    · refine ⟨{ entry.2 with status := "rejected" }, ?_, ?_, .inl rfl⟩
      · rw [if_pos hrejected]
      · constructor
        · intro hstanding
          exact (congrArg Prod.snd hstanding).symm
        · intro hstatus
          exact absurd hstatus hrejected
  · split
    · rename_i survivor hsurvivor
      obtain ⟨_, hcollides⟩ := selectFirst_eq_some hsurvivor
      have hother : entry.1 ≠ survivor.1 := by
        intro heq
        unfold collidesProposedEdge at hcollides
        rw [decide_eq_true_eq] at hcollides
        exact hcollides.2.2.2 heq.symm
      rw [row?_update_self, row?_update_of_ne _ hother, hrow, map_some]
      refine ⟨_, rfl, ?_, .inl rfl⟩
      rw [hsurvivor]
      constructor
      · intro hstanding
        exact ⟨(congrArg Prod.snd hstanding).symm, rfl⟩
      · intro hsettled
        exact Prod.ext rfl hsettled.1.symm
    · rename_i hsurvivor
      rw [row?_update_self, hrow, map_some]
      have hnot : namesProposedEdge lower loser entry.1
          { entry.2 with
            sourceEntity := renamed lower loser keeper entry.2.sourceEntity
            targetEntity := renamed lower loser keeper entry.2.targetEntity } =
          false := by
        unfold namesProposedEdge
        rw [hasName_renamed hne, hasName_renamed hne]
        rfl
      refine ⟨_, rfl, ?_, .inr hnot⟩
      rw [hsurvivor]
      constructor
      · intro hstanding
        have hends := congrArg Prod.fst hstanding
        rw [names_congr hends, hnames] at hnot
        simp at hnot
      · intro hsettled
        exact absurd hsettled.2 (by simp)

theorem selectFirst_isSome_iff {condition : Uuid → ProposedEdgeRow → Bool} :
    (edges.selectFirst condition).isSome = true ↔
      ∃ key row, edges.row? key = some row ∧ condition key row = true := by
  constructor
  · intro hsome
    obtain ⟨found, hfound⟩ := isSome_iff_exists.mp hsome
    exact ⟨found.1, found.2, selectFirst_eq_some hfound⟩
  · intro hexists
    obtain ⟨key, row, hrow, hcondition⟩ := hexists
    by_contra hnone
    rw [not_isSome_iff_eq_none] at hnone
    have hmiss := selectFirst_eq_none.mp hnone key row hrow
    exact absurd (hmiss.symm.trans hcondition) Bool.false_ne_true

theorem settledEdge_congr {after : Table Uuid ProposedEdgeRow}
    (hends : ∀ key, (after.row? key).map ProposedEdgeRow.ends = (edges.row? key).map
      ProposedEdgeRow.ends) (entry : Uuid × ProposedEdgeRow) :
    SettledEdge lower loser keeper after entry ↔ SettledEdge lower loser keeper edges entry := by
  have hselect : ∀ source target relationshipType,
      (after.selectFirst (collidesProposedEdge lower entry.1 source target
        relationshipType)).isSome = true ↔
      (edges.selectFirst (collidesProposedEdge lower entry.1 source target
        relationshipType)).isSome = true := by
    intro source target relationshipType
    have hcarry : ∀ left right : Table Uuid ProposedEdgeRow,
        (∀ key, (left.row? key).map ProposedEdgeRow.ends =
          (right.row? key).map ProposedEdgeRow.ends) →
        (∃ key row, left.row? key = some row ∧
          collidesProposedEdge lower entry.1 source target relationshipType key row = true) →
        ∃ key row, right.row? key = some row ∧
          collidesProposedEdge lower entry.1 source target relationshipType key row = true := by
      intro left right hsame hexists
      obtain ⟨key, row, hrow, hcollides⟩ := hexists
      have hkey := hsame key
      rw [hrow, map_some, eq_comm, map_eq_some_iff] at hkey
      obtain ⟨other, hother, hotherEnds⟩ := hkey
      refine ⟨key, other, hother, ?_⟩
      have hparts : other.sourceEntity = row.sourceEntity ∧
          other.targetEntity = row.targetEntity ∧
          other.relationshipType = row.relationshipType := by
        simpa [ProposedEdgeRow.ends] using hotherEnds
      unfold collidesProposedEdge at hcollides ⊢
      rw [hparts.1, hparts.2.1, hparts.2.2]
      exact hcollides
    rw [selectFirst_isSome_iff, selectFirst_isSome_iff]
    exact ⟨hcarry after edges hends, hcarry edges after fun key => (hends key).symm⟩
  unfold SettledEdge
  dsimp only
  rw [hselect]

theorem ends_of_settled (hne : lower loser ≠ lower keeper)
    (hrow : edges.row? entry.1 = some entry.2)
    (hnames : namesProposedEdge lower loser entry.1 entry.2)
    (hsettled : SettledEdge lower loser keeper edges entry) (key : Uuid) :
    ((repointProposedEdge lower loser keeper edges entry).row? key).map ProposedEdgeRow.ends =
      (edges.row? key).map ProposedEdgeRow.ends := by
  by_cases hkey : key = entry.1
  · subst hkey
    obtain ⟨next, hnext, hstanding, _⟩ := own_turn hne hrow hnames
    rw [hnext, hrow, map_some, map_some]
    exact congrArg some (congrArg fst (hstanding.mpr hsettled))
  · rcases repointProposedEdge_row?_of_ne hne edges entry hkey with
      hsame | ⟨found, hfound, _, hfolded⟩
    · rw [hsame]
    · rw [hfolded, hfound]
      rfl

def KeepsStanding (after : Table Uuid ProposedEdgeRow) (entry : Uuid × ProposedEdgeRow) : Prop :=
  (after.row? entry.1).map ProposedEdgeRow.standing = some entry.2.standing

theorem keepsStanding_iff (hne : lower loser ≠ lower keeper)
    (hrow : edges.row? entry.1 = some entry.2)
    (hnames : namesProposedEdge lower loser entry.1 entry.2)
    {rest : List (Uuid × ProposedEdgeRow)} (hrest : entry.1 ∉ rest.map fst) :
    KeepsStanding ((entry :: rest).foldl (repointProposedEdge lower loser keeper) edges) entry ↔
      SettledEdge lower loser keeper edges entry := by
  obtain ⟨next, hnext, hsettled, hends⟩ := own_turn hne hrow hnames
  obtain ⟨last, hlast, hlastEnds, hlastSame⟩ := later_turns hne rest hrest hnext
  unfold KeepsStanding
  rw [foldl_cons, hlast, map_some, some.injEq, ← hsettled]
  rcases hends with hkept | hrenamed
  · rw [hlastSame ((names_congr hkept).trans hnames)]
  · have hnot : next.ends ≠ entry.2.ends := by
      intro heq
      rw [names_congr heq, hnames] at hrenamed
      simp at hrenamed
    constructor
    · intro hstanding
      exact absurd (hlastEnds.symm.trans (congrArg fst hstanding)) hnot
    · intro hstanding
      exact absurd (congrArg fst hstanding) hnot

theorem foldl_keepsStanding_iff (hne : lower loser ≠ lower keeper)
    (fetched : List (Uuid × ProposedEdgeRow)) (hkeys : (fetched.map fst).Nodup)
    (edges : Table Uuid ProposedEdgeRow)
    (hfetched : ∀ entry ∈ fetched, edges.row? entry.1 = some entry.2 ∧
      namesProposedEdge lower loser entry.1 entry.2 = true) :
    (∀ entry ∈ fetched, KeepsStanding
        (fetched.foldl (repointProposedEdge lower loser keeper) edges)
        entry) ↔
      ∀ entry ∈ fetched, SettledEdge lower loser keeper edges entry := by
  induction fetched generalizing edges with
  | nil => simp
  | cons head rest ih =>
    rw [map_cons, nodup_cons] at hkeys
    rw [forall_mem_cons] at hfetched
    obtain ⟨⟨hrow, hnames⟩, hrest⟩ := hfetched
    have hframe : ∀ entry ∈ rest,
        (repointProposedEdge lower loser keeper edges head).row? entry.1 = some entry.2 ∧
          namesProposedEdge lower loser entry.1 entry.2 = true := by
      intro entry hentry
      have hother : entry.1 ≠ head.1 := by
        intro heq
        exact hkeys.1 (heq ▸ mem_map_of_mem hentry)
      obtain ⟨last, hlast, _, hsame⟩ := later_turns hne [head]
        (by simpa using hother) (hrest entry hentry).1
      refine ⟨?_, (hrest entry hentry).2⟩
      rw [hsame (hrest entry hentry).2] at hlast
      exact hlast
    rw [forall_mem_cons, forall_mem_cons, keepsStanding_iff hne hrow hnames hkeys.1]
    apply and_congr_right
    intro hsettled
    rw [foldl_cons, ih hkeys.2 _ hframe]
    have hends := ends_of_settled hne hrow hnames hsettled
    constructor
    · intro hall entry hentry
      exact (settledEdge_congr hends entry).mp (hall entry hentry)
    · intro hall entry hentry
      exact (settledEdge_congr hends entry).mpr (hall entry hentry)

end

/-! ## One turn -/

def Homonym (lower : String → String) (profiles : Table Uuid ProfileRow) (turn : Turn) : Prop :=
  ∃ id row, profiles.row? id = some row ∧ id ≠ turn.keeperId ∧
    row.mergedInto = none ∧ lower row.canonicalName = lower turn.loser

/-- The open nexuses, the open live facts and the candidates which carry a name
are left as they are. -/
structure KeepsEdges (lower : String → String) (name : String)
    (before after : EdgeTables) : Prop where
  nexuses : ∀ entry ∈ before.nexuses.selectMatching (namesNexus lower name),
    after.nexuses.row? entry.1 = some entry.2
  facts : ∀ entry ∈ before.facts.selectMatching (namesFact lower name),
    after.facts.row? entry.1 = some entry.2
  proposedEdges : ∀ entry ∈ before.proposedEdges.selectMatching
    (namesProposedEdge lower name), KeepsStanding after.proposedEdges entry

/-- The tables hold no edge with the loser's name which a turn would change. -/
structure NothingToMove (lower : String → String) (turn : Turn) (tables : EdgeTables) : Prop where
  nexuses : ∀ key row, tables.nexuses.row? key = some row →
    namesNexus lower turn.loser key row = false
  facts : ∀ key row, tables.facts.row? key = some row → namesFact lower turn.loser key row = false
  proposedEdges : ∀ entry ∈ tables.proposedEdges.selectMatching
    (namesProposedEdge lower turn.loser),
    SettledEdge lower turn.loser turn.keeper tables.proposedEdges entry

variable {lower : String → String} {loser keeper : String}

theorem repointNexuses_keeps_iff (now : Datetime)
    (hne : lower loser ≠ lower keeper) (nexuses : Table Uuid NexusRow) :
    (∀ entry ∈ nexuses.selectMatching (namesNexus lower loser),
        (repointNexuses lower now loser keeper nexuses).1.row? entry.1 = some entry.2) ↔
      ∀ key row, nexuses.row? key = some row → namesNexus lower loser key row = false := by
  have hchange : ∀ entry ∈ nexuses.selectMatching (namesNexus lower loser),
      (repointNexus lower now loser keeper nexuses entry).row? entry.1 ≠ some entry.2 := by
    intro entry hentry
    have hfetched := mem_selectMatching.mp hentry
    exact repointNexus_changes hne hfetched.1 hfetched.2
  rw [← selectMatching_eq_nil]
  exact foldl_keeps_iff_nil repointNexus_row?_of_ne (nodup_selectMatching_keys nexuses _) hchange

theorem repointFacts_keeps_iff (now : Datetime)
    (hne : lower loser ≠ lower keeper) (facts : Table Uuid FactRow) :
    (∀ entry ∈ facts.selectMatching (namesFact lower loser),
        (repointFacts lower now loser keeper facts).1.row? entry.1 = some entry.2) ↔
      ∀ key row, facts.row? key = some row → namesFact lower loser key row = false := by
  have hchange : ∀ entry ∈ facts.selectMatching (namesFact lower loser),
      (repointFact lower now keeper facts entry).row? entry.1 ≠ some entry.2 := by
    intro entry hentry
    have hfetched := mem_selectMatching.mp hentry
    exact repointFact_changes hne hfetched.1 hfetched.2
  rw [← selectMatching_eq_nil]
  exact foldl_keeps_iff_nil repointFact_row?_of_ne (nodup_selectMatching_keys facts _) hchange

theorem repointProposedEdges_keeps_iff (hne : lower loser ≠ lower keeper)
    (edges : Table Uuid ProposedEdgeRow) :
    (∀ entry ∈ edges.selectMatching (namesProposedEdge lower loser),
        KeepsStanding (repointProposedEdges lower loser keeper edges).1 entry) ↔
      ∀ entry ∈ edges.selectMatching (namesProposedEdge lower loser),
        SettledEdge lower loser keeper edges entry :=
  foldl_keepsStanding_iff hne _ (nodup_selectMatching_keys edges _)
    edges fun _ hentry => mem_selectMatching.mp hentry

theorem keepsEdges_of_same {name : String} {before after : EdgeTables}
    (hnexuses : after.nexuses = before.nexuses) (hfacts : after.facts = before.facts)
    (hedges : after.proposedEdges = before.proposedEdges) : KeepsEdges lower name before after := by
  constructor
  · intro entry hentry
    rw [hnexuses]
    exact (mem_selectMatching.mp hentry).1
  · intro entry hentry
    rw [hfacts]
    exact (mem_selectMatching.mp hentry).1
  · intro entry hentry
    unfold KeepsStanding
    rw [hedges, (mem_selectMatching.mp hentry).1]
    rfl

theorem compactOne_keepsEdges_iff (lower : String → String) (sweep : Sweep)
    (tables : EdgeTables) (turn : Turn) :
    KeepsEdges lower turn.loser tables (compactOne lower sweep tables turn).1 ↔
      sweep.fails turn.id = true ∨ turn.moves lower = false ∨ NothingToMove lower turn tables := by
  unfold compactOne
  by_cases hfails : sweep.fails turn.id = true
  · rw [if_pos hfails]
    exact iff_of_true (keepsEdges_of_same rfl rfl rfl) (.inl hfails)
  · rw [if_neg hfails]
    by_cases hmoves : turn.moves lower = true
    · have hne : lower turn.loser ≠ lower turn.keeper := by
        have hparts := hmoves
        unfold Turn.moves at hparts
        rw [decide_eq_true_eq] at hparts
        exact hparts.2.2
      have hnexuses := repointNexuses_keeps_iff sweep.now hne tables.nexuses
      have hfacts := repointFacts_keeps_iff sweep.now hne tables.facts
      have hedges := repointProposedEdges_keeps_iff hne tables.proposedEdges
      rw [if_pos hmoves]
      constructor
      · intro hkeeps
        exact .inr (.inr ⟨hnexuses.mp hkeeps.nexuses,
          hfacts.mp hkeeps.facts, hedges.mp hkeeps.proposedEdges⟩)
      · intro hcondition
        rcases hcondition with hfailed | hstill | hnothing
        · exact absurd hfailed hfails
        · exact absurd (hmoves.symm.trans hstill) (by simp)
        · exact ⟨hnexuses.mpr hnothing.nexuses, hfacts.mpr hnothing.facts,
            hedges.mpr hnothing.proposedEdges⟩
    · dsimp only
      rw [if_neg hmoves]
      exact iff_of_true (keepsEdges_of_same rfl rfl rfl) (.inr (.inl (by simpa using hmoves)))

def KeepsHomonyms (lower : String → String) (before : EdgeTables)
    (turn : Turn) (after : EdgeTables) : Prop :=
  Homonym lower before.profiles turn → KeepsEdges lower turn.loser before after

def SparesHomonyms (lower : String → String) (sweep : Sweep)
    (before : EdgeTables) (turn : Turn) (_ : EdgeTables) : Prop :=
  Homonym lower before.profiles turn →
    sweep.fails turn.id = true ∨ turn.moves lower = false ∨ NothingToMove lower turn before

theorem compactMergedEdges_run (lower : String → String) (sweep : Sweep) (tables : EdgeTables) :
    run (compactStep lower sweep) tables (dueTurns tables.profiles sweep) =
      some (compactMergedEdges lower sweep tables).1 := by
  have hfold : ∀ (turns : List Turn) (done : EdgeTables × ℕ),
      run (compactStep lower sweep) done.1 turns =
        some (turns.foldl
          (fun done turn =>
            let next := compactOne lower sweep done.1 turn
            (next.1, done.2 + next.2)) done).1 := by
    intro turns
    induction turns with
    | nil => exact fun _ => rfl
    | cons turn rest ih =>
      intro done
      have hrest := ih (let next := compactOne lower sweep done.1 turn
        (next.1, done.2 + next.2))
      rw [foldl_cons, ← hrest]
      rfl
  exact hfold _ (tables, 0)

/-- A compaction leaves the edges of every homonym of a loser as they are
exactly if each of its turns, where the loser has a homonym, finds nothing to
move. -/
theorem compaction_keepsHomonyms_iff (lower : String → String)
    (sweep : Sweep) (tables : EdgeTables) :
    LabelledRun.StepsSatisfy (compactStep lower sweep)
        (KeepsHomonyms lower) tables (dueTurns tables.profiles sweep) ↔
      LabelledRun.StepsSatisfy (compactStep lower sweep)
        (SparesHomonyms lower sweep) tables
        (dueTurns tables.profiles sweep) := by
  have hexact : ∀ before turn after,
      compactStep lower sweep before turn = some after →
      (KeepsHomonyms lower before turn after ↔ SparesHomonyms lower sweep before turn after) := by
    intro before turn after hstep
    obtain rfl := some.inj hstep
    unfold KeepsHomonyms SparesHomonyms
    rw [compactOne_keepsEdges_iff]
  refine stepsSatisfy_iff_of_invariant (?_ : ∀ _ _ _, True → _ → True → _ → True) ?_
    trivial (stepsSatisfy_of_forall (fun _ _ _ _ => trivial) tables _)
  · exact fun _ _ _ _ _ _ _ => trivial
  · exact fun before turn after _ hstep _ => hexact before turn after hstep

def NamesUnique (lower : String → String) (profiles : Table Uuid ProfileRow) : Prop :=
  ∀ left right leftRow rightRow,
    profiles.row? left = some leftRow → profiles.row? right = some rightRow →
    lower leftRow.canonicalName = lower rightRow.canonicalName →
    leftRow.entityClass = rightRow.entityClass → left = right

/-- A person, merged into another one, and a country of the same name.  The
names are in lower case, so folding leaves them as they are. -/
def jordans : Table Uuid ProfileRow :=
  ((Table.empty.put 1 ⟨"jordan", "person", some 2, none⟩).put 2
    ⟨"michael jordan", "person", none, none⟩).put 3 ⟨"jordan", "country", none, none⟩

def jordanBorders : EdgeTables where
  profiles := jordans
  nexuses := Table.empty.put 10 ⟨"jordan", "syria", none, "borders", none, none⟩
  facts := Table.empty
  proposedEdges := Table.empty

def jordanSweep : Sweep where
  now := 0
  readOrder := [1, 2, 3]
  batchLimit := 200
  fails := fun _ => false

theorem jordans_row? {id : Uuid} {row : ProfileRow} (hrow : jordans.row? id = some row) :
    id = 1 ∧ row = ⟨"jordan", "person", some 2, none⟩ ∨
      id = 2 ∧ row = ⟨"michael jordan", "person", none, none⟩ ∨
      id = 3 ∧ row = ⟨"jordan", "country", none, none⟩ := by
  unfold jordans at hrow
  rw [row?_put_eq_some, row?_put_eq_some, row?_put_eq_some, row?_empty] at hrow
  rcases hrow with hthree | ⟨_, htwo | ⟨_, hone | ⟨_, hnone⟩⟩⟩
  · exact .inr (.inr hthree)
  · exact .inr (.inl htwo)
  · exact .inl hone
  · simp at hnone

theorem jordans_namesUnique : NamesUnique id jordans := by
  intro left right leftRow rightRow hleft hright hname hclass
  rcases jordans_row? hleft with ⟨rfl, rfl⟩ | ⟨rfl, rfl⟩ | ⟨rfl, rfl⟩ <;> rcases
    jordans_row? hright with ⟨rfl, rfl⟩ | ⟨rfl, rfl⟩ | ⟨rfl, rfl⟩ <;> simp_all

theorem country_loses_border :
    NamesUnique id jordanBorders.profiles ∧
      ¬LabelledRun.StepsSatisfy (compactStep id jordanSweep)
        (KeepsHomonyms id) jordanBorders
        (dueTurns jordanBorders.profiles jordanSweep) := by
  refine ⟨jordans_namesUnique, ?_⟩
  intro hkeeps
  have hhomonym : Homonym id jordans ⟨1, "jordan", 2, "michael jordan"⟩ :=
    ⟨3, ⟨"jordan", "country", none, none⟩, by decide, by decide, rfl, rfl⟩
  have hborder := (hkeeps.1 hhomonym).nexuses
    (10, ⟨"jordan", "syria", none, "borders", none, none⟩)
    (mem_selectMatching.mpr ⟨by decide, by decide⟩)
  exact absurd hborder (by decide +kernel)

end Legba.EntityGc
