import Legba.NexusEdgeWrites

/-!
# Whether the edges mirror the nexuses

The nexuses are keyed by the texts of their names, the edges by the entities
these resolve to.  Two spellings of one entity, or two intermediaries which
resolve to none, are two nexuses and one edge.  A write which turns the sign
of the edge closes it for both, and the other nexus stays open without one.
-/

namespace Legba.Nexus

open KeyedTable LabelledRun Option Table

/-- What an open edge says: the index column of its intermediary, and its
polarity. -/
structure EdgeView where
  srcId : Uuid
  dstId : Uuid
  via : Uuid
  edgeType : String
  polarity : Polarity
  deriving DecidableEq

def EdgeRow.view (row : EdgeRow) : EdgeView where
  srcId := row.srcId
  dstId := row.dstId
  via := row.intermediaryId.getD nilUuid
  edgeType := row.edgeType
  polarity := row.polarity

def openEdge? (edges : Table Uuid EdgeRow) (key : Uuid) : Option EdgeView :=
  (edges.row? key).bind fun row => if row.isOpen then some row.view else none

structure NexusView where
  subject : String
  object : String
  relType : String
  polarity : Polarity
  deriving DecidableEq

def NexusRow.view (row : NexusRow) : NexusView where
  subject := row.subject
  object := row.object
  relType := row.relType
  polarity := row.polarity

def openNexus? (nexuses : Table Uuid NexusRow) (key : Uuid) : Option NexusView :=
  (nexuses.row? key).bind fun row => if row.isOpen then some row.view else none

variable {edges next : Table Uuid EdgeRow} {key id landed : Uuid}
  {view : NexusView} {nexuses : Table Uuid NexusRow} {incoming row : EdgeRow}
  {now : Datetime} {w : NexusWrite} {store : Store}

theorem openEdge?_eq_some {view : EdgeView} :
    openEdge? edges key = some view ↔
      ∃ row, edges.row? key = some row ∧ row.isOpen = true ∧ row.view = view := by
  simp [openEdge?, bind_eq_some_iff]

theorem openNexus?_eq_some :
    openNexus? nexuses key = some view ↔
      ∃ row, nexuses.row? key = some row ∧ row.isOpen = true ∧ row.view = view := by
  simp [openNexus?, bind_eq_some_iff]

theorem openEdge?_of_row (hrow : next.row? key = edges.row? key) :
    openEdge? next key = openEdge? edges key := by
  unfold openEdge?
  rw [hrow]

section

variable (text : TextFns) (terminals : String → List Uuid)

def EdgeView.clashes (incoming view : EdgeView) : Bool :=
  decide (view.srcId = incoming.srcId) &&
    decide (view.dstId = incoming.dstId) &&
    decide (view.via = incoming.via) &&
    decide (text.lower view.edgeType = text.lower incoming.edgeType) &&
    decide (view.polarity ≠ incoming.polarity)

def EdgeView.Carries (edge : EdgeView) (nexus : NexusView) : Prop :=
  resolvedEntity? text terminals nexus.subject = some edge.srcId ∧
    resolvedEntity? text terminals nexus.object = some edge.dstId ∧
    text.lower edge.edgeType = text.lower nexus.relType ∧
    edge.polarity = nexus.polarity

def NexusView.HasEnds (nexus : NexusView) : Prop :=
  ∃ src dst, resolvedEntity? text terminals nexus.subject = some src ∧
    resolvedEntity? text terminals nexus.object = some dst ∧ src ≠ dst

def Linked (edges : Table Uuid EdgeRow) : Prop :=
  ∀ key row target, edges.row? key = some row →
    row.supersededBy = some target → (edges.row? target).isSome = true

structure MirrorAgrees (store : Store) : Prop where
  carried : ∀ key nexus, openNexus? store.nexuses key = some nexus →
    nexus.HasEnds text terminals →
    ∃ edgeKey edge, openEdge? store.edges edgeKey = some edge ∧ edge.Carries text terminals nexus
  oneOpen : ∀ key other edge twin, openEdge? store.edges key = some edge →
    openEdge? store.edges other = some twin → edge.srcId = twin.srcId →
    edge.dstId = twin.dstId → edge.edgeType = twin.edgeType →
    edge.via = twin.via → key = other
  linked : Linked store.edges

end

variable {text : TextFns} {terminals : String → List Uuid}

/-! ## Closing, upserting and linking edges -/

theorem clashes_iff {incoming view : EdgeView} :
    incoming.clashes text view = true ↔
      view.srcId = incoming.srcId ∧ view.dstId = incoming.dstId ∧
        view.via = incoming.via ∧
        text.lower view.edgeType = text.lower incoming.edgeType ∧
        view.polarity ≠ incoming.polarity := by
  simp [EdgeView.clashes, and_assoc]

theorem closesEdge_iff :
    closesEdge text incoming key row = true ↔
      row.isOpen = true ∧ incoming.view.clashes text row.view = true := by
  unfold closesEdge EdgeView.clashes EdgeRow.view
  rw [Bool.and_eq_true, and_comm]

theorem isOpen_closed (now : Datetime) (row : EdgeRow) :
    EdgeRow.isOpen { row with validUntil := some now } = false := rfl

theorem openEdge?_close (now : Datetime) (incoming : EdgeRow)
    (edges : Table Uuid EdgeRow) (key : Uuid) :
    openEdge? (closePriorEntityEdges text now incoming edges).1 key =
      (openEdge? edges key).filter fun view =>
        !incoming.view.clashes text view := by
  have hafter : (closePriorEntityEdges text now incoming edges).1.row? key =
      (edges.row? key).map fun row =>
        if closesEdge text incoming key row then
          { row with validUntil := some now }
        else row := rfl
  unfold openEdge?
  rw [hafter]
  cases edges.row? key with
  | none => rfl
  | some row =>
    by_cases hopen : row.isOpen = true
    · by_cases hclash : incoming.view.clashes text row.view = true
      · have hcloses := (closesEdge_iff.mpr ⟨hopen, hclash⟩ :
          closesEdge text incoming key row = true)
        simp [hcloses, hopen, hclash, isOpen_closed, Option.filter]
      · have hkept : ¬closesEdge text incoming key row = true :=
          fun hcloses => hclash (closesEdge_iff.mp hcloses).2
        simp [hkept, hopen, hclash, Option.filter]
    · have hkept : ¬closesEdge text incoming key row = true :=
        fun hcloses => hopen (closesEdge_iff.mp hcloses).1
      simp [hkept, hopen]

theorem edgeConflicts_iff :
    edgeConflicts incoming key row = true ↔
      incoming.isOpen = true ∧ row.isOpen = true ∧
        row.srcId = incoming.srcId ∧ row.dstId = incoming.dstId ∧
        row.edgeType = incoming.edgeType ∧
        row.view.via = incoming.view.via := by
  simp [edgeConflicts, EdgeRow.view, and_assoc]

theorem refreshEdge_view (excluded row : EdgeRow) :
    (refreshEdge excluded row).view = row.view := rfl

theorem refreshEdge_isOpen {excluded : EdgeRow} (hexcluded : excluded.isOpen)
    (row : EdgeRow) : (refreshEdge excluded row).isOpen = row.isOpen := by
  have hend : excluded.validUntil = none := by
    simp only [EdgeRow.isOpen, Bool.and_eq_true, isNone_iff_eq_none] at hexcluded
    exact hexcluded.1
  simp [refreshEdge, EdgeRow.isOpen, coalesce, hend]

theorem upsertEdge_cases (hupsert : upsertEdge id row edges = some (next, landed)) :
    (∃ found, edges.row? landed = some found ∧
        edgeConflicts row landed found = true ∧
        next = edges.update landed (refreshEdge row)) ∨
      landed = id ∧ edges.row? id = none ∧ next = edges.put id row ∧
        ∀ key other, edges.row? key = some other → edgeConflicts row key other = false := by
  unfold upsertEdge at hupsert
  cases hselect : edges.selectFirst (edgeConflicts row) with
  | some found =>
    simp only [hselect, some.injEq, Prod.mk.injEq] at hupsert
    obtain ⟨rfl, rfl⟩ := hupsert
    have hfound := selectFirst_eq_some hselect
    exact .inl ⟨found.2, hfound.1, hfound.2, rfl⟩
  | none =>
    simp only [hselect] at hupsert
    have hid : edges.row? id = none := by
      by_contra hused
      simp [hused] at hupsert
    simp only [hid, isSome_none, Bool.false_eq_true, if_false, some.injEq, Prod.mk.injEq] at hupsert
    obtain ⟨rfl, rfl⟩ := hupsert
    exact .inr ⟨rfl, hid, rfl, selectFirst_eq_none.mp hselect⟩

theorem openEdge?_update_refresh {found : EdgeRow} (hopen : row.isOpen)
    (hfound : edges.row? landed = some found) (key : Uuid) :
    openEdge? (edges.update landed (refreshEdge row)) key = openEdge? edges key := by
  by_cases hkey : key = landed
  · subst hkey
    simp [openEdge?, hfound, refreshEdge_isOpen hopen, refreshEdge_view]
  · exact openEdge?_of_row (row?_update_of_ne _ hkey _)

theorem openEdge?_put (hopen : row.isOpen) (id : Uuid) (edges : Table Uuid EdgeRow) (key : Uuid) :
    openEdge? (edges.put id row) key =
      if key = id then some row.view else openEdge? edges key := by
  by_cases hkey : key = id
  · subst hkey
    simp [openEdge?, hopen]
  · rw [if_neg hkey]
    exact openEdge?_of_row (row?_put_of_ne _ hkey _)

theorem openEdge?_link {closed : List Uuid}
    (hclosed : ∀ key ∈ closed, key ≠ landed → openEdge? edges key = none) (key : Uuid) :
    openEdge? (linkEdges closed landed edges) key = openEdge? edges key := by
  by_cases hlinks : key ∈ closed ∧ key ≠ landed
  · rw [hclosed key hlinks.1 hlinks.2]
    unfold openEdge? linkEdges
    cases hrow : edges.row? key with
    | none => simp [hrow]
    | some row => simp [hrow, hlinks.1, hlinks.2, EdgeRow.isOpen]
  · have hskip : (decide (key ∈ closed) && decide (key ≠ landed)) = false := by simpa using hlinks
    apply openEdge?_of_row
    unfold linkEdges
    rw [row?_updateMatching]
    simp only [hskip, Bool.false_eq_true, if_false, map_id']

/-! ## The edges after a write -/

theorem mem_closed :
    key ∈ (closePriorEntityEdges text now incoming edges).2 ↔
      ∃ row, edges.row? key = some row ∧ closesEdge text incoming key row = true := by
  unfold closePriorEntityEdges
  rw [List.mem_map]
  constructor
  · rintro ⟨⟨found, row⟩, hmem, rfl⟩
    exact ⟨row, mem_selectMatching.mp hmem⟩
  · rintro ⟨row, hrow⟩
    exact ⟨(key, row), mem_selectMatching.mpr hrow, rfl⟩

theorem closed_not_open (hkey : key ∈ (closePriorEntityEdges text now incoming edges).2) :
    openEdge? (closePriorEntityEdges text now incoming edges).1 key = none := by
  obtain ⟨row, hrow, hcloses⟩ := mem_closed.mp hkey
  obtain ⟨hopen, hclash⟩ := closesEdge_iff.mp hcloses
  have hview : openEdge? edges key = some row.view := openEdge?_eq_some.mpr ⟨row, hrow, hopen, rfl⟩
  rw [openEdge?_close, hview]
  simp [Option.filter, hclash]

theorem mirrorEdge_eq_some :
    mirrorEdge text now id row edges = some next ↔
      ∃ upserted landed,
        upsertEdge id row (closePriorEntityEdges text now row edges).1 = some (upserted, landed) ∧
        next = linkEdges (closePriorEntityEdges text now row edges).2 landed
          upserted := by
  unfold mirrorEdge
  simp only [bind_eq_bind, bind_eq_some_iff, pure_def, some.injEq, Prod.exists]
  constructor
  · rintro ⟨upserted, landed, hupsert, rfl⟩
    exact ⟨upserted, landed, hupsert, rfl⟩
  · rintro ⟨upserted, landed, hupsert, rfl⟩
    exact ⟨upserted, landed, hupsert, rfl⟩

theorem view_eq_of_conflict (hconflict : edgeConflicts incoming key row)
    (hkept : incoming.view.clashes text row.view = false) : row.view = incoming.view := by
  obtain ⟨_, _, hsrc, hdst, htype, hvia⟩ := edgeConflicts_iff.mp hconflict
  have hpolarity : row.polarity = incoming.polarity := by
    by_contra hne
    have hclash : incoming.view.clashes text row.view :=
      clashes_iff.mpr ⟨hsrc, hdst, hvia, congrArg text.lower htype, hne⟩
    rw [hkept] at hclash
    exact Bool.noConfusion hclash
  unfold EdgeRow.view at hvia ⊢
  simp only [EdgeView.mk.injEq]
  exact ⟨hsrc, hdst, hvia, htype, hpolarity⟩

theorem openEdge?_refreshed {found : EdgeRow} (hopen : row.isOpen)
    (hfound : (closePriorEntityEdges text now row edges).1.row? landed = some found)
    (hconflict : edgeConflicts row landed found) :
    openEdge? edges landed = some row.view ∧
      ∀ key, openEdge?
          (linkEdges (closePriorEntityEdges text now row edges).2 landed
            ((closePriorEntityEdges text now row edges).1.update landed
              (refreshEdge row))) key =
        if key = landed then some row.view
        else (openEdge? edges key).filter fun view =>
          !row.view.clashes text view := by
  have hfoundOpen := (edgeConflicts_iff.mp hconflict).2.1
  have hheld : (openEdge? edges landed).filter (fun view =>
      !row.view.clashes text view) = some found.view := by
    rw [← openEdge?_close now]
    exact openEdge?_eq_some.mpr ⟨found, hfound, hfoundOpen, rfl⟩
  obtain ⟨hbefore, hkept⟩ := filter_eq_some_iff.mp hheld
  have hsame : found.view = row.view := view_eq_of_conflict hconflict (by simpa using hkept)
  rw [hsame] at hbefore hheld
  refine ⟨hbefore, ?_⟩
  intro key
  rw [openEdge?_link, openEdge?_update_refresh hopen hfound, openEdge?_close]
  · by_cases hkey : key = landed
    · subst hkey
      rw [if_pos rfl, hheld]
    · rw [if_neg hkey]
  · intro key hkey _
    rw [openEdge?_update_refresh hopen hfound, closed_not_open hkey]

theorem clashes_of_noConflict (hopen : row.isOpen)
    (hnoConflict : ∀ key other, (closePriorEntityEdges text now row edges).1.row?
      key = some other → edgeConflicts row key other = false) {view : EdgeView}
    (hview : openEdge? edges key = some view) (hsrc : view.srcId = row.srcId)
    (hdst : view.dstId = row.dstId) (htype : view.edgeType = row.edgeType)
    (hvia : view.via = row.view.via) : row.view.clashes text view := by
  by_contra hclash
  have hafter : openEdge? (closePriorEntityEdges text now row edges).1 key = some view := by
    rw [openEdge?_close, hview]
    simp [Option.filter, hclash]
  obtain ⟨other, hother, hotherOpen, rfl⟩ := openEdge?_eq_some.mp hafter
  have hconflict : edgeConflicts row key other :=
    edgeConflicts_iff.mpr ⟨hopen, hotherOpen, hsrc, hdst, htype, hvia⟩
  rw [hnoConflict key other hother] at hconflict
  exact Bool.noConfusion hconflict

theorem openEdge?_mirrorEdge (hopen : row.isOpen)
    (hmirror : mirrorEdge text now id row edges = some next) :
    ∃ landed, (openEdge? edges landed = none ∨ openEdge? edges landed = some row.view) ∧
      (openEdge? edges landed = none →
        ∀ key view, openEdge? edges key = some view →
          view.srcId = row.srcId → view.dstId = row.dstId →
          view.edgeType = row.edgeType → view.via = row.view.via →
          row.view.clashes text view = true) ∧
      ∀ key, openEdge? next key =
        if key = landed then some row.view
        else (openEdge? edges key).filter fun view =>
          !row.view.clashes text view := by
  obtain ⟨upserted, landed, hupsert, rfl⟩ := mirrorEdge_eq_some.mp hmirror
  refine ⟨landed, ?_⟩
  cases upsertEdge_cases hupsert with
  | inl hfold =>
    obtain ⟨found, hfound, hconflict, rfl⟩ := hfold
    obtain ⟨hbefore, hafter⟩ := openEdge?_refreshed hopen hfound hconflict
    refine ⟨.inr hbefore, ?_, hafter⟩
    intro hnone
    rw [hbefore] at hnone
    simp at hnone
  | inr hnew =>
    obtain ⟨rfl, hfresh, rfl, hnoConflict⟩ := hnew
    have hfree : openEdge? edges landed = none := by
      have hrow : edges.row? landed = none := by simpa [closePriorEntityEdges] using hfresh
      simp [openEdge?, hrow]
    refine ⟨.inl hfree, ?_, ?_⟩
    · intro _ key view hview hsrc hdst htype hvia
      exact clashes_of_noConflict hopen hnoConflict hview hsrc hdst htype hvia
    · intro key
      rw [openEdge?_link, openEdge?_put hopen, openEdge?_close]
      intro key hkey hne
      rw [openEdge?_put hopen, if_neg hne, closed_not_open hkey]

theorem mirrorEdge_own (hopen : row.isOpen)
    (hone : ∀ key other edge twin, openEdge? edges key = some edge → openEdge? edges other = some
      twin → edge.srcId = twin.srcId → edge.dstId = twin.dstId → edge.edgeType = twin.edgeType →
      edge.via = twin.via → key = other) (hmirror : mirrorEdge text now id row edges = some next) :
    ∃ landed, openEdge? next landed = some row.view ∧
      (∀ key view, key ≠ landed → openEdge? next key = some view →
        openEdge? edges key = some view) ∧
      ∀ key view, openEdge? next key = some view → view.srcId = row.srcId →
        view.dstId = row.dstId → view.edgeType = row.edgeType →
        view.via = row.view.via → key = landed := by
  obtain ⟨landed, hlanded, hclashing, hedges⟩ := openEdge?_mirrorEdge hopen hmirror
  have hbefore : ∀ key view, key ≠ landed →
      openEdge? next key = some view →
      openEdge? edges key = some view ∧ row.view.clashes text view = false := by
    intro key view hkey hview
    rw [hedges, if_neg hkey] at hview
    simpa using filter_eq_some_iff.mp hview
  refine ⟨landed, ?_, ?_, ?_⟩
  · rw [hedges, if_pos rfl]
  · exact fun key view hkey hview => (hbefore key view hkey hview).1
  · intro key view hview hsrc hdst htype hvia
    by_contra hkey
    obtain ⟨hold, hkept⟩ := hbefore key view hkey hview
    cases hlanded with
    | inl hfree =>
      have hclash := hclashing hfree key view hold hsrc hdst htype hvia
      rw [hkept] at hclash
      exact Bool.noConfusion hclash
    | inr hsame => exact hkey (hone key landed view _ hold hsame hsrc hdst htype hvia)

section

variable (hlinked : Linked edges)

include hlinked

theorem Linked.close (now : Datetime) (incoming : EdgeRow) :
    Linked (closePriorEntityEdges text now incoming edges).1 := by
  intro key row target hrow htarget
  obtain ⟨before, hbefore, rfl⟩ := map_eq_some_iff.mp hrow
  have hpointer : before.supersededBy = some target := by
    by_cases hcloses : closesEdge text incoming key before = true
    · simpa [hcloses] using htarget
    · simpa [hcloses] using htarget
  have hold := hlinked key before target hbefore hpointer
  simpa [closePriorEntityEdges] using hold

theorem Linked.upsert (hopen : row.isOpen)
    (hupsert : upsertEdge id row edges = some (next, landed)) :
    Linked next ∧ (next.row? landed).isSome = true := by
  cases upsertEdge_cases hupsert with
  | inl hfold =>
    obtain ⟨found, hfound, _, rfl⟩ := hfold
    constructor
    · intro key after target hrow htarget
      have hrows : ∀ key, ((edges.update landed (refreshEdge row)).row?
          key).isSome = (edges.row? key).isSome := by
        intro key
        by_cases hkey : key = landed
        · subst hkey
          simp [hfound]
        · rw [row?_update_of_ne _ hkey]
      rw [hrows]
      by_cases hkey : key = landed
      · subst hkey
        rw [row?_update_self, hfound, map_some, some.injEq] at hrow
        subst hrow
        exact hlinked key found target hfound htarget
      · rw [row?_update_of_ne _ hkey] at hrow
        exact hlinked key after target hrow htarget
    · simp [hfound]
  | inr hnew =>
    obtain ⟨rfl, _, rfl, _⟩ := hnew
    constructor
    · intro key after target hrow htarget
      cases row?_put_eq_some.mp hrow with
      | inl hown =>
        obtain ⟨_, rfl⟩ := hown
        simp [EdgeRow.isOpen, htarget] at hopen
      | inr hold =>
        have htargetRow := hlinked key after target hold.2 htarget
        by_cases htargetKey : target = landed
        · subst htargetKey
          simp
        · rwa [row?_put_of_ne _ htargetKey]
    · simp

theorem Linked.link (closed : List Uuid) (hlanded : (edges.row? landed).isSome) :
    Linked (linkEdges closed landed edges) := by
  intro key row target hrow htarget
  obtain ⟨before, hbefore, rfl⟩ := map_eq_some_iff.mp hrow
  have hrows : ((linkEdges closed landed edges).row? target).isSome =
      (edges.row? target).isSome := by
    unfold linkEdges
    rw [row?_updateMatching, isSome_map]
  rw [hrows]
  by_cases hlinks : (decide (key ∈ closed) && decide (key ≠ landed)) = true
  · rw [if_pos hlinks] at htarget
    obtain rfl : landed = target := some.inj htarget
    exact hlanded
  · rw [if_neg hlinks] at htarget
    exact hlinked key before target hbefore htarget

theorem Linked.mirrorEdge (hopen : row.isOpen)
    (hmirror : mirrorEdge text now id row edges = some next) : Linked next := by
  obtain ⟨upserted, landed, hupsert, rfl⟩ := mirrorEdge_eq_some.mp hmirror
  obtain ⟨hupserted, hlanded⟩ := (hlinked.close now row).upsert hopen hupsert
  exact hupserted.link _ hlanded

end

def survivingNexus? (text : TextFns) (w : NexusWrite)
    (nexuses : Table Uuid NexusRow) (key : Uuid) : Option NexusView :=
  (nexuses.row? key).bind fun row =>
    if row.isOpen && !supersedes text (w.row text) w.rowId key row then
      some row.view
    else none

theorem survivingNexus?_eq_some :
    survivingNexus? text w nexuses key = some view ↔
      ∃ row, nexuses.row? key = some row ∧ row.isOpen = true ∧
        supersedes text (w.row text) w.rowId key row = false ∧
        row.view = view := by
  simp [survivingNexus?, bind_eq_some_iff, and_assoc]

theorem openNexus?_of_surviving (hview : survivingNexus? text w nexuses key = some view) :
    openNexus? nexuses key = some view := by
  obtain ⟨row, hrow, hopen, _, hsame⟩ := survivingNexus?_eq_some.mp hview
  exact openNexus?_eq_some.mpr ⟨row, hrow, hopen, hsame⟩

theorem openNexus?_supersede (w : NexusWrite) (nexuses : Table Uuid NexusRow) (key : Uuid) :
    openNexus? (supersedePriorNexuses text w.now (w.row text) w.rowId
        nexuses) key = survivingNexus? text w nexuses key := by
  unfold openNexus? survivingNexus? supersedePriorNexuses
  rw [row?_updateMatching]
  cases nexuses.row? key with
  | none => rfl
  | some row =>
    by_cases hcloses : supersedes text (w.row text) w.rowId key row = true
    · simp [hcloses, NexusRow.isOpen]
    · simp [hcloses]

theorem refreshNexus_isOpen {excluded : NexusRow} (hexcluded : excluded.isOpen)
    (row : NexusRow) : (refreshNexus excluded row).isOpen = row.isOpen := by
  have hend : excluded.validUntil = none := by
    simp only [NexusRow.isOpen, Bool.and_eq_true, isNone_iff_eq_none] at hexcluded
    exact hexcluded.1
  simp [refreshNexus, NexusRow.isOpen, coalesce, hend]

theorem openNexus?_update_refresh {row found : NexusRow} (hopen : row.isOpen)
    (hfound : nexuses.row? landed = some found) (key : Uuid) :
    openNexus? (nexuses.update landed (refreshNexus row)) key = openNexus? nexuses key := by
  unfold openNexus?
  by_cases hkey : key = landed
  · subst hkey
    rw [row?_update_self, hfound]
    simp [refreshNexus_isOpen hopen]
    rfl
  · rw [row?_update_of_ne _ hkey]

theorem openNexus?_upsert {row : NexusRow} {next : Table Uuid NexusRow}
    (hopen : row.isOpen) (hupsert : upsertNexus text id row nexuses = some next) :
    (∀ key, openNexus? next key = openNexus? nexuses key) ∨
      openNexus? nexuses id = none ∧
        ∀ key, openNexus? next key =
          if key = id then some row.view else openNexus? nexuses key := by
  unfold upsertNexus at hupsert
  cases hselect : nexuses.selectFirst (nexusConflicts text row) with
  | some found =>
    simp only [hselect, some.injEq] at hupsert
    subst hupsert
    have hfound := selectFirst_eq_some hselect
    exact .inl (openNexus?_update_refresh hopen hfound.1)
  | none =>
    simp only [hselect] at hupsert
    have hid : nexuses.row? id = none := by
      by_contra hused
      simp [hused] at hupsert
    simp only [hid, isSome_none, Bool.false_eq_true, if_false, some.injEq] at hupsert
    subst hupsert
    refine .inr ⟨by simp [openNexus?, hid], ?_⟩
    intro key
    by_cases hkey : key = id
    · subst hkey
      simp [openNexus?, hopen]
    · simp [openNexus?, hkey, row?_put_of_ne _ hkey]

/-! ## Which writes land -/

theorem isSome_bind_some {α β : Type*} (value : Option α) (f : α → β) :
    (value.bind fun a => some (f a)).isSome = value.isSome := by
  cases value <;> rfl

structure NexusWrite.Lands (text : TextFns) (terminals : String → List Uuid)
    (w : NexusWrite) (store : Store) : Prop where
  edge : ∀ ends, w.ends text terminals = .ok ends →
    store.edges.row? w.edgeId = none ∨
      ∃ key, openEdge? store.edges key = some (w.edge text ends).view
  nexus : store.nexuses.row? w.rowId = none ∨
    ∃ key row, store.nexuses.row? key = some row ∧ row.isOpen = true ∧
      sameNexus text row (w.row text) = true ∧
      supersedes text (w.row text) w.rowId key row = false

theorem upsertEdge_isSome_iff :
    (upsertEdge id row edges).isSome = true ↔
      edges.row? id = none ∨
        ∃ key found, edges.row? key = some found ∧ edgeConflicts row key found = true := by
  unfold upsertEdge
  cases hselect : edges.selectFirst (edgeConflicts row) with
  | some found =>
    have hfound := selectFirst_eq_some hselect
    simp only [isSome_some, true_iff]
    exact .inr ⟨found.1, found.2, hfound⟩
  | none =>
    have hnoConflict := selectFirst_eq_none.mp hselect
    have hnone : ¬∃ key found, edges.row? key = some found ∧
        edgeConflicts row key found = true := by
      rintro ⟨key, found, hfound, hconflict⟩
      rw [hnoConflict key found hfound] at hconflict
      exact Bool.noConfusion hconflict
    rw [or_iff_left hnone]
    cases edges.row? id <;> simp

theorem upsertNexus_isSome_iff {row : NexusRow} :
    (upsertNexus text id row nexuses).isSome = true ↔
      nexuses.row? id = none ∨
        ∃ key found, nexuses.row? key = some found ∧ nexusConflicts text row key found = true := by
  unfold upsertNexus
  cases hselect : nexuses.selectFirst (nexusConflicts text row) with
  | some found =>
    have hfound := selectFirst_eq_some hselect
    simp only [isSome_some, true_iff]
    exact .inr ⟨found.1, found.2, hfound⟩
  | none =>
    have hnoConflict := selectFirst_eq_none.mp hselect
    have hnone : ¬∃ key found, nexuses.row? key = some found ∧
        nexusConflicts text row key found = true := by
      rintro ⟨key, found, hfound, hconflict⟩
      rw [hnoConflict key found hfound] at hconflict
      exact Bool.noConfusion hconflict
    rw [or_iff_left hnone]
    cases nexuses.row? id <;> simp

theorem clashes_self (view : EdgeView) : view.clashes text view = false := by
  simp [EdgeView.clashes]

theorem mirrorEdge_isSome_iff (hopen : row.isOpen) :
    (mirrorEdge text now id row edges).isSome = true ↔
      edges.row? id = none ∨ ∃ key, openEdge? edges key = some row.view := by
  have hsame : (mirrorEdge text now id row edges).isSome =
      (upsertEdge id row (closePriorEntityEdges text now row edges).1).isSome := by
    exact isSome_bind_some _ _
  have hkeys : (closePriorEntityEdges text now row edges).1.row? id = none ↔
      edges.row? id = none := by
    simp [closePriorEntityEdges]
  rw [hsame, upsertEdge_isSome_iff, hkeys]
  apply or_congr_right
  constructor
  · rintro ⟨key, found, hfound, hconflict⟩
    have hheld : openEdge? (closePriorEntityEdges text now row edges).1 key = some found.view :=
      openEdge?_eq_some.mpr ⟨found, hfound, (edgeConflicts_iff.mp hconflict).2.1, rfl⟩
    rw [openEdge?_close] at hheld
    obtain ⟨hbefore, hkept⟩ := filter_eq_some_iff.mp hheld
    have hview := view_eq_of_conflict hconflict (by simpa using hkept)
    exact ⟨key, hview ▸ hbefore⟩
  · rintro ⟨key, hview⟩
    have hheld : openEdge? (closePriorEntityEdges text now row edges).1 key = some row.view := by
      rw [openEdge?_close, hview]
      simp [Option.filter, clashes_self]
    obtain ⟨found, hfound, hfoundOpen, hsame⟩ := openEdge?_eq_some.mp hheld
    simp only [EdgeRow.view, EdgeView.mk.injEq] at hsame
    obtain ⟨hsrc, hdst, hvia, htype, _⟩ := hsame
    exact ⟨key, found, hfound, edgeConflicts_iff.mpr ⟨hopen, hfoundOpen, hsrc, hdst, htype, hvia⟩⟩

variable {next : Store} {name : String} {nexus : NexusView}

theorem insertNexus_cases (hinsert : insertNexus text terminals w store = some next) :
    upsertNexus text w.rowId (w.row text)
        (supersedePriorNexuses text w.now (w.row text) w.rowId store.nexuses) = some next.nexuses ∧
      ((∃ outcome, w.ends text terminals = .error outcome ∧ next.edges = store.edges) ∨
        ∃ ends, w.ends text terminals = .ok ends ∧
          mirrorEdge text w.now w.edgeId (w.edge text ends) store.edges = some next.edges) := by
  unfold insertNexus writeEntityEdgeForNexus at hinsert
  cases hends : w.ends text terminals with
  | error outcome =>
    by_cases hpark : outcome ∈ parkReasons
    · simp only [hends, if_pos hpark, bind_eq_bind, bind_some,
        pure_def, bind_eq_some_iff] at hinsert
      obtain ⟨nexuses, hnexuses, hnext⟩ := hinsert
      obtain rfl := some.inj hnext
      exact ⟨hnexuses, .inl ⟨outcome, rfl, rfl⟩⟩
    · simp only [hends, if_neg hpark, bind_eq_bind, bind_some,
        pure_def, bind_eq_some_iff] at hinsert
      obtain ⟨nexuses, hnexuses, hnext⟩ := hinsert
      obtain rfl := some.inj hnext
      exact ⟨hnexuses, .inl ⟨outcome, rfl, rfl⟩⟩
  | ok ends =>
    simp only [hends, bind_eq_bind, pure_def, bind_eq_some_iff, map_eq_some_iff] at hinsert
    obtain ⟨written, ⟨edges, hedges, hwritten⟩, nexuses, hnexuses, hnext⟩ := hinsert
    subst hwritten
    obtain rfl := some.inj hnext
    exact ⟨hnexuses, .inr ⟨ends, rfl, hedges⟩⟩

theorem insertNexus_isSome :
    (insertNexus text terminals w store).isSome = true ↔
      (∀ ends, w.ends text terminals = .ok ends →
        (mirrorEdge text w.now w.edgeId (w.edge text ends) store.edges).isSome = true) ∧
      (upsertNexus text w.rowId (w.row text)
        (supersedePriorNexuses text w.now (w.row text) w.rowId store.nexuses)).isSome = true := by
  unfold insertNexus writeEntityEdgeForNexus
  cases hends : w.ends text terminals with
  | error outcome =>
    by_cases hpark : outcome ∈ parkReasons
    · simp [hpark, isSome_bind_some]
    · simp [hpark, isSome_bind_some]
  | ok ends =>
    cases hmirror : mirrorEdge text w.now w.edgeId (w.edge text ends) store.edges with
    | none => simp [hmirror]
    | some edges => simp [hmirror, isSome_bind_some]

section

variable (hend : w.validUntil = none)

include hend

theorem row_isOpen : (w.row text).isOpen := by
  simp [NexusWrite.row, NexusRow.isOpen, hend]

theorem edge_isOpen (ends : Ends) : (w.edge text ends).isOpen := by
  simp [NexusWrite.edge, EdgeRow.isOpen, hend]

theorem nexusConflict_iff :
    (∃ key found, (supersedePriorNexuses text w.now (w.row text) w.rowId
        nexuses).row? key = some found ∧
      nexusConflicts text (w.row text) key found = true) ↔
    ∃ key row, nexuses.row? key = some row ∧ row.isOpen = true ∧
      sameNexus text row (w.row text) = true ∧
      supersedes text (w.row text) w.rowId key row = false := by
  unfold supersedePriorNexuses nexusConflicts
  simp only [row?_updateMatching, map_eq_some_iff, row_isOpen hend, Bool.true_and, Bool.and_eq_true]
  constructor
  · rintro ⟨key, found, ⟨row, hrow, rfl⟩, hopen, hsame⟩
    by_cases hcloses : supersedes text (w.row text) w.rowId key row = true
    · rw [if_pos hcloses] at hopen
      simp [NexusRow.isOpen] at hopen
    · rw [if_neg hcloses] at hopen hsame
      exact ⟨key, row, hrow, hopen, hsame, by simpa using hcloses⟩
  · rintro ⟨key, row, hrow, hopen, hsame, hkept⟩
    exact ⟨key, row, ⟨row, hrow, by simp [hkept]⟩, hopen, hsame⟩

theorem insertNexus_isSome_iff :
    (insertNexus text terminals w store).isSome = true ↔ w.Lands text terminals store := by
  have hkeys : (supersedePriorNexuses text w.now (w.row text) w.rowId
      store.nexuses).row? w.rowId = none ↔
      store.nexuses.row? w.rowId = none := by
    simp [supersedePriorNexuses]
  rw [insertNexus_isSome, upsertNexus_isSome_iff, hkeys, nexusConflict_iff hend]
  constructor
  · rintro ⟨hedge, hnexus⟩
    exact ⟨fun ends hends =>
      (mirrorEdge_isSome_iff (edge_isOpen hend ends)).mp (hedge ends hends),
      hnexus⟩
  · rintro ⟨hedge, hnexus⟩
    exact ⟨fun ends hends =>
      (mirrorEdge_isSome_iff (edge_isOpen hend ends)).mpr (hedge ends hends),
      hnexus⟩

end

theorem resolveSlot_pos (hid : (resolveSlot text terminals name).2 = some id) :
    0 < (resolveSlot text terminals name).1 := by
  unfold resolveSlot at hid ⊢
  by_cases hblank : text.btrim name = ""
  · simp [hblank] at hid
  · rw [if_neg hblank] at hid ⊢
    exact List.length_pos_of_mem (List.mem_of_head? hid)

theorem resolvedEntity?_eq_some :
    resolvedEntity? text terminals name = some id ↔
      (resolveSlot text terminals name).1 = 1 ∧ (resolveSlot text terminals name).2 = some id := by
  unfold resolvedEntity?
  by_cases hone : (resolveSlot text terminals name).1 = 1
  · simp [hone]
  · simp [hone]

theorem ends_of_resolved {src dst : Uuid}
    (hsrc : resolvedEntity? text terminals w.subject = some src)
    (hdst : resolvedEntity? text terminals w.object = some dst) (hne : src ≠ dst) :
    w.ends text terminals = .ok ⟨src, dst, w.intermediary.bind
      (resolvedEntity? text terminals)⟩ := by
  rw [resolvedEntity?_eq_some] at hsrc hdst
  unfold NexusWrite.ends
  simp [hsrc, hdst, hne]

theorem resolved_of_ends {ends : Ends} (hends : w.ends text terminals = .ok ends) :
    resolvedEntity? text terminals w.subject = some ends.srcId ∧
      resolvedEntity? text terminals w.object = some ends.dstId ∧
      ends.srcId ≠ ends.dstId := by
  unfold NexusWrite.ends at hends
  by_cases hmany : 1 < (resolveSlot text terminals w.subject).1 ∨
      1 < (resolveSlot text terminals w.object).1
  · simp [hmany] at hends
  · simp only [if_neg hmany] at hends
    cases hsrc : (resolveSlot text terminals w.subject).2 with
    | none => simp [hsrc] at hends
    | some src =>
      cases hdst : (resolveSlot text terminals w.object).2 with
      | none => simp [hsrc, hdst] at hends
      | some dst =>
        have hsrcPos := resolveSlot_pos hsrc
        have hdstPos := resolveSlot_pos hdst
        by_cases hsame : src = dst
        · simp [hsrc, hdst, hsame] at hends
        · simp only [hsrc, hdst, if_neg hsame, Except.ok.injEq] at hends
          subst hends
          exact ⟨resolvedEntity?_eq_some.mpr ⟨by omega, hsrc⟩,
            resolvedEntity?_eq_some.mpr ⟨by omega, hdst⟩, hsame⟩

/-! ## One write -/

/-- The open nexuses which a landing write does not close, but whose edge it
turns, have another edge through another intermediary. -/
def KeepsOthersCarried (text : TextFns) (terminals : String → List Uuid)
    (store : Store) (w : NexusWrite) : Prop :=
  w.Lands text terminals store →
  ∀ ends, w.ends text terminals = .ok ends →
  ∀ key nexus, survivingNexus? text w store.nexuses key = some nexus →
    resolvedEntity? text terminals nexus.subject = some ends.srcId →
    resolvedEntity? text terminals nexus.object = some ends.dstId →
    text.lower nexus.relType = text.lower (w.canonicalType text) →
    nexus.polarity ≠ w.polarity →
    ∃ edgeKey edge, openEdge? store.edges edgeKey = some edge ∧
      edge.Carries text terminals nexus ∧
      edge.via ≠ ends.intermediaryId.getD nilUuid

section

variable (hend : w.validUntil = none) (hinsert : insertNexus text terminals w store = some next)

include hend hinsert

theorem openNexus?_insert :
    (∀ key, openNexus? next.nexuses key = survivingNexus? text w store.nexuses key) ∨
      survivingNexus? text w store.nexuses w.rowId = none ∧
        ∀ key, openNexus? next.nexuses key =
          if key = w.rowId then some (w.row text).view
          else survivingNexus? text w store.nexuses key := by
  have hupsert := openNexus?_upsert (row_isOpen hend) (insertNexus_cases hinsert).1
  simpa only [openNexus?_supersede] using hupsert

theorem survives_insert (hnexus : survivingNexus? text w store.nexuses key = some nexus) :
    openNexus? next.nexuses key = some nexus := by
  cases openNexus?_insert hend hinsert with
  | inl hfold => rw [hfold, hnexus]
  | inr hnew =>
    obtain ⟨hfree, hnexuses⟩ := hnew
    have hkey : key ≠ w.rowId := by
      rintro rfl
      rw [hfree] at hnexus
      simp at hnexus
    rw [hnexuses, if_neg hkey, hnexus]

theorem open_after_insert (hnexus : openNexus? next.nexuses key = some nexus) :
    survivingNexus? text w store.nexuses key = some nexus ∨ nexus = (w.row text).view := by
  cases openNexus?_insert hend hinsert with
  | inl hfold => exact .inl (hfold key ▸ hnexus)
  | inr hnew =>
    rw [hnew.2] at hnexus
    by_cases hkey : key = w.rowId
    · rw [if_pos hkey] at hnexus
      exact .inr (some.inj hnexus).symm
    · rw [if_neg hkey] at hnexus
      exact .inl hnexus

end

section

variable {w : NexusWrite} {store next : Store} {ends : Ends}

variable {nexus : NexusView} {now : Datetime} {id key : Uuid} {row : EdgeRow}
  {edges after : Table Uuid EdgeRow} {edge : EdgeView}

theorem carries_of_polarity (hsrc : resolvedEntity? text terminals nexus.subject = some ends.srcId)
    (hdst : resolvedEntity? text terminals nexus.object = some ends.dstId)
    (htype : text.lower nexus.relType = text.lower (w.canonicalType text))
    (hpolarity : nexus.polarity = w.polarity) :
    (w.edge text ends).view.Carries text terminals nexus :=
  ⟨hsrc, hdst, htype.symm, hpolarity.symm⟩

section

variable (hopen : row.isOpen) (hmirror : mirrorEdge text now id row edges = some after)

include hopen hmirror

theorem kept_edge {view : EdgeView} (hview : openEdge? edges key = some view)
    (hclash : row.view.clashes text view = false) : openEdge? after key = some view := by
  obtain ⟨landed, hlanded, _, hedges⟩ := openEdge?_mirrorEdge hopen hmirror
  by_cases hkey : key = landed
  · subst hkey
    rw [hview] at hlanded
    cases hlanded with
    | inl hnone => simp at hnone
    | inr hsame => rw [hedges, if_pos rfl, ← hsame]
  · rw [hedges, if_neg hkey, hview]
    simp [Option.filter, hclash]

theorem own_edge : ∃ key, openEdge? after key = some row.view := by
  obtain ⟨landed, _, _, hedges⟩ := openEdge?_mirrorEdge hopen hmirror
  exact ⟨landed, by rw [hedges, if_pos rfl]⟩

theorem edge_after {view : EdgeView} (hview : openEdge? after key = some view) :
    view = row.view ∨ openEdge? edges key = some view ∧ row.view.clashes text view = false := by
  obtain ⟨landed, _, _, hedges⟩ := openEdge?_mirrorEdge hopen hmirror
  rw [hedges] at hview
  by_cases hkey : key = landed
  · rw [if_pos hkey] at hview
    exact .inl (some.inj hview).symm
  · rw [if_neg hkey] at hview
    obtain ⟨hbefore, hkept⟩ := filter_eq_some_iff.mp hview
    exact .inr ⟨hbefore, by simpa using hkept⟩

end

theorem clash_of_carries (hcarries : edge.Carries text terminals nexus)
    (hclash : (w.edge text ends).view.clashes text edge) :
    resolvedEntity? text terminals nexus.subject = some ends.srcId ∧
      resolvedEntity? text terminals nexus.object = some ends.dstId ∧
      text.lower nexus.relType = text.lower (w.canonicalType text) ∧
      nexus.polarity ≠ w.polarity := by
  obtain ⟨hsrc, hdst, htype, hpolarity⟩ := hcarries
  obtain ⟨hsrcId, hdstId, _, hedgeType, hne⟩ := clashes_iff.mp hclash
  have hsrcEnd : edge.srcId = ends.srcId := hsrcId
  have hdstEnd : edge.dstId = ends.dstId := hdstId
  exact ⟨hsrcEnd ▸ hsrc, hdstEnd ▸ hdst, htype ▸ hedgeType, hpolarity ▸ hne⟩

theorem not_clash_of_via (hvia : edge.via ≠ ends.intermediaryId.getD nilUuid) :
    (w.edge text ends).view.clashes text edge = false := by
  have hother : edge.via ≠ (w.edge text ends).view.via := hvia
  simp [EdgeView.clashes, hother]

section

variable (hend : w.validUntil = none)

include hend

theorem carried_of_keeps (hagrees : MirrorAgrees text terminals store)
    (hinsert : insertNexus text terminals w store = some next)
    (hkeeps : KeepsOthersCarried text terminals store w)
    (hnexus : openNexus? next.nexuses key = some nexus) (hhasEnds : nexus.HasEnds text terminals) :
    ∃ edgeKey edge, openEdge? next.edges edgeKey = some edge ∧
      edge.Carries text terminals nexus := by
  have hlands : w.Lands text terminals store :=
    (insertNexus_isSome_iff hend).mp (by rw [hinsert]; rfl)
  cases (insertNexus_cases hinsert).2 with
  | inl hnoEdge =>
    obtain ⟨outcome, herror, hedges⟩ := hnoEdge
    cases open_after_insert hend hinsert hnexus with
    | inl hsurvives =>
      rw [hedges]
      exact hagrees.carried key nexus (openNexus?_of_surviving hsurvives) hhasEnds
    | inr hown =>
      obtain ⟨src, dst, hsrc, hdst, hne⟩ := hhasEnds
      subst hown
      rw [ends_of_resolved hsrc hdst hne] at herror
      simp at herror
  | inr hedge =>
    obtain ⟨ends, hends, hmirror⟩ := hedge
    have hopen : (w.edge text ends).isOpen := edge_isOpen hend ends
    obtain ⟨ownKey, hown⟩ := own_edge hopen hmirror
    cases open_after_insert hend hinsert hnexus with
    | inr hsame =>
      subst hsame
      obtain ⟨hsubject, hobject, _⟩ := resolved_of_ends hends
      exact ⟨ownKey, _, hown, carries_of_polarity hsubject hobject rfl rfl⟩
    | inl hsurvives =>
      obtain ⟨edgeKey, edge, hedgeOpen, hcarries⟩ :=
        hagrees.carried key nexus (openNexus?_of_surviving hsurvives) hhasEnds
      by_cases hclash : (w.edge text ends).view.clashes text edge = true
      · obtain ⟨hsrc, hdst, htype, hpolarity⟩ := clash_of_carries hcarries hclash
        obtain ⟨otherKey, other, hother, hotherCarries, hvia⟩ :=
          hkeeps hlands ends hends key nexus hsurvives hsrc hdst htype hpolarity
        exact ⟨otherKey, other, kept_edge hopen hmirror hother (not_clash_of_via
          hvia), hotherCarries⟩
      · rw [Bool.not_eq_true] at hclash
        exact ⟨edgeKey, edge, kept_edge hopen hmirror hedgeOpen hclash, hcarries⟩

theorem keeps_of_carried (hinsert : insertNexus text terminals w store = some next)
    (hcarried : MirrorAgrees text terminals next) : KeepsOthersCarried text terminals store w := by
  intro _ ends hends key nexus hsurvives hsrc hdst htype hpolarity
  obtain ⟨hsubject, hobject, hne⟩ := resolved_of_ends hends
  obtain ⟨edgeKey, edge, hedgeOpen, hcarries⟩ :=
    hcarried.carried key nexus (survives_insert hend hinsert hsurvives)
      ⟨ends.srcId, ends.dstId, hsrc, hdst, hne⟩
  cases (insertNexus_cases hinsert).2 with
  | inl hnoEdge =>
    obtain ⟨outcome, herror, _⟩ := hnoEdge
    rw [hends] at herror
    simp at herror
  | inr hedge =>
    obtain ⟨others, hothers, hmirror⟩ := hedge
    obtain rfl : ends = others := by
      rw [hends] at hothers
      exact Except.ok.inj hothers
    cases edge_after (edge_isOpen hend ends) hmirror hedgeOpen with
    | inl hown =>
      subst hown
      exact absurd hcarries.2.2.2.symm hpolarity
    | inr hkept =>
      refine ⟨edgeKey, edge, hkept.1, hcarries, ?_⟩
      intro hvia
      have hclash : (w.edge text ends).view.clashes text edge := by
        obtain ⟨hedgeSrc, hedgeDst, hedgeType, hedgePolarity⟩ := hcarries
        rw [hsrc] at hedgeSrc
        rw [hdst] at hedgeDst
        exact clashes_iff.mpr ⟨(some.inj hedgeSrc).symm, (some.inj hedgeDst).symm,
          hvia, hedgeType.trans htype, hedgePolarity ▸ hpolarity⟩
      rw [hkept.2] at hclash
      exact Bool.noConfusion hclash

theorem oneOpen_insert (hagrees : MirrorAgrees text terminals store)
    (hinsert : insertNexus text terminals w store = some next) {other : Uuid} {twin : EdgeView}
    (hedge : openEdge? next.edges key = some edge) (htwin : openEdge? next.edges other = some twin)
    (hsrc : edge.srcId = twin.srcId) (hdst : edge.dstId = twin.dstId)
    (htype : edge.edgeType = twin.edgeType) (hvia : edge.via = twin.via) : key = other := by
  cases (insertNexus_cases hinsert).2 with
  | inl hnoEdge =>
    obtain ⟨_, _, hedges⟩ := hnoEdge
    rw [hedges] at hedge htwin
    exact hagrees.oneOpen key other edge twin hedge htwin hsrc hdst htype hvia
  | inr hedgeCase =>
    obtain ⟨ends, _, hmirror⟩ := hedgeCase
    obtain ⟨landed, hown, hbefore, honly⟩ :=
      mirrorEdge_own (edge_isOpen hend ends) hagrees.oneOpen hmirror
    by_cases hkey : key = landed
    · subst hkey
      obtain rfl := some.inj (hown.symm.trans hedge)
      exact (honly other twin htwin hsrc.symm hdst.symm htype.symm hvia.symm).symm
    · by_cases hother : other = landed
      · subst hother
        obtain rfl := some.inj (hown.symm.trans htwin)
        exact honly key edge hedge hsrc hdst htype hvia
      · exact hagrees.oneOpen key other edge twin (hbefore key edge hkey hedge)
          (hbefore other twin hother htwin) hsrc hdst htype hvia

theorem linked_insert (hlinked : Linked store.edges)
    (hinsert : insertNexus text terminals w store = some next) : Linked next.edges := by
  cases (insertNexus_cases hinsert).2 with
  | inl hnoEdge =>
    obtain ⟨_, _, hedges⟩ := hnoEdge
    rwa [hedges]
  | inr hedge =>
    obtain ⟨ends, _, hmirror⟩ := hedge
    exact hlinked.mirrorEdge (edge_isOpen hend ends) hmirror

theorem MirrorAgrees.insert_iff (hagrees : MirrorAgrees text terminals store)
    (hinsert : insertNexus text terminals w store = some next) :
    MirrorAgrees text terminals next ↔ KeepsOthersCarried text terminals store w := by
  constructor
  · exact keeps_of_carried hend hinsert
  · intro hkeeps
    exact
      { carried := fun _ _ hnexus hhasEnds =>
          carried_of_keeps hend hagrees hinsert hkeeps hnexus hhasEnds
        oneOpen := fun _ _ _ _ => oneOpen_insert hend hagrees hinsert
        linked := linked_insert hend hagrees.linked hinsert }

end

end

def OpenEndedWrite := { w : NexusWrite // w.validUntil = none }

def openEndedStep (text : TextFns) (terminals : String → List Uuid)
    (store : Store) (w : OpenEndedWrite) : Option Store :=
  writeStep text terminals store w.1

theorem mirrorAgrees_step_iff {w : OpenEndedWrite} (hagrees : MirrorAgrees text terminals store)
    (hstep : openEndedStep text terminals store w = some next) :
    MirrorAgrees text terminals next ↔ KeepsOthersCarried text terminals store w.1 := by
  unfold openEndedStep writeStep at hstep
  cases hinsert : insertNexus text terminals w.1 store with
  | none =>
    simp only [hinsert, getD_none, some.injEq] at hstep
    subst hstep
    have hrefused : ¬w.1.Lands text terminals store := by
      rw [← insertNexus_isSome_iff w.2, hinsert]
      simp
    exact iff_of_true hagrees fun hlands => absurd hlands hrefused
  | some after =>
    simp only [hinsert, getD_some, some.injEq] at hstep
    subst hstep
    exact hagrees.insert_iff w.2 hinsert

/-- The tables agree along a run exactly when they agree at its start and no
write turns the edge of an open nexus it does not close, leaving it none. -/
theorem mirror_agrees_iff (text : TextFns) (terminals : String → List Uuid)
    (store : Store) (writes : List OpenEndedWrite) :
    VisitsOnly (openEndedStep text terminals) (MirrorAgrees text terminals) store writes ↔
      MirrorAgrees text terminals store ∧
        StepsSatisfy (openEndedStep text terminals)
          (fun store w _ => KeepsOthersCarried text terminals store w.1)
          store writes := by
  rw [visitsOnly_iff_start_and_steps]
  apply and_congr_right
  intro hagrees
  have hiff : ∀ store w next, MirrorAgrees text terminals store →
      openEndedStep text terminals store w = some next → True →
      (MirrorAgrees text terminals next ↔ KeepsOthersCarried text terminals store w.1) :=
    fun store w next hstore hstep _ => mirrorAgrees_step_iff hstore hstep
  have hkeep : ∀ store w next, MirrorAgrees text terminals store →
      openEndedStep text terminals store w = some next → True →
      KeepsOthersCarried text terminals store w.1 →
      MirrorAgrees text terminals next :=
    fun store w next hstore hstep hallowed => (hiff store w next hstore hstep hallowed).mpr
  exact stepsSatisfy_iff_of_invariant hkeep hiff hagrees
    (stepsSatisfy_of_forall (fun _ _ _ _ => trivial) store writes)

def plainText : TextFns :=
  { Facts.lowerCaseText with
    btrim := fun s => s
    spaceCamel := fun s => s
    collapseSeparators := fun s => s }

def northAndSouth (name : String) : List Uuid :=
  if name = "north" then [1] else if name = "south" then [2] else []

def alliance (rowId edgeId : Uuid) (intermediary : String)
    (polarity : Polarity) : OpenEndedWrite where
  val :=
    { rowId := rowId
      edgeId := edgeId
      subject := "north"
      intermediary := some intermediary
      object := "south"
      relType := "allied with"
      label := ""
      polarity := polarity
      confidence := 1
      validFrom := none
      validUntil := none
      payloadSourceType := "agent"
      sourceType := none
      analystId := none
      derivedFrom := []
      sourceSignalIds := []
      payloadSignalIds := []
      producedAt := 0
      now := 0 }
  property := rfl

def openEdges (edges : Table Uuid EdgeRow) : List EdgeView :=
  edges.keys.filterMap (openEdge? edges)

theorem mem_openEdges {edge : EdgeView} (hedge : openEdge? edges key = some edge) :
    edge ∈ openEdges edges := by
  obtain ⟨row, hrow, _⟩ := openEdge?_eq_some.mp hedge
  have hkey := (edges.mem_keys key).mpr (by rw [hrow]; rfl)
  exact List.mem_filterMap.mpr ⟨key, hkey, hedge⟩

def alliances : List OpenEndedWrite :=
  [alliance 1 11 "first" .supportive, alliance 2 12 "second" .antagonistic]

def afterAlliances : Store :=
  (run (openEndedStep plainText northAndSouth) Store.empty alliances).getD Store.empty

/-- Neither intermediary is an entity, so the second write closes the edge of
the first, whose nexus stays open. -/
theorem intermediaries_share_edge :
    ¬VisitsOnly (openEndedStep plainText northAndSouth)
      (MirrorAgrees plainText northAndSouth) Store.empty alliances := by
  intro hvisits
  have hfinal : MirrorAgrees plainText northAndSouth afterAlliances := hvisits.final rfl
  have hopen : openNexus? afterAlliances.nexuses 1 =
      some ⟨"north", "south", "allied with", .supportive⟩ := by
    decide +kernel
  obtain ⟨key, edge, hedge, hcarries⟩ :=
    hfinal.carried 1 _ hopen ⟨1, 2, by decide +kernel, by decide +kernel, by decide⟩
  have hturned : ∀ edge ∈ openEdges afterAlliances.edges, edge.polarity = .antagonistic := by
    decide +kernel
  have hpolarity := hturned edge (mem_openEdges hedge)
  rw [hcarries.2.2.2] at hpolarity
  exact Polarity.noConfusion hpolarity

end Legba.Nexus
