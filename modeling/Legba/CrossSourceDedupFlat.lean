import Legba.CrossSourceDedup

/-!
# Does batch dedup keep the pointers flat?

A step points its aliases at the canonical row of its set.  A row which
pointed at one of them before, and is not of the set, is left behind one
pointer too deep.  Pointers stay flat exactly as long as no step links a row
which a row outside its set points at; and where they are flat there is no
cycle, and each set of linked rows has one root.
-/

namespace Legba.Sources

open KeyedTable LabelledRun RowOrder List Option Table

def Tables.PointsAt (tables : Tables) (id canonical : Uuid) : Prop :=
  tables.pointer id = some (some canonical)

/-- Flat pointers, no cycle among distinct rows, and one root for each set of
rows linked to one another. -/
structure Tables.Settled (tables : Tables) : Prop where
  flat : tables.Flat
  acyclic : ∀ id, ¬Relation.TransGen
    (fun id canonical => tables.PointsAt id canonical ∧ id ≠ canonical) id id
  oneRoot : ∀ id, (tables.pool.row? id).isSome →
    ∃! root, tables.IsRoot root ∧ Relation.EqvGen tables.PointsAt id root

def Tables.rootOf (tables : Tables) (id : Uuid) : Uuid :=
  ((tables.pointer id).bind fun pointer => pointer).getD id

section

variable {tables : Tables}

variable {id : Uuid}

theorem rootOf_of_pointsAt {canonical : Uuid}
    (hpoints : tables.PointsAt id canonical) : tables.rootOf id = canonical := by
  unfold Tables.PointsAt at hpoints
  simp [Tables.rootOf, hpoints]

theorem Tables.IsRoot.rootOf (hroot : tables.IsRoot id) : tables.rootOf id = id := by
  rcases hroot with hnull | hself
  · simp [Tables.rootOf, hnull]
  · exact rootOf_of_pointsAt hself

section

variable (hflat : tables.Flat)

include hflat

theorem Tables.Flat.isRoot_rootOf (hrow : (tables.pool.row? id).isSome) :
    tables.IsRoot (tables.rootOf id) := by
  obtain ⟨row, hrow⟩ := isSome_iff_exists.mp hrow
  have hpointer : tables.pointer id = some row.canonicalSignalId := by
    rw [Tables.pointer, hrow]
    rfl
  cases hcanonical : row.canonicalSignalId with
  | none =>
    rw [hcanonical] at hpointer
    have hroot : tables.IsRoot id := .inl hpointer
    rw [hroot.rootOf]
    exact hroot
  | some canonical =>
    rw [hcanonical] at hpointer
    rw [rootOf_of_pointsAt hpointer]
    rcases hflat id canonical hpointer with heq | hroot
    · subst canonical
      exact .inr hpointer
    · exact hroot

theorem Tables.Flat.rootOf_eq {other : Uuid} (hsame : Relation.EqvGen tables.PointsAt id other) :
    tables.rootOf id = tables.rootOf other := by
  induction hsame with
  | rel id canonical hpoints =>
    rw [rootOf_of_pointsAt hpoints]
    rcases hflat id canonical hpoints with heq | hroot
    · subst canonical
      exact (rootOf_of_pointsAt hpoints).symm
    · exact hroot.rootOf.symm
  | refl id => rfl
  | symm id other _ ih => exact ih.symm
  | trans id middle other _ _ ihfirst ihsecond => exact ihfirst.trans ihsecond

theorem Tables.Flat.oneRoot (hrow : (tables.pool.row? id).isSome) :
    ∃! root, tables.IsRoot root ∧ Relation.EqvGen tables.PointsAt id root := by
  refine ⟨tables.rootOf id, ⟨hflat.isRoot_rootOf hrow, ?_⟩, ?_⟩
  · unfold Tables.rootOf
    cases hpointer : tables.pointer id with
    | none => exact .refl id
    | some pointer =>
      cases pointer with
      | none => exact .refl id
      | some canonical => exact .rel id canonical hpointer
  · rintro root ⟨hroot, hsame⟩
    rw [hflat.rootOf_eq hsame, hroot.rootOf]

theorem Tables.Flat.acyclic (id : Uuid) :
    ¬Relation.TransGen
      (fun id canonical => tables.PointsAt id canonical ∧ id ≠ canonical)
      id id := by
  intro hcycle
  obtain ⟨next, ⟨hpoints, hne⟩, hrest⟩ := Relation.TransGen.head'_iff.mp hcycle
  have hroot := (hflat id next hpoints).resolve_left hne.symm
  rcases Relation.ReflTransGen.cases_head hrest with heq | hstep
  · exact hne heq.symm
  · obtain ⟨after, ⟨hafter, hdiff⟩, _⟩ := hstep
    have hself := hroot.rootOf
    rw [rootOf_of_pointsAt hafter] at hself
    exact hdiff hself.symm

end

theorem settled_iff_flat : tables.Settled ↔ tables.Flat := by
  constructor
  · exact Tables.Settled.flat
  · intro hflat
    exact ⟨hflat, hflat.acyclic, fun _ hrow => hflat.oneRoot hrow⟩

end

section

variable {tables : Tables}

@[simp] theorem pointer_insertAlias (id canonical other : Uuid) :
    (insertAlias tables id canonical).pointer other = tables.pointer other := by
  simp [Tables.pointer]

theorem pointer_batchLink (id canonical other : Uuid) :
    (batchLink tables id canonical).pointer other =
      if other = id then (tables.pointer id).map fun _ => some canonical
      else tables.pointer other := by
  unfold batchLink
  split
  · next heq =>
    subst other
    rw [pointer_setPointer_self, pointer_insertAlias]
  · next hne => rw [pointer_setPointer_of_ne hne, pointer_insertAlias]

theorem pointer_foldl_batchLink (aliases : List Uuid) (canonical other : Uuid) :
    (aliases.foldl (fun tables id => batchLink tables id canonical) tables).pointer other =
      if other ∈ aliases then
        (tables.pointer other).map fun _ => some canonical
      else tables.pointer other := by
  induction aliases generalizing tables with
  | nil => simp
  | cons id rest ih =>
    rw [foldl_cons, ih, pointer_batchLink]
    by_cases hid : other = id
    · subst other
      by_cases hrest : id ∈ rest
      · cases tables.pointer id <;> simp [hrest]
      · simp [hrest]
    · by_cases hrest : other ∈ rest <;> simp [hid, hrest]

theorem pointer_linkSet (set : DuplicateSet) (other : Uuid) :
    (linkSet tables set).pointer other =
      if other = set.canonical ∨ other ∈ set.aliases then
        (tables.pointer other).map fun _ => some set.canonical
      else tables.pointer other := by
  unfold linkSet
  rw [pointer_foldl_batchLink]
  unfold stampCanonical
  by_cases hcanonical : other = set.canonical
  · subst hcanonical
    rw [pointer_setPointer_self]
    cases tables.pointer set.canonical <;> simp
  · rw [pointer_setPointer_of_ne hcanonical]
    simp [hcanonical]

/-- The rows of the set exist, and the canonical one is not among the
aliases. -/
structure DuplicateSet.Valid (set : DuplicateSet) (tables : Tables) : Prop where
  canonical : (tables.pointer set.canonical).isSome
  aliases : ∀ id ∈ set.aliases, (tables.pointer id).isSome
  notAlias : set.canonical ∉ set.aliases

def DuplicateSet.Closed (set : DuplicateSet) (tables : Tables) : Prop :=
  ∀ id other, id ∈ set.aliases → tables.PointsAt other id →
    other = set.canonical ∨ other ∈ set.aliases

theorem flat_linkSet_iff (hflat : tables.Flat) {set : DuplicateSet} (hvalid : set.Valid tables) :
    (linkSet tables set).Flat ↔ set.Closed tables := by
  have hcanonical : (linkSet tables set).pointer set.canonical = some (some set.canonical) := by
    obtain ⟨old, hold⟩ := isSome_iff_exists.mp hvalid.canonical
    rw [pointer_linkSet, hold]
    simp
  constructor
  · intro hnext id other hid hpoints
    by_contra hout
    have hkept : (linkSet tables set).pointer other = some (some id) := by
      rw [pointer_linkSet, if_neg hout]
      exact hpoints
    have hlinked : (linkSet tables set).PointsAt id set.canonical := by
      obtain ⟨old, hold⟩ := isSome_iff_exists.mp (hvalid.aliases id hid)
      rw [Tables.PointsAt, pointer_linkSet, if_pos (.inr hid), hold]
      rfl
    rcases hnext other id hkept with heq | hroot
    · exact hout (.inr (heq ▸ hid))
    · have hself := hroot.rootOf
      rw [rootOf_of_pointsAt hlinked] at hself
      exact hvalid.notAlias (hself ▸ hid)
  · intro hclosed other target hpointer
    by_cases hmoved : other = set.canonical ∨ other ∈ set.aliases
    · rw [pointer_linkSet, if_pos hmoved] at hpointer
      obtain ⟨_, _, htarget⟩ := map_eq_some_iff.mp hpointer
      rw [some.injEq] at htarget
      subst target
      exact .inr (.inr hcanonical)
    · rw [pointer_linkSet, if_neg hmoved] at hpointer
      rcases hflat other target hpointer with heq | hroot
      · exact .inl heq
      · by_cases htarget : target = set.canonical
        · exact .inr (.inr (htarget ▸ hcanonical))
        · have hnot : target ∉ set.aliases := fun htarget =>
            hmoved (hclosed target other htarget hpointer)
          refine .inr ?_
          unfold Tables.IsRoot
          rw [pointer_linkSet, if_neg (not_or.mpr ⟨htarget, hnot⟩)]
          exact hroot

end

variable {tables : Tables} {row : Uuid × PoolRow} {set : DuplicateSet}
  {state next : DedupState} {event : DedupEvent}

theorem isSome_pointer_iff {id : Uuid} :
    (tables.pointer id).isSome ↔ (tables.pool.row? id).isSome := by
  simp [Tables.pointer]

theorem mem_inOrder {rows : List (Uuid × PoolRow)} : row ∈ inOrder rows ↔ row ∈ rows :=
  mem_insertionSort _

variable {run : DedupRun} {contentHash : String} {cut : Option ℕ}

theorem isSome_of_mem_groupRows (hrow : row ∈ run.groupRows tables.pool contentHash) :
    (tables.pointer row.1).isSome := by
  rw [DedupRun.groupRows, mem_inOrder] at hrow
  rw [isSome_pointer_iff, (mem_select.mp hrow).1]
  rfl

theorem exactSet_valid (hset : run.exactSet tables.pool contentHash = some set) :
    set.Valid tables := by
  unfold DedupRun.exactSet pickCanonical at hset
  simp only [Option.map_map] at hset
  split at hset
  · cases hset
  · obtain ⟨first, hfirst, hset⟩ := Option.map_eq_some_iff.mp hset
    subst hset
    refine ⟨isSome_of_mem_groupRows (firstBy_mem hfirst), ?_, by simp⟩
    intro id hid
    obtain ⟨row, hrow, hid⟩ := mem_map.mp (mem_filter.mp hid).1
    subst hid
    exact isSome_of_mem_groupRows hrow

structure Candidate.Sound (candidate : Candidate) (tables : Tables) : Prop where
  row : (tables.pointer candidate.id).isSome
  hits : ∀ id ∈ candidate.hits, (tables.pointer id).isSome
  notHit : candidate.id ∉ candidate.hits

def DedupPhase.Sound (tables : Tables) : DedupPhase → Prop
  | .semantic candidates _ => ∀ candidate ∈ candidates, candidate.Sound tables
  | _ => True

def DedupState.Sound (state : DedupState) : Prop :=
  state.phase.Sound state.tables

theorem candidates_sound (run : DedupRun) (store : VectorStore) (tables : Tables) :
    ∀ candidate ∈ run.candidates store tables.pool, candidate.Sound tables := by
  intro candidate hcandidate
  obtain ⟨row, hrow, rfl⟩ := mem_map.mp hcandidate
  have hmem := mem_inOrder.mp (mem_of_mem_take hrow)
  constructor
  · rw [isSome_pointer_iff, (mem_selectMatching.mp hmem).1]
    rfl
  · intro id hid
    have hgate := (mem_filter.mp hid).2
    rw [Bool.and_eq_true] at hgate
    exact isSome_pointer_iff.mpr hgate.1
  · intro hself
    obtain ⟨hit, hhit, heq⟩ := mem_map.mp (mem_filter.mp hself).1
    have hother := (mem_filter.mp hhit).2
    rw [Bool.and_eq_true, decide_eq_true_eq] at hother
    exact hother.1 heq

theorem Candidate.Sound.semanticSet {candidate : Candidate}
    (hsound : candidate.Sound tables) {linkedThisRun : List Uuid}
    (hset : candidate.semanticSet linkedThisRun = some set) : set.Valid tables := by
  unfold Candidate.semanticSet at hset
  split at hset
  · cases hset
  · split at hset
    · cases hset
    · cases hset
      exact ⟨hsound.row, hsound.hits, hsound.notHit⟩

theorem nextSet_valid (hsound : state.Sound) (hset : state.nextSet = some set) :
    set.Valid state.tables := by
  unfold DedupState.nextSet at hset
  unfold DedupState.Sound at hsound
  split at hset
  · exact exactSet_valid hset
  · next candidate rest linkedThisRun hphase =>
    rw [hphase] at hsound
    exact (hsound candidate mem_cons_self).semanticSet hset
  · cases hset

theorem links_valid (hsound : state.Sound) (hset : state.links cut = some set) :
    set.Valid state.tables := by
  obtain ⟨whole, hwhole, rfl⟩ := map_eq_some_iff.mp hset
  have hvalid := nextSet_valid hsound hwhole
  exact ⟨hvalid.canonical, fun id hid => hvalid.aliases id (mem_of_mem_take
    hid), fun hmem => hvalid.notAlias (mem_of_mem_take hmem)⟩

/-! ## Steps -/

section

variable {tables : Tables}

variable {id : Uuid}

theorem isSome_pointer_linkSet (set : DuplicateSet) (hrow : (tables.pointer id).isSome) :
    ((linkSet tables set).pointer id).isSome := by
  rw [pointer_linkSet]
  split
  · simpa using hrow
  · exact hrow

theorem pointer_insertNew (signal : Signal) (tenant : String) (other : Uuid) :
    (insertNew tables signal tenant).pointer other =
      if other = signal.signalId then some none else tables.pointer other := by
  unfold insertNew Tables.pointer
  split
  · next heq =>
    subst other
    simp
  · next hne => rw [row?_put_of_ne _ hne]

theorem isSome_pointer_insertNew (signal : Signal) (tenant : String)
    (hrow : (tables.pointer id).isSome) : ((insertNew tables signal tenant).pointer id).isSome := by
  rw [pointer_insertNew]
  split
  · rfl
  · exact hrow

variable {other : Uuid} {phase : DedupPhase} {state : DedupState}
  {signal : Signal}

theorem isSome_pointer_linkAlias (id canonical : Uuid) (hrow : (tables.pointer other).isSome) :
    ((linkAlias tables id canonical).pointer other).isSome := by
  rw [isSome_pointer_iff] at hrow ⊢
  rw [isSome_row?_linkAlias]
  exact hrow

theorem DedupPhase.Sound.mono {next : Tables} (hsound : phase.Sound tables)
    (hkept : ∀ id, (tables.pointer id).isSome → (next.pointer id).isSome) : phase.Sound next := by
  cases phase with
  | idle => trivial
  | exact run hashes => trivial
  | semantic candidates linkedThisRun =>
    intro candidate hcandidate
    have hold := hsound candidate hcandidate
    exact ⟨hkept _ hold.row, fun id hid => hkept id (hold.hits id hid), hold.notHit⟩

theorem DedupPhase.Sound.afterNext (hsound : phase.Sound tables) (set : Option DuplicateSet)
    (cut : Option ℕ) : (phase.afterNext set cut).Sound tables := by
  unfold DedupPhase.afterNext
  split
  · trivial
  · split
    · trivial
    · exact fun candidate hcandidate => hsound candidate (mem_cons_of_mem _ hcandidate)
  · exact hsound

theorem isSome_pointer_resolve (cut : Option ℕ) (hrow : (state.tables.pointer id).isSome) :
    ((state.resolve cut).tables.pointer id).isSome := by
  unfold DedupState.resolve
  split
  · exact isSome_pointer_linkSet _ hrow
  · exact hrow

theorem DedupState.Sound.resolve (hsound : state.Sound) (cut : Option ℕ) :
    (state.resolve cut).Sound :=
  (DedupPhase.Sound.afterNext hsound _ cut).mono
    fun _ hrow => isSome_pointer_resolve cut hrow

theorem Tables.Flat.unpointed (hflat : tables.Flat)
    (hnew : tables.pointer id = none) : ¬tables.PointsAt other id := by
  intro hpoints
  rcases hflat other id hpoints with heq | hroot
  · subst other
    rw [Tables.PointsAt, hnew] at hpoints
    cases hpoints
  · exact hroot.ne_none hnew

section

variable (hflat : tables.Flat) (tenant : String) (hnew : tables.pointer signal.signalId = none)

include hflat hnew

theorem flat_insertNew : (insertNew tables signal tenant).Flat := by
  intro other target hpointer
  rw [pointer_insertNew] at hpointer
  split at hpointer
  · cases hpointer
  · rcases hflat other target hpointer with heq | hroot
    · exact .inl heq
    · have htarget : target ≠ signal.signalId := by
        rintro rfl
        exact hroot.ne_none hnew
      refine .inr ?_
      unfold Tables.IsRoot
      rw [pointer_insertNew, if_neg htarget]
      exact hroot

theorem flat_linkNew {canonical : Uuid} (hroot : tables.IsRoot canonical) :
    (linkAlias (insertNew tables signal tenant) signal.signalId canonical).Flat := by
  have hne : canonical ≠ signal.signalId := by
    rintro rfl
    exact hroot.ne_none hnew
  have hinserted := flat_insertNew hflat tenant hnew
  have hstamped := hinserted.stampCanonical canonical
  have hstill : (insertNew tables signal tenant).IsRoot canonical := by
    unfold Tables.IsRoot
    rw [pointer_insertNew, if_neg hne]
    exact hroot
  have hstampedRoot := hstill.stampCanonical canonical
  have hunpointed : ∀ other,
      (insertNew tables signal tenant).pointer other ≠ some (some signal.signalId) := by
    intro other hpoints
    rw [pointer_insertNew] at hpoints
    split at hpoints
    · cases hpoints
    · exact hflat.unpointed hnew hpoints
  have hrow : ((stampCanonical (insertNew tables signal tenant)
      canonical).pointer signal.signalId).isSome := by
    unfold stampCanonical
    rw [pointer_setPointer_of_ne hne.symm, pointer_insertNew, if_pos rfl]
    rfl
  unfold linkAlias
  rw [if_neg hne.symm,
    flat_setPointer_iff (flat_insertAlias _ _ hstamped) hne.symm
      (by rw [pointer_insertAlias]; exact hrow)]
  simp only [Tables.IsRoot, pointer_insertAlias]
  refine ⟨hstampedRoot, fun other hpoints => ?_⟩
  exact absurd hpoints (untargeted_stampCanonical hunpointed hne.symm other)

end

end

def LinksClosedSets (state : DedupState) : DedupEvent → DedupState → Prop
  | .resolve cut, _ => ∀ set, state.links cut = some set → set.Closed state.tables
  | _, _ => True

theorem ingest_cases {signal : Signal} {tenant : String} {canonical : Option Uuid}
    (hstep : dedupStep state (.ingest signal tenant canonical) = some next) :
    state.tables.pointer signal.signalId = none ∧
      next.phase = state.phase ∧
      (next.tables = insertNew state.tables signal tenant ∨
        ∃ root, state.tables.IsRoot root ∧
          next.tables = linkAlias (insertNew state.tables signal tenant) signal.signalId root) := by
  simp only [dedupStep] at hstep
  split at hstep
  · cases hstep
  · next hrow =>
    refine ⟨by rw [Tables.pointer, hrow]; rfl, ?_⟩
    cases canonical with
    | none =>
      cases hstep
      exact ⟨rfl, .inl rfl⟩
    | some root =>
      simp only [ite_none_right_eq_some, some.injEq] at hstep
      obtain ⟨hroot, rfl⟩ := hstep
      exact ⟨rfl, .inr ⟨root, hroot, rfl⟩⟩

theorem resolve_of_step (hstep : dedupStep state (.resolve cut) = some next) :
    next = state.resolve cut := by
  simp only [dedupStep] at hstep
  split at hstep <;> cases hstep <;> rfl

theorem tables_of_step (hstep : dedupStep state event = some next)
    (hevent : (∃ run, event = .begin run) ∨ (∃ store, event = .search store) ∨ event = .finish) :
    next.tables = state.tables ∧ next.phase.Sound next.tables := by
  rcases hevent with ⟨run, rfl⟩ | ⟨store, rfl⟩ | rfl
  · simp only [dedupStep] at hstep
    split at hstep <;> cases hstep
    exact ⟨rfl, trivial⟩
  · simp only [dedupStep] at hstep
    split at hstep <;> cases hstep
    exact ⟨rfl, candidates_sound _ store _⟩
  · simp only [dedupStep] at hstep
    split at hstep <;> cases hstep <;> exact ⟨rfl, trivial⟩

theorem sound_step (hsound : state.Sound)
    (hstep : dedupStep state event = some next) : next.Sound := by
  cases event with
  | begin run => exact (tables_of_step hstep (.inl ⟨run, rfl⟩)).2
  | resolve cut =>
    rw [resolve_of_step hstep]
    exact hsound.resolve cut
  | search store => exact (tables_of_step hstep (.inr (.inl ⟨store, rfl⟩))).2
  | finish => exact (tables_of_step hstep (.inr (.inr rfl))).2
  | ingest signal tenant canonical =>
    obtain ⟨_, hphase, htables⟩ := ingest_cases hstep
    unfold DedupState.Sound
    rw [hphase]
    refine DedupPhase.Sound.mono hsound fun id hrow => ?_
    have hinserted := isSome_pointer_insertNew signal tenant hrow
    rcases htables with htables | ⟨root, _, htables⟩
    · rw [htables]
      exact hinserted
    · rw [htables]
      exact isSome_pointer_linkAlias _ _ hinserted

theorem flat_step_iff (hsound : state.Sound) (hflat : state.tables.Flat)
    (hstep : dedupStep state event = some next) :
    next.tables.Flat ↔ LinksClosedSets state event next := by
  cases event with
  | begin run =>
    rw [(tables_of_step hstep (.inl ⟨run, rfl⟩)).1]
    exact iff_of_true hflat trivial
  | resolve cut =>
    rw [resolve_of_step hstep]
    unfold DedupState.resolve LinksClosedSets
    cases hset : state.links cut with
    | none =>
      refine iff_of_true hflat fun set hother => ?_
      rw [hset] at hother
      cases hother
    | some set =>
      rw [flat_linkSet_iff hflat (links_valid hsound hset)]
      constructor
      · intro hclosed other hother
        rw [hset, some.injEq] at hother
        exact hother ▸ hclosed
      · exact fun hclosed => hclosed set hset
  | search store =>
    rw [(tables_of_step hstep (.inr (.inl ⟨store, rfl⟩))).1]
    exact iff_of_true hflat trivial
  | finish =>
    rw [(tables_of_step hstep (.inr (.inr rfl))).1]
    exact iff_of_true hflat trivial
  | ingest signal tenant canonical =>
    obtain ⟨hnew, _, htables⟩ := ingest_cases hstep
    refine iff_of_true ?_ trivial
    rcases htables with htables | ⟨root, hroot, htables⟩
    · rw [htables]
      exact flat_insertNew hflat tenant hnew
    · rw [htables]
      exact flat_linkNew hflat tenant hnew hroot

def story (id : Uuid) (fetchedAt : Datetime) : Signal :=
  ⟨id, "wire", "default", fetchedAt, "", none, none, "", "", none⟩

def laterNeighbour : List DedupEvent :=
  [.ingest (story 1 10) "default" none, .ingest (story 2 20) "default" none,
    .begin ⟨none, 97/100, 500, 500⟩,
    .search ⟨fun _ => true, fun id =>
      if id = 1 then [(2, 98/100)] else if id = 2 then [(1, 98/100)] else []⟩,
    .resolve none, .resolve none, .finish,
    .ingest (story 3 30) "default" none,
    .begin ⟨none, 97/100, 500, 500⟩,
    .search ⟨fun _ => true, fun id =>
      if id = 3 then [(1, 98/100)] else []⟩,
    .resolve none, .finish]

end Legba.Sources
