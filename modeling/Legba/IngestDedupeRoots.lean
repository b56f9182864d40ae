import Legba.IngestInterleaving
import Legba.SubscriptionFilter

/-!
# Do the canonical pointers stay flat?

The lookup reads the canonical of a row; three statements later the pointer is
set, whatever became of that canonical meanwhile.  Pointers stay flat, and
every URL keeps a row which subscribers of canonicals see, as long as each
pointer is set to a row which is still a root, from a row nothing points to,
whose URL has another root.
-/

namespace Legba.Sources

open KeyedTable LabelledRun RowOrder Option

/-! ## Roots -/

def Tables.IsRoot (tables : Tables) (id : Uuid) : Prop :=
  tables.pointer id = some none ∨ tables.pointer id = some (some id)

/-- A pointer is `NULL`, or names its own row or a root. -/
def Tables.Flat (tables : Tables) : Prop :=
  ∀ id canonical, tables.pointer id = some (some canonical) →
    canonical = id ∨ tables.IsRoot canonical

def Tables.urlOf (hashing : Hashing) (tables : Tables) (id : Uuid) : Option String :=
  (tables.pool.row? id).bind hashing.urlOfRow

def Tables.UrlVisible (hashing : Hashing) (tables : Tables) : Prop :=
  ∀ id url, tables.urlOf hashing id = some url →
    ∃ other, tables.urlOf hashing other = some url ∧ tables.IsRoot other

def Rooted (hashing : Hashing) (state : IngestState) : Prop :=
  state.tables.Flat ∧ state.tables.UrlVisible hashing

/-- The columns of a row which the `canonical_only` clause reads. -/
def PoolRow.signalRow (row : PoolRow) (id : Uuid) : SignalRow :=
  { id := some id
    sourceId := some row.sourceId
    ownerTenant := some row.ownerTenant
    fetchedAt := some row.fetchedAt
    canonicalSignalId := row.canonicalSignalId }

/-- The pointer is set to a root, from a row nothing else points to, whose URL
has another root. -/
structure LinksToRoot (hashing : Hashing) (tables : Tables) (id canonical : Uuid) : Prop where
  root : tables.IsRoot canonical
  untargeted : ∀ other, tables.pointer other = some (some id) → other = id
  visible : ∀ url, tables.urlOf hashing id = some url →
    ∃ other, other ≠ id ∧ tables.urlOf hashing other = some url ∧ tables.IsRoot other

def SetsRootPointers (hashing : Hashing) (state : IngestState) : IngestEvent → IngestState → Prop
  | .statement actor, _ =>
    ∀ signal canonical, state.phase actor = .aliased signal canonical →
      LinksToRoot hashing state.tables signal.signalId canonical
  | _, _ => True

section

variable {hashing : Hashing} {tables : Tables} {id canonical : Uuid}

theorem Tables.IsRoot.ne_none (hroot : tables.IsRoot id) : tables.pointer id ≠ none := by
  rcases hroot with hnull | hself
  · simp [hnull]
  · simp [hself]

theorem Tables.IsRoot.mem_keys (hroot : tables.IsRoot id) : id ∈ tables.pool.keys := by
  rw [tables.pool.mem_keys, isSome_iff_ne_none]
  intro hnone
  apply hroot.ne_none
  rw [Tables.pointer, hnone]
  rfl

theorem urlOf_setPointer (other : Uuid) :
    (setPointer tables id canonical).urlOf hashing other = tables.urlOf hashing other := by
  by_cases hother : other = id
  · subst other
    simp only [Tables.urlOf, setPointer, Table.row?_update_self, bind_map]
    rfl
  · simp only [Tables.urlOf, setPointer, Table.row?_update_of_ne _ hother]

variable {other id : Uuid}

theorem isRoot_setPointer_of_ne (hother : other ≠ id) :
    (setPointer tables id canonical).IsRoot other ↔ tables.IsRoot other := by
  unfold Tables.IsRoot
  rw [pointer_setPointer_of_ne hother]

theorem not_isRoot_setPointer (hne : id ≠ canonical) :
    ¬(setPointer tables id canonical).IsRoot id := by
  unfold Tables.IsRoot
  rw [pointer_setPointer_self]
  cases tables.pointer id with
  | none => simp
  | some pointer => simpa using hne.symm

theorem Tables.IsRoot.stampCanonical (hroot : tables.IsRoot other)
    (canonical : Uuid) : (stampCanonical tables canonical).IsRoot other := by
  unfold Sources.stampCanonical
  by_cases hother : other = canonical
  · subst other
    right
    rw [pointer_setPointer_self]
    rcases hroot with hnone | hself
    · rw [hnone]
      rfl
    · rw [hself]
      rfl
  · exact (isRoot_setPointer_of_ne hother).mpr hroot

theorem Tables.Flat.stampCanonical (hflat : tables.Flat) (canonical : Uuid) :
    (stampCanonical tables canonical).Flat := by
  intro other target hpointer
  by_cases hother : other = canonical
  · subst other
    left
    unfold Sources.stampCanonical at hpointer
    rw [pointer_setPointer_self] at hpointer
    obtain ⟨old, _, htarget⟩ := map_eq_some_iff.mp hpointer
    exact (some.inj htarget).symm
  · unfold Sources.stampCanonical at hpointer
    rw [pointer_setPointer_of_ne hother] at hpointer
    rcases hflat other target hpointer with heq | hroot
    · exact .inl heq
    · exact .inr (hroot.stampCanonical canonical)

theorem Tables.UrlVisible.stampCanonical (hvisible : tables.UrlVisible hashing)
    (canonical : Uuid) : (stampCanonical tables canonical).UrlVisible hashing := by
  intro other url hurl
  unfold Sources.stampCanonical at hurl
  rw [urlOf_setPointer] at hurl
  obtain ⟨root, hroot, hisRoot⟩ := hvisible other url hurl
  refine ⟨root, ?_, hisRoot.stampCanonical canonical⟩
  unfold Sources.stampCanonical
  rw [urlOf_setPointer]
  exact hroot

theorem pointer_setPointer_of_row (hrow : (tables.pointer id).isSome) :
    (setPointer tables id canonical).pointer id = some (some canonical) := by
  obtain ⟨old, hold⟩ := isSome_iff_exists.mp hrow
  rw [pointer_setPointer_self, hold]
  rfl

theorem flat_setPointer_iff (hflat : tables.Flat) (hne : id ≠ canonical)
    (hrow : (tables.pointer id).isSome) :
    (setPointer tables id canonical).Flat ↔
      tables.IsRoot canonical ∧ ∀ other, tables.pointer other = some (some id) → other = id := by
  have hself : (setPointer tables id canonical).pointer id =
      some (some canonical) := pointer_setPointer_of_row hrow
  constructor
  · intro hnext
    constructor
    · have hroot := (hnext id canonical hself).resolve_left hne.symm
      exact (isRoot_setPointer_of_ne hne.symm).mp hroot
    · intro other hother
      by_contra hdiff
      have hkept : (setPointer tables id canonical).pointer other = some (some id) := by
        rw [pointer_setPointer_of_ne hdiff]
        exact hother
      rcases hnext other id hkept with heq | hroot
      · exact hdiff heq.symm
      · exact not_isRoot_setPointer hne hroot
  · rintro ⟨hroot, huntargeted⟩ other target hpointer
    by_cases hother : other = id
    · subst other
      rw [hself, some.injEq, some.injEq] at hpointer
      subst target
      exact .inr ((isRoot_setPointer_of_ne hne.symm).mpr hroot)
    · rw [pointer_setPointer_of_ne hother] at hpointer
      rcases hflat other target hpointer with heq | hroot
      · exact .inl heq
      · have htarget : target ≠ id := by
          rintro rfl
          exact hother (huntargeted other hpointer)
        exact .inr ((isRoot_setPointer_of_ne htarget).mpr hroot)

theorem urlVisible_setPointer_iff (hvisible : tables.UrlVisible hashing) (hne : id ≠ canonical) :
    (setPointer tables id canonical).UrlVisible hashing ↔
      ∀ url, tables.urlOf hashing id = some url →
        ∃ other, other ≠ id ∧ tables.urlOf hashing other = some url ∧ tables.IsRoot other := by
  constructor
  · intro hnext url hurl
    have hkept : (setPointer tables id canonical).urlOf hashing id = some url := by
      rw [urlOf_setPointer]
      exact hurl
    obtain ⟨other, hother, hroot⟩ := hnext id url hkept
    have hdiff : other ≠ id := by
      rintro rfl
      exact not_isRoot_setPointer hne hroot
    rw [urlOf_setPointer] at hother
    exact ⟨other, hdiff, hother, (isRoot_setPointer_of_ne hdiff).mp hroot⟩
  · intro hother id' url hurl
    rw [urlOf_setPointer] at hurl
    obtain ⟨root, hroot, hisRoot⟩ := hvisible id' url hurl
    have hexists : ∃ visible, visible ≠ id ∧
        tables.urlOf hashing visible = some url ∧ tables.IsRoot visible := by
      by_cases heq : root = id
      · subst root
        exact hother url hroot
      · exact ⟨root, heq, hroot, hisRoot⟩
    obtain ⟨visible, hdiff, hurlVisible, hrootVisible⟩ := hexists
    refine ⟨visible, ?_, (isRoot_setPointer_of_ne hdiff).mpr hrootVisible⟩
    rw [urlOf_setPointer]
    exact hurlVisible

theorem rooted_setPointer_iff (hflat : tables.Flat) (hvisible : tables.UrlVisible hashing)
    (hne : id ≠ canonical) (hrow : (tables.pointer id).isSome) :
    ((setPointer tables id canonical).Flat ∧ (setPointer tables id canonical).UrlVisible hashing) ↔
      LinksToRoot hashing tables id canonical := by
  rw [flat_setPointer_iff hflat hne hrow, urlVisible_setPointer_iff hvisible hne]
  constructor
  · rintro ⟨⟨hroot, huntargeted⟩, hvisible⟩
    exact ⟨hroot, huntargeted, hvisible⟩
  · intro hlinks
    exact ⟨⟨hlinks.root, hlinks.untargeted⟩, hlinks.visible⟩

/-! ## What a write leaves alone -/

variable {source : Source} {turn : WriteTurn} {signal : Signal}

theorem write_eq_put (hresult : writeResult tables source turn signal = .inserted) :
    tables.pointer signal.signalId = none ∧
      tables.write source turn signal =
        { tables with
          pool := tables.pool.put signal.signalId
            (signal.row (resolvedTenant source.ownerTenant signal)) } := by
  unfold Tables.write writeResult at *
  generalize hwrite : writeCanonicalSignal source.collapse source.ownerTenant
    turn tables.pool signal = result at *
  obtain ⟨pool, outcome⟩ := result
  dsimp only at hresult ⊢
  subst outcome
  obtain ⟨hfresh, hpool⟩ := write_inserted hwrite
  unfold Tables.pointer
  rw [hfresh, hpool]
  exact ⟨rfl, rfl⟩

theorem pointer_write (hresult : writeResult tables source turn signal ≠ .inserted) (id : Uuid) :
    (tables.write source turn signal).pointer id = tables.pointer id := by
  have hsame := write_not_inserted hresult id
  have hpointers := congrArg (Option.map PoolRow.canonicalSignalId) hsame
  simp only [map_map] at hpointers
  exact hpointers

theorem urlOf_write (hashing : Hashing)
    (hresult : writeResult tables source turn signal ≠ .inserted) (id : Uuid) :
    (tables.write source turn signal).urlOf hashing id = tables.urlOf hashing id := by
  have hsame := write_not_inserted hresult id
  have hurls := congrArg (fun row => row.bind hashing.urlOfRow) hsame
  simp only [bind_map] at hurls
  exact hurls

theorem pointer_write_of_ne (hid : id ≠ signal.signalId) :
    (tables.write source turn signal).pointer id = tables.pointer id := by
  by_cases hresult : writeResult tables source turn signal = .inserted
  · rw [(write_eq_put hresult).2]
    simp only [Tables.pointer, Table.row?_put_of_ne _ hid]
  · exact pointer_write hresult id

theorem urlOf_write_of_ne (hashing : Hashing) (hid : id ≠ signal.signalId) :
    (tables.write source turn signal).urlOf hashing id = tables.urlOf hashing id := by
  by_cases hresult : writeResult tables source turn signal = .inserted
  · rw [(write_eq_put hresult).2]
    simp only [Tables.urlOf, Table.row?_put_of_ne _ hid]
  · exact urlOf_write hashing hresult id

theorem pointer_write_inserted (hplain : signal.canonicalSignalId = none)
    (hresult : writeResult tables source turn signal = .inserted) :
    (tables.write source turn signal).pointer signal.signalId = some none := by
  rw [(write_eq_put hresult).2]
  simp only [Tables.pointer, Table.row?_put_self, map_some, Signal.row, hplain]

theorem Tables.IsRoot.write (hroot : tables.IsRoot id) (hplain : signal.canonicalSignalId = none) :
    (tables.write source turn signal).IsRoot id := by
  unfold Tables.IsRoot at hroot ⊢
  by_cases hresult : writeResult tables source turn signal = .inserted
  · by_cases hid : id = signal.signalId
    · left
      rw [hid]
      exact pointer_write_inserted hplain hresult
    · rw [pointer_write_of_ne hid]
      exact hroot
  · rw [pointer_write hresult]
    exact hroot

theorem flat_write (hplain : signal.canonicalSignalId = none)
    (hflat : tables.Flat) : (tables.write source turn signal).Flat := by
  intro id canonical hpointer
  by_cases hnew : id = signal.signalId ∧ writeResult tables source turn signal = .inserted
  · rw [hnew.1, pointer_write_inserted hplain hnew.2] at hpointer
    cases hpointer
  · have hold : tables.pointer id = some (some canonical) := by
      rw [← hpointer]
      by_cases hid : id = signal.signalId
      · exact (pointer_write (fun h => hnew ⟨hid, h⟩) id).symm
      · exact (pointer_write_of_ne hid).symm
    rcases hflat id canonical hold with heq | hroot
    · exact .inl heq
    · exact .inr (hroot.write hplain)

theorem urlVisible_write (hplain : signal.canonicalSignalId = none)
    (hvisible : tables.UrlVisible hashing) :
    (tables.write source turn signal).UrlVisible hashing := by
  intro id url hurl
  by_cases hnew : id = signal.signalId ∧ writeResult tables source turn signal = .inserted
  · refine ⟨id, hurl, .inl ?_⟩
    rw [hnew.1]
    exact pointer_write_inserted hplain hnew.2
  · have hold : tables.urlOf hashing id = some url := by
      rw [← hurl]
      by_cases hid : id = signal.signalId
      · exact (urlOf_write hashing (fun h => hnew ⟨hid, h⟩) id).symm
      · exact (urlOf_write_of_ne hashing hid).symm
    obtain ⟨other, hother, hroot⟩ := hvisible id url hold
    refine ⟨other, ?_, hroot.write hplain⟩
    rw [← hother]
    by_cases hresult : writeResult tables source turn signal = .inserted
    · apply urlOf_write_of_ne
      rintro rfl
      exact hroot.ne_none (write_eq_put hresult).1
    · exact urlOf_write hashing hresult other

theorem isSome_pointer_write (hrow : (tables.pointer id).isSome) :
    ((tables.write source turn signal).pointer id).isSome := by
  unfold Tables.pointer at hrow ⊢
  rw [isSome_map] at hrow ⊢
  exact isSome_row?_write hrow

theorem isSome_pointer_setPointer (hrow : (tables.pointer other).isSome) :
    ((setPointer tables id canonical).pointer other).isSome := by
  unfold Tables.pointer at hrow ⊢
  rw [isSome_map] at hrow ⊢
  rwa [isSome_row?_setPointer]

end

/-! ## One step -/

def Phase.Sound (tables : Tables) : Phase → Prop
  | .idle => True
  | .written signal => (tables.pointer signal.signalId).isSome
  | .missedUrl signal => (tables.pointer signal.signalId).isSome
  | .linking signal _ => (tables.pointer signal.signalId).isSome
  | .stamped signal canonical =>
    (tables.pointer signal.signalId).isSome ∧ signal.signalId ≠ canonical
  | .aliased signal canonical =>
    (tables.pointer signal.signalId).isSome ∧ signal.signalId ≠ canonical

def PhasesSound (state : IngestState) : Prop :=
  ∀ actor, (state.phase actor).Sound state.tables

section

variable {hashing : Hashing} {sources : String → Source}
variable {state next : IngestState} {event : IngestEvent}

theorem Phase.Sound.mono {before after : Tables} {phase : Phase}
    (hrows : ∀ id, (before.pointer id).isSome → (after.pointer id).isSome)
    (hsound : phase.Sound before) : phase.Sound after := by
  cases phase with
  | idle => trivial
  | written signal => exact hrows _ hsound
  | missedUrl signal => exact hrows _ hsound
  | linking signal canonical => exact hrows _ hsound
  | stamped signal canonical => exact ⟨hrows _ hsound.1, hsound.2⟩
  | aliased signal canonical => exact ⟨hrows _ hsound.1, hsound.2⟩

variable {tables : Tables} {dedupe : IngestDedupe} {signal : Signal}

theorem PhasesSound.move (hsound : PhasesSound state) {actor : String} {phase : Phase}
    (hrows : ∀ id, (state.tables.pointer id).isSome → (tables.pointer id).isSome)
    (hphase : phase.Sound tables) : PhasesSound (state.move actor tables phase) := by
  intro other
  by_cases hother : other = actor
  · subst other
    simpa [IngestState.move] using hphase
  · simp only [IngestState.move, Function.update_of_ne hother]
    exact (hsound other).mono hrows

theorem sound_phaseAfterContent (hrow : (tables.pointer signal.signalId).isSome) :
    (phaseAfterContent hashing dedupe tables.pool signal).Sound tables := by
  unfold phaseAfterContent
  split
  · exact hrow
  · trivial

theorem sound_phaseAfterUrl (hrow : (tables.pointer signal.signalId).isSome) :
    (phaseAfterUrl hashing dedupe tables.pool signal).Sound tables := by
  unfold phaseAfterUrl
  split
  · exact hrow
  · exact hrow
  · exact sound_phaseAfterContent hrow

theorem ingestWrite_of_step {actor : String} {turn : WriteTurn}
    (hstep : ingestStep hashing sources state (.write actor signal turn) = some next) :
    signal.canonicalSignalId = none ∧
      next = ingestWrite (sources actor) state actor signal turn := by
  simp only [ingestStep] at hstep
  split at hstep
  case h_1 hidle hplain => exact ⟨hplain, (some.inj hstep).symm⟩
  case h_2 => cases hstep

theorem stampTenant_canonicalSignalId (source : Source) (signal : Signal) :
    (stampTenant source signal).canonicalSignalId = signal.canonicalSignalId := by
  unfold stampTenant
  split <;> rfl

theorem phasesSound_step (hsound : PhasesSound state)
    (hstep : ingestStep hashing sources state event = some next) : PhasesSound next := by
  cases event with
  | write actor signal turn =>
    obtain ⟨hplain, rfl⟩ := ingestWrite_of_step hstep
    apply hsound.move (fun _ hrow => isSome_pointer_write hrow)
    unfold phaseAfterWrite
    cases hresult : writeResult state.tables (sources actor) turn
        (stampTenant (sources actor) signal) with
    | inserted =>
      dsimp only
      split
      · simp only [Phase.Sound]
        rw [pointer_write_inserted _ hresult]
        · rfl
        · rw [stampTenant_canonicalSignalId]
          exact hplain
      · trivial
    | collapsed => trivial
    | conflict => trivial
    | raised => trivial
  | abandon actor =>
    simp only [ingestStep, some.injEq] at hstep
    subst next
    exact hsound.move (fun _ hrow => hrow) trivial
  | statement actor =>
    simp only [ingestStep, ingestStatement] at hstep
    have hphase := hsound actor
    cases hcase : state.phase actor with
    | idle =>
      rw [hcase] at hstep
      cases hstep
    | written signal =>
      rw [hcase] at hstep hphase
      obtain ⟨dedupe, _, rfl⟩ := map_eq_some_iff.mp hstep
      exact hsound.move (fun _ hrow => hrow) (sound_phaseAfterUrl hphase)
    | missedUrl signal =>
      rw [hcase] at hstep hphase
      obtain ⟨dedupe, _, rfl⟩ := map_eq_some_iff.mp hstep
      exact hsound.move (fun _ hrow => hrow) (sound_phaseAfterContent hphase)
    | linking signal canonical =>
      rw [hcase] at hstep hphase
      simp only [some.injEq] at hstep
      subst next
      apply hsound.move (fun _ hrow => isSome_pointer_setPointer hrow)
      split
      case isTrue hself => trivial
      case isFalse hdiff => exact ⟨isSome_pointer_setPointer hphase, hdiff⟩
    | stamped signal canonical =>
      rw [hcase] at hstep hphase
      simp only [some.injEq] at hstep
      subst next
      have hrows : ∀ id, (state.tables.pointer id).isSome →
          ((insertAlias state.tables signal.signalId
            canonical).pointer id).isSome := by
        intro id hrow
        unfold Tables.pointer
        rw [pool_insertAlias]
        exact hrow
      exact hsound.move hrows ⟨hrows _ hphase.1, hphase.2⟩
    | aliased signal canonical =>
      rw [hcase] at hstep hphase
      simp only [some.injEq] at hstep
      subst next
      exact hsound.move (fun _ hrow => isSome_pointer_setPointer hrow) trivial

theorem rooted_insertAlias (id canonical : Uuid)
    (hrooted : Rooted hashing state) (actor : String) (phase : Phase) :
    Rooted hashing (state.move actor (insertAlias state.tables id canonical) phase) := by
  have hpool : (insertAlias state.tables id canonical).pool = state.tables.pool := pool_insertAlias
  unfold Rooted Tables.Flat Tables.UrlVisible Tables.IsRoot Tables.pointer Tables.urlOf at hrooted ⊢
  simp only [IngestState.move, hpool]
  exact hrooted

theorem rooted_step_iff (hsound : PhasesSound state) (hrooted : Rooted hashing state)
    (hstep : ingestStep hashing sources state event = some next) :
    Rooted hashing next ↔ SetsRootPointers hashing state event next := by
  cases event with
  | write actor signal turn =>
    obtain ⟨hplain, rfl⟩ := ingestWrite_of_step hstep
    rw [← stampTenant_canonicalSignalId (sources actor)] at hplain
    exact iff_of_true
      ⟨flat_write hplain hrooted.1, urlVisible_write hplain hrooted.2⟩
      trivial
  | abandon actor =>
    simp only [ingestStep, some.injEq] at hstep
    subst next
    exact iff_of_true hrooted trivial
  | statement actor =>
    simp only [ingestStep, ingestStatement] at hstep
    have hphase := hsound actor
    unfold SetsRootPointers
    cases hcase : state.phase actor with
    | idle =>
      rw [hcase] at hstep
      cases hstep
    | written signal =>
      rw [hcase] at hstep
      obtain ⟨dedupe, _, rfl⟩ := map_eq_some_iff.mp hstep
      exact iff_of_true hrooted (by simp [hcase])
    | missedUrl signal =>
      rw [hcase] at hstep
      obtain ⟨dedupe, _, rfl⟩ := map_eq_some_iff.mp hstep
      exact iff_of_true hrooted (by simp [hcase])
    | linking signal canonical =>
      rw [hcase] at hstep
      simp only [some.injEq] at hstep
      subst next
      exact iff_of_true
        ⟨hrooted.1.stampCanonical canonical, hrooted.2.stampCanonical canonical⟩
        (by simp [hcase])
    | stamped signal canonical =>
      rw [hcase] at hstep
      simp only [some.injEq] at hstep
      subst next
      exact iff_of_true (rooted_insertAlias _ _ hrooted actor _) (by simp [hcase])
    | aliased signal canonical =>
      rw [hcase] at hstep hphase
      simp only [some.injEq] at hstep
      subst next
      have hiff := rooted_setPointer_iff hrooted.1 hrooted.2 hphase.2 hphase.1
      refine hiff.trans ⟨?_, fun h => h signal canonical hcase⟩
      intro hlinks other target hsame
      rw [hcase] at hsame
      obtain ⟨rfl, rfl⟩ := Phase.aliased.inj hsame
      exact hlinks

end

/-- The pointers are flat and every URL is visible in all states of a run
exactly if every pointer is set from an untargeted row to a root. -/
theorem ingest_rooted_iff (hashing : Hashing) (sources : String → Source)
    (events : List IngestEvent) :
    VisitsOnly (ingestStep hashing sources) (Rooted hashing) IngestState.start events ↔
      StepsSatisfy (ingestStep hashing sources) (SetsRootPointers hashing)
        IngestState.start events := by
  have hkeep : ∀ state event next, PhasesSound state →
      ingestStep hashing sources state event = some next →
      PhasesSound next :=
    fun _ _ _ hsound hstep => phasesSound_step hsound hstep
  have hexact : ∀ state event next, PhasesSound state →
      Rooted hashing state →
      ingestStep hashing sources state event = some next →
      (Rooted hashing next ↔ SetsRootPointers hashing state event next) :=
    fun _ _ _ hsound hrooted hstep => rooted_step_iff hsound hrooted hstep
  have hsound : PhasesSound IngestState.start := fun _ => trivial
  have hrooted : Rooted hashing IngestState.start := by
    refine ⟨fun id canonical hpointer => ?_, fun id url hurl => ?_⟩
    · simp [Tables.pointer, IngestState.start] at hpointer
    · simp [Tables.urlOf, IngestState.start] at hurl
  exact visitsOnly_iff_stepsSatisfy hkeep hexact hsound hrooted

def urlTierSource : Source :=
  { plainSource 1 Nat.one_pos false with
    dedupe := some ⟨true, false, some "default"⟩ }

def articleSignal (id : Uuid) (sourceId : String) : Signal :=
  { plainSignal id "" none with
    sourceId := sourceId
    canonicalUrl := some "https://example.org/a" }

def crossingLinks : List IngestEvent :=
  [.write "a" (articleSignal 1 "a") ⟨1000, false, false⟩,
    .write "b" (articleSignal 2 "b") ⟨1000, false, false⟩,
    .statement "a", .statement "b", .statement "a", .statement "b",
    .statement "a", .statement "b", .statement "a", .statement "b"]

theorem crossing_links_leave_no_root :
    ∃ final, run (ingestStep plainHashing fun _ => urlTierSource)
        IngestState.start crossingLinks = some final ∧
      (final.phase "a" = .idle ∧ final.phase "b" = .idle) ∧
      ¬final.tables.Flat ∧ ¬final.tables.UrlVisible plainHashing := by
  refine ⟨_, rfl, ⟨rfl, rfl⟩, ?_, ?_⟩
  · intro hflat
    rcases hflat 1 2 rfl with heq | hnull | hself
    · exact absurd heq (by decide)
    · exact absurd hnull (by decide)
    · exact absurd hself (by decide)
  · intro hvisible
    obtain ⟨other, _, hroot⟩ := hvisible 1 "https://example.org/a" rfl
    have hkey : other = 1 ∨ other = 2 := List.mem_pair.mp hroot.mem_keys
    rcases hkey with rfl | rfl
    · rcases hroot with hnull | hself
      · exact absurd hnull (by decide)
      · exact absurd hself (by decide)
    · rcases hroot with hnull | hself
      · exact absurd hnull (by decide)
      · exact absurd hself (by decide)

theorem untargeted_stampCanonical {tables : Tables} {id canonical : Uuid}
    (huntargeted : ∀ other, tables.pointer other ≠ some (some id)) (hdiffers : id ≠ canonical)
    (other : Uuid) : (stampCanonical tables canonical).pointer other ≠ some (some id) := by
  intro hpointer
  unfold stampCanonical at hpointer
  by_cases hother : other = canonical
  · subst other
    rw [pointer_setPointer_self] at hpointer
    obtain ⟨_, _, heq⟩ := map_eq_some_iff.mp hpointer
    exact hdiffers (some.inj heq).symm
  · rw [pointer_setPointer_of_ne hother] at hpointer
    exact huntargeted other hpointer

theorem flat_insertAlias (id canonical : Uuid) {tables : Tables}
    (hflat : tables.Flat) : (insertAlias tables id canonical).Flat := by
  have hpool : (insertAlias tables id canonical).pool = tables.pool := pool_insertAlias
  unfold Tables.Flat Tables.IsRoot Tables.pointer at hflat ⊢
  rw [hpool]
  exact hflat

end Legba.Sources
