import Legba.InboundDrain

/-!
# Is an acknowledged envelope published?

A row is published right after it was written, by the delivery which wrote it.
If that delivery crashes in between, the next one finds its own row, takes it
for a duplicate, and publishes nothing.  So the rows of an acknowledged
envelope are all published exactly if no delivery of it crashed between the
write of a row and its publication.
-/

namespace Legba.Sources

open LabelledRun List Option

def DrainState.ackedAt (state : DrainState) (index : ℕ) : Bool :=
  (state.letters[index]?).any Letter.acked

def DrainState.InHand (state : DrainState) (entry : ℕ × Uuid) : Prop :=
  ∃ source pending, state.current = some ⟨entry.1, .written entry.2 source pending⟩

def AckedPublished (state : DrainState) : Prop :=
  ∀ entry ∈ state.inserted, state.ackedAt entry.1 = true → entry.2 ∈ state.plane.published

/-- No envelope is acknowledged of which a delivery crashed between the write
of a row and its publication. -/
def AcksUntorn (state : DrainState) : DrainEvent → DrainState → Prop
  | .ack true, _ =>
    ∀ delivery, state.current = some delivery → ∀ id, (delivery.index, id) ∉ state.torn
  | _, _ => True

structure Accounted (state : DrainState) : Prop where
  current : ∀ delivery, state.current = some delivery →
    delivery.index < state.letters.length ∧ state.ackedAt delivery.index = false
  inserted : ∀ entry ∈ state.inserted,
    entry.2 ∈ state.plane.published ∨ entry ∈ state.torn ∨ state.InHand entry
  torn : ∀ entry ∈ state.torn,
    entry ∈ state.inserted ∧ entry.2 ∉ state.plane.published ∧
      ∀ index, ¬state.InHand (index, entry.2)
  inHand : ∀ entry, state.InHand entry → entry ∈ state.inserted ∧ entry.2 ∉ state.plane.published
  rows : ∀ entry ∈ state.inserted, (state.plane.tables.pool.row? entry.2).isSome
  publishedRows : ∀ id ∈ state.plane.published, (state.plane.tables.pool.row? id).isSome

section

variable {letters : List Letter} {index other : ℕ}

theorem any_acked_modify {change : Letter → Letter}
    (hchange : ∀ letter, (change letter).acked = letter.acked) :
    ((letters.modify index change)[other]?).any Letter.acked =
      (letters[other]?).any Letter.acked := by
  rw [getElem?_modify]
  cases letters[other]? with
  | none => rfl
  | some letter =>
    by_cases heq : index = other
    · simp [heq, hchange]
    · simp [heq]

theorem any_acked_ack (hindex : index < letters.length) :
    ((letters.modify index Letter.ack)[other]?).any Letter.acked =
      (decide (other = index) || (letters[other]?).any Letter.acked) := by
  rw [getElem?_modify]
  by_cases heq : index = other
  · subst other
    rw [getElem?_eq_getElem hindex]
    simp [Letter.ack]
  · have hne : other ≠ index := fun h => heq h.symm
    cases letters[other]? with
    | none => simp [hne]
    | some letter => simp [heq, hne]

theorem any_acked_append (message : Option Envelope) :
    ((letters ++ [⟨message, 0, false, false⟩])[other]?).any Letter.acked =
      (letters[other]?).any Letter.acked := by
  by_cases hold : other < letters.length
  · rw [getElem?_append_left hold]
  · rw [getElem?_append_right (not_lt.mp hold), getElem?_eq_none (not_lt.mp hold)]
    cases other - letters.length with
    | zero => rfl
    | succ n => rfl

@[simp] theorem acked_term (letter : Letter) : letter.term.acked = letter.acked := rfl

@[simp] theorem acked_nakOrTerm (letter : Letter) : letter.nakOrTerm.acked = letter.acked := by
  unfold Letter.nakOrTerm
  split <;> rfl

end

section

variable {hashing : Hashing} {codec : Codec}
variable {state next : DrainState} {event : DrainEvent}

theorem Accounted.of_same_rows (hinv : Accounted state)
    (hrows : next.inserted = state.inserted ∧ next.torn = state.torn ∧ next.plane = state.plane)
    (hbefore : ∀ entry, ¬state.InHand entry) (hafter : ∀ entry, ¬next.InHand entry)
    (hcurrent : ∀ delivery, next.current = some delivery → delivery.index < next.letters.length ∧
      next.ackedAt delivery.index = false) : Accounted next := by
  obtain ⟨hinserted, htorn, hplane⟩ := hrows
  refine ⟨hcurrent, ?_, ?_, ?_, ?_, ?_⟩
  · intro entry hentry
    rw [hinserted] at hentry
    rw [hplane, htorn]
    rcases hinv.inserted entry hentry with hpublished | htornEntry | hhand
    · exact .inl hpublished
    · exact .inr (.inl htornEntry)
    · exact absurd hhand (hbefore entry)
  · intro entry hentry
    rw [htorn] at hentry
    rw [hinserted, hplane]
    obtain ⟨hmem, hunpublished, _⟩ := hinv.torn entry hentry
    exact ⟨hmem, hunpublished, fun index => hafter (index, entry.2)⟩
  · intro entry hhand
    exact absurd hhand (hafter entry)
  · intro entry hentry
    rw [hinserted] at hentry
    rw [hplane]
    exact hinv.rows entry hentry
  · intro id hid
    rw [hplane] at hid ⊢
    exact hinv.publishedRows id hid

theorem Accounted.settle (hinv : Accounted state) (index : ℕ) (change : Letter → Letter)
    (hbefore : ∀ entry, ¬state.InHand entry) : Accounted (state.settle index change) := by
  refine hinv.of_same_rows ?_ hbefore ?_ ?_
  · exact ⟨rfl, rfl, rfl⟩
  · rintro entry ⟨source, pending, hstage⟩
    cases hstage
  · intro delivery hdelivery
    cases hdelivery

theorem Accounted.at (hinv : Accounted state) {delivery : Delivery}
    (hdelivery : state.current = some delivery) {stage : Stage}
    (hbefore : ∀ entry, ¬state.InHand entry)
    (hstage : ∀ id source pending, stage ≠ .written id source pending) :
    Accounted (state.at delivery.index stage) := by
  refine hinv.of_same_rows ?_ hbefore ?_ ?_
  · exact ⟨rfl, rfl, rfl⟩
  · rintro entry ⟨source, pending, hwritten⟩
    have hsame := congrArg Delivery.stage (some.inj hwritten)
    exact hstage _ _ _ hsame
  · intro other hother
    rw [← some.inj hother]
    exact hinv.current delivery hdelivery

variable {tables : Tables} {index : ℕ} {source : Source} {rest : List Signal}

section

variable (hinv : Accounted state)

include hinv

theorem Accounted.replaceTables
    (hkept : ∀ id, (state.plane.tables.pool.row? id).isSome → (tables.pool.row? id).isSome) :
    Accounted
      { state with plane := { state.plane with tables := tables } } where
  current := hinv.current
  inserted := hinv.inserted
  torn := hinv.torn
  inHand := hinv.inHand
  rows := fun entry hentry => hkept _ (hinv.rows entry hentry)
  publishedRows := fun id hid => hkept _ (hinv.publishedRows id hid)

theorem accounted_written {id : Uuid} {delivery : Delivery}
    (hdelivery : state.current = some delivery) (hindex : delivery.index = index)
    (hbefore : ∀ entry, ¬state.InHand entry) (hfresh : state.plane.tables.pool.row? id = none)
    (hrow : (tables.pool.row? id).isSome)
    (hkept : ∀ other, (state.plane.tables.pool.row? other).isSome → (tables.pool.row?
      other).isSome) :
    Accounted
      { state with
        plane := { state.plane with tables := tables }
        current := some ⟨index, .written id source rest⟩
        inserted := state.inserted ++ [(index, id)] } := by
  have hunpublished : id ∉ state.plane.published := by
    intro hid
    have hold := hinv.publishedRows id hid
    rw [hfresh] at hold
    cases hold
  refine ⟨?_, ?_, ?_, ?_, ?_, ?_⟩
  · intro other hother
    rw [← some.inj hother, ← hindex]
    exact hinv.current delivery hdelivery
  · intro entry hentry
    rcases mem_append.mp hentry with hold | hnew
    · rcases hinv.inserted entry hold with hpublished | htorn | hhand
      · exact .inl hpublished
      · exact .inr (.inl htorn)
      · exact absurd hhand (hbefore entry)
    · rw [mem_singleton.mp hnew]
      exact .inr (.inr ⟨source, rest, rfl⟩)
  · intro entry hentry
    obtain ⟨hmem, hunpublishedEntry, _⟩ := hinv.torn entry hentry
    refine ⟨mem_append_left _ hmem, hunpublishedEntry, ?_⟩
    rintro other ⟨heldSource, pending, hstage⟩
    have hid : id = entry.2 := by
      have hsame := congrArg Delivery.stage (some.inj hstage)
      exact (Stage.written.inj hsame).1
    have hold := hinv.rows entry hmem
    rw [← hid, hfresh] at hold
    cases hold
  · rintro entry ⟨heldSource, pending, hstage⟩
    have hentry : entry = (index, id) := by
      have hsame := some.inj hstage
      have hfirst := congrArg Delivery.index hsame
      have hsecond := (Stage.written.inj (congrArg Delivery.stage hsame)).1
      exact Prod.ext hfirst.symm hsecond.symm
    subst entry
    exact ⟨mem_append_right _ (mem_singleton_self _), hunpublished⟩
  · intro entry hentry
    rcases mem_append.mp hentry with hold | hnew
    · exact hkept _ (hinv.rows entry hold)
    · rw [mem_singleton.mp hnew]
      exact hrow
  · intro other hother
    exact hkept _ (hinv.publishedRows other hother)

theorem accounted_publish {id : Uuid}
    (hcurrent : state.current = some ⟨index, .written id source rest⟩) :
    Accounted
      { state.at index (.emitting source rest) with
        plane := { state.plane with
          published := state.plane.published ++ [id] } } := by
  have hhand : ∀ entry, state.InHand entry ↔ entry = (index, id) := by
    intro entry
    unfold DrainState.InHand
    rw [hcurrent]
    constructor
    · rintro ⟨heldSource, pending, hstage⟩
      have hsame := some.inj hstage
      have hfirst := congrArg Delivery.index hsame
      have hsecond := (Stage.written.inj (congrArg Delivery.stage hsame)).1
      exact Prod.ext hfirst.symm hsecond.symm
    · rintro rfl
      exact ⟨source, rest, rfl⟩
  have hrow := hinv.rows _ (hinv.inHand _ ((hhand _).mpr rfl)).1
  refine ⟨?_, ?_, ?_, ?_, hinv.rows, ?_⟩
  · intro other hother
    rw [← some.inj hother]
    exact hinv.current ⟨index, .written id source rest⟩ hcurrent
  · intro entry hentry
    rcases hinv.inserted entry hentry with hpublished | htorn | hheld
    · exact .inl (mem_append_left _ hpublished)
    · exact .inr (.inl htorn)
    · rw [(hhand entry).mp hheld]
      exact .inl (mem_append_right _ (mem_singleton_self _))
  · intro entry hentry
    obtain ⟨hmem, hunpublished, hfree⟩ := hinv.torn entry hentry
    refine ⟨hmem, ?_, ?_⟩
    · intro hid
      rcases mem_append.mp hid with hold | hnew
      · exact hunpublished hold
      · apply hfree index
        rw [hhand, mem_singleton.mp hnew]
    · rintro other ⟨heldSource, pending, hstage⟩
      have hsame := congrArg Delivery.stage (some.inj hstage)
      cases hsame
  · rintro entry ⟨heldSource, pending, hstage⟩
    have hsame := congrArg Delivery.stage (some.inj hstage)
    cases hsame
  · intro other hother
    rcases mem_append.mp hother with hold | hnew
    · exact hinv.publishedRows other hold
    · rw [mem_singleton.mp hnew]
      exact hrow

theorem accounted_crash : Accounted state.crash := by
  have hafter : ∀ entry, ¬state.crash.InHand entry := by
    rintro entry ⟨source, pending, hstage⟩
    cases hstage
  by_cases hheld : ∃ entry, state.InHand entry
  · obtain ⟨⟨index, id⟩, hhand⟩ := hheld
    have hcurrent := hhand
    obtain ⟨source, pending, hcurrent⟩ := hcurrent
    have htorn : state.crash.torn = state.torn ++ [(index, id)] := by
      unfold DrainState.crash
      rw [hcurrent]
    refine ⟨?_, ?_, ?_, ?_, hinv.rows, hinv.publishedRows⟩
    · intro delivery hdelivery
      cases hdelivery
    · intro entry hentry
      rw [htorn]
      rcases hinv.inserted entry hentry with hpublished | hold | hother
      · exact .inl hpublished
      · exact .inr (.inl (mem_append_left _ hold))
      · refine .inr (.inl (mem_append_right _ ?_))
        obtain ⟨otherSource, otherPending, hstage⟩ := hother
        rw [hcurrent] at hstage
        have hsame := some.inj hstage
        have hfirst := congrArg Delivery.index hsame
        have hsecond := (Stage.written.inj (congrArg Delivery.stage hsame)).1
        rw [mem_singleton]
        exact Prod.ext hfirst.symm hsecond.symm
    · intro entry hentry
      rw [htorn] at hentry
      rcases mem_append.mp hentry with hold | hnew
      · obtain ⟨hmem, hunpublished, _⟩ := hinv.torn entry hold
        exact ⟨hmem, hunpublished, fun other => hafter (other, entry.2)⟩
      · rw [mem_singleton.mp hnew]
        obtain ⟨hmem, hunpublished⟩ := hinv.inHand _ hhand
        exact ⟨hmem, hunpublished, fun other => hafter (other, id)⟩
    · intro entry hhandAfter
      exact absurd hhandAfter (hafter entry)
  · have htorn : state.crash.torn = state.torn := by
      unfold DrainState.crash
      split
      case h_1 index id source pending hcurrent =>
        exact absurd ⟨(index, id), source, pending, hcurrent⟩ hheld
      case h_2 => rfl
    refine hinv.of_same_rows ?_ (not_exists.mp hheld) hafter ?_
    · exact ⟨rfl, htorn, rfl⟩
    · intro delivery hdelivery
      cases hdelivery

end

/-! ## One step -/

theorem not_inHand_of_emitting {pending : List Signal}
    (hcurrent : state.current = some ⟨index, .emitting source pending⟩)
    (entry : ℕ × Uuid) : ¬state.InHand entry := by
  rintro ⟨heldSource, held, hstage⟩
  rw [hcurrent] at hstage
  cases hstage

theorem not_inHand_of_received (hcurrent : state.current = some ⟨index, .received⟩)
    (entry : ℕ × Uuid) : ¬state.InHand entry := by
  rintro ⟨heldSource, held, hstage⟩
  rw [hcurrent] at hstage
  cases hstage

theorem not_inHand_of_none (hcurrent : state.current = none)
    (entry : ℕ × Uuid) : ¬state.InHand entry := by
  rintro ⟨heldSource, held, hstage⟩
  rw [hcurrent] at hstage
  cases hstage

/-- A step other than an acknowledgement which is kept acknowledges nothing,
and adds no row to an acknowledged envelope. -/
structure Unacknowledging (state next : DrainState) : Prop where
  acked : ∀ index, next.ackedAt index = state.ackedAt index
  inserted : ∀ entry ∈ next.inserted, entry ∈ state.inserted ∨ state.ackedAt entry.1 = false
  published : ∀ id ∈ state.plane.published, id ∈ next.plane.published

theorem Unacknowledging.ackedPublished (hkept : Unacknowledging state next)
    (hpublished : AckedPublished state) : AckedPublished next := by
  intro entry hentry hacked
  rw [hkept.acked] at hacked
  rcases hkept.inserted entry hentry with hold | hopen
  · exact hkept.published _ (hpublished entry hold hacked)
  · rw [hopen] at hacked
    cases hacked

theorem unacknowledging_settle (index : ℕ) {change : Letter → Letter}
    (hchange : ∀ letter, (change letter).acked = letter.acked) :
    Unacknowledging state
      ({ state with plane := { state.plane with tables := tables } }.settle index change) where
  acked := fun _ => any_acked_modify hchange
  inserted := fun _ hentry => .inl hentry
  published := fun _ hid => hid

theorem unacknowledging_at (index : ℕ) (stage : Stage) :
    Unacknowledging state
      ({ state with plane := { state.plane with tables := tables } }.at index stage) where
  acked := fun _ => rfl
  inserted := fun _ hentry => .inl hentry
  published := fun _ hid => hid

theorem accounted_emitSignal (hinv : Accounted state) {raw : Signal} {turn : EntryTurn}
    (hcurrent : state.current = some ⟨index, .emitting source (raw :: rest)⟩) :
    Accounted (emitSignal hashing turn state index source rest) ∧
      Unacknowledging state (emitSignal hashing turn state index source rest) := by
  have hbefore := not_inHand_of_emitting hcurrent
  have hkept : ∀ id, (state.plane.tables.pool.row? id).isSome →
      ((processOne hashing source turn
        state.plane.tables).1.pool.row? id).isSome :=
    fun id hrow => isSome_row?_processOne hrow
  unfold emitSignal
  cases hresult : processOne hashing source turn state.plane.tables with
  | mk tables outcome =>
    rw [hresult] at hkept
    have hprocess := hinv.replaceTables hkept
    have hother : Accounted
        ({ state with plane := { state.plane with tables := tables } }.at
          index (.emitting source rest)) :=
      hprocess.at hcurrent hbefore (by simp)
    cases outcome with
    | written id =>
      obtain ⟨hfresh, hrow⟩ := processOne_written hresult
      refine ⟨accounted_written hinv hcurrent rfl hbefore hfresh hrow hkept, ?_, ?_, ?_⟩
      · exact fun other => rfl
      · intro entry hentry
        rcases mem_append.mp hentry with hold | hnew
        · exact .inl hold
        · rw [mem_singleton.mp hnew]
          exact .inr (hinv.current _ hcurrent).2
      · exact fun other hid => hid
    | raised error =>
      exact ⟨hprocess.settle _ _ hbefore, unacknowledging_settle index acked_nakOrTerm⟩
    | timedOut => exact ⟨hother, unacknowledging_at index _⟩
    | dropped => exact ⟨hother, unacknowledging_at index _⟩
    | collapsed => exact ⟨hother, unacknowledging_at index _⟩
    | conflict => exact ⟨hother, unacknowledging_at index _⟩

theorem accounted_accept (message : Option Envelope) (hinv : Accounted state) :
    Accounted { state with
      letters := state.letters ++ [⟨message, 0, false, false⟩] } := by
  refine ⟨?_, hinv.inserted, hinv.torn, hinv.inHand, hinv.rows, hinv.publishedRows⟩
  intro delivery hdelivery
  obtain ⟨hindex, hopen⟩ := hinv.current delivery hdelivery
  refine ⟨?_, (any_acked_append message).trans hopen⟩
  rw [length_append]
  omega

theorem any_acked_delivered (letters : List Letter) (index other : ℕ) :
    ((letters.modify index fun letter =>
      { letter with delivered := letter.delivered + 1 })[other]?).any
        Letter.acked = (letters[other]?).any Letter.acked :=
  any_acked_modify fun _ => rfl

theorem accounted_deliver {letter : Letter} (hinv : Accounted state)
    (hcurrent : state.current = none)
    (hletter : state.letters[index]? = some letter) (hopen : letter.acked = false) :
    Accounted { state with
      letters := state.letters.modify index fun letter =>
        { letter with delivered := letter.delivered + 1 }
      current := some ⟨index, .received⟩ } := by
  have hacked : state.ackedAt index = false := by
    rw [DrainState.ackedAt, hletter]
    exact hopen
  refine hinv.of_same_rows ?_ (not_inHand_of_none hcurrent) ?_ ?_
  · exact ⟨rfl, rfl, rfl⟩
  · exact not_inHand_of_received rfl
  · intro delivery hdelivery
    rw [← some.inj hdelivery]
    refine ⟨?_, (any_acked_delivered state.letters index index).trans hacked⟩
    rw [length_modify]
    exact (List.getElem?_eq_some_iff.mp hletter).1

theorem drainStep_cases (hinv : Accounted state)
    (hstep : drainStep hashing codec state event = some next) :
    Accounted next ∧
      (event ≠ .ack true ∧ Unacknowledging state next ∨
        ∃ index source, event = .ack true ∧
          state.current = some ⟨index, .emitting source []⟩ ∧
          next = state.settle index Letter.ack) := by
  cases event with
  | accept message =>
    simp only [drainStep, some.injEq] at hstep
    subst next
    refine ⟨accounted_accept message hinv, .inl ⟨by simp, ?_, ?_, ?_⟩⟩
    · exact fun index => any_acked_append message
    · exact fun entry hentry => .inl hentry
    · exact fun id hid => hid
  | deliver index =>
    simp only [drainStep] at hstep
    split at hstep
    case h_1 letter hcurrent hletter =>
      split at hstep
      · cases hstep
      case isFalse hopen =>
        simp only [some.injEq] at hstep
        subst next
        simp only [Bool.or_eq_true, not_or, Bool.not_eq_true] at hopen
        refine ⟨accounted_deliver hinv hcurrent hletter hopen.1, .inl ⟨by simp, ?_, ?_, ?_⟩⟩
        · exact any_acked_delivered state.letters index
        · exact fun entry hentry => .inl hentry
        · exact fun id hid => hid
    case h_2 => cases hstep
  | ingest router fetchedAt =>
    simp only [drainStep] at hstep
    split at hstep
    case h_1 index hcurrent =>
      obtain ⟨letter, _, rfl⟩ := map_eq_some_iff.mp hstep
      have hbefore := not_inHand_of_received hcurrent
      unfold ingestLetter
      split
      · exact ⟨hinv.settle _ _ hbefore, .inl ⟨by simp, unacknowledging_settle _ acked_term⟩⟩
      · split
        · exact ⟨hinv.settle _ _ hbefore, .inl ⟨by simp, unacknowledging_settle _ acked_nakOrTerm⟩⟩
        · split
          · exact ⟨hinv.settle _ _ hbefore, .inl ⟨by simp, unacknowledging_settle _ acked_term⟩⟩
          · exact ⟨hinv.at hcurrent hbefore (by simp), .inl ⟨by simp, unacknowledging_at _ _⟩⟩
    case h_2 => cases hstep
  | process turn baseline =>
    simp only [drainStep] at hstep
    split at hstep
    case h_1 index source raw rest hcurrent =>
      simp only [some.injEq] at hstep
      subst next
      obtain ⟨haccounted, hkept⟩ := accounted_emitSignal hinv hcurrent
      exact ⟨haccounted, .inl ⟨by simp, hkept⟩⟩
    case h_2 => cases hstep
  | publish =>
    simp only [drainStep] at hstep
    split at hstep
    case h_1 index id source rest hcurrent =>
      simp only [some.injEq] at hstep
      subst next
      refine ⟨accounted_publish hinv hcurrent, .inl ⟨by simp, ?_, ?_, ?_⟩⟩
      · exact fun other => rfl
      · exact fun entry hentry => .inl hentry
      · exact fun other hother => mem_append_left _ hother
    case h_2 => cases hstep
  | ack kept =>
    simp only [drainStep] at hstep
    split at hstep
    case h_1 index source hcurrent =>
      simp only [some.injEq] at hstep
      subst next
      refine ⟨hinv.settle _ _ (not_inHand_of_emitting hcurrent), ?_⟩
      cases kept with
      | true => exact .inr ⟨index, source, rfl, hcurrent, rfl⟩
      | false => exact .inl ⟨by simp, unacknowledging_settle _ fun _ => rfl⟩
    case h_2 => cases hstep
  | crash =>
    simp only [drainStep, some.injEq] at hstep
    subst next
    refine ⟨accounted_crash hinv, .inl ⟨by simp, ?_, ?_, ?_⟩⟩
    · exact fun other => rfl
    · exact fun entry hentry => .inl hentry
    · exact fun id hid => hid

theorem acksUntorn_of_ne (hevent : event ≠ .ack true) : AcksUntorn state event next := by
  cases event with
  | ack kept =>
    cases kept with
    | true => exact absurd rfl hevent
    | false => trivial
  | accept message => trivial
  | deliver index => trivial
  | ingest router fetchedAt => trivial
  | process turn baseline => trivial
  | publish => trivial
  | crash => trivial

theorem ackedPublished_ack_iff (hinv : Accounted state) (hpublished : AckedPublished state)
    (hcurrent : state.current = some ⟨index, .emitting source []⟩) :
    AckedPublished (state.settle index Letter.ack) ↔ ∀ id, (index, id) ∉ state.torn := by
  have hindex := (hinv.current _ hcurrent).1
  have hacked : ∀ other, (state.settle index Letter.ack).ackedAt other =
      (decide (other = index) || state.ackedAt other) :=
    fun other => any_acked_ack hindex
  constructor
  · intro hnext id htorn
    obtain ⟨hmem, hunpublished, _⟩ := hinv.torn _ htorn
    apply hunpublished
    apply hnext (index, id) hmem
    rw [hacked]
    simp
  · intro huntorn entry hentry hackedEntry
    rw [hacked, Bool.or_eq_true, decide_eq_true_eq] at hackedEntry
    rcases hackedEntry with hsame | hold
    · rcases hinv.inserted entry hentry with hdone | htorn | hhand
      · exact hdone
      · rw [← hsame] at huntorn
        exact absurd htorn (huntorn entry.2)
      · exact absurd hhand (not_inHand_of_emitting hcurrent entry)
    · exact hpublished entry hentry hold

theorem ackedPublished_step_iff (hinv : Accounted state) (hpublished : AckedPublished state)
    (hstep : drainStep hashing codec state event = some next) :
    AckedPublished next ↔ AcksUntorn state event next := by
  rcases (drainStep_cases hinv hstep).2 with ⟨hevent, hkept⟩ | ⟨index, source, rfl, hcurrent, rfl⟩
  · exact iff_of_true (hkept.ackedPublished hpublished) (acksUntorn_of_ne hevent)
  · rw [ackedPublished_ack_iff hinv hpublished hcurrent]
    unfold AcksUntorn
    rw [hcurrent]
    constructor
    · intro huntorn delivery hdelivery
      rw [← some.inj hdelivery]
      exact huntorn
    · exact fun huntorn => huntorn _ rfl

end

theorem accounted_start (tables : Tables) : Accounted (DrainState.start tables) where
  current := fun _ hdelivery => nomatch hdelivery
  inserted := fun _ hentry => nomatch hentry
  torn := fun _ hentry => nomatch hentry
  inHand := fun _ ⟨_, _, hstage⟩ => nomatch hstage
  rows := fun _ hentry => nomatch hentry
  publishedRows := fun _ hid => nomatch hid

/-- In a run of the drain the rows of acknowledged envelopes are published,
if and only if no envelope is acknowledged after one of its deliveries crashed
between the write of a row and its publication. -/
theorem acked_published_iff (hashing : Hashing) (codec : Codec)
    (tables : Tables) (events : List DrainEvent) :
    VisitsOnly (drainStep hashing codec) AckedPublished (DrainState.start tables) events ↔
      StepsSatisfy (drainStep hashing codec) AcksUntorn (DrainState.start tables) events := by
  have hkeep : ∀ state event next, Accounted state →
      drainStep hashing codec state event = some next → Accounted next :=
    fun _ _ _ hinv hstep => (drainStep_cases hinv hstep).1
  have hexact : ∀ state event next, Accounted state →
      AckedPublished state → drainStep hashing codec state event = some next →
      (AckedPublished next ↔ AcksUntorn state event next) :=
    fun _ _ _ hinv hpublished hstep => ackedPublished_step_iff hinv hpublished hstep
  exact visitsOnly_iff_stepsSatisfy hkeep hexact (accounted_start tables)
    (fun _ hentry => nomatch hentry)

def plainCodec : Codec where
  loads := fun _ => some (.object [])
  contentHash := fun _ => "digest"
  deterministicSignalId := fun _ _ => 1
  text := fun _ => ""

def plainHandler : WebhookHandler where
  source := plainSource 1 Nat.one_pos false
  config := ⟨none, "id", "url"⟩

/-- The first delivery crashes after it wrote the row; the second one takes
the row for a duplicate, and the envelope is acknowledged. -/
def tornDelivery : List DrainEvent :=
  let deliver : List DrainEvent :=
    [.deliver 0, .ingest (fun _ => some plainHandler) 1000, .process (plainTurn .dropped) .enriched]
  [.accept (some ⟨"hook", "x", none⟩)] ++ deliver ++ [.crash] ++ deliver ++ [.ack true]

theorem acked_after_torn_delivery :
    ∃ final,
      run (drainStep plainHashing plainCodec)
          (DrainState.start emptyPlane.tables) tornDelivery = some final ∧
        final.ackedAt 0 = true ∧ final.inserted = [(0, 1)] ∧
        (final.plane.tables.pool.row? 1).isSome ∧
        final.plane.published = [] ∧ ¬AckedPublished final := by
  refine ⟨_, rfl, rfl, rfl, rfl, rfl, ?_⟩
  intro hpublished
  exact absurd (hpublished (0, 1) (mem_singleton_self _) rfl) not_mem_nil

/-! ## No row is published twice -/

theorem published_step {hashing : Hashing} {codec : Codec} {state next : DrainState}
    {event : DrainEvent} (hstep : drainStep hashing codec state event = some next) :
    next.plane.published = state.plane.published ∨
      ∃ entry, state.InHand entry ∧ next.plane.published = state.plane.published ++ [entry.2] := by
  cases event with
  | publish =>
    simp only [drainStep] at hstep
    split at hstep
    case h_1 index id source rest hcurrent =>
      cases hstep
      exact .inr ⟨(index, id), ⟨source, rest, hcurrent⟩, rfl⟩
    case h_2 => cases hstep
  | ingest router fetchedAt =>
    simp only [drainStep] at hstep
    split at hstep
    · obtain ⟨letter, _, rfl⟩ := map_eq_some_iff.mp hstep
      unfold ingestLetter
      repeat' split
      all_goals exact .inl rfl
    · cases hstep
  | process turn baseline =>
    simp only [drainStep] at hstep
    split at hstep
    · cases hstep
      unfold emitSignal
      dsimp only
      split <;> exact .inl rfl
    · cases hstep
  | _ =>
    simp only [drainStep] at hstep
    repeat' split at hstep
    all_goals cases hstep
    all_goals exact .inl rfl

/-- Where a written row is: published, left unpublished by a crash, or in the
hand of the delivery which wrote it, and in one of these places only. -/
def DrainState.InOnePlace (state : DrainState) (entry : ℕ × Uuid) : Prop :=
  entry.2 ∈ state.plane.published ∧ entry ∉ state.torn ∧ ¬state.InHand entry ∨
    entry.2 ∉ state.plane.published ∧
      (entry ∈ state.torn ∧ ¬state.InHand entry ∨ entry ∉ state.torn ∧ state.InHand entry)

theorem Accounted.inOnePlace {state : DrainState} (hinv : Accounted state)
    {entry : ℕ × Uuid} (hentry : entry ∈ state.inserted) : state.InOnePlace entry := by
  have htorn : entry ∈ state.torn → entry.2 ∉ state.plane.published ∧ ¬state.InHand entry :=
    fun h => ⟨(hinv.torn entry h).2.1, (hinv.torn entry h).2.2 entry.1⟩
  have hhand := fun h => (hinv.inHand entry h).2
  rcases hinv.inserted entry hentry with h | h | h
  · exact .inl ⟨h, fun ht => (htorn ht).1 h, fun hh => hhand hh h⟩
  · exact .inr ⟨(htorn h).1, .inl ⟨h, (htorn h).2⟩⟩
  · exact .inr ⟨hhand h, .inr ⟨fun ht => (htorn ht).2 h, h⟩⟩

end Legba.Sources
