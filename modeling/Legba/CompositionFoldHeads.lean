import Legba.CompositionFold

/-!
# Is exactly one head left?

Of two writers which have selected, the one which did so later has seen the
other's head: one of the two heads is closed, or is still on the other
writer's list.  So at most one head is open when all have finished, and one is
as long as the pointers have no cycle.  A cycle comes about exactly when a
writer closes a head to which its own head already leads.
-/

namespace Legba.Findings

open JsonValue KeyedTable LabelledRun PointerForest Option Table Function List

structure HeadKey.Matches (key : HeadKey) (row : OutputRow) : Prop where
  analyst : row.analystId = some key.analystId
  finding : row.isFinding = true
  signature : Findings.rawSignature row.data = some key.rawSignature

variable {key : HeadKey} {id : Uuid} {state : FoldState}

theorem isOpenHead_iff {row : OutputRow} :
    key.isOpenHead row = true ↔ key.Matches row ∧ row.supersededBy = none := by
  unfold HeadKey.isOpenHead
  simp only [Bool.and_eq_true, decide_eq_true_eq]
  constructor
  · rintro ⟨⟨⟨hanalyst, hfinding⟩, hopen⟩, hsignature⟩
    exact ⟨⟨hanalyst, hfinding, hsignature⟩, hopen⟩
  · rintro ⟨⟨hanalyst, hfinding, hsignature⟩, hopen⟩
    exact ⟨⟨⟨hanalyst, hfinding⟩, hopen⟩, hsignature⟩

theorem mem_priorHeads {outputs : Outputs} {newHeadId : Uuid} :
    id ∈ key.priorHeads outputs newHeadId ↔
      ∃ row, outputs.row? id = some row ∧ key.Matches row ∧
        row.supersededBy = none ∧ id ≠ newHeadId := by
  constructor
  · intro hid
    obtain ⟨⟨_, row⟩, hrow, rfl⟩ := mem_map.mp hid
    obtain ⟨hrow, hcondition⟩ := mem_selectMatching.mp hrow
    rw [Bool.and_eq_true, isOpenHead_iff, decide_eq_true_eq] at hcondition
    exact ⟨row, hrow, hcondition.1.1, hcondition.1.2, hcondition.2⟩
  · rintro ⟨row, hrow, hmatches, hopen, hne⟩
    refine mem_map.mpr ⟨(id, row), mem_selectMatching.mpr ⟨hrow, ?_⟩, rfl⟩
    rw [Bool.and_eq_true, isOpenHead_iff, decide_eq_true_eq]
    exact ⟨⟨hmatches, hopen⟩, hne⟩

def WriterPhase.selected : WriterPhase → Bool
  | .audit _ => true
  | .close _ => true
  | .finished => true
  | _ => false

@[simp] theorem prior_closeNext (prior : List Uuid) :
    (WriterPhase.closeNext prior).prior = prior := by
  unfold WriterPhase.closeNext
  split
  · next heq => exact heq.symm
  · rfl

theorem closeNext_ne_absent (prior : List Uuid) : WriterPhase.closeNext prior ≠ .absent := by
  unfold WriterPhase.closeNext
  split <;> exact nofun

/-! ## What the steps keep -/

structure FoldInv (key : HeadKey) (state : FoldState) : Prop where
  row : ∀ id, state.IsHead id → ∃ row, state.tables.outputs.row? id = some row ∧ key.Matches row
  target : ∀ id target, state.pointer id = some target → state.IsHead target
  prior : ∀ id, ∀ head ∈ (state.phase id).prior, head ≠ id ∧ (state.tables.outputs.row? head).isSome
  /-- Of two writers which have selected, one head is closed or going to be. -/
  settled : ∀ id other, id ≠ other → (state.phase id).selected = true →
    (state.phase other).selected = true →
    state.successor id ≠ none ∨ state.successor other ≠ none ∨
      id ∈ (state.phase other).prior ∨ other ∈ (state.phase id).prior

structure KeepsRows (key : HeadKey) (state : FoldState) (writer : Uuid)
    (tables : Tables) : Prop where
  exist : ∀ id, (state.tables.outputs.row? id).isSome → (tables.outputs.row? id).isSome
  keep : ∀ id row, state.tables.outputs.row? id = some row →
    key.Matches row → ∃ row, tables.outputs.row? id = some row ∧ key.Matches row
  closed : ∀ id, state.successor id ≠ none → tables.successor id ≠ none
  target : ∀ id target,
    tables.successor id = some target →
    state.successor id = some target ∨ target = writer

section

variable {key : HeadKey} {state : FoldState} {writer : Uuid}
variable {tables : Tables} {phase : WriterPhase}

theorem isHead_move (hphase : phase ≠ .absent) (id : Uuid) :
    (state.move writer tables phase).IsHead id ↔ state.IsHead id ∨ id = writer := by
  unfold FoldState.IsHead FoldState.move
  by_cases hid : id = writer
  · subst hid
    simp [hphase]
  · simp [hid]

variable {id : Uuid}

theorem phase_move_of_ne (hid : id ≠ writer) :
    (state.move writer tables phase).phase id = state.phase id :=
  update_of_ne hid _ _

theorem phase_move_self : (state.move writer tables phase).phase writer = phase :=
  update_self _ _ _

theorem pointer_of_isHead (hhead : state.IsHead id) :
    state.pointer id = state.successor id := if_neg hhead

theorem isHead_of_phase {writer : Uuid} {phase : WriterPhase} (hphase : state.phase writer = phase)
    (hne : phase ≠ .absent) : state.IsHead writer := by
  unfold FoldState.IsHead
  rwa [hphase]

section

variable (hinv : FoldInv key state) (hrows : KeepsRows key state writer tables)

include hinv hrows

theorem FoldInv.target_move (hwriter : state.IsHead writer ∨ ∃ row, tables.outputs.row? writer =
      some row ∧ key.Matches row ∧ row.supersededBy = none) (hphase : phase ≠ .absent)
    {target : Uuid} (hpointer : (state.move writer tables phase).pointer id = some target) :
    (state.move writer tables phase).IsHead target := by
  rw [isHead_move hphase]
  unfold FoldState.pointer at hpointer
  split at hpointer
  · cases hpointer
  · next hhead =>
    rcases hrows.target id target hpointer with hsame | heq
    · rcases (isHead_move hphase id).mp hhead with hold | rfl
      · exact .inl (hinv.target id target (by rw [pointer_of_isHead hold]; exact hsame))
      · rcases hwriter with hold | ⟨row, hrow, _, hopen⟩
        · exact .inl (hinv.target id target (by rw [pointer_of_isHead hold]; exact hsame))
        · unfold FoldState.successor Tables.successor FoldState.move at hpointer
          simp only [hrow, bind_some, hopen] at hpointer
          cases hpointer
    · exact .inr heq

theorem FoldInv.settled_move
    (hsettled : phase.selected = true → ∀ other, other ≠ writer → (state.phase other).selected =
      true → tables.successor writer ≠ none ∨ tables.successor other ≠ none ∨ writer ∈ (state.phase
      other).prior ∨ other ∈ phase.prior) {other : Uuid} (hne : id ≠ other)
    (hid : ((state.move writer tables phase).phase id).selected)
    (hother : ((state.move writer tables phase).phase other).selected) :
    tables.successor id ≠ none ∨ tables.successor other ≠ none ∨
      id ∈ ((state.move writer tables phase).phase other).prior ∨
      other ∈ ((state.move writer tables phase).phase id).prior := by
  by_cases hidWriter : id = writer
  · subst hidWriter
    rw [phase_move_self] at hid ⊢
    rw [phase_move_of_ne hne.symm] at hother ⊢
    exact hsettled hid other hne.symm hother
  · rw [phase_move_of_ne hidWriter] at hid ⊢
    by_cases hotherWriter : other = writer
    · subst hotherWriter
      rw [phase_move_self] at hother ⊢
      rcases hsettled hother id hidWriter hid with h | h | h | h
      · exact .inr (.inl h)
      · exact .inl h
      · exact .inr (.inr (.inr h))
      · exact .inr (.inr (.inl h))
    · rw [phase_move_of_ne hotherWriter] at hother ⊢
      rcases hinv.settled id other hne hid hother with h | h | h
      · exact .inl (hrows.closed id h)
      · exact .inr (.inl (hrows.closed other h))
      · exact .inr (.inr h)

theorem FoldInv.move
    (hwriter : state.IsHead writer ∨ ∃ row, tables.outputs.row? writer = some row ∧ key.Matches row
      ∧ row.supersededBy = none) (hphase : phase ≠ .absent)
    (hprior : ∀ head ∈ phase.prior, head ≠ writer ∧ (tables.outputs.row? head).isSome)
    (hsettled : phase.selected = true → ∀ other, other ≠ writer → (state.phase other).selected =
      true → tables.successor writer ≠ none ∨ tables.successor other ≠ none ∨ writer ∈
      (state.phase other).prior ∨ other ∈ phase.prior) :
    FoldInv key (state.move writer tables phase) := by
  have hnew : ∃ row, tables.outputs.row? writer = some row ∧ key.Matches row := by
    rcases hwriter with hhead | ⟨row, hrow, hmatches, _⟩
    · obtain ⟨row, hrow, hmatches⟩ := hinv.row writer hhead
      exact hrows.keep writer row hrow hmatches
    · exact ⟨row, hrow, hmatches⟩
  constructor
  · intro id hhead
    rcases (isHead_move hphase id).mp hhead with hold | rfl
    · obtain ⟨row, hrow, hmatches⟩ := hinv.row id hold
      exact hrows.keep id row hrow hmatches
    · exact hnew
  · intro id target hpointer
    exact hinv.target_move hrows hwriter hphase hpointer
  · intro id head hmem
    by_cases hid : id = writer
    · subst hid
      rw [phase_move_self] at hmem
      exact hprior head hmem
    · rw [phase_move_of_ne hid] at hmem
      have hold := hinv.prior id head hmem
      exact ⟨hold.1, hrows.exist head hold.2⟩
  · intro id other hne hid hother
    exact hinv.settled_move hrows hsettled hne hid hother

end

end

/-! ## The statements -/

section

variable {key : HeadKey} {state : FoldState}

theorem keepsRows_of_outputs (key : HeadKey) (writer : Uuid) {tables : Tables}
    (hsame : tables.outputs = state.tables.outputs) : KeepsRows key state writer tables := by
  have hsuccessor := successor_of_outputs hsame
  constructor
  · intro id hrow
    rw [hsame]
    exact hrow
  · intro id row hrow hmatches
    rw [hsame]
    exact ⟨row, hrow, hmatches⟩
  · intro id hclosed
    rw [hsuccessor]
    exact hclosed
  · intro id target htarget
    rw [hsuccessor] at htarget
    exact .inl htarget

theorem keepsRows_put (key : HeadKey) {head : Uuid} {row : OutputRow}
    (hnew : state.tables.outputs.row? head = none) (hopen : row.supersededBy = none) :
    KeepsRows key state head
      { state.tables with outputs := state.tables.outputs.put head row } := by
  have hother : ∀ id, (state.tables.outputs.row? id).isSome → id ≠ head := by
    rintro id hrow rfl
    rw [hnew] at hrow
    cases hrow
  constructor
  · intro id hrow
    rw [row?_put_of_ne _ (hother id hrow)]
    exact hrow
  · intro id found hrow hmatches
    rw [row?_put_of_ne _ (hother id (by rw [hrow]; rfl))]
    exact ⟨found, hrow, hmatches⟩
  · intro id hclosed
    rw [successor_put, if_neg]
    · exact hclosed
    · rintro rfl
      rw [FoldState.successor, Tables.successor, hnew] at hclosed
      exact hclosed rfl
  · intro id target htarget
    rw [successor_put] at htarget
    split at htarget
    · rw [hopen] at htarget
      cases htarget
    · exact .inl htarget

theorem successor_stampSignature (id : Uuid) (signature : String) (other : Uuid) :
    (stampSignature state.tables id signature).successor other = state.successor other := by
  unfold FoldState.successor Tables.successor
  rw [row?_stampSignature]
  cases state.tables.outputs.row? other <;> split <;> rfl

theorem keepsRows_stampSignature (key : HeadKey) (writer : Uuid) (signature : String) :
    KeepsRows key state writer (stampSignature state.tables writer signature) := by
  constructor
  · intro id hrow
    rw [row?_stampSignature]
    split
    · simpa using hrow
    · exact hrow
  · intro id row hrow hmatches
    rw [row?_stampSignature, hrow]
    split
    · exact ⟨_, rfl, hmatches.analyst, hmatches.finding, hmatches.signature⟩
    · exact ⟨row, rfl, hmatches⟩
  · intro id hclosed
    rw [successor_stampSignature]
    exact hclosed
  · intro id target htarget
    rw [successor_stampSignature] at htarget
    exact .inl htarget

theorem successor_stampSuperseded (link : SupersessionLink) {id : Uuid} :
    (stampSuperseded state.tables link).successor id =
      if id = link.supersededId ∧ (state.tables.outputs.row? id).isSome then
        some link.supersedingId
      else state.successor id := by
  unfold FoldState.successor Tables.successor
  rw [row?_stampSuperseded]
  cases state.tables.outputs.row? id <;> by_cases hid : id = link.supersededId <;> simp [hid]

theorem keepsRows_stampSuperseded (key : HeadKey) (prior writer : Uuid) :
    KeepsRows key state writer (stampSuperseded state.tables (key.link prior writer)) := by
  constructor
  · intro id hrow
    rw [row?_stampSuperseded]
    split
    · simpa using hrow
    · exact hrow
  · intro id row hrow hmatches
    rw [row?_stampSuperseded, hrow]
    split
    · exact ⟨_, rfl, hmatches.analyst, hmatches.finding, hmatches.signature⟩
    · exact ⟨row, rfl, hmatches⟩
  · intro id hclosed
    rw [successor_stampSuperseded]
    split
    · exact nofun
    · exact hclosed
  · intro id target htarget
    rw [successor_stampSuperseded] at htarget
    split at htarget
    · exact .inr (some.inj htarget).symm
    · exact .inl htarget

end

variable {next : FoldState} {event : FoldEvent}

theorem foldStep_cases (hstep : foldStep key state event = some next) :
    (∃ head row, event = .insert head row ∧
      state.tables.outputs.row? head = none ∧ key.isOpenHead row = true ∧
      next = state.move head
        { state.tables with outputs := state.tables.outputs.put head row }
        .stamp) ∨
    ∃ writer, event = .statement writer ∧
      ((state.phase writer = .stamp ∧ next = state.move writer
          (stampSignature state.tables writer key.columnSig) .select) ∨
        (state.phase writer = .select ∧ next = state.move writer state.tables
          (.closeNext (key.priorHeads state.tables.outputs writer))) ∨
        ∃ head rest,
          (state.phase writer = .audit (head :: rest) ∧
            next = state.move writer
              (insertLink state.tables (key.link head writer))
              (.close (head :: rest))) ∨
          (state.phase writer = .close (head :: rest) ∧
            next = state.move writer
              (stampSuperseded state.tables (key.link head writer))
              (.closeNext rest))) := by
  cases event with
  | insert head row =>
    simp only [foldStep] at hstep
    split at hstep
    · cases hstep
    · next hnew =>
      simp only [ite_none_right_eq_some, some.injEq] at hstep
      exact .inl ⟨head, row, rfl, hnew, hstep.1, hstep.2.symm⟩
  | statement writer =>
    refine .inr ⟨writer, rfl, ?_⟩
    cases hphase : state.phase writer with
    | absent => simp [foldStep, hphase] at hstep
    | stamp =>
      simp only [foldStep, hphase, key.applies, if_true, some.injEq] at hstep
      exact .inl ⟨rfl, hstep.symm⟩
    | select =>
      simp only [foldStep, hphase, some.injEq] at hstep
      exact .inr (.inl ⟨rfl, hstep.symm⟩)
    | audit prior =>
      cases prior with
      | nil => simp [foldStep, hphase] at hstep
      | cons head rest =>
        simp only [foldStep, hphase, some.injEq] at hstep
        exact .inr (.inr ⟨head, rest, .inl ⟨rfl, hstep.symm⟩⟩)
    | close prior =>
      cases prior with
      | nil => simp [foldStep, hphase] at hstep
      | cons head rest =>
        simp only [foldStep, hphase, some.injEq] at hstep
        exact .inr (.inr ⟨head, rest, .inr ⟨rfl, hstep.symm⟩⟩)
    | finished => simp [foldStep, hphase] at hstep

/-! ## Each statement keeps the invariant -/

section

variable {key : HeadKey} {state : FoldState} {writer : Uuid}

variable {head : Uuid}

theorem FoldInv.insert (hinv : FoldInv key state) {row : OutputRow}
    (hnew : state.tables.outputs.row? head = none) (hopen : key.isOpenHead row) :
    FoldInv key (state.move head
      { state.tables with outputs := state.tables.outputs.put head row }
      .stamp) := by
  obtain ⟨hmatches, hsuccessor⟩ := isOpenHead_iff.mp hopen
  exact hinv.move (keepsRows_put key hnew hsuccessor) (.inr ⟨row, row?_put_self _ _ _, hmatches,
    hsuccessor⟩) (by simp) (by simp [WriterPhase.prior]) (by simp [WriterPhase.selected])

theorem FoldInv.stamp (hinv : FoldInv key state)
    (hphase : state.phase writer = .stamp) (signature : String) :
    FoldInv key (state.move writer (stampSignature state.tables writer signature) .select) :=
  hinv.move (keepsRows_stampSignature key writer signature)
    (.inl (isHead_of_phase hphase (by simp))) (by simp)
    (by simp [WriterPhase.prior]) (by simp [WriterPhase.selected])

theorem FoldInv.select (hinv : FoldInv key state) (hphase : state.phase writer = .select) :
    FoldInv key (state.move writer state.tables
      (.closeNext (key.priorHeads state.tables.outputs writer))) := by
  refine hinv.move (keepsRows_of_outputs key writer rfl)
    (.inl (isHead_of_phase hphase (by simp))) (closeNext_ne_absent _) ?_ ?_
  · intro head hhead
    rw [prior_closeNext] at hhead
    obtain ⟨row, hrow, _, _, hne⟩ := mem_priorHeads.mp hhead
    exact ⟨hne, by rw [hrow]; rfl⟩
  · intro _ other hne hother
    have hhead : state.IsHead other := by
      intro habsent
      rw [habsent] at hother
      cases hother
    obtain ⟨row, hrow, hmatches⟩ := hinv.row other hhead
    cases hsuccessor : row.supersededBy with
    | some target =>
      refine .inr (.inl ?_)
      rw [Tables.successor, hrow, bind_some, hsuccessor]
      exact some_ne_none target
    | none =>
      refine .inr (.inr (.inr ?_))
      rw [prior_closeNext]
      exact mem_priorHeads.mpr ⟨row, hrow, hmatches, hsuccessor, hne⟩

variable {rest : List Uuid}

theorem FoldInv.audit (hinv : FoldInv key state)
    (hphase : state.phase writer = .audit (head :: rest)) :
    FoldInv key (state.move writer
      (insertLink state.tables (key.link head writer))
      (.close (head :: rest))) := by
  have hprior : (state.phase writer).prior = head :: rest := by
    rw [hphase]
    rfl
  refine hinv.move (keepsRows_of_outputs key writer (by simp))
    (.inl (isHead_of_phase hphase (by simp))) (by simp) ?_ ?_
  · intro other hother
    rw [outputs_insertLink]
    exact hinv.prior writer other (by rw [hprior]; exact hother)
  · intro _ other hne hother
    have hselected : (state.phase writer).selected := by
      rw [hphase]
      rfl
    have hold := hinv.settled writer other hne.symm hselected hother
    rw [hprior] at hold
    rw [successor_of_outputs (outputs_insertLink _)]
    exact hold

theorem FoldInv.close (hinv : FoldInv key state)
    (hphase : state.phase writer = .close (head :: rest)) :
    FoldInv key (state.move writer
      (stampSuperseded state.tables (key.link head writer))
      (.closeNext rest)) := by
  have hprior : (state.phase writer).prior = head :: rest := by
    rw [hphase]
    rfl
  have hrows : KeepsRows key state writer (stampSuperseded state.tables (key.link head writer)) :=
    keepsRows_stampSuperseded key head writer
  refine hinv.move hrows (.inl (isHead_of_phase hphase (by simp))) (closeNext_ne_absent _) ?_ ?_
  · intro other hother
    rw [prior_closeNext] at hother
    have hold := hinv.prior writer other (by rw [hprior]; exact mem_cons_of_mem _ hother)
    exact ⟨hold.1, hrows.exist other hold.2⟩
  · intro _ other hne hother
    have hselected : (state.phase writer).selected := by
      rw [hphase]
      rfl
    rcases hinv.settled writer other hne.symm hselected hother with h | h | h | h
    · exact .inl (hrows.closed writer h)
    · exact .inr (.inl (hrows.closed other h))
    · exact .inr (.inr (.inl h))
    · rw [hprior, mem_cons] at h
      rcases h with rfl | hrest
      · have hrow := (hinv.prior writer other (by rw [hprior]; exact mem_cons_self)).2
        refine .inr (.inl ?_)
        rw [successor_stampSuperseded, if_pos ⟨rfl, hrow⟩]
        exact some_ne_none _
      · exact .inr (.inr (.inr (by rw [prior_closeNext]; exact hrest)))

theorem FoldInv.step {next : FoldState} {event : FoldEvent} (hinv : FoldInv key state)
    (hstep : foldStep key state event = some next) : FoldInv key next := by
  rcases foldStep_cases hstep with ⟨head, row, -, hnew, hopen, rfl⟩ | ⟨writer, -, hstatement⟩
  · exact hinv.insert hnew hopen
  · rcases hstatement with ⟨hphase, rfl⟩ | ⟨hphase, rfl⟩ |
      ⟨head, rest, ⟨hphase, rfl⟩ | ⟨hphase, rfl⟩⟩
    · exact hinv.stamp hphase _
    · exact hinv.select hphase
    · exact hinv.audit hphase
    · exact hinv.close hphase

end

/-! ## The pointers -/

section

variable {key : HeadKey} {state next : FoldState} {event : FoldEvent}

variable {writer : Uuid}

variable {tables : Tables} {phase : WriterPhase}

theorem pointer_move (hwriter : state.IsHead writer) (hphase : phase ≠ .absent) (id : Uuid) :
    (state.move writer tables phase).pointer id =
      if state.phase id = .absent then none
      else tables.successor id := by
  unfold FoldState.pointer FoldState.successor Tables.successor FoldState.move
  by_cases hid : id = writer
  · subst hid
    simp only [update_self, if_neg hphase]
    exact (if_neg hwriter).symm
  · simp [update_of_ne hid]

theorem pointer_move_of_successor (hwriter : state.IsHead writer) (hphase : phase ≠ .absent)
    (hsame : ∀ id, tables.successor id = state.successor id) :
    (state.move writer tables phase).pointer = state.pointer := by
  funext id
  rw [pointer_move hwriter hphase, hsame]
  rfl

theorem pointer_close {head : Uuid} (hwriter : state.IsHead writer)
    (hrow : (state.tables.outputs.row? head).isSome) (key : HeadKey) (rest : List Uuid) :
    (state.move writer (stampSuperseded state.tables (key.link head writer))
        (.closeNext rest)).pointer =
      if state.phase head = .absent then state.pointer
      else Function.update state.pointer head (some writer) := by
  funext id
  rw [pointer_move hwriter (closeNext_ne_absent rest), successor_stampSuperseded]
  by_cases hid : id = head
  · subst hid
    by_cases hhead : state.phase id = .absent
    · simp [hhead, FoldState.pointer]
    · rw [if_neg hhead, if_neg hhead, update_self, if_pos ⟨rfl, hrow⟩]
      rfl
  · have hnot : ¬(id = (key.link head writer).supersededId ∧
        (state.tables.outputs.row? id).isSome) := fun h => hid h.1
    split
    · next habsent => split <;> simp [FoldState.pointer, habsent, hid]
    · next hhead => split <;> simp [FoldState.pointer, hhead, hid]

section

variable (hinv : FoldInv key state)

include hinv

theorem FoldInv.isHead_of_reaches {id target : Uuid} (hid : state.IsHead id)
    (hreaches : Reaches state.pointer id target) : state.IsHead target := by
  induction hreaches with
  | refl => exact hid
  | tail _ hstep _ => exact hinv.target _ _ hstep

theorem pointer_step (hstep : foldStep key state event = some next) :
    (next.pointer = state.pointer ∧ ClosesNoPredecessor state event next) ∨
      ∃ writer head rest, event = .statement writer ∧
        state.phase writer = .close (head :: rest) ∧
        next.pointer = Function.update state.pointer head (some writer) := by
  rcases foldStep_cases hstep with ⟨head, row, rfl, hnew, hopen, rfl⟩ | ⟨writer, rfl, hstatement⟩
  · refine .inl ⟨?_, trivial⟩
    have hsuccessor := (isOpenHead_iff.mp hopen).2
    funext id
    by_cases hid : id = head
    · subst hid
      have habsent : state.phase id = .absent := by
        by_contra hhead
        obtain ⟨row, hrow, _⟩ := hinv.row id hhead
        rw [hnew] at hrow
        cases hrow
      simp [FoldState.pointer, FoldState.successor, Tables.successor,
        FoldState.move, habsent, hsuccessor]
    · simp [FoldState.pointer, FoldState.successor, Tables.successor,
        FoldState.move, update_of_ne hid, row?_put_of_ne _ hid]
  · rcases hstatement with ⟨hphase, rfl⟩ | ⟨hphase, rfl⟩ |
      ⟨head, rest, ⟨hphase, rfl⟩ | ⟨hphase, rfl⟩⟩
    · refine .inl ⟨pointer_move_of_successor (isHead_of_phase hphase
        (by simp)) (by simp) (successor_stampSignature _ _), ?_⟩
      intro other rest hclose
      rw [hphase] at hclose
      cases hclose
    · refine .inl ⟨pointer_move_of_successor (isHead_of_phase hphase
        (by simp)) (closeNext_ne_absent _) fun _ => rfl, ?_⟩
      intro other rest hclose
      rw [hphase] at hclose
      cases hclose
    · refine .inl ⟨pointer_move_of_successor (isHead_of_phase hphase
        (by simp)) (by simp) fun id => ?_, ?_⟩
      · rw [successor_of_outputs (outputs_insertLink _)]
        rfl
      · intro other rest hclose
        rw [hphase] at hclose
        cases hclose
    · have hwriter := isHead_of_phase hphase (by simp)
      have hrow := (hinv.prior writer head (by rw [hphase]; exact mem_cons_self)).2
      rw [pointer_close hwriter hrow]
      by_cases hhead : state.phase head = .absent
      · refine .inl ⟨if_pos hhead, ?_⟩
        intro other others hclose hreaches
        rw [hphase] at hclose
        cases hclose
        exact hinv.isHead_of_reaches hwriter hreaches hhead
      · exact .inr ⟨writer, head, rest, rfl, hphase, if_neg hhead⟩

theorem acyclic_step_iff (hacyclic : Acyclic state.pointer)
    (hstep : foldStep key state event = some next) :
    Acyclic next.pointer ↔ ClosesNoPredecessor state event next := by
  rcases pointer_step hinv hstep with ⟨hsame, hgood⟩ | ⟨writer, head, rest, rfl, hphase, hpointer⟩
  · rw [hsame]
    exact iff_of_true hacyclic hgood
  · rw [hpointer, acyclic_update_iff hacyclic]
    constructor
    · intro hout other others hclose
      rw [hphase] at hclose
      cases hclose
      exact hout
    · exact fun hgood => hgood head rest hphase

theorem FoldInv.survivor (hacyclic : Acyclic state.pointer)
    (hfinished : state.Finished) {start : Uuid} (hstart : state.IsHead start) :
    ∃! id, state.IsHead id ∧ state.successor id = none := by
  let heads := state.tables.outputs.keys.filter
    fun id => decide (state.phase id ≠ .absent)
  have hheads : ∀ id, id ∈ heads ↔ state.IsHead id := by
    intro id
    rw [mem_filter, decide_eq_true_eq]
    refine ⟨And.right, fun hhead => ⟨?_, hhead⟩⟩
    obtain ⟨row, hrow, _⟩ := hinv.row id hhead
    rw [Table.mem_keys, hrow]
    rfl
  obtain ⟨last, hlast, hopen⟩ := hacyclic.exists_end
    (fun id hid target hpointer => (hheads target).mpr (hinv.target id target hpointer))
    ((hheads start).mpr hstart)
  have hhead := (hheads last).mp hlast
  rw [pointer_of_isHead hhead] at hopen
  refine ⟨last, ⟨hhead, hopen⟩, ?_⟩
  rintro other ⟨hother, hotherOpen⟩
  by_contra hne
  have hselected : ∀ id, state.IsHead id →
      (state.phase id).selected = true ∧ (state.phase id).prior = [] := by
    intro id hid
    rw [hfinished id hid]
    exact ⟨rfl, rfl⟩
  have hlastSelected := hselected last hhead
  have hotherSelected := hselected other hother
  rcases hinv.settled other last hne hotherSelected.1 hlastSelected.1 with h | h | h | h
  · exact h hotherOpen
  · exact h hopen
  · rw [hlastSelected.2] at h
    cases h
  · rw [hotherSelected.2] at h
    cases h

end

end

/-! ## Every run -/

theorem isHead_step (hstep : foldStep key state event = some next)
    (hhead : next.IsHead id) : state.IsHead id ∨ ∃ row, event = .insert id row := by
  have hwriter : ∀ {writer : Uuid} {tables : Tables} {phase : WriterPhase},
      state.IsHead writer → (state.move writer tables phase).IsHead id →
      state.IsHead id := by
    intro writer tables phase hwriter hmoved
    by_cases hid : id = writer
    · exact hid ▸ hwriter
    · unfold FoldState.IsHead at hmoved ⊢
      rwa [phase_move_of_ne hid] at hmoved
  rcases foldStep_cases hstep with ⟨head, row, rfl, -, -, rfl⟩ | ⟨writer, -, hstatement⟩
  · have hstamp : WriterPhase.stamp ≠ .absent := nofun
    rcases (isHead_move hstamp id).mp hhead with hold | rfl
    · exact .inl hold
    · exact .inr ⟨row, rfl⟩
  · rcases hstatement with ⟨hphase, rfl⟩ | ⟨hphase, rfl⟩ |
      ⟨head, rest, ⟨hphase, rfl⟩ | ⟨hphase, rfl⟩⟩ <;>
      exact .inl (hwriter (isHead_of_phase hphase nofun) hhead)

theorem foldInv_start (key : HeadKey) (tables : Tables) : FoldInv key (.start tables) where
  row := fun _ hhead => absurd rfl hhead
  target := by
    intro id target hpointer
    cases hpointer
  prior := by
    intro id head hhead
    cases hhead
  settled := by
    intro id other _ hselected
    cases hselected

/-- For any number of writers on any table, and every interleaving of their
statements: the pointers of the heads stay without a cycle, and exactly one
head is open once all have finished, exactly when no writer closes a head to
which its own head leads. -/
theorem one_survivor_iff (key : HeadKey) (tables : Tables) (events : List FoldEvent) :
    VisitsOnly (foldStep key) FoldState.OneSurvivor (.start tables) events ↔
      StepsSatisfy (foldStep key) ClosesNoPredecessor (.start tables)
        events := by
  have hsurvivor : ∀ state, FoldInv key state → (state.OneSurvivor ↔ Acyclic state.pointer) := by
    intro state hinv
    constructor
    · exact FoldState.OneSurvivor.acyclic
    · intro hacyclic
      exact ⟨hacyclic, fun hfinished ⟨_, hhead⟩ => hinv.survivor hacyclic hfinished hhead⟩
  have hexact : ∀ state event next, FoldInv key state →
      state.OneSurvivor → foldStep key state event = some next →
      (next.OneSurvivor ↔ ClosesNoPredecessor state event next) := by
    intro state event next hinv hone hstep
    rw [hsurvivor next (hinv.step hstep)]
    exact acyclic_step_iff hinv hone.acyclic hstep
  have hstart : Acyclic (FoldState.start tables).pointer := acyclic_of_none fun _ => rfl
  exact visitsOnly_iff_stepsSatisfy (fun _ _ _ hinv hstep => hinv.step hstep) hexact
    (foldInv_start key tables) ((hsurvivor _ (foldInv_start key tables)).mpr hstart)

theorem isHead_of_run {final : FoldState} {events : List FoldEvent}
    (hrun : run (foldStep key) state events = some final) (hhead : final.IsHead id) :
    state.IsHead id ∨ ∃ row, .insert id row ∈ events := by
  induction events generalizing state with
  | nil =>
    simp only [run_nil, some.injEq] at hrun
    subst hrun
    exact .inl hhead
  | cons event rest ih =>
    obtain ⟨next, hstep, hrest⟩ := run_cons_eq_some.mp hrun
    rcases ih hrest with hnext | ⟨row, hinsert⟩
    · rcases isHead_step hstep hnext with hold | ⟨row, rfl⟩
      · exact .inl hold
      · exact .inr ⟨row, mem_cons_self⟩
    · exact .inr ⟨row, mem_cons_of_mem _ hinsert⟩

def worldHeads : HeadKey where
  analystId := "world_assessor"
  rawSignature := "composition:world_assessor:world"
  applies := by decide +kernel

def worldHead (producedAt : Datetime) : OutputRow where
  isFinding := true
  analystId := some "world_assessor"
  producedAt := producedAt
  data := .object [("data", .object
    [("situation_signature", .string "composition:world_assessor:world")])]
  situationSignature := none
  supersededBy := none

def crossingFolds : List FoldEvent :=
  [.insert 1 (worldHead 10), .insert 2 (worldHead 20),
    .statement 1, .statement 1, .statement 2, .statement 2,
    .statement 1, .statement 1, .statement 2, .statement 2]

/-- Both writers have finished, each head is closed by the other, and none is
open. -/
theorem crossing_folds_leave_no_head :
    ∃ final, run (foldStep worldHeads) (.start ⟨Table.empty, []⟩) crossingFolds = some final ∧
      final.Finished ∧ (∃ id, final.IsHead id) ∧
      ¬∃ id, final.IsHead id ∧ final.successor id = none := by
  have hheads : ∀ final, run (foldStep worldHeads)
      (.start ⟨empty, []⟩) crossingFolds = some final →
      ∀ id, final.IsHead id → id = 1 ∨ id = 2 := by
    intro final hrun id hhead
    rcases isHead_of_run hrun hhead with hstart | ⟨row, hinsert⟩
    · exact absurd rfl hstart
    · simp only [crossingFolds, mem_cons, FoldEvent.insert.injEq,
        reduceCtorEq, not_mem_nil, or_false] at hinsert
      exact hinsert.imp And.left And.left
  refine ⟨_, rfl, ?_, ⟨1, nofun⟩, ?_⟩
  · intro id hhead
    rcases hheads _ rfl id hhead with rfl | rfl <;> rfl
  · rintro ⟨id, hhead, hopen⟩
    rcases hheads _ rfl id hhead with rfl | rfl <;> cases hopen

end Legba.Findings
