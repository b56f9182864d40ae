import Legba.FactWriteEffects

/-!
# Successors of closed rows

A write points the rows it closes at its own id before it knows whether it
will insert a row under it.  Where it refreshes an open row of its triple
instead, or the insert is refused, the pointer dangles.  The module says which
pointers a write adds and when it inserts its row, and from these when a run
keeps every successor in the table.
-/

namespace Legba.Facts

open JsonValue KeyedTable LabelledRun RowOrder Option Table

def NoDangling (table : FactTable) : Prop :=
  ∀ key row, table.row? key = some row → ∀ target,
    row.supersededBy = some target → (table.row? target).isSome = true

section

variable (text : TextFns)

def ClosesSome (table : FactTable) : Write → Prop
  | .fact w =>
    (∃ key row, table.row? key = some row ∧ (Write.fact w).closes text key row = true) ∨
    openTriple text (w.triple text) (some w.rowId) table = none ∧
      ∃ key row, table.row? key = some row ∧ w.closesOffice text w.rowId key row = true
  | .ingestion w =>
    w.validFrom ≠ none ∧ ∃ key row, table.row? key = some row ∧
      (Write.ingestion w).closes text key row = true

def ResolvesPointer (table : FactTable) (w : Write) (_ : FactTable) : Prop :=
  ClosesSome text table w → (table.row? w.id).isSome = true ∨ InsertsOwnRow text table w

end

variable {text : TextFns}

/-! ## Pointers -/

def KeepsPointers (table next : FactTable) : Prop :=
  ∀ key row target, table.row? key = some row →
    row.supersededBy = some target →
    ∃ row', next.row? key = some row' ∧ row'.supersededBy = some target

/-- Pointers are old or lead to one of `targets`. -/
def PointsInto (targets : Uuid → Prop) (table next : FactTable) : Prop :=
  ∀ key row' target, next.row? key = some row' →
    row'.supersededBy = some target →
    (∃ row, table.row? key = some row ∧ row.supersededBy = some target) ∨ targets target

theorem KeepsPointers.refl (table : FactTable) : KeepsPointers table table :=
  fun _ row _ hrow htarget => ⟨row, hrow, htarget⟩

variable {table next : FactTable} {row : FactRow} {w : FactWrite}

variable {middle : FactTable} {id newId : Uuid}

theorem KeepsPointers.trans (hfirst : KeepsPointers table middle)
    (hsecond : KeepsPointers middle next) : KeepsPointers table next := by
  intro key row target hrow htarget
  obtain ⟨between, hbetween, hkept⟩ := hfirst key row target hrow htarget
  exact hsecond key between target hbetween hkept

theorem PointsInto.refl (targets : Uuid → Prop) (table : FactTable) :
    PointsInto targets table table :=
  fun _ row _ hrow htarget => .inl ⟨row, hrow, htarget⟩

theorem PointsInto.trans {targets : Uuid → Prop} (hfirst : PointsInto targets table middle)
    (hsecond : PointsInto targets middle next) : PointsInto targets table next := by
  intro key row' target hrow' htarget
  cases hsecond key row' target hrow' htarget with
  | inl hold =>
    obtain ⟨between, hbetween, hpointer⟩ := hold
    exact hfirst key between target hbetween hpointer
  | inr hnew => exact .inr hnew

section

variable {table next : FactTable} {closes : Uuid → FactRow → Bool}
  {newId : Uuid} {now : Datetime}

section

variable
  (hnext : ∀ key, next.row? key = (table.row? key).map fun row => if closes key row then closeRow newId now row else row)

include hnext

theorem keepsPointers_of_closing (hopen : ∀ key row, closes key row = true → row.isOpen = true) :
    KeepsPointers table next := by
  intro key row target hrow htarget
  have hkept : ¬closes key row = true := by
    intro hcloses
    have hrowOpen := hopen key row hcloses
    simp [FactRow.isOpen, htarget] at hrowOpen
  have hrow' : next.row? key = some row := by rw [hnext, hrow, map_some, if_neg hkept]
  exact ⟨row, hrow', htarget⟩

theorem pointsInto_of_closing {targets : Uuid → Prop}
    (htargets : ∀ key row, table.row? key = some row → closes key row = true →
      targets newId) : PointsInto targets table next := by
  intro key row' target hrow' htarget
  rw [hnext] at hrow'
  obtain ⟨row, hrow, hset⟩ := map_eq_some_iff.mp hrow'
  by_cases hcloses : closes key row = true
  · rw [if_pos hcloses] at hset
    subst hset
    have hnew : newId = target := some.inj htarget
    subst hnew
    exact .inr (htargets key row hrow hcloses)
  · rw [if_neg hcloses] at hset
    subst hset
    exact .inl ⟨row, hrow, htarget⟩

end

end

section

variable {table : FactTable} {key : Uuid} {row : FactRow}
  {set : FactRow → FactRow}

theorem keepsPointers_update (hrow : table.row? key = some row) (hsame : SameFact row (set row)) :
    KeepsPointers table (table.update key set) := by
  intro other found target hfound htarget
  by_cases hother : other = key
  · subst hother
    rw [hfound, some.injEq] at hrow
    subst hrow
    exact ⟨set found, by simp [hfound], hsame.supersededBy.trans htarget⟩
  · exact ⟨found, by rw [row?_update_of_ne _ hother, hfound], htarget⟩

theorem pointsInto_update {targets : Uuid → Prop} (hrow : table.row? key = some row)
    (hsame : SameFact row (set row)) : PointsInto targets table (table.update key set) := by
  intro other row' target hrow' htarget
  left
  by_cases hother : other = key
  · subst hother
    rw [row?_update_self, hrow, map_some, some.injEq] at hrow'
    rw [← hrow', hsame.supersededBy] at htarget
    exact ⟨row, hrow, htarget⟩
  · rw [row?_update_of_ne _ hother] at hrow'
    exact ⟨row', hrow', htarget⟩

end

theorem InsertEffect.keepsPointers (heffect : InsertEffect text id row table next) :
    KeepsPointers table next := by
  cases heffect with
  | kept => exact KeepsPointers.refl table
  | refreshed hrow hsame => exact keepsPointers_update hrow hsame
  | added _ hunused =>
    intro key found target hfound htarget
    have hkey : key ≠ id := by
      intro heq
      rw [heq, hunused] at hfound
      simp at hfound
    exact ⟨found, by rw [row?_put_of_ne _ hkey, hfound], htarget⟩

theorem InsertEffect.pointsInto (heffect : InsertEffect text id row table next)
    (hrow : row.supersededBy = none) (targets : Uuid → Prop) : PointsInto targets table next := by
  cases heffect with
  | kept => exact PointsInto.refl targets table
  | refreshed hfound hsame => exact pointsInto_update hfound hsame
  | added _ hunused =>
    intro key found target hfound htarget
    cases row?_put_eq_some.mp hfound with
    | inl hself =>
      rw [hself.2, hrow] at htarget
      simp at htarget
    | inr hother => exact .inl ⟨found, hother.2, htarget⟩

section

variable {contention : Bool} {now : Datetime} {triple : Triple}
  {newId : Uuid} {incoming : Option String} {table : FactTable}

theorem pointsInto_supersede {targets : Uuid → Prop}
    (htargets : ∀ key row, table.row? key = some row → closesPrior text contention
      triple newId incoming key row = true → targets newId) :
    PointsInto targets table
      (supersedePriorFacts text contention now triple newId incoming table) :=
  pointsInto_of_closing
    (row?_supersedePriorFacts contention now triple newId incoming table)
    htargets

theorem pointer_of_closesPrior {key : Uuid} {row : FactRow} (hrow : table.row? key = some row)
    (hcloses : closesPrior text contention triple newId incoming key row = true) :
    ∃ row', (supersedePriorFacts text contention now triple newId incoming
        table).row? key = some row' ∧ row'.supersededBy = some newId := by
  refine ⟨closeRow newId now row, ?_, rfl⟩
  rw [row?_supersedePriorFacts, hrow, map_some, if_pos hcloses]

end

/-! ## The pointers of a write -/

def Targets (text : TextFns) (table : FactTable) (w : Write) (target : Uuid) : Prop :=
  target = w.id ∧ ClosesSome text table w ∨ (table.row? target).isSome = true

variable {table : FactTable}

theorem FactWrite.pointsInto_supersedePrior (w : FactWrite) (text : TextFns) (table : FactTable) :
    PointsInto (Targets text table (.fact w)) table (w.supersedePrior text table) :=
  pointsInto_supersede fun key row hrow hcloses => .inl ⟨rfl, .inl ⟨key, row, hrow, hcloses⟩⟩

theorem FactWrite.keepsPointers_supersedeRole
    (hnext : w.supersedeRole text newId table = some next) :
    KeepsPointers table next :=
  keepsPointers_of_closing (FactWrite.row?_supersedeRole hnext)
    fun _ _ hcloses => isOpen_of_closesOffice hcloses

theorem insertFact_pointsInto (w : FactWrite) :
    PointsInto (Targets text table (.fact w)) table (insertFact text w table) := by
  have hprior := w.pointsInto_supersedePrior text table
  cases hopen : openTriple text (w.triple text) (some w.rowId) (w.supersedePrior text table) with
  | some found =>
    rw [insertFact_of_open hopen]
    have hfound := (openTriple_eq_some hopen).1
    have hrefresh : PointsInto (Targets text table (.fact w))
        (w.supersedePrior text table)
        ((w.supersedePrior text table).update found.1
          (collapseSet (w.reassertion text))) :=
      pointsInto_update hfound (sameFact_collapseSet (w.reassertion text) found.2)
    have hexists : (table.row? found.1).isSome := by
      have hshrinks : Shrinks table (w.supersedePrior text table) := shrinks_supersedePriorFacts ..
      rw [← hshrinks.keys, hfound]
      rfl
    cases hrole : w.supersedeRole text found.1
        ((w.supersedePrior text table).update found.1
          (collapseSet (w.reassertion text))) with
    | none => exact hprior.trans hrefresh
    | some closed =>
      exact (hprior.trans hrefresh).trans
        (pointsInto_of_closing (FactWrite.row?_supersedeRole hrole)
          fun _ _ _ _ => .inr hexists)
  | none =>
    have hnone := openTriple_supersede.mp hopen
    cases hrole : w.supersedeRole text w.rowId (w.supersedePrior text table) with
    | none =>
      rw [insertFact_of_refused hopen hrole]
      exact hprior
    | some closed =>
      rw [insertFact_of_new hopen hrole]
      have hclosed : PointsInto (Targets text table (.fact w))
          (w.supersedePrior text table) closed :=
        pointsInto_of_closing (FactWrite.row?_supersedeRole hrole)
          fun key row hrow hcloses => .inl ⟨rfl, .inr ⟨hnone, key,
            row, FactWrite.closesOffice_before hrow hcloses, hcloses⟩⟩
      exact (hprior.trans hclosed).trans ((w.insert_effect text closed).pointsInto rfl _)

theorem insertIngestionFact_pointsInto (w : IngestionWrite) :
    PointsInto (Targets text table (.ingestion w)) table (insertIngestionFact text w table) := by
  by_cases htime : w.validFrom = none
  · rw [insertIngestionFact_of_noTime htime]
    exact PointsInto.refl _ table
  · have hprior : PointsInto (Targets text table (.ingestion w)) table
        (w.supersedePrior text table) :=
      pointsInto_supersede fun key row hrow hcloses => .inl ⟨rfl, htime, key, row, hrow, hcloses⟩
    cases hopen : openTriple text w.toTriple none (w.supersedePrior text table) with
    | some found =>
      rw [insertIngestionFact_of_open htime hopen]
      split
      · exact hprior
      · exact hprior.trans (pointsInto_update (openTriple_eq_some hopen).1
          (sameFact_ingestionRefreshSet (w.reassertion text) w.sourceId found.2))
    | none =>
      rw [insertIngestionFact_of_new htime hopen]
      exact hprior.trans ((w.insert_effect text (w.supersedePrior text table)).pointsInto rfl _)

theorem writeStep_pointsInto {w : Write} (hstep : writeStep text table w = some next) :
    PointsInto (Targets text table w) table next := by
  cases w with
  | fact w =>
    rw [← some.inj hstep]
    exact insertFact_pointsInto w
  | ingestion w =>
    rw [← some.inj hstep]
    exact insertIngestionFact_pointsInto w

theorem insertFact_keepsPointers (w : FactWrite) :
    KeepsPointers (w.supersedePrior text table) (insertFact text w table) := by
  cases hopen : openTriple text (w.triple text) (some w.rowId) (w.supersedePrior text table) with
  | some found =>
    rw [insertFact_of_open hopen]
    have hrefresh := keepsPointers_update (openTriple_eq_some hopen).1
      (sameFact_collapseSet (w.reassertion text) found.2)
    cases hrole : w.supersedeRole text found.1
        ((w.supersedePrior text table).update found.1
          (collapseSet (w.reassertion text))) with
    | none => exact hrefresh
    | some closed => exact hrefresh.trans (FactWrite.keepsPointers_supersedeRole hrole)
  | none =>
    cases hrole : w.supersedeRole text w.rowId (w.supersedePrior text table) with
    | none =>
      rw [insertFact_of_refused hopen hrole]
      exact KeepsPointers.refl _
    | some closed =>
      rw [insertFact_of_new hopen hrole]
      exact (FactWrite.keepsPointers_supersedeRole hrole).trans
        (w.insert_effect text closed).keepsPointers

theorem insertIngestionFact_keepsPointers {w : IngestionWrite} (htime : w.validFrom ≠ none) :
    KeepsPointers (w.supersedePrior text table) (insertIngestionFact text w table) := by
  cases hopen : openTriple text w.toTriple none (w.supersedePrior text table) with
  | some found =>
    rw [insertIngestionFact_of_open htime hopen]
    split
    · exact KeepsPointers.refl _
    · exact keepsPointers_update (openTriple_eq_some hopen).1
        (sameFact_ingestionRefreshSet (w.reassertion text) w.sourceId found.2)
  | none =>
    rw [insertIngestionFact_of_new htime hopen]
    exact (w.insert_effect text (w.supersedePrior text table)).keepsPointers

theorem FactWrite.roleAccepted_of_closesOffice {key : Uuid}
    (hcloses : w.closesOffice text newId key row) : w.RoleAccepted text := by
  intro _ hside value hvalue
  simp only [FactWrite.closesOffice, Facts.closesOffice, hside, hvalue,
    Bool.and_eq_true, bind_some] at hcloses
  cases hrole : value.string? with
  | none =>
    rw [hrole] at hcloses
    exact absurd hcloses.2 (by simp)
  | some role => exact .inr rfl

theorem insertFact_pointer (hcloses : ClosesSome text table (.fact w)) :
    ∃ key row', (insertFact text w table).row? key = some row' ∧
      row'.supersededBy = some w.rowId := by
  have hprior : ∀ key row, table.row? key = some row →
      (Write.fact w).closes text key row = true →
      ∃ key row', (insertFact text w table).row? key = some row' ∧
        row'.supersededBy = some w.rowId := by
    intro key row hrow hrowCloses
    obtain ⟨row', hrow', htarget⟩ := @pointer_of_closesPrior text _ w.now _
      _ _ _ _ _ hrow hrowCloses
    exact ⟨key, insertFact_keepsPointers w key row' w.rowId hrow' htarget⟩
  cases hcloses with
  | inl hclosed =>
    obtain ⟨key, row, hrow, hrowCloses⟩ := hclosed
    exact hprior key row hrow hrowCloses
  | inr hoffice =>
    obtain ⟨hnone, key, row, hrow, hrowCloses⟩ := hoffice
    cases hkept : (Write.fact w).closes text key row with
    | true => exact hprior key row hrow hkept
    | false =>
      have hopen : openTriple text (w.triple text) (some w.rowId)
          (w.supersedePrior text table) = none :=
        openTriple_supersede.mpr hnone
      have haccepted := FactWrite.roleAccepted_of_closesOffice hrowCloses
      have hrowPrior : (w.supersedePrior text table).row? key =
          some row := row?_supersede_of_kept hrow hkept
      cases hrole : w.supersedeRole text w.rowId (w.supersedePrior text table) with
      | none => exact absurd hrole (FactWrite.roleAccepted_iff.mp haccepted)
      | some closed =>
        rw [insertFact_of_new hopen hrole]
        have hrowClosed : closed.row? key = some (closeRow w.rowId w.now row) := by
          rw [FactWrite.row?_supersedeRole hrole, hrowPrior, map_some, if_pos hrowCloses]
        exact ⟨key, (w.insert_effect text closed).keepsPointers key _ w.rowId hrowClosed rfl⟩

theorem writeStep_pointer {w : Write} (hstep : writeStep text table w = some next)
    (hcloses : ClosesSome text table w) :
    ∃ key row', next.row? key = some row' ∧ row'.supersededBy = some w.id := by
  cases w with
  | fact w =>
    rw [← some.inj hstep]
    exact insertFact_pointer hcloses
  | ingestion w =>
    rw [← some.inj hstep]
    obtain ⟨htime, key, row, hrow, hrowCloses⟩ := hcloses
    obtain ⟨row', hrow', htarget⟩ := @pointer_of_closesPrior text _ w.now _
      _ _ _ _ _ hrow hrowCloses
    exact ⟨key, insertIngestionFact_keepsPointers htime key row' w.factId hrow' htarget⟩

/-! ## The row of a write -/

theorem FactWrite.insertsOwnRow (hnext : ((insertFact text w table).row? w.rowId).isSome)
    (hunused : (table.row? w.rowId).isSome = false) : InsertsOwnRow text table (.fact w) := by
  have hprior : Shrinks table (w.supersedePrior text table) := shrinks_supersedePriorFacts ..
  have hold : ∀ ended, Shrinks table ended → (ended.row? w.rowId).isSome ≠ true := by
    intro ended hshrinks hused
    rw [hshrinks.keys, hunused] at hused
    simp at hused
  cases hopen : openTriple text (w.triple text) (some w.rowId) (w.supersedePrior text table) with
  | some found =>
    rw [insertFact_of_open hopen] at hnext
    have hrefresh := hprior.trans (shrinks_update (openTriple_eq_some hopen).1
      (sameFact_collapseSet (w.reassertion text) found.2))
    cases hrole : w.supersedeRole text found.1
        ((w.supersedePrior text table).update found.1
          (collapseSet (w.reassertion text))) with
    | none =>
      rw [hrole] at hnext
      exact absurd hnext (hold _ hrefresh)
    | some closed =>
      rw [hrole] at hnext
      exact absurd hnext (hold _ (hrefresh.trans (FactWrite.shrinks_supersedeRole hrole)))
  | none =>
    cases hrole : w.supersedeRole text w.rowId (w.supersedePrior text table) with
    | none =>
      rw [insertFact_of_refused hopen hrole] at hnext
      exact absurd hnext (hold _ hprior)
    | some closed =>
      rw [insertFact_of_new hopen hrole] at hnext
      have hclosed := hprior.trans (FactWrite.shrinks_supersedeRole hrole)
      cases (w.insert_effect text closed).shrinks_or with
      | inl hshrinks => exact absurd hnext (hold _ (hclosed.trans hshrinks))
      | inr hadded =>
        have hrefused : w.supersedeRole text w.rowId
            (w.supersedePrior text table) ≠ none := by simp [hrole]
        exact ⟨openTriple_supersede.mp hopen, hadded.1, FactWrite.roleAccepted_iff.mpr hrefused⟩

theorem IngestionWrite.insertsOwnRow {w : IngestionWrite}
    (hnext : ((insertIngestionFact text w table).row? w.factId).isSome)
    (hunused : (table.row? w.factId).isSome = false) : InsertsOwnRow text table (.ingestion w) := by
  have hprior : Shrinks table (w.supersedePrior text table) := shrinks_supersedePriorFacts ..
  have hold : ∀ ended, Shrinks table ended → (ended.row? w.factId).isSome ≠ true := by
    intro ended hshrinks hused
    rw [hshrinks.keys, hunused] at hused
    simp at hused
  by_cases htime : w.validFrom = none
  · rw [insertIngestionFact_of_noTime htime, hunused] at hnext
    simp at hnext
  · cases hopen : openTriple text w.toTriple none (w.supersedePrior text table) with
    | some found =>
      rw [insertIngestionFact_of_open htime hopen] at hnext
      have hrefresh := hprior.trans (shrinks_update
        (openTriple_eq_some hopen).1 (sameFact_ingestionRefreshSet
          (w.reassertion text) w.sourceId found.2))
      split at hnext
      · exact absurd hnext (hold _ hprior)
      · exact absurd hnext (hold _ hrefresh)
    | none => exact ⟨openTriple_supersede.mp hopen, htime⟩

theorem isSome_writeStep_iff {w : Write} (hinv : OneOpenPerTriple text table)
    (hstep : writeStep text table w = some next) :
    (next.row? w.id).isSome = true ↔
      (table.row? w.id).isSome = true ∨ InsertsOwnRow text table w := by
  cases hunused : (table.row? w.id).isSome with
  | true =>
    simp only [true_or, iff_true]
    exact isSome_of_writeStep hstep hunused
  | false =>
    simp only [Bool.false_eq_true, false_or]
    cases w with
    | fact w =>
      rw [← some.inj hstep]
      constructor
      · exact fun hnext => FactWrite.insertsOwnRow hnext hunused
      · intro hinserts
        have hrow := FactWrite.row?_of_inserts hinv hunused hinserts
        exact isSome_of_eq_some hrow
    | ingestion w =>
      rw [← some.inj hstep]
      constructor
      · exact fun hnext => IngestionWrite.insertsOwnRow hnext hunused
      · intro hinserts
        have hrow := IngestionWrite.row?_of_inserts hinv hunused hinserts
        exact isSome_of_eq_some hrow

theorem noDangling_step_iff {w : Write} (hinv : OneOpenPerTriple text table)
    (htable : NoDangling table) (hstep : writeStep text table w = some next) :
    NoDangling next ↔ ResolvesPointer text table w next := by
  unfold ResolvesPointer
  rw [← isSome_writeStep_iff hinv hstep]
  constructor
  · intro hnext hcloses
    obtain ⟨key, row', hrow', htarget⟩ := writeStep_pointer hstep hcloses
    exact hnext key row' hrow' w.id htarget
  · intro hresolves key row' hrow' target htarget
    cases writeStep_pointsInto hstep key row' target hrow' htarget with
    | inl hold =>
      obtain ⟨row, hrow, hpointer⟩ := hold
      exact isSome_of_writeStep hstep (htable key row hrow target hpointer)
    | inr hnew =>
      cases hnew with
      | inl hself =>
        rw [hself.1]
        exact hresolves hself.2
      | inr hexists => exact isSome_of_writeStep hstep hexists

/-- Along any sequence of writes from an empty table every successor is the id
of a row, in every state, exactly when each write which closes rows under its
own id has a row under it: the id is in use, or the triple has no open row and
no statement is refused. -/
theorem noDangling_iff (text : TextFns) (writes : List Write) :
    VisitsOnly (writeStep text) NoDangling empty writes ↔
      StepsSatisfy (writeStep text) (ResolvesPointer text) empty writes :=
  visitsOnly_iff_stepsSatisfy
    (fun _ _ _ hinv hstep => oneOpenPerTriple_step hinv hstep)
    (fun _ _ _ hinv htable hstep => noDangling_step_iff hinv htable hstep)
    oneOpenPerTriple_empty (fun _ _ hrow => absurd hrow (by simp))

/-- A curated value and another one of an analyst stand open side by side; the
curated one is asserted again. -/
def reassertedCapital : List Write :=
  [.fact (capitalWrite 1 "a" "seed" 1), .fact (capitalWrite 2 "b" "agent" 2),
    .fact (capitalWrite 3 "a" "seed" 3)]

/-- The analyst's row is closed in favour of a row which is never inserted. -/
theorem dangling_after_reassertion :
    ∃ final row,
      run (writeStep lowerCaseText) empty reassertedCapital = some final ∧
      final.row? 2 = some row ∧ row.supersededBy = some 3 ∧
      final.row? 3 = none ∧ ¬NoDangling final := by
  refine ⟨_, _, rfl, rfl, rfl, rfl, ?_⟩
  intro hresolved
  have htarget := hresolved 2 _ rfl 3 rfl
  exact absurd htarget (by decide)

end Legba.Facts
