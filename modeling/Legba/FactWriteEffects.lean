import Legba.FactWrites

/-!
# What one fact write can do

A write closes rows, refreshes the open row of its triple or adds one row
under its own id.  Up to the insert a table only shrinks: every open row of
the result was open before and asserts the same fact.
-/

namespace Legba.Facts

open JsonValue KeyedTable RowOrder Option Table Bool

structure SameFact (before after : FactRow) : Prop where
  triple : after.toTriple = before.toTriple
  sourceType : after.sourceType = before.sourceType
  originClass : after.originClass = before.originClass
  role : after.role = before.role
  validUntil : after.validUntil = before.validUntil
  supersededBy : after.supersededBy = before.supersededBy

variable {before middle after : FactRow}

theorem SameFact.refl (row : FactRow) : SameFact row row :=
  ⟨rfl, rfl, rfl, rfl, rfl, rfl⟩

theorem SameFact.trans (hfirst : SameFact before middle)
    (hsecond : SameFact middle after) : SameFact before after where
  triple := hsecond.triple.trans hfirst.triple
  sourceType := hsecond.sourceType.trans hfirst.sourceType
  originClass := hsecond.originClass.trans hfirst.originClass
  role := hsecond.role.trans hfirst.role
  validUntil := hsecond.validUntil.trans hfirst.validUntil
  supersededBy := hsecond.supersededBy.trans hfirst.supersededBy

theorem SameFact.isOpen (hsame : SameFact before after) : after.isOpen = before.isOpen := by
  unfold FactRow.isOpen
  rw [hsame.validUntil, hsame.supersededBy]

theorem SameFact.isLive (hsame : SameFact before after) : after.isLive = before.isLive := by
  unfold FactRow.isLive
  rw [hsame.originClass]

theorem role_ledgerWith (row : FactRow) (sourceId : Option String) :
    ((field? (ledgerWith row.data sourceId) "role").bind
      Json.asText).getD "" = row.role := by
  have hne : "role" ≠ "source_ids" := by decide
  unfold ledgerWith FactRow.role
  cases sourceId with
  | none => rfl
  | some source =>
    dsimp only
    split
    · rfl
    · rw [field?_setField_of_ne _ hne]

theorem sameFact_collapseSet (incoming : Reassertion) (row : FactRow) :
    SameFact row (collapseSet incoming row) :=
  ⟨rfl, rfl, rfl, rfl, rfl, rfl⟩

theorem sameFact_ingestionRefreshSet (incoming : Reassertion)
    (sourceId : Option String) (row : FactRow) :
    SameFact row (ingestionRefreshSet incoming sourceId row) :=
  ⟨rfl, rfl, rfl, role_ledgerWith row sourceId, rfl, rfl⟩

theorem sameFact_ingestionUpsertSet (sourceId : Option String)
    (excluded row : FactRow) (now : Datetime) :
    SameFact row (ingestionUpsertSet sourceId excluded row now) :=
  ⟨rfl, rfl, rfl, role_ledgerWith row sourceId, rfl, rfl⟩

theorem sameFact_upsertSet {excluded : FactRow}
    (hopen : excluded.isOpen) (row : FactRow) (now : Datetime) :
    SameFact row (upsertSet excluded row now) where
  triple := rfl
  sourceType := rfl
  originClass := rfl
  role := rfl
  validUntil := by
    have huntil : excluded.validUntil = none := by
      simp only [FactRow.isOpen, and_eq_true, isNone_iff_eq_none] at hopen
      exact hopen.1
    simp [upsertSet, huntil]
  supersededBy := rfl

section

variable {text : TextFns}

theorem SameFact.closesPrior_eq (hsame : SameFact before after) (contention : Bool)
    (triple : Triple) (newId : Uuid) (incoming : Option String) (key : Uuid) :
    closesPrior text contention triple newId incoming key after =
      closesPrior text contention triple newId incoming key before := by
  simp only [closesPrior, priorCandidate, coexistCloses, guardAllows,
    hsame.triple, hsame.sourceType, hsame.isOpen, hsame.isLive]

theorem SameFact.closesOffice_eq (hsame : SameFact before after) (triple : Triple)
    (role : Option Json) (newId : Uuid) (incoming : Option String) (key : Uuid) :
    closesOffice text triple role newId incoming key after =
      closesOffice text triple role newId incoming key before := by
  simp only [closesOffice, closesRole, guardAllows, hsame.triple,
    hsame.sourceType, hsame.isOpen, hsame.isLive, hsame.role]

end

/-- The rows are the same up to their columns, and what is open was open before
and asserts the same fact. -/
structure Shrinks (table next : FactTable) : Prop where
  keys : ∀ key, (next.row? key).isSome = (table.row? key).isSome
  old : ∀ key row, table.row? key = some row → ∀ row',
    next.row? key = some row' → row'.isOpen = true → SameFact row row'

theorem Shrinks.refl (table : FactTable) : Shrinks table table where
  keys := fun _ => rfl
  old := by
    intro key row hrow row' hrow' _
    rw [hrow, some.injEq] at hrow'
    subst hrow'
    exact SameFact.refl row

variable {table next : FactTable} {key newId : Uuid} {now : Datetime}
  {row : FactRow} {w : FactWrite} {set : FactRow → Option FactRow}

theorem Shrinks.source (h : Shrinks table next) {row' : FactRow} (hrow' : next.row? key = some row')
    (hopen : row'.isOpen) : ∃ row, table.row? key = some row ∧ SameFact row row' := by
  have hkey := h.keys key
  rw [hrow', isSome_some] at hkey
  obtain ⟨row, hrow⟩ := isSome_iff_exists.mp hkey.symm
  exact ⟨row, hrow, h.old key row hrow row' hrow' hopen⟩

theorem Shrinks.trans {middle : FactTable} (hfirst : Shrinks table middle)
    (hsecond : Shrinks middle next) :
    Shrinks table next where
  keys := fun key => (hsecond.keys key).trans (hfirst.keys key)
  old := by
    intro key row hrow row' hrow' hopen
    obtain ⟨between, hbetween, hsame⟩ := hsecond.source hrow' hopen
    have hopenBetween : between.isOpen := by
      rw [← hsame.isOpen]
      exact hopen
    exact (hfirst.old key row hrow between hbetween hopenBetween).trans hsame

theorem isOpen_closeRow (newId : Uuid) (now : Datetime) (row : FactRow) :
    (closeRow newId now row).isOpen = false := rfl

theorem shrinks_of_closing {closes : Uuid → FactRow → Bool}
    (hnext : ∀ key, next.row? key = (table.row? key).map fun row =>
      if closes key row then closeRow newId now row else row) :
    Shrinks table next where
  keys := by
    intro key
    rw [hnext, isSome_map]
  old := by
    intro key row hrow row' hrow' hopen
    rw [hnext, hrow, map_some, some.injEq] at hrow'
    by_cases hcloses : closes key row = true
    · rw [if_pos hcloses] at hrow'
      rw [← hrow', isOpen_closeRow] at hopen
      simp at hopen
    · rw [if_neg hcloses] at hrow'
      rw [← hrow']
      exact SameFact.refl row

theorem shrinks_update {set : FactRow → FactRow}
    (hrow : table.row? key = some row) (hsame : SameFact row (set row)) :
    Shrinks table (table.update key set)
    where
  keys := by
    intro other
    by_cases hother : other = key
    · subst hother
      rw [row?_update_self, isSome_map]
    · rw [row?_update_of_ne _ hother]
  old := by
    intro other found hfound row' hrow' _
    by_cases hother : other = key
    · subst hother
      rw [hfound, some.injEq] at hrow
      rw [row?_update_self, hfound, map_some, some.injEq] at hrow'
      rw [← hrow', hrow]
      exact hsame
    · rw [row?_update_of_ne _ hother, hfound, some.injEq] at hrow'
      rw [← hrow']
      exact SameFact.refl found

/-! ## The statements of a write -/

section

variable (text : TextFns)

def Write.id : Write → Uuid
  | .fact w => w.rowId
  | .ingestion w => w.factId

def Write.newRow : Write → FactRow
  | .fact w => w.row text
  | .ingestion w => w.row text

def Write.incoming : Write → String
  | .fact w => w.effectiveSourceType
  | .ingestion _ => "ingestion"

def Write.contention : Write → Bool
  | .fact w => w.contention
  | .ingestion w => w.contention

def Write.closes (w : Write) (key : Uuid) (row : FactRow) : Bool :=
  closesPrior text w.contention (w.newRow text).toTriple w.id (some w.incoming) key row

/-- The table a write inserts into: its own row would be the only open row of
the triple, and no open row of another value is left which the first statement
closes. -/
structure ReadyFor (w : Write) (table ready : FactTable) : Prop where
  shrinks : Shrinks table ready
  noPrior : ∀ key row, ready.row? key = some row → row.isOpen = true → w.closes text key row = false
  noTriple : ∀ key row, ready.row? key = some row → key ≠ w.id →
    row.isLive = true → row.isOpen = true →
    sameTriple text row.toTriple (w.newRow text).toTriple = false

end

variable {text : TextFns}

theorem closes_supersede {contention : Bool} {triple : Triple} {incoming : Option String}
    (hrow : (supersedePriorFacts text contention now triple newId incoming table).row? key = some
      row) (hopen : row.isOpen) :
    closesPrior text contention triple newId incoming key row = false := by
  rw [row?_supersedePriorFacts] at hrow
  obtain ⟨before, _, hset⟩ := map_eq_some_iff.mp hrow
  by_cases hcloses : closesPrior text contention triple newId incoming key before = true
  · rw [if_pos hcloses] at hset
    rw [← hset, isOpen_closeRow] at hopen
    simp at hopen
  · rw [if_neg hcloses] at hset
    rw [← hset]
    exact eq_false_iff.mpr hcloses

theorem shrinks_supersedePriorFacts (contention : Bool) (now : Datetime) (triple : Triple)
    (newId : Uuid) (incoming : Option String) (table : FactTable) :
    Shrinks table (supersedePriorFacts text contention now triple newId incoming table) :=
  shrinks_of_closing (row?_supersedePriorFacts contention now triple newId incoming table)

theorem FactWrite.shrinks_supersedeRole (hnext : w.supersedeRole text newId table = some next) :
    Shrinks table next := by
  unfold FactWrite.supersedeRole at hnext
  split at hnext
  · exact shrinks_of_closing (row?_supersedeOffice hnext)
  · rw [← some.inj hnext]
    exact Shrinks.refl table

theorem ReadyFor.shrink {w : Write} {ready : FactTable}
    (hready : ReadyFor text w table ready) (hshrinks : Shrinks ready next) :
    ReadyFor text w table next where
  shrinks := hready.shrinks.trans hshrinks
  noPrior := by
    intro key row hrow hopen
    obtain ⟨before, hbefore, hsame⟩ := hshrinks.source hrow hopen
    rw [hsame.isOpen] at hopen
    unfold Write.closes
    rw [hsame.closesPrior_eq]
    exact hready.noPrior key before hbefore hopen
  noTriple := by
    intro key row hrow hkey hlive hopen
    obtain ⟨before, hbefore, hsame⟩ := hshrinks.source hrow hopen
    rw [hsame.isOpen] at hopen
    rw [hsame.isLive] at hlive
    rw [hsame.triple]
    exact hready.noTriple key before hbefore hkey hlive hopen

/-- An insert leaves the table, refreshes the row it conflicts with, or adds
its own row under an unused id. -/
inductive InsertEffect (text : TextFns) (id : Uuid) (row : FactRow)
    (table : FactTable) : FactTable → Prop where
  | kept : InsertEffect text id row table table
  | refreshed {key : Uuid} {found updated : FactRow}
      (hrow : table.row? key = some found) (hsame : SameFact found updated) :
      InsertEffect text id row table (table.update key fun _ => updated)
  | added (hlive : row.isLive = true) (hunused : table.row? id = none) :
      InsertEffect text id row table (table.put id row)

variable {id : Uuid}

theorem insertRow_effect
    (hset : row.isOpen = true → ∀ found updated, set found = some updated → SameFact found updated)
    (table : FactTable) : InsertEffect text id row table (insertRow text id row set table) := by
  unfold insertRow
  split
  · exact .kept
  · rename_i hlive
    rw [not_eq_false] at hlive
    cases hconflict : table.selectFirst (conflicts text row) with
    | some found =>
      have hfound := selectFirst_eq_some hconflict
      have hopen : row.isOpen := by
        simp only [conflicts, and_eq_true] at hfound
        exact hfound.2.1.1.1
      dsimp only
      cases hupdated : set found.2 with
      | none => exact .kept
      | some updated => exact .refreshed hfound.1 (hset hopen found.2 updated hupdated)
    | none =>
      dsimp only
      split
      · exact .kept
      · rename_i hkey
        rw [not_isSome_iff_eq_none] at hkey
        exact .added hlive hkey

theorem InsertEffect.shrinks_or (heffect : InsertEffect text id row table next) :
    Shrinks table next ∨ row.isLive = true ∧ table.row? id = none ∧ next = table.put id row := by
  cases heffect with
  | kept => exact .inl (Shrinks.refl table)
  | refreshed hrow hsame => exact .inl (shrinks_update hrow hsame)
  | added hlive hunused => exact .inr ⟨hlive, hunused, rfl⟩

theorem readyFor_supersede {w : Write} {exclude : Option Uuid}
    (hexclude : ∀ key, key ≠ w.id → exclude ≠ some key)
    (hnone : openTriple text (w.newRow text).toTriple exclude (supersedePriorFacts text
      w.contention now (w.newRow text).toTriple w.id (some w.incoming) table) = none) :
    ReadyFor text w table
      (supersedePriorFacts text w.contention now (w.newRow text).toTriple w.id
        (some w.incoming) table) where
  shrinks := shrinks_supersedePriorFacts ..
  noPrior := fun _ _ hrow hopen => closes_supersede hrow hopen
  noTriple := by
    intro key row hrow hkey hlive hopen
    have hmiss := openTriple_eq_none.mp hnone key row hrow
    by_contra hsame
    rw [not_eq_false] at hsame
    have hhit := openTripleCondition_eq_true.mpr ⟨hsame, hopen, hlive, hexclude key hkey⟩
    rw [hmiss] at hhit
    simp at hhit

theorem FactWrite.ready
    (hnone : openTriple text (w.triple text) (some w.rowId) (w.supersedePrior text table) = none) :
    ReadyFor text (.fact w) table (w.supersedePrior text table) := by
  have hexclude : ∀ key, key ≠ (Write.fact w).id → some w.rowId ≠ some key := by
    intro key hkey heq
    exact hkey (some.inj heq).symm
  exact readyFor_supersede hexclude hnone

theorem IngestionWrite.ready {w : IngestionWrite}
    (hnone : openTriple text w.toTriple none (w.supersedePrior text table) = none) :
    ReadyFor text (.ingestion w) table (w.supersedePrior text table) :=
  readyFor_supersede (fun _ _ => by simp) hnone

theorem FactWrite.insert_effect (text : TextFns) (w : FactWrite) (table : FactTable) :
    InsertEffect text w.rowId (w.row text) table
      (insertRow text w.rowId (w.row text)
        (fun row => some (upsertSet (w.row text) row w.now)) table) := by
  apply insertRow_effect
  intro hopen found updated hupdated
  rw [← some.inj hupdated]
  exact sameFact_upsertSet hopen found w.now

theorem IngestionWrite.insert_effect (text : TextFns) (w : IngestionWrite) (table : FactTable) :
    InsertEffect text w.factId (w.row text) table
      (insertRow text w.factId (w.row text) (w.upsert text) table) := by
  apply insertRow_effect
  intro _ found updated hupdated
  unfold IngestionWrite.upsert at hupdated
  rw [ite_none_left_eq_some] at hupdated
  rw [← some.inj hupdated.2]
  exact sameFact_ingestionUpsertSet w.sourceId _ found w.now

def ShrinksOrAdds (text : TextFns) (w : Write) (table next : FactTable) :
    Prop :=
  Shrinks table next ∨
    ∃ ready, ReadyFor text w table ready ∧ ready.row? w.id = none ∧
      (w.newRow text).isLive = true ∧
      next = ready.put w.id (w.newRow text)

theorem insertFact_cases (w : FactWrite) (table : FactTable) :
    ShrinksOrAdds text (.fact w) table (insertFact text w table) := by
  have hprior : Shrinks table (w.supersedePrior text table) := shrinks_supersedePriorFacts ..
  cases hopen : openTriple text (w.triple text) (some w.rowId) (w.supersedePrior text table) with
  | some found =>
    left
    rw [insertFact_of_open hopen]
    have hrefresh := shrinks_update (openTriple_eq_some hopen).1
      (sameFact_collapseSet (w.reassertion text) found.2)
    cases hrole : w.supersedeRole text found.1
        ((w.supersedePrior text table).update found.1
          (collapseSet (w.reassertion text))) with
    | none => exact hprior.trans hrefresh
    | some closed => exact (hprior.trans hrefresh).trans (FactWrite.shrinks_supersedeRole hrole)
  | none =>
    cases hrole : w.supersedeRole text w.rowId (w.supersedePrior text table) with
    | none =>
      left
      rw [insertFact_of_refused hopen hrole]
      exact hprior
    | some closed =>
      rw [insertFact_of_new hopen hrole]
      have hclosed := FactWrite.shrinks_supersedeRole hrole
      cases (w.insert_effect text closed).shrinks_or with
      | inl hshrinks => exact .inl ((hprior.trans hclosed).trans hshrinks)
      | inr hput =>
        exact .inr ⟨closed, (FactWrite.ready hopen).shrink hclosed, hput.2.1, hput.1, hput.2.2⟩

theorem insertIngestionFact_cases (w : IngestionWrite) (table : FactTable) :
    ShrinksOrAdds text (.ingestion w) table (insertIngestionFact text w table) := by
  have hprior : Shrinks table (w.supersedePrior text table) := shrinks_supersedePriorFacts ..
  by_cases htime : w.validFrom = none
  · left
    rw [insertIngestionFact_of_noTime htime]
    exact Shrinks.refl table
  · cases hopen : openTriple text w.toTriple none (w.supersedePrior text table) with
    | some found =>
      left
      rw [insertIngestionFact_of_open htime hopen]
      have hrefresh := shrinks_update (openTriple_eq_some hopen).1
        (sameFact_ingestionRefreshSet (w.reassertion text) w.sourceId found.2)
      split
      · exact hprior
      · exact hprior.trans hrefresh
    | none =>
      rw [insertIngestionFact_of_new htime hopen]
      cases (w.insert_effect text (w.supersedePrior text table)).shrinks_or with
      | inl hshrinks => exact .inl (hprior.trans hshrinks)
      | inr hput => exact .inr ⟨_, IngestionWrite.ready hopen, hput.2.1, hput.1, hput.2.2⟩

theorem writeStep_cases {w : Write} (hstep : writeStep text table w = some next) :
    ShrinksOrAdds text w table next := by
  cases w with
  | fact w =>
    rw [← some.inj hstep]
    exact insertFact_cases w table
  | ingestion w =>
    rw [← some.inj hstep]
    exact insertIngestionFact_cases w table

/-- Open rows are of a live class, and two of them never assert the same
triple.  Every write keeps this, whatever the flag. -/
structure OneOpenPerTriple (text : TextFns) (table : FactTable) : Prop where
  live : ∀ key row, table.row? key = some row → row.isOpen = true → row.isLive = true
  unique : ∀ left right leftRow rightRow,
    table.row? left = some leftRow → table.row? right = some rightRow →
    leftRow.isOpen = true → rightRow.isOpen = true →
    sameTriple text leftRow.toTriple rightRow.toTriple = true → left = right

theorem oneOpenPerTriple_empty : OneOpenPerTriple text Table.empty where
  live := fun _ _ hrow => absurd hrow (by simp)
  unique := fun _ _ _ _ hrow => absurd hrow (by simp)

theorem OneOpenPerTriple.shrink (hinv : OneOpenPerTriple text table)
    (hshrinks : Shrinks table next) :
    OneOpenPerTriple text next where
  live := by
    intro key row hrow hopen
    obtain ⟨before, hbefore, hsame⟩ := hshrinks.source hrow hopen
    rw [hsame.isOpen] at hopen
    rw [hsame.isLive]
    exact hinv.live key before hbefore hopen
  unique := by
    intro left right leftRow rightRow hleft hright hleftOpen hrightOpen hsame
    obtain ⟨leftBefore, hleftRow, hleftSame⟩ := hshrinks.source hleft hleftOpen
    obtain ⟨rightBefore, hrightRow, hrightSame⟩ := hshrinks.source hright hrightOpen
    rw [hleftSame.isOpen] at hleftOpen
    rw [hrightSame.isOpen] at hrightOpen
    rw [hleftSame.triple, hrightSame.triple] at hsame
    exact hinv.unique left right leftBefore rightBefore hleftRow hrightRow
      hleftOpen hrightOpen hsame

theorem ReadyFor.differs {w : Write} {ready : FactTable}
    (hready : ReadyFor text w table ready) (hinv : OneOpenPerTriple text table)
    (hrow : ready.row? key = some row) (hkey : key ≠ w.id) (hopen : row.isOpen) :
    sameTriple text row.toTriple (w.newRow text).toTriple = false :=
  hready.noTriple key row hrow hkey ((hinv.shrink hready.shrinks).live key row hrow hopen) hopen

theorem oneOpenPerTriple_step {w : Write} (hinv : OneOpenPerTriple text table)
    (hstep : writeStep text table w = some next) : OneOpenPerTriple text next := by
  cases writeStep_cases hstep with
  | inl hshrinks => exact hinv.shrink hshrinks
  | inr hadds =>
    obtain ⟨ready, hready, hunused, hlive, hnext⟩ := hadds
    subst hnext
    have hold := hinv.shrink hready.shrinks
    exact
      { live := by
          intro key row hrow hopen
          cases row?_put_eq_some.mp hrow with
          | inl hself => rw [hself.2, hlive]
          | inr hother => exact hold.live key row hother.2 hopen
        unique := by
          intro left right leftRow rightRow hleft hright hleftOpen hrightOpen hsame
          cases row?_put_eq_some.mp hleft with
          | inl hleftNew =>
            cases row?_put_eq_some.mp hright with
            | inl hrightNew => rw [hleftNew.1, hrightNew.1]
            | inr hrightOld =>
              rw [hleftNew.2, sameTriple_comm, hready.differs hinv
                hrightOld.2 hrightOld.1 hrightOpen] at hsame
              simp at hsame
          | inr hleftOld =>
            cases row?_put_eq_some.mp hright with
            | inl hrightNew =>
              rw [hrightNew.2, hready.differs hinv hleftOld.2 hleftOld.1 hleftOpen] at hsame
              simp at hsame
            | inr hrightOld =>
              exact hold.unique left right leftRow rightRow hleftOld.2
                hrightOld.2 hleftOpen hrightOpen hsame }

section

variable {contention : Bool} {now : Datetime} {triple : Triple}
  {newId : Uuid} {incoming : Option String} {table : FactTable}

theorem row?_supersede_of_kept {key : Uuid} {row : FactRow} (hrow : table.row? key = some row)
    (hkept : closesPrior text contention triple newId incoming key row = false) :
    (supersedePriorFacts text contention now triple newId incoming table).row? key = some row := by
  rw [row?_supersedePriorFacts, hrow, map_some, hkept]
  simp

theorem openTriple_supersede {exclude : Option Uuid} :
    openTriple text triple exclude
        (supersedePriorFacts text contention now triple newId incoming table) = none ↔
      openTriple text triple exclude table = none := by
  rw [openTriple_eq_none, openTriple_eq_none]
  constructor
  · intro hnone key row hrow
    cases hcloses : closesPrior text contention triple newId incoming key row with
    | false => exact hnone key row (row?_supersede_of_kept hrow hcloses)
    | true =>
      have hvalue := (priorCandidate_eq_true.mp (closesPrior_eq_true.mp hcloses).1).2.1
      rw [eq_false_iff]
      intro hcondition
      have hsame := (openTripleCondition_eq_true.mp hcondition).1
      exact hvalue (sameTriple_eq_true.mp hsame).2
  · intro hnone key row' hrow'
    rw [row?_supersedePriorFacts] at hrow'
    obtain ⟨row, hrow, hset⟩ := map_eq_some_iff.mp hrow'
    by_cases hcloses : closesPrior text contention triple newId incoming key row = true
    · rw [if_pos hcloses] at hset
      rw [eq_false_iff]
      intro hcondition
      have hopen := (openTripleCondition_eq_true.mp hcondition).2.1
      rw [← hset, isOpen_closeRow] at hopen
      simp at hopen
    · rw [if_neg hcloses] at hset
      rw [← hset]
      exact hnone key row hrow

end

section

variable (text : TextFns)

/-- The rows the office statement of the write closes when it points them at
`newId`. -/
def FactWrite.closesOffice (w : FactWrite) (newId key : Uuid) (row : FactRow) : Bool :=
  isAuthoritative text w.effectiveSourceType &&
    Facts.closesOffice text (w.triple text) (field? w.data "role") newId
      (some w.effectiveSourceType) key row

/-- The role of an authoritative `leader of` fact is a text or absent. -/
def FactWrite.RoleAccepted (w : FactWrite) : Prop :=
  isAuthoritative text w.effectiveSourceType = true →
    functionalRoleCountrySide.lookup (w.triple text).predicate = some .value →
    ∀ value, field? w.data "role" = some value → falsy value = true ∨ value.string?.isSome = true

end

theorem isOpen_of_closesOffice (hcloses : w.closesOffice text newId key row) : row.isOpen := by
  have hrole : ∀ side role, closesRole text side (w.triple text) role newId
      (some w.effectiveSourceType) key row = true → row.isOpen = true := by
    intro side role h
    simp only [closesRole, and_eq_true] at h
    exact h.1.1.1.2
  simp only [FactWrite.closesOffice, Facts.closesOffice, and_eq_true] at hcloses
  obtain ⟨_, hoffice⟩ := hcloses
  split at hoffice
  · simp at hoffice
  · exact hrole _ _ hoffice
  · split at hoffice
    · simp at hoffice
    · rw [and_eq_true] at hoffice
      exact hrole _ _ hoffice.2

theorem FactWrite.row?_supersedeRole
    (hnext : w.supersedeRole text newId table = some next) (key : Uuid) :
    next.row? key = (table.row? key).map fun row =>
      if w.closesOffice text newId key row then closeRow newId w.now row
      else row := by
  unfold FactWrite.supersedeRole at hnext
  unfold FactWrite.closesOffice
  split at hnext
  · rename_i hauthority
    simp only [hauthority, Bool.true_and]
    exact row?_supersedeOffice hnext key
  · rename_i hauthority
    rw [← some.inj hnext]
    simp [hauthority]

theorem FactWrite.roleAccepted_iff :
    w.RoleAccepted text ↔ w.supersedeRole text newId table ≠ none := by
  unfold FactWrite.RoleAccepted FactWrite.supersedeRole
  by_cases hauthority : isAuthoritative text w.effectiveSourceType = true
  · simp only [hauthority, if_true, forall_const]
    unfold supersedePriorFunctionalRoleFacts
    cases hside : functionalRoleCountrySide.lookup (w.triple text).predicate with
    | none => simp
    | some side =>
      cases side with
      | subject => simp
      | value =>
        cases hrole : field? w.data "role" with
        | none => simp
        | some value =>
          by_cases hfalsy : falsy value = true
          · simp [hfalsy]
          · simp [hfalsy, isSome_iff_ne_none]
  · simp [hauthority]

variable {table : FactTable}

theorem FactWrite.closesOffice_before (hrow : (w.supersedePrior text table).row? key = some row)
    (hcloses : w.closesOffice text newId key row) : table.row? key = some row := by
  unfold FactWrite.supersedePrior at hrow
  rw [row?_supersedePriorFacts] at hrow
  obtain ⟨before, hbefore, hset⟩ := map_eq_some_iff.mp hrow
  have hopen := isOpen_of_closesOffice hcloses
  split at hset
  · rw [← hset, isOpen_closeRow] at hopen
    simp at hopen
  · rw [← hset]
    exact hbefore

/-- The write inserts a row under its id, if the id is not in use: the triple
has no open row, and no statement is refused. -/
def InsertsOwnRow (text : TextFns) (table : FactTable) : Write → Prop
  | .fact w =>
    openTriple text (w.triple text) (some w.rowId) table = none ∧
      (w.row text).isLive = true ∧ w.RoleAccepted text
  | .ingestion w => openTriple text w.toTriple none table = none ∧ w.validFrom ≠ none

theorem isSome_of_writeStep {w : Write} (hstep : writeStep text table w = some next)
    (hkey : (table.row? key).isSome) : (next.row? key).isSome := by
  cases writeStep_cases hstep with
  | inl hshrinks => rw [hshrinks.keys, hkey]
  | inr hadds =>
    obtain ⟨ready, hready, hunused, _, hnext⟩ := hadds
    subst hnext
    by_cases hself : key = w.id
    · subst hself
      simp
    · rw [row?_put_of_ne _ hself, hready.shrinks.keys, hkey]

theorem insertRow_of_free (hlive : row.isLive)
    (hfree : table.selectFirst (conflicts text row) = none)
    (hunused : (table.row? id).isSome = false) :
    insertRow text id row set table = table.put id row := by
  unfold insertRow
  rw [if_neg (by simp [hlive]), hfree]
  rw [if_neg (by simp [hunused])]

theorem ReadyFor.noConflict {w : Write} {ready : FactTable} (hready : ReadyFor text w table ready)
    (hinv : OneOpenPerTriple text table) (hunused : (table.row? w.id).isSome = false) :
    ready.selectFirst (conflicts text (w.newRow text)) = none := by
  rw [selectFirst_eq_none]
  intro key row hrow
  rw [eq_false_iff]
  intro hconflict
  simp only [conflicts, and_eq_true] at hconflict
  have hkey : key ≠ w.id := by
    intro heq
    rw [← hready.shrinks.keys, ← heq, hrow] at hunused
    simp at hunused
  rw [hready.differs hinv hrow hkey hconflict.1.1.2] at hconflict
  exact absurd hconflict.1.2 (by simp)

theorem FactWrite.row?_of_inserts (hinv : OneOpenPerTriple text table)
    (hunused : (table.row? w.rowId).isSome = false)
    (hinserts : InsertsOwnRow text table (.fact w)) :
    (insertFact text w table).row? w.rowId = some (w.row text) := by
  obtain ⟨hnone, hlive, haccepted⟩ := hinserts
  have hopen : openTriple text (w.triple text) (some w.rowId)
      (w.supersedePrior text table) = none := openTriple_supersede.mpr hnone
  cases hrole : w.supersedeRole text w.rowId (w.supersedePrior text table) with
  | none => exact absurd hrole (FactWrite.roleAccepted_iff.mp haccepted)
  | some closed =>
    rw [insertFact_of_new hopen hrole]
    have hready := (FactWrite.ready hopen).shrink (FactWrite.shrinks_supersedeRole hrole)
    have hunusedClosed : (closed.row? w.rowId).isSome = false := by
      rw [hready.shrinks.keys, hunused]
    rw [insertRow_of_free hlive (hready.noConflict hinv hunused) hunusedClosed]
    exact row?_put_self closed w.rowId (w.row text)

theorem IngestionWrite.row?_of_inserts {w : IngestionWrite} (hinv : OneOpenPerTriple text table)
    (hunused : (table.row? w.factId).isSome = false)
    (hinserts : InsertsOwnRow text table (.ingestion w)) :
    (insertIngestionFact text w table).row? w.factId = some (w.row text) := by
  obtain ⟨hnone, htime⟩ := hinserts
  have hopen : openTriple text w.toTriple none
      (w.supersedePrior text table) = none := openTriple_supersede.mpr hnone
  have hready := IngestionWrite.ready hopen
  have hunusedPrior : ((w.supersedePrior text table).row? w.factId).isSome = false := by
    rw [hready.shrinks.keys, hunused]
  have hfree : (w.supersedePrior text table).selectFirst
      (conflicts text (w.row text)) = none := hready.noConflict hinv hunused
  rw [insertIngestionFact_of_new htime hopen, insertRow_of_free rfl hfree hunusedPrior]
  exact row?_put_self _ w.factId (w.row text)

end Legba.Facts
