import Legba.FactWriteEffects

/-!
# One current belief per tier

With the contention flag off a write closes the open rows of its subject and
predicate which assert another value, unless they are of a higher tier.  So
two open rows of one subject and predicate are never of one tier.
-/

namespace Legba.Facts

open KeyedTable LabelledRun Table

variable {text : TextFns}

def DeclaredOff (w : Write) : Prop :=
  w.contention = false ∧ w.incoming ∈ declaredSourceTypes

def OnePerTier (text : TextFns) (table : FactTable) : Prop :=
  ∀ left right leftRow rightRow,
    table.row? left = some leftRow → table.row? right = some rightRow →
    leftRow.isOpen = true → rightRow.isOpen = true →
    samePair text leftRow.toTriple rightRow.toTriple = true →
    sqlTierRank text leftRow.sourceType = sqlTierRank text rightRow.sourceType → left = right

def OnePerTriple (text : TextFns) (table : FactTable) : Prop :=
  ∀ left right leftRow rightRow,
    table.row? left = some leftRow → table.row? right = some rightRow →
    leftRow.isOpen = true → rightRow.isOpen = true →
    sameTriple text leftRow.toTriple rightRow.toTriple = true → left = right

theorem onePerTier_shrink {table next : FactTable} (hinv : OnePerTier text table)
    (hshrinks : Shrinks table next) : OnePerTier text next := by
  intro left right leftRow rightRow hleft hright hleftOpen hrightOpen hpair htier
  obtain ⟨leftBefore, hleftRow, hleftSame⟩ := hshrinks.source hleft hleftOpen
  obtain ⟨rightBefore, hrightRow, hrightSame⟩ := hshrinks.source hright hrightOpen
  rw [hleftSame.isOpen] at hleftOpen
  rw [hrightSame.isOpen] at hrightOpen
  rw [hleftSame.triple, hrightSame.triple] at hpair
  rw [hleftSame.sourceType, hrightSame.sourceType] at htier
  exact hinv left right leftBefore rightBefore hleftRow hrightRow hleftOpen hrightOpen hpair htier

theorem ReadyFor.outranks {w : Write} {table ready : FactTable}
    (hready : ReadyFor text w table ready) (hinv : OneOpenPerTriple text table)
    (hoff : w.contention = false) {key : Uuid} {row : FactRow}
    (hrow : ready.row? key = some row) (hkey : key ≠ w.id) (hopen : row.isOpen)
    (hpair : samePair text row.toTriple (w.newRow text).toTriple) :
    sourceTierRank text w.incoming < sqlTierRank text row.sourceType := by
  have hdiffers := hready.differs hinv hrow hkey hopen
  have hvalue : text.lower row.value ≠ text.lower (w.newRow text).value := by
    intro heq
    rw [sameTriple_eq_true.mpr ⟨hpair, heq⟩] at hdiffers
    simp at hdiffers
  have hlive := (hinv.shrink hready.shrinks).live key row hrow hopen
  have hcandidate := priorCandidate_eq_true.mpr ⟨hpair, hvalue, hopen, hlive, hkey⟩
  have hkept := hready.noPrior key row hrow hopen
  by_contra hrank
  have hcloses : w.closes text key row := by
    unfold Write.closes
    rw [hoff]
    apply closesPrior_eq_true.mpr
    exact ⟨hcandidate, by simpa [guardAllows, incomingRank] using hrank⟩
  rw [hcloses] at hkept
  simp at hkept

theorem incoming_eq_sourceType (w : Write) : (w.newRow text).sourceType = w.incoming := by
  cases w with
  | fact w => rfl
  | ingestion w => rfl

theorem onePerTier_step (hfixes : FixesSourceTypes text) {table next : FactTable} {w : Write}
    (htriple : OneOpenPerTriple text table) (hinv : OnePerTier text table)
    (hstep : writeStep text table w = some next) (hoff : DeclaredOff w) : OnePerTier text next := by
  cases writeStep_cases hstep with
  | inl hshrinks => exact onePerTier_shrink hinv hshrinks
  | inr hadds =>
    obtain ⟨ready, hready, hunused, hlive, hnext⟩ := hadds
    subst hnext
    have hold := onePerTier_shrink hinv hready.shrinks
    have hnew : sqlTierRank text (w.newRow text).sourceType = sourceTierRank text w.incoming := by
      rw [incoming_eq_sourceType]
      exact hfixes.rank_eq hoff.2
    intro left right leftRow rightRow hleft hright hleftOpen hrightOpen hpair htier
    cases row?_put_eq_some.mp hleft with
    | inl hleftNew =>
      cases row?_put_eq_some.mp hright with
      | inl hrightNew => rw [hleftNew.1, hrightNew.1]
      | inr hrightOld =>
        rw [hleftNew.2, samePair_comm] at hpair
        rw [hleftNew.2, hnew] at htier
        have hrank := hready.outranks htriple hoff.1 hrightOld.2 hrightOld.1 hrightOpen hpair
        omega
    | inr hleftOld =>
      cases row?_put_eq_some.mp hright with
      | inl hrightNew =>
        rw [hrightNew.2] at hpair
        rw [hrightNew.2, hnew] at htier
        have hrank := hready.outranks htriple hoff.1 hleftOld.2 hleftOld.1 hleftOpen hpair
        omega
      | inr hrightOld =>
        exact hold left right leftRow rightRow hleftOld.2 hrightOld.2
          hleftOpen hrightOpen hpair htier

/-- With the flag off, at every point of every sequence of writes of declared
source types from an empty table there is at most one open row per subject,
predicate and tier, and at most one per triple. -/
theorem oneCurrentBelief (hfixes : FixesSourceTypes text)
    {writes : List Write} (hoff : ∀ w ∈ writes, DeclaredOff w) :
    VisitsOnly (writeStep text)
      (fun table => OnePerTier text table ∧ OnePerTriple text table)
      empty writes := by
  have hkeep : ∀ table w next,
      OneOpenPerTriple text table ∧ OnePerTier text table →
      writeStep text table w = some next → DeclaredOff w →
      OneOpenPerTriple text next ∧ OnePerTier text next := by
    intro table w next hinv hstep hw
    exact ⟨oneOpenPerTriple_step hinv.1 hstep, onePerTier_step hfixes hinv.1 hinv.2 hstep hw⟩
  have hempty : OnePerTier text empty := fun _ _ _ _ hrow => absurd hrow (by simp)
  exact visitsOnly_of_goodSteps
    (fun table hinv => ⟨hinv.2, hinv.1.unique⟩) hkeep
    ⟨oneOpenPerTriple_empty, hempty⟩
    (stepsSatisfy_of_labels hoff empty)

theorem oneCurrentBelief_threeWrites :
    VisitsOnly (writeStep lowerCaseText)
      (fun table => OnePerTier lowerCaseText table ∧ OnePerTriple lowerCaseText table) empty
      [.fact (capitalWrite 1 "a" "seed" 1), .fact (capitalWrite 2 "b" "agent" 2),
        .fact (capitalWrite 3 "c" "agent" 3)] := by
  apply oneCurrentBelief fixesSourceTypes_lowerCaseText
  intro w hw
  simp only [List.mem_cons, List.not_mem_nil, or_false] at hw
  rcases hw with rfl | rfl | rfl
  · exact ⟨rfl, by decide⟩
  · exact ⟨rfl, by decide⟩
  · exact ⟨rfl, by decide⟩

/-! ## Rows are never deleted or reopened -/

/-- Every row is still there under its id, and is open only if it was open
before and asserts the same fact. -/
def KeepsRows (table next : FactTable) : Prop :=
  ∀ key row, table.row? key = some row →
    ∃ row', next.row? key = some row' ∧ (row'.isOpen = true → SameFact row row')

theorem Shrinks.keepsRows {table next : FactTable} (h : Shrinks table next) :
    KeepsRows table next := by
  intro key row hrow
  have hkey := h.keys key
  rw [hrow, Option.isSome_some] at hkey
  obtain ⟨row', hrow'⟩ := Option.isSome_iff_exists.mp hkey
  exact ⟨row', hrow', h.old key row hrow row' hrow'⟩

theorem keepsRows_step {table next : FactTable} {w : Write}
    (hstep : writeStep text table w = some next) : KeepsRows table next := by
  cases writeStep_cases hstep with
  | inl hshrinks => exact hshrinks.keepsRows
  | inr hadds =>
    obtain ⟨ready, hready, hunused, _, rfl⟩ := hadds
    intro key row hrow
    obtain ⟨row', hrow', hsame⟩ := hready.shrinks.keepsRows key row hrow
    have hkey : key ≠ w.id := by
      rintro rfl
      rw [hunused] at hrow'
      simp at hrow'
    exact ⟨row', by rw [row?_put_of_ne _ hkey, hrow'], hsame⟩

theorem KeepsRows.trans {table middle next : FactTable} (hfirst : KeepsRows table middle)
    (hsecond : KeepsRows middle next) : KeepsRows table next := by
  intro key row hrow
  obtain ⟨between, hbetween, hold⟩ := hfirst key row hrow
  obtain ⟨row', hrow', hsame⟩ := hsecond key between hbetween
  refine ⟨row', hrow', fun hopen => ?_⟩
  have hsame := hsame hopen
  rw [hsame.isOpen] at hopen
  exact (hold hopen).trans hsame

/-- Whatever is written and whatever the flag, every state reached from the
empty table has at most one open row per triple, and no later write deletes a
row, reopens a closed one or changes the fact an open one asserts. -/
theorem facts_ledger_durable (text : TextFns) (writes : List Write) :
    VisitsOnly (writeStep text) (fun table => OnePerTriple text table ∧
        ∀ later, VisitsOnly (writeStep text) (KeepsRows table) table later)
      empty writes := by
  refine visitsOnly_of_steps (?_ : ∀ table, OneOpenPerTriple text table → _) ?_ ?_ _
  · refine fun table hinv => ⟨hinv.unique, visitsOnly_of_steps (fun _ => id) ?_ ?_⟩
    · exact fun _ _ _ hkeeps hstep => hkeeps.trans (keepsRows_step hstep)
    · exact (Shrinks.refl table).keepsRows
  · exact fun _ _ _ hinv hstep => oneOpenPerTriple_step hinv hstep
  · exact oneOpenPerTriple_empty

end Legba.Facts
