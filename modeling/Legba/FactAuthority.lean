import Legba.FactWriteEffects

/-!
# Facts of authority

An open row of a seed or curated source is closed by no write of an analyst or
of the ingest stage.  A value asserted by a seed or curated write is therefore
kept, as long as no such write contradicts it, if the assertion leaves an open
row of that authority.  It does not where the value already stands in an open
row of a lower tier: the row is refreshed and keeps its tier.
-/

namespace Legba.Facts

open JsonValue KeyedTable LabelledRun RowOrder Bool Table

def authoritativeTypes : List String := ["seed", "curated"]

def FactWrite.office (w : FactWrite) : String :=
  ((field? w.data "role").bind Json.asText).getD ""

section

variable (text : TextFns)

def HeldOpen (asserted : Triple) (table : FactTable) : Prop :=
  ∃ key row, table.row? key = some row ∧ row.isOpen = true ∧
    sameTriple text row.toTriple asserted = true

/-- An open row of a seed or curated source asserts the triple.  A `leader of`
row names the office asserted, or none. -/
structure AuthoritativeRow (asserted : Triple) (office : String) (row : FactRow) : Prop where
  isOpen : row.isOpen = true
  triple : sameTriple text row.toTriple asserted = true
  sourceType : row.sourceType ∈ authoritativeTypes
  office : text.lower row.predicate = "leader of" →
    row.role = "" ∨ text.lower row.role = text.lower office

def HeldByAuthority (asserted : Triple) (office : String) (table : FactTable) : Prop :=
  ∃ key row, table.row? key = some row ∧ AuthoritativeRow text asserted office row

/-- The assertion leaves an open row of its authority: there is one already, or
the write inserts an open row. -/
def AssertsOpen (table : FactTable) (w : FactWrite) : Prop :=
  HeldByAuthority text (w.triple text) w.office table ∨
    (table.row? w.rowId).isSome = false ∧ w.validUntil = none ∧ InsertsOwnRow text table (.fact w)

def OtherValue (asserted : Triple) (w : FactWrite) : Prop :=
  samePair text (w.triple text) asserted = true ∧ text.lower w.value ≠ text.lower asserted.value

def OtherHolder (asserted : Triple) (office : String) (w : FactWrite) : Prop :=
  text.lower asserted.predicate = (w.triple text).predicate ∧
    match functionalRoleCountrySide.lookup (w.triple text).predicate with
    | none => False
    | some .subject =>
      text.lower w.subject = text.lower asserted.subject ∧
        text.lower w.value ≠ text.lower asserted.value
    | some .value =>
      text.lower w.value = text.lower asserted.value ∧
        text.lower w.subject ≠ text.lower asserted.subject ∧
        ∃ role, field? w.data "role" = some (.string role) ∧ text.lower role = text.lower office

def Contradicts (asserted : Triple) (office : String) : Write → Prop
  | .ingestion _ => False
  | .fact w =>
    w.effectiveSourceType ∈ authoritativeTypes ∧
      (OtherValue text asserted w ∨ OtherHolder text asserted office w)

end

variable {text : TextFns}

def Keeps (key : Uuid) (row : FactRow) (next : FactTable) : Prop :=
  ∃ row', next.row? key = some row' ∧ SameFact row row'

variable {key : Uuid} {row : FactRow} {next table : FactTable} {w : FactWrite}
  {name : String}

theorem keeps_of_row? (hrow : next.row? key = some row) : Keeps key row next :=
  ⟨row, hrow, SameFact.refl row⟩

theorem keeps_update {other : Uuid} {found : FactRow} {set : FactRow → FactRow}
    (hrow : table.row? key = some row) (hfound : table.row? other = some found)
    (hsame : SameFact found (set found)) : Keeps key row (table.update other set) := by
  by_cases hkey : key = other
  · subst hkey
    rw [hrow, Option.some.injEq] at hfound
    subst hfound
    exact ⟨set row, by simp [hrow], hsame⟩
  · exact keeps_of_row? (by rw [row?_update_of_ne _ hkey, hrow])

theorem InsertEffect.keeps {id : Uuid} {new : FactRow}
    (heffect : InsertEffect text id new table next)
    (hrow : table.row? key = some row) : Keeps key row next := by
  cases heffect with
  | kept => exact keeps_of_row? hrow
  | refreshed hfound hsame => exact keeps_update hrow hfound hsame
  | added _ hunused =>
    have hkey : key ≠ id := by
      intro heq
      rw [heq, hunused] at hrow
      simp at hrow
    exact keeps_of_row? (by rw [row?_put_of_ne _ hkey, hrow])

theorem FactWrite.keeps_supersedeRole {newId : Uuid}
    (hnext : w.supersedeRole text newId table = some next) (hrow : Keeps key row table)
    (hoffice : w.closesOffice text newId key row = false) : Keeps key row next := by
  obtain ⟨row', hrow', hsame⟩ := hrow
  have hkept : w.closesOffice text newId key row' = false := by
    unfold FactWrite.closesOffice at hoffice ⊢
    rw [hsame.closesOffice_eq]
    exact hoffice
  exact ⟨row', by simp [FactWrite.row?_supersedeRole hnext, hrow', hkept], hsame⟩

theorem insertFact_keeps (hrow : table.row? key = some row)
    (hprior : (Write.fact w).closes text key row = false)
    (hoffice : ∀ newId, w.closesOffice text newId key row = false) :
    Keeps key row (insertFact text w table) := by
  have hsuperseded : (w.supersedePrior text table).row? key = some row :=
    row?_supersede_of_kept hrow hprior
  cases hopen : openTriple text (w.triple text) (some w.rowId) (w.supersedePrior text table) with
  | some found =>
    rw [insertFact_of_open hopen]
    have hrefresh := keeps_update hsuperseded (openTriple_eq_some hopen).1
      (sameFact_collapseSet (w.reassertion text) found.2)
    cases hrole : w.supersedeRole text found.1
        ((w.supersedePrior text table).update found.1
          (collapseSet (w.reassertion text))) with
    | none => exact hrefresh
    | some closed => exact FactWrite.keeps_supersedeRole hrole hrefresh (hoffice _)
  | none =>
    cases hrole : w.supersedeRole text w.rowId (w.supersedePrior text table) with
    | none =>
      rw [insertFact_of_refused hopen hrole]
      exact keeps_of_row? hsuperseded
    | some closed =>
      rw [insertFact_of_new hopen hrole]
      obtain ⟨row', hrow', hsame⟩ := FactWrite.keeps_supersedeRole hrole
        (keeps_of_row? hsuperseded) (hoffice _)
      obtain ⟨last, hlast, hsameLast⟩ := (w.insert_effect text closed).keeps hrow'
      exact ⟨last, hlast, hsame.trans hsameLast⟩

theorem insertIngestionFact_keeps {w : IngestionWrite} (hrow : table.row? key = some row)
    (hprior : (Write.ingestion w).closes text key row = false) :
    Keeps key row (insertIngestionFact text w table) := by
  have hsuperseded : (w.supersedePrior text table).row? key = some row :=
    row?_supersede_of_kept hrow hprior
  by_cases htime : w.validFrom = none
  · rw [insertIngestionFact_of_noTime htime]
    exact keeps_of_row? hrow
  · cases hopen : openTriple text w.toTriple none (w.supersedePrior text table) with
    | some found =>
      rw [insertIngestionFact_of_open htime hopen]
      split
      · exact keeps_of_row? hsuperseded
      · exact keeps_update hsuperseded (openTriple_eq_some hopen).1
          (sameFact_ingestionRefreshSet (w.reassertion text) w.sourceId found.2)
    | none =>
      rw [insertIngestionFact_of_new htime hopen]
      exact (w.insert_effect text (w.supersedePrior text table)).keeps hsuperseded

theorem mem_declared_of_authoritative (hname : name ∈ authoritativeTypes) :
    name ∈ declaredSourceTypes := by
  have hsub : ∀ name ∈ authoritativeTypes, name ∈ declaredSourceTypes := by decide
  exact hsub name hname

section

variable (hfixes : FixesSourceTypes text)

include hfixes

theorem FixesSourceTypes.rank_authoritative (hname : name ∈ authoritativeTypes) :
    sourceTierRank text name = 2 := by
  have hdeclared := mem_declared_of_authoritative hname
  have hrank : ∀ name ∈ authoritativeTypes,
      name ≠ "" ∧ (sourceTierTable.lookup name).getD 1 = 2 := by decide
  unfold sourceTierRank
  rw [if_neg (hrank name hname).1, hfixes.strip name hdeclared, hfixes.lowercase name hdeclared]
  exact (hrank name hname).2

theorem FixesSourceTypes.rank_machine (hdeclared : name ∈ declaredSourceTypes)
    (hname : name ∉ authoritativeTypes) : sourceTierRank text name = 1 := by
  have hrank : ∀ name ∈ declaredSourceTypes, name ∉ authoritativeTypes →
      name ≠ "" ∧ (sourceTierTable.lookup name).getD 1 = 1 := by decide
  unfold sourceTierRank
  rw [if_neg (hrank name hdeclared hname).1, hfixes.strip name hdeclared,
    hfixes.lowercase name hdeclared]
  exact (hrank name hdeclared hname).2

theorem FixesSourceTypes.isAuthoritative_iff (hdeclared : name ∈ declaredSourceTypes) :
    isAuthoritative text name = true ↔ name ∈ authoritativeTypes := by
  unfold isAuthoritative
  rw [hfixes.lowercase name hdeclared, decide_eq_true_eq]
  rfl

theorem closes_of_machine {w : Write} (hdeclared : w.incoming ∈ declaredSourceTypes)
    (hmachine : w.incoming ∉ authoritativeTypes) (hrow : row.sourceType ∈ authoritativeTypes) :
    w.closes text key row = false := by
  have hrank := hfixes.rank_machine hdeclared hmachine
  have hrowRank := hfixes.rank_authoritative hrow
  have hsql : sqlTierRank text row.sourceType = 2 := by
    rw [hfixes.rank_eq (mem_declared_of_authoritative hrow), hrowRank]
  rw [eq_false_iff]
  intro hcloses
  have hguard := (closesPrior_eq_true.mp hcloses).2
  split at hguard
  · simp [coexistCloses, incomingRank, hrank, hrowRank] at hguard
  · simp [guardAllows, incomingRank, hrank, hsql] at hguard

end

/-! ## What closes a row of authority -/

variable {asserted : Triple} {office : String} {key : Uuid} {row : FactRow}

theorem otherValue_of_closes (htriple : sameTriple text row.toTriple asserted)
    (hcloses : (Write.fact w).closes text key row) : OtherValue text asserted w := by
  have hcandidate := priorCandidate_eq_true.mp (closesPrior_eq_true.mp hcloses).1
  obtain ⟨hpair, hvalue⟩ := sameTriple_eq_true.mp htriple
  have hrowPair := samePair_eq_true.mp hcandidate.1
  rw [samePair_eq_true] at hpair
  have hother : text.lower w.value ≠ text.lower asserted.value := by
    intro heq
    exact hcandidate.2.1 (hvalue.trans heq.symm)
  exact ⟨samePair_eq_true.mpr ⟨hrowPair.1.symm.trans hpair.1,
    hrowPair.2.symm.trans hpair.2⟩, hother⟩

theorem eq_leaderOf_of_lookup (hside : functionalRoleCountrySide.lookup name = some .value) :
    name = "leader of" := by
  simp only [functionalRoleCountrySide, List.lookup_cons, List.lookup_nil] at hside
  split at hside
  · rename_i heq
    exact beq_iff_eq.mp heq
  · split at hside
    · exact absurd hside (by decide)
    · split at hside
      · exact absurd hside (by decide)
      · simp at hside

theorem otherHolder_of_closesOffice (hempty : ∀ s, text.lower s = text.lower "" → s = "")
    {newId : Uuid} (hrow : AuthoritativeRow text asserted office row)
    (hcloses : w.closesOffice text newId key row) : OtherHolder text asserted office w := by
  obtain ⟨hpair, hvalue⟩ := sameTriple_eq_true.mp hrow.triple
  obtain ⟨hsubject, hpredicate⟩ := samePair_eq_true.mp hpair
  simp only [FactWrite.closesOffice, Facts.closesOffice, and_eq_true] at hcloses
  obtain ⟨_, hoffice⟩ := hcloses
  unfold OtherHolder
  cases hside : functionalRoleCountrySide.lookup (w.triple text).predicate with
  | none =>
    rw [hside] at hoffice
    simp at hoffice
  | some side =>
    cases side with
    | subject =>
      simp only [hside, closesRole, and_eq_true, decide_eq_true_eq] at hoffice
      obtain ⟨⟨⟨⟨⟨hname, hperson⟩, _⟩, _⟩, _⟩, _⟩ := hoffice
      exact ⟨hpredicate.symm.trans hname, hperson.1.symm.trans hsubject,
        fun heq => hperson.2 (hvalue.trans heq.symm)⟩
    | value =>
      have hleader := eq_leaderOf_of_lookup hside
      cases hvalueRole : field? w.data "role" with
      | none =>
        rw [hside, hvalueRole] at hoffice
        simp at hoffice
      | some value =>
        cases hrole : value.string? with
        | none => simp [hside, hvalueRole, hrole] at hoffice
        | some role =>
          have hstring := Json.string?_eq_some.mp hrole
          simp only [hside, hvalueRole, hrole, closesRole, Option.bind_some,
            and_eq_true, decide_eq_true_eq] at hoffice
          obtain ⟨hne, ⟨⟨⟨⟨hname, hperson⟩, _⟩, _⟩, _⟩, _⟩ := hoffice
          have hrowRole : text.lower row.role = text.lower office := by
            cases hrow.office (hname.trans hleader) with
            | inl hnone =>
              rw [hnone] at hperson
              exact absurd (hempty role hperson.2.symm) hne
            | inr hsame => exact hsame
          exact ⟨hpredicate.symm.trans hname, hperson.1.1.symm.trans hvalue, fun heq => hperson.1.2
            (hsubject.trans heq.symm), role, by rw [hstring], hperson.2.symm.trans hrowRole⟩

theorem AuthoritativeRow.sameFact {row' : FactRow}
    (hrow : AuthoritativeRow text asserted office row)
    (hsame : SameFact row row') : AuthoritativeRow text asserted office row'
    where
  isOpen := by rw [hsame.isOpen, hrow.isOpen]
  triple := by rw [hsame.triple, hrow.triple]
  sourceType := by rw [hsame.sourceType]; exact hrow.sourceType
  office := by
    intro hname
    have hpredicate : row'.predicate = row.predicate := congrArg Triple.predicate hsame.triple
    rw [hpredicate] at hname
    rw [hsame.role]
    exact hrow.office hname

theorem heldByAuthority_of_keeps (hrow : AuthoritativeRow text asserted office row)
    (hkeeps : Keeps key row next) : HeldByAuthority text asserted office next := by
  obtain ⟨row', hrow', hsame⟩ := hkeeps
  exact ⟨key, row', hrow', hrow.sameFact hsame⟩

theorem closesOffice_of_machine (hfixes : FixesSourceTypes text)
    (hdeclared : w.effectiveSourceType ∈ declaredSourceTypes)
    (hmachine : w.effectiveSourceType ∉ authoritativeTypes) (newId : Uuid) :
    w.closesOffice text newId key row = false := by
  have hauthority : isAuthoritative text w.effectiveSourceType = false := by
    rw [eq_false_iff]
    exact mt (hfixes.isAuthoritative_iff hdeclared).mp hmachine
  simp [FactWrite.closesOffice, hauthority]

theorem heldByAuthority_step (hfixes : FixesSourceTypes text)
    (hempty : ∀ s, text.lower s = text.lower "" → s = "") {w : Write}
    (hheld : HeldByAuthority text asserted office table)
    (hstep : writeStep text table w = some next) (hdeclared : w.incoming ∈ declaredSourceTypes)
    (hagrees : ¬Contradicts text asserted office w) :
    HeldByAuthority text asserted office next := by
  obtain ⟨key, row, hrow, hauthority⟩ := hheld
  apply heldByAuthority_of_keeps hauthority
  cases w with
  | ingestion w =>
    rw [← Option.some.inj hstep]
    have hmachine : "ingestion" ∉ authoritativeTypes := by decide
    exact insertIngestionFact_keeps hrow
      (closes_of_machine hfixes hdeclared hmachine hauthority.sourceType)
  | fact w =>
    rw [← Option.some.inj hstep]
    by_cases hseed : w.effectiveSourceType ∈ authoritativeTypes
    · apply insertFact_keeps hrow
      · rw [eq_false_iff]
        intro hcloses
        exact hagrees ⟨hseed, .inl (otherValue_of_closes hauthority.triple hcloses)⟩
      · intro newId
        rw [eq_false_iff]
        intro hcloses
        exact hagrees ⟨hseed, .inr (otherHolder_of_closesOffice hempty hauthority hcloses)⟩
    · apply insertFact_keeps hrow
      · exact closes_of_machine hfixes hdeclared hseed hauthority.sourceType
      · exact closesOffice_of_machine hfixes hdeclared hseed

theorem not_contradicts_self (w : FactWrite) :
    ¬Contradicts text (w.triple text) office (.fact w) := by
  intro hcontradicts
  cases hcontradicts.2 with
  | inl hvalue => exact hvalue.2 rfl
  | inr hholder =>
    obtain ⟨_, hperson⟩ := hholder
    split at hperson
    · exact hperson
    · exact hperson.2 rfl
    · exact hperson.2.1 rfl

theorem heldByAuthority_assertion (hfixes : FixesSourceTypes text)
    (hempty : ∀ s, text.lower s = text.lower "" → s = "") (hinv : OneOpenPerTriple text table)
    (hseed : w.effectiveSourceType ∈ authoritativeTypes) (hasserts : AssertsOpen text table w) :
    HeldByAuthority text (w.triple text) w.office (insertFact text w table) := by
  cases hasserts with
  | inl hheld =>
    have hstep : writeStep text table (.fact w) = some (insertFact text w table) := rfl
    exact heldByAuthority_step hfixes hempty hheld hstep
      (mem_declared_of_authoritative hseed) (not_contradicts_self w)
  | inr hinserts =>
    obtain ⟨hunused, huntil, hinserts⟩ := hinserts
    have hrow := FactWrite.row?_of_inserts hinv hunused hinserts
    have hopen : (w.row text).isOpen := by simp [FactRow.isOpen, FactWrite.row, huntil]
    exact ⟨w.rowId, w.row text, hrow,
      { isOpen := hopen
        triple := by simp [sameTriple, samePair, FactWrite.row]
        sourceType := hseed
        office := fun _ => .inr rfl }⟩

theorem HeldByAuthority.heldOpen (hheld : HeldByAuthority text asserted office table) :
    HeldOpen text asserted table := by
  obtain ⟨key, row, hrow, hauthority⟩ := hheld
  exact ⟨key, row, hrow, hauthority.isOpen, hauthority.triple⟩

/-- In every run, after a seed or curated write which leaves an open row of its
authority an open row carries its value in every state, as long as no seed or
curated write contradicts it. -/
theorem authority_kept (hfixes : FixesSourceTypes text)
    (hempty : ∀ s, text.lower s = text.lower "" → s = "") {before later : List Write}
    {table : FactTable} {w : FactWrite}
    (hbefore : run (writeStep text) empty before = some table)
    (hseed : w.effectiveSourceType ∈ authoritativeTypes) (hasserts : AssertsOpen text table w)
    (hdeclared : ∀ write ∈ later, write.incoming ∈ declaredSourceTypes)
    (hagrees : ∀ write ∈ later, ¬Contradicts text (w.triple text) w.office write) :
    VisitsOnly (writeStep text) (HeldOpen text (w.triple text))
      (insertFact text w table) later := by
  have hinv : OneOpenPerTriple text table :=
    invariant_of_steps (fun _ _ _ hinv hstep =>
      oneOpenPerTriple_step hinv hstep) oneOpenPerTriple_empty hbefore
  have hkeep : ∀ table write next,
      HeldByAuthority text (w.triple text) w.office table →
      writeStep text table write = some next →
      write.incoming ∈ declaredSourceTypes ∧ ¬Contradicts text (w.triple text) w.office write →
      HeldByAuthority text (w.triple text) w.office next := by
    intro table write next hheld hstep hgood
    exact heldByAuthority_step hfixes hempty hheld hstep hgood.1 hgood.2
  exact visitsOnly_of_goodSteps (fun _ hheld => hheld.heldOpen) hkeep
    (heldByAuthority_assertion hfixes hempty hinv hseed hasserts)
    (stepsSatisfy_of_labels
      (fun write hwrite => ⟨hdeclared write hwrite, hagrees write hwrite⟩) _)

theorem authority_kept_capital :
    VisitsOnly (writeStep lowerCaseText)
      (HeldOpen lowerCaseText ((capitalWrite 1 "a" "seed" 1).triple lowerCaseText))
      (insertFact lowerCaseText (capitalWrite 1 "a" "seed" 1) empty)
      [.fact (capitalWrite 2 "b" "agent" 2)] := by
  have hasserts : AssertsOpen lowerCaseText empty (capitalWrite 1 "a" "seed" 1) := by
    refine .inr ⟨rfl, rfl, rfl, rfl, ?_⟩
    intro _ hside
    exact absurd hside (by decide)
  have hseed : (capitalWrite 1 "a" "seed" 1).effectiveSourceType ∈
      authoritativeTypes := by decide
  apply authority_kept fixesSourceTypes_lowerCaseText (fun _ h => h) (run_nil _) hseed hasserts
  · intro write hwrite
    rw [List.mem_singleton] at hwrite
    subst hwrite
    decide
  · intro write hwrite hcontradicts
    rw [List.mem_singleton] at hwrite
    subst hwrite
    exact absurd hcontradicts.1 (by decide)

/-- An analyst's value is asserted by a seed write, which refreshes the open
row, and then changed by an analyst: no open row carries it. -/
theorem authority_lost_after_refresh :
    ∃ final,
      run (writeStep lowerCaseText) empty
          [.fact (capitalWrite 1 "a" "agent" 1),
            .fact (capitalWrite 2 "a" "seed" 2),
            .fact (capitalWrite 3 "b" "agent" 3)] = some final ∧
        ¬HeldOpen lowerCaseText ((capitalWrite 2 "a" "seed" 2).triple lowerCaseText) final := by
  refine ⟨_, rfl, ?_⟩
  intro hheld
  obtain ⟨key, row, hrow, hopen, hsame⟩ := hheld
  have hnone : ∀ final : FactTable,
      final.selectMatching (fun _ row => row.isOpen &&
        sameTriple lowerCaseText row.toTriple
          ((capitalWrite 2 "a" "seed" 2).triple lowerCaseText)) = [] →
      final.row? key ≠ some row := by
    intro final hselect hfinal
    have hmiss := selectMatching_eq_nil.mp hselect key row hfinal
    rw [hopen, hsame] at hmiss
    simp at hmiss
  exact hnone _ rfl hrow

end Legba.Facts
