import Legba.FactTable

/-!
# The contention flag and the plain supersession

With the flag on, a prior row of the incoming tier whose value falls in another
cluster stays open beside the new one.  The two paths rank a source type on
their own, one in a `CASE` of the statement and one in a table of the code, and
only the code strips blanks.
-/

namespace Legba.Facts

open KeyedTable Option

section

variable (text : TextFns)

/-- The open rows which `supersede_prior_facts` closes. -/
def closedRows (contention : Bool) (now : Datetime) (triple : Triple)
    (newId : Uuid) (incoming : Option String) (table : FactTable) :
    Set Uuid :=
  {key | ∃ row after, table.row? key = some row ∧ row.isOpen = true ∧
    (supersedePriorFacts text contention now triple newId incoming
      table).row? key = some after ∧ after.isOpen = false}

def contested (triple : Triple) (incoming : Option String) (table : FactTable) : Set Uuid :=
  {key | ∃ row, table.row? key = some row ∧
    incomingRank text incoming = some (sourceTierRank text row.sourceType) ∧
    text.apart triple.value row.value = true}

structure RefinesPlain (now : Datetime) (triple : Triple) (newId : Uuid)
    (incoming : Option String) (table : FactTable) : Prop where
  spared : closedRows text true now triple newId incoming table =
    closedRows text false now triple newId incoming table \ contested text triple incoming table
  undeclared : incoming = none →
    closedRows text true now triple newId incoming table =
      closedRows text false now triple newId incoming table

def RanksAgree (triple : Triple) (incoming : Option String) (row : FactRow) :
    Prop :=
  ∀ rank, incomingRank text incoming = some rank →
    (sqlTierRank text row.sourceType ≤ rank ↔ sourceTierRank text row.sourceType ≤ rank) ∨
    (sourceTierRank text row.sourceType = rank ∧ text.apart triple.value row.value = true)

end

variable {text : TextFns} {now : Datetime} {triple : Triple} {newId : Uuid}
  {incoming : Option String} {table : FactTable}

variable {key : Uuid} {row : FactRow}

theorem mem_closedRows {contention : Bool} :
    key ∈ closedRows text contention now triple newId incoming table ↔
      ∃ row, table.row? key = some row ∧
        closesPrior text contention triple newId incoming key row = true := by
  constructor
  · rintro ⟨row, after, hrow, hopen, hafter, hclosed⟩
    refine ⟨row, hrow, ?_⟩
    by_contra hkept
    rw [row?_supersedePriorFacts, hrow, map_some, if_neg hkept, some.injEq] at hafter
    rw [← hafter, hopen] at hclosed
    exact Bool.false_ne_true hclosed.symm
  · rintro ⟨row, hrow, hcloses⟩
    have hopen := (priorCandidate_eq_true.mp (closesPrior_eq_true.mp hcloses).1).2.2.1
    refine ⟨row, closeRow newId now row, hrow, hopen, ?_, rfl⟩
    rw [row?_supersedePriorFacts, hrow, map_some, if_pos hcloses]

theorem mem_contested (hrow : table.row? key = some row) :
    key ∈ contested text triple incoming table ↔
      incomingRank text incoming = some (sourceTierRank text row.sourceType) ∧
        text.apart triple.value row.value = true := by
  constructor
  · rintro ⟨found, hfound, hcontested⟩
    obtain rfl : row = found := some.inj (hrow.symm.trans hfound)
    exact hcontested
  · exact fun hcontested => ⟨row, hrow, hcontested⟩

theorem coexistCloses_of_rank {rank : ℕ} (hrank : incomingRank text incoming = some rank) :
    coexistCloses text triple.value incoming row = true ↔
      sourceTierRank text row.sourceType ≤ rank ∧
        ¬(sourceTierRank text row.sourceType = rank ∧
          text.apart triple.value row.value = true) := by
  unfold coexistCloses
  simp only [hrank]
  by_cases hless : rank < sourceTierRank text row.sourceType
  · rw [if_pos hless]
    exact iff_of_false Bool.false_ne_true fun h => absurd h.1 (by omega)
  · rw [if_neg hless]
    have hle : sourceTierRank text row.sourceType ≤ rank := by omega
    split <;> simp_all

theorem guardAllows_of_rank {rank : ℕ} (hrank : incomingRank text incoming = some rank) :
    guardAllows text incoming row = true ↔ sqlTierRank text row.sourceType ≤ rank := by
  unfold guardAllows
  simp only [hrank, decide_eq_true_eq]

theorem closes_iff_of_ranksAgree (hrow : table.row? key = some row)
    (hcandidate : priorCandidate text triple newId key row) :
    RanksAgree text triple incoming row ↔
      (closesPrior text true triple newId incoming key row = true ↔
        closesPrior text false triple newId incoming key row = true ∧
          key ∉ contested text triple incoming table) := by
  rw [mem_contested hrow, closesPrior_eq_true, closesPrior_eq_true]
  simp only [hcandidate, true_and, if_true, Bool.false_eq_true, if_false]
  cases hincoming : incomingRank text incoming with
  | none =>
    refine iff_of_true ?_ ?_
    · intro rank hrank
      exact absurd (hincoming.symm.trans hrank) (some_ne_none _).symm
    · simp [coexistCloses, guardAllows, hincoming]
  | some rank =>
    rw [coexistCloses_of_rank hincoming, guardAllows_of_rank hincoming]
    have hagree : RanksAgree text triple incoming row ↔
        ((sqlTierRank text row.sourceType ≤ rank ↔ sourceTierRank text row.sourceType ≤ rank) ∨
          (sourceTierRank text row.sourceType = rank ∧
            text.apart triple.value row.value = true)) := by
      constructor
      · exact fun h => h rank hincoming
      · intro h other hother
        obtain rfl : rank = other := some.inj (hincoming.symm.trans hother)
        exact h
    rw [hagree, some.injEq, eq_comm (a := rank) (b := sourceTierRank text row.sourceType)]
    tauto

theorem RefinesPlain.ranksAgree (hrefines : RefinesPlain text now triple newId incoming table)
    (hrow : table.row? key = some row) (hcandidate : priorCandidate text triple newId key row) :
    RanksAgree text triple incoming row := by
  rw [closes_iff_of_ranksAgree hrow hcandidate]
  have hmem := Set.ext_iff.mp hrefines.spared key
  rw [Set.mem_sdiff, mem_closedRows, mem_closedRows] at hmem
  simpa [hrow] using hmem

/-- With the flag on exactly the contested rows stay open, as long as the two
rankings agree on the rows at hand. -/
theorem refinesPlain_iff :
    RefinesPlain text now triple newId incoming table ↔
      ∀ key row, table.row? key = some row →
        priorCandidate text triple newId key row = true → RanksAgree text triple incoming row := by
  constructor
  · exact fun hrefines key row hrow hcandidate => hrefines.ranksAgree hrow hcandidate
  · intro hagree
    have hspared : closedRows text true now triple newId incoming table =
        closedRows text false now triple newId incoming table \
          contested text triple incoming table := by
      ext key
      rw [Set.mem_sdiff, mem_closedRows, mem_closedRows]
      constructor
      · rintro ⟨row, hrow, hcloses⟩
        have hcandidate := (closesPrior_eq_true.mp hcloses).1
        have hboth := ((closes_iff_of_ranksAgree hrow hcandidate).mp
          (hagree key row hrow hcandidate)).mp hcloses
        exact ⟨⟨row, hrow, hboth.1⟩, hboth.2⟩
      · rintro ⟨⟨row, hrow, hcloses⟩, hnot⟩
        have hcandidate := (closesPrior_eq_true.mp hcloses).1
        exact ⟨row, hrow, ((closes_iff_of_ranksAgree hrow hcandidate).mp
          (hagree key row hrow hcandidate)).mpr ⟨hcloses, hnot⟩⟩
    refine ⟨hspared, ?_⟩
    rintro rfl
    rw [hspared]
    ext key
    rw [Set.mem_sdiff]
    refine ⟨And.left, fun hkey => ⟨hkey, ?_⟩⟩
    rintro ⟨row, -, hrank, -⟩
    exact absurd hrank (some_ne_none _).symm

def asciiText : TextFns where
  lower := fun s => String.ofList (s.toList.map Char.toLower)
  strip := fun s => String.ofList
    ((s.toList.dropWhile (· = ' ')).reverse.dropWhile (· = ' ')).reverse
  lowercase := fun s => String.ofList (s.toList.map Char.toLower)
  casefold := fun s => String.ofList (s.toList.map Char.toLower)
  apart := fun a b => decide (a ≠ b)

def paddedSeed : FactRow where
  subject := "norland"
  predicate := "capital"
  value := "aden"
  confidence := 1
  sourceType := " seed "
  validFrom := none
  validUntil := none
  supersededBy := none
  supersededAt := none
  createdAt := 0
  updatedAt := 0
  data := []
  derivedFrom := []
  originClass := .live
  sourceCredibility := none

/-- The statement closes the padded seed, the code holds it to be of the higher
tier. -/
theorem not_refinesPlain_paddedSeed :
    ¬ RefinesPlain asciiText 1 ⟨"norland", "capital", "taiz"⟩ 2 (some "agent")
      (Table.empty.put 1 paddedSeed) := by
  have hrow : (Table.empty.put (1 : Uuid) paddedSeed).row? 1 =
      some paddedSeed := Table.row?_put_self _ _ _
  have hcandidate : priorCandidate asciiText ⟨"norland", "capital", "taiz"⟩ 2
      1 paddedSeed := by decide +kernel
  have hranks : incomingRank asciiText (some "agent") = some 1 ∧
      sqlTierRank asciiText paddedSeed.sourceType = 1 ∧
      sourceTierRank asciiText paddedSeed.sourceType = 2 := by decide +kernel
  intro hrefines
  have hagree := hrefines.ranksAgree hrow hcandidate 1 hranks.1
  rw [hranks.2.1, hranks.2.2] at hagree
  omega

end Legba.Facts
