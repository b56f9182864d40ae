import Legba.FindingSignature
import Legba.GreedyPass
import Mathlib.Data.Prod.Lex
import Mathlib.Data.String.Basic

/-!
# The entries of the window ledger

The heads of a fortnight are bounded to a block: the severest line of a unit
and a day, so many lines of a unit, so many lines in all.  The heads are
walked from the severest down and the lines kept are put back in the order of
time.

An entry is a mapping of which the selection reads six fields, and an absent
or empty field counts as the empty text.
-/

namespace Legba.WindowLedger

open JsonValue Findings List GreedyPass

abbrev Entry := List (String × Json)

def severityRank : List (String × ℤ) :=
  [("critical", 4), ("high", 3), ("elevated", 2), ("moderate", 1), ("low", 0)]

def ledgerPerUnitCap : Option ℤ := some 3

def ledgerTotalCap : ℤ := 20

section

variable (text : PythonText)

/-- `str(entry.get(key) or "")`. -/
def textOf (entry : Entry) (key : String) : String :=
  match given entry key with
  | some value => pyStr text value
  | none => ""

/-- `_rank_of`: an integer is taken as it is. -/
def rankOf (entry : Entry) : ℤ :=
  match field? entry "severity_rank" with
  | some (.number mantissa 0) => mantissa
  | _ => (severityRank.lookup (text.lower (textOf text entry "severity"))).getD (-1)

def unitOf (entry : Entry) : String := textOf text entry "analyst_id"

def dayKey (entry : Entry) : String × String :=
  (unitOf text entry, textOf text entry "day")

def readKey (entry : Entry) : String ×ₗ String :=
  toLex (textOf text entry "produced_at", textOf text entry "finding_id")

def rankKey (entry : Entry) : ℤ ×ₗ (String ×ₗ String) :=
  toLex (rankOf text entry, readKey text entry)

structure Selection where
  seenDays : List (String × String)
  perUnit : String → ℕ
  kept : List Entry

def Selection.empty : Selection := ⟨[], fun _ => 0, []⟩

/-- `per_unit_cap is not None and per_unit.get(unit, 0) >= per_unit_cap`. -/
def unitFull (perUnitCap : Option ℤ) (count : ℕ) : Bool :=
  match perUnitCap with
  | none => false
  | some cap => decide (cap ≤ (count : ℤ))

def Selection.keep (selection : Selection) (entry : Entry) : Selection where
  seenDays := dayKey text entry :: selection.seenDays
  perUnit := Function.update selection.perUnit (unitOf text entry)
    (selection.perUnit (unitOf text entry) + 1)
  kept := selection.kept ++ [entry]

def selectLoop (perUnitCap : Option ℤ) (totalCap : ℤ) : Selection → List Entry → List Entry
  | selection, [] => selection.kept
  | selection, entry :: rest =>
    if dayKey text entry ∈ selection.seenDays then
      selectLoop perUnitCap totalCap selection rest
    else if unitFull perUnitCap (selection.perUnit (unitOf text entry)) then
      selectLoop perUnitCap totalCap selection rest
    else if totalCap ≤ (selection.keep text entry).kept.length then
      (selection.keep text entry).kept
    else selectLoop perUnitCap totalCap (selection.keep text entry) rest

def selectLedgerEntries (entries : List Entry)
    (perUnitCap : Option ℤ := ledgerPerUnitCap)
    (totalCap : ℤ := ledgerTotalCap) : List Entry :=
  let ranked := entries.insertionSort fun first second => rankKey text second ≤ rankKey text first
  (selectLoop text perUnitCap totalCap Selection.empty ranked).insertionSort
    fun first second => readKey text first ≤ readKey text second

end

variable {text : PythonText}

structure Selection.Tracks (text : PythonText) (selection : Selection) : Prop where
  days : ∀ day, day ∈ selection.seenDays ↔ day ∈ selection.kept.map (dayKey text)
  counts : ∀ unit, selection.perUnit unit = (selection.kept.map (unitOf text)).count unit

theorem Selection.tracks_empty (text : PythonText) : Selection.empty.Tracks text where
  days := fun day => by simp [Selection.empty]
  counts := fun unit => by simp [Selection.empty]

variable {selection : Selection}

theorem Selection.Tracks.keep (htracks : selection.Tracks text) (entry : Entry) :
    (selection.keep text entry).Tracks text where
  days := fun day => by
    simp only [Selection.keep]
    rw [mem_cons, htracks.days day, map_append, mem_append, map_singleton, mem_singleton]
    exact or_comm
  counts := fun unit => by
    simp only [Selection.keep, map_append, map_singleton, count_append]
    by_cases hunit : unit = unitOf text entry
    · subst hunit
      rw [Function.update_self, htracks.counts, count_singleton_self]
    · rw [Function.update_of_ne hunit, htracks.counts, count_singleton, if_neg
        (by simpa using Ne.symm hunit), Nat.add_zero]

theorem Selection.Tracks.capped_eq (htracks : selection.Tracks text)
    (perUnitCap : Option ℤ) (entry : Entry) :
    capped (unitOf text) (dayKey text) perUnitCap selection.kept entry =
      (decide (dayKey text entry ∈ selection.seenDays) ||
        unitFull perUnitCap (selection.perUnit (unitOf text entry))) := by
  rw [htracks.counts, decide_eq_decide.mpr (htracks.days _)]
  rfl

theorem selectLoop_cons (perUnitCap : Option ℤ) (totalCap : ℤ)
    (selection : Selection) (entry : Entry) (rest : List Entry) :
    selectLoop text perUnitCap totalCap selection (entry :: rest) =
      if dayKey text entry ∈ selection.seenDays then
        selectLoop text perUnitCap totalCap selection rest
      else if unitFull perUnitCap (selection.perUnit (unitOf text entry)) then
        selectLoop text perUnitCap totalCap selection rest
      else if totalCap ≤ (selection.keep text entry).kept.length then
        (selection.keep text entry).kept
      else
        selectLoop text perUnitCap totalCap (selection.keep text entry) rest :=
  rfl

theorem selectLoop_eq_pass (perUnitCap : Option ℤ) (totalCap : ℤ)
    (htracks : selection.Tracks text) (ranked : List Entry) :
    selectLoop text perUnitCap totalCap selection ranked =
      pass
        (capped (unitOf text) (dayKey text) perUnitCap) totalCap
        selection.kept ranked := by
  induction ranked generalizing selection with
  | nil => rfl
  | cons entry rest ih =>
    rw [selectLoop_cons, GreedyPass.pass, htracks.capped_eq]
    by_cases hday : dayKey text entry ∈ selection.seenDays
    · simp only [hday, decide_true, Bool.true_or, if_true]
      exact ih htracks
    · cases hfull : unitFull perUnitCap (selection.perUnit (unitOf text entry)) with
      | true =>
        simp only [hday, decide_false, Bool.false_or, if_true, if_false]
        exact ih htracks
      | false =>
        simp only [hday, decide_false, Bool.false_or, if_false, Bool.false_eq_true]
        rw [ih (htracks.keep entry), Selection.keep, length_append, length_singleton]
        rfl

/-- A selection of the entries, from the severest down, under the bounds. -/
structure IsSelection (text : PythonText) (entries : List Entry)
    (perUnitCap : Option ℤ) (totalCap : ℤ) (selected : List Entry) :
    Prop where
  subperm : selected.Subperm entries
  ordered : selected.Pairwise fun first second => readKey text first ≤ readKey text second
  total : (selected.length : ℤ) ≤ totalCap
  perUnit : ∀ cap, perUnitCap = some cap → ∀ entry ∈ selected,
    ((selected.map (unitOf text)).count (unitOf text entry) : ℤ) ≤ cap
  perDay : (selected.map (dayKey text)).Nodup
  severest : ∀ entry ∈ selected, ∀ other ∈ entries,
    dayKey text other = dayKey text entry → rankKey text other ≤ rankKey text entry
  justified : ∀ entry ∈ entries,
    dayKey text entry ∉ selected.map (dayKey text) →
      (∃ cap, perUnitCap = some cap ∧
        cap ≤ selected.countP fun kept =>
          unitOf text kept = unitOf text entry ∧ rankKey text entry ≤ rankKey text kept) ∨
      totalCap ≤ selected.countP fun kept => rankKey text entry ≤ rankKey text kept

section

variable (text : PythonText) (entries : List Entry)

theorem pairwise_ranked :
    (entries.insertionSort fun first second =>
      rankKey text second ≤ rankKey text first).Pairwise
        fun first second => rankKey text second ≤ rankKey text first := by
  exact pairwise_insertionSort _ _

theorem pairwise_read :
    (entries.insertionSort fun first second =>
      readKey text first ≤ readKey text second).Pairwise
        fun first second => readKey text first ≤ readKey text second := by
  exact pairwise_insertionSort _ _

theorem selectLedgerEntries_perm (perUnitCap : Option ℤ) (totalCap : ℤ) :
    (selectLedgerEntries text entries perUnitCap totalCap).Perm
      (pass
        (capped (unitOf text) (dayKey text) perUnitCap) totalCap []
        (entries.insertionSort fun first second =>
          rankKey text second ≤ rankKey text first)) := by
  have hloop := selectLoop_eq_pass perUnitCap totalCap
    (Selection.tracks_empty text)
    (entries.insertionSort fun first second => rankKey text second ≤ rankKey text first)
  exact (perm_insertionSort _ _).trans (Perm.of_eq hloop)

end

theorem selectLedgerEntries_spec (text : PythonText) (entries : List Entry)
    (perUnitCap : Option ℤ) {totalCap : ℤ} (htotal : 1 ≤ totalCap) :
    IsSelection text entries perUnitCap totalCap
      (selectLedgerEntries text entries perUnitCap totalCap) := by
  have hperm := selectLedgerEntries_perm text entries perUnitCap totalCap
  have hordered : (selectLedgerEntries text entries perUnitCap
      totalCap).Pairwise fun first second =>
        readKey text first ≤ readKey text second := pairwise_read text _
  have hsorted := pairwise_ranked text entries
  have hranked := perm_insertionSort (fun first second =>
    rankKey text second ≤ rankKey text first) entries
  generalize selectLedgerEntries text entries perUnitCap totalCap = selected at *
  generalize entries.insertionSort (fun first second =>
    rankKey text second ≤ rankKey text first) = ranked at *
  have hunit : ∀ first second, dayKey text first = dayKey text second →
      unitOf text first = unitOf text second :=
    fun first second hday => congrArg Prod.fst hday
  refine ⟨?_, hordered, ?_, ?_, ?_, ?_, ?_⟩
  · exact (hperm.subperm.trans (pass_sublist ranked).subperm).trans hranked.subperm
  · rw [hperm.length_eq]
    exact length_pass_le _ htotal ranked
  · rintro cap rfl entry hentry
    rw [(hperm.map (unitOf text)).count_eq]
    exact count_pass_le (unitOf text) (dayKey text) cap totalCap
      ranked entry (hperm.mem_iff.mp hentry)
  · rw [(hperm.map (dayKey text)).nodup_iff]
    exact nodup_pass (unitOf text) (dayKey text) perUnitCap totalCap ranked
  · intro entry hentry other hother hday
    exact key_le_of_mem_pass hsorted hunit htotal
      (hperm.mem_iff.mp hentry) (hranked.mem_iff.mpr hother) hday
  · intro entry hentry homitted
    rw [(hperm.map (dayKey text)).mem_iff] at homitted
    simp only [hperm.countP_eq]
    exact full_of_notMem_pass hsorted (hranked.mem_iff.mpr hentry) homitted

def asciiText : PythonText where
  str := fun _ => ""
  strip := fun text => text.trimAscii.toString
  lower := fun text => String.ofList (text.toList.map Char.toLower)

def moderateRead : Entry :=
  [("finding_id", .string "a"), ("analyst_id", .string "escalation"),
    ("severity", .string "moderate"), ("day", .string "2026-08-07"),
    ("produced_at", .string "2026-08-07T06:00:00+00:00")]

def elevatedRead : Entry :=
  [("finding_id", .string "b"), ("analyst_id", .string "escalation"),
    ("severity", .string "Elevated"), ("day", .string "2026-08-07"),
    ("produced_at", .string "2026-08-07T05:00:00+00:00")]

theorem selectLedgerEntries_spec_reads :
    (1 : ℤ) ≤ ledgerTotalCap ∧
      IsSelection asciiText [moderateRead, elevatedRead] ledgerPerUnitCap
        ledgerTotalCap (selectLedgerEntries asciiText
          [moderateRead, elevatedRead] ledgerPerUnitCap ledgerTotalCap) :=
  ⟨by decide, selectLedgerEntries_spec asciiText [moderateRead, elevatedRead]
    ledgerPerUnitCap (by decide)⟩

end Legba.WindowLedger
