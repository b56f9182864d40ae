import Legba.HashChain
import Legba.RowOrder
import Legba.SignalRow
import Mathlib.Data.List.Sort

/-!
# The receipt table

`analyst_traces` as far as the receipt chain reads and writes it: the receipt
of a run, the row it becomes, and the head the table yields for an analyst.
A row whose hash no row of the analyst names is a tip; the head is the newest
tip, and the newest row where there is no tip.

`sha` is the digest of the canonical JSON of a receipt.  The text order of two
run ids is the order of the numbers they spell.
-/

namespace Legba.Receipts

open HashChain JsonValue RowOrder Bool

def zeroHash : String := String.ofList (List.replicate 64 '0')

/-- The arguments of `record` which enter the receipt or the order of rows. -/
structure RunTrace where
  runId : Uuid
  analystId : String
  analystVersion : String
  inputRowRefs : List Uuid
  promptModuleHash : Option String
  promptRendered : Option String
  outputRowRefs : List Uuid
  outputPayload : Json
  runStartedAt : Datetime
  runEndedAt : Datetime

def sampleRun (runId : Uuid) (analystId : String) (startedAt : Datetime) : RunTrace where
  runId := runId
  analystId := analystId
  analystVersion := "v1"
  inputRowRefs := []
  promptModuleHash := none
  promptRendered := none
  outputRowRefs := []
  outputPayload := .null
  runStartedAt := startedAt
  runEndedAt := startedAt

structure ReceiptPayload where
  runId : Uuid
  analystId : String
  analystVersion : String
  inputRowRefs : List Uuid
  promptModuleHash : Option String
  promptRendered : Option String
  outputRowRefs : List Uuid
  outputPayload : Json
  runEndedAt : Datetime
  prevReceiptHash : String

def sortedRefs (refs : List Uuid) : List Uuid :=
  refs.insertionSort fun a b => a.toNat ≤ b.toNat

def receiptPayload (run : RunTrace) (prev : String) : ReceiptPayload where
  runId := run.runId
  analystId := run.analystId
  analystVersion := run.analystVersion
  inputRowRefs := sortedRefs run.inputRowRefs
  promptModuleHash := run.promptModuleHash
  promptRendered := run.promptRendered
  outputRowRefs := sortedRefs run.outputRowRefs
  outputPayload := run.outputPayload
  runEndedAt := run.runEndedAt
  prevReceiptHash := if prev = "" then zeroHash else prev

def computeReceiptHash (sha : ReceiptPayload → String) (run : RunTrace) (prev : String) : String :=
  sha (receiptPayload run prev)

structure TraceRow where
  runId : Uuid
  analystId : String
  runStartedAt : Datetime
  receiptHash : String
  prevReceiptHash : Option String
  deriving DecidableEq, Repr

def traceRow (run : RunTrace) (receipt prev : String) : TraceRow where
  runId := run.runId
  analystId := run.analystId
  runStartedAt := run.runStartedAt
  receiptHash := receipt
  prevReceiptHash := some prev

def own (rows : List TraceRow) (analystId : String) : List TraceRow :=
  rows.filter fun row => decide (row.analystId = analystId)

/-- `ORDER BY run_started_at DESC, run_id::text DESC`. -/
def newer (a b : TraceRow) : Bool :=
  decide (b.runStartedAt < a.runStartedAt) ||
    (decide (a.runStartedAt = b.runStartedAt) && decide (b.runId.toNat < a.runId.toNat))

def tipsOf (rows : List TraceRow) (analystId : String) : List TraceRow :=
  tips TraceRow.receiptHash TraceRow.prevReceiptHash (own rows analystId)

def newestTip (rows : List TraceRow) (analystId : String) : Option String :=
  (firstBy newer (tipsOf rows analystId)).map TraceRow.receiptHash

def newestRow (rows : List TraceRow) (analystId : String) : Option String :=
  (firstBy newer (own rows analystId)).map TraceRow.receiptHash

/-- The head `_head_locked` derives from the table. -/
def storedHead (rows : List TraceRow) (analystId : String) : String :=
  match newestTip rows analystId with
  | some head => head
  | none => (newestRow rows analystId).getD zeroHash

def headTipCount (rows : List TraceRow) (analystId : String) : ℕ :=
  (tipsOf rows analystId).length

theorem isStrictOrder_newer : IsStrictOrder newer where
  asymm := by
    intro a b
    simp only [newer, or_eq_true, and_eq_true, decide_eq_true_eq,
      or_eq_false_iff, and_eq_false_iff, decide_eq_false_iff_not]
    intro hab
    constructor
    · cases hab with
      | inl hlt => exact not_lt.mpr hlt.le
      | inr heq => exact not_lt.mpr heq.1.ge
    · by_cases hstart : b.runStartedAt = a.runStartedAt
      · cases hab with
        | inl hlt => exact absurd hstart hlt.ne
        | inr heq => exact .inr (by omega)
      · exact .inl hstart
  split := by
    intro a b c
    simp only [newer, or_eq_true, and_eq_true, decide_eq_true_eq]
    intro hab
    cases lt_trichotomy c.runStartedAt a.runStartedAt with
    | inl hlt => exact .inl (.inl hlt)
    | inr hge =>
      cases hge with
      | inl heq =>
        cases hab with
        | inl hlt => exact .inr (.inl (heq ▸ hlt))
        | inr hrun =>
          by_cases hc : c.runId.toNat < a.runId.toNat
          · exact .inl (.inr ⟨heq.symm, hc⟩)
          · exact .inr (.inr ⟨heq.trans hrun.1, by omega⟩)
      | inr hgt =>
        cases hab with
        | inl hlt => exact .inr (.inl (hlt.trans hgt))
        | inr hrun => exact .inr (.inl (hrun.1 ▸ hgt))

theorem newer_or_newer {a b : TraceRow} (hrun : a.runId ≠ b.runId) :
    newer a b = true ∨ newer b a = true := by
  simp only [newer, or_eq_true, and_eq_true, decide_eq_true_eq]
  have hne : a.runId.toNat ≠ b.runId.toNat := fun heq => hrun (BitVec.eq_of_toNat_eq heq)
  cases lt_trichotomy a.runStartedAt b.runStartedAt with
  | inl hlt => exact .inr (.inl hlt)
  | inr hge =>
    cases hge with
    | inl heq =>
      cases Nat.lt_or_gt_of_ne hne with
      | inl hlt => exact .inr (.inr ⟨heq.symm, hlt⟩)
      | inr hgt => exact .inl (.inr ⟨heq, hgt⟩)
    | inr hgt => exact .inl (.inl hgt)

variable {rows rows' : List TraceRow} {analystId : String}

theorem own_append_of_eq {row : TraceRow} (hrow : row.analystId = analystId) :
    own (rows ++ [row]) analystId = own rows analystId ++ [row] := by
  simp [own, hrow]

theorem own_append_of_ne {row : TraceRow} (hrow : row.analystId ≠ analystId) :
    own (rows ++ [row]) analystId = own rows analystId := by
  simp [own, hrow]

theorem own_append (rows more : List TraceRow) (analystId : String) :
    own (rows ++ more) analystId = own rows analystId ++ own more analystId :=
  List.filter_append ..

section

variable (hown : own rows analystId = own rows' analystId)

include hown

theorem newestTip_congr : newestTip rows analystId = newestTip rows' analystId := by
  unfold newestTip tipsOf
  rw [hown]

theorem newestRow_congr : newestRow rows analystId = newestRow rows' analystId := by
  unfold newestRow
  rw [hown]

theorem storedHead_congr : storedHead rows analystId = storedHead rows' analystId := by
  unfold storedHead
  rw [newestTip_congr hown, newestRow_congr hown]

end

theorem storedHead_of_newestTip {head : String} (hhead : newestTip rows analystId = some head) :
    storedHead rows analystId = head := by
  simp [storedHead, hhead]

theorem storedHead_of_noTip (hhead : newestTip rows analystId = none) :
    storedHead rows analystId = (newestRow rows analystId).getD zeroHash := by
  simp [storedHead, hhead]

theorem exists_tip_of_newestTip {head : String} (hhead : newestTip rows analystId = some head) :
    ∃ tip ∈ tipsOf rows analystId, tip.receiptHash = head := by
  unfold newestTip at hhead
  obtain ⟨tip, htip, heq⟩ := Option.map_eq_some_iff.mp hhead
  exact ⟨tip, firstBy_mem htip, heq⟩

theorem storedHead_of_noRows (hnone : own rows analystId = []) :
    storedHead rows analystId = zeroHash := by
  unfold storedHead newestTip newestRow tipsOf
  rw [hnone]
  rfl

def rowsSince (start rows : List TraceRow) : List TraceRow :=
  rows.drop start.length

/-- The hash of the last row written for the analyst; the head of the table at
the start if there is none. -/
def chainHead (start new : List TraceRow) (analystId : String) : String :=
  lastHash TraceRow.receiptHash (storedHead start analystId) (own new analystId)

def IsLinear (start new : List TraceRow) (analystId : String) : Prop :=
  PathFrom TraceRow.receiptHash TraceRow.prevReceiptHash
    (storedHead start analystId) (own new analystId)

theorem rowsSince_append {start next more : List TraceRow}
    (hrows : rows = start ++ rowsSince start rows) (hnext : next = rows ++ more) :
    rowsSince start next = rowsSince start rows ++ more := by
  have hall : next = start ++ (rowsSince start rows ++ more) := by
    rw [hnext, ← List.append_assoc, ← hrows]
  unfold rowsSince at hall ⊢
  rw [hall, List.drop_left]

end Legba.Receipts
