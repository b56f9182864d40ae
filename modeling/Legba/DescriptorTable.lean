import Legba.KeyedTable

/-!
# Descriptor tables

The tables of the descriptor families share one shape.  A row is keyed by a
descriptor id and a version; the row with `is_head` set is the one readers
see.  The statements are shared too: the head lookup, the two moves of the
head pointer, the insert of a new head and the change of a `state` column.
A partial unique index admits one head for each descriptor id, so every
writer has to keep `HeadUnique`.
-/

namespace Legba.Descriptors

open KeyedTable Option Table

structure Row (State Body : Type*) where
  schemaUri : String
  isHead : Bool
  state : State
  owner : String
  name : String
  body : Body

/-- `(descriptor_id, version)`. -/
abbrev RowKey := String × String

abbrev DescriptorTable (State Body : Type*) := Table RowKey (Row State Body)

variable {State Body : Type*}

def headCondition (descriptorId : String) (key : RowKey) (row : Row State Body) : Bool :=
  decide (key.1 = descriptorId) && row.isHead

/-- `SELECT … WHERE descriptor_id = $1 AND is_head LIMIT 1`. -/
def head? (table : DescriptorTable State Body) (descriptorId : String) :
    Option (String × Row State Body) :=
  (table.selectFirst (headCondition descriptorId)).map fun found => (found.1.2, found.2)

/-- `UPDATE … SET is_head = false WHERE descriptor_id = $1 AND is_head`. -/
def demoteHead (table : DescriptorTable State Body) (descriptorId : String) :
    DescriptorTable State Body :=
  table.updateMatching (headCondition descriptorId)
    fun row => { row with isHead := false }

/-- `UPDATE … SET is_head = $3 WHERE descriptor_id = $1 AND version = $2`. -/
def setIsHead (table : DescriptorTable State Body)
    (descriptorId version : String) (isHead : Bool) :
    DescriptorTable State Body :=
  table.update (descriptorId, version) fun row => { row with isHead := isHead }

/-- `UPDATE … SET state = $3 WHERE descriptor_id = $1 AND version = $2`. -/
def setState (table : DescriptorTable State Body)
    (descriptorId version : String) (state : State) :
    DescriptorTable State Body :=
  table.update (descriptorId, version) fun row => { row with state := state }

def IsHead (table : DescriptorTable State Body) (descriptorId version : String)
    (row : Row State Body) : Prop :=
  table.row? (descriptorId, version) = some row ∧ row.isHead = true

def HeadUniqueAt (table : DescriptorTable State Body) (descriptorId : String) :
    Prop :=
  ∀ version version' row row', IsHead table descriptorId version row →
    IsHead table descriptorId version' row' → version = version'

def HeadUnique (table : DescriptorTable State Body) : Prop :=
  ∀ descriptorId, HeadUniqueAt table descriptorId

theorem headUnique_empty : HeadUnique (empty : DescriptorTable State Body) := by
  intro descriptorId version version' row row' hrow
  exact absurd hrow.1 (by simp)

variable {table next : DescriptorTable State Body}
  {descriptorId version other : String} {row : Row State Body} {key : RowKey}

theorem isHead_of_head? (hhead : head? table descriptorId = some (version, row)) :
    IsHead table descriptorId version row := by
  unfold head? at hhead
  cases hfound : table.selectFirst (headCondition descriptorId) with
  | none => simp [hfound] at hhead
  | some found =>
    rw [hfound, map_some, some.injEq, Prod.mk.injEq] at hhead
    have hselected : table.row? found.1 = some found.2 ∧
        headCondition descriptorId found.1 found.2 = true :=
      selectFirst_eq_some hfound
    have hcondition := hselected.2
    simp only [headCondition, Bool.and_eq_true, decide_eq_true_eq] at hcondition
    have hkey : found.1 = (descriptorId, version) := Prod.ext hcondition.1 hhead.1
    rw [hkey, hhead.2] at hselected
    rw [hhead.2] at hcondition
    exact ⟨hselected.1, hcondition.2⟩

theorem head?_eq_none :
    head? table descriptorId = none ↔ ∀ version row, ¬IsHead table descriptorId version row := by
  unfold head?
  rw [map_eq_none_iff, selectFirst_eq_none]
  constructor
  · intro hnone version row hrow
    have hcondition := hnone (descriptorId, version) row hrow.1
    simp [headCondition, hrow.2] at hcondition
  · intro hnone key row hrow
    by_contra hcondition
    simp only [headCondition, Bool.not_eq_false, Bool.and_eq_true, decide_eq_true_eq] at hcondition
    apply hnone key.2 row
    rw [← hcondition.1]
    exact ⟨hrow, hcondition.2⟩

section

variable (hunique : HeadUniqueAt table descriptorId)

include hunique

theorem head?_eq_some :
    head? table descriptorId = some (version, row) ↔ IsHead table descriptorId version row := by
  constructor
  · exact isHead_of_head?
  · intro hrow
    cases hhead : head? table descriptorId with
    | none => exact absurd hrow (head?_eq_none.mp hhead version row)
    | some found =>
      have hfound : IsHead table descriptorId found.1 found.2 := isHead_of_head? hhead
      have hversion := hunique _ _ _ _ hfound hrow
      have hrows := hfound.1
      rw [hversion, hrow.1, some.injEq] at hrows
      rw [some.injEq]
      exact Prod.ext hversion hrows.symm

section

variable (hrows : ∀ version, next.row? (descriptorId, version) = table.row? (descriptorId, version))

include hrows

theorem head?_congr : head? next descriptorId = head? table descriptorId := by
  have hisHead : ∀ version row, IsHead next descriptorId version row ↔
      IsHead table descriptorId version row := by
    intro version row
    unfold IsHead
    rw [hrows version]
  have hnext : HeadUniqueAt next descriptorId := by
    intro version version' row row' hrow hrow'
    exact hunique _ _ _ _ ((hisHead _ _).mp hrow) ((hisHead _ _).mp hrow')
  cases hhead : head? table descriptorId with
  | none =>
    rw [head?_eq_none] at hhead ⊢
    intro version row hrow
    exact hhead version row ((hisHead _ _).mp hrow)
  | some found =>
    have hfound : IsHead table descriptorId found.1 found.2 := isHead_of_head? hhead
    exact (head?_eq_some hnext).mpr ((hisHead _ _).mpr hfound)

theorem headUniqueAt_congr : HeadUniqueAt next descriptorId := by
  intro version version' row row' hrow hrow'
  unfold IsHead at hrow hrow'
  rw [hrows] at hrow hrow'
  exact hunique _ _ _ _ hrow hrow'

end

end

theorem row?_demoteHead_of_ne (hother : other ≠ descriptorId) (version : String) :
    (demoteHead table descriptorId).row? (other, version) = table.row? (other, version) := by
  cases hrow : table.row? (other, version) with
  | none => simp [demoteHead, hrow]
  | some row => simp [demoteHead, hrow, headCondition, hother]

theorem not_isHead_demoteHead (table : DescriptorTable State Body) (descriptorId version : String)
    (row : Row State Body) : ¬IsHead (demoteHead table descriptorId) descriptorId version row := by
  rintro ⟨hrow, hhead⟩
  cases hold : table.row? (descriptorId, version) with
  | none => simp [demoteHead, hold] at hrow
  | some old =>
    simp only [demoteHead, row?_updateMatching, hold, map_some] at hrow
    by_cases hcondition : headCondition descriptorId (descriptorId, version) old = true
    · rw [if_pos hcondition] at hrow
      rw [← some.inj hrow] at hhead
      simp at hhead
    · rw [if_neg hcondition] at hrow
      rw [← some.inj hrow] at hhead
      simp [headCondition, hhead] at hcondition

theorem row?_setIsHead_of_ne (table : DescriptorTable State Body)
    (hkey : key ≠ (descriptorId, version)) (isHead : Bool) :
    (setIsHead table descriptorId version isHead).row? key = table.row? key :=
  row?_update_of_ne table hkey _

theorem row?_setIsHead_self (hrow : table.row? (descriptorId, version) = some row) (isHead : Bool) :
    (setIsHead table descriptorId version isHead).row?
        (descriptorId, version) = some { row with isHead := isHead } := by
  simp [setIsHead, hrow]

theorem row?_setIsHead_of_some (hrow : table.row? key = some row)
    (descriptorId version : String) (isHead : Bool) :
    ∃ flag, (setIsHead table descriptorId version isHead).row? key =
      some { row with isHead := flag } := by
  by_cases hkey : key = (descriptorId, version)
  · rw [hkey] at hrow ⊢
    exact ⟨isHead, row?_setIsHead_self hrow isHead⟩
  · rw [row?_setIsHead_of_ne table hkey, hrow]
    exact ⟨row.isHead, rfl⟩

theorem row?_setIsHead_eq_none {isHead : Bool} :
    (setIsHead table descriptorId version isHead).row? key = none ↔ table.row? key = none := by
  by_cases hkey : key = (descriptorId, version)
  · rw [hkey]
    simp [setIsHead]
  · rw [row?_setIsHead_of_ne table hkey]

theorem row?_setState_of_ne (table : DescriptorTable State Body)
    (hkey : key ≠ (descriptorId, version)) (state : State) :
    (setState table descriptorId version state).row? key = table.row? key :=
  row?_update_of_ne table hkey _

theorem row?_setState_self (hrow : table.row? (descriptorId, version) = some row) (state : State) :
    (setState table descriptorId version state).row?
        (descriptorId, version) = some { row with state := state } := by
  simp [setState, hrow]

theorem exists_isHead_of_setState {id : String} {state : State}
    (hrow : IsHead (setState table descriptorId version state) id other row) :
    ∃ old, IsHead table id other old := by
  by_cases hkey : (id, other) = (descriptorId, version)
  · cases hold : table.row? (descriptorId, version) with
    | none =>
      have hmissing := hrow.1
      rw [hkey] at hmissing
      simp [setState, hold] at hmissing
    | some old =>
      have hself := hrow.1
      rw [hkey, row?_setState_self hold, some.injEq] at hself
      have hhead := hrow.2
      rw [← hself] at hhead
      exact ⟨old, by rw [hkey, hold], hhead⟩
  · have hold := hrow.1
    rw [row?_setState_of_ne table hkey] at hold
    exact ⟨row, hold, hrow.2⟩

theorem headUnique_setState (hunique : HeadUnique table) (descriptorId version : String)
    (state : State) : HeadUnique (setState table descriptorId version state) := by
  intro id first second row row' hrow hrow'
  obtain ⟨old, hold⟩ := exists_isHead_of_setState hrow
  obtain ⟨old', hold'⟩ := exists_isHead_of_setState hrow'
  exact hunique id _ _ _ _ hold hold'

/-- In `next` the head of a descriptor id is the given row, and the rows of
the other ids are as they were. -/
structure HeadMoved (table next : DescriptorTable State Body)
    (descriptorId version : String) (row : Row State Body) : Prop where
  isHead : IsHead next descriptorId version row
  only : ∀ other found, IsHead next descriptorId other found → other = version
  otherRows : ∀ id other, id ≠ descriptorId → next.row? (id, other) = table.row? (id, other)

theorem HeadMoved.head_eq {found : Row State Body}
    (hmoved : HeadMoved table next descriptorId version row)
    (hfound : IsHead next descriptorId other found) : found = row := by
  have hother := hmoved.only other found hfound
  have hrows := hfound.1
  rw [hother, hmoved.isHead.1, some.injEq] at hrows
  exact hrows.symm

theorem HeadMoved.headUnique (hmoved : HeadMoved table next descriptorId version row)
    (hunique : HeadUnique table) : HeadUnique next := by
  intro id
  by_cases hid : id = descriptorId
  · intro first second found found' hfirst hsecond
    rw [hid] at hfirst hsecond
    rw [hmoved.only first found hfirst, hmoved.only second found' hsecond]
  · exact headUniqueAt_congr (hunique id)
      fun other => hmoved.otherRows id other hid

theorem headMoved_refl (hunique : HeadUniqueAt table descriptorId)
    (hhead : IsHead table descriptorId version row) :
    HeadMoved table table descriptorId version row where
  isHead := hhead
  only := fun _ _ hfound => hunique _ _ _ _ hfound hhead
  otherRows := fun _ _ _ => rfl

theorem headMoved_of_demoted {demoted : DescriptorTable State Body}
    (hothers : ∀ id other, id ≠ descriptorId → demoted.row? (id, other) = table.row? (id, other))
    (hdemoted : ∀ other found, ¬IsHead demoted descriptorId other found)
    (hrow : next.row? (descriptorId, version) = some row) (hhead : row.isHead)
    (hrest : ∀ key, key ≠ (descriptorId, version) → next.row? key = demoted.row? key) :
    HeadMoved table next descriptorId version row where
  isHead := ⟨hrow, hhead⟩
  only := by
    intro other found hfound
    by_contra hother
    have hkey : (descriptorId, other) ≠ (descriptorId, version) :=
      fun heq => hother (Prod.mk.inj heq).2
    have hold := hfound.1
    rw [hrest _ hkey] at hold
    exact hdemoted other found ⟨hold, hfound.2⟩
  otherRows := by
    intro id other hid
    have hkey : (id, other) ≠ (descriptorId, version) := fun heq => hid (Prod.mk.inj heq).1
    rw [hrest _ hkey, hothers id other hid]

section

variable (hunique : HeadUniqueAt table descriptorId) (hhead : IsHead table descriptorId version row)

include hunique hhead

theorem not_isHead_setIsHead_false (other : String) (found : Row State Body) :
    ¬IsHead (setIsHead table descriptorId version false) descriptorId other
      found := by
  intro hfound
  by_cases hother : other = version
  · have hrow := hfound.1
    rw [hother, row?_setIsHead_self hhead.1, some.injEq] at hrow
    have hset := hfound.2
    rw [← hrow] at hset
    simp at hset
  · have hkey : (descriptorId, other) ≠ (descriptorId, version) :=
      fun heq => hother (Prod.mk.inj heq).2
    have hrow := hfound.1
    rw [row?_setIsHead_of_ne table hkey] at hrow
    exact hother (hunique _ _ _ _ ⟨hrow, hfound.2⟩ hhead)

theorem headMoved_setState (state : State) :
    HeadMoved table (setState table descriptorId version state) descriptorId
      version { row with state := state } where
  isHead := ⟨row?_setState_self hhead.1 state, hhead.2⟩
  only := by
    intro other found hfound
    obtain ⟨old, hold⟩ := exists_isHead_of_setState hfound
    exact hunique _ _ _ _ hold hhead
  otherRows := by
    intro id other hid
    have hkey : (id, other) ≠ (descriptorId, version) := fun heq => hid (Prod.mk.inj heq).1
    exact row?_setState_of_ne table hkey state

end

end Legba.Descriptors
