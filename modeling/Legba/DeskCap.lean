import Legba.AlertScan
import Legba.KeyGroups

/-!
# What the per-desk cap carries over

The cap reorders the candidates of a desk and folds those beyond it into one
rollup.  A candidate may come with a payload of its own, such as the watermarks
it advances.  If a rollup takes over the payloads of its members, then nothing
is lost and nothing is doubled.
-/

namespace Legba.Alerts

open KeyGroups List

section

variable {Item : Type*} (view : Item → AlertCandidate)
variable (fold : String → ℕ → Item → List Item → Item)

def deskItems (items : List Item) (desk : String) : List Item :=
  (items.filter fun item => (view item).deskKey == desk).insertionSort
    fun a b => deskSortKey (view a) ≤ deskSortKey (view b)

def rollupItems (cap : ℕ) (desk : String) (ordered : List Item) : List Item :=
  match ordered.drop cap with
  | [] => []
  | first :: rest => [fold desk cap first rest]

def deskKeys (items : List Item) : List String :=
  (items.map fun item => (view item).deskKey).dedup.insertionSort (· ≤ ·)

/-- `apply_desk_cap`, over candidates with a payload. -/
def capDesks (items : List Item) (cap : ℕ) : List Item × List Item :=
  ((deskKeys view items).flatMap fun desk =>
      (deskItems view items desk).take cap,
    (deskKeys view items).flatMap fun desk => rollupItems fold cap desk (deskItems view items desk))

theorem deskRollups_eq (cap : ℕ) (desk : String) (ordered : List AlertCandidate) :
    deskRollups cap desk ordered = rollupItems deskRollup cap desk ordered := by
  unfold deskRollups rollupItems
  cases ordered.drop cap <;> rfl

theorem applyDeskCap_eq (candidates : List AlertCandidate) (cap : ℕ) :
    applyDeskCap candidates cap = capDesks id deskRollup candidates cap := by
  unfold applyDeskCap
  simp only [deskRollups_eq]
  rfl

theorem deskItems_groups_perm (items : List Item) :
    ((deskKeys view items).flatMap (deskItems view items)).Perm items := by
  have hnodup : (deskKeys view items).Nodup :=
    (perm_insertionSort _ _).nodup_iff.mpr (nodup_dedup _)
  have hcovered : ∀ item ∈ items, (view item).deskKey ∈ deskKeys view items := by
    intro item hitem
    rw [deskKeys, mem_insertionSort, mem_dedup]
    exact mem_map_of_mem hitem
  have hsorted : ((deskKeys view items).flatMap (deskItems view items)).Perm
      ((deskKeys view items).flatMap fun desk =>
        items.filter fun item => (view item).deskKey == desk) :=
    Perm.flatMap_left _ fun desk _ => perm_insertionSort _ _
  exact hsorted.trans (flatMap_filter_key_perm _ hnodup hcovered)

variable {Part : Type*} {payload : Item → List Part}

section

variable
  (hfold : ∀ desk cap first rest, payload (fold desk cap first rest) = (first :: rest).flatMap payload)

include hfold

theorem flatMap_take_append_rollup (cap : ℕ) (desk : String) (ordered : List Item) :
    (ordered.take cap).flatMap payload ++ (rollupItems fold cap desk ordered).flatMap payload =
      ordered.flatMap payload := by
  conv_rhs => rw [← take_append_drop cap ordered, flatMap_append]
  unfold rollupItems
  cases hdrop : ordered.drop cap with
  | nil => simp
  | cons first rest => simp [hfold]

theorem capDesks_perm (items : List Item) (cap : ℕ) :
    (((capDesks view fold items cap).1 ++ (capDesks view fold items cap).2).flatMap payload).Perm
      (items.flatMap payload) := by
  rw [capDesks, flatMap_append, flatMap_assoc, flatMap_assoc]
  refine (flatMap_append_perm _ _ _).trans ?_
  have hgroups : ((deskKeys view items).flatMap fun desk =>
      ((deskItems view items desk).take cap).flatMap payload ++
        (rollupItems fold cap desk (deskItems view items desk)).flatMap payload) =
      ((deskKeys view items).flatMap (deskItems view items)).flatMap
        payload := by
    rw [flatMap_assoc]
    exact flatMap_congr fun desk _ => flatMap_take_append_rollup fold hfold cap desk _
  rw [hgroups]
  exact (deskItems_groups_perm view items).flatMap_right payload

end

end

end Legba.Alerts
