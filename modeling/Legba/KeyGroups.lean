import Mathlib.Data.List.Nodup
import Mathlib.Data.List.Perm.Basic

/-!
# Lists grouped by a key

The groups of a list under a key partition it.  If the keys are distinct, a
group has at most one item, and whatever keeps the key keeps them distinct.
-/

namespace KeyGroups

open List

variable {Item Key : Type*}

variable {items : List Item} {key : Item → Key}

theorem flatMap_filter_key_perm [DecidableEq Key] (key : Item → Key) {keys : List Key}
    (hkeys : keys.Nodup) (hcovered : ∀ item ∈ items, key item ∈ keys) :
    (keys.flatMap fun k => items.filter fun item => key item == k).Perm
      items := by
  induction keys generalizing items with
  | nil =>
    have hnil : items = [] :=
      eq_nil_iff_forall_not_mem.mpr fun item hitem => absurd (hcovered item hitem) (by simp)
    simp [hnil]
  | cons k keys ih =>
    rw [nodup_cons] at hkeys
    have hothers : (keys.flatMap fun other =>
        items.filter fun item => key item == other) =
        keys.flatMap fun other =>
          (items.filter fun item => !(key item == k)).filter fun item =>
            key item == other := by
      refine flatMap_congr fun other hother => ?_
      rw [filter_filter]
      refine filter_congr fun item _ => ?_
      by_cases hitem : key item = other
      · have hne : key item ≠ k := fun heq => hkeys.1 (heq ▸ hitem ▸ hother)
        simp [hitem ▸ hne, hitem]
      · simp [hitem]
    have htail : ∀ item ∈ items.filter fun item => !(key item == k), key item ∈ keys := by
      intro item hitem
      rw [mem_filter] at hitem
      have hmem := hcovered item hitem.1
      rw [mem_cons] at hmem
      exact hmem.resolve_left (by simpa using hitem.2)
    have hrest := ih hkeys.2 htail
    rw [flatMap_cons, hothers]
    exact (hrest.append_left _).trans (filter_append_perm (fun item => key item == k) items)

theorem filter_flatMap_key [DecidableEq Key] {keys : List Key} (hkeys : keys.Nodup)
    {part : Key → List Item} (hpart : ∀ k ∈ keys, ∀ item ∈ part k, key item = k) (wanted : Key) :
    (keys.flatMap part).filter (fun item => key item == wanted) =
      if wanted ∈ keys then part wanted else [] := by
  induction keys with
  | nil => rfl
  | cons k keys ih =>
    rw [nodup_cons] at hkeys
    rw [forall_mem_cons] at hpart
    rw [flatMap_cons, filter_append, ih hkeys.2 hpart.2]
    by_cases hwanted : wanted = k
    · subst hwanted
      have hall : (part wanted).filter (fun item => key item == wanted) =
          part wanted := filter_eq_self.mpr fun item hitem =>
        beq_iff_eq.mpr (hpart.1 item hitem)
      rw [hall, if_neg hkeys.1, if_pos mem_cons_self, append_nil]
    · have hnone : (part k).filter (fun item => key item == wanted) = [] :=
        filter_eq_nil_iff.mpr fun item hitem heq =>
          hwanted ((beq_iff_eq.mp heq).symm.trans (hpart.1 item hitem))
      simp only [hnone, nil_append, mem_cons, hwanted, false_or]

theorem filterMap_keys_nodup {Part : Type*} {partKey : Part → Key} {f : Item → Option Part}
    (hkey : ∀ item part, f item = some part → partKey part = key item)
    (hnodup : (items.map key).Nodup) : ((items.filterMap f).map partKey).Nodup := by
  induction items with
  | nil => simp
  | cons item items ih =>
    rw [map_cons, nodup_cons] at hnodup
    cases hf : f item with
    | none =>
      rw [filterMap_cons_none hf]
      exact ih hnodup.2
    | some part =>
      rw [filterMap_cons_some hf, map_cons, nodup_cons]
      refine ⟨fun hmem => hnodup.1 ?_, ih hnodup.2⟩
      obtain ⟨other, hother, hsame⟩ := mem_map.mp hmem
      obtain ⟨source, hsource, hpart⟩ := mem_filterMap.mp hother
      rw [← hkey item part hf, ← hsame, hkey source other hpart]
      exact mem_map_of_mem hsource

theorem filter_key_cases [DecidableEq Key] (hnodup : (items.map key).Nodup) (wanted : Key) :
    (items.filter fun item => key item == wanted) = [] ∨
      ∃ item ∈ items, key item = wanted ∧
        (items.filter fun item => key item == wanted) = [item] := by
  by_cases hmem : ∃ item ∈ items, key item = wanted
  · obtain ⟨item, hitem, rfl⟩ := hmem
    obtain ⟨before, after, rfl⟩ := append_of_mem hitem
    refine Or.inr ⟨item, hitem, rfl, ?_⟩
    rw [map_append, map_cons, nodup_append, nodup_cons] at hnodup
    have hbefore : (before.filter fun other => key other == key item) = [] := by
      rw [filter_eq_nil_iff]
      intro other hother heq
      exact hnodup.2.2 _ (mem_map_of_mem hother) _ mem_cons_self (by simpa using heq)
    have hafter : (after.filter fun other => key other == key item) = [] := by
      rw [filter_eq_nil_iff]
      intro other hother heq
      refine hnodup.2.1.1 ?_
      rw [← (by simpa using heq : key other = key item)]
      exact mem_map_of_mem hother
    simp [filter_append, hbefore, hafter]
  · refine Or.inl (filter_eq_nil_iff.mpr fun item hitem heq => ?_)
    exact hmem ⟨item, hitem, by simpa using heq⟩

end KeyGroups
