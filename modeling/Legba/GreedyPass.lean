import Mathlib.Data.List.Infix
import Mathlib.Data.List.Sort

/-!
# A greedy pass under a limit

A list is walked once.  An element is refused or kept, and what is refused
depends only on the elements kept before it.  The pass ends when it has kept
as many as the limit.

What the elements kept at one time satisfy is proved by the rule
`pass_induction`; `pass_verdict` says of a single element why it was left
out.
-/

namespace GreedyPass

open List

variable {α : Type*}

def pass (refuses : List α → α → Bool) (limit : ℤ) : List α → List α → List α
  | kept, [] => kept
  | kept, element :: rest =>
    if refuses kept element then pass refuses limit kept rest
    else if limit ≤ (kept.length : ℤ) + 1 then kept ++ [element]
    else pass refuses limit (kept ++ [element]) rest

variable {refuses : List α → α → Bool} {limit : ℤ}

variable {kept : List α} {element : α}

theorem pass_induction {P : List α → Prop}
    (hkeep : ∀ kept element, P kept → refuses kept element = false → P (kept ++ [element]))
    (hkept : P kept) (xs : List α) : P (pass refuses limit kept xs) := by
  induction xs generalizing kept with
  | nil => exact hkept
  | cons element rest ih =>
    rw [pass]
    split_ifs with hrefuses hlimit
    · exact ih hkept
    · exact hkeep kept element hkept (by simpa using hrefuses)
    · exact ih (hkeep kept element hkept (by simpa using hrefuses))

theorem pass_eq_append (refuses : List α → α → Bool) (limit : ℤ) (kept xs : List α) :
    ∃ taken, pass refuses limit kept xs = kept ++ taken ∧ taken.Sublist xs := by
  induction xs generalizing kept with
  | nil => exact ⟨[], (append_nil kept).symm, Sublist.refl []⟩
  | cons element rest ih =>
    rw [pass]
    split_ifs with hrefuses hlimit
    · obtain ⟨taken, htaken, hsublist⟩ := ih kept
      exact ⟨taken, htaken, hsublist.cons element⟩
    · exact ⟨[element], rfl, singleton_sublist.mpr mem_cons_self⟩
    · obtain ⟨taken, htaken, hsublist⟩ := ih (kept ++ [element])
      refine ⟨element :: taken, ?_, hsublist.cons_cons element⟩
      rw [htaken, append_assoc, singleton_append]

theorem pass_sublist (xs : List α) : (pass refuses limit [] xs).Sublist xs := by
  obtain ⟨taken, htaken, hsublist⟩ := pass_eq_append refuses limit [] xs
  rwa [htaken]

theorem prefix_pass (kept xs : List α) : kept <+: pass refuses limit kept xs := by
  obtain ⟨taken, htaken, -⟩ := pass_eq_append refuses limit kept xs
  exact ⟨taken, htaken.symm⟩

theorem length_pass_le (refuses : List α → α → Bool) (hkept : (kept.length : ℤ) < limit)
    (xs : List α) : ((pass refuses limit kept xs).length : ℤ) ≤ limit := by
  induction xs generalizing kept with
  | nil => exact hkept.le
  | cons element rest ih =>
    rw [pass]
    split_ifs with hrefuses hlimit
    · exact ih hkept
    · rw [length_append, length_singleton]
      omega
    · refine ih ?_
      rw [length_append, length_singleton]
      omega

theorem pass_verdict (refuses : List α → α → Bool) (limit : ℤ)
    (kept before : List α) (element : α) (after : List α) :
    ∃ earlier,
      earlier <+: pass refuses limit kept (before ++ element :: after) ∧
      (∀ other ∈ earlier, other ∈ kept ∨ other ∈ before) ∧
      (refuses earlier element = true ∨ limit ≤ earlier.length ∨
        earlier ++ [element] <+: pass refuses limit kept (before ++ element :: after)) := by
  induction before generalizing kept with
  | nil =>
    refine ⟨kept, prefix_pass kept _, fun other hother => .inl hother, ?_⟩
    rw [nil_append, pass]
    split_ifs with hrefuses hlimit
    · exact .inl hrefuses
    · exact .inr (.inr (prefix_refl _))
    · exact .inr (.inr (prefix_pass _ after))
  | cons first before ih =>
    rw [cons_append, pass]
    split_ifs with hrefuses hlimit
    · obtain ⟨earlier, hprefix, hmem, hverdict⟩ := ih kept
      refine ⟨earlier, hprefix, fun other hother => ?_, hverdict⟩
      exact (hmem other hother).imp_right (mem_cons_of_mem first)
    · refine ⟨kept ++ [first], prefix_refl _, ?_, .inr (.inl ?_)⟩
      · intro other hother
        rw [mem_append, mem_singleton] at hother
        refine hother.imp_right fun hfirst => ?_
        rw [hfirst]
        exact mem_cons_self
      · rw [length_append, length_singleton]
        omega
    · obtain ⟨earlier, hprefix, hmem, hverdict⟩ := ih (kept ++ [first])
      refine ⟨earlier, hprefix, fun other hother => ?_, hverdict⟩
      cases hmem other hother with
      | inl hkept =>
        rw [mem_append, mem_singleton] at hkept
        refine hkept.imp_right fun hfirst => ?_
        rw [hfirst]
        exact mem_cons_self
      | inr hbefore => exact .inr (mem_cons_of_mem first hbefore)

variable {Unit Group : Type*} [DecidableEq Unit] [DecidableEq Group]

def capped (unit : α → Unit) (group : α → Group) (cap : Option ℤ)
    (kept : List α) (element : α) : Bool :=
  decide (group element ∈ kept.map group) ||
    match cap with
    | none => false
    | some cap => decide (cap ≤ (kept.map unit).count (unit element))

variable {unit : α → Unit} {group : α → Group} {cap : Option ℤ}

theorem capped_eq_true :
    capped unit group cap kept element = true ↔
      group element ∈ kept.map group ∨
        ∃ bound, cap = some bound ∧ bound ≤ ((kept.map unit).count (unit element) : ℤ) := by
  cases cap <;> simp [capped]

theorem capped_eq_false :
    capped unit group cap kept element = false ↔
      group element ∉ kept.map group ∧
        ∀ bound, cap = some bound → ((kept.map unit).count (unit element) : ℤ) < bound := by
  cases cap <;> simp [capped]

theorem nodup_pass (unit : α → Unit) (group : α → Group) (cap : Option ℤ) (limit : ℤ)
    (xs : List α) : ((pass (capped unit group cap) limit [] xs).map group).Nodup := by
  refine pass_induction (P := fun kept => (kept.map group).Nodup) ?_ (by simp) xs
  intro kept element hkept hadmits
  rw [map_append, map_singleton, ← concat_eq_append]
  exact hkept.concat (capped_eq_false.mp hadmits).1

theorem count_pass_le (unit : α → Unit) (group : α → Group) (bound : ℤ) (limit : ℤ) (xs : List α) :
    ∀ element ∈ pass (capped unit group (some bound)) limit [] xs,
      (((pass (capped unit group (some bound)) limit [] xs).map unit).count
        (unit element) : ℤ) ≤ bound := by
  refine pass_induction (P := fun kept => ∀ element ∈ kept,
    ((kept.map unit).count (unit element) : ℤ) ≤ bound) ?_ (by simp) xs
  intro kept last hkept hadmits element helement
  have hroom := (capped_eq_false.mp hadmits).2 bound rfl
  rw [map_append, map_singleton, count_append, count_singleton]
  by_cases hunit : unit last = unit element
  · rw [hunit] at hroom
    simp only [hunit, beq_self_eq_true, if_true]
    omega
  · have hearlier : element ∈ kept := by
      rw [mem_append, mem_singleton] at helement
      exact helement.resolve_right fun heq => hunit (heq ▸ rfl)
    have hbound := hkept element hearlier
    simp only [beq_iff_eq, hunit, if_false]
    omega

variable {κ : Type*} [LinearOrder κ] {key : α → κ} {xs : List α}

theorem capped_verdict (unit : α → Unit) (group : α → Group) (cap : Option ℤ) (limit : ℤ)
    (hsorted : xs.Pairwise fun first second => key second ≤ key first) (hmem : element ∈ xs) :
    ∃ earlier tail,
      pass (capped unit group cap) limit [] xs = earlier ++ tail ∧
      (∀ other ∈ earlier, key element ≤ key other) ∧
      (capped unit group cap earlier element = true ∨
        limit ≤ earlier.length ∨ ∃ rest, tail = element :: rest) := by
  obtain ⟨before, after, rfl⟩ := append_of_mem hmem
  obtain ⟨earlier, ⟨tail, htail⟩, hearlier, hverdict⟩ :=
    pass_verdict (capped unit group cap) limit [] before element after
  refine ⟨earlier, tail, htail.symm, fun other hother => ?_, ?_⟩
  · have hbefore : other ∈ before := (hearlier other hother).resolve_left not_mem_nil
    exact (pairwise_append.mp hsorted).2.2 other hbefore element mem_cons_self
  · refine hverdict.imp_right fun hlater => hlater.imp_right fun hkept => ?_
    obtain ⟨rest, hrest⟩ := hkept
    refine ⟨rest, (append_right_inj earlier).mp ?_⟩
    rw [htail, ← hrest, append_assoc, singleton_append]

section

variable (hsorted : xs.Pairwise fun first second => key second ≤ key first)

include hsorted

theorem key_le_of_mem_pass
    (hunit : ∀ first second, group first = group second → unit first = unit second)
    (hlimit : 1 ≤ limit) {other : α} (hmem : element ∈ pass (capped unit group cap) limit [] xs)
    (hother : other ∈ xs) (hgroup : group other = group element) : key other ≤ key element := by
  by_contra hlater
  rw [not_le] at hlater
  obtain ⟨earlier, tail, hsplit, hearlier, hverdict⟩ :=
    capped_verdict unit group cap limit hsorted hother
  have hnodup := nodup_pass unit group cap limit xs
  have hzero : (([] : List α).length : ℤ) < limit := by
    rw [length_nil]
    omega
  have hlength := length_pass_le (capped unit group cap) hzero xs
  have htail : element ∈ tail := by
    rw [hsplit, mem_append] at hmem
    refine hmem.resolve_left fun hfirst => ?_
    exact absurd (hearlier element hfirst) (not_le_of_gt hlater)
  rw [hsplit, map_append, nodup_append] at hnodup
  rcases hverdict with hrefused | hfull | ⟨rest, rfl⟩
  · rw [capped_eq_true, hgroup, hunit _ _ hgroup] at hrefused
    rcases hrefused with hseen | ⟨bound, rfl, hfull⟩
    · exact hnodup.2.2 _ hseen _ (mem_map_of_mem htail) rfl
    · have hbound := count_pass_le unit group bound limit xs element hmem
      have hcount : 1 ≤ (tail.map unit).count (unit element) :=
        count_pos_iff.mpr (mem_map_of_mem htail)
      rw [hsplit, map_append, count_append] at hbound
      omega
  · rw [hsplit, length_append] at hlength
    have hpos := length_pos_of_mem htail
    omega
  · rcases mem_cons.mp htail with rfl | hrest
    · exact lt_irrefl _ hlater
    · rw [map_cons, nodup_cons, hgroup] at hnodup
      exact hnodup.2.1.1 (mem_map_of_mem hrest)

theorem full_of_notMem_pass (hmem : element ∈ xs)
    (homitted : group element ∉ (pass (capped unit group cap) limit [] xs).map group) :
    (∃ bound, cap = some bound ∧
        bound ≤ (pass (capped unit group cap) limit [] xs).countP
          fun kept => unit kept = unit element ∧ key element ≤ key kept) ∨
      limit ≤ (pass (capped unit group cap) limit [] xs).countP
        fun kept => key element ≤ key kept := by
  obtain ⟨earlier, tail, hsplit, hearlier, hverdict⟩ :=
    capped_verdict unit group cap limit hsorted hmem
  rw [hsplit] at homitted ⊢
  rw [map_append, mem_append, not_or] at homitted
  simp only [countP_append]
  rcases hverdict with hrefused | hfull | ⟨rest, rfl⟩
  · left
    obtain ⟨bound, hcap, hfull⟩ := (capped_eq_true.mp hrefused).resolve_left homitted.1
    refine ⟨bound, hcap, ?_⟩
    have hcount : (earlier.map unit).count (unit element) =
        earlier.countP fun kept =>
          decide (unit kept = unit element ∧ key element ≤ key kept) := by
      rw [count, countP_map]
      refine countP_congr fun other hother => ?_
      simp [hearlier other hother]
    omega
  · right
    have hall : earlier.countP (fun kept => decide (key element ≤ key kept)) = earlier.length := by
      rw [countP_eq_length]
      exact fun other hother => decide_eq_true (hearlier other hother)
    omega
  · exact absurd (mem_map_of_mem mem_cons_self) homitted.2

end

end GreedyPass
