import Mathlib.Algebra.BigOperators.Group.Finset.Basic
import Mathlib.Data.List.Sort
import Mathlib.Data.Prod.Lex

/-!
# One pass under a total and a per-kind quota

A list is walked once.  An element without a kind is always taken and uses no
place.  An element of a kind is taken while a place is left and its kind has
room.  The places taken and the verdict on a single element are closed
expressions in the kinds of the elements walked before it.

The second half walks the elements in the order of a key, ties in list order.
-/

namespace QuotaPass

open Function Nat List

universe u v w

variable {α : Type u} {Kind : Type v} [DecidableEq Kind]

def select (kind : α → Option Kind) : ℕ → (Kind → ℕ) → List α → List Bool
  | _, _, [] => []
  | places, room, element :: rest =>
    match kind element with
    | none => true :: select kind places room rest
    | some k =>
      if 0 < places ∧ 0 < room k then
        true :: select kind (places - 1) (Function.update room k (room k - 1)) rest
      else false :: select kind places room rest

def demand (room : Kind → ℕ) (kinds : List Kind) : ℕ :=
  ∑ k ∈ kinds.toFinset, min (kinds.count k) (room k)

def admits (places : ℕ) (room : Kind → ℕ) (earlier : List Kind) : Option Kind → Bool
  | none => true
  | some k => decide (demand room earlier < places ∧ earlier.count k < room k)

variable {kind : α → Option Kind} {places : ℕ} {room : Kind → ℕ}

@[simp] theorem demand_nil : demand room [] = 0 := rfl

theorem demand_eq_sum_insert (room : Kind → ℕ) (k : Kind) (kinds : List Kind) :
    demand room kinds = ∑ k' ∈ insert k kinds.toFinset, min (kinds.count k') (room k') := by
  rw [demand, Finset.sum_insert_of_eq_zero_if_notMem]
  intro hk
  rw [mem_toFinset] at hk
  simp [count_eq_zero_of_not_mem hk]

theorem demand_perm {kinds kinds' : List Kind} (hperm : kinds.Perm kinds') :
    demand room kinds = demand room kinds' := by
  unfold demand
  rw [toFinset_eq_of_perm _ _ hperm]
  exact Finset.sum_congr rfl fun k _ => by rw [hperm.count_eq]

variable {k : Kind} {xs : List α} {places' : ℕ} {γ : Type*}

theorem demand_cons_of_full (kinds : List Kind) (hfull : room k = 0) :
    demand room (k :: kinds) = demand room kinds := by
  rw [demand_eq_sum_insert room k kinds, demand, toFinset_cons]
  refine Finset.sum_congr rfl fun k' _ => ?_
  rcases eq_or_ne k' k with rfl | hne
  · simp [hfull]
  · rw [count_cons_of_ne hne.symm]

theorem demand_cons_of_room (kinds : List Kind) (hroom : 0 < room k) :
    demand room (k :: kinds) = demand (Function.update room k (room k - 1)) kinds + 1 := by
  have herase : k ∉ kinds.toFinset.erase k := Finset.notMem_erase k _
  have hinsert : insert k kinds.toFinset = insert k (kinds.toFinset.erase k) := by
    ext k'
    by_cases hk' : k' = k <;> simp [hk']
  rw [demand_eq_sum_insert _ k kinds, demand, toFinset_cons, hinsert, Finset.sum_insert herase,
    Finset.sum_insert herase, count_cons_self, update_self]
  have hrest : ∑ k' ∈ kinds.toFinset.erase k,
      min ((k :: kinds).count k') (room k') =
      ∑ k' ∈ kinds.toFinset.erase k, min (kinds.count k') (update room k (room k - 1) k') := by
    refine Finset.sum_congr rfl fun k' hk' => ?_
    have hne : k' ≠ k := Finset.ne_of_mem_erase hk'
    rw [count_cons_of_ne hne.symm, update_of_ne hne]
  omega

@[simp] theorem length_select (places : ℕ) (room : Kind → ℕ) (xs : List α) :
    (select kind places room xs).length = xs.length := by
  fun_induction select kind places room xs <;> simp_all

theorem select_zero (room : Kind → ℕ) (xs : List α) :
    select kind 0 room xs = xs.map fun x => (kind x).isNone := by
  induction xs with
  | nil => rfl
  | cons x xs ih => cases hkind : kind x <;> simp [select, hkind, ih]

theorem select_congr {room' : Kind → ℕ} (hroom : ∀ k ∈ xs.filterMap kind, room k = room' k) :
    select kind places room xs = select kind places room' xs := by
  induction xs generalizing places room room' with
  | nil => rfl
  | cons x xs ih =>
    cases hkind : kind x with
    | none =>
      rw [filterMap_cons_none hkind] at hroom
      simp only [select, hkind]
      rw [ih hroom]
    | some k =>
      rw [filterMap_cons_some hkind, forall_mem_cons] at hroom
      have htaken : ∀ k' ∈ xs.filterMap kind,
          update room k (room k - 1) k' = update room' k (room' k - 1) k' := by
        intro k' hk'
        simp only [update_apply, hroom.1, hroom.2 k' hk']
      simp only [select, hkind]
      rw [ih htaken, ih hroom.2, hroom.1]

theorem select_append (xs ys : List α) :
    select kind places room (xs ++ ys) =
      select kind places room xs ++
        select kind (places - demand room (xs.filterMap kind))
          (fun k => room k - (xs.filterMap kind).count k) ys := by
  induction xs generalizing places room with
  | nil => simp [select]
  | cons x xs ih =>
    cases hkind : kind x with
    | none => simp [select, hkind, ih]
    | some k =>
      rw [filterMap_cons_some hkind]
      by_cases htake : 0 < places ∧ 0 < room k
      · have hroom : (fun k' => update room k (room k - 1) k' -
            (xs.filterMap kind).count k') =
            fun k' => room k' - (k :: xs.filterMap kind).count k' := by
          funext k'
          rcases eq_or_ne k' k with rfl | hne
          · rw [update_self, count_cons_self]
            omega
          · rw [update_of_ne hne, count_cons_of_ne hne.symm]
        simp only [cons_append, select, hkind, htake, and_self, if_true]
        rw [ih, hroom, demand_cons_of_room _ htake.2, Nat.sub_sub, Nat.add_comm 1]
      · simp only [cons_append, select, hkind, htake, if_false, ih]
        rcases Nat.eq_zero_or_pos places with rfl | hplaces
        · simp [select_zero]
        · have hfull : room k = 0 := by
            by_contra hne
            exact htake ⟨hplaces, Nat.pos_of_ne_zero hne⟩
          rw [demand_cons_of_full _ hfull]
          congr 3
          funext k'
          rcases eq_or_ne k' k with rfl | hne
          · simp [hfull]
          · rw [count_cons_of_ne hne.symm]

theorem select_verdict (xs : List α) (y : α) (ys : List α) :
    (select kind places room (xs ++ y :: ys))[xs.length]? =
      some (admits places room (xs.filterMap kind) (kind y)) := by
  rw [select_append, getElem?_append_right (by rw [length_select]), length_select, Nat.sub_self]
  cases hkind : kind y with
  | none => simp [select, hkind, admits]
  | some k =>
    have hverdict : (0 < places - demand room (xs.filterMap kind) ∧
        0 < room k - (xs.filterMap kind).count k) ↔
        (demand room (xs.filterMap kind) < places ∧ (xs.filterMap kind).count k < room k) := by
      omega
    simp only [select, hkind, admits, ← hverdict]
    by_cases htake : 0 < places - demand room (xs.filterMap kind) ∧
        0 < room k - (xs.filterMap kind).count k
    · rw [if_pos htake, decide_eq_true htake]
      rfl
    · rw [if_neg htake, decide_eq_false htake]
      rfl

theorem countP_select (xs : List α) :
    (xs.zip (select kind places room xs)).countP
        (fun entry => (kind entry.1).isSome && entry.2) =
      min places (demand room (xs.filterMap kind)) := by
  induction xs generalizing places room with
  | nil => simp
  | cons x xs ih =>
    cases hkind : kind x with
    | none => simp [select, hkind, ih]
    | some k =>
      rw [filterMap_cons_some hkind]
      by_cases htake : 0 < places ∧ 0 < room k
      · rw [demand_cons_of_room _ htake.2]
        simp only [select, hkind, htake, and_self, if_true, zip_cons_cons]
        rw [countP_cons_of_pos (by simp [hkind]), ih]
        omega
      · simp only [select, hkind, htake, if_false, zip_cons_cons]
        rw [countP_cons_of_neg (by simp), ih]
        rcases Nat.eq_zero_or_pos places with rfl | hplaces
        · simp
        · have hfull : room k = 0 := by
            by_contra hne
            exact htake ⟨hplaces, Nat.pos_of_ne_zero hne⟩
          rw [demand_cons_of_full _ hfull]

theorem countP_select_kind_le (k : Kind) (xs : List α) :
    (xs.zip (select kind places room xs)).countP
        (fun entry => decide (kind entry.1 = some k) && entry.2) ≤ room k := by
  induction xs generalizing places room with
  | nil => simp
  | cons x xs ih =>
    cases hkind : kind x with
    | none =>
      simp only [select, hkind, zip_cons_cons]
      rw [countP_cons_of_neg (by simp [hkind])]
      exact ih
    | some k' =>
      by_cases htake : 0 < places ∧ 0 < room k'
      · simp only [select, hkind, htake, and_self, if_true, zip_cons_cons]
        have hrest := @ih (places - 1) (update room k' (room k' - 1))
        rcases eq_or_ne k k' with rfl | hne
        · rw [update_self] at hrest
          rw [countP_cons_of_pos (by simp [hkind])]
          omega
        · rw [update_of_ne hne] at hrest
          rw [countP_cons_of_neg (by simp [hkind, hne.symm])]
          exact hrest
      · simp only [select, hkind, htake, if_false, zip_cons_cons]
        rw [countP_cons_of_neg (by simp)]
        exact ih

theorem select_of_demand_le (hplaces : demand room (xs.filterMap kind) ≤ places)
    (hplaces' : demand room (xs.filterMap kind) ≤ places') :
    select kind places room xs = select kind places' room xs := by
  induction xs generalizing places places' room with
  | nil => rfl
  | cons x xs ih =>
    cases hkind : kind x with
    | none =>
      rw [filterMap_cons_none hkind] at hplaces hplaces'
      simp only [select, hkind]
      rw [ih hplaces hplaces']
    | some k =>
      rw [filterMap_cons_some hkind] at hplaces hplaces'
      rcases Nat.eq_zero_or_pos (room k) with hfull | hroom
      · rw [demand_cons_of_full _ hfull] at hplaces hplaces'
        simp only [select, hkind, hfull, lt_irrefl, and_false, if_false]
        rw [ih hplaces hplaces']
      · rw [demand_cons_of_room _ hroom] at hplaces hplaces'
        have hleft : 0 < places ∧ 0 < room k := ⟨by omega, hroom⟩
        have hright : 0 < places' ∧ 0 < room k := ⟨by omega, hroom⟩
        simp only [select, hkind, hleft, hright, and_self, if_true]
        rw [ih (le_sub_one_of_lt hplaces) (le_sub_one_of_lt hplaces')]

theorem select_eq_iff (hle : places ≤ places') (xs : List α) :
    select kind places room xs = select kind places' room xs ↔
      min places' (demand room (xs.filterMap kind)) ≤ places := by
  constructor
  · intro hselect
    have hcount := @countP_select _ _ _ kind places room xs
    rw [hselect, countP_select] at hcount
    omega
  · intro henough
    rcases le_total places' (demand room (xs.filterMap kind)) with hshort | hlong
    · rw [min_eq_left hshort] at henough
      rw [le_antisymm hle henough]
    · rw [min_eq_right hlong] at henough
      exact select_of_demand_le henough hlong

/-! ## Walking in the order of a key -/

variable {β : Type w} {κ : Type*} [LinearOrder κ] {key : α → κ}

/-- The elements with their positions, in the order of the key.  Equal keys
keep the order of the list. -/
def rank (key : α → κ) (xs : List α) : List (α × ℕ) :=
  xs.zipIdx.insertionSort fun a b => toLex (key a.1, a.2) ≤ toLex (key b.1, b.2)

def inRankOrder (key : α → κ) (pass : List α → List β) (xs : List α) : List (α × Option β) :=
  let ranked := rank key xs
  let verdicts := (ranked.map Prod.snd).zip (pass (ranked.map Prod.fst))
  xs.zipIdx.map fun entry => (entry.1, verdicts.lookup entry.2)

/-- The elements walked before `x`. -/
def ahead (key : α → κ) (before : List α) (x : α) (after : List α) : List α :=
  before.filter (fun y => key y ≤ key x) ++ after.filter (fun y => key y < key x)

section

variable (key : α → κ) (xs : List α)

theorem rank_perm : (rank key xs).Perm xs.zipIdx := perm_insertionSort _ _

theorem rank_fst_perm : ((rank key xs).map Prod.fst).Perm xs := by
  have hperm := (rank_perm key xs).map Prod.fst
  rwa [zipIdx_map_fst] at hperm

theorem rank_positions_nodup : ((rank key xs).map Prod.snd).Nodup := by
  rw [((rank_perm key xs).map Prod.snd).nodup_iff, zipIdx_map_snd]
  exact nodup_range'

theorem rank_pairwise :
    (rank key xs).Pairwise fun a b =>
      toLex (key a.1, a.2) ≤ toLex (key b.1, b.2) := by
  exact pairwise_insertionSort _ _

end

theorem map_fst_filter_zipIdx (q : α → Bool) (xs : List α) (start : ℕ) :
    ((xs.zipIdx start).filter fun entry => q entry.1).map Prod.fst =
      xs.filter q := by
  induction xs generalizing start with
  | nil => rfl
  | cons x xs ih =>
    cases hx : q x <;> simp [hx, ih]

theorem filter_lt_zipIdx (before : List α) (x : α) (after : List α) :
    (((before ++ x :: after).zipIdx.filter fun entry =>
        decide (toLex (key entry.1, entry.2) < toLex (key x, before.length))).map Prod.fst) =
      ahead key before x after := by
  rw [zipIdx_append, zipIdx_cons, filter_append, filter_cons_of_neg (by simp), map_append, ahead]
  congr 1
  · rw [← map_fst_filter_zipIdx _ before 0]
    congr 1
    refine filter_congr fun entry hentry => ?_
    have hposition : entry.2 < before.length := by
      have := snd_lt_of_mem_zipIdx hentry
      omega
    rw [decide_eq_decide, Prod.Lex.toLex_lt_toLex, le_iff_lt_or_eq]
    simp [hposition]
  · rw [← map_fst_filter_zipIdx _ after (0 + before.length + 1)]
    congr 1
    refine filter_congr fun entry hentry => ?_
    have hposition : ¬entry.2 < before.length := by
      have := le_snd_of_mem_zipIdx hentry
      omega
    rw [decide_eq_decide, Prod.Lex.toLex_lt_toLex]
    simp [hposition]

theorem rank_split (key : α → κ) (before : List α) (x : α) (after : List α) :
    ∃ front back, rank key (before ++ x :: after) = front ++ (x, before.length) :: back ∧
      (front.map Prod.fst).Perm (ahead key before x after) := by
  have hmem : (x, before.length) ∈ rank key (before ++ x :: after) := by
    rw [(rank_perm key _).mem_iff, zipIdx_append, zipIdx_cons]
    simp
  obtain ⟨front, back, hsplit⟩ := append_of_mem hmem
  refine ⟨front, back, hsplit, ?_⟩
  have hsorted := rank_pairwise key (before ++ x :: after)
  have hnodup := rank_positions_nodup key (before ++ x :: after)
  rw [hsplit, pairwise_append, pairwise_cons] at hsorted
  rw [hsplit, map_append, map_cons, nodup_append, nodup_cons] at hnodup
  have hfront : ∀ entry ∈ front, toLex (key entry.1, entry.2) < toLex (key x, before.length) := by
    intro entry hentry
    refine lt_of_le_of_ne (hsorted.2.2 entry hentry _ mem_cons_self) ?_
    intro heq
    exact hnodup.2.2 entry.2 (mem_map_of_mem hentry) before.length
      mem_cons_self (congrArg (fun pair => (ofLex pair).2) heq)
  have hback : ∀ entry ∈ back, ¬toLex (key entry.1, entry.2) < toLex (key x, before.length) :=
    fun entry hentry => not_lt_of_ge (hsorted.2.1.1 entry hentry)
  have hfilter : front = (rank key (before ++ x :: after)).filter fun entry =>
      decide (toLex (key entry.1, entry.2) < toLex (key x, before.length)) := by
    rw [hsplit, filter_append, filter_cons_of_neg (by simp), filter_eq_self.mpr (by
      simpa using hfront), filter_eq_nil_iff.mpr (by simpa using hback), append_nil]
  rw [← filter_lt_zipIdx, hfilter]
  exact ((rank_perm key _).filter _).map Prod.fst

theorem map_lookup_zip (entries : List (α × ℕ)) (ys : List β)
    (hnodup : (entries.map Prod.snd).Nodup) (hlength : ys.length = entries.length) :
    entries.map (fun entry => (entry.1, ((entries.map Prod.snd).zip ys).lookup entry.2)) =
      (entries.map Prod.fst).zip (ys.map some) := by
  induction entries generalizing ys with
  | nil => rfl
  | cons entry entries ih =>
    obtain ⟨y, ys, rfl⟩ := exists_cons_of_length_eq_add_one hlength
    rw [map_cons, nodup_cons] at hnodup
    simp only [map_cons, zip_cons_cons, lookup_cons, BEq.rfl]
    congr 1
    rw [← ih ys hnodup.2 (succ.inj hlength)]
    refine map_congr_left fun other hother => ?_
    have hne : other.2 ≠ entry.2 := by
      intro heq
      exact hnodup.1 (heq ▸ mem_map_of_mem hother)
    rw [beq_eq_false_iff_ne.mpr hne]

theorem inRankOrder_lookup (key : α → κ) (pass : List α → List β)
    (hpass : ∀ l, (pass l).length = l.length) (xs : List α) :
    (rank key xs).map (fun entry => (entry.1,
        (((rank key xs).map Prod.snd).zip
          (pass ((rank key xs).map Prod.fst))).lookup entry.2)) =
      ((rank key xs).map Prod.fst).zip
        ((pass ((rank key xs).map Prod.fst)).map some) :=
  map_lookup_zip _ _ (rank_positions_nodup key xs) (by rw [hpass, length_map])

variable {pass : List α → List β} {f : List α → α → List α → β}

theorem inRankOrder_perm (hpass : ∀ l, (pass l).length = l.length) (xs : List α) :
    (inRankOrder key pass xs).Perm
      (((rank key xs).map Prod.fst).zip
        ((pass ((rank key xs).map Prod.fst)).map some)) := by
  rw [← inRankOrder_lookup key pass hpass]
  exact ((rank_perm key xs).symm).map _

theorem inRankOrder_isSome (hpass : ∀ l, (pass l).length = l.length) {entry : α × Option β}
    (hentry : entry ∈ inRankOrder key pass xs) : ∃ verdict, entry.2 = some verdict := by
  rw [(inRankOrder_perm hpass xs).mem_iff] at hentry
  obtain ⟨verdict, _, hverdict⟩ := mem_map.mp (of_mem_zip hentry).2
  exact ⟨verdict, hverdict.symm⟩

@[simp] theorem map_fst_inRankOrder (key : α → κ) (pass : List α → List β)
    (xs : List α) : (inRankOrder key pass xs).map Prod.fst = xs := by
  simp [inRankOrder, comp_def, zipIdx_map_fst]

theorem inRankOrder_inj {pass' : List α → List β} (hpass : ∀ l, (pass l).length = l.length)
    (hpass' : ∀ l, (pass' l).length = l.length) (xs : List α) :
    inRankOrder key pass xs = inRankOrder key pass' xs ↔
      pass ((rank key xs).map Prod.fst) = pass' ((rank key xs).map Prod.fst) := by
  constructor
  · intro heq
    simp only [inRankOrder, map_inj_left] at heq
    have hranked := map_congr_left fun entry
      (hentry : entry ∈ rank key xs) => heq entry ((rank_perm key xs).mem_iff.mp hentry)
    rw [inRankOrder_lookup key pass hpass, inRankOrder_lookup key pass' hpass'] at hranked
    have hverdicts := congrArg (map Prod.snd) hranked
    rw [map_snd_zip (by simp [hpass]), map_snd_zip (by simp [hpass'])] at hverdicts
    exact map_injective_iff.mpr (Option.some_injective β) hverdicts
  · intro heq
    simp only [inRankOrder, heq]

theorem lookup_zip_map (f : β → γ) (positions : List ℕ) (ys : List β) (position : ℕ) :
    (positions.zip (ys.map f)).lookup position = ((positions.zip ys).lookup position).map f := by
  induction positions generalizing ys with
  | nil => rfl
  | cons head positions ih =>
    cases ys with
    | nil => rfl
    | cons y ys =>
      simp only [map_cons, zip_cons_cons, lookup_cons]
      cases position == head with
      | true => rfl
      | false => exact ih ys

theorem inRankOrder_map (f : β → γ) (pass : List α → List β) (xs : List α) :
    inRankOrder key (fun l => (pass l).map f) xs =
      (inRankOrder key pass xs).map fun entry =>
        (entry.1, entry.2.map f) := by
  simp [inRankOrder, lookup_zip_map]

theorem inRankOrder_verdict (key : α → κ) (hpass : ∀ l, (pass l).length = l.length)
    (before : List α) (x : α) (after : List α) :
    ∃ front back, front.Perm (ahead key before x after) ∧
      (inRankOrder key pass (before ++ x :: after))[before.length]? =
        some (x, (pass (front ++ x :: back))[front.length]?) := by
  obtain ⟨front, back, hsplit, hperm⟩ := rank_split key before x after
  refine ⟨front.map Prod.fst, back.map Prod.fst, hperm, ?_⟩
  have hlookup := inRankOrder_lookup key pass hpass (before ++ x :: after)
  have hfst : (rank key (before ++ x :: after)).map Prod.fst =
      front.map Prod.fst ++ x :: back.map Prod.fst := by
    rw [hsplit, map_append, map_cons]
  have hat := congrArg (fun l => l[front.length]?) hlookup
  simp only [getElem?_map] at hat
  have hentry : (rank key (before ++ x :: after))[front.length]? = some (x, before.length) := by
    rw [hsplit]
    simp
  rw [hentry, Option.map_some, hfst] at hat
  have hposition : ((before ++ x :: after).zipIdx)[before.length]? = some (x, before.length) := by
    simp
  obtain ⟨_, hverdict⟩ := getElem?_zip_eq_some.mp hat.symm
  rw [inRankOrder, getElem?_map, hposition, Option.map_some, hfst]
  rw [getElem?_map, Option.map_eq_some_iff] at hverdict
  obtain ⟨verdict, hpassed, heq⟩ := hverdict
  rw [length_map, hpassed, heq]

theorem admits_perm {earlier earlier' : List Kind} (hperm : earlier.Perm earlier')
    (k? : Option Kind) : admits places room earlier k? = admits places room earlier' k? := by
  cases k? with
  | none => rfl
  | some k => simp only [admits, demand_perm hperm, hperm.count_eq]

theorem inRankOrder_select (before : List α) (x : α) (after : List α) :
    (inRankOrder key (select kind places room) (before ++ x :: after))[before.length]? =
      some (x, some (admits places room ((ahead key before x after).filterMap kind) (kind x))) := by
  have hlength : ∀ l, (select kind places room l).length = l.length := length_select places room
  obtain ⟨front, back, hperm, hverdict⟩ := inRankOrder_verdict key hlength before x after
  rw [hverdict, select_verdict, admits_perm (hperm.filterMap kind)]

def withContext (f : List α → α → List α → β) : List α → List α → List β
  | _, [] => []
  | before, x :: after => f before x after :: withContext f (before ++ [x]) after

@[simp] theorem length_withContext (f : List α → α → List α → β)
    (before xs : List α) : (withContext f before xs).length = xs.length := by
  induction xs generalizing before with
  | nil => rfl
  | cons x xs ih => simp [withContext, ih]

theorem mem_withContext {before : List α} {y : β}
    (hy : y ∈ withContext f before xs) : ∃ front x after, y = f front x after := by
  induction xs generalizing before with
  | nil => simp [withContext] at hy
  | cons x xs ih =>
    cases mem_cons.mp hy with
    | inl hhead => exact ⟨before, x, xs, hhead⟩
    | inr htail => exact ih htail

theorem withContext_getElem? (f : List α → α → List α → β)
    (before front : List α) (x : α) (after : List α) :
    (withContext f before (front ++ x :: after))[front.length]? =
      some (f (before ++ front) x after) := by
  induction front generalizing before with
  | nil => simp [withContext]
  | cons y front ih =>
    rw [cons_append, withContext, length_cons, getElem?_cons_succ, ih, append_assoc]
    rfl

theorem eq_withContext {ys : List β} (hlength : ys.length = xs.length)
    (hat : ∀ front x after, xs = front ++ x :: after → ys[front.length]? = some (f
      front x after)) : ys = withContext f [] xs := by
  refine ext_getElem? fun i => ?_
  rcases lt_or_ge i xs.length with hlt | hge
  · have hsplit : xs = xs.take i ++ xs[i] :: xs.drop (i + 1) := by
      rw [cons_getElem_drop_succ, take_append_drop]
    have hfront : (xs.take i).length = i := length_take_of_le hlt.le
    have hleft := hat _ _ _ hsplit
    have hright := withContext_getElem? f [] (xs.take i) xs[i] (xs.drop (i + 1))
    rw [← hsplit, nil_append] at hright
    rw [hfront] at hleft hright
    rw [hleft, hright]
  · rw [getElem?_eq_none (by omega), getElem?_eq_none (by simpa)]

theorem filter_withContext {p : α → Bool} {q : β → Bool}
    (hq : ∀ before x after, q (f before x after) = p x)
    (hf : ∀ before x after, f before x after = f (before.filter p) x (after.filter p))
    (before xs : List α) :
    (withContext f before xs).filter q = withContext f (before.filter p) (xs.filter p) := by
  induction xs generalizing before with
  | nil => rfl
  | cons x xs ih =>
    simp only [withContext, filter_cons, hq, ih, filter_append]
    cases hx : p x with
    | false => simp
    | true => simp [withContext, hf before x xs]

theorem inRankOrder_select_eq (xs : List α) :
    inRankOrder key (select kind places room) xs =
      withContext (fun before x after => (x, some (admits places room
        ((ahead key before x after).filterMap kind) (kind x)))) [] xs := by
  refine eq_withContext (by simp [inRankOrder]) ?_
  rintro front x after rfl
  exact inRankOrder_select front x after

theorem filter_inRankOrder_select (key : α → κ) (kind : α → Option Kind)
    (places : ℕ) (room : Kind → ℕ) (xs : List α) :
    (inRankOrder key (select kind places room) xs).filter
        (fun entry => (kind entry.1).isSome) =
      inRankOrder key (select kind places room) (xs.filter fun x => (kind x).isSome) := by
  have hskip : ∀ l : List α,
      (l.filter fun x => (kind x).isSome).filterMap kind = l.filterMap kind := by
    intro l
    rw [filterMap_filter]
    refine filterMap_congr fun x _ => ?_
    cases kind x <;> rfl
  rw [inRankOrder_select_eq, inRankOrder_select_eq, filter_withContext]
  · rfl
  · exact fun _ _ _ => rfl
  · intro before x after
    have hfilter : ∀ (l : List α) (r : α → Bool),
        ((l.filter fun x => (kind x).isSome).filter r).filterMap kind =
          (l.filter r).filterMap kind := by
      intro l r
      rw [filter_comm, hskip]
    simp only [ahead, filterMap_append, hfilter]

end QuotaPass
