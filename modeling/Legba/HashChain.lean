import Mathlib.Data.List.Induction
import Mathlib.Data.List.Nodup

/-!
# Chains of hashed records

A record carries its own hash and may name the hash of its predecessor.  The
records of a table form a graph through these names; a tip is a record no
other record names.  Appending a record which names a tip moves that tip and
no other.  The names and the hashes enter as the two parameters `hash` and
`prev`.
-/

namespace HashChain

open List

variable {Record Hash : Type*} (hash : Record → Hash) (prev : Record → Option Hash)

/-- Every record names the hash of the one before it, the first one `head`. -/
def PathFrom : Hash → List Record → Prop
  | _, [] => True
  | head, record :: rest => prev record = some head ∧ PathFrom (hash record) rest

def lastHash (head : Hash) (records : List Record) : Hash :=
  records.foldl (fun _ record => hash record) head

def namedHashes (records : List Record) : List Hash :=
  records.filterMap prev

/-- A record whose chain of names leads to `root`. -/
inductive Descends (records : List Record) (root : Hash) : Record → Prop where
  | child {record : Record} (hmem : record ∈ records)
      (hprev : prev record = some root) : Descends records root record
  | step {record parent : Record} (hmem : record ∈ records)
      (hprev : prev record = some (hash parent))
      (hparent : Descends records root parent) : Descends records root record

variable {hash prev}

@[simp] theorem lastHash_nil (head : Hash) : lastHash hash head [] = head := rfl

@[simp] theorem lastHash_append_singleton (head : Hash) (records : List Record)
    (record : Record) : lastHash hash head (records ++ [record]) = hash record := by
  simp [lastHash]

@[simp] theorem pathFrom_nil (head : Hash) : PathFrom hash prev head [] :=
  trivial

variable {head root : Hash} {records path : List Record} {record : Record}

theorem pathFrom_append_singleton :
    PathFrom hash prev head (records ++ [record]) ↔
      PathFrom hash prev head records ∧ prev record = some (lastHash hash head records) := by
  induction records generalizing head with
  | nil => simp [PathFrom]
  | cons first rest ih =>
    simp only [cons_append, PathFrom, ih, and_assoc]
    rfl

theorem mem_namedHashes {h : Hash} :
    h ∈ namedHashes prev records ↔ ∃ record ∈ records, prev record = some h :=
  mem_filterMap

theorem namedHashes_append (records : List Record) (record : Record) :
    namedHashes prev (records ++ [record]) = namedHashes prev records ++ (prev record).toList := by
  unfold namedHashes
  rw [filterMap_append]
  cases hprev : prev record with
  | none => simp [hprev]
  | some h => simp [hprev]

theorem Descends.mono {more : List Record} (hsub : ∀ r ∈ records, r ∈ more)
    (h : Descends hash prev records root record) : Descends hash prev more root record := by
  induction h with
  | child hmem hprev => exact .child (hsub _ hmem) hprev
  | step hmem hprev _ ih => exact .step (hsub _ hmem) hprev ih

theorem Descends.root_named (h : Descends hash prev records root record) :
    root ∈ namedHashes prev records := by
  induction h with
  | child hmem hprev => exact mem_namedHashes.mpr ⟨_, hmem, hprev⟩
  | step _ _ _ ih => exact ih

theorem Descends.mem_append_right {old more : List Record} (hroot : root ∉ namedHashes prev old)
    (hmore : ∀ r ∈ more, hash r ∉ namedHashes prev old)
    (h : Descends hash prev (old ++ more) root record) : record ∈ more := by
  induction h with
  | child hmem hprev =>
    cases mem_append.mp hmem with
    | inl hold => exact absurd (mem_namedHashes.mpr ⟨_, hold, hprev⟩) hroot
    | inr hin => exact hin
  | step hmem hprev _ ih =>
    cases mem_append.mp hmem with
    | inl hold => exact absurd (mem_namedHashes.mpr ⟨_, hold, hprev⟩) (hmore _ ih)
    | inr hin => exact hin

theorem lastHash_mem :
    lastHash hash head path = head ∨ lastHash hash head path ∈ path.map hash := by
  induction path using reverseRecOn with
  | nil => exact .inl rfl
  | append_singleton path last _ =>
    rw [lastHash_append_singleton]
    exact .inr (mem_map_of_mem (by simp))

theorem PathFrom.descends (hpath : PathFrom hash prev head path)
    (hrecord : record ∈ path) : Descends hash prev path head record := by
  induction path using reverseRecOn generalizing record with
  | nil => simp at hrecord
  | append_singleton path last ih =>
    obtain ⟨hpath, hlast⟩ := pathFrom_append_singleton.mp hpath
    have hold : ∀ r ∈ path, Descends hash prev (path ++ [last]) head r :=
      fun r hr => (ih hpath hr).mono fun x hx => mem_append_left _ hx
    cases mem_append.mp hrecord with
    | inl hmem => exact hold record hmem
    | inr hmem =>
      rw [mem_singleton] at hmem
      subst record
      have hin : last ∈ path ++ [last] := by simp
      have hcases : lastHash hash head path = head ∨
          lastHash hash head path ∈ path.map hash := lastHash_mem
      cases hcases with
      | inl hhead => exact .child hin (by rw [hlast, hhead])
      | inr hmem =>
        obtain ⟨parent, hparent, heq⟩ := mem_map.mp hmem
        exact .step hin (by rw [hlast, heq]) (hold parent hparent)

theorem PathFrom.after {earlier later : List Record}
    (hpath : PathFrom hash prev head (earlier ++ record :: later)) :
    PathFrom hash prev (hash record) later := by
  induction earlier generalizing head with
  | nil => exact hpath.2
  | cons first earlier ih => exact ih hpath.2

theorem PathFrom.last_descends (hpath : PathFrom hash prev head path)
    {last : Record} (hlast : path.getLast? = some last) (hrecord : record ∈ path)
    (hne : record ≠ last) : Descends hash prev path (hash record) last := by
  obtain ⟨earlier, later, hsplit⟩ := append_of_mem hrecord
  subst hsplit
  have hlater : last ∈ later := by
    cases later with
    | nil =>
      rw [getLast?_concat, Option.some.injEq] at hlast
      exact absurd hlast hne
    | cons next later =>
      rw [getLast?_append_cons, getLast?_cons_cons] at hlast
      exact mem_of_getLast? hlast
  have hdesc := hpath.after.descends hlater
  exact hdesc.mono fun r hr => by simp [hr]

theorem PathFrom.named (hpath : PathFrom hash prev head path) (hrecord : record ∈ path)
    (hlast : hash record ≠ lastHash hash head path) : hash record ∈ namedHashes prev path := by
  induction path using reverseRecOn with
  | nil => simp at hrecord
  | append_singleton path last ih =>
    rw [lastHash_append_singleton] at hlast
    obtain ⟨hpath, hname⟩ := pathFrom_append_singleton.mp hpath
    rw [namedHashes_append, hname, mem_append]
    cases mem_append.mp hrecord with
    | inl hmem =>
      by_cases hend : hash record = lastHash hash head path
      · exact .inr (by simp [hend])
      · exact .inl (ih hpath hmem hend)
    | inr hmem =>
      rw [mem_singleton] at hmem
      exact absurd (by rw [hmem]) hlast

section

variable [DecidableEq Hash] (hash prev)

def tips (records : List Record) : List Record :=
  records.filter fun record => decide (hash record ∉ namedHashes prev records)

variable {hash prev}

variable {records : List Record} {record : Record}

theorem mem_tips :
    record ∈ tips hash prev records ↔
      record ∈ records ∧ hash record ∉ namedHashes prev records := by
  simp [tips]

theorem tips_append (hfresh : hash record ∉ namedHashes prev (records ++ [record])) :
    tips hash prev (records ++ [record]) =
      (tips hash prev records).filter
        (fun tip => decide (prev record ≠ some (hash tip))) ++ [record] := by
  unfold tips
  rw [filter_append, filter_filter]
  congr 1
  · apply filter_congr
    intro tip _
    rw [namedHashes_append, ← Bool.decide_and]
    apply decide_eq_decide.mpr
    cases hprev : prev record with
    | none => simp
    | some h => simp [eq_comm, and_comm]
  · simp [hfresh]

theorem filter_ne_of_nodup (hnodup : (records.map hash).Nodup) (hrecord : record ∈ records) :
    (records.filter fun r => decide (hash r ≠ hash record)).length + 1 = records.length := by
  induction records with
  | nil => simp at hrecord
  | cons first rest ih =>
    rw [map_cons, nodup_cons] at hnodup
    cases mem_cons.mp hrecord with
    | inl hfirst =>
      subst hfirst
      have hrest : rest.filter (fun r => decide (hash r ≠ hash record)) =
          rest := by
        apply filter_eq_self.mpr
        intro r hr
        rw [decide_eq_true_eq]
        intro heq
        exact hnodup.1 (heq ▸ mem_map_of_mem hr)
      rw [filter_cons_of_neg (by simp), hrest, length_cons]
    | inr hrest =>
      have hne : hash first ≠ hash record := by
        intro heq
        exact hnodup.1 (heq ▸ mem_map_of_mem hrest)
      rw [filter_cons_of_pos (by simpa using hne), length_cons, length_cons, ih hnodup.2 hrest]

theorem length_tips_append {tip : Record} (hnodup : (records.map hash).Nodup)
    (hfresh : hash record ∉ namedHashes prev (records ++ [record]))
    (htip : tip ∈ tips hash prev records) (hprev : prev record = some (hash tip)) :
    (tips hash prev (records ++ [record])).length = (tips hash prev records).length := by
  have htips : ((tips hash prev records).map hash).Nodup :=
    hnodup.sublist (Sublist.map _ filter_sublist)
  rw [tips_append hfresh, length_append, length_singleton, ← filter_ne_of_nodup htips htip]
  congr 2
  apply filter_congr
  intro other _
  rw [hprev]
  apply decide_eq_decide.mpr
  rw [ne_eq, Option.some.injEq, ne_eq, eq_comm]

end

end HashChain
