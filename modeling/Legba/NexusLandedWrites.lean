import Legba.NexusEdgeMirror

/-!
# What the tables hold of a run

No write is lost between the stores: a nexus whose names resolve leaves an
edge, one whose names do not leaves a parked pair, and one between two names of
one entity leaves neither.  Later writes close rows and refresh them, but leave
their keys.
-/

namespace Legba.Nexus

open KeyedTable LabelledRun Option Table

section

variable (text : TextFns) (terminals : String → List Uuid)

/-- The index columns of an open nexus. -/
def NexusRow.key (row : NexusRow) : String × String × String × String :=
  (text.lower row.subject, text.lower (row.intermediary.getD ""), text.lower row.object,
    text.lower row.relType)

/-- The primary key of a parked pair. -/
def NexusWrite.parkKey (w : NexusWrite) : String × String × String :=
  (text.lower w.subject, text.lower w.object, text.lower (w.canonicalType text))

/-- A store with the writes which landed in it. -/
structure History where
  store : Store
  landed : List NexusWrite

def historyStep (history : History) (w : NexusWrite) : Option History :=
  match insertNexus text terminals w history.store with
  | some next => some ⟨next, w :: history.landed⟩
  | none => some history

/-- The tables hold the nexuses of the landed writes, the edges of those whose
names resolve, and the pairs of those whose names do not. -/
structure HoldsLanded (history : History) : Prop where
  nexuses : history.store.nexuses.shows (NexusRow.key text) =
    {names | ∃ w ∈ history.landed, (w.row text).key text = names}
  edges : history.store.edges.shows EdgeRow.view =
    {seen | ∃ w ∈ history.landed, ∃ ends, w.ends text terminals = .ok ends ∧
      (w.edge text ends).view = seen}
  parked : ∀ key, (history.store.parked.row? key).isSome = true ↔
    ∃ w ∈ history.landed, (∃ reason ∈ parkReasons, w.ends text terminals = .error reason) ∧
      w.parkKey text = key

end

variable {text : TextFns} {terminals : String → List Uuid} {store next : Store} {w : NexusWrite}

theorem nexuses_insert (hinsert : insertNexus text terminals w store = some next) :
    next.nexuses.shows (NexusRow.key text) =
      insert ((w.row text).key text) (store.nexuses.shows (NexusRow.key text)) := by
  have hsuperseded : (supersedePriorNexuses text w.now (w.row text) w.rowId
      store.nexuses).shows (NexusRow.key text) = store.nexuses.shows (NexusRow.key text) :=
    shows_updateMatching _ _ fun _ => rfl
  have hupsert := (insertNexus_cases hinsert).1
  rw [← hsuperseded]
  unfold upsertNexus at hupsert
  split at hupsert
  · rename_i found hfound
    obtain ⟨hrow, hconflict⟩ := selectFirst_eq_some hfound
    simp only [nexusConflicts, sameNexus, Bool.and_eq_true, decide_eq_true_eq] at hconflict
    obtain ⟨_, ⟨⟨hsubject, hvia⟩, hobject⟩, htype⟩ := hconflict
    rw [← some.inj hupsert, Set.insert_eq_of_mem]
    · exact shows_update _ _ fun _ => rfl
    · exact ⟨found.1, by simp [hrow, NexusRow.key, hsubject, hvia, hobject, htype]⟩
  · split at hupsert
    · simp at hupsert
    · rename_i hfree
      rw [← some.inj hupsert]
      exact shows_put (by simpa using hfree) _

theorem shows_mirrorEdge {now : Datetime} {id : Uuid} {row : EdgeRow}
    {edges next : Table Uuid EdgeRow} (hmirror : mirrorEdge text now id row edges = some next) :
    next.shows EdgeRow.view = insert row.view (edges.shows EdgeRow.view) := by
  obtain ⟨upserted, landed, hupsert, rfl⟩ := mirrorEdge_eq_some.mp hmirror
  have hclosed : (closePriorEntityEdges text now row edges).1.shows EdgeRow.view =
      edges.shows EdgeRow.view := shows_updateMatching _ _ fun _ => rfl
  have hlinked : ∀ closed, (linkEdges closed landed upserted).shows EdgeRow.view =
      upserted.shows EdgeRow.view := fun _ => shows_updateMatching _ _ fun _ => rfl
  rw [hlinked, ← hclosed]
  rcases upsertEdge_cases hupsert with ⟨found, hfound, hconflict, rfl⟩ | ⟨rfl, hfree, rfl, -⟩
  · have hheld : openEdge? (closePriorEntityEdges text now row edges).1 landed = some found.view :=
      openEdge?_eq_some.mpr ⟨found, hfound, (edgeConflicts_iff.mp hconflict).2.1, rfl⟩
    rw [openEdge?_close] at hheld
    have hkept := (filter_eq_some_iff.mp hheld).2
    rw [Set.insert_eq_of_mem]
    · exact shows_update _ _ fun _ => rfl
    · exact ⟨landed, by rw [hfound, map_some, view_eq_of_conflict hconflict (by simpa using hkept)]⟩
  · exact shows_put hfree row

theorem isSome_park {reason : Outcome} {parked : Table (String × String × String) ParkedPair}
    {key : String × String × String} :
    ((w.park text terminals reason parked).row? key).isSome = true ↔
      w.parkKey text = key ∨ (parked.row? key).isSome = true := by
  obtain ⟨pair, hput⟩ : ∃ pair, w.park text terminals reason parked =
      parked.put (w.parkKey text) pair := by
    unfold NexusWrite.park
    dsimp only
    split <;> exact ⟨_, rfl⟩
  rw [hput]
  by_cases hkey : w.parkKey text = key
  · simp [hkey]
  · simp [row?_put_of_ne _ (Ne.symm hkey), hkey]

theorem parked_insert (hinsert : insertNexus text terminals w store = some next) :
    next.parked = match w.ends text terminals with
      | .ok _ => store.parked
      | .error reason =>
        if reason ∈ parkReasons then w.park text terminals reason store.parked
        else store.parked := by
  unfold insertNexus writeEntityEdgeForNexus at hinsert
  simp only [bind_eq_bind, pure_def, bind_eq_some_iff] at hinsert
  obtain ⟨written, hwritten, nexuses, _, hnext⟩ := hinsert
  obtain rfl := some.inj hnext
  cases hends : w.ends text terminals with
  | error reason =>
    by_cases hparks : reason ∈ parkReasons
    · simp only [hends, if_pos hparks] at hwritten ⊢
      rw [← some.inj hwritten]
    · simp only [hends, if_neg hparks] at hwritten ⊢
      rw [← some.inj hwritten]
  | ok ends =>
    simp only [hends, map_eq_some_iff] at hwritten
    obtain ⟨_, _, rfl⟩ := hwritten
    rfl

theorem HoldsLanded.insert {landed : List NexusWrite}
    (hholds : HoldsLanded text terminals ⟨store, landed⟩)
    (hinsert : insertNexus text terminals w store = some next) :
    HoldsLanded text terminals ⟨next, w :: landed⟩ where
  nexuses := by
    rw [nexuses_insert hinsert, hholds.nexuses]
    ext names
    simp [eq_comm]
  edges := by
    rcases (insertNexus_cases hinsert).2 with ⟨_, hends, hedges⟩ | ⟨ends, hends, hmirror⟩
    · simp [hedges, hholds.edges, hends]
    · rw [shows_mirrorEdge hmirror, hholds.edges]
      ext seen
      simp [hends, eq_comm]
  parked := by
    intro key
    have hold := hholds.parked key
    rw [parked_insert hinsert]
    cases hends : w.ends text terminals with
    | ok => simpa [hends] using hold
    | error reason =>
      by_cases hparks : reason ∈ parkReasons
      · simp [hparks, isSome_park, hold, hends]
      · simp [hparks, hold, hends]

/-- In every state of every run from the empty store the three tables hold
what the writes which landed say, and nothing else. -/
theorem tables_hold_landed_writes (text : TextFns) (terminals : String → List Uuid)
    (writes : List NexusWrite) :
    VisitsOnly (historyStep text terminals) (HoldsLanded text terminals)
      ⟨Store.empty, []⟩ writes := by
  refine visitsOnly_of_steps (fun _ => id) ?_ ?_ _
  · intro history w next hholds hstep
    unfold historyStep at hstep
    split at hstep
    · rename_i hinsert
      obtain rfl := some.inj hstep
      exact hholds.insert hinsert
    · obtain rfl := some.inj hstep
      exact hholds
  · constructor <;> simp [Store.empty, Table.shows]

end Legba.Nexus
