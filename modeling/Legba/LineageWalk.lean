import Legba.KeyedTable
import Legba.SignalRow

/-!
# The lineage walk

`validate_lineage` walks the `derived_from` columns of one table breadth
first.  The queue holds rows with their depth and the path they were found by;
a row is looked at once, a missing one is dangling, and an ancestor which lies
on the path closes a cycle.
-/

namespace Legba.Lineage

open KeyedTable List

structure LineageRow where
  targetId : Option String
  analystId : Option String
  derivedFrom : Option (List Uuid)

abbrev Rows := Table Uuid LineageRow

structure LineageNode where
  rowId : Uuid
  depth : ℕ
  targetId : Option String
  analystId : Option String
  derivedFrom : List Uuid
deriving DecidableEq

structure LineageReport where
  rootId : Uuid
  table : String
  nodes : List LineageNode
  cycles : List (List Uuid)
  dangling : List Uuid
  depthExhausted : Bool
  maxDepth : ℕ
deriving DecidableEq

def LineageReport.ok (report : LineageReport) : Bool :=
  !(!report.cycles.isEmpty || !report.dangling.isEmpty ||
    report.depthExhausted)

structure Walk where
  report : LineageReport
  visited : List Uuid
  queue : List (Uuid × ℕ × List Uuid)

def Walk.expand (walk : Walk) (row : LineageRow) (current : Uuid)
    (depth : ℕ) (path : List Uuid) (queue : List (Uuid × ℕ × List Uuid)) :
    Walk :=
  let derivedFrom := row.derivedFrom.getD []
  { report :=
      { walk.report with
        nodes := walk.report.nodes ++
          [⟨current, depth, row.targetId, row.analystId, derivedFrom⟩]
        cycles := walk.report.cycles ++
          (derivedFrom.filter (· ∈ path)).map fun ancestor =>
            path.drop (path.idxOf ancestor) ++ [ancestor] }
    visited := current :: walk.visited
    queue := queue ++
      (derivedFrom.filter (· ∉ path)).map fun ancestor =>
        (ancestor, depth + 1, path ++ [ancestor]) }

def Walk.look (rows : Rows) (walk : Walk) : Walk :=
  match walk.queue with
  | [] => walk
  | (current, depth, path) :: queue =>
    if walk.report.maxDepth < depth then
      { walk with
        report := { walk.report with depthExhausted := true }
        queue := queue }
    else if current ∈ walk.visited then { walk with queue := queue }
    else
      match rows.row? current with
      | none =>
        { report :=
            { walk.report with
              dangling := walk.report.dangling ++ [current] }
          visited := current :: walk.visited
          queue := queue }
      | some row => walk.expand row current depth path queue

def Walk.rounds (rows : Rows) : ℕ → Walk → Walk
  | 0, walk => walk
  | rounds + 1, walk => Walk.rounds rows rounds (walk.look rows)

def Walk.start (table : String) (rowId : Uuid) (maxDepth : ℕ) : Walk where
  report := ⟨rowId, table, [], [], [], false, maxDepth⟩
  visited := []
  queue := [(rowId, 0, [rowId])]

def roundsNeeded (rows : Rows) : ℕ :=
  1 + rows.sumOf fun _ row => (row.derivedFrom.getD []).length

def walkLineage (rows : Rows) (table : String) (rowId : Uuid) (maxDepth : ℕ) : Walk :=
  Walk.rounds rows (roundsNeeded rows) (Walk.start table rowId maxDepth)

/-- `_safe_table_name`; the end of the pattern may stand before a final line
feed. -/
def safeTableName (name : String) : Bool :=
  let chars := name.toList
  let body := if chars.getLast? = some '\n' then chars.dropLast else chars
  match body with
  | [] => false
  | head :: tail =>
    (head.isAlpha || head = '_') && tail.all fun char => char.isAlphanum || char = '_'

inductive LineageError where
  | unsafeTableName (table : String)

def validateLineage (tables : String → Rows) (table : String)
    (rowId : Uuid) (maxDepth : ℕ) : Except LineageError LineageReport :=
  if safeTableName table then
    .ok (walkLineage (tables table) table rowId maxDepth).report
  else .error (.unsafeTableName table)

def unvisited (rows : Rows) (visited : List Uuid) : ℕ :=
  rows.sumOf fun key row =>
    if key ∈ visited then 0 else (row.derivedFrom.getD []).length

theorem unvisited_cons (rows : Rows) {visited : List Uuid} {current : Uuid}
    (hnew : current ∉ visited) :
    unvisited rows (current :: visited) +
        ((rows.row? current).elim 0 fun row => (row.derivedFrom.getD []).length) =
      unvisited rows visited := by
  have hsame : ∀ key, key ≠ current → ∀ row : LineageRow,
      (if key ∈ current :: visited then 0
        else (row.derivedFrom.getD []).length) =
      if key ∈ visited then 0 else (row.derivedFrom.getD []).length := by
    intro key hkey row
    simp [hkey]
  have hexchange := rows.sumOf_exchange current hsame
  unfold unvisited
  cases hrow : rows.row? current <;> simpa [Table.weightAt, hrow, hnew] using hexchange

def Walk.remaining (rows : Rows) (walk : Walk) : ℕ :=
  walk.queue.length + unvisited rows walk.visited

theorem Walk.look_remaining (rows : Rows) {walk : Walk} (hqueue : walk.queue ≠ []) :
    (walk.look rows).remaining rows < walk.remaining rows := by
  obtain ⟨entry, queue, hcons⟩ := exists_cons_of_ne_nil hqueue
  obtain ⟨current, depth, path⟩ := entry
  unfold Walk.look Walk.remaining
  rw [hcons]
  simp only [length_cons]
  split
  · simp only
    omega
  · split
    · simp only
      omega
    · rename_i hnew
      have hcount := unvisited_cons rows hnew
      cases hrow : rows.row? current with
      | none =>
        simp only [hrow, Option.elim_none] at hcount
        simp only
        omega
      | some row =>
        simp only [hrow, Option.elim_some] at hcount
        have hfilter := length_filter_le (fun ancestor => decide (ancestor
          ∉ path)) (row.derivedFrom.getD [])
        simp only [Walk.expand, length_append, length_map]
        omega

theorem Walk.rounds_of_queue_nil (rows : Rows) {walk : Walk} (hqueue : walk.queue = [])
    (rounds : ℕ) : Walk.rounds rows rounds walk = walk := by
  induction rounds with
  | zero => rfl
  | succ rounds ih =>
    have hsame : walk.look rows = walk := by
      unfold Walk.look
      rw [hqueue]
    rw [Walk.rounds, hsame, ih]

theorem Walk.rounds_queue (rows : Rows) {rounds : ℕ} {walk : Walk}
    (hrounds : walk.remaining rows ≤ rounds) : (Walk.rounds rows rounds walk).queue = [] := by
  induction rounds generalizing walk with
  | zero =>
    unfold Walk.remaining at hrounds
    have hlength : walk.queue.length = 0 := by omega
    exact eq_nil_of_length_eq_zero hlength
  | succ rounds ih =>
    by_cases hqueue : walk.queue = []
    · rw [Walk.rounds_of_queue_nil rows hqueue]
      exact hqueue
    · have hless := Walk.look_remaining rows hqueue
      exact ih (by omega)

theorem walkLineage_queue (rows : Rows) (table : String) (rowId : Uuid)
    (maxDepth : ℕ) : (walkLineage rows table rowId maxDepth).queue = [] := by
  apply Walk.rounds_queue
  simp [Walk.remaining, Walk.start, unvisited, roundsNeeded]

end Legba.Lineage
