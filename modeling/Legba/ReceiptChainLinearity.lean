import Legba.LabelledRun
import Legba.ReceiptChain

/-!
# The in-process chain is linear

Whatever the interleaving and whichever statements raise, the rows one process
writes for an analyst form one path from the head its table held.  The
invariant ties the cached head to the last row written: they differ only
while a call sits between its INSERT and the move of the head, and the lock
admits one such call for each analyst.
-/

namespace Legba.Receipts

open HashChain LabelledRun Option Function List

def PhaseFact (rows : List TraceRow) (cached : Option String) (head : String)
    (analystId : String) : Phase → Prop
  | .waiting => True
  | .selectingTip => cached = none
  | .tipRead tip => cached = none ∧ tip = newestTip rows analystId
  | .selectingLatest => cached = none ∧ newestTip rows analystId = none
  | .latestRead latest =>
    cached = none ∧ newestTip rows analystId = none ∧ latest = newestRow rows analystId
  | .counting => cached = some head
  | .countRead _ => cached = some head
  | .inserting run prev _ => cached = some head ∧ prev = head ∧ run.analystId = analystId
  | .inserted run prev receipt => cached = some prev ∧ receipt = head ∧ run.analystId = analystId

section

variable {Task : Type*}

def HeadPending (s : System Task) (analystId : String) : Prop :=
  ∃ task c, s.running task = some c ∧ c.analystId = analystId ∧ c.phase.isInserted = true

structure AnalystInv (start : List TraceRow) (s : System Task) (analystId : String) : Prop where
  linear : IsLinear start (rowsSince start s.rows) analystId
  unhydrated : s.heads analystId = none → own (rowsSince start s.rows) analystId = []
  cached : ∀ head, s.heads analystId = some head →
    head = chainHead start (rowsSince start s.rows) analystId ∨ HeadPending s analystId

structure Inv (start : List TraceRow) (s : System Task) : Prop where
  rows : s.rows = start ++ rowsSince start s.rows
  analyst : ∀ analystId, AnalystInv start s analystId
  lockFresh : ∀ analystId lock, s.lockOf analystId = some lock → lock < s.nextLock
  lockInj : ∀ analystId other lock, s.lockOf analystId = some lock →
    s.lockOf other = some lock → analystId = other
  lockOf : ∀ task c, s.running task = some c → s.lockOf c.analystId = some c.lock
  held : ∀ task c, s.running task = some c → c.phase ≠ .waiting → s.holder c.lock = some task
  facts : ∀ task c, s.running task = some c →
    PhaseFact s.rows (s.heads c.analystId)
      (chainHead start (rowsSince start s.rows) c.analystId) c.analystId c.phase

theorem inv_initial (start : List TraceRow) : Inv start (System.initial start : System Task) where
  rows := by simp [System.initial, rowsSince]
  analyst := by
    intro analystId
    exact
      { linear := by simp [System.initial, rowsSince, IsLinear, own]
        unhydrated := by simp [System.initial, rowsSince, own]
        cached := fun _ hhead => absurd hhead (by simp [System.initial]) }
  lockFresh := fun _ _ hlock => absurd hlock (by simp [System.initial])
  lockInj := fun _ _ _ hlock => absurd hlock (by simp [System.initial])
  lockOf := fun _ _ hrun => absurd hrun (by simp [System.initial])
  held := fun _ _ hrun => absurd hrun (by simp [System.initial])
  facts := fun _ _ hrun => absurd hrun (by simp [System.initial])

/-! ## Steps of one call -/

/-- A step of `task` touches only what belongs to its analyst and its lock. -/
structure LocalStep (s next : System Task) (task : Task) (c : Coroutine) : Prop where
  rows : ∃ more, next.rows = s.rows ++ more ∧ ∀ row ∈ more, row.analystId = c.analystId
  heads : ∀ other, other ≠ c.analystId → next.heads other = s.heads other
  lockOf : next.lockOf = s.lockOf
  nextLock : next.nextLock = s.nextLock
  holder : ∀ lock, lock ≠ c.lock → next.holder lock = s.holder lock
  running : ∀ other, other ≠ task → next.running other = s.running other

def Settles (start : List TraceRow) (next : System Task) (task : Task) (c : Coroutine) : Prop :=
  next.running task = none ∨
    ∃ phase, next.running task = some { c with phase } ∧
      next.holder c.lock = some task ∧
      PhaseFact next.rows (next.heads c.analystId)
        (chainHead start (rowsSince start next.rows) c.analystId) c.analystId phase

variable {s next : System Task} {task : Task} {c : Coroutine}
  {start : List TraceRow} {head analystId : String}

theorem own_eq_of_local (hlocal : LocalStep s next task c)
    (hrows : s.rows = start ++ rowsSince start s.rows) {other : String}
    (hother : other ≠ c.analystId) :
    own next.rows other = own s.rows other ∧
      own (rowsSince start next.rows) other = own (rowsSince start s.rows) other := by
  obtain ⟨more, hnext, hmore⟩ := hlocal.rows
  have hnone : own more other = [] := by
    unfold own
    rw [filter_eq_nil_iff]
    intro row hrow
    rw [hmore row hrow, decide_eq_true_eq]
    exact fun heq => hother heq.symm
  rw [rowsSince_append hrows hnext, hnext, own_append, own_append, hnone,
    append_nil, append_nil]
  exact ⟨rfl, rfl⟩

theorem PhaseFact.congr {rows rows' : List TraceRow} {cached : Option String}
    {phase : Phase} (hown : own rows' analystId = own rows analystId)
    (h : PhaseFact rows cached head analystId phase) :
    PhaseFact rows' cached head analystId phase := by
  cases phase with
  | tipRead tip => exact ⟨h.1, h.2.trans (newestTip_congr hown).symm⟩
  | selectingLatest => exact ⟨h.1, (newestTip_congr hown).trans h.2⟩
  | latestRead latest =>
    exact ⟨h.1, (newestTip_congr hown).trans h.2.1, h.2.2.trans (newestRow_congr hown).symm⟩
  | _ => exact h

section

variable (hinv : Inv start s) {other : Task} {c' : Coroutine}
  (hrun : s.running task = some c) (hother : s.running other = some c')

include hinv hrun hother

theorem Inv.others_wait (hanalyst : c'.analystId = c.analystId) (hne : other ≠ task)
    (hfree : s.holder c.lock = none ∨ s.holder c.lock = some task) : c'.phase = .waiting := by
  by_contra hphase
  have hlock : c'.lock = c.lock := by
    have hlocks := hinv.lockOf other c' hother
    rw [hanalyst, hinv.lockOf task c hrun, some.injEq] at hlocks
    exact hlocks.symm
  have hheld := hinv.held other c' hother hphase
  rw [hlock] at hheld
  cases hfree with
  | inl hnone => simp [hnone] at hheld
  | inr hsome =>
    rw [hsome, some.injEq] at hheld
    exact hne hheld.symm

theorem Inv.lock_ne (hanalyst : c'.analystId ≠ c.analystId) : c'.lock ≠ c.lock := by
  intro hlock
  have hlocks := hinv.lockOf other c' hother
  rw [hlock] at hlocks
  exact hanalyst (hinv.lockInj _ _ _ hlocks (hinv.lockOf task c hrun))

end

theorem HeadPending.of_local (hrun : s.running task = some c) (hlocal : LocalStep s next task c)
    {other : String} (hother : other ≠ c.analystId) (h : HeadPending s other) :
    HeadPending next other := by
  obtain ⟨t, c', hrun', hanalyst, hphase⟩ := h
  have hne : t ≠ task := by
    intro heq
    rw [heq, hrun, some.injEq] at hrun'
    exact hother (by rw [← hanalyst, hrun'])
  exact ⟨t, c', (hlocal.running t hne).trans hrun', hanalyst, hphase⟩

theorem Inv.of_local (hinv : Inv start s) (hrun : s.running task = some c)
    (hfree : s.holder c.lock = none ∨ s.holder c.lock = some task)
    (hlocal : LocalStep s next task c) (hown : AnalystInv start next c.analystId)
    (hsettles : Settles start next task c) : Inv start next := by
  have hmine : ∀ c', next.running task = some c' →
      c'.call = c.call ∧ c'.lock = c.lock ∧
        next.holder c.lock = some task ∧
        PhaseFact next.rows (next.heads c.analystId)
          (chainHead start (rowsSince start next.rows) c.analystId) c.analystId
          c'.phase := by
    intro c' hc'
    cases hsettles with
    | inl hnone => simp [hnone] at hc'
    | inr hsome =>
      obtain ⟨phase, hphase, hholder, hfact⟩ := hsome
      rw [hphase, some.injEq] at hc'
      rw [← hc']
      exact ⟨rfl, rfl, hholder, hfact⟩
  exact
    { rows := by
        obtain ⟨more, hnext, _⟩ := hlocal.rows
        rw [rowsSince_append hinv.rows hnext, hnext, ← append_assoc, ← hinv.rows]
      analyst := by
        intro other
        by_cases hother : other = c.analystId
        · rw [hother]
          exact hown
        · have hrows := own_eq_of_local hlocal hinv.rows hother
          have hold := hinv.analyst other
          exact
            { linear := by
                unfold IsLinear
                rw [hrows.2]
                exact hold.linear
              unhydrated := by
                rw [hlocal.heads other hother, hrows.2]
                exact hold.unhydrated
              cached := by
                intro head hhead
                rw [hlocal.heads other hother] at hhead
                unfold chainHead
                rw [hrows.2]
                exact (hold.cached head hhead).imp_right (HeadPending.of_local hrun hlocal hother) }
      lockFresh := by
        rw [hlocal.lockOf, hlocal.nextLock]
        exact hinv.lockFresh
      lockInj := by
        rw [hlocal.lockOf]
        exact hinv.lockInj
      lockOf := by
        intro t c' hc'
        rw [hlocal.lockOf]
        by_cases ht : t = task
        · rw [ht] at hc'
          have hsame := hmine c' hc'
          unfold Coroutine.analystId
          rw [hsame.1, hsame.2.1]
          exact hinv.lockOf task c hrun
        · rw [hlocal.running t ht] at hc'
          exact hinv.lockOf t c' hc'
      held := by
        intro t c' hc' hphase
        by_cases ht : t = task
        · rw [ht] at hc' ⊢
          have hsame := hmine c' hc'
          rw [hsame.2.1]
          exact hsame.2.2.1
        · rw [hlocal.running t ht] at hc'
          by_cases hanalyst : c'.analystId = c.analystId
          · exact absurd (hinv.others_wait hrun hc' hanalyst ht hfree) hphase
          · rw [hlocal.holder _ (hinv.lock_ne hrun hc' hanalyst)]
            exact hinv.held t c' hc' hphase
      facts := by
        intro t c' hc'
        by_cases ht : t = task
        · rw [ht] at hc'
          have hsame := hmine c' hc'
          unfold Coroutine.analystId
          rw [hsame.1]
          exact hsame.2.2.2
        · rw [hlocal.running t ht] at hc'
          by_cases hanalyst : c'.analystId = c.analystId
          · rw [hinv.others_wait hrun hc' hanalyst ht hfree]
            trivial
          · have hrows := own_eq_of_local hlocal hinv.rows hanalyst
            rw [hlocal.heads _ hanalyst]
            unfold chainHead
            rw [hrows.2]
            exact (hinv.facts t c' hc').congr hrows.1 }

theorem LocalStep.trans {middle : System Task} (hfirst : LocalStep s middle task c)
    (hsecond : LocalStep middle next task c) : LocalStep s next task c where
  rows := by
    obtain ⟨more, hmiddle, hmore⟩ := hfirst.rows
    obtain ⟨more', hnext, hmore'⟩ := hsecond.rows
    have hall : ∀ row ∈ more ++ more', row.analystId = c.analystId := by
      intro row hrow
      cases mem_append.mp hrow with
      | inl hleft => exact hmore row hleft
      | inr hright => exact hmore' row hright
    exact ⟨more ++ more', by rw [hnext, hmiddle, append_assoc], hall⟩
  heads := fun other hother => (hsecond.heads other hother).trans (hfirst.heads other hother)
  lockOf := hsecond.lockOf.trans hfirst.lockOf
  nextLock := hsecond.nextLock.trans hfirst.nextLock
  holder := fun lock hlock => (hsecond.holder lock hlock).trans (hfirst.holder lock hlock)
  running := fun other hother => (hsecond.running other hother).trans (hfirst.running other hother)

section

variable (s : System Task) (task : Task) (c : Coroutine)

theorem localStep_setHead (head : String) : LocalStep s (s.setHead c.analystId head) task c where
  rows := ⟨[], by simp [System.setHead], by simp⟩
  heads := fun _ hother => update_of_ne hother _ _
  lockOf := rfl
  nextLock := rfl
  holder := fun _ _ => rfl
  running := fun _ _ => rfl

theorem localStep_setCount (count : ℕ) : LocalStep s (s.setCount c.analystId count) task c where
  rows := ⟨[], by simp [System.setCount], by simp⟩
  heads := fun _ _ => rfl
  lockOf := rfl
  nextLock := rfl
  holder := fun _ _ => rfl
  running := fun _ _ => rfl

theorem localStep_take :
    LocalStep s
      { s with holder := Function.update s.holder c.lock (some task) }
      task c where
  rows := ⟨[], by simp, by simp⟩
  heads := fun _ _ => rfl
  lockOf := rfl
  nextLock := rfl
  holder := fun _ hlock => update_of_ne hlock _ _
  running := fun _ _ => rfl

theorem localStep_append {row : TraceRow} (hrow : row.analystId = c.analystId) :
    LocalStep s { s with rows := s.rows ++ [row] } task c where
  rows := ⟨[row], rfl, by simp [hrow]⟩
  heads := fun _ _ => rfl
  lockOf := rfl
  nextLock := rfl
  holder := fun _ _ => rfl
  running := fun _ _ => rfl

end

theorem Inv.cached_exact (hinv : Inv start s) (hrun : s.running task = some c)
    (hfree : s.holder c.lock = none ∨ s.holder c.lock = some task)
    (hphase : c.phase.isInserted = false) (hhead : s.heads c.analystId = some head) :
    head = chainHead start (rowsSince start s.rows) c.analystId := by
  cases (hinv.analyst c.analystId).cached head hhead with
  | inl hexact => exact hexact
  | inr hpending =>
    obtain ⟨t, c', hrun', hanalyst, hinserted⟩ := hpending
    by_cases ht : t = task
    · rw [ht, hrun, some.injEq] at hrun'
      rw [← hrun', hphase] at hinserted
      simp at hinserted
    · rw [hinv.others_wait hrun hrun' hanalyst ht hfree] at hinserted
      exact absurd hinserted (by simp [Phase.isInserted])

theorem Inv.storedHead_eq (hinv : Inv start s) (hhead : s.heads analystId = none) :
    storedHead s.rows analystId = chainHead start (rowsSince start s.rows) analystId := by
  have hnone := (hinv.analyst analystId).unhydrated hhead
  have hown : own s.rows analystId = own start analystId := by
    rw [hinv.rows, own_append, hnone, append_nil]
  unfold chainHead
  rw [hnone, storedHead_congr hown, lastHash_nil]

theorem analystInv_of_exact (hinv : Inv start s) (hrows : next.rows = s.rows)
    (hunhydrated : next.heads analystId = none → s.heads analystId = none)
    (hexact : ∀ head, next.heads analystId = some head → head = chainHead start
      (rowsSince start s.rows) analystId) : AnalystInv start next analystId := by
  have hnew : rowsSince start next.rows = rowsSince start s.rows := by rw [hrows]
  have hold := hinv.analyst analystId
  exact
    { linear := by
        rw [hnew]
        exact hold.linear
      unhydrated := by
        rw [hnew]
        exact fun hnone => hold.unhydrated (hunhydrated hnone)
      cached := by
        rw [hnew]
        exact fun head hhead => .inl (hexact head hhead) }

/-- What `_lock` returns and what it may change. -/
structure LockSpec (s : System Task) (analystId : String) (lock : ℕ)
    (next : System Task) : Prop where
  rows : next.rows = s.rows
  heads : next.heads = s.heads
  holder : next.holder = s.holder
  running : next.running = s.running
  found : next.lockOf analystId = some lock
  kept : ∀ other lock', s.lockOf other = some lock' → next.lockOf other = some lock'
  fresh : ∀ other lock', next.lockOf other = some lock' → lock' < next.nextLock
  inj : ∀ other other' lock', next.lockOf other = some lock' →
    next.lockOf other' = some lock' → other = other'

theorem lock_spec (hinv : Inv start s) (analystId : String) :
    LockSpec s analystId (s.lock analystId).1 (s.lock analystId).2 := by
  unfold System.lock
  cases hlock : s.lockOf analystId with
  | some lock =>
    exact
      { rows := rfl
        heads := rfl
        holder := rfl
        running := rfl
        found := hlock
        kept := fun _ _ h => h
        fresh := hinv.lockFresh
        inj := hinv.lockInj }
  | none =>
    exact
      { rows := rfl
        heads := rfl
        holder := rfl
        running := rfl
        found := update_self ..
        kept := by
          intro other lock' h
          have hne : other ≠ analystId := by
            intro heq
            rw [heq, hlock] at h
            simp at h
          exact (update_of_ne hne _ _).trans h
        fresh := by
          intro other lock' h
          cases update_eq_some.mp h with
          | inl hnew => exact hnew.2 ▸ Nat.lt_succ_self _
          | inr hold => exact Nat.lt_succ_of_lt (hinv.lockFresh _ _ hold.2)
        inj := by
          intro other other' lock' h h'
          cases update_eq_some.mp h with
          | inl hnew =>
            cases update_eq_some.mp h' with
            | inl hnew' => rw [hnew.1, hnew'.1]
            | inr hold' =>
              have hlt := hinv.lockFresh _ _ hold'.2
              rw [hnew.2] at hlt
              exact absurd hlt (lt_irrefl _)
          | inr hold =>
            cases update_eq_some.mp h' with
            | inl hnew' =>
              have hlt := hinv.lockFresh _ _ hold.2
              rw [hnew'.2] at hlt
              exact absurd hlt (lt_irrefl _)
            | inr hold' => exact hinv.lockInj _ _ _ hold.2 hold'.2 }

theorem Inv.cached_or_pending (hinv : Inv start s) (hhead : s.heads analystId = some head) :
    head = chainHead start (rowsSince start s.rows) analystId ∨
      ∃ task c run receipt, s.running task = some c ∧
        c.analystId = analystId ∧ c.phase = .inserted run head receipt ∧
        receipt = chainHead start (rowsSince start s.rows) analystId := by
  refine ((hinv.analyst analystId).cached head hhead).imp_right ?_
  rintro ⟨task, c, hrun, hanalyst, hinserted⟩
  have hfact := hinv.facts task c hrun
  rw [hanalyst] at hfact
  cases hphase : c.phase with
  | inserted run prev receipt =>
    rw [hphase] at hfact
    have hprev : prev = head := some.inj (hfact.1.symm.trans hhead)
    exact ⟨task, c, run, receipt, hrun, hanalyst, by rw [hphase, hprev], hfact.2.1⟩
  | _ => simp [hphase, Phase.isInserted] at hinserted

end

section

variable {Task : Type*} [DecidableEq Task]

theorem localStep_suspend (s : System Task) (task : Task) (c : Coroutine)
    (phase : Phase) : LocalStep s (s.suspend task c phase) task c where
  rows := ⟨[], by simp [System.suspend], by simp⟩
  heads := fun _ _ => rfl
  lockOf := rfl
  nextLock := rfl
  holder := fun _ _ => rfl
  running := fun _ hother => update_of_ne hother _ _

theorem localStep_finish (s : System Task) (task : Task) (c : Coroutine) :
    LocalStep s (s.finish task c) task c where
  rows := ⟨[], by simp [System.finish], by simp⟩
  heads := fun _ _ => rfl
  lockOf := rfl
  nextLock := rfl
  holder := fun _ hlock => update_of_ne hlock _ _
  running := fun _ hother => update_of_ne hother _ _

theorem localStep_resume (sha : ReceiptPayload → String) (s : System Task) (task : Task)
    (c : Coroutine) (head : String) : LocalStep s (s.resume sha task c head) task c := by
  unfold System.resume
  cases c.call with
  | record run => exact localStep_suspend s task c _
  | head analystId => exact localStep_finish s task c

variable {start : List TraceRow} {s next : System Task} {task : Task}
  {c : Coroutine} {sha : ReceiptPayload → String} {head : String}

theorem settles_suspend {phase : Phase} (hheld : s.holder c.lock = some task)
    (hfact : PhaseFact s.rows (s.heads c.analystId)
      (chainHead start (rowsSince start s.rows) c.analystId) c.analystId phase) :
    Settles start (s.suspend task c phase) task c :=
  .inr ⟨phase, update_self .., hheld, hfact⟩

theorem settles_finish (start : List TraceRow) (s : System Task) (task : Task)
    (c : Coroutine) : Settles start (s.finish task c) task c :=
  .inl (update_self ..)

theorem settles_resume (hheld : s.holder c.lock = some task)
    (hhead : s.heads c.analystId = some head)
    (hexact : head = chainHead start (rowsSince start s.rows) c.analystId) :
    Settles start (s.resume sha task c head) task c := by
  unfold System.resume
  cases hcall : c.call with
  | head analystId => exact settles_finish start s task c
  | record run =>
    have hanalyst : run.analystId = c.analystId := by
      unfold Coroutine.analystId
      rw [hcall]
      rfl
    exact settles_suspend hheld ⟨by rw [hhead, hexact], hexact, hanalyst⟩

theorem rows_resume (sha : ReceiptPayload → String) (s : System Task)
    (task : Task) (c : Coroutine) (head : String) :
    (s.resume sha task c head).rows = s.rows ∧ (s.resume sha task c head).heads = s.heads := by
  unfold System.resume
  cases c.call with
  | record run => exact ⟨rfl, rfl⟩
  | head analystId => exact ⟨rfl, rfl⟩

/-! ## Every step keeps the invariant -/

theorem inv_acquire (hinv : Inv start s) (hrun : s.running task = some c)
    (hphase : c.phase = .waiting) (hstep : s.acquire sha task c = some next) : Inv start next := by
  unfold System.acquire at hstep
  by_cases hfree : (s.holder c.lock).isSome = true
  · simp [hfree] at hstep
  · have hnone : s.holder c.lock = none := by simpa using hfree
    have hinserted : c.phase.isInserted = false := by rw [hphase]; rfl
    have htake := localStep_take s task c
    rw [if_neg hfree] at hstep
    cases hhead : s.heads c.analystId with
    | some head =>
      simp only [hhead] at hstep
      obtain rfl := some.inj hstep
      have hexact := hinv.cached_exact hrun (.inl hnone) hinserted hhead
      have hframe := rows_resume sha
        { s with holder := update s.holder c.lock (some task) }
        task c head
      refine hinv.of_local hrun (.inl hnone)
        (htake.trans (localStep_resume sha _ task c head)) ?_ ?_
      · apply analystInv_of_exact hinv hframe.1
        · rw [hframe.2]
          exact fun h => h
        · intro head' hhead'
          rw [hframe.2] at hhead'
          exact hinv.cached_exact hrun (.inl hnone) hinserted hhead'
      · exact settles_resume (update_self ..) hhead hexact
    | none =>
      simp only [hhead] at hstep
      obtain rfl := some.inj hstep
      refine hinv.of_local hrun (.inl hnone) (htake.trans (localStep_suspend _ task c _)) ?_ ?_
      · apply analystInv_of_exact hinv
        · rfl
        · exact fun h => h
        · exact fun head' hhead' => hinv.cached_exact hrun (.inl hnone) hinserted hhead'
      · exact settles_suspend (update_self ..) hhead

theorem inv_suspend {phase : Phase} (hinv : Inv start s) (hrun : s.running task = some c)
    (hlocked : c.phase ≠ .waiting) (hinserted : c.phase.isInserted = false)
    (hfact : PhaseFact s.rows (s.heads c.analystId) (chainHead start (rowsSince start s.rows)
      c.analystId) c.analystId phase) : Inv start (s.suspend task c phase) := by
  have hheld := hinv.held task c hrun hlocked
  refine hinv.of_local hrun (.inr hheld) (localStep_suspend s task c phase)
    ?_ (settles_suspend hheld hfact)
  apply analystInv_of_exact hinv
  · rfl
  · exact fun h => h
  · exact fun head hhead => hinv.cached_exact hrun (.inr hheld) hinserted hhead

theorem inv_hydrate (hinv : Inv start s) (hrun : s.running task = some c)
    (hlocked : c.phase ≠ .waiting) (hnone : s.heads c.analystId = none)
    (hhead : head = storedHead s.rows c.analystId) :
    Inv start ((s.setHead c.analystId head).suspend task c .counting) := by
  have hheld := hinv.held task c hrun hlocked
  have hexact := hhead.trans (hinv.storedHead_eq hnone)
  have hself : (s.setHead c.analystId head).heads c.analystId = some head := update_self ..
  refine hinv.of_local hrun (.inr hheld) ((localStep_setHead s task c
    head).trans (localStep_suspend _ task c _)) ?_ ?_
  · apply analystInv_of_exact hinv
    · rfl
    · exact fun h => absurd (hself.symm.trans h) (by simp)
    · intro head' hhead'
      rw [← hexact]
      exact (some.inj (hself.symm.trans hhead')).symm
  · exact settles_suspend hheld (hself.trans (by rw [hexact]; rfl))

theorem inv_insert {run : RunTrace} {prev receipt : String} (hinv : Inv start s)
    (hrun : s.running task = some c) (hphase : c.phase = .inserting run prev receipt)
    (hstep : s.insert task c run prev receipt = some next) : Inv start next := by
  have hheld := hinv.held task c hrun (by simp [hphase])
  have hfact := hinv.facts task c hrun
  rw [hphase] at hfact
  obtain ⟨hcached, hprev, hanalyst⟩ := hfact
  unfold System.insert at hstep
  by_cases hkey : run.runId ∈ s.rows.map TraceRow.runId
  · simp [hkey] at hstep
  · rw [if_neg hkey, some.injEq] at hstep
    subst hstep
    have hrow : (traceRow run receipt prev).analystId = c.analystId := hanalyst
    have hnew : rowsSince start (s.rows ++ [traceRow run receipt prev]) =
        rowsSince start s.rows ++ [traceRow run receipt prev] :=
      rowsSince_append hinv.rows rfl
    have hown : own (rowsSince start s.rows ++ [traceRow run receipt prev])
        c.analystId = own (rowsSince start s.rows) c.analystId ++
          [traceRow run receipt prev] := own_append_of_eq hrow
    have hlast : receipt = chainHead start
        (rowsSince start s.rows ++ [traceRow run receipt prev]) c.analystId := by
      unfold chainHead
      rw [hown, lastHash_append_singleton]
      rfl
    refine hinv.of_local hrun (.inr hheld) ((localStep_append s task c
      hrow).trans (localStep_suspend _ task c _)) ?_ ?_
    · exact
        { linear := by
            unfold IsLinear System.suspend
            rw [hnew, hown, pathFrom_append_singleton]
            exact ⟨(hinv.analyst c.analystId).linear, congrArg some hprev⟩
          unhydrated := fun hnone => absurd (hcached.symm.trans hnone) (by simp)
          cached := fun _ _ => .inr
            ⟨task, { c with phase := .inserted run prev receipt }, update_self .., rfl, rfl⟩ }
    · refine settles_suspend hheld ?_
      refine ⟨hcached.trans (by rw [hprev]), ?_, hanalyst⟩
      rw [rowsSince_append hinv.rows rfl]
      exact hlast

theorem inv_moveHead {run : RunTrace} {prev receipt : String} (count : ℕ) (hinv : Inv start s)
    (hrun : s.running task = some c) (hphase : c.phase = .inserted run prev receipt) :
    Inv start (((s.setHead c.analystId receipt).setCount c.analystId count).finish task c) := by
  have hheld := hinv.held task c hrun (by simp [hphase])
  have hfact := hinv.facts task c hrun
  rw [hphase] at hfact
  have hself : (s.setHead c.analystId receipt).heads c.analystId = some receipt := update_self ..
  refine hinv.of_local hrun (.inr hheld)
    (((localStep_setHead s task c receipt).trans
      (localStep_setCount _ task c count)).trans
        (localStep_finish _ task c)) ?_ (settles_finish start _ task c)
  apply analystInv_of_exact hinv
  · rfl
  · exact fun h => absurd (hself.symm.trans h) (by simp)
  · intro head hhead
    rw [← hfact.2.1]
    exact (some.inj (hself.symm.trans hhead)).symm

theorem inv_countRead {count : ℕ} (hinv : Inv start s) (hrun : s.running task = some c)
    (hphase : c.phase = .countRead count) (hhead : s.heads c.analystId = some head) :
    Inv start ((s.setCount c.analystId count).resume sha task c head) := by
  have hheld := hinv.held task c hrun (by simp [hphase])
  have hinserted : c.phase.isInserted = false := by rw [hphase]; rfl
  have hexact := hinv.cached_exact hrun (.inr hheld) hinserted hhead
  have hframe := rows_resume sha (s.setCount c.analystId count) task c head
  refine hinv.of_local hrun (.inr hheld)
    ((localStep_setCount s task c count).trans
      (localStep_resume sha _ task c head)) ?_ ?_
  · apply analystInv_of_exact hinv hframe.1
    · rw [hframe.2]
      exact fun h => h
    · intro head' hhead'
      rw [hframe.2] at hhead'
      exact hinv.cached_exact hrun (.inr hheld) hinserted hhead'
  · exact settles_resume hheld hhead hexact

theorem inv_advance (hinv : Inv start s) (hrun : s.running task = some c)
    (hstep : s.advance sha task c = some next) : Inv start next := by
  have hfact := hinv.facts task c hrun
  unfold System.advance at hstep
  cases hphase : c.phase with
  | waiting =>
    simp only [hphase] at hstep
    exact inv_acquire hinv hrun hphase hstep
  | selectingTip =>
    simp only [hphase, some.injEq] at hstep hfact
    subst hstep
    exact inv_suspend hinv hrun (by simp [hphase]) (by rw [hphase]; rfl) ⟨hfact, rfl⟩
  | tipRead tip =>
    rw [hphase] at hfact
    cases tip with
    | some head =>
      simp only [hphase, some.injEq] at hstep
      subst hstep
      exact inv_hydrate hinv hrun (by simp [hphase]) hfact.1
        (storedHead_of_newestTip hfact.2.symm).symm
    | none =>
      simp only [hphase, some.injEq] at hstep
      subst hstep
      exact inv_suspend hinv hrun (by simp [hphase]) (by rw [hphase]; rfl) ⟨hfact.1, hfact.2.symm⟩
  | selectingLatest =>
    rw [hphase] at hfact
    simp only [hphase, some.injEq] at hstep
    subst hstep
    exact inv_suspend hinv hrun (by simp [hphase]) (by rw [hphase]; rfl) ⟨hfact.1, hfact.2, rfl⟩
  | latestRead latest =>
    rw [hphase] at hfact
    simp only [hphase, some.injEq] at hstep
    subst hstep
    refine inv_hydrate hinv hrun (by simp [hphase]) hfact.1 ?_
    rw [storedHead_of_noTip hfact.2.1, hfact.2.2]
  | counting =>
    rw [hphase] at hfact
    simp only [hphase, some.injEq] at hstep
    subst hstep
    exact inv_suspend hinv hrun (by simp [hphase]) (by rw [hphase]; rfl) hfact
  | countRead count =>
    simp only [hphase] at hstep
    cases hhead : s.heads c.analystId with
    | none => simp [hhead] at hstep
    | some head =>
      rw [hhead, map_some, some.injEq] at hstep
      subst hstep
      exact inv_countRead hinv hrun hphase hhead
  | inserting run prev receipt =>
    simp only [hphase] at hstep
    exact inv_insert hinv hrun hphase hstep
  | inserted run prev receipt =>
    simp only [hphase, some.injEq] at hstep
    subst hstep
    exact inv_moveHead _ hinv hrun hphase

theorem fail_eq_some (hstep : s.fail task c = some next) :
    next = s.finish task c ∧ c.phase ≠ .waiting ∧ c.phase.isInserted = false := by
  unfold System.fail at hstep
  cases hphase : c.phase with
  | selectingTip | selectingLatest | counting | inserting =>
    simp only [hphase, some.injEq] at hstep
    exact ⟨hstep.symm, by simp, rfl⟩
  | _ => simp [hphase] at hstep

theorem inv_fail (hinv : Inv start s) (hrun : s.running task = some c)
    (hstep : s.fail task c = some next) : Inv start next := by
  obtain ⟨hnext, hlocked, hinserted⟩ := fail_eq_some hstep
  have hheld := hinv.held task c hrun hlocked
  subst hnext
  refine hinv.of_local hrun (.inr hheld) (localStep_finish s task c) ?_
    (settles_finish start s task c)
  apply analystInv_of_exact hinv
  · rfl
  · exact fun h => h
  · exact fun head hhead => hinv.cached_exact hrun (.inr hheld) hinserted hhead

theorem inv_enter (hinv : Inv start s) (hidle : s.running task = none)
    (hphase : c.phase = .waiting) (hspec : LockSpec s c.analystId c.lock next) :
    Inv start
      { next with running := Function.update next.running task (some c) } := by
  have hnew : rowsSince start next.rows = rowsSince start s.rows := by rw [hspec.rows]
  have hrunning : ∀ t c', update next.running task (some c) t =
      some c' → t = task ∧ c' = c ∨ t ≠ task ∧ s.running t = some c' := by
    intro t c' h
    rw [update_eq_some, hspec.running] at h
    exact h
  exact
    { rows := by
        rw [hnew]
        exact hspec.rows.trans hinv.rows
      analyst := by
        intro other
        have hold := hinv.analyst other
        exact
          { linear := by
              rw [hnew]
              exact hold.linear
            unhydrated := by
              rw [hnew]
              intro hnone
              exact hold.unhydrated ((congrFun hspec.heads other).symm.trans hnone)
            cached := by
              rw [hnew]
              intro head hhead
              have hcached := hold.cached head ((congrFun hspec.heads other).symm.trans hhead)
              refine hcached.imp_right ?_
              rintro ⟨t, c', hrun', hanalyst, hinserted⟩
              have ht : t ≠ task := by
                intro heq
                rw [heq, hidle] at hrun'
                simp at hrun'
              have hkept : update next.running task (some c) t = some c' := by
                rw [update_of_ne ht, hspec.running, hrun']
              exact ⟨t, c', hkept, hanalyst, hinserted⟩ }
      lockFresh := hspec.fresh
      lockInj := hspec.inj
      lockOf := by
        intro t c' h
        cases hrunning t c' h with
        | inl hmine =>
          rw [hmine.2]
          exact hspec.found
        | inr hother => exact hspec.kept _ _ (hinv.lockOf t c' hother.2)
      held := by
        intro t c' h hlocked
        cases hrunning t c' h with
        | inl hmine => exact absurd hphase (hmine.2 ▸ hlocked)
        | inr hother =>
          exact (congrFun hspec.holder c'.lock).trans (hinv.held t c' hother.2 hlocked)
      facts := by
        intro t c' h
        cases hrunning t c' h with
        | inl hmine =>
          rw [hmine.2, hphase]
          trivial
        | inr hother =>
          have hold := hinv.facts t c' hother.2
          rw [← hspec.rows, ← hspec.heads] at hold
          exact hold }

theorem inv_start {call : ChainCall} (hinv : Inv start s)
    (hstep : s.start task call = some next) : Inv start next := by
  unfold System.start at hstep
  by_cases hidle : (s.running task).isSome = true
  · simp [hidle] at hstep
  · have hnone : s.running task = none := by simpa using hidle
    have henter := @inv_enter _ _ _ _ _ _
      ⟨call, (s.lock call.analystId).1, .waiting⟩ hinv hnone rfl
      (lock_spec hinv call.analystId)
    rw [if_neg hidle] at hstep
    cases call with
    | record run =>
      obtain rfl := some.inj hstep
      exact henter
    | head analystId =>
      by_cases hcached : (s.heads analystId).isSome = true
      · simp only [hcached, if_true, some.injEq] at hstep
        subst hstep
        exact hinv
      · simp only [hcached, Bool.false_eq_true, if_false, some.injEq] at hstep
        subst hstep
        exact henter

theorem inv_step {label : Label Task} (hinv : Inv start s)
    (hstep : step sha s label = some next) : Inv start next := by
  cases label with
  | start task call => exact inv_start hinv hstep
  | advance task =>
    obtain ⟨c, hrun, hadvance⟩ := bind_eq_some_iff.mp hstep
    exact inv_advance hinv hrun hadvance
  | fail task =>
    obtain ⟨c, hrun, hfail⟩ := bind_eq_some_iff.mp hstep
    exact inv_fail hinv hrun hfail

theorem fail_keeps (hstep : step sha s (.fail task) = some next) :
    next.heads = s.heads ∧ next.counts = s.counts ∧ next.rows = s.rows := by
  obtain ⟨c, _, hfail⟩ := bind_eq_some_iff.mp hstep
  obtain ⟨hnext, _⟩ := fail_eq_some hfail
  subst hnext
  exact ⟨rfl, rfl, rfl⟩

/-- The rows of each analyst form one path from the head its table held, a
statement which raises moves no head and no count, and the cached head is the
hash of the last row written unless a call of the analyst has just written
that row on top of the cached head and not yet moved it. -/
theorem receiptChain_linear (sha : ReceiptPayload → String)
    {start : List TraceRow} {labels : List (Label Task)} {final : System Task}
    (hrun : run (step sha) (System.initial start) labels = some final) :
    (∃ new, final.rows = start ++ new ∧ ∀ analystId,
      IsLinear start new analystId ∧
      (own start analystId = [] → storedHead start analystId = zeroHash) ∧
      ∀ head, final.heads analystId = some head →
        head = chainHead start new analystId ∨
          ∃ task c run receipt, final.running task = some c ∧
            c.analystId = analystId ∧ c.phase = .inserted run head receipt ∧
            receipt = chainHead start new analystId) ∧
    StepsSatisfy (step sha)
      (fun s label next => ∀ task, label = .fail task →
        next.heads = s.heads ∧ next.counts = s.counts ∧ next.rows = s.rows)
      (System.initial start) labels := by
  have hinv : Inv start final :=
    invariant_of_steps (fun _ _ _ hs hstep => inv_step hs hstep) (inv_initial start) hrun
  constructor
  · exact ⟨rowsSince start final.rows, hinv.rows, fun analystId =>
      ⟨(hinv.analyst analystId).linear, storedHead_of_noRows,
        fun _ hhead => hinv.cached_or_pending hhead⟩⟩
  · apply stepsSatisfy_of_forall
    intro s label next hstep task hlabel
    subst hlabel
    exact fail_keeps hstep

end

theorem receiptChain_linear_oneCall :
    ∃ final : System ℕ,
      run (step fun _ => "r1") (System.initial [])
        (.start 0 (.record (sampleRun 1 "a" 0)) :: replicate 9 (.advance 0)) = some final ∧
      ∃ new, final.rows = [] ++ new ∧ IsLinear [] new "a" := by
  obtain ⟨final, hrun⟩ : ∃ final : System ℕ,
      run (step fun _ => "r1") (System.initial [])
        (.start 0 (.record (sampleRun 1 "a" 0)) ::
          replicate 9 (.advance 0)) = some final := ⟨_, rfl⟩
  obtain ⟨new, hrows, hall⟩ := (receiptChain_linear (fun _ => "r1") hrun).1
  exact ⟨final, hrun, new, hrows, (hall "a").1⟩

/-- Between the INSERT of a row and the move of the head the cached head is
still the one before it. -/
theorem cachedHead_behind_insert :
    ∃ final : System ℕ,
      run (step fun _ => "r1") (System.initial [])
        (.start 0 (.record (sampleRun 1 "a" 0)) :: replicate 8 (.advance 0)) = some final ∧
      (own final.rows "a").map TraceRow.receiptHash = ["r1"] ∧
      final.heads "a" = some zeroHash ∧ zeroHash ≠ "r1" :=
  ⟨_, rfl, rfl, rfl, by decide⟩

end Legba.Receipts
