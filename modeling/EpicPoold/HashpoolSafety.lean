import EpicPoold.HashpoolSteps

/-! A worker that reports no error has used slot data built for its job: the invariant
over all interleavings, from what one step of a dataset thread has to respect. -/

namespace EpicPoold.Hashpool

open Foundations

/-- What a pool owes for its slots to be safe. `built data id` says that the slot's
resource is the one for `id`; `inPhase` is what a dataset thread knows of the data
while it holds the mutex; `mayAssign` are the phases in which the node thread may
overwrite the seed under it. -/
structure Discipline (K : PoolKind) where
  built : K.Data → UInt64 → Prop
  inPhase : K.Data → K.Phase → Prop
  mayAssign : K.Phase → Prop
  jobId_valid : ∀ job, K.jobId job ≠ invalidId
  entry_ok : ∀ data, inPhase data K.entry
  body_phase : ∀ loaded data phase data' phase', inPhase data phase →
    K.body loaded data phase = (data', .inl phase') → inPhase data' phase'
  body_store : ∀ loaded data phase data' id, inPhase data phase →
    K.body loaded data phase = (data', .inr id) → built data' id
  assign_built : ∀ request data id, built data id → built (K.assign request data) id
  assign_phase : ∀ request data phase, mayAssign phase → inPhase data phase →
    inPhase (K.assign request data) phase

variable {K : PoolKind} (D : Discipline K)

/-- The node thread overwrites a slot's seed only under dataset threads that are in a
phase which tolerates it. -/
def Discipline.Allowed (s : State K) (a : Action K) : Prop :=
  ∀ request i, a = .node → s.node = .assignSeed request i →
    ∀ thd ∈ s.threads, thd.idx = i → ∀ phase, thd.pc = .inside phase → D.mayAssign phase

def Discipline.ReadyOk (slot : Slot K) : Prop :=
  slot.readyId = invalidId ∨ D.built slot.data slot.readyId

def Discipline.ThreadOk (slot : Slot K) (t : Nat) : DatasetPc K → Prop
  | .lock => slot.mtx.writer ≠ some t
  | .inside phase => slot.mtx.writer = some t ∧ D.inPhase slot.data phase
  | .unlock => slot.mtx.writer = some t ∧ D.ReadyOk slot
  | .done => slot.mtx.writer ≠ some t

def Discipline.WorkerOk (ds : SlotIdx → Slot K) (w : Fin hashThdCount) : WorkerPc K → Prop
  | .pop => True
  | .scan _ _ => True
  | .lockShared _ _ => True
  | .recheck _ i => w ∈ (ds i).mtx.readers
  | .hash job i => w ∈ (ds i).mtx.readers ∧ D.built (ds i).data (K.jobId job)
  | .finish job i used =>
      (∀ held, i = some held → w ∈ (ds held).mtx.readers) ∧
        ∀ data, used = some data → D.built data (K.jobId job)
  | .unlockShared i => w ∈ (ds i).mtx.readers

structure Discipline.Inv (s : State K) : Prop where
  ready : ∀ i, (s.ds i).mtx.writer = none → D.ReadyOk (s.ds i)
  writer : ∀ i t, (s.ds i).mtx.writer = some t → ∃ thd, s.threads[t]? = some thd ∧ thd.idx = i
  thread : ∀ t thd, s.threads[t]? = some thd → D.ThreadOk (s.ds thd.idx) t thd.pc
  worker : ∀ w, D.WorkerOk s.ds w (s.workers w)
  finished : ∀ report ∈ s.finished, report.error = false →
    ∃ data, report.used = some data ∧ D.built data (K.jobId report.job)

variable {D}

theorem start_inv (s : State K) (start : Start s) : D.Inv s where
  ready := by
    intro i _
    exact .inl (start.slots i).2.2.1
  writer := by
    intro i t held
    simp [(start.slots i).2.2.2, SharedMutex.free] at held
  thread := by
    intro t thd present
    simp [start.threads] at present
  worker := by
    intro w
    simp [start.workers w, Discipline.WorkerOk]
  finished := by
    intro report member
    simp [start.finished] at member

/-- The worker's view of a slot survives a change that keeps it among the readers and
keeps what the resource was built for. -/
theorem WorkerOk_update (ds : SlotIdx → Slot K) (w : Fin hashThdCount) (i : SlotIdx)
    (slot : Slot K) (pc : WorkerPc K)
    (readers : w ∈ (ds i).mtx.readers → w ∈ slot.mtx.readers)
    (kept : w ∈ (ds i).mtx.readers → ∀ id, D.built (ds i).data id → D.built slot.data id)
    (before : D.WorkerOk ds w pc) : D.WorkerOk (Function.update ds i slot) w pc := by
  have reads : ∀ j, w ∈ (ds j).mtx.readers → w ∈ (Function.update ds i slot j).mtx.readers := by
    intro j member
    by_cases same : j = i
    · subst same
      simpa using readers member
    · simpa [same] using member
  cases pc with
  | pop => trivial
  | scan job dsidx => trivial
  | lockShared job j => trivial
  | recheck job j => exact reads j before
  | hash job j =>
      refine ⟨reads j before.1, ?_⟩
      by_cases same : j = i
      · subst same
        simpa using kept before.1 _ before.2
      · simpa [same] using before.2
  | finish job j used =>
      exact ⟨fun held slotHeld => reads held (before.1 held slotHeld), before.2⟩
  | unlockShared j => exact reads j before

/-- The node thread's accesses to a slot: the mutex stays as it is, the ready id is kept or
retracted, and the data changes at most in what the threads inside tolerate. -/
theorem slot_touch_inv (s : State K) (inv : D.Inv s) (i : SlotIdx) (slot : Slot K)
    (node : NodePc K) (mtx : slot.mtx = (s.ds i).mtx)
    (ready : D.ReadyOk (s.ds i) → D.ReadyOk slot)
    (built : ∀ id, D.built (s.ds i).data id → D.built slot.data id)
    (inside : ∀ thd ∈ s.threads, thd.idx = i → ∀ phase, thd.pc = .inside phase →
      D.inPhase (s.ds i).data phase → D.inPhase slot.data phase) :
    D.Inv { s.setSlot i slot with node := node } where
  ready := by
    intro j idle
    by_cases same : j = i
    · subst same
      simp only [State.setSlot, Function.update_self, mtx] at idle ⊢
      exact ready (inv.ready j idle)
    · simp only [State.setSlot, Function.update_of_ne same] at idle ⊢
      exact inv.ready j idle
  writer := by
    intro j t held
    apply inv.writer j t
    by_cases same : j = i
    · subst same
      simpa [State.setSlot, mtx] using held
    · simpa [State.setSlot, same] using held
  thread := by
    intro t thd present
    have before := inv.thread t thd present
    by_cases same : thd.idx = i
    · subst same
      simp only [State.setSlot, Function.update_self]
      have member : thd ∈ s.threads := List.mem_of_getElem? present
      cases pc : thd.pc with
      | lock => simpa [pc, Discipline.ThreadOk, mtx] using before
      | inside phase =>
          rw [pc] at before
          exact ⟨by rw [mtx]; exact before.1, inside thd member rfl phase pc before.2⟩
      | unlock =>
          rw [pc] at before
          exact ⟨by rw [mtx]; exact before.1, ready before.2⟩
      | done => simpa [pc, Discipline.ThreadOk, mtx] using before
    · simpa [State.setSlot, same] using before
  worker := by
    intro w
    apply WorkerOk_update s.ds w i slot _ _ _ (inv.worker w)
    · intro member
      simpa [mtx] using member
    · intro _ id
      exact built id
  finished := inv.finished

theorem inv_held {s : State K} (inv : D.Inv s) : Held s where
  inside t thd present := by
    have mine := inv.thread t thd present
    cases pc : thd.pc with
    | lock =>
        rw [pc] at mine
        exact iff_of_false (by simp [inSection]) mine
    | inside phase =>
        rw [pc] at mine
        exact iff_of_true rfl mine.1
    | unlock =>
        rw [pc] at mine
        exact iff_of_true rfl mine.1
    | done =>
        rw [pc] at mine
        exact iff_of_false (by simp [inSection]) mine
  known := inv.writer

theorem spawned_inv (s : State K) (inv : D.Inv s) (i : SlotIdx) :
    D.Inv { s with threads := s.threads ++ [⟨i, .lock⟩], node := .idle } where
  ready := inv.ready
  writer := (held_spawned (inv_held inv) i).known
  thread := by
    intro t thd present
    rcases Nat.lt_or_ge t s.threads.length with old | new
    · exact inv.thread t thd (by simpa [List.getElem?_append_left old] using present)
    · have outside := (held_spawned (inv_held inv) i).inside t thd present
      rw [List.getElem?_append_right new] at present
      have fresh : thd = ⟨i, .lock⟩ := List.mem_singleton.mp (List.mem_of_getElem? present)
      subst fresh
      intro taken
      have inside := outside.mpr taken
      cases inside
  worker := inv.worker
  finished := inv.finished

/-- A dataset thread's own step: it holds the slot's mutex alone, takes it or gives it
back, so no other thread and no worker is looking at the slot. -/
theorem thread_move_inv (s : State K) (inv : D.Inv s) (t : Nat) (thd : DatasetThd K)
    (present : s.threads[t]? = some thd) (slot : Slot K) (pc : DatasetPc K)
    (before : (s.ds thd.idx).mtx.writer = none ∨ (s.ds thd.idx).mtx.writer = some t)
    (after : slot.mtx.writer = if inSection pc then some t else none)
    (mine : D.ThreadOk slot t pc) (ready : slot.mtx.writer = none → D.ReadyOk slot)
    (readers : slot.mtx.readers = (s.ds thd.idx).mtx.readers)
    (kept : ∀ w ∈ (s.ds thd.idx).mtx.readers, ∀ id,
      D.built (s.ds thd.idx).data id → D.built slot.data id) :
    D.Inv ((s.setSlot thd.idx slot).setThread t pc) where
  ready := by
    intro j idle
    by_cases same : j = thd.idx
    · subst same
      simp only [State.setThread, State.setSlot, Function.update_self] at idle ⊢
      exact ready idle
    · simp only [State.setThread, State.setSlot, Function.update_of_ne same] at idle ⊢
      exact inv.ready j idle
  writer := (held_thread (inv_held inv) t thd present slot pc before after).known
  thread := by
    intro u other listed
    have holding :=
      (held_thread (inv_held inv) t thd present slot pc before after).inside u other listed
    rw [setThread_getElem?] at listed
    obtain ⟨earlier, there, rfl⟩ := Option.map_eq_some_iff.mp listed
    change s.threads[u]? = some earlier at there
    by_cases own : t = u
    · subst own
      rw [present] at there
      cases there
      simpa [State.setThread, State.setSlot] using mine
    · simp only [if_neg own] at holding ⊢
      have old := inv.thread u earlier there
      by_cases same : earlier.idx = thd.idx
      · -- the slot's mutex is free or the thread's own, so the other one is outside
        have notMine : slot.mtx.writer ≠ some u := by
          rw [after]
          split
          · simp [own]
          · simp
        have outside : inSection earlier.pc ≠ true := by
          intro inside
          have taken := holding.mp inside
          simp only [State.setThread, State.setSlot, same, Function.update_self] at taken
          exact notMine taken
        simp only [State.setThread, State.setSlot, same, Function.update_self]
        cases stage : earlier.pc with
        | lock => exact notMine
        | inside phase => exact absurd (by rw [stage]; rfl) outside
        | unlock => exact absurd (by rw [stage]; rfl) outside
        | done => exact notMine
      · simpa [State.setThread, State.setSlot, same] using old
  worker := by
    intro w
    apply WorkerOk_update s.ds w thd.idx slot _ _ _ (inv.worker w)
    · intro member
      simpa [readers] using member
    · exact kept w
  finished := inv.finished

theorem thread_inside_inv (s : State K) (inv : D.Inv s) (t : Nat) (thd : DatasetThd K)
    (present : s.threads[t]? = some thd) (mine : (s.ds thd.idx).mtx.writer = some t)
    (slot : Slot K) (pc : DatasetPc K) (mtx : slot.mtx = (s.ds thd.idx).mtx)
    (inside : inSection pc = true) (okay : D.ThreadOk slot t pc) :
    D.Inv ((s.setSlot thd.idx slot).setThread t pc) := by
  have nobody : (s.ds thd.idx).mtx.readers = ∅ := (s.ds thd.idx).mtx.exclusive (by simp [mine])
  apply thread_move_inv s inv t thd present slot pc (.inr mine) _ okay
  · intro free
    rw [mtx, mine] at free
    cases free
  · rw [mtx]
  · simp [nobody]
  · rw [mtx, mine, inside]
    rfl

theorem worker_move_inv (s : State K) (inv : D.Inv s) (w : Fin hashThdCount) (i : SlotIdx)
    (mtx : SharedMutex Nat (Fin hashThdCount)) (pc : WorkerPc K)
    (writer : mtx.writer = (s.ds i).mtx.writer)
    (others : ∀ v, v ≠ w → v ∈ (s.ds i).mtx.readers → v ∈ mtx.readers)
    (mine : D.WorkerOk (Function.update s.ds i { s.ds i with mtx := mtx }) w pc) :
    D.Inv ((s.setSlot i { s.ds i with mtx := mtx }).setWorker w pc) where
  ready := by
    intro j idle
    by_cases same : j = i
    · subst same
      simp only [State.setWorker, State.setSlot, Function.update_self, writer] at idle ⊢
      exact inv.ready j idle
    · simp only [State.setWorker, State.setSlot, Function.update_of_ne same] at idle ⊢
      exact inv.ready j idle
  writer := by
    intro j t held
    apply inv.writer j t
    by_cases same : j = i
    · subst same
      simpa [State.setWorker, State.setSlot, writer] using held
    · simpa [State.setWorker, State.setSlot, same] using held
  thread := by
    intro t thd present
    have before := inv.thread t thd present
    by_cases same : thd.idx = i
    · subst same
      simp only [State.setWorker, State.setSlot, Function.update_self]
      cases pc : thd.pc <;> rw [pc] at before <;>
        simpa [Discipline.ThreadOk, Discipline.ReadyOk, writer] using before
    · simpa [State.setWorker, State.setSlot, same] using before
  worker := by
    intro v
    by_cases own : v = w
    · subst own
      simpa [State.setWorker, State.setSlot] using mine
    · simp only [State.setWorker, State.setSlot, Function.update_of_ne own]
      exact WorkerOk_update s.ds v i _ _ (others v own) (fun _ _ built => built) (inv.worker v)
  finished := inv.finished

theorem worker_local_inv (s : State K) (inv : D.Inv s) (w : Fin hashThdCount)
    (pc : WorkerPc K) (mine : D.WorkerOk s.ds w pc) : D.Inv (s.setWorker w pc) where
  ready := inv.ready
  writer := inv.writer
  thread := inv.thread
  worker := by
    intro v
    by_cases own : v = w
    · subst own
      simpa [State.setWorker] using mine
    · simpa [State.setWorker, own] using inv.worker v
  finished := inv.finished

/-- The second test, made under the shared lock, is the one that counts. -/
theorem built_of_ready (s : State K) (inv : D.Inv s) (w : Fin hashThdCount) (job : K.Job)
    (i : SlotIdx) (reads : w ∈ (s.ds i).mtx.readers) (ready : (s.ds i).readyId = K.jobId job) :
    D.built (s.ds i).data (K.jobId job) := by
  have idle := SharedMutex.no_writer_of_reader _ w reads
  rcases inv.ready i idle with retracted | built
  · exact absurd (ready.symm.trans retracted) (D.jobId_valid job)
  · exact ready ▸ built

theorem reported_inv (s : State K) (inv : D.Inv s) (job : K.Job) (used : Option K.Data)
    (built : ∀ data, used = some data → D.built data (K.jobId job)) :
    D.Inv { s with finished := ⟨job, used.isNone, used⟩ :: s.finished } := by
  refine ⟨inv.ready, inv.writer, inv.thread, inv.worker, ?_⟩
  intro report member clean
  rcases List.mem_cons.mp member with rfl | earlier
  · obtain ⟨data, seen⟩ := Option.isSome_iff_exists.mp (by simpa using clean)
    exact ⟨data, seen, built data seen⟩
  · exact inv.finished report earlier clean

theorem workerMoved_inv (s s' : State K) (w : Fin hashThdCount) (inv : D.Inv s)
    (moved : WorkerMoved s w s') : D.Inv s' := by
  have mine := inv.worker w
  cases moved with
  | popped job rest here front =>
      have popped : D.Inv { s with jobs := rest } :=
        ⟨inv.ready, inv.writer, inv.thread, inv.worker, inv.finished⟩
      exact worker_local_inv _ popped w (.scan job 0) trivial
  | found | passed => exact worker_local_inv s inv w _ trivial
  | missed job k here =>
      exact worker_local_inv s inv w (.finish job none none) ⟨by simp, by simp⟩
  | sharedLocked job i mtx here free still readers =>
      apply worker_move_inv s inv w i mtx (.recheck job i) (by rw [still, free])
      · intro v _ member
        rw [readers]
        exact Finset.mem_insert_of_mem member
      · simp [Discipline.WorkerOk, readers]
  | refused job i here =>
      rw [here] at mine
      apply worker_local_inv s inv w (.finish job (some i) none)
      refine ⟨?_, by simp⟩
      intro held taken
      cases taken
      exact mine
  | confirmed job i here ready =>
      rw [here] at mine
      exact worker_local_inv s inv w (.hash job i) ⟨mine, built_of_ready s inv w job i mine ready⟩
  | hashed job i here =>
      rw [here] at mine
      apply worker_local_inv s inv w (.finish job (some i) (some (s.ds i).data))
      constructor
      · intro held taken
        cases taken
        exact mine.1
      · intro data seen
        cases seen
        exact mine.2
  | failed job used here =>
      rw [here] at mine
      exact worker_local_inv _ (reported_inv s inv job used mine.2) w .pop trivial
  | finished job i used here =>
      rw [here] at mine
      exact worker_local_inv _ (reported_inv s inv job used mine.2) w (.unlockShared i)
        (mine.1 i rfl)
  | released i here =>
      apply worker_move_inv s inv w i ((s.ds i).mtx.unlockShared w) .pop rfl
      · intro v other member
        simpa [other] using member
      · trivial

theorem moved_inv (s t : State K) (a : Action K) (inv : D.Inv s) (allowed : D.Allowed s a)
    (moved : Moved s a t) : D.Inv t := by
  cases moved with
  | nodeQuiet | pushed => exact ⟨inv.ready, inv.writer, inv.thread, inv.worker, inv.finished⟩
  | retracted request i here =>
      exact slot_touch_inv s inv i { s.ds i with readyId := invalidId } _ rfl
        (fun _ => .inl rfl) (fun _ built => built) (fun _ _ _ _ _ holds => holds)
  | assigned request i here =>
      apply slot_touch_inv s inv i { s.ds i with data := K.assign request (s.ds i).data } _ rfl
      · intro ready
        exact ready.imp id (D.assign_built request _ _)
      · exact D.assign_built request _
      · intro thd member idx phase inside holds
        exact D.assign_phase request _ phase
          (allowed request i rfl here thd member idx phase inside) holds
  | loaded request i here =>
      exact slot_touch_inv s inv i { s.ds i with loadedId := K.requestId request } _ rfl
        id (fun _ built => built) (fun _ _ _ _ _ holds => holds)
  | spawned i here => exact spawned_inv s inv i
  | locked k thd mtx present here free nobody taken still =>
      apply thread_move_inv s inv k thd present { s.ds thd.idx with mtx := mtx }
        (.inside K.entry) (.inl free) taken ⟨taken, D.entry_ok _⟩
      · intro free
        simp [taken] at free
      · simp [still, nobody]
      · simp [nobody]
  | worked k thd phase data next present here ran =>
      have mine := inv.thread k thd present
      rw [here] at mine
      exact thread_inside_inv s inv k thd present mine.1 { s.ds thd.idx with data := data } _ rfl
        rfl ⟨mine.1, D.body_phase _ _ phase data next mine.2 ran⟩
  | stored k thd phase data id present here ran =>
      have mine := inv.thread k thd present
      rw [here] at mine
      exact thread_inside_inv s inv k thd present mine.1
        { s.ds thd.idx with data := data, readyId := id } _ rfl rfl
        ⟨mine.1, .inr (D.body_store _ _ phase data id mine.2 ran)⟩
  | unlocked k thd present here =>
      have mine := inv.thread k thd present
      rw [here] at mine
      apply thread_move_inv s inv k thd present
        { s.ds thd.idx with mtx := (s.ds thd.idx).mtx.unlock } .done (.inr mine.1) rfl
      · simp [Discipline.ThreadOk]
      · exact fun _ => mine.2
      · rfl
      · exact fun _ _ _ built => built
  | worker w _ moved => exact workerMoved_inv s t w inv moved

/-- The safety of both pools: as long as no seed is overwritten under a dataset thread
that does not tolerate it, a finished job was hashed with what was built for it. -/
theorem finished_built (s : State K) (reached : (system K).ReachableUnder D.Allowed s) :
    ∀ report ∈ s.finished, report.error = false →
      ∃ data, report.used = some data ∧ D.built data (K.jobId report.job) := by
  have inv : D.Inv s := reached.invariant D.Inv start_inv
    (fun s a t _ inv allowed step => moved_inv s t a inv allowed (next_moved step))
  exact inv.finished

end EpicPoold.Hashpool
