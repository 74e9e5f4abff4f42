import EpicPoold.Hashpool

/-! What one step of a hash pool can do, said once with all that the step found, and who
holds the mutex of a slot. -/

namespace EpicPoold.Hashpool

open Foundations

variable {K : PoolKind}

inductive NodeQuiet : NodePc K → NodePc K → Prop
  | requested (request : K.Request) : NodeQuiet .idle (.hasDataset request 0)
  | found (request : K.Request) (k : Nat) : NodeQuiet (.hasDataset request k) .idle
  | missed (request : K.Request) (k k' : Nat) :
      NodeQuiet (.hasDataset request k) (.hasDataset request k')
  | absent (request : K.Request) (k : Nat) : NodeQuiet (.hasDataset request k) (.fetchAdd request)
  | counted (request : K.Request) (i : SlotIdx) :
      NodeQuiet (.fetchAdd request) (.storeReady request i)

/-- The steps of hash_thd_main, one by one. -/
inductive WorkerMoved (s : State K) (w : Fin hashThdCount) : State K → Prop
  | popped (job : K.Job) (rest : List K.Job) (here : s.workers w = .pop)
      (front : s.jobs = job :: rest) :
      WorkerMoved s w ({ s with jobs := rest }.setWorker w (.scan job 0))
  | found (job : K.Job) (i : SlotIdx) (here : s.workers w = .scan job i.val)
      (ready : (s.ds i).readyId = K.jobId job) :
      WorkerMoved s w (s.setWorker w (.lockShared job i))
  | passed (job : K.Job) (k : Nat) (here : s.workers w = .scan job k) :
      WorkerMoved s w (s.setWorker w (.scan job (k + 1)))
  | missed (job : K.Job) (k : Nat) (here : s.workers w = .scan job k) :
      WorkerMoved s w (s.setWorker w (.finish job none none))
  | sharedLocked (job : K.Job) (i : SlotIdx) (mtx : SharedMutex Nat (Fin hashThdCount))
      (here : s.workers w = .lockShared job i) (free : (s.ds i).mtx.writer = none)
      (still : mtx.writer = none) (readers : mtx.readers = insert w (s.ds i).mtx.readers) :
      WorkerMoved s w ((s.setSlot i { s.ds i with mtx := mtx }).setWorker w (.recheck job i))
  | refused (job : K.Job) (i : SlotIdx) (here : s.workers w = .recheck job i) :
      WorkerMoved s w (s.setWorker w (.finish job (some i) none))
  | confirmed (job : K.Job) (i : SlotIdx) (here : s.workers w = .recheck job i)
      (ready : (s.ds i).readyId = K.jobId job) : WorkerMoved s w (s.setWorker w (.hash job i))
  | hashed (job : K.Job) (i : SlotIdx) (here : s.workers w = .hash job i) :
      WorkerMoved s w (s.setWorker w (.finish job (some i) (some (s.ds i).data)))
  | failed (job : K.Job) (used : Option K.Data) (here : s.workers w = .finish job none used) :
      WorkerMoved s w
        ({ s with finished := ⟨job, used.isNone, used⟩ :: s.finished }.setWorker w .pop)
  | finished (job : K.Job) (i : SlotIdx) (used : Option K.Data)
      (here : s.workers w = .finish job (some i) used) :
      WorkerMoved s w
        ({ s with finished := ⟨job, used.isNone, used⟩ :: s.finished }.setWorker w
          (.unlockShared i))
  | released (i : SlotIdx) (here : s.workers w = .unlockShared i) :
      WorkerMoved s w
        ((s.setSlot i { s.ds i with mtx := (s.ds i).mtx.unlockShared w }).setWorker w .pop)

inductive Moved (s : State K) : Action K → State K → Prop
  | nodeQuiet (a : Action K) (pc : NodePc K) (dsCtr : UInt64) (quiet : NodeQuiet s.node pc) :
      Moved s a { s with node := pc, dsCtr := dsCtr }
  | retracted (request : K.Request) (i : SlotIdx) (here : s.node = .storeReady request i) :
      Moved s .node
        { s.setSlot i { s.ds i with readyId := invalidId } with node := .assignSeed request i }
  | assigned (request : K.Request) (i : SlotIdx) (here : s.node = .assignSeed request i) :
      Moved s .node
        { s.setSlot i { s.ds i with data := K.assign request (s.ds i).data } with
          node := .storeLoaded request i }
  | loaded (request : K.Request) (i : SlotIdx) (here : s.node = .storeLoaded request i) :
      Moved s .node
        { s.setSlot i { s.ds i with loadedId := K.requestId request } with node := .spawn i }
  | spawned (i : SlotIdx) (here : s.node = .spawn i) :
      Moved s .node { s with threads := s.threads ++ [⟨i, .lock⟩], node := .idle }
  | locked (t : Nat) (thd : DatasetThd K) (mtx : SharedMutex Nat (Fin hashThdCount))
      (present : s.threads[t]? = some thd) (here : thd.pc = .lock)
      (free : (s.ds thd.idx).mtx.writer = none) (nobody : (s.ds thd.idx).mtx.readers = ∅)
      (taken : mtx.writer = some t) (still : mtx.readers = ∅) :
      Moved s (.dataset t)
        ((s.setSlot thd.idx { s.ds thd.idx with mtx := mtx }).setThread t (.inside K.entry))
  | worked (t : Nat) (thd : DatasetThd K) (phase : K.Phase) (data : K.Data) (next : K.Phase)
      (present : s.threads[t]? = some thd) (here : thd.pc = .inside phase)
      (ran : K.body (s.ds thd.idx).loadedId (s.ds thd.idx).data phase = (data, .inl next)) :
      Moved s (.dataset t)
        ((s.setSlot thd.idx { s.ds thd.idx with data := data }).setThread t (.inside next))
  | stored (t : Nat) (thd : DatasetThd K) (phase : K.Phase) (data : K.Data) (id : UInt64)
      (present : s.threads[t]? = some thd) (here : thd.pc = .inside phase)
      (ran : K.body (s.ds thd.idx).loadedId (s.ds thd.idx).data phase = (data, .inr id)) :
      Moved s (.dataset t)
        ((s.setSlot thd.idx { s.ds thd.idx with data := data, readyId := id }).setThread t
          .unlock)
  | unlocked (t : Nat) (thd : DatasetThd K) (present : s.threads[t]? = some thd)
      (here : thd.pc = .unlock) :
      Moved s (.dataset t)
        ((s.setSlot thd.idx { s.ds thd.idx with mtx := (s.ds thd.idx).mtx.unlock }).setThread t
          .done)
  | pushed (job : K.Job) : Moved s (.pushJob job) { s with jobs := s.jobs ++ [job] }
  | worker (w : Fin hashThdCount) (t : State K) (moved : WorkerMoved s w t) :
      Moved s (.worker w) t

section Inversion

variable {s t : State K}

theorem nodeStep_moved (stepped : nodeStep s = some t) : Moved s .node t := by
  unfold nodeStep at stepped
  cases here : s.node with
  | idle => simp [here] at stepped
  | hasDataset request k =>
      simp only [here] at stepped
      split at stepped
      · split at stepped
        · cases stepped
          exact .nodeQuiet _ .idle s.dsCtr (by rw [here]; exact .found request k)
        · cases stepped
          exact .nodeQuiet _ _ s.dsCtr (by rw [here]; exact .missed request k (k + 1))
      · cases stepped
        exact .nodeQuiet _ _ s.dsCtr (by rw [here]; exact .absent request k)
  | fetchAdd request =>
      simp only [here] at stepped
      cases stepped
      exact .nodeQuiet _ _ (s.dsCtr + 1) (by rw [here]; exact .counted request _)
  | storeReady request i =>
      simp only [here] at stepped
      cases stepped
      exact .retracted request i here
  | assignSeed request i =>
      simp only [here] at stepped
      cases stepped
      exact .assigned request i here
  | storeLoaded request i =>
      simp only [here] at stepped
      cases stepped
      exact .loaded request i here
  | spawn i =>
      simp only [here] at stepped
      cases stepped
      exact .spawned i here

theorem datasetStep_moved (k : Nat) (stepped : datasetStep s k = some t) :
    Moved s (.dataset k) t := by
  unfold datasetStep at stepped
  cases present : s.threads[k]? with
  | none => simp [present] at stepped
  | some thd =>
      simp only [present] at stepped
      cases here : thd.pc with
      | lock =>
          simp only [here] at stepped
          obtain ⟨mtx, locked, rfl⟩ := Option.map_eq_some_iff.mp stepped
          obtain ⟨free, nobody, taken, still⟩ := SharedMutex.lock_eq_some _ _ _ locked
          exact .locked k thd mtx present here free nobody taken still
      | inside phase =>
          simp only [here] at stepped
          split at stepped
          · rename_i data next ran
            cases stepped
            exact .worked k thd phase data next present here ran
          · rename_i data id ran
            cases stepped
            exact .stored k thd phase data id present here ran
      | unlock =>
          simp only [here] at stepped
          cases stepped
          exact .unlocked k thd present here
      | done => simp [here] at stepped

theorem workerStep_moved {w : Fin hashThdCount} (stepped : workerStep s w = some t) :
    WorkerMoved s w t := by
  unfold workerStep at stepped
  cases here : s.workers w with
  | pop =>
      simp only [here] at stepped
      split at stepped
      · cases stepped
      · rename_i job rest front
        cases stepped
        exact .popped job rest here front
  | scan job dsidx =>
      simp only [here] at stepped
      split at stepped
      · rename_i inside
        split at stepped
        · rename_i ready
          cases stepped
          exact .found job ⟨dsidx, inside⟩ here ready
        · cases stepped
          exact .passed job dsidx here
      · cases stepped
        exact .missed job dsidx here
  | lockShared job i =>
      simp only [here] at stepped
      obtain ⟨mtx, locked, rfl⟩ := Option.map_eq_some_iff.mp stepped
      obtain ⟨free, still, readers⟩ := SharedMutex.lockShared_eq_some _ _ _ locked
      exact .sharedLocked job i mtx here free still readers
  | recheck job i =>
      simp only [here] at stepped
      split at stepped
      · cases stepped
        exact .refused job i here
      · rename_i same
        cases stepped
        exact .confirmed job i here (not_not.mp same)
  | hash job i =>
      simp only [here] at stepped
      cases stepped
      exact .hashed job i here
  | finish job i used =>
      cases i with
      | none =>
          simp only [here] at stepped
          cases stepped
          exact .failed job used here
      | some i =>
          simp only [here] at stepped
          cases stepped
          exact .finished job i used here
  | unlockShared i =>
      simp only [here] at stepped
      cases stepped
      exact .released i here

theorem next_moved {a : Action K} (stepped : next s a = some t) : Moved s a t := by
  cases a with
  | request request =>
      simp only [next] at stepped
      split at stepped
      · rename_i here
        cases stepped
        exact .nodeQuiet _ _ s.dsCtr (by rw [here]; exact .requested request)
      · cases stepped
  | node => exact nodeStep_moved stepped
  | dataset k => exact datasetStep_moved k stepped
  | pushJob job =>
      cases stepped
      exact .pushed job
  | worker w => exact .worker w t (workerStep_moved stepped)

end Inversion

structure Quiet (s t : State K) : Prop where
  node : t.node = s.node
  threads : t.threads = s.threads
  data : ∀ i, (t.ds i).data = (s.ds i).data
  loadedId : ∀ i, (t.ds i).loadedId = (s.ds i).loadedId
  readyId : ∀ i, (t.ds i).readyId = (s.ds i).readyId
  writer : ∀ i, (t.ds i).mtx.writer = (s.ds i).mtx.writer

section Quiet

variable {s t : State K}

theorem quiet_setWorker (s : State K) (w : Fin hashThdCount) (i : SlotIdx)
    (mtx : SharedMutex Nat (Fin hashThdCount)) (pc : WorkerPc K)
    (writer : mtx.writer = (s.ds i).mtx.writer) :
    Quiet s ((s.setSlot i { s.ds i with mtx := mtx }).setWorker w pc) := by
  have slot : ∀ j, (Function.update s.ds i { s.ds i with mtx := mtx } j).data = (s.ds j).data ∧
      (Function.update s.ds i { s.ds i with mtx := mtx } j).loadedId = (s.ds j).loadedId ∧
      (Function.update s.ds i { s.ds i with mtx := mtx } j).readyId = (s.ds j).readyId ∧
      (Function.update s.ds i { s.ds i with mtx := mtx } j).mtx.writer = (s.ds j).mtx.writer := by
    intro j
    by_cases same : j = i
    · subst same
      simp [writer]
    · simp [same]
  exact ⟨rfl, rfl, fun j => (slot j).1, fun j => (slot j).2.1, fun j => (slot j).2.2.1,
    fun j => (slot j).2.2.2⟩

theorem quiet_of_ds (node : t.node = s.node) (threads : t.threads = s.threads)
    (ds : t.ds = s.ds) : Quiet s t :=
  ⟨node, threads, fun _ => by rw [ds], fun _ => by rw [ds], fun _ => by rw [ds],
    fun _ => by rw [ds]⟩

theorem workerMoved_quiet {w : Fin hashThdCount} (moved : WorkerMoved s w t) : Quiet s t := by
  cases moved with
  | sharedLocked job i mtx here free still readers =>
      exact quiet_setWorker s w i mtx _ (by rw [still, free])
  | released i here => exact quiet_setWorker s w i _ _ rfl
  | popped | found | passed | missed | refused | confirmed | hashed | failed
  | finished =>
      exact quiet_of_ds rfl rfl rfl

end Quiet

def inSection : DatasetPc K → Bool
  | .inside _ => true
  | .unlock => true
  | _ => false

/-- The mutex of a slot is held by the thread that is between its lock and its unlock. -/
structure Held (s : State K) : Prop where
  inside : ∀ t thd, s.threads[t]? = some thd →
    (inSection thd.pc = true ↔ (s.ds thd.idx).mtx.writer = some t)
  known : ∀ i t, (s.ds i).mtx.writer = some t → ∃ thd, s.threads[t]? = some thd ∧ thd.idx = i

section Locks

variable {s : State K}

theorem Held.unique (held : Held s) {t u : Nat} {thd other : DatasetThd K}
    (first : s.threads[t]? = some thd) (second : s.threads[u]? = some other)
    (same : thd.idx = other.idx) (mine : inSection thd.pc = true)
    (theirs : inSection other.pc = true) : t = u := by
  have one := (held.inside t thd first).mp mine
  have two := (held.inside u other second).mp theirs
  rw [same, two] at one
  exact (Option.some.inj one).symm

theorem held_of_writer (held : Held s) (t : State K) (threads : t.threads = s.threads)
    (writer : ∀ i, (t.ds i).mtx.writer = (s.ds i).mtx.writer) : Held t where
  inside k thd present := by
    rw [threads] at present
    rw [writer]
    exact held.inside k thd present
  known i k taken := by
    rw [writer] at taken
    rw [threads]
    exact held.known i k taken

theorem setSlot_writer (i : SlotIdx) (slot : Slot K) (same : slot.mtx = (s.ds i).mtx)
    (j : SlotIdx) : ((s.setSlot i slot).ds j).mtx.writer = (s.ds j).mtx.writer := by
  by_cases here : j = i
  · subst here
    simp [State.setSlot, same]
  · simp [State.setSlot, here]

theorem held_spawned (held : Held s) (i : SlotIdx) :
    Held { s with threads := s.threads ++ [⟨i, .lock⟩], node := .idle } where
  inside t thd present := by
    rcases Nat.lt_or_ge t s.threads.length with old | new
    · exact held.inside t thd (by simpa [List.getElem?_append_left old] using present)
    · rw [List.getElem?_append_right new] at present
      have fresh : thd = ⟨i, .lock⟩ := List.mem_singleton.mp (List.mem_of_getElem? present)
      subst fresh
      refine iff_of_false (by simp [inSection]) ?_
      intro taken
      obtain ⟨other, listed, _⟩ := held.known i t taken
      have bound : t < s.threads.length := (List.getElem?_eq_some_iff.mp listed).1
      omega
  known j t taken := by
    obtain ⟨thd, present, idx⟩ := held.known j t taken
    have bound : t < s.threads.length := (List.getElem?_eq_some_iff.mp present).1
    exact ⟨thd, by simpa [List.getElem?_append_left bound] using present, idx⟩

theorem setThread_getElem? (t u : Nat) (pc : DatasetPc K) :
    (s.setThread t pc).threads[u]? =
      (s.threads[u]?).map (fun thd => if t = u then { thd with pc := pc } else thd) := by
  simp only [State.setThread, List.getElem?_modify]
  rfl

theorem held_thread (held : Held s) (t : Nat) (thd : DatasetThd K)
    (present : s.threads[t]? = some thd) (slot : Slot K) (pc : DatasetPc K)
    (before : (s.ds thd.idx).mtx.writer = none ∨ (s.ds thd.idx).mtx.writer = some t)
    (after : slot.mtx.writer = if inSection pc then some t else none) :
    Held ((s.setSlot thd.idx slot).setThread t pc) where
  inside u other listed := by
    rw [setThread_getElem?] at listed
    obtain ⟨earlier, there, rfl⟩ := Option.map_eq_some_iff.mp listed
    change s.threads[u]? = some earlier at there
    by_cases own : t = u
    · subst own
      rw [present] at there
      cases there
      simp only [if_true, State.setThread, State.setSlot, Function.update_self, after]
      cases inSection pc with
      | true => simp
      | false => simp
    · simp only [if_neg own]
      by_cases same : earlier.idx = thd.idx
      · have notBefore : (s.ds earlier.idx).mtx.writer ≠ some u := by
          rw [same]
          rcases before with idle | taken
          · simp [idle]
          · simp [taken, own]
        have notAfter : slot.mtx.writer ≠ some u := by
          rw [after]
          split
          · simp [own]
          · simp
        have outside : inSection earlier.pc ≠ true :=
          fun within => notBefore ((held.inside u earlier there).mp within)
        simpa [State.setThread, State.setSlot, same, notAfter] using outside
      · simpa [State.setThread, State.setSlot, same] using held.inside u earlier there
  known i u taken := by
    by_cases same : i = thd.idx
    · subst same
      simp only [State.setThread, State.setSlot, Function.update_self, after] at taken
      split at taken
      · cases taken
        exact ⟨{ thd with pc := pc }, by simp [State.setThread, State.setSlot, present], rfl⟩
      · cases taken
    · simp only [State.setThread, State.setSlot, Function.update_of_ne same] at taken
      obtain ⟨other, listed, idx⟩ := held.known i u taken
      have there : (s.setSlot thd.idx slot).threads[u]? = some other := listed
      rw [setThread_getElem?, there]
      refine ⟨_, rfl, ?_⟩
      split
      · exact idx
      · exact idx

theorem moved_held {t : State K} {a : Action K} (held : Held s) (moved : Moved s a t) : Held t := by
  cases moved with
  | nodeQuiet _ pc dsCtr quiet => exact held_of_writer held _ rfl (fun _ => rfl)
  | retracted request i here =>
      exact held_of_writer held _ rfl (setSlot_writer i { s.ds i with readyId := invalidId } rfl)
  | assigned request i here =>
      exact held_of_writer held _ rfl
        (setSlot_writer i { s.ds i with data := K.assign request (s.ds i).data } rfl)
  | loaded request i here =>
      exact held_of_writer held _ rfl
        (setSlot_writer i { s.ds i with loadedId := K.requestId request } rfl)
  | spawned i here => exact held_spawned held i
  | locked k thd mtx present here free nobody taken still =>
      exact held_thread held k thd present _ _ (.inl free) (by simp [inSection, taken])
  | worked k thd phase data next present here ran =>
      have mine := (held.inside k thd present).mp (by rw [here]; rfl)
      exact held_thread held k thd present _ _ (.inr mine) (by simp [inSection, mine])
  | stored k thd phase data id present here ran =>
      have mine := (held.inside k thd present).mp (by rw [here]; rfl)
      exact held_thread held k thd present _ _ (.inr mine) (by simp [inSection, mine])
  | unlocked k thd present here =>
      have mine := (held.inside k thd present).mp (by rw [here]; rfl)
      exact held_thread held k thd present _ _ (.inr mine) (by simp [inSection])
  | pushed job => exact held_of_writer held _ rfl (fun _ => rfl)
  | worker w _ moved =>
      have quiet := workerMoved_quiet moved
      exact held_of_writer held _ quiet.threads quiet.writer

end Locks

end EpicPoold.Hashpool
