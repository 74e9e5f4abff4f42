import EpicPoold.PpHashpool
import EpicPoold.RxHashpool

/-! Once no request is in progress and no dataset thread is left, each slot is ready for
what it was loaded for: the thread spawned last has seen the last request. -/

namespace EpicPoold

open Foundations Hashpool

namespace Hashpool

/-- What the data of a slot has to do with its loaded id. `fits` is that the data is the
target of the id; `good` is what a dataset thread that will publish the right id
knows of the data in each phase. -/
structure Settling (K : PoolKind) where
  valid : K.Request → Prop
  fits : UInt64 → K.Data → Prop
  built : K.Data → UInt64 → Prop
  good : UInt64 → K.Data → K.Phase → Prop
  valid_id : ∀ request, valid request → K.requestId request ≠ invalidId
  assign_fits : ∀ request data, fits (K.requestId request) (K.assign request data)
  entry_good : ∀ id data, fits id data → good id data K.entry
  body_fits : ∀ id loaded data phase, fits id data → fits id (K.body loaded data phase).1
  body_good : ∀ id data phase data' phase', fits id data → good id data phase →
    K.body id data phase = (data', .inl phase') → good id data' phase'
  body_built : ∀ id data phase data' stored, fits id data → good id data phase →
    K.body id data phase = (data', .inr stored) → stored = id ∧ built data' id

variable {K : PoolKind}

section Settle

variable (D : Settling K)

/-- Why a slot that the node thread leaves alone is ready or will be: nobody has asked
for it, it is ready, or some thread has still to read its target or has read it. -/
inductive Rest (s : State K) (i : SlotIdx) : Prop
  | untouched (loaded : (s.ds i).loadedId = invalidId) (ready : (s.ds i).readyId = invalidId)
      (nobody : ∀ (t : Nat) (thd : DatasetThd K), s.threads[t]? = some thd → thd.idx ≠ i)
  | clean (fits : D.fits (s.ds i).loadedId (s.ds i).data)
      (ready : (s.ds i).readyId = (s.ds i).loadedId)
      (built : D.built (s.ds i).data (s.ds i).loadedId)
      (outside : ∀ (t : Nat) (thd : DatasetThd K) (phase : K.Phase), s.threads[t]? = some thd →
        thd.idx = i → thd.pc ≠ .inside phase)
  | waiting (t : Nat) (thd : DatasetThd K) (present : s.threads[t]? = some thd) (idx : thd.idx = i)
      (lock : thd.pc = .lock) (fits : D.fits (s.ds i).loadedId (s.ds i).data)
  | working (t : Nat) (thd : DatasetThd K) (phase : K.Phase) (present : s.threads[t]? = some thd)
      (idx : thd.idx = i) (inside : thd.pc = .inside phase)
      (fits : D.fits (s.ds i).loadedId (s.ds i).data)
      (good : D.good (s.ds i).loadedId (s.ds i).data phase)

def Touching (s : State K) (i : SlotIdx) : Prop :=
  (∃ request, s.node = .assignSeed request i) ∨ (∃ request, s.node = .storeLoaded request i) ∨
    s.node = .spawn i

inductive SlotOk (s : State K) (i : SlotIdx) : Prop
  | assigning (request : K.Request) (here : s.node = .assignSeed request i)
  | loading (request : K.Request) (here : s.node = .storeLoaded request i)
      (fits : D.fits (K.requestId request) (s.ds i).data)
  | spawning (here : s.node = .spawn i) (fits : D.fits (s.ds i).loadedId (s.ds i).data)
  | resting (apart : ¬ Touching s i) (rest : Rest D s i)

variable {D} {s t : State K}

theorem Rest.frame {i : SlotIdx} (rest : Rest D s i) (threads : t.threads = s.threads)
    (data : (t.ds i).data = (s.ds i).data) (loaded : (t.ds i).loadedId = (s.ds i).loadedId)
    (ready : (t.ds i).readyId = (s.ds i).readyId) : Rest D t i := by
  cases rest with
  | untouched none retracted nobody =>
      exact .untouched (loaded.trans none) (ready.trans retracted) (by rwa [threads])
  | clean fits same built outside =>
      refine .clean ?_ ?_ ?_ (by rwa [threads])
      · rwa [loaded, data]
      · rw [ready, loaded, same]
      · rwa [loaded, data]
  | waiting k thd present idx lock fits =>
      exact .waiting k thd (by rwa [threads]) idx lock (by rwa [loaded, data])
  | working k thd phase present idx inside fits good =>
      exact .working k thd phase (by rwa [threads]) idx inside (by rwa [loaded, data])
        (by rwa [loaded, data])

theorem SlotOk.rest {i : SlotIdx} (ok : SlotOk D s i) (apart : ¬ Touching s i) : Rest D s i := by
  cases ok with
  | assigning request here => exact absurd (.inl ⟨request, here⟩) apart
  | loading request here fits => exact absurd (.inr (.inl ⟨request, here⟩)) apart
  | spawning here fits => exact absurd (.inr (.inr here)) apart
  | resting apart rest => exact rest

theorem SlotOk.threaded {i : SlotIdx} (ok : SlotOk D s i) (node : t.node = s.node)
    (fitting : ∀ id, D.fits id (s.ds i).data → D.fits id (t.ds i).data)
    (loaded : (t.ds i).loadedId = (s.ds i).loadedId) (settling : Rest D s i → Rest D t i) :
    SlotOk D t i := by
  cases ok with
  | assigning request here => exact .assigning request (node.trans here)
  | loading request here fits => exact .loading request (node.trans here) (fitting _ fits)
  | spawning here fits =>
      refine .spawning (node.trans here) ?_
      rw [loaded]
      exact fitting _ fits
  | resting apart rest =>
      refine .resting ?_ (settling rest)
      rwa [Touching, node]

theorem SlotOk.elsewhere {i j : SlotIdx} (ok : SlotOk D s j) (other : j ≠ i) (slot : Slot K)
    (node : NodePc K) (before : ¬ Touching s j)
    (after : ¬ Touching { s.setSlot i slot with node := node } j) :
    SlotOk D { s.setSlot i slot with node := node } j := by
  refine .resting after ((ok.rest before).frame rfl ?_ ?_ ?_)
  · simp [State.setSlot, other]
  · simp [State.setSlot, other]
  · simp [State.setSlot, other]

theorem Rest.fits_of_thread {i : SlotIdx} (rest : Rest D s i) {k : Nat} {thd : DatasetThd K}
    (present : s.threads[k]? = some thd) (idx : thd.idx = i) :
    D.fits (s.ds i).loadedId (s.ds i).data := by
  cases rest with
  | untouched _ _ nobody => exact absurd idx (nobody k thd present)
  | clean fits => exact fits
  | waiting _ _ _ _ _ fits => exact fits
  | working _ _ _ _ _ _ fits => exact fits

theorem setThread_other {k u : Nat} (other : u ≠ k) (pc : DatasetPc K) :
    (s.setThread k pc).threads[u]? = s.threads[u]? := by
  simp [setThread_getElem?, Ne.symm other]

theorem setThread_idx {k u : Nat} {pc : DatasetPc K} {thd : DatasetThd K}
    (present : (s.setThread k pc).threads[u]? = some thd) :
    ∃ earlier, s.threads[u]? = some earlier ∧ earlier.idx = thd.idx := by
  rw [setThread_getElem?] at present
  obtain ⟨earlier, there, rfl⟩ := Option.map_eq_some_iff.mp present
  refine ⟨earlier, there, ?_⟩
  split
  · rfl
  · rfl

theorem Rest.otherThread {i : SlotIdx} (rest : Rest D s i) {k : Nat} {thd : DatasetThd K}
    (present : s.threads[k]? = some thd) (other : i ≠ thd.idx) (slot : Slot K)
    (pc : DatasetPc K) : Rest D ((s.setSlot thd.idx slot).setThread k pc) i := by
  have same : ((s.setSlot thd.idx slot).setThread k pc).ds i = s.ds i := by
    simp [State.setThread, State.setSlot, other]
  have apart : ∀ (u : Nat) (mine : DatasetThd K), s.threads[u]? = some mine → mine.idx = i →
      u ≠ k := by
    intro u mine listed idx equal
    subst equal
    rw [present] at listed
    cases listed
    exact other idx.symm
  have kept : ∀ (u : Nat) (mine : DatasetThd K), s.threads[u]? = some mine → mine.idx = i →
      ((s.setSlot thd.idx slot).setThread k pc).threads[u]? = some mine := by
    intro u mine listed idx
    rw [setThread_other (apart u mine listed idx)]
    exact listed
  cases rest with
  | untouched none retracted nobody =>
      refine .untouched (by rw [same, none]) (by rw [same, retracted]) ?_
      intro u later listed
      obtain ⟨earlier, there, idx⟩ := setThread_idx listed
      rw [← idx]
      exact nobody u earlier there
  | clean fits ready built outside =>
      refine .clean (by rwa [same]) (by rw [same, ready]) (by rwa [same]) ?_
      intro u later phase listed idx
      obtain ⟨earlier, there, sameIdx⟩ := setThread_idx listed
      have unchanged := kept u earlier there (sameIdx.trans idx)
      rw [listed] at unchanged
      cases unchanged
      exact outside u later phase there idx
  | waiting u mine listed idx lock fits =>
      exact .waiting u mine (kept u mine listed idx) idx lock (by rwa [same])
  | working u mine phase listed idx inside fits good =>
      exact .working u mine phase (kept u mine listed idx) idx inside (by rwa [same])
        (by rwa [same])

section Thread

variable {k : Nat} {thd : DatasetThd K} (present : s.threads[k]? = some thd)
include present

theorem setThread_self (slot : Slot K) (pc : DatasetPc K) :
    ((s.setSlot thd.idx slot).setThread k pc).threads[k]? = some { thd with pc := pc } := by
  simp [State.setThread, State.setSlot, present]

theorem setThread_unlike {u : Nat} {mine : DatasetThd K} (listed : s.threads[u]? = some mine)
    (differs : mine.pc ≠ thd.pc) (slot : Slot K) (pc : DatasetPc K) :
    ((s.setSlot thd.idx slot).setThread k pc).threads[u]? = some mine := by
  have other : u ≠ k := by
    intro equal
    subst equal
    rw [present] at listed
    cases listed
    exact differs rfl
  rw [setThread_other other]
  exact listed

theorem Rest.locked (rest : Rest D s thd.idx) (mtx : SharedMutex Nat (Fin hashThdCount)) :
    Rest D ((s.setSlot thd.idx { s.ds thd.idx with mtx := mtx }).setThread k (.inside K.entry))
      thd.idx := by
  have fits := rest.fits_of_thread present rfl
  refine .working k { thd with pc := .inside K.entry } K.entry (setThread_self present _ _) rfl
    rfl ?_ ?_
  · simpa [State.setThread, State.setSlot] using fits
  · simpa [State.setThread, State.setSlot] using D.entry_good _ _ fits

theorem Rest.worked (held : Held s) (rest : Rest D s thd.idx) {phase : K.Phase} {data : K.Data}
    {following : K.Phase} (here : thd.pc = .inside phase)
    (ran : K.body (s.ds thd.idx).loadedId (s.ds thd.idx).data phase = (data, .inl following)) :
    Rest D ((s.setSlot thd.idx { s.ds thd.idx with data := data }).setThread k (.inside following))
      thd.idx := by
  have fits := rest.fits_of_thread present rfl
  have stillFits : D.fits (s.ds thd.idx).loadedId data := by
    have kept := D.body_fits _ (s.ds thd.idx).loadedId _ phase fits
    rwa [ran] at kept
  cases rest with
  | untouched _ _ nobody => exact absurd rfl (nobody k thd present)
  | clean _ _ _ outside => exact absurd here (outside k thd phase present rfl)
  | waiting u mine listed idx lock _ =>
      have differs : mine.pc ≠ thd.pc := by simp [lock, here]
      exact .waiting u mine (setThread_unlike present listed differs _ _) idx lock
        (by simpa [State.setThread, State.setSlot])
  | working u mine other listed idx inside _ good =>
      have own : u = k :=
        held.unique listed present idx (by rw [inside]; rfl) (by rw [here]; rfl)
      subst own
      rw [present] at listed
      cases listed
      rw [here] at inside
      cases inside
      refine .working u { thd with pc := .inside following } following
        (setThread_self present _ _) rfl rfl ?_ ?_
      · simpa [State.setThread, State.setSlot] using stillFits
      · simpa [State.setThread, State.setSlot] using D.body_good _ _ _ _ _ fits good ran

theorem Rest.stored (held : Held s) (rest : Rest D s thd.idx) {phase : K.Phase} {data : K.Data}
    {id : UInt64} (here : thd.pc = .inside phase)
    (ran : K.body (s.ds thd.idx).loadedId (s.ds thd.idx).data phase = (data, .inr id)) :
    Rest D
      ((s.setSlot thd.idx { s.ds thd.idx with data := data, readyId := id }).setThread k .unlock)
      thd.idx := by
  have fits := rest.fits_of_thread present rfl
  have stillFits : D.fits (s.ds thd.idx).loadedId data := by
    have kept := D.body_fits _ (s.ds thd.idx).loadedId _ phase fits
    rwa [ran] at kept
  cases rest with
  | untouched _ _ nobody => exact absurd rfl (nobody k thd present)
  | clean _ _ _ outside => exact absurd here (outside k thd phase present rfl)
  | waiting u mine listed idx lock _ =>
      have differs : mine.pc ≠ thd.pc := by simp [lock, here]
      exact .waiting u mine (setThread_unlike present listed differs _ _) idx lock
        (by simpa [State.setThread, State.setSlot])
  | working u mine other listed idx inside _ good =>
      have own : u = k :=
        held.unique listed present idx (by rw [inside]; rfl) (by rw [here]; rfl)
      subst own
      rw [present] at listed
      cases listed
      rw [here] at inside
      cases inside
      obtain ⟨right, built⟩ := D.body_built _ _ _ _ _ fits good ran
      refine .clean ?_ ?_ ?_ ?_
      · simpa [State.setThread, State.setSlot] using stillFits
      · simpa [State.setThread, State.setSlot] using right
      · simpa [State.setThread, State.setSlot] using built
      · intro v later phase' found idx' within
        by_cases self : v = u
        · subst self
          rw [setThread_self present] at found
          cases found
          cases within
        · rw [setThread_other self] at found
          exact self (held.unique found present idx' (by rw [within]; rfl) (by rw [here]; rfl))

theorem Rest.unlocked (rest : Rest D s thd.idx) (here : thd.pc = .unlock)
    (mtx : SharedMutex Nat (Fin hashThdCount)) :
    Rest D ((s.setSlot thd.idx { s.ds thd.idx with mtx := mtx }).setThread k .done) thd.idx := by
  cases rest with
  | untouched _ _ nobody => exact absurd rfl (nobody k thd present)
  | clean fits ready built outside =>
      refine .clean ?_ ?_ ?_ ?_
      · simpa [State.setThread, State.setSlot] using fits
      · simpa [State.setThread, State.setSlot] using ready
      · simpa [State.setThread, State.setSlot] using built
      · intro v later phase found idx within
        by_cases self : v = k
        · subst self
          rw [setThread_self present] at found
          cases found
          cases within
        · rw [setThread_other self] at found
          exact outside v later phase found idx within
  | waiting u mine listed idx lock fits =>
      have differs : mine.pc ≠ thd.pc := by simp [lock, here]
      exact .waiting u mine (setThread_unlike present listed differs _ _) idx lock
        (by simpa [State.setThread, State.setSlot] using fits)
  | working u mine phase listed idx inside fits good =>
      have differs : mine.pc ≠ thd.pc := by simp [inside, here]
      refine .working u mine phase (setThread_unlike present listed differs _ _) idx inside ?_ ?_
      · simpa [State.setThread, State.setSlot] using fits
      · simpa [State.setThread, State.setSlot] using good

theorem slots_thread (ok : ∀ i, SlotOk D s i) (slot : Slot K) (pc : DatasetPc K)
    (loaded : slot.loadedId = (s.ds thd.idx).loadedId)
    (fitting : ∀ id, D.fits id (s.ds thd.idx).data → D.fits id slot.data)
    (settling : Rest D s thd.idx →
      Rest D ((s.setSlot thd.idx slot).setThread k pc) thd.idx) (i : SlotIdx) :
    SlotOk D ((s.setSlot thd.idx slot).setThread k pc) i := by
  by_cases mine : i = thd.idx
  · subst mine
    refine (ok thd.idx).threaded rfl ?_ ?_ settling
    · simpa [State.setThread, State.setSlot] using fitting
    · simpa [State.setThread, State.setSlot] using loaded
  · refine (ok i).threaded rfl ?_ ?_ (fun rest => rest.otherThread present mine slot pc)
    · simp [State.setThread, State.setSlot, mine]
    · simp [State.setThread, State.setSlot, mine]

end Thread

theorem NodeQuiet.apart {before after : NodePc K} (quiet : NodeQuiet before after)
    (i : SlotIdx) (here : s.node = before) (there : t.node = after) :
    ¬ Touching s i ∧ ¬ Touching t i := by
  cases quiet with
  | requested => simp [Touching, here, there]
  | found => simp [Touching, here, there]
  | missed => simp [Touching, here, there]
  | absent => simp [Touching, here, there]
  | counted => simp [Touching, here, there]

theorem slots_spawned (ok : ∀ i, SlotOk D s i) {j : SlotIdx} (here : s.node = .spawn j)
    (i : SlotIdx) : SlotOk D { s with threads := s.threads ++ [⟨j, .lock⟩], node := .idle } i := by
  refine .resting (by simp [Touching]) ?_
  have kept : ∀ (u : Nat) (thd : DatasetThd K), s.threads[u]? = some thd →
      (s.threads ++ [⟨j, .lock⟩])[u]? = some thd := by
    intro u thd present
    rw [List.getElem?_append_left (List.getElem?_eq_some_iff.mp present).1]
    exact present
  have known : ∀ (u : Nat) (thd : DatasetThd K), (s.threads ++ [⟨j, .lock⟩])[u]? = some thd →
      s.threads[u]? = some thd ∨ thd = ⟨j, .lock⟩ := by
    intro u thd present
    rcases Nat.lt_or_ge u s.threads.length with old | new
    · rw [List.getElem?_append_left old] at present
      exact .inl present
    · rw [List.getElem?_append_right new] at present
      exact .inr (List.mem_singleton.mp (List.mem_of_getElem? present))
  by_cases mine : i = j
  · subst mine
    have fits : D.fits (s.ds i).loadedId (s.ds i).data := by
      cases ok i with
      | assigning _ there => simp [here] at there
      | loading _ there => simp [here] at there
      | spawning _ fits => exact fits
      | resting apart => exact absurd (.inr (.inr here)) apart
    exact .waiting s.threads.length ⟨i, .lock⟩ (by simp) rfl rfl fits
  · have apart : ¬ Touching s i := by simp [Touching, here, Ne.symm mine]
    cases (ok i).rest apart with
    | untouched none retracted nobody =>
        refine .untouched none retracted ?_
        intro u thd present
        rcases known u thd present with old | rfl
        · exact nobody u thd old
        · exact Ne.symm mine
    | clean fits ready built outside =>
        refine .clean fits ready built ?_
        intro u thd phase present idx
        rcases known u thd present with old | rfl
        · exact outside u thd phase old idx
        · simp
    | waiting u thd present idx lock fits =>
        exact .waiting u thd (kept u thd present) idx lock fits
    | working u thd phase present idx inside fits good =>
        exact .working u thd phase (kept u thd present) idx inside fits good

theorem quiet_slots (ok : ∀ i, SlotOk D s i) (quiet : Quiet s t) : ∀ i, SlotOk D t i := by
  intro i
  refine (ok i).threaded quiet.node ?_ (quiet.loadedId i) ?_
  · intro id fits
    rwa [quiet.data i]
  · intro rest
    exact rest.frame quiet.threads (quiet.data i) (quiet.loadedId i) (quiet.readyId i)

theorem moved_slots {a : Action K} (held : Held s) (ok : ∀ i, SlotOk D s i) (moved : Moved s a t) :
    ∀ i, SlotOk D t i := by
  cases moved with
  | nodeQuiet _ pc dsCtr quiet =>
      intro i
      obtain ⟨before, after⟩ :=
        quiet.apart (s := s) (t := { s with node := pc, dsCtr := dsCtr }) i rfl rfl
      exact .resting after (((ok i).rest before).frame rfl rfl rfl rfl)
  | retracted request i here =>
      intro j
      by_cases mine : j = i
      · subst mine
        exact .assigning request rfl
      · exact (ok j).elsewhere mine _ _ (by simp [Touching, here])
          (by simp [Touching, Ne.symm mine])
  | assigned request i here =>
      intro j
      by_cases mine : j = i
      · subst mine
        refine .loading request rfl ?_
        simpa [State.setSlot] using D.assign_fits request (s.ds j).data
      · exact (ok j).elsewhere mine _ _ (by simp [Touching, here, Ne.symm mine])
          (by simp [Touching, Ne.symm mine])
  | loaded request i here =>
      intro j
      by_cases mine : j = i
      · subst mine
        refine .spawning rfl ?_
        cases ok j with
        | assigning _ there => simp [here] at there
        | loading other there fits =>
            rw [here] at there
            cases there
            simpa [State.setSlot] using fits
        | spawning there => simp [here] at there
        | resting apart => exact absurd (.inr (.inl ⟨request, here⟩)) apart
      · exact (ok j).elsewhere mine _ _ (by simp [Touching, here, Ne.symm mine])
          (by simp [Touching, Ne.symm mine])
  | spawned i here => exact slots_spawned ok here
  | locked k thd mtx present here free nobody taken still =>
      exact slots_thread present ok _ _ rfl (fun _ fits => fits)
        (fun rest => rest.locked present mtx)
  | worked k thd phase data following present here ran =>
      refine slots_thread present ok _ _ rfl ?_ (fun rest => rest.worked present held here ran)
      intro id fits
      have kept := D.body_fits id (s.ds thd.idx).loadedId _ phase fits
      rwa [ran] at kept
  | stored k thd phase data id present here ran =>
      refine slots_thread present ok _ _ rfl ?_ (fun rest => rest.stored present held here ran)
      intro id fits
      have kept := D.body_fits id (s.ds thd.idx).loadedId _ phase fits
      rwa [ran] at kept
  | unlocked k thd present here =>
      exact slots_thread present ok _ _ rfl (fun _ fits => fits)
        (fun rest => rest.unlocked present here _)
  | pushed job => exact quiet_slots ok (quiet_of_ds rfl rfl rfl)
  | worker w _ moved => exact quiet_slots ok (workerMoved_quiet moved)

end Settle

section Settled

variable (D : Settling K)

def AtRest (s : State K) : Prop :=
  s.node = .idle ∧ ∀ thd ∈ s.threads, thd.pc = .done

def HasDataset (s : State K) (request : K.Request) : Prop :=
  ∃ i, (s.ds i).loadedId = K.requestId request

/-- A worker that starts on the job here runs to its end, without error and with data
built for the job's id. -/
def Hashes (s : State K) (w : Fin hashThdCount) (job : K.Job) : Prop :=
  ∃ n t data, (system K).runWhile (fun _ _ => true) (s.setWorker w (.scan job 0))
      (List.replicate n (.worker w)) = some t ∧
    t.finished = ⟨job, false, some data⟩ :: s.finished ∧ D.built data (K.jobId job)

/-- Every slot is ready for what it was loaded for, its data is the one for that id unless
no request ever reached it, and the workers can use it. -/
structure Settled (s : State K) : Prop where
  ready : ∀ i, (s.ds i).readyId = (s.ds i).loadedId
  built : ∀ i, D.built (s.ds i).data (s.ds i).loadedId ∨
    (s.ds i).loadedId = invalidId ∧ ∀ thd ∈ s.threads, thd.idx ≠ i
  usable : ∀ request, D.valid request → HasDataset s request →
    ∀ w job, K.jobId job = K.requestId request → Hashes D s w job

variable {D} {s : State K}

def Finishes (s : State K) (w : Fin hashThdCount) (steps : Nat) (job : K.Job) (data : K.Data) :
    Prop :=
  ∃ t, (system K).runWhile (fun _ _ => true) s (List.replicate steps (.worker w)) = some t ∧
    t.finished = ⟨job, false, some data⟩ :: s.finished

theorem Finishes.before {t : State K} {w : Fin hashThdCount} {steps : Nat} {job : K.Job}
    {data : K.Data} (rest : Finishes t w steps job data)
    (stepped : workerStep s w = some t) (finished : t.finished = s.finished) :
    Finishes s w (steps + 1) job data := by
  obtain ⟨last, ran, reported⟩ := rest
  refine ⟨last, ?_, by rw [reported, finished]⟩
  rw [List.replicate_succ, System.runWhile, if_pos rfl]
  change (workerStep s w).bind _ = _
  rw [stepped]
  exact ran

theorem finishes_hash (s : State K) (w : Fin hashThdCount) (job : K.Job) (i : SlotIdx)
    (here : s.workers w = .hash job i) : Finishes s w 2 job (s.ds i).data := by
  have last : Finishes (s.setWorker w (.finish job (some i) (some (s.ds i).data))) w 1 job
      (s.ds i).data := by
    let reported : State K :=
      { s.setWorker w (.finish job (some i) (some (s.ds i).data)) with
        finished := ⟨job, false, some (s.ds i).data⟩ :: s.finished }
    refine ⟨reported.setWorker w (.unlockShared i), ?_, rfl⟩
    simp [System.runWhile, system, next, workerStep, State.setWorker, reported]
  refine last.before ?_ rfl
  simp [workerStep, here]

theorem finishes_recheck (s : State K) (w : Fin hashThdCount) (job : K.Job) (i : SlotIdx)
    (here : s.workers w = .recheck job i) (found : (s.ds i).readyId = K.jobId job) :
    Finishes s w 3 job (s.ds i).data := by
  have rest := finishes_hash (s.setWorker w (.hash job i)) w job i (by simp [State.setWorker])
  refine rest.before ?_ rfl
  simp [workerStep, here, found]

theorem finishes_lockShared (s : State K) (w : Fin hashThdCount) (job : K.Job) (i : SlotIdx)
    (here : s.workers w = .lockShared job i) (found : (s.ds i).readyId = K.jobId job)
    (unlocked : (s.ds i).mtx.writer = none) : Finishes s w 4 job (s.ds i).data := by
  have taken : (s.ds i).mtx.lockShared w =
      some ⟨none, insert w (s.ds i).mtx.readers, by simp⟩ := dif_pos unlocked
  have rest := finishes_recheck
    ((s.setSlot i { s.ds i with mtx := ⟨none, insert w (s.ds i).mtx.readers, by simp⟩ }).setWorker
      w (.recheck job i)) w job i (by simp [State.setWorker])
    (by simpa [State.setWorker, State.setSlot] using found)
  simp only [State.setWorker, State.setSlot, Function.update_self] at rest
  refine rest.before ?_ rfl
  simp only [workerStep, here, taken, Option.map_some, State.setWorker, State.setSlot]

theorem finishes_found (s : State K) (w : Fin hashThdCount) (job : K.Job) (i : SlotIdx)
    (here : s.workers w = .scan job i.val) (found : (s.ds i).readyId = K.jobId job)
    (unlocked : (s.ds i).mtx.writer = none) : Finishes s w 5 job (s.ds i).data := by
  have rest := finishes_lockShared (s.setWorker w (.lockShared job i)) w job i
    (by simp [State.setWorker]) found unlocked
  refine rest.before ?_ rfl
  simp only [workerStep, here]
  rw [dif_pos i.isLt, if_pos found]

theorem hashes_of_ready (w : Fin hashThdCount) (job : K.Job)
    (unlocked : ∀ i, (s.ds i).mtx.writer = none)
    (built : ∀ i, (s.ds i).readyId = K.jobId job → D.built (s.ds i).data (K.jobId job))
    (ready : ∃ i, (s.ds i).readyId = K.jobId job) : Hashes D s w job := by
  have scanning : (s.setWorker w (.scan job 0)).workers w = .scan job 0 := by
    simp [State.setWorker]
  by_cases first : (s.ds 0).readyId = K.jobId job
  · obtain ⟨t, ran, finished⟩ :=
      finishes_found (s.setWorker w (.scan job 0)) w job 0 scanning first (unlocked 0)
    exact ⟨5, t, (s.ds 0).data, ran, finished, built 0 first⟩
  · have second : (s.ds 1).readyId = K.jobId job :=
      (Fin.exists_fin_two.mp ready).resolve_left first
    have rest : Finishes (s.setWorker w (.scan job 1)) w 5 job (s.ds 1).data :=
      finishes_found (s.setWorker w (.scan job 1)) w job 1 (by simp [State.setWorker]) second
        (unlocked 1)
    obtain ⟨t, ran, finished⟩ : Finishes (s.setWorker w (.scan job 0)) w 6 job (s.ds 1).data := by
      refine rest.before ?_ rfl
      simp only [workerStep, scanning]
      rw [dif_pos (by decide)]
      simp [State.setWorker, first]
    exact ⟨6, t, (s.ds 1).data, ran, finished, built 1 second⟩

theorem start_held (start : Start s) : Held s where
  inside t thd present := by simp [start.threads] at present
  known i t taken := by simp [(start.slots i).2.2.2, SharedMutex.free] at taken

theorem start_slots (start : Start s) (i : SlotIdx) : SlotOk D s i := by
  refine .resting (by simp [Touching, start.idle]) ?_
  obtain ⟨_, loaded, ready, _⟩ := start.slots i
  exact .untouched loaded ready (by simp [start.threads])

theorem reachable_slots (D : Settling K) (s : State K) (reached : (system K).Reachable s) :
    Held s ∧ ∀ i, SlotOk D s i := by
  refine reached.invariant (fun s => Held s ∧ ∀ i, SlotOk D s i) ?_ ?_
  · intro s start
    exact ⟨start_held start, start_slots start⟩
  · intro s a t _ before stepped
    have moved := next_moved stepped
    exact ⟨moved_held before.1 moved, moved_slots before.1 before.2 moved⟩

theorem slot_at_rest (ok : ∀ i, SlotOk D s i) (rest : AtRest s) (i : SlotIdx) :
    (s.ds i).readyId = (s.ds i).loadedId ∧
      (D.built (s.ds i).data (s.ds i).loadedId ∨
        (s.ds i).loadedId = invalidId ∧ ∀ thd ∈ s.threads, thd.idx ≠ i) := by
  have apart : ¬ Touching s i := by simp [Touching, rest.1]
  cases (ok i).rest apart with
  | untouched loaded ready nobody =>
      refine ⟨by rw [ready, loaded], .inr ⟨loaded, ?_⟩⟩
      intro thd member
      obtain ⟨t, present⟩ := List.mem_iff_getElem?.mp member
      exact nobody t thd present
  | clean _ ready built _ => exact ⟨ready, .inl built⟩
  | waiting t thd present _ lock _ =>
      have done := rest.2 thd (List.mem_of_getElem? present)
      rw [lock] at done
      cases done
  | working t thd phase present _ inside _ _ =>
      have done := rest.2 thd (List.mem_of_getElem? present)
      rw [inside] at done
      cases done

theorem unlocked_at_rest (held : Held s) (rest : AtRest s) (i : SlotIdx) :
    (s.ds i).mtx.writer = none := by
  cases taken : (s.ds i).mtx.writer with
  | none => rfl
  | some t =>
      obtain ⟨thd, present, idx⟩ := held.known i t taken
      subst idx
      have within := (held.inside t thd present).mpr taken
      rw [rest.2 thd (List.mem_of_getElem? present)] at within
      cases within

theorem settled_of_atRest (D : Settling K) (s : State K) (reached : (system K).Reachable s)
    (rest : AtRest s) : Settled D s := by
  obtain ⟨held, ok⟩ := reachable_slots D s reached
  refine ⟨fun i => (slot_at_rest ok rest i).1, fun i => (slot_at_rest ok rest i).2, ?_⟩
  rintro request valid ⟨j, loaded⟩ w job id
  refine hashes_of_ready w job (unlocked_at_rest held rest) ?_ ?_
  · intro i found
    obtain ⟨ready, built | ⟨none, _⟩⟩ := slot_at_rest ok rest i
    · rwa [← found, ready]
    · rw [ready, none, id] at found
      exact absurd found.symm (D.valid_id request valid)
  · exact ⟨j, by rw [(slot_at_rest ok rest j).1, loaded, id]⟩

end Settled

end Hashpool

namespace RxHashpool

/-- A dataset thread is about to publish the right id if the seed it has read, in the
cache or as an id, is still the slot's. -/
def settling : Settling kind where
  valid _ := True
  fits id d := d.dsSeed.getId = id
  built d id := ∃ seed, d.ch = some seed ∧ seed.getId = id
  good id d
    | .initCache => True
    | .getId => d.ch = some d.dsSeed
    | .storeReady stored => stored = id ∧ d.ch = some d.dsSeed
  valid_id request _ := request.getId_ne_invalid
  assign_fits _ _ := rfl
  entry_good _ _ _ := trivial
  body_fits id loaded d phase fits := by
    cases phase with
    | initCache => exact fits
    | getId => exact fits
    | storeReady stored => exact fits
  body_good id d phase d' phase' fits good ran := by
    cases phase with
    | initCache =>
        cases ran
        rfl
    | getId =>
        cases ran
        exact ⟨fits, good⟩
    | storeReady stored => cases ran
  body_built id d phase d' stored fits good ran := by
    cases phase with
    | initCache => cases ran
    | getId => cases ran
    | storeReady read =>
        cases ran
        exact ⟨good.1, d.dsSeed, good.2, fits⟩

end RxHashpool

namespace PpHashpool

section Pool

variable (getEpochNumber : UInt64 → Int32) (heights : UInt64 → Prop)

/-- A dataset thread is about to publish the right epoch if the one it has read is still
the slot's. Epochs are numbered from zero. -/
def settling : Settling (kind getEpochNumber heights) where
  valid blockNumber := 0 ≤ getEpochNumber blockNumber
  fits _ _ := True
  built d id := LiveContext d (toEpoch id)
  good id d
    | .loadEpoch => True
    | .destroy epoch => epoch = id
    | .create epoch => epoch = id
    | .storeReady epoch => epoch = id ∧ LiveContext d (toEpoch id)
  valid_id _ nonneg := epochId_ne_invalid _ nonneg
  assign_fits _ _ := trivial
  entry_good _ _ _ := trivial
  body_fits _ _ _ _ _ := trivial
  body_good id d phase d' phase' fits good ran := by
    cases phase with
    | loadEpoch =>
        cases ran
        rfl
    | destroy epoch =>
        simp only [datasetThdMain] at ran
        split at ran
        · cases ran
          exact good
        · cases ran
          exact good
    | create epoch =>
        cases ran
        cases good
        exact ⟨rfl, destroy_then_create d _⟩
    | storeReady epoch => cases ran
  body_built id d phase d' stored fits good ran := by
    cases phase with
    | loadEpoch => cases ran
    | destroy epoch =>
        simp only [datasetThdMain] at ran
        split at ran
        · cases ran
        · cases ran
    | create epoch => cases ran
    | storeReady epoch =>
        cases ran
        exact good

end Pool

end PpHashpool

/-- Datasets settle in both pools: the dataset thread that gets a slot's lock last has read
the slot's last target. -/
theorem datasets_settle (getEpochNumber : UInt64 → Int32) (heights : UInt64 → Prop) :
    (∀ s, RxHashpool.system.Reachable s → AtRest s → Settled RxHashpool.settling s) ∧
      ∀ s, (PpHashpool.system getEpochNumber heights).Reachable s → AtRest s →
        Settled (PpHashpool.settling getEpochNumber heights) s :=
  ⟨settled_of_atRest RxHashpool.settling,
    settled_of_atRest (PpHashpool.settling getEpochNumber heights)⟩

def restedAfter (threads : Nat) {K : PoolKind} (s : State K) : Bool :=
  match s.node with
  | .idle => s.threads.length == threads && s.threads.all (fun thd =>
      match thd.pc with
      | .done => true
      | _ => false)
  | _ => false

theorem atRest_of_restedAfter (threads : Nat) {K : PoolKind} (s : State K)
    (rested : restedAfter threads s = true) : AtRest s ∧ s.threads.length = threads := by
  unfold restedAfter at rested
  split at rested
  · rename_i idle
    rw [Bool.and_eq_true, beq_iff_eq, List.all_eq_true] at rested
    refine ⟨⟨idle, ?_⟩, rested.1⟩
    intro thd member
    have finished := rested.2 thd member
    split at finished
    · assumption
    · cases finished
  · cases rested

/-- Three seeds are loaded into two slots and the third one's thread gets the lock before
the first one's; a block at the end of an epoch loads two epochs. -/
theorem datasets_settle_after_loads :
    (∃ s, s.threads.length = 3 ∧ Settled RxHashpool.settling s) ∧
      ∃ s, s.threads.length = 2 ∧
        Settled (PpHashpool.settling PpHashpool.epochOf30000 (· = 29999)) s := by
  have settle := datasets_settle PpHashpool.epochOf30000 (· = 29999)
  constructor
  · obtain ⟨s, reached, rested⟩ := System.exists_reachable (S := RxHashpool.system)
      (RxHashpool.fresh_start V32.setAllZero)
      (RxHashpool.load (RxHashpool.uniformSeed 1) ++ RxHashpool.load (RxHashpool.uniformSeed 2) ++
        RxHashpool.load (RxHashpool.uniformSeed 3) ++
        [2, 0, 1].flatMap (fun t => List.replicate 5 (.dataset t)))
      (restedAfter 3) (by decide +kernel)
    obtain ⟨rest, threads⟩ := atRest_of_restedAfter 3 s rested
    exact ⟨s, threads, settle.1 s reached rest⟩
  · obtain ⟨s, reached, rested⟩ := System.exists_reachable
      (S := PpHashpool.system PpHashpool.epochOf30000 (· = 29999)) PpHashpool.fresh_start
      ((PpHashpool.notifyBlock 29999).flatMap
          (fun b => .request b :: List.replicate 8 .node) ++
        [1, 0].flatMap (fun t => List.replicate 6 (.dataset t)))
      (restedAfter 2) (by decide +kernel)
    obtain ⟨rest, threads⟩ := atRest_of_restedAfter 2 s rested
    exact ⟨s, threads, settle.2 s reached rest⟩

end EpicPoold
