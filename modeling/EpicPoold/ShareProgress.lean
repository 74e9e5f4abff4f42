import Mathlib.Algebra.BigOperators.Fin
import EpicPoold.ShareChecks

/-! Left to itself, a hash pool comes to rest in every order of its threads' steps, and then
nobody waits for a hash any more. -/

namespace EpicPoold

open Foundations Hashpool

namespace Hashpool

variable {K : PoolKind}

/-- Each step between the lock and the unlock of dataset_thd_main lowers the rank of the
phase. -/
structure Ranked (K : PoolKind) where
  rank : K.Phase → Nat
  falls : ∀ loaded data phase data' phase', K.body loaded data phase = (data', .inl phase') →
    rank phase' < rank phase

def Ranked.thread (R : Ranked K) : DatasetPc K → Nat
  | .lock => R.rank K.entry + 3
  | .inside phase => R.rank phase + 2
  | .unlock => 1
  | .done => 0

/-- How many steps has_dataset and calculate_dataset take at most, the steps of the thread
that they spawn among them. -/
def Ranked.node (R : Ranked K) : NodePc K → Nat
  | .idle => 0
  | .hasDataset _ k => R.thread .lock + 6 + (2 - k)
  | .fetchAdd _ => R.thread .lock + 5
  | .storeReady _ _ => R.thread .lock + 4
  | .assignSeed _ _ => R.thread .lock + 3
  | .storeLoaded _ _ => R.thread .lock + 2
  | .spawn _ => R.thread .lock + 1

def workerRank : WorkerPc K → Nat
  | .pop => 0
  | .scan _ k => 6 + (2 - k)
  | .lockShared _ _ => 5
  | .recheck _ _ => 4
  | .hash _ _ => 3
  | .finish _ _ _ => 2
  | .unlockShared _ => 1

def threadsLeft (R : Ranked K) (p : State K) : Nat :=
  (p.threads.map (fun thd => R.thread thd.pc)).sum

def load (p : State K) : Nat :=
  9 * p.jobs.length + ∑ w, workerRank (p.workers w)

def Ranked.remaining (R : Ranked K) (p : State K) : Nat :=
  R.node p.node + threadsLeft R p + load p

def lockedSlot : WorkerPc K → Option SlotIdx
  | .recheck _ i => some i
  | .hash _ i => some i
  | .finish _ i _ => i
  | .unlockShared i => some i
  | _ => none

/-- Whoever is among the readers of a slot is a worker between its lock and its unlock. -/
def Reading (p : State K) : Prop :=
  ∀ i w, w ∈ (p.ds i).mtx.readers → lockedSlot (p.workers w) = some i

def Own : Action K → Prop
  | .request _ => False
  | .pushJob _ => False
  | _ => True

section Measure

variable {p q : State K} {R : Ranked K}

theorem load_worker {w : Fin hashThdCount} {pc : WorkerPc K}
    (workers : q.workers = Function.update p.workers w pc)
    (lower : 9 * q.jobs.length + workerRank pc < 9 * p.jobs.length + workerRank (p.workers w)) :
    load q < load p := by
  simp only [load, workers, Fin.sum_univ_two]
  fin_cases w
  · have other : Function.update p.workers 0 pc 1 = p.workers 1 :=
      Function.update_of_ne (by decide) ..
    simp only [Fin.zero_eta, Function.update_self, other] at lower ⊢
    omega
  · have other : Function.update p.workers 1 pc 0 = p.workers 0 :=
      Function.update_of_ne (by decide) ..
    simp only [Fin.mk_one, Function.update_self, other] at lower ⊢
    omega

theorem load_kept {w : Fin hashThdCount} {pc : WorkerPc K}
    (workers : q.workers = Function.update p.workers w pc) (jobs : q.jobs = p.jobs)
    (lower : workerRank pc < workerRank (p.workers w)) : load q < load p :=
  load_worker workers (by rw [jobs]; omega)

theorem worker_falls {w : Fin hashThdCount} (stepped : workerStep p w = some q) :
    load q < load p := by
  unfold workerStep at stepped
  cases here : p.workers w with
  | pop =>
      simp only [here] at stepped
      split at stepped
      · cases stepped
      · rename_i job rest front
        cases stepped
        refine load_worker rfl ?_
        simp only [State.setWorker, here, front, List.length_cons, workerRank]
        omega
  | scan job k =>
      simp only [here] at stepped
      split at stepped
      · rename_i inside
        split at stepped
        · cases stepped
          exact load_kept rfl rfl (by rw [here]; simp only [workerRank]; omega)
        · cases stepped
          exact load_kept rfl rfl (by rw [here]; simp only [workerRank]; omega)
      · cases stepped
        exact load_kept rfl rfl (by rw [here]; simp only [workerRank]; omega)
  | lockShared job i =>
      simp only [here] at stepped
      obtain ⟨mtx, _, rfl⟩ := Option.map_eq_some_iff.mp stepped
      exact load_kept rfl rfl (by rw [here]; simp only [workerRank]; omega)
  | recheck job i =>
      simp only [here] at stepped
      split at stepped
      · cases stepped
        exact load_kept rfl rfl (by rw [here]; simp only [workerRank]; omega)
      · cases stepped
        exact load_kept rfl rfl (by rw [here]; simp only [workerRank]; omega)
  | hash job i =>
      simp only [here] at stepped
      cases stepped
      exact load_kept rfl rfl (by rw [here]; simp only [workerRank]; omega)
  | finish job i used =>
      simp only [here] at stepped
      cases stepped
      refine load_kept rfl rfl ?_
      rw [here]
      cases i with
      | none => simp only [workerRank]; omega
      | some i => simp only [workerRank]; omega
  | unlockShared i =>
      simp only [here] at stepped
      cases stepped
      exact load_kept rfl rfl (by rw [here]; simp only [workerRank]; omega)

theorem node_falls (stepped : nodeStep p = some q) : R.remaining q < R.remaining p := by
  unfold nodeStep at stepped
  simp only [Ranked.remaining]
  cases here : p.node with
  | idle => simp [here] at stepped
  | hasDataset request k =>
      simp only [here] at stepped
      split at stepped
      · split at stepped
        · cases stepped
          simp only [Ranked.node, threadsLeft, load]
          omega
        · cases stepped
          simp only [Ranked.node, threadsLeft, load]
          omega
      · cases stepped
        simp only [Ranked.node, threadsLeft, load]
        omega
  | fetchAdd request | storeReady request i | assignSeed request i | storeLoaded request i =>
      simp only [here] at stepped
      cases stepped
      simp only [Ranked.node, threadsLeft, load, State.setSlot]
      omega
  | spawn i =>
      simp only [here] at stepped
      cases stepped
      simp only [Ranked.node, threadsLeft, load, List.map_append, List.map_cons, List.map_nil,
        List.sum_append, List.sum_cons, List.sum_nil]
      omega

theorem thread_falls {k : Nat} {thd : DatasetThd K} (present : p.threads[k]? = some thd)
    (slot : Slot K) {pc : DatasetPc K} (lower : R.thread pc < R.thread thd.pc) :
    R.remaining ((p.setSlot thd.idx slot).setThread k pc) < R.remaining p := by
  have total := sum_map_modify (fun thd : DatasetThd K => R.thread thd.pc)
    (fun thd => { thd with pc := pc }) p.threads k thd present
  simp only [Ranked.remaining, threadsLeft, load, State.setThread, State.setSlot] at total ⊢
  omega

theorem dataset_falls {k : Nat} (stepped : datasetStep p k = some q) :
    R.remaining q < R.remaining p := by
  unfold datasetStep at stepped
  cases present : p.threads[k]? with
  | none => simp [present] at stepped
  | some thd =>
      simp only [present] at stepped
      cases here : thd.pc with
      | lock =>
          simp only [here] at stepped
          obtain ⟨mtx, _, rfl⟩ := Option.map_eq_some_iff.mp stepped
          exact thread_falls present _ (by rw [here]; simp only [Ranked.thread]; omega)
      | inside phase =>
          simp only [here] at stepped
          split at stepped
          · rename_i data phase' ran
            cases stepped
            have lower := R.falls _ _ _ _ _ ran
            exact thread_falls present _ (by rw [here]; simp only [Ranked.thread]; omega)
          · cases stepped
            exact thread_falls present _ (by rw [here]; simp only [Ranked.thread]; omega)
      | unlock =>
          simp only [here] at stepped
          cases stepped
          exact thread_falls present _ (by rw [here]; simp only [Ranked.thread]; omega)
      | done => simp [here] at stepped

theorem own_falls (R : Ranked K) {a : Action K} (own : Own a) (stepped : next p a = some q) :
    R.remaining q < R.remaining p := by
  cases a with
  | request | pushJob => cases own
  | node => exact node_falls stepped
  | dataset k => exact dataset_falls stepped
  | worker w =>
      have quiet := workerMoved_quiet (workerStep_moved stepped)
      have lower := worker_falls stepped
      simp only [Ranked.remaining, threadsLeft, quiet.node, quiet.threads]
      omega

end Measure

section Locks

variable {p q : State K}

theorem reading_frame (reading : Reading p) (workers : q.workers = p.workers)
    (readers : ∀ i, (q.ds i).mtx.readers ⊆ (p.ds i).mtx.readers) : Reading q := by
  intro i w among
  rw [workers]
  exact reading i w (readers i among)

theorem setSlot_readers (i : SlotIdx) (slot : Slot K)
    (fewer : slot.mtx.readers ⊆ (p.ds i).mtx.readers) (j : SlotIdx) :
    ((p.setSlot i slot).ds j).mtx.readers ⊆ (p.ds j).mtx.readers := by
  by_cases same : j = i
  · subst same
    simpa [State.setSlot] using fewer
  · simp [State.setSlot, same]

theorem reading_worker (reading : Reading p) {w : Fin hashThdCount} {pc : WorkerPc K}
    (workers : q.workers = Function.update p.workers w pc)
    (others : ∀ i v, v ≠ w → v ∈ (q.ds i).mtx.readers → v ∈ (p.ds i).mtx.readers)
    (own : ∀ i, w ∈ (q.ds i).mtx.readers → lockedSlot pc = some i) : Reading q := by
  intro i v among
  rw [workers]
  by_cases mine : v = w
  · subst mine
    rw [Function.update_self]
    exact own i among
  · rw [Function.update_of_ne mine]
    exact reading i v (others i v mine among)

theorem reading_same (reading : Reading p) {w : Fin hashThdCount} {pc : WorkerPc K}
    (workers : q.workers = Function.update p.workers w pc) (ds : q.ds = p.ds)
    (locked : lockedSlot pc = lockedSlot (p.workers w)) : Reading q := by
  refine reading_worker reading workers ?_ ?_
  · intro i v _ among
    rwa [ds] at among
  · intro i among
    rw [ds] at among
    rw [locked]
    exact reading i w among

theorem worker_reading (reading : Reading p) {w : Fin hashThdCount} (moved : WorkerMoved p w q) :
    Reading q := by
  cases moved with
  | popped job rest here | found job i here | passed job k here | missed job k here
  | refused job i here | confirmed job i here | hashed job i here | failed job used here
  | finished job i used here =>
      exact reading_same reading rfl rfl (by rw [here]; rfl)
  | sharedLocked job i mtx here free still readers =>
      refine reading_worker reading rfl ?_ ?_
      · intro j v other among
        by_cases same : j = i
        · subst same
          simpa [State.setWorker, State.setSlot, readers, other] using among
        · simpa [State.setWorker, State.setSlot, same] using among
      · intro j among
        by_cases same : j = i
        · subst same
          rfl
        · have before := reading j w (by simpa [State.setWorker, State.setSlot, same] using among)
          rw [here] at before
          cases before
  | released i here =>
      refine reading_worker reading rfl ?_ ?_
      · intro j v other among
        by_cases same : j = i
        · subst same
          simpa [State.setWorker, State.setSlot, other] using among
        · simpa [State.setWorker, State.setSlot, same] using among
      · intro j among
        by_cases same : j = i
        · subst same
          simp [State.setWorker, State.setSlot] at among
        · have before := reading j w (by simpa [State.setWorker, State.setSlot, same] using among)
          rw [here] at before
          exact absurd (Option.some.inj before).symm same

theorem moved_reading {a : Action K} (reading : Reading p) (moved : Moved p a q) : Reading q := by
  cases moved with
  | nodeQuiet | spawned | pushed => exact reading
  | retracted request i here | assigned request i here | loaded request i here =>
      exact reading_frame reading rfl (setSlot_readers i _ (fun _ among => among))
  | locked k thd mtx present here free nobody taken still =>
      exact reading_frame reading rfl (setSlot_readers thd.idx _ (by simp [still]))
  | worked k thd phase data following present here ran
  | stored k thd phase data id present here ran =>
      exact reading_frame reading rfl (setSlot_readers thd.idx _ (fun _ among => among))
  | unlocked k thd present here =>
      exact reading_frame reading rfl (setSlot_readers thd.idx _ (fun _ among => among))
  | worker w _ moved => exact worker_reading reading moved

theorem nodeStep_blocked (halted : nodeStep p = none) : p.node = .idle := by
  unfold nodeStep at halted
  cases here : p.node with
  | idle => rfl
  | hasDataset request k =>
      simp only [here] at halted
      split at halted
      · split at halted
        · cases halted
        · cases halted
      · cases halted
  | fetchAdd request | storeReady request i | assignSeed request i | storeLoaded request i
  | spawn i =>
      simp only [here] at halted
      cases halted

theorem datasetStep_blocked {k : Nat} {thd : DatasetThd K} (present : p.threads[k]? = some thd)
    (halted : datasetStep p k = none) :
    thd.pc = .done ∨ thd.pc = .lock ∧ (p.ds thd.idx).mtx.lock k = none := by
  unfold datasetStep at halted
  simp only [present] at halted
  cases here : thd.pc with
  | lock =>
      simp only [here] at halted
      exact .inr ⟨rfl, Option.map_eq_none_iff.mp halted⟩
  | inside phase =>
      simp only [here] at halted
      split at halted
      · cases halted
      · cases halted
  | unlock =>
      simp only [here] at halted
      cases halted
  | done => exact .inl rfl

theorem workerStep_blocked {w : Fin hashThdCount} (halted : workerStep p w = none) :
    p.workers w = .pop ∧ p.jobs = [] ∨
      ∃ job i, p.workers w = .lockShared job i ∧ (p.ds i).mtx.lockShared w = none := by
  unfold workerStep at halted
  cases here : p.workers w with
  | pop =>
      simp only [here] at halted
      split at halted
      · exact .inl ⟨rfl, by assumption⟩
      · cases halted
  | scan job k =>
      simp only [here] at halted
      split at halted
      · split at halted
        · cases halted
        · cases halted
      · cases halted
  | lockShared job i =>
      simp only [here] at halted
      exact .inr ⟨job, i, rfl, Option.map_eq_none_iff.mp halted⟩
  | recheck job i =>
      simp only [here] at halted
      split at halted
      · cases halted
      · cases halted
  | hash job i | finish job i used | unlockShared i =>
      simp only [here] at halted
      cases halted

/-- When none of the pool's threads can go on, they have nothing left to do. -/
theorem stuck_at_rest (held : Held p) (reading : Reading p)
    (stuck : ∀ a, Own a → next p a = none) :
    AtRest p ∧ p.jobs = [] ∧ ∀ w, p.workers w = .pop := by
  -- whoever holds a slot's mutex alone can go on
  have unlocked : ∀ i, (p.ds i).mtx.writer = none := by
    intro i
    cases taken : (p.ds i).mtx.writer with
    | none => rfl
    | some k =>
        obtain ⟨thd, present, rfl⟩ := held.known i k taken
        have within := (held.inside k thd present).mpr taken
        rcases datasetStep_blocked present (stuck (.dataset k) trivial) with here | ⟨here, _⟩
        · rw [here] at within
          cases within
        · rw [here] at within
          cases within
  have workers : ∀ w, p.workers w = .pop ∧ p.jobs = [] := by
    intro w
    rcases workerStep_blocked (stuck (.worker w) trivial) with idle | ⟨job, i, _, refused⟩
    · exact idle
    · simp [SharedMutex.lockShared, unlocked i] at refused
  have nobody : ∀ i, (p.ds i).mtx.readers = ∅ := by
    intro i
    rw [Finset.eq_empty_iff_forall_notMem]
    intro w among
    have locked := reading i w among
    rw [(workers w).1] at locked
    cases locked
  refine ⟨⟨nodeStep_blocked (stuck .node trivial), ?_⟩, (workers 0).2, fun w => (workers w).1⟩
  intro thd member
  obtain ⟨k, present⟩ := List.mem_iff_getElem?.mp member
  rcases datasetStep_blocked present (stuck (.dataset k) trivial) with done | ⟨_, refused⟩
  · exact done
  · simp [SharedMutex.lock, unlocked, nobody] at refused

end Locks

theorem start_reading {p : State K} (start : Start p) : Reading p := by
  intro i w among
  rw [(start.slots i).2.2.2] at among
  exact absurd among (Finset.notMem_empty w)

def Ranked.tagged (R : Ranked K) (T : Type) : Ranked (K.tagged T) where
  rank := R.rank
  falls := R.falls

end Hashpool

namespace ShareChecks

variable {K : PoolKind} {T : Type} [DecidableEq T] {s u : ShareChecks K T}

def Alone (_ : ShareChecks K T) : ShareAction K T → Prop
  | .pool a => Own a
  | _ => False

theorem reachable_locks (reached : (system K T).Reachable s) : Held s.pool ∧ Reading s.pool := by
  refine reached.invariant (fun s => Held s.pool ∧ Reading s.pool) ?_ ?_
  · rintro s ⟨pool, _⟩
    exact ⟨start_held pool, start_reading pool⟩
  · intro s a t _ before stepped
    cases next_moved stepped with
    | checked t job here =>
        have pushed := @Hashpool.Moved.pushed (K.tagged T) s.pool (t, job)
        exact ⟨moved_held before.1 pushed, moved_reading before.2 pushed⟩
    | woken t job report here => exact before
    | pooled a q inner ran =>
        have moved := Hashpool.next_moved ran
        rw [afterPool_pool]
        exact ⟨moved_held before.1 moved, moved_reading before.2 moved⟩

theorem alone_falls (R : Ranked K) (s : ShareChecks K T) (a : ShareAction K T) (t : ShareChecks K T)
    (alone : Alone s a) (stepped : (system K T).next s a = some t) :
    (R.tagged T).remaining t.pool < (R.tagged T).remaining s.pool := by
  cases next_moved stepped with
  | checked | woken => cases alone
  | pooled a q inner ran =>
      rw [afterPool_pool]
      exact own_falls (R.tagged T) alone ran

def Heard (s : ShareChecks K T) (t : T) (job : K.Job) : Prop :=
  s.caller t = .waiting job ∨ ∃ report, report.job = (t, job) ∧ s.caller t = .answered job report

theorem alone_heard {a : ShareAction K T} {t : T} {job : K.Job} (owned : Owned s)
    (heard : Heard s t job) (alone : Alone s a) (stepped : (system K T).next s a = some u) :
    Heard u t job := by
  cases next_moved stepped with
  | checked | woken => cases alone
  | pooled a q inner ran =>
      obtain ⟨caller, same, told⟩ := owned.afterPool_caller (next_handled inner ran)
      rw [same]
      rcases told t with unchanged | ⟨report, _, own, waited, answered⟩
      · simpa only [Heard, unchanged] using heard
      · rcases heard with waits | ⟨other, _, here⟩
        · rw [waited] at waits
          cases waits
          exact .inr ⟨report, by rw [← own], answered⟩
        · rw [waited] at here
          cases here

theorem stuck_answered (reached : (system K T).Reachable s) (stuck : (system K T).Stuck Alone s) :
    AtRest s.pool ∧ ∀ t job, s.caller t ≠ .waiting job := by
  obtain ⟨held, reading⟩ := reachable_locks reached
  have halted : ∀ a, Own a → Hashpool.next s.pool a = none := by
    intro a own
    have refused := stuck (.pool a) own
    have inner : ofPool a = true := by
      cases a with
      | pushJob job => cases own
      | request | node | dataset | worker => rfl
    simp only [system, next, inner, if_true, Option.map_eq_none_iff] at refused
    exact refused
  obtain ⟨rest, empty, idle⟩ := stuck_at_rest held reading halted
  refine ⟨rest, ?_⟩
  intro t job waits
  rcases (reachable_owned reached).kept t job waits with queued | ⟨w, has⟩
  · rw [empty] at queued
    cases queued
  · rw [idle w] at has
    cases has

/-- Left to itself the pool stops after a bounded number of steps, whatever their order,
and every thread that waited has then been told of its own job. -/
structure Ends (R : Ranked K) (s : ShareChecks K T) : Prop where
  bounded : ∀ n u, (system K T).RunUnder Alone s n u → n ≤ (R.tagged T).remaining s.pool
  stops : ∃ n u, (system K T).RunUnder Alone s n u ∧ (system K T).Stuck Alone u
  answered : ∀ n u, (system K T).RunUnder Alone s n u → (system K T).Stuck Alone u →
    AtRest u.pool ∧ ∀ t job, s.caller t = .waiting job →
      ∃ report, report.job = (t, job) ∧ u.caller t = .answered job report

theorem ends_of_reachable (R : Ranked K) (s : ShareChecks K T)
    (reached : (system K T).Reachable s) : Ends R s where
  bounded n u run := by
    have left := run.bounded (fun s => (R.tagged T).remaining s.pool) (alone_falls R)
    omega
  stops := System.exists_stuck (fun s => (R.tagged T).remaining s.pool) (alone_falls R) s
  answered n u run stuck := by
    obtain ⟨rest, nobody⟩ := stuck_answered (run.reachable reached) stuck
    refine ⟨rest, ?_⟩
    intro t job waits
    have told : (system K T).Reachable u ∧ Heard u t job := by
      refine run.invariant (fun u => (system K T).Reachable u ∧ Heard u t job)
        ⟨reached, .inl waits⟩ ?_
      rintro v a w ⟨earlier, heard⟩ alone stepped
      exact ⟨.step earlier trivial stepped,
        alone_heard (reachable_owned earlier) heard alone stepped⟩
    exact told.2.resolve_left (nobody t job)

end ShareChecks

def RxHashpool.ranked : Ranked RxHashpool.kind where
  rank
    | .initCache => 2
    | .getId => 1
    | .storeReady _ => 0
  falls loaded data phase data' phase' ran := by
    cases phase with
    | initCache =>
        cases ran
        exact Nat.lt_succ_self _
    | getId =>
        cases ran
        exact Nat.lt_succ_self _
    | storeReady id => cases ran

def PpHashpool.ranked (getEpochNumber : UInt64 → Int32) (heights : UInt64 → Prop) :
    Ranked (PpHashpool.kind getEpochNumber heights) where
  rank
    | .loadEpoch => 3
    | .destroy _ => 2
    | .create _ => 1
    | .storeReady _ => 0
  falls loaded data phase data' phase' ran := by
    cases phase with
    | loadEpoch =>
        cases ran
        exact Nat.lt_succ_self _
    | destroy epoch =>
        simp only [PpHashpool.datasetThdMain] at ran
        split at ran
        · cases ran
          exact Nat.lt_succ_self _
        · cases ran
          exact Nat.lt_succ_self _
    | create epoch =>
        cases ran
        exact Nat.lt_succ_self _
    | storeReady epoch => cases ran

namespace ShareChecks

section Pools

variable (T : Type) [DecidableEq T] (getEpochNumber : UInt64 → Int32) (heights : UInt64 → Prop)

/-- No thread waits for its hash in vain, with either pool. -/
theorem checks_end :
    (∀ s, (system RxHashpool.kind T).Reachable s → Ends RxHashpool.ranked s) ∧
      ∀ s, (system (PpHashpool.kind getEpochNumber heights) T).Reachable s →
        Ends (PpHashpool.ranked getEpochNumber heights) s :=
  ⟨ends_of_reachable RxHashpool.ranked,
    ends_of_reachable (PpHashpool.ranked getEpochNumber heights)⟩

end Pools

def bothWait (s : ShareChecks K (Fin 2)) : Bool :=
  (List.finRange 2).all (fun t =>
    match s.caller t with
    | .waiting _ => true
    | _ => false)

/-- A dataset thread has not begun, one worker has looked for a dataset in vain, and two
threads wait. -/
theorem checks_end_for_two :
    (∃ s : ShareChecks RxHashpool.kind (Fin 2), bothWait s = true ∧ Ends RxHashpool.ranked s) ∧
      ∃ s : ShareChecks ppKind (Fin 2), bothWait s = true ∧
        Ends (PpHashpool.ranked PpHashpool.epochOf30000 (· = 29999)) s := by
  have ends := checks_end (Fin 2) PpHashpool.epochOf30000 (· = 29999)
  constructor
  · obtain ⟨s, reached, waits⟩ := System.exists_reachable (S := system RxHashpool.kind (Fin 2))
      (fresh_start (⟨V32.setAllZero, none⟩ : RxDataset) rfl)
      (ShareChecks.load (RxHashpool.uniformSeed 1) 0 1 ++
        [.check 0 (RxHashpool.jobFor (RxHashpool.uniformSeed 1)),
          .check 1 (RxHashpool.jobFor (RxHashpool.uniformSeed 2)), .pool (.worker 0),
          .pool (.worker 0)])
      bothWait (by decide +kernel)
    exact ⟨s, waits, ends.1 s reached⟩
  · obtain ⟨s, reached, waits⟩ := System.exists_reachable (S := system ppKind (Fin 2))
      (fresh_start (⟨none, []⟩ : PpDataset) rfl)
      (ShareChecks.load (29999 : UInt64) 0 1 ++
        [.check 0 (ppJob 0), .check 1 (ppJob 1), .pool (.worker 0), .pool (.worker 0)])
      bothWait (by decide +kernel)
    exact ⟨s, waits, ends.2 s reached⟩

end ShareChecks

end EpicPoold
