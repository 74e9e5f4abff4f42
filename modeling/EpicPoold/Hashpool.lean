import EpicPoold.Foundations.Transition
import EpicPoold.Foundations.SharedMutex

/-! The machinery that rx_hashpool and pp_hashpool have in common: two dataset slots,
the node thread that fills them, the detached dataset threads and the hash workers.
Every atomic access, lock operation and seed assignment is one step. -/

namespace EpicPoold

open Foundations

abbrev hashThdCount : Nat := 2

/-- An index into `std::array<..., 2> ds`. -/
abbrev SlotIdx := Fin 2

def invalidId : UInt64 := 0xffffffffffffffff

/-- Where the two pools differ. `body` is one step of dataset_thd_main between its
lock and its unlock: it reads the slot's loaded id and data, and either goes on to
another phase or yields the id it stores as ready. -/
structure PoolKind where
  Job : Type
  jobId : Job → UInt64
  Request : Type
  requestId : Request → UInt64
  Data : Type
  blank : Data → Prop
  assign : Request → Data → Data
  Phase : Type
  entry : Phase
  body : UInt64 → Data → Phase → Data × (Phase ⊕ UInt64)

namespace Hashpool

structure Slot (K : PoolKind) where
  data : K.Data
  loadedId : UInt64
  readyId : UInt64
  mtx : SharedMutex Nat (Fin hashThdCount)

inductive DatasetPc (K : PoolKind) where
  | lock
  | inside (phase : K.Phase)
  | unlock
  | done

structure DatasetThd (K : PoolKind) where
  idx : SlotIdx
  pc : DatasetPc K

/-- The node thread inside has_dataset and calculate_dataset (notify_epoch). -/
inductive NodePc (K : PoolKind) where
  | idle
  | hasDataset (request : K.Request) (k : Nat)
  | fetchAdd (request : K.Request)
  | storeReady (request : K.Request) (i : SlotIdx)
  | assignSeed (request : K.Request) (i : SlotIdx)
  | storeLoaded (request : K.Request) (i : SlotIdx)
  | spawn (i : SlotIdx)

/-- A worker inside hash_thd_main. `finish` is where the job's error flag is set and
its promise fulfilled; it carries the slot still locked, if any, and the slot data
the hash was computed with, if any. -/
inductive WorkerPc (K : PoolKind) where
  | pop
  | scan (job : K.Job) (dsidx : Nat)
  | lockShared (job : K.Job) (i : SlotIdx)
  | recheck (job : K.Job) (i : SlotIdx)
  | hash (job : K.Job) (i : SlotIdx)
  | finish (job : K.Job) (i : Option SlotIdx) (used : Option K.Data)
  | unlockShared (i : SlotIdx)

structure Finished (K : PoolKind) where
  job : K.Job
  error : Bool
  used : Option K.Data

structure State (K : PoolKind) where
  ds : SlotIdx → Slot K
  dsCtr : UInt64
  node : NodePc K
  threads : List (DatasetThd K)
  jobs : List K.Job
  workers : Fin hashThdCount → WorkerPc K
  finished : List (Finished K)

inductive Action (K : PoolKind) where
  | request (request : K.Request)
  | node
  | dataset (thread : Nat)
  | pushJob (job : K.Job)
  | worker (w : Fin hashThdCount)

variable {K : PoolKind}

def State.setSlot (s : State K) (i : SlotIdx) (slot : Slot K) : State K :=
  { s with ds := Function.update s.ds i slot }

def State.setThread (s : State K) (t : Nat) (pc : DatasetPc K) : State K :=
  { s with threads := s.threads.modify t (fun thd => { thd with pc := pc }) }

def State.setWorker (s : State K) (w : Fin hashThdCount) (pc : WorkerPc K) : State K :=
  { s with workers := Function.update s.workers w pc }

def nodeStep (s : State K) : Option (State K) :=
  match s.node with
  | .idle => none
  | .hasDataset request k =>
      if inside : k < 2 then
        if (s.ds ⟨k, inside⟩).loadedId = K.requestId request then some { s with node := .idle }
        else some { s with node := .hasDataset request (k + 1) }
      else some { s with node := .fetchAdd request }
  | .fetchAdd request =>
      let i : SlotIdx := ⟨s.dsCtr.toNat % 2, Nat.mod_lt _ (by decide)⟩
      some { s with dsCtr := s.dsCtr + 1, node := .storeReady request i }
  | .storeReady request i =>
      some { s.setSlot i { s.ds i with readyId := invalidId } with
        node := .assignSeed request i }
  | .assignSeed request i =>
      some { s.setSlot i { s.ds i with data := K.assign request (s.ds i).data } with
        node := .storeLoaded request i }
  | .storeLoaded request i =>
      some { s.setSlot i { s.ds i with loadedId := K.requestId request } with node := .spawn i }
  | .spawn i => some { s with threads := s.threads ++ [⟨i, .lock⟩], node := .idle }

/-- dataset_thd_main. -/
def datasetStep (s : State K) (t : Nat) : Option (State K) :=
  match s.threads[t]? with
  | none => none
  | some thd =>
      let slot := s.ds thd.idx
      match thd.pc with
      | .lock =>
          (slot.mtx.lock t).map (fun mtx =>
            (s.setSlot thd.idx { slot with mtx := mtx }).setThread t (.inside K.entry))
      | .inside phase =>
          match K.body slot.loadedId slot.data phase with
          | (data, .inl next) =>
              some ((s.setSlot thd.idx { slot with data := data }).setThread t (.inside next))
          | (data, .inr id) =>
              some ((s.setSlot thd.idx { slot with data := data, readyId := id }).setThread t
                .unlock)
      | .unlock =>
          some ((s.setSlot thd.idx { slot with mtx := slot.mtx.unlock }).setThread t .done)
      | .done => none

/-- hash_thd_main. -/
def workerStep (s : State K) (w : Fin hashThdCount) : Option (State K) :=
  match s.workers w with
  | .pop =>
      match s.jobs with
      | [] => none
      | job :: rest => some ({ s with jobs := rest }.setWorker w (.scan job 0))
  | .scan job dsidx =>
      if inside : dsidx < 2 then
        if (s.ds ⟨dsidx, inside⟩).readyId = K.jobId job then
          some (s.setWorker w (.lockShared job ⟨dsidx, inside⟩))
        else some (s.setWorker w (.scan job (dsidx + 1)))
      else some (s.setWorker w (.finish job none none))
  | .lockShared job i =>
      ((s.ds i).mtx.lockShared w).map (fun mtx =>
        (s.setSlot i { s.ds i with mtx := mtx }).setWorker w (.recheck job i))
  | .recheck job i =>
      if (s.ds i).readyId ≠ K.jobId job then some (s.setWorker w (.finish job (some i) none))
      else some (s.setWorker w (.hash job i))
  | .hash job i => some (s.setWorker w (.finish job (some i) (some (s.ds i).data)))
  | .finish job i used =>
      let report : Finished K := ⟨job, used.isNone, used⟩
      let next : WorkerPc K := match i with
        | none => .pop
        | some i => .unlockShared i
      some ({ s with finished := report :: s.finished }.setWorker w next)
  | .unlockShared i =>
      some ((s.setSlot i { s.ds i with mtx := (s.ds i).mtx.unlockShared w }).setWorker w .pop)

def next (s : State K) : Action K → Option (State K)
  | .request request =>
      match s.node with
      | .idle => some { s with node := .hasDataset request 0 }
      | _ => none
  | .node => nodeStep s
  | .dataset t => datasetStep s t
  | .pushJob job => some { s with jobs := s.jobs ++ [job] }
  | .worker w => workerStep s w

structure Start (s : State K) : Prop where
  slots : ∀ i, K.blank (s.ds i).data ∧ (s.ds i).loadedId = invalidId ∧
    (s.ds i).readyId = invalidId ∧ (s.ds i).mtx = .free
  counter : s.dsCtr = 0
  idle : s.node = .idle
  threads : s.threads = []
  jobs : s.jobs = []
  workers : ∀ w, s.workers w = .pop
  finished : s.finished = []

def system (K : PoolKind) : System (State K) (Action K) := ⟨Start, next⟩

end Hashpool

end EpicPoold
