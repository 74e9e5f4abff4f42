import EpicPoold.HashpoolSafety
import EpicPoold.Vector32

/-! rx_hashpool: RandomX caches, one per slot, initialised from the slot's `ds_seed`. -/

namespace EpicPoold

open Foundations Hashpool

/-- The top bit of an id is always zero, so -1 is never a valid id. -/
theorem V32.getId_ne_invalid (v : V32) : v.getId ≠ invalidId := by
  intro equal
  have same := congrArg UInt64.toNat equal
  have small : v.getId.toNat ≤ 0x7fffffffffffffff := by
    rw [getId, UInt64.toNat_and]
    exact Nat.and_le_right
  have large : invalidId.toNat = 0xffffffffffffffff := by decide
  omega

/-- What a client pushes: the blob and the id of the seed it was told to use. -/
structure RxCheckJob where
  data : List UInt8
  datasetId : UInt64
  id_of_seed : ∃ seed : V32, seed.getId = datasetId

/-- The part of rx_dataset that is neither an id nor the mutex. `ch` is the seed the
cache was last initialised from, if any. -/
structure RxDataset where
  dsSeed : V32
  ch : Option V32

namespace RxHashpool

/-- dataset_thd_main of rx_hashpool between its lock and its unlock: the next thing the
thread does. -/
inductive Phase where
  | initCache
  | getId
  | storeReady (id : UInt64)
  deriving DecidableEq

/-- randomx_init_cache reads `ds_seed` once, get_id reads it again. -/
def datasetThdMain (d : RxDataset) : Phase → RxDataset × (Phase ⊕ UInt64)
  | .initCache => ({ d with ch := some d.dsSeed }, .inl .getId)
  | .getId => (d, .inl (.storeReady d.dsSeed.getId))
  | .storeReady id => (d, .inr id)

abbrev kind : PoolKind where
  Job := RxCheckJob
  jobId := RxCheckJob.datasetId
  Request := V32
  requestId := V32.getId
  Data := RxDataset
  blank d := d.ch = none
  assign seed d := { d with dsSeed := seed }
  Phase := Phase
  entry := .initCache
  body _ := datasetThdMain

/-- The node thread asks for a dataset with has_dataset and, if it is not there, runs
calculate_dataset. -/
def system : System (State kind) (Action kind) := Hashpool.system kind

/-- The hash of every job finished without error came from a cache initialised from a
seed with the job's id. -/
def RightCache (s : State kind) : Prop :=
  ∀ report ∈ s.finished, report.error = false →
    ∃ data seed, report.used = some data ∧ data.ch = some seed ∧
      seed.getId = report.job.datasetId

def betweenReads : DatasetPc kind → Bool
  | .inside .getId => true
  | _ => false

/-- calculate_dataset is not about to overwrite the seed of a slot one of whose dataset
threads has initialised the cache and not yet read the seed's id. -/
def seedUndisturbed (s : State kind) : Action kind → Bool
  | .node =>
      match s.node with
      | .assignSeed _ i => s.threads.all (fun thd => thd.idx != i || !betweenReads thd.pc)
      | _ => true
  | _ => true

def discipline : Discipline kind where
  built d id := ∃ seed, d.ch = some seed ∧ seed.getId = id
  inPhase d
    | .initCache => True
    | .getId => d.ch = some d.dsSeed
    | .storeReady id => ∃ seed, d.ch = some seed ∧ seed.getId = id
  mayAssign phase := phase ≠ .getId
  jobId_valid := by
    rintro ⟨data, datasetId, seed, rfl⟩
    exact seed.getId_ne_invalid
  entry_ok := fun _ => trivial
  body_phase := by
    intro _ data phase data' phase' holds ran
    cases phase with
    | initCache =>
        cases ran
        rfl
    | getId =>
        cases ran
        exact ⟨data.dsSeed, holds, rfl⟩
    | storeReady id => cases ran
  body_store := by
    intro _ data phase data' id holds ran
    cases phase with
    | initCache => cases ran
    | getId => cases ran
    | storeReady stored =>
        cases ran
        exact holds
  assign_built := fun _ _ _ built => built
  assign_phase := by
    intro seed data phase allowed holds
    cases phase with
    | initCache => trivial
    | getId => exact absurd rfl allowed
    | storeReady id => exact holds

theorem seedUndisturbed_allowed (s : State kind) (a : Action kind)
    (undisturbed : seedUndisturbed s a = true) : discipline.Allowed s a := by
  rintro seed i rfl pc thd member rfl phase inside rfl
  simp only [seedUndisturbed, pc] at undisturbed
  have quiet := List.all_eq_true.mp undisturbed thd member
  simp [inside, betweenReads] at quiet

/-- RandomX hashes use the right cache in every run in which no seed is overwritten
between the initialisation of its cache and the reading of its id. -/
theorem right_cache_of_undisturbed (s : State kind)
    (reached : system.ReachableUnder (fun s a => seedUndisturbed s a = true) s) :
    RightCache s := by
  intro report member clean
  have allowed := reached.mono seedUndisturbed_allowed
  obtain ⟨data, used, seed, cache, id⟩ :=
    finished_built (D := discipline) s allowed report member clean
  exact ⟨data, seed, used, cache, id⟩

/-- Both slots as they are constructed, with arbitrary bytes in `ds_seed`. -/
def fresh (seed : V32) : State kind where
  ds _ := ⟨⟨seed, none⟩, invalidId, invalidId, .free⟩
  dsCtr := 0
  node := .idle
  threads := []
  jobs := []
  workers _ := .pop
  finished := []

theorem fresh_start (seed : V32) : system.start (fresh seed) :=
  ⟨fun _ => ⟨rfl, rfl, rfl, rfl⟩, rfl, rfl, rfl, rfl, fun _ => rfl, rfl⟩

def uniformSeed (byte : UInt8) : V32 := ⟨Buffer.filled 32 byte⟩

def jobFor (seed : V32) : RxCheckJob := ⟨[], seed.getId, seed, rfl⟩

/-- One request for a seed that neither slot has: three tests of has_dataset, the
counter, the three stores and the spawn. -/
def load (seed : V32) : List (Action kind) := .request seed :: List.replicate 8 .node

/-- One job, from the queue to the end of hash_thd_main's loop body, found in slot 0. -/
def check (w : Fin hashThdCount) (seed : V32) : List (Action kind) :=
  .pushJob (jobFor seed) :: List.replicate 7 (.worker w)

def hashedCleanly (s : State kind) : Bool := s.finished.any (fun report => !report.error)

/-- One seed is loaded and one job for it is hashed. -/
theorem right_cache_after_one_load :
    ∃ s : State kind, hashedCleanly s = true ∧ RightCache s := by
  obtain ⟨s, reached, clean⟩ := System.exists_reachableUnder (S := system) seedUndisturbed
    (fun _ _ passed => passed) (fresh_start V32.setAllZero)
    (load (uniformSeed 1) ++ List.replicate 5 (.dataset 0) ++ check 0 (uniformSeed 1))
    hashedCleanly (by decide +kernel)
  exact ⟨s, clean, right_cache_of_undisturbed s reached⟩

/-- The first dataset thread initialises its cache, two more seeds are loaded, and the
thread then publishes the id of the third seed for the cache of the first. -/
def lateReader (w : Fin hashThdCount) : List (Action kind) :=
  load (uniformSeed 1) ++ [.dataset 0, .dataset 0] ++ load (uniformSeed 2) ++
    load (uniformSeed 3) ++ List.replicate 3 (.dataset 0) ++ check w (uniformSeed 3)

def mismatch (s : State kind) : Bool :=
  s.finished.any (fun report =>
    !report.error && (report.used.bind RxDataset.ch).map V32.getId != some report.job.datasetId)

theorem mismatch_not_right (s : State kind) (found : mismatch s = true) : ¬ RightCache s := by
  intro right
  obtain ⟨report, member, wrong⟩ := List.any_eq_true.mp found
  simp only [Bool.and_eq_true, Bool.not_eq_true', bne_iff_ne] at wrong
  obtain ⟨data, seed, used, cache, id⟩ := right report member wrong.1
  apply wrong.2
  rw [used, Option.bind_some, cache, Option.map_some, id]

/-- Three loads in quick succession break the pool. -/
theorem wrong_cache_reachable : ¬ ∀ s, system.Reachable s → RightCache s := by
  intro always
  obtain ⟨s, reached, found⟩ := System.exists_reachable (S := system)
    (fresh_start V32.setAllZero) (lateReader 0) mismatch (by decide +kernel)
  exact mismatch_not_right s found (always s reached)

end RxHashpool

end EpicPoold
