import EpicPoold.HashpoolSafety

/-! pp_hashpool: ProgPoW epoch contexts, one per slot, created for the slot's
`loaded_epoch`. The ethash library is a parameter: `getEpochNumber` is
ethash::get_epoch_number on a block number. -/

namespace EpicPoold

open Foundations Hashpool

structure PpCheckJob where
  data : List UInt8
  nonce : UInt64
  blockNumber : UInt64
  deriving DecidableEq

/-- An epoch context made by ethash_create_epoch_context, alive until
ethash_destroy_epoch_context is called on it. -/
structure EpochContext where
  epoch : Int32
  alive : Bool
  deriving DecidableEq

/-- The part of pp_dataset that is neither an id nor the mutex: the pointer, as an
index into all contexts that were ever created for the slot. -/
structure PpDataset where
  datasetPtr : Option Nat
  contexts : List EpochContext
  deriving DecidableEq

namespace PpHashpool

def epochId (epoch : Int32) : UInt64 := epoch.toInt64.toUInt64

/-- A `uint64_t` passed where ethash takes an `int`. -/
def toEpoch (id : UInt64) : Int32 := id.toInt64.toInt32

theorem toEpoch_epochId (epoch : Int32) : toEpoch (epochId epoch) = epoch := by
  simp [toEpoch, epochId]

inductive Phase where
  | loadEpoch
  | destroy (epoch : UInt64)
  | create (epoch : UInt64)
  | storeReady (epoch : UInt64)

def datasetThdMain (loadedEpoch : UInt64) (d : PpDataset) : Phase → PpDataset × (Phase ⊕ UInt64)
  | .loadEpoch => (d, .inl (.destroy loadedEpoch))
  | .destroy epoch =>
      match d.datasetPtr with
      | none => (d, .inl (.create epoch))
      | some context =>
          let gone := d.contexts.modify context (fun c => { c with alive := false })
          ({ d with contexts := gone }, .inl (.create epoch))
  | .create epoch =>
      ({ datasetPtr := some d.contexts.length, contexts := d.contexts ++ [⟨toEpoch epoch, true⟩] },
        .inl (.storeReady epoch))
  | .storeReady epoch => (d, .inr epoch)

def LiveContext (d : PpDataset) (epoch : Int32) : Prop :=
  ∃ context c, d.datasetPtr = some context ∧ d.contexts[context]? = some c ∧
    c.alive = true ∧ c.epoch = epoch

section Pool

variable (getEpochNumber : UInt64 → Int32) (heights : UInt64 → Prop)

/-- Jobs are for heights the pool is used with. A request is for the epoch of a block
number; there is no seed to assign, so that step of the common machinery is idle. -/
abbrev kind : PoolKind where
  Job := {job : PpCheckJob // heights job.blockNumber}
  jobId job := epochId (getEpochNumber job.1.blockNumber)
  Request := UInt64
  requestId blockNumber := epochId (getEpochNumber blockNumber)
  Data := PpDataset
  blank d := d = ⟨none, []⟩
  assign _ d := d
  Phase := Phase
  entry := .loadEpoch
  body := datasetThdMain

def system : System (State (kind getEpochNumber heights)) (Action (kind getEpochNumber heights)) :=
  Hashpool.system (kind getEpochNumber heights)

def notifyBlock (blockNumber : UInt64) : List UInt64 := [blockNumber, blockNumber + 1]

variable {getEpochNumber heights}

/-- Every job finished without error was hashed with a live context for the epoch of
its block. -/
def RightContext (s : State (kind getEpochNumber heights)) : Prop :=
  ∀ report ∈ s.finished, report.error = false →
    ∃ data, report.used = some data ∧
      LiveContext data (getEpochNumber report.job.1.blockNumber)

theorem epochId_ne_invalid (epoch : Int32) (nonneg : 0 ≤ epoch) : epochId epoch ≠ invalidId := by
  intro equal
  have minus : epoch = -1 := by
    rw [← toEpoch_epochId epoch, equal]
    decide
  subst minus
  exact absurd nonneg (by decide)

theorem destroy_then_create (d : PpDataset) (epoch : UInt64) :
    LiveContext ⟨some d.contexts.length, d.contexts ++ [⟨toEpoch epoch, true⟩]⟩ (toEpoch epoch) :=
  ⟨d.contexts.length, ⟨toEpoch epoch, true⟩, rfl, by simp, rfl, rfl⟩

/-- A dataset thread publishes the epoch it has read itself, so nothing the node thread
does to the slot meanwhile can part the id from the context. -/
def discipline (nonneg : ∀ height, heights height → 0 ≤ getEpochNumber height) :
    Discipline (kind getEpochNumber heights) where
  built d id := LiveContext d (toEpoch id)
  inPhase d
    | .storeReady epoch => LiveContext d (toEpoch epoch)
    | _ => True
  mayAssign _ := True
  jobId_valid job := epochId_ne_invalid _ (nonneg _ job.2)
  entry_ok _ := trivial
  body_phase := by
    intro loaded data phase data' phase' holds ran
    cases phase with
    | loadEpoch =>
        cases ran
        trivial
    | destroy epoch =>
        simp only [datasetThdMain] at ran
        split at ran <;> cases ran <;> trivial
    | create epoch =>
        cases ran
        exact destroy_then_create data epoch
    | storeReady epoch => cases ran
  body_store := by
    intro loaded data phase data' id holds ran
    cases phase with
    | loadEpoch => cases ran
    | destroy epoch =>
        simp only [datasetThdMain] at ran
        split at ran <;> cases ran
    | create epoch => cases ran
    | storeReady epoch =>
        cases ran
        exact holds
  assign_built := fun _ _ _ built => built
  assign_phase := fun _ _ _ _ holds => holds

/-- ProgPoW hashes use the right epoch context, in every interleaving. -/
theorem right_context (nonneg : ∀ height, heights height → 0 ≤ getEpochNumber height)
    (s : State (kind getEpochNumber heights))
    (reached : (system getEpochNumber heights).Reachable s) : RightContext s := by
  intro report member clean
  have allowed : (system getEpochNumber heights).ReachableUnder (discipline nonneg).Allowed s :=
    reached.mono (fun _ _ _ _ _ _ _ _ _ _ _ _ => trivial)
  obtain ⟨data, used, built⟩ :=
    finished_built (D := discipline nonneg) s allowed report member clean
  refine ⟨data, used, ?_⟩
  simpa only [discipline, toEpoch_epochId] using built

def fresh : State (kind getEpochNumber heights) where
  ds _ := ⟨⟨none, []⟩, invalidId, invalidId, .free⟩
  dsCtr := 0
  node := .idle
  threads := []
  jobs := []
  workers _ := .pop
  finished := []

theorem fresh_start : (system getEpochNumber heights).start fresh :=
  ⟨fun _ => ⟨rfl, rfl, rfl, rfl⟩, rfl, rfl, rfl, rfl, fun _ => rfl, rfl⟩

end Pool

/-- ethash::get_epoch_number on small block numbers: epochs of 30000 blocks. -/
def epochOf30000 (blockNumber : UInt64) : Int32 := toEpoch blockNumber / 30000

def hashedCleanly (s : State (kind epochOf30000 (· = 29999))) : Bool :=
  s.finished.any (fun report => !report.error)

/-- A block at the end of an epoch is notified, and a job for it is hashed while the
next epoch's context is being made in the other slot. -/
theorem right_context_at_epoch_end :
    ∃ s : State (kind epochOf30000 (· = 29999)), hashedCleanly s = true ∧ RightContext s := by
  obtain ⟨s, reached, clean⟩ := System.exists_reachable (S := system epochOf30000 (· = 29999))
    fresh_start
    ((notifyBlock 29999).flatMap (fun b => .request b :: List.replicate 8 .node) ++
      List.replicate 6 (.dataset 0) ++ List.replicate 3 (.dataset 1) ++
      [.pushJob ⟨⟨[], 0, 29999⟩, rfl⟩] ++ List.replicate 7 (.worker 0))
    hashedCleanly (by decide +kernel)
  have nonneg : ∀ height : UInt64, height = 29999 → 0 ≤ epochOf30000 height := by
    rintro _ rfl
    decide
  exact ⟨s, clean, right_context nonneg s reached⟩

end PpHashpool

end EpicPoold
