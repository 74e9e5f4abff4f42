import EpicPoold.JsonAccess
import EpicPoold.NodeRuns

/-! Which seeds a job message selects. An epoch is a start, an end and a seed; the start
is exclusive and the end inclusive, so that an entry is the epoch of the job's height, a
later one, or invalid. -/

namespace EpicPoold

open Foundations

def SeedOf (v : Value) (seed : V32) : Prop :=
  ∃ items, v = .array items ∧
    List.Forall₂ (fun item byte => IsWord item byte.toUInt32) items seed.data.bytes

structure EpochEntry where
  start : UInt32
  stop : UInt32
  seed : V32
  deriving DecidableEq

namespace EpochEntry

def Written (v : Value) (e : EpochEntry) : Prop :=
  ∃ start stop seed, v = .array [start, stop, seed] ∧ IsWord start e.start ∧
    IsWord stop e.stop ∧ SeedOf seed e.seed

/-- The epoch of a height: the start is exclusive, the end inclusive. -/
def covers (height : UInt32) (e : EpochEntry) : Bool := e.start < height && height ≤ e.stop

def follows (height : UInt32) (e : EpochEntry) : Bool := height ≤ e.start

def NotOver (height : UInt32) (e : EpochEntry) : Prop := e.start < e.stop ∧ height ≤ e.stop

end EpochEntry

/-- What a valid `epochs` array says of a height. -/
structure Selects (height : UInt32) (epochs : List Value) (entries : List EpochEntry) : Prop where
  count : epochs.length = 1 ∨ epochs.length = 2
  written : List.Forall₂ EpochEntry.Written epochs entries
  notOver : ∀ e ∈ entries, e.NotOver height
  ours : ∃ e ∈ entries, e.start < height ∧ height ≤ e.stop

def lastSeed (which : EpochEntry → Bool) (entries : List EpochEntry) : Option V32 :=
  (entries.filter which).getLast?.map EpochEntry.seed

namespace Node

section Entries

theorem seedByte_eq_ok (v : Value) (byte : UInt8) :
    seedByte v = .ok byte ↔ IsWord v byte.toUInt32 := by
  simp only [seedByte, bind_eq_ok, pure_eq_ok, getUint_eq_ok, rejectIf_eq_ok,
    decide_eq_false_iff_not, UInt32.not_le]
  constructor
  · rintro ⟨n, word, _, small, same⟩
    have fits : byte.toUInt32 = n := by
      rw [← same, ← UInt32.toNat_inj]
      have bound : n.toNat < 256 := small
      simp only [UInt8.toNat_toUInt32, UInt32.toNat_toUInt8]
      omega
    rwa [fits]
  · intro word
    refine ⟨byte.toUInt32, word, (), ?_, byte.toUInt8_toUInt32⟩
    exact byte.toNat_lt

theorem intArrayToVector_eq_ok (v : Value) (seed : V32) :
    intArrayToVector v = .ok seed ↔ SeedOf v seed := by
  simp only [intArrayToVector, bind_eq_ok, pure_eq_ok, getArrayOf_eq_ok, mapM_eq_ok,
    seedByte_eq_ok]
  constructor
  · rintro ⟨items, ⟨array, sized⟩, bytes, read, same⟩
    have whole : seed.data.bytes = bytes := by
      rw [← same]
      exact Buffer.write_whole _ _ (read.length_eq.symm.trans sized)
    rw [← whole] at read
    exact ⟨items, array, read⟩
  · rintro ⟨items, array, read⟩
    have sized : items.length = 32 := read.length_eq.trans seed.data.length_eq
    refine ⟨items, ⟨array, sized⟩, seed.data.bytes, read, ?_⟩
    exact congrArg V32.mk (Buffer.ext_bytes (Buffer.write_whole _ _ seed.data.length_eq))

/-- The correction of the start does not wrap around: the start is below the end. -/
theorem realStart_toNat {start stop : UInt32} (sane : ¬ (stop = 0 ∨ stop ≤ start)) :
    (start + 1).toNat = start.toNat + 1 := by
  have above : start.toNat < stop.toNat := UInt32.not_le.mp (not_or.mp sane).2
  have bound := stop.toNat_lt
  have one : UInt32.toNat 1 = 1 := rfl
  rw [UInt32.toNat_add, one]
  omega

def useOf (height : UInt32) (e : EpochEntry) : EpochUse :=
  if e.covers height then .current e.seed else .following e.seed

theorem useOf_eq (height start stop : UInt32) (seed : V32) :
    useOf height ⟨start, stop, seed⟩ =
      if start.toNat < height.toNat ∧ height.toNat ≤ stop.toNat then .current seed
      else .following seed := by
  simp [useOf, EpochEntry.covers, UInt32.le_iff_toNat_le, UInt32.lt_iff_toNat_lt]

theorem wrapSeed_eq_ok (v : Value) (wrap : V32 → EpochUse) (use : EpochUse) :
    (intArrayToVector v >>= fun seed => pure (wrap seed)) = .ok use ↔
      ∃ vector, SeedOf v vector ∧ use = wrap vector := by
  simp only [bind_eq_ok, pure_eq_ok, intArrayToVector_eq_ok]
  constructor
  · rintro ⟨vector, taken, same⟩
    exact ⟨vector, taken, same.symm⟩
  · rintro ⟨vector, taken, same⟩
    exact ⟨vector, taken, same.symm⟩

theorem readSeed_eq_ok (height start stop : UInt32) (seed : Value) (use : EpochUse)
    (sane : ¬ (stop = 0 ∨ stop ≤ start)) :
    ((if start + 1 ≤ height ∧ height ≤ stop then do
        let seed ← intArrayToVector seed
        pure (.current seed)
      else if height < start + 1 then do
        let seed ← intArrayToVector seed
        pure (.following seed)
      else jsonParseError (ascii "Unidentfied epoch")) : Json EpochUse) = .ok use ↔
      ∃ vector, SeedOf seed vector ∧ EpochEntry.NotOver height ⟨start, stop, vector⟩ ∧
        use = useOf height ⟨start, stop, vector⟩ := by
  have corrected := realStart_toNat sane
  have above : start.toNat < stop.toNat := UInt32.not_le.mp (not_or.mp sane).2
  simp only [EpochEntry.NotOver, useOf_eq, UInt32.le_iff_toNat_le, UInt32.lt_iff_toNat_lt,
    corrected, above, true_and]
  split
  · rename_i mine
    have current : start.toNat < height.toNat ∧ height.toNat ≤ stop.toNat := mine
    rw [wrapSeed_eq_ok]
    simp only [current, and_self, if_true, true_and]
  · rename_i other
    split
    · rename_i later
      have ahead : height.toNat ≤ stop.toNat := by omega
      have notCurrent : ¬ start.toNat < height.toNat := by omega
      rw [wrapSeed_eq_ok]
      simp only [ahead, notCurrent, false_and, if_false, true_and]
    · rename_i earlier
      have past : ¬ height.toNat ≤ stop.toNat := by
        intro ahead
        exact other ⟨Nat.not_lt.mp earlier, ahead⟩
      simp [jsonParseError, past]

theorem readEpoch_eq_ok (height : UInt32) (epoch : Value) (use : EpochUse) :
    readEpoch height epoch = .ok use ↔
      ∃ e : EpochEntry, e.Written epoch ∧ e.NotOver height ∧ use = useOf height e := by
  constructor
  · intro read
    simp only [readEpoch, bind_eq_ok, getArrayOf_eq_ok] at read
    obtain ⟨members, ⟨array, sized⟩, read⟩ := read
    split at read
    · rename_i start stop seed
      simp only [bind_eq_ok, getUint_eq_ok, rejectIf_eq_ok, decide_eq_false_iff_not] at read
      obtain ⟨realStart, first, realEnd, last, _, sane, read⟩ := read
      obtain ⟨vector, taken, current, same⟩ := (readSeed_eq_ok _ _ _ _ _ sane).mp read
      exact ⟨⟨realStart, realEnd, vector⟩, ⟨start, stop, seed, array, first, last, taken⟩,
        current, same⟩
    · cases read
  · rintro ⟨e, ⟨start, stop, seed, array, first, last, taken⟩, notOver, same⟩
    have sane : ¬ (e.stop = 0 ∨ e.stop ≤ e.start) := by
      have below : e.start.toNat < e.stop.toNat := notOver.1
      rw [not_or, UInt32.not_le]
      refine ⟨?_, notOver.1⟩
      intro zero
      rw [zero] at below
      exact Nat.not_lt_zero _ below
    simp only [readEpoch, bind_eq_ok, getArrayOf_eq_ok]
    refine ⟨[start, stop, seed], ⟨array, rfl⟩, ?_⟩
    simp only [bind_eq_ok, getUint_eq_ok, rejectIf_eq_ok, decide_eq_false_iff_not]
    refine ⟨e.start, first, e.stop, last, (), sane, ?_⟩
    exact (readSeed_eq_ok _ _ _ _ _ sane).mpr ⟨e.seed, taken, notOver, same⟩

theorem mapM_readEpoch_eq_ok (height : UInt32) (epochs : List Value) (uses : List EpochUse) :
    epochs.mapM (readEpoch height) = .ok uses ↔
      ∃ entries : List EpochEntry, List.Forall₂ EpochEntry.Written epochs entries ∧
        (∀ e ∈ entries, e.NotOver height) ∧ uses = entries.map (useOf height) := by
  rw [mapM_eq_ok]
  constructor
  · intro read
    induction read with
    | nil => exact ⟨[], .nil, by simp, rfl⟩
    | cons first _ ih =>
        obtain ⟨e, written, notOver, same⟩ := (readEpoch_eq_ok _ _ _).mp first
        obtain ⟨entries, others, all, rest⟩ := ih
        refine ⟨e :: entries, .cons written others, ?_, by rw [same, rest, List.map_cons]⟩
        exact List.forall_mem_cons.mpr ⟨notOver, all⟩
  · rintro ⟨entries, written, notOver, same⟩
    rw [same]
    clear same
    induction written with
    | nil => exact .nil
    | cons first _ ih =>
        obtain ⟨this, others⟩ := List.forall_mem_cons.mp notOver
        exact .cons ((readEpoch_eq_ok _ _ _).mpr ⟨_, first, this, rfl⟩) (ih others)

end Entries

/-- The part of json_proc_msg that reads `epochs` into the element at `addr`. -/
def selectEpochs (addr : Nat) (height : UInt32) (res : Value) : NodeM Unit := do
  let epochs ← getArray (← getObjectMemberT res "epochs")
  rejectIf (epochs.length ≠ 1 ∧ epochs.length ≠ 2) (ascii "Unexpected epochs size")
  let hasOurEpoch ← epochLoop addr height epochs false
  rejectIf (!hasOurEpoch) (ascii "We don't have our epoch")

/-- json_proc_msg from the new element to the end of the epoch loop. -/
def openJob (header : JobHeader) (res : Value) : NodeM Nat := do
  let addr ← emplaceJob
  modifyJob addr (fun job => { job with type := header.type, blockDiff := header.blockDiff })
  selectEpochs addr header.height res
  pure addr

def finishJob (getEpochNumber : UInt64 → Int32) (env : MessageEnv) (height : UInt32)
    (res : Value) (addr : Nat) : NodeM Processed := do
  notifyBlock getEpochNumber height.toUInt64
  let jobid ← getJsonUInt res "job_id"
  modifyJob addr (fun job => { job with jobid := jobid, height := height })
  let job ← readPrepow addr res
  publish env addr
  pure (.published job)

theorem jobMessage_eq (getEpochNumber : UInt64 → Int32) (env : MessageEnv) (res : Value)
    (header : JobHeader) (valid : jobHeader env res = .ok (some header)) :
    jobMessage getEpochNumber env res =
      openJob header res >>= finishJob getEpochNumber env header.height res := by
  simp only [jobHeader, bind_eq_ok] at valid
  obtain ⟨height, tall, valid⟩ := valid
  split at valid
  · cases valid
  rename_i nonzero
  simp only [bind_eq_ok] at valid
  obtain ⟨algo, named, type, typed, member, found, difficulties, listed, blockDiff, summed,
    valid⟩ := valid
  split at valid
  · cases valid
  rename_i hard
  cases valid
  rw [jobMessage, lift_ok_bind tall, if_neg nonzero, lift_ok_bind named, lift_ok_bind typed,
    lift_ok_bind found, lift_ok_bind listed, lift_ok_bind summed, if_neg hard]
  simp only [openJob, selectEpochs, bind_assoc, pure_bind]
  rfl

section Plain

theorem forall₂_replicate {α β : Type} {R : α → β → Prop} {a : α} {b : β} (related : R a b)
    (n : Nat) : List.Forall₂ R (List.replicate n a) (List.replicate n b) := by
  induction n with
  | zero => exact .nil
  | succ n ih => exact .cons related ih

def plainSeed (byte : UInt8) : Value := .array (List.replicate 32 (plainNumber byte))

theorem plainNumber_isWord (n : UInt8) : IsWord (plainNumber n) n.toUInt32 := ⟨_, rfl⟩

theorem plainSeed_seedOf (byte : UInt8) : SeedOf (plainSeed byte) ⟨Buffer.filled 32 byte⟩ :=
  ⟨_, rfl, @forall₂_replicate _ _ (fun item (b : UInt8) => IsWord item b.toUInt32) _ _
    (plainNumber_isWord byte) 32⟩

def plainEpoch (start stop byte : UInt8) : Value :=
  .array [plainNumber start, plainNumber stop, plainSeed byte]

theorem plainEpoch_written (start stop byte : UInt8) :
    EpochEntry.Written (plainEpoch start stop byte)
      ⟨start.toUInt32, stop.toUInt32, ⟨Buffer.filled 32 byte⟩⟩ :=
  ⟨_, _, _, rfl, plainNumber_isWord start, plainNumber_isWord stop, plainSeed_seedOf byte⟩

end Plain

section Selection

variable {height : UInt32} {epochs : List Value} {entries : List EpochEntry}

theorem useOf_current {e : EpochEntry} (covered : e.covers height = true) :
    useOf height e = .current e.seed := if_pos covered

theorem useOf_following {e : EpochEntry} (later : e.covers height = false) :
    useOf height e = .following e.seed := by
  rw [useOf, later]
  rfl

theorem useOf_isCurrent (e : EpochEntry) : (useOf height e).isCurrent = e.covers height := by
  cases covered : e.covers height with
  | true =>
      rw [useOf_current covered]
      rfl
  | false =>
      rw [useOf_following covered]
      rfl

theorem current_useOf (entries : List EpochEntry) :
    (entries.map (useOf height)).filterMap EpochUse.current? =
      (entries.filter (EpochEntry.covers height)).map EpochEntry.seed := by
  induction entries with
  | nil => rfl
  | cons e rest ih =>
      cases covered : e.covers height with
      | true =>
          rw [List.map_cons, useOf_current covered, List.filter_cons_of_pos covered, List.map_cons,
            ← ih]
          rfl
      | false =>
          rw [List.map_cons, useOf_following covered, List.filter_cons_of_neg (by simp [covered]),
            ← ih]
          rfl

theorem follows_eq (e : EpochEntry) (notOver : e.NotOver height) :
    e.follows height = !e.covers height := by
  have ahead : decide (height ≤ e.stop) = true := decide_eq_true notOver.2
  rw [EpochEntry.follows, EpochEntry.covers, ahead, Bool.and_true, ← decide_not]
  exact decide_eq_decide.mpr UInt32.not_lt.symm

theorem following_useOf (entries : List EpochEntry) (notOver : ∀ e ∈ entries, e.NotOver height) :
    (entries.map (useOf height)).filterMap EpochUse.following? =
      (entries.filter (EpochEntry.follows height)).map EpochEntry.seed := by
  induction entries with
  | nil => rfl
  | cons e rest ih =>
      obtain ⟨this, others⟩ := List.forall_mem_cons.mp notOver
      have later := follows_eq e this
      cases covered : e.covers height with
      | true =>
          rw [covered] at later
          rw [List.map_cons, useOf_current covered, List.filter_cons_of_neg (by simp [later]),
            ← ih others]
          rfl
      | false =>
          rw [covered] at later
          rw [List.map_cons, useOf_following covered, List.filter_cons_of_pos later, List.map_cons,
            ← ih others]
          rfl

theorem counted_iff (n : Nat) : decide (n ≠ 1 ∧ n ≠ 2) = false ↔ n = 1 ∨ n = 2 := by
  rw [decide_eq_false_iff_not]
  omega

variable {res : Value} (listed : getObjectMember res "epochs" = .ok (some (.array epochs)))

include listed

theorem epochs_member : getObjectMemberT res "epochs" = .ok (.array epochs) := by
  change res.findMember "epochs" = _ at listed
  rw [getObjectMemberT, listed]
  rfl

theorem jobEpochs_eq_ok (uses : List EpochUse) :
    jobEpochs height res = .ok uses ↔
      ∃ entries, Selects height epochs entries ∧ uses = entries.map (useOf height) := by
  simp only [jobEpochs, bind_eq_ok, pure_eq_ok, rejectIf_eq_ok, epochs_member listed,
    Except.ok.injEq, getArray_eq_ok, mapM_readEpoch_eq_ok, counted_iff]
  constructor
  · rintro ⟨_, rfl, _, array, _, sized, read, ⟨entries, written, notOver, taken⟩, _, current, same⟩
    cases array
    subst same taken
    refine ⟨entries, ⟨sized, written, notOver, ?_⟩, rfl⟩
    obtain ⟨use, member, mine⟩ := List.any_eq_true.mp (Bool.not_eq_eq_eq_not.mp current)
    obtain ⟨e, present, rfl⟩ := List.mem_map.mp member
    rw [useOf_isCurrent] at mine
    exact ⟨e, present, by simpa [EpochEntry.covers] using mine⟩
  · rintro ⟨entries, selects, same⟩
    refine ⟨_, rfl, epochs, rfl, (), selects.count, uses,
      ⟨entries, selects.written, selects.notOver, same⟩, (), ?_, rfl⟩
    obtain ⟨e, present, mine⟩ := selects.ours
    have current : uses.any EpochUse.isCurrent = true := by
      rw [same, List.any_map]
      apply List.any_eq_true.mpr
      refine ⟨e, present, ?_⟩
      simpa [useOf_isCurrent, EpochEntry.covers] using mine
    rw [current]
    rfl

omit listed

theorem runs_selectEpochs (n t : Node) (fill : JobData → JobData) (rx pp : DatasetSlots)
    (effects : List NodeEffect) (u : Unit) :
    Runs (selectEpochs n.nextAddr height res) (n.filling fill rx pp effects) u t ↔
      ∃ uses, jobEpochs height res = .ok uses ∧
        t = n.filling (storeAll uses ∘ fill) (rx.requireAll (uses.map EpochUse.id)) pp effects := by
  simp only [selectEpochs, jobEpochs, runs_lift_bind, bind_eq_ok]
  constructor
  · rintro ⟨member, found, epochs, array, _, sized, ran⟩
    obtain ⟨found, s, looped, ran⟩ := (runs_bind _ _ _ _ _).mp ran
    obtain ⟨uses, used, rfl, same⟩ := runs_epochLoop _ _ _ _ _ _ _ _ _ _ looped
    obtain ⟨ours, rfl⟩ := (runs_lift _ _ _ _).mp ran
    exact ⟨uses, ⟨member, found, epochs, array, (), sized, uses, used, (), ours, rfl⟩, same⟩
  · rintro ⟨uses, ⟨member, found, epochs, array, _, sized, _, used, _, ours, same⟩, left⟩
    obtain rfl := (pure_eq_ok _ _).mp same
    refine ⟨member, found, epochs, array, (), sized, (runs_bind _ _ _ _ _).mpr ?_⟩
    rcases runs_or_fails (epochLoop n.nextAddr height epochs false) (n.filling fill rx pp effects)
      with ⟨current, s, looped⟩ | ⟨e, s, failed⟩
    · refine ⟨current, s, looped, ?_⟩
      obtain ⟨uses', used', rfl, rfl⟩ := runs_epochLoop _ _ _ _ _ _ _ _ _ _ looped
      obtain rfl := Except.ok.inj (used.symm.trans used')
      exact (runs_lift _ _ _ _).mpr ⟨ours, left.symm⟩
    · have bad := (fails_epochLoop _ _ _ _ _ _ _ _ _ _ failed).1
      rw [used] at bad
      cases bad

theorem runs_openJob (n t : Node) (header : JobHeader) (addr : Nat) :
    Runs (openJob header res) n addr t ↔ addr = n.nextAddr ∧
      ∃ uses, jobEpochs header.height res = .ok uses ∧
        t = n.filling (storeAll uses ∘ fun job =>
          { job with type := header.type, blockDiff := header.blockDiff })
          (n.rx.requireAll (uses.map EpochUse.id)) n.pp [] := by
  rw [openJob, runs_emplaceJob_bind, runs_modifyJob_bind]
  constructor
  · intro ran
    obtain ⟨_, s, selected, ran⟩ := (runs_bind _ _ _ _ _).mp ran
    obtain ⟨rfl, rfl⟩ := (runs_pure _ _ _ _).mp ran
    exact ⟨rfl, (runs_selectEpochs _ _ _ _ _ _ _).mp selected⟩
  · rintro ⟨same, uses, read, left⟩
    apply (runs_bind _ _ _ _ _).mpr
    refine ⟨(), t, (runs_selectEpochs _ _ _ _ _ _ _).mpr ⟨uses, read, left⟩, ?_⟩
    exact (runs_pure _ _ _ _).mpr ⟨same.symm, rfl⟩

structure SeedsFrom (height : UInt32) (entries : List EpochEntry) (job : JobData) : Prop where
  rxSeed : lastSeed (EpochEntry.covers height) entries = some job.rxSeed
  rxNextSeed : job.rxNextSeed = (lastSeed (EpochEntry.follows height) entries).getD .setAllZero

theorem exists_lastSeed (selects : Selects height epochs entries) :
    ∃ seed, lastSeed (EpochEntry.covers height) entries = some seed := by
  obtain ⟨e, present, mine⟩ := selects.ours
  have covering : e ∈ entries.filter (EpochEntry.covers height) :=
    List.mem_filter.mpr ⟨present, by simpa [EpochEntry.covers] using mine⟩
  have last := List.getLast?_eq_some_getLast (List.ne_nil_of_mem covering)
  exact ⟨_, by rw [lastSeed, last, Option.map_some]⟩

theorem seedsFrom_storeAll (selects : Selects height epochs entries) (job : JobData)
    (zero : job.rxNextSeed = .setAllZero) :
    SeedsFrom height entries (storeAll (entries.map (useOf height)) job) := by
  obtain ⟨seed, last⟩ := exists_lastSeed selects
  constructor
  · rw [storeAll_rxSeed, current_useOf, List.getLast?_map]
    change _ = some ((lastSeed _ entries).getD _)
    rw [last, Option.getD_some]
  · rw [storeAll_rxNextSeed, following_useOf entries selects.notOver, List.getLast?_map, zero]
    rfl

/-- A job message gets past the epoch loop exactly when its epochs select, and then the
new element has the seeds that they say. -/
theorem epoch_selection {getEpochNumber : UInt64 → Int32} {s : NodeRun}
    (reached : (NodeRun.system getEpochNumber).Reachable s) (header : JobHeader) (res : Value)
    (epochs : List Value) (listed : getObjectMember res "epochs" = .ok (some (.array epochs))) :
    (∀ env, jobHeader env res = .ok (some header) →
      jobMessage getEpochNumber env res =
        openJob header res >>= finishJob getEpochNumber env header.height res) ∧
    ((∃ addr t, Runs (openJob header res) s.node addr t) ↔
      ∃ entries, Selects header.height epochs entries) ∧
    (∀ entries addr t, Selects header.height epochs entries →
      Runs (openJob header res) s.node addr t →
      ∃ job, t.jobs = s.node.jobs ++ [⟨addr, job⟩] ∧ SeedsFrom header.height entries job) ∧
    ∀ start stop : UInt32, ¬ (stop = 0 ∨ stop ≤ start) → (start + 1).toNat = start.toNat + 1 := by
  refine ⟨fun env valid => jobMessage_eq getEpochNumber env res header valid, ?_, ?_,
    fun start stop sane => realStart_toNat sane⟩
  · constructor
    · rintro ⟨addr, t, ran⟩
      obtain ⟨_, uses, read, _⟩ := (runs_openJob _ _ _ _).mp ran
      obtain ⟨entries, selects, _⟩ := (jobEpochs_eq_ok listed uses).mp read
      exact ⟨entries, selects⟩
    · rintro ⟨entries, selects⟩
      have read := (jobEpochs_eq_ok listed _).mpr ⟨entries, selects, rfl⟩
      exact ⟨_, _, (runs_openJob _ _ _ _).mpr ⟨rfl, _, read, rfl⟩⟩
  · intro entries addr t selects ran
    obtain ⟨rfl, uses, read, rfl⟩ := (runs_openJob _ _ _ _).mp ran
    have taken := (jobEpochs_eq_ok listed _).mpr ⟨entries, selects, rfl⟩
    obtain rfl := Except.ok.inj (read.symm.trans taken)
    have fresh := (NodeRun.reachable_publishedAlive reached).1.fresh
    exact ⟨_, filling_jobs _ _ _ _ _ fresh, seedsFrom_storeAll selects _ rfl⟩

/-- The next epoch is listed before the current one, whose end is the height. -/
theorem epoch_selection_last_height :
    ∃ addr t, Runs (openJob ⟨100, .randomx, 10⟩
        (.object [(ascii "epochs", .array [plainEpoch 100 200 9, plainEpoch 0 100 7])]))
        plainNode addr t ∧
      ∃ job, t.jobs = [⟨addr, job⟩] ∧ job.rxSeed = ⟨Buffer.filled 32 7⟩ ∧
        job.rxNextSeed = ⟨Buffer.filled 32 9⟩ := by
  obtain ⟨_, passes, seeds, _⟩ := @epoch_selection (fun _ => 0) _ (.start rfl)
    ⟨100, .randomx, 10⟩ (.object [(ascii "epochs", .array [plainEpoch 100 200 9,
      plainEpoch 0 100 7])]) [plainEpoch 100 200 9, plainEpoch 0 100 7] rfl
  have selects : Selects 100 [plainEpoch 100 200 9, plainEpoch 0 100 7]
      [⟨100, 200, ⟨Buffer.filled 32 9⟩⟩, ⟨0, 100, ⟨Buffer.filled 32 7⟩⟩] := by
    refine ⟨.inr rfl, .cons (plainEpoch_written 100 200 9) (.cons (plainEpoch_written 0 100 7)
      .nil), ?_, ⟨_, List.mem_cons_of_mem _ List.mem_cons_self, by decide⟩⟩
    intro e member
    simp only [List.mem_cons, List.not_mem_nil, or_false] at member
    rcases member with rfl | rfl
    · exact ⟨by decide, by decide⟩
    · exact ⟨by decide, by decide⟩
  obtain ⟨addr, t, ran⟩ := passes.mpr ⟨_, selects⟩
  obtain ⟨job, listed, current, following⟩ := seeds _ _ _ selects ran
  exact ⟨addr, t, ran, job, listed, (Option.some.inj current).symm, following⟩

end Selection

end Node

end EpicPoold
