import EpicPoold.NodeJobs

/-! Everything a job message can do to the node. What it says is read off by functions
of the message alone; the node then changes in one of four ways, according to how far
the message gets. -/

namespace EpicPoold

open Foundations

namespace DatasetSlots

def requireAll (d : DatasetSlots) (ids : List UInt64) : DatasetSlots := ids.foldl require d

@[simp] theorem requireAll_nil (d : DatasetSlots) : d.requireAll [] = d := rfl

@[simp] theorem requireAll_cons (d : DatasetSlots) (id : UInt64) (ids : List UInt64) :
    d.requireAll (id :: ids) = (d.require id).requireAll ids := rfl

end DatasetSlots

namespace Node

/-- An entry of `epochs`: the epoch of the job's height, or one after it. -/
inductive EpochUse where
  | current (seed : V32)
  | following (seed : V32)
  deriving DecidableEq

namespace EpochUse

def seed : EpochUse → V32
  | .current seed => seed
  | .following seed => seed

def isCurrent : EpochUse → Bool
  | .current _ => true
  | .following _ => false

def current? : EpochUse → Option V32
  | .current seed => some seed
  | .following _ => none

def following? : EpochUse → Option V32
  | .current _ => none
  | .following seed => some seed

def id (use : EpochUse) : UInt64 := use.seed.getId

def store : EpochUse → JobData → JobData
  | .current seed, job => { job with rxSeed := seed }
  | .following seed, job => { job with rxNextSeed := seed }

end EpochUse

def readEpoch (height : UInt32) (epoch : Value) : Json EpochUse := do
  match ← getArrayOf epoch 3 with
  | [start, stop, seed] =>
      let realStart ← getUint start
      let realEnd ← getUint stop
      rejectIf (realEnd = 0 ∨ realEnd ≤ realStart) (ascii "Epoch sanity check failed!")
      let realStart := realStart + 1
      if realStart ≤ height ∧ height ≤ realEnd then
        let seed ← intArrayToVector seed
        pure (.current seed)
      else if height < realStart then
        let seed ← intArrayToVector seed
        pure (.following seed)
      else jsonParseError (ascii "Unidentfied epoch")
  | _ => .error .assertion

def storeAll (uses : List EpochUse) (job : JobData) : JobData :=
  uses.foldl (fun job use => use.store job) job

def useEpoch (addr : Nat) (use : EpochUse) : NodeM Unit := do
  modifyJob addr use.store
  requireRx use.seed

theorem epochLoop_cons (addr : Nat) (height : UInt32) (epoch : Value) (rest : List Value)
    (ours : Bool) :
    epochLoop addr height (epoch :: rest) ours = (do
      let use ← readEpoch height epoch
      useEpoch addr use
      epochLoop addr height rest (ours || use.isCurrent)) := by
  rw [epochLoop, readEpoch, lift_bind_assoc]
  apply bind_congr
  intro members
  rcases members with _ | ⟨start, _ | ⟨stop, _ | ⟨seed, _ | ⟨more, rest⟩⟩⟩⟩
  all_goals try rfl
  simp only [lift_bind_assoc]
  apply bind_congr
  intro realStart
  apply bind_congr
  intro realEnd
  apply bind_congr
  intro _
  split
  · rw [lift_bind_assoc]
    apply bind_congr
    intro v
    simp only [useEpoch, EpochUse.seed, EpochUse.isCurrent, Bool.or_true, lift_pure_bind,
      bind_assoc]
    rfl
  · split
    · rw [lift_bind_assoc]
      apply bind_congr
      intro v
      simp only [useEpoch, EpochUse.seed, EpochUse.isCurrent, Bool.or_false, lift_pure_bind,
        bind_assoc]
      rfl
    · rfl

def updateJob (addr : Nat) (fill : JobData → JobData) (e : JobEntry) : JobEntry :=
  if e.addr = addr then { e with job := fill e.job } else e

/-- The node while the element it has appended is being filled: `fill` is everything
done to the element so far. -/
def filling (n : Node) (fill : JobData → JobData) (rx pp : DatasetSlots)
    (effects : List NodeEffect) : Node :=
  { n with
    jobs := (n.jobs ++ [JobEntry.mk n.nextAddr .zero]).map (updateJob n.nextAddr fill)
    nextAddr := n.nextAddr + 1
    rx := rx
    pp := pp
    effects := n.effects ++ effects }

/-- The elements of the list are where they were, and none is where the next will be. -/
def Fresh (n : Node) : Prop := ∀ e ∈ n.jobs, e.addr < n.nextAddr

section Filling

variable (n : Node) (fill : JobData → JobData) (rx pp : DatasetSlots) (effects : List NodeEffect)

theorem updateJob_updateJob (addr : Nat) (f g : JobData → JobData) (e : JobEntry) :
    updateJob addr g (updateJob addr f e) = updateJob addr (g ∘ f) e := by
  by_cases same : e.addr = addr
  · simp [updateJob, same]
  · simp [updateJob, same]

theorem updateJob_id (addr : Nat) : updateJob addr id = id := by
  funext e
  simp [updateJob]

theorem filling_jobs_length : (n.filling fill rx pp effects).jobs.length = n.jobs.length + 1 := by
  simp [filling]

theorem filling_jobs (fresh : n.Fresh) :
    (n.filling fill rx pp effects).jobs = n.jobs ++ [⟨n.nextAddr, fill .zero⟩] := by
  have kept : n.jobs.map (updateJob n.nextAddr fill) = n.jobs := by
    refine (List.map_congr_left ?_).trans (List.map_id n.jobs)
    intro e member
    have elsewhere : e.addr ≠ n.nextAddr := Nat.ne_of_lt (fresh e member)
    simp [updateJob, elsewhere]
  rw [filling, List.map_append, kept]
  simp [updateJob]

theorem filling_find (fresh : n.Fresh) :
    (n.filling fill rx pp effects).jobs.find? (fun e => e.addr == n.nextAddr) =
      some ⟨n.nextAddr, fill .zero⟩ := by
  have older : n.jobs.find? (fun e => e.addr == n.nextAddr) = none := by
    apply List.find?_eq_none.mpr
    intro e member
    simpa using Nat.ne_of_lt (fresh e member)
  rw [filling_jobs _ _ _ _ _ fresh, List.find?_append, older]
  simp

theorem filling_find_ne_none :
    (n.filling fill rx pp effects).jobs.find? (fun e => e.addr == n.nextAddr) ≠ none := by
  intro missing
  have absent := List.find?_eq_none.mp missing (updateJob n.nextAddr fill ⟨n.nextAddr, .zero⟩)
    (by simp [filling])
  simp [updateJob] at absent

theorem filling_update (f : JobData → JobData) :
    ({ n.filling fill rx pp effects with
      jobs := (n.filling fill rx pp effects).jobs.map (updateJob n.nextAddr f) } : Node) =
      n.filling (f ∘ fill) rx pp effects := by
  have composed : (n.filling fill rx pp effects).jobs.map (updateJob n.nextAddr f) =
      (n.filling (f ∘ fill) rx pp effects).jobs := by
    simp only [filling, List.map_map]
    apply List.map_congr_left
    intro e _
    exact updateJob_updateJob n.nextAddr fill f e
  rw [composed]
  rfl

variable {α : Type} (k : Unit → NodeM α) (a : α) (e : JsonFail) (t : Node)

theorem runs_modifyJob_bind (f : JobData → JobData) :
    Runs (modifyJob n.nextAddr f >>= k) (n.filling fill rx pp effects) a t ↔
      Runs (k ()) (n.filling (f ∘ fill) rx pp effects) a t := by
  rw [← filling_update]
  exact runs_modify_bind ..

theorem fails_modifyJob_bind (f : JobData → JobData) :
    Fails (modifyJob n.nextAddr f >>= k) (n.filling fill rx pp effects) e t ↔
      Fails (k ()) (n.filling (f ∘ fill) rx pp effects) e t := by
  rw [← filling_update]
  exact fails_modify_bind ..

theorem runs_requireRx_bind (seed : V32) :
    Runs (requireRx seed >>= k) (n.filling fill rx pp effects) a t ↔
      Runs (k ()) (n.filling fill (rx.require seed.getId) pp effects) a t := runs_modify_bind ..

theorem fails_requireRx_bind (seed : V32) :
    Fails (requireRx seed >>= k) (n.filling fill rx pp effects) e t ↔
      Fails (k ()) (n.filling fill (rx.require seed.getId) pp effects) e t := fails_modify_bind ..

theorem filling_emit (effect : NodeEffect) :
    ({ n.filling fill rx pp effects with
      effects := (n.filling fill rx pp effects).effects ++ [effect] } : Node) =
      n.filling fill rx pp (effects ++ [effect]) := by
  simp [filling]

theorem runs_emit_bind (effect : NodeEffect) :
    Runs (emit effect >>= k) (n.filling fill rx pp effects) a t ↔
      Runs (k ()) (n.filling fill rx pp (effects ++ [effect])) a t := by
  rw [← filling_emit]
  exact runs_modify_bind ..

theorem fails_emit_bind (effect : NodeEffect) :
    Fails (emit effect >>= k) (n.filling fill rx pp effects) e t ↔
      Fails (k ()) (n.filling fill rx pp (effects ++ [effect])) e t := by
  rw [← filling_emit]
  exact fails_modify_bind ..

end Filling

section Stages

variable (n : Node)

theorem runs_epochLoop (height : UInt32) (pp : DatasetSlots) (effects : List NodeEffect)
    (epochs : List Value) :
    ∀ (fill : JobData → JobData) (rx : DatasetSlots) (ours found : Bool) (t : Node),
      Runs (epochLoop n.nextAddr height epochs ours) (n.filling fill rx pp effects) found t →
      ∃ uses, epochs.mapM (readEpoch height) = .ok uses ∧
        found = (ours || uses.any EpochUse.isCurrent) ∧
        t = n.filling (storeAll uses ∘ fill) (rx.requireAll (uses.map EpochUse.id)) pp effects := by
  induction epochs with
  | nil =>
      intro fill rx ours found t ran
      obtain ⟨same, rfl⟩ := (runs_pure _ _ _ _).mp ran
      exact ⟨[], rfl, by simp [same], rfl⟩
  | cons epoch rest ih =>
      intro fill rx ours found t ran
      simp only [epochLoop_cons, useEpoch, bind_assoc, runs_lift_bind, runs_modifyJob_bind,
        runs_requireRx_bind] at ran
      obtain ⟨use, taken, ran⟩ := ran
      obtain ⟨uses, others, same, rfl⟩ := ih _ _ _ _ _ ran
      refine ⟨use :: uses, ?_, ?_, rfl⟩
      · simp [List.mapM_cons, taken, others, bind, Except.bind, pure, Except.pure]
      · rw [same, List.any_cons, Bool.or_assoc]

theorem fails_epochLoop (height : UInt32) (pp : DatasetSlots) (effects : List NodeEffect)
    (epochs : List Value) :
    ∀ (fill : JobData → JobData) (rx : DatasetSlots) (ours : Bool) (e : JsonFail) (t : Node),
      Fails (epochLoop n.nextAddr height epochs ours) (n.filling fill rx pp effects) e t →
      epochs.mapM (readEpoch height) = .error e ∧
        ∃ fill' rx', t = n.filling fill' rx' pp effects := by
  induction epochs with
  | nil =>
      intro fill rx ours e t failed
      exact absurd failed (not_fails_pure _ _ _ _)
  | cons epoch rest ih =>
      intro fill rx ours e t failed
      simp only [epochLoop_cons, useEpoch, bind_assoc, fails_lift_bind, fails_modifyJob_bind,
        fails_requireRx_bind] at failed
      rcases failed with ⟨bad, rfl⟩ | ⟨use, taken, failed⟩
      · refine ⟨?_, fill, rx, rfl⟩
        simp [List.mapM_cons, bad, bind, Except.bind]
      · obtain ⟨bad, left⟩ := ih _ _ _ _ _ failed
        refine ⟨?_, left⟩
        simp [List.mapM_cons, taken, bad, bind, Except.bind]

variable (fill : JobData → JobData) (rx pp : DatasetSlots) (effects : List NodeEffect)

/-- The blob that the text of `pre_pow` leaves in a job. -/
def setPrepow (text : List UInt8) (job : JobData) : JobData :=
  { job with
    prepow := (job.prepow.write 0 (hex2bin text text.length).2).write (text.length / 2)
      (List.replicate 8 0)
    prepowLen := UInt32.ofNat (text.length / 2) + 8 }

/-- `pre_pow`, if it is hexadecimal and not too long. -/
def readPrepowText (res : Value) : Json (List UInt8) := do
  let prepow ← getJsonString res "pre_pow"
  rejectIf (prepowSize - 8 < prepow.length / 2)
    (ascii "Too long prepow, size: " ++ decimal (prepow.length / 2))
  rejectIf (!(hex2bin prepow prepow.length).1) (ascii "Hex-decode on prepow failed")
  pure prepow

theorem runs_readPrepow (res : Value) (job : JobData) (t : Node)
    (ran : Runs (readPrepow n.nextAddr res) (n.filling fill rx pp effects) job t) :
    ∃ text effects', readPrepowText res = .ok text ∧
      t = n.filling (setPrepow text ∘ fill) rx pp effects' ∧
      (n.Fresh → job = setPrepow text (fill .zero)) := by
  simp only [readPrepow, runs_lift_bind, runs_emit_bind, runs_modifyJob_bind, runs_get_bind] at ran
  obtain ⟨text, named, _, short, _, decoded, ran⟩ := ran
  have read : readPrepowText res = .ok text := by
    simp [readPrepowText, named, short, decoded, bind, Except.bind, pure, Except.pure]
  split at ran
  · rename_i entry found
    obtain ⟨rfl, rfl⟩ := (runs_pure _ _ _ _).mp ran
    refine ⟨text, _, read, rfl, ?_⟩
    intro fresh
    rw [filling_find _ _ _ _ _ fresh] at found
    cases found
    rfl
  · exact absurd ran (not_runs_throw _ _ _ _)

theorem fails_readPrepow (res : Value) (e : JsonFail) (t : Node)
    (failed : Fails (readPrepow n.nextAddr res) (n.filling fill rx pp effects) e t) :
    readPrepowText res = .error e ∧ ∃ fill' effects', t = n.filling fill' rx pp effects' := by
  simp only [readPrepow, fails_lift_bind, fails_emit_bind, fails_modifyJob_bind,
    fails_get_bind] at failed
  rcases failed with ⟨bad, rfl⟩ | ⟨text, named, ⟨bad, rfl⟩ | ⟨_, short, ⟨bad, rfl⟩ |
    ⟨_, decoded, failed⟩⟩⟩
  · exact ⟨by simp [readPrepowText, bad, bind, Except.bind], fill, effects, rfl⟩
  · exact ⟨by simp only [readPrepowText, named, bad, bind, Except.bind], fill, effects, rfl⟩
  · exact ⟨by simp only [readPrepowText, named, short, bad, bind, Except.bind], _, _, rfl⟩
  · split at failed
    · exact absurd failed (not_fails_pure _ _ _ _)
    · rename_i missing
      exact absurd missing (filling_find_ne_none _ _ _ _ _)

end Stages

structure JobHeader where
  height : UInt32
  type : PowType
  blockDiff : UInt64
  deriving DecidableEq

/-- What a job message says before an element is appended for it, or nothing if its
height or its difficulty is zero. -/
def jobHeader (env : MessageEnv) (res : Value) : Json (Option JobHeader) := do
  let height ← getJsonUInt res "height"
  if height = 0 then pure none
  else
    let algo ← getJsonString res "algorithm"
    let type ← jobType algo
    let difficulties ← getArray (← getObjectMemberT res "block_difficulty")
    let blockDiff ← blockDifficulty algo difficulties env.blockDiffBytes
    if blockDiff = 0 then pure none else pure (some ⟨height, type, blockDiff⟩)

/-- The epochs of a job message, one of which must be that of its height. -/
def jobEpochs (height : UInt32) (res : Value) : Json (List EpochUse) := do
  let epochs ← getArray (← getObjectMemberT res "epochs")
  rejectIf (epochs.length ≠ 1 ∧ epochs.length ≠ 2) (ascii "Unexpected epochs size")
  let uses ← epochs.mapM (readEpoch height)
  rejectIf (!uses.any EpochUse.isCurrent) (ascii "We don't have our epoch")
  pure uses

structure JobBody where
  header : JobHeader
  uses : List EpochUse
  jobid : UInt32
  prepow : List UInt8

def readJob (env : MessageEnv) (res : Value) : Json (Option JobBody) := do
  match ← jobHeader env res with
  | none => pure none
  | some header =>
      let uses ← jobEpochs header.height res
      let jobid ← getJsonUInt res "job_id"
      let prepow ← readPrepowText res
      pure (some ⟨header, uses, jobid, prepow⟩)

def JobBody.fill (b : JobBody) (job : JobData) : JobData :=
  setPrepow b.prepow
    { storeAll b.uses { job with type := b.header.type, blockDiff := b.header.blockDiff } with
      jobid := b.jobid
      height := b.header.height }

def JobBody.job (b : JobBody) : JobData := b.fill .zero

def trimJobs (jobs : List JobEntry) : List JobEntry := if 5 < jobs.length then jobs.tail else jobs

section Outcomes

variable {getEpochNumber : UInt64 → Int32} (n t : Node) (env : MessageEnv) (res : Value)

variable (getEpochNumber) in
def afterJob (b : JobBody) (effects : List NodeEffect) : Node :=
  { n with
    jobs := trimJobs (n.jobs ++ [⟨n.nextAddr, b.job⟩])
    nextAddr := n.nextAddr + 1
    currentJob := some n.nextAddr
    lastJobTs := env.timestampMs
    rx := n.rx.requireAll (b.uses.map EpochUse.id)
    pp := n.pp.requireAll ((PpHashpool.notifyBlock b.header.height.toUInt64).map
      (fun blockNumber => PpHashpool.epochId (getEpochNumber blockNumber)))
    effects := effects }

theorem runs_notifyBlock_bind {α : Type} (fill : JobData → JobData) (rx pp : DatasetSlots)
    (effects : List NodeEffect) (blockNumber : UInt64) (k : Unit → NodeM α) (a : α) :
    Runs (notifyBlock getEpochNumber blockNumber >>= k) (n.filling fill rx pp effects) a t ↔
      Runs (k ()) (n.filling fill rx (pp.requireAll ((PpHashpool.notifyBlock blockNumber).map
        (fun b => PpHashpool.epochId (getEpochNumber b)))) effects) a t := by
  rw [DatasetSlots.requireAll, List.foldl_map]
  exact runs_modify_bind ..

theorem fails_notifyBlock_bind {α : Type} (fill : JobData → JobData) (rx pp : DatasetSlots)
    (effects : List NodeEffect) (blockNumber : UInt64) (k : Unit → NodeM α) (e : JsonFail) :
    Fails (notifyBlock getEpochNumber blockNumber >>= k) (n.filling fill rx pp effects) e t ↔
      Fails (k ()) (n.filling fill rx (pp.requireAll ((PpHashpool.notifyBlock blockNumber).map
        (fun b => PpHashpool.epochId (getEpochNumber b)))) effects) e t := by
  rw [DatasetSlots.requireAll, List.foldl_map]
  exact fails_modify_bind ..

theorem runs_publish (addr : Nat) (u : Unit) :
    Runs (publish env addr) n u t ↔
      ({ n with
        jobs := trimJobs n.jobs
        currentJob := some addr
        lastJobTs := env.timestampMs
        effects := n.effects ++ [.notifyNewBlock] } : Node) = t := by
  rw [publish, runs_modify_bind, emit, runs_modify_bind, runs_modify]
  simp only [trimJobs]
  split
  · exact Iff.rfl
  · exact Iff.rfl

theorem not_fails_publish (addr : Nat) (e : JsonFail) : ¬ Fails (publish env addr) n e t := by
  intro failed
  cases failed

theorem filling_new :
    ({ n with jobs := n.jobs ++ [⟨n.nextAddr, .zero⟩], nextAddr := n.nextAddr + 1 } : Node) =
      n.filling id n.rx n.pp [] := by
  simp [filling, updateJob_id]

theorem runs_emplaceJob_bind {α : Type} (k : Nat → NodeM α) (a : α) :
    Runs (emplaceJob >>= k) n a t ↔ Runs (k n.nextAddr) (n.filling id n.rx n.pp []) a t := by
  rw [← filling_new]
  exact Iff.rfl

theorem fails_emplaceJob_bind {α : Type} (k : Nat → NodeM α) (e : JsonFail) :
    Fails (emplaceJob >>= k) n e t ↔ Fails (k n.nextAddr) (n.filling id n.rx n.pp []) e t := by
  rw [← filling_new]
  exact Iff.rfl

/-- A job message that does not fail asks for another job, asks for a reconnect, or
publishes what it says. -/
theorem runs_jobMessage (outcome : Processed)
    (ran : Runs (jobMessage getEpochNumber env res) n outcome t) :
    (jobHeader env res = .ok none ∧ (∀ job, outcome ≠ .published job) ∧
      ∃ effects, t = { n with effects := effects }) ∨
    ∃ b job effects, readJob env res = .ok (some b) ∧ outcome = .published job ∧
      (n.Fresh → job = b.job ∧ t = afterJob getEpochNumber n env b effects) := by
  rw [jobMessage, runs_lift_bind] at ran
  obtain ⟨height, tall, ran⟩ := ran
  split at ran
  · rename_i zero
    left
    obtain ⟨_, _, requested, ran⟩ := (runs_bind _ _ _ _ _).mp ran
    obtain ⟨rfl, rfl⟩ := (runs_pure _ _ _ _).mp ran
    obtain rfl := (runs_modify _ _ _ _).mp requested
    refine ⟨?_, by simp, _, rfl⟩
    simp [jobHeader, tall, zero, bind, Except.bind, pure, Except.pure]
  · rename_i nonzero
    simp only [runs_lift_bind] at ran
    obtain ⟨algo, named, type, typed, member, found, difficulties, listed, blockDiff, summed,
      ran⟩ := ran
    split at ran
    · rename_i easy
      left
      obtain ⟨rfl, rfl⟩ := (runs_pure _ _ _ _).mp ran
      refine ⟨?_, by simp, _, rfl⟩
      simp [jobHeader, tall, nonzero, named, typed, found, listed, summed, easy, bind,
        Except.bind, pure, Except.pure]
    · rename_i hard
      right
      have header : jobHeader env res = .ok (some ⟨height, type, blockDiff⟩) := by
        simp [jobHeader, tall, nonzero, named, typed, found, listed, summed, hard, bind,
          Except.bind, pure, Except.pure]
      simp only [runs_emplaceJob_bind, runs_modifyJob_bind, runs_lift_bind] at ran
      obtain ⟨epochMember, epochsFound, epochs, epochsListed, _, sized, ran⟩ := ran
      obtain ⟨found, s, looped, ran⟩ := (runs_bind _ _ _ _ _).mp ran
      obtain ⟨uses, used, rfl, rfl⟩ := runs_epochLoop _ _ _ _ _ _ _ _ _ _ looped
      simp only [runs_lift_bind, runs_notifyBlock_bind, runs_modifyJob_bind] at ran
      obtain ⟨_, ours, jobid, jobidFound, ran⟩ := ran
      obtain ⟨job, s, read, ran⟩ := (runs_bind _ _ _ _ _).mp ran
      obtain ⟨prepow, effects, prepowFound, rfl, made⟩ := runs_readPrepow _ _ _ _ _ _ _ _ read
      obtain ⟨_, s, posted, ran⟩ := (runs_bind _ _ _ _ _).mp ran
      obtain ⟨rfl, rfl⟩ := (runs_pure _ _ _ _).mp ran
      rw [runs_publish] at posted
      refine ⟨⟨⟨height, type, blockDiff⟩, uses, jobid, prepow⟩, job,
        n.effects ++ effects ++ [.notifyNewBlock], ?_, rfl, ?_⟩
      rotate_left
      · intro fresh
        rw [filling_jobs _ _ _ _ _ fresh] at posted
        exact ⟨made fresh, posted.symm⟩
      have epochs : jobEpochs height res = .ok uses := by
        rw [Bool.false_or] at ours
        simp only [jobEpochs, epochsFound, epochsListed, sized, used, ours, bind, Except.bind,
          pure, Except.pure]
      simp [readJob, header, epochs, jobidFound, prepowFound, bind, Except.bind, pure, Except.pure]

theorem fails_jobMessage (e : JsonFail)
    (failed : Fails (jobMessage getEpochNumber env res) n e t) :
    (jobHeader env res = .error e ∧ t = n) ∨
    ∃ header fill rx pp effects, jobHeader env res = .ok (some header) ∧
      readJob env res = .error e ∧ t = n.filling fill rx pp effects := by
  rw [jobMessage, fails_lift_bind] at failed
  rcases failed with ⟨short, rfl⟩ | ⟨height, tall, failed⟩
  · left
    simp [jobHeader, short, bind, Except.bind]
  split at failed
  · rcases (fails_bind _ _ _ _ _).mp failed with first | ⟨_, _, _, last⟩
    · exact absurd first (not_fails_pure _ _ _ _)
    · exact absurd last (not_fails_pure _ _ _ _)
  rename_i nonzero
  simp only [fails_lift_bind] at failed
  rcases failed with ⟨bad, rfl⟩ | ⟨algo, named, ⟨bad, rfl⟩ | ⟨type, typed, ⟨bad, rfl⟩ |
    ⟨member, found, ⟨bad, rfl⟩ | ⟨difficulties, listed, ⟨bad, rfl⟩ |
      ⟨blockDiff, summed, failed⟩⟩⟩⟩⟩
  · left
    simp [jobHeader, tall, nonzero, bad, bind, Except.bind]
  · left
    simp [jobHeader, tall, nonzero, named, bad, bind, Except.bind]
  · left
    simp [jobHeader, tall, nonzero, named, typed, bad, bind, Except.bind]
  · left
    simp [jobHeader, tall, nonzero, named, typed, found, bad, bind, Except.bind]
  · left
    simp [jobHeader, tall, nonzero, named, typed, found, listed, bad, bind, Except.bind]
  split at failed
  · exact absurd failed (not_fails_pure _ _ _ _)
  rename_i hard
  right
  refine ⟨⟨height, type, blockDiff⟩, ?_⟩
  have header : jobHeader env res = .ok (some ⟨height, type, blockDiff⟩) := by
    simp [jobHeader, tall, nonzero, named, typed, found, listed, summed, hard, bind,
      Except.bind, pure, Except.pure]
  simp only [fails_emplaceJob_bind, fails_modifyJob_bind, fails_lift_bind] at failed
  rcases failed with ⟨bad, rfl⟩ | ⟨epochMember, epochsFound, ⟨bad, rfl⟩ |
    ⟨epochs, epochsListed, ⟨bad, rfl⟩ | ⟨_, sized, failed⟩⟩⟩
  · refine ⟨_, _, _, _, header, ?_, rfl⟩
    simp [readJob, header, jobEpochs, bad, bind, Except.bind]
  · refine ⟨_, _, _, _, header, ?_, rfl⟩
    simp [readJob, header, jobEpochs, epochsFound, bad, bind, Except.bind]
  · refine ⟨_, _, _, _, header, ?_, rfl⟩
    simp only [readJob, header, jobEpochs, epochsFound, epochsListed, bad, bind, Except.bind]
  rcases (fails_bind _ _ _ _ _).mp failed with looped | ⟨ours, s, looped, failed⟩
  · obtain ⟨bad, fill, rx, rfl⟩ := fails_epochLoop _ _ _ _ _ _ _ _ _ _ looped
    refine ⟨_, _, _, _, header, ?_, rfl⟩
    simp only [readJob, header, jobEpochs, epochsFound, epochsListed, sized, bad, bind, Except.bind]
  obtain ⟨uses, used, rfl, rfl⟩ := runs_epochLoop _ _ _ _ _ _ _ _ _ _ looped
  simp only [fails_lift_bind, fails_notifyBlock_bind, fails_modifyJob_bind, Bool.false_or] at failed
  rcases failed with ⟨bad, rfl⟩ | ⟨_, current, failed⟩
  · refine ⟨_, _, _, _, header, ?_, rfl⟩
    simp only [readJob, header, jobEpochs, epochsFound, epochsListed, sized, used, bad, bind,
      Except.bind]
  have listed : jobEpochs height res = .ok uses := by
    simp only [jobEpochs, epochsFound, epochsListed, sized, used, current, bind, Except.bind,
      pure, Except.pure]
  rcases failed with ⟨bad, rfl⟩ | ⟨jobid, jobidFound, failed⟩
  · refine ⟨_, _, _, _, header, ?_, rfl⟩
    simp [readJob, header, listed, bad, bind, Except.bind]
  rcases (fails_bind _ _ _ _ _).mp failed with read | ⟨job, s, read, failed⟩
  · obtain ⟨bad, fill, effects, rfl⟩ := fails_readPrepow _ _ _ _ _ _ _ _ read
    refine ⟨_, _, _, _, header, ?_, rfl⟩
    simp [readJob, header, listed, jobidFound, bad, bind, Except.bind]
  · rcases (fails_bind _ _ _ _ _).mp failed with posted | ⟨_, _, _, last⟩
    · exact absurd posted (not_fails_publish _ _ _ _ _)
    · exact absurd last (not_fails_pure _ _ _ _)

end Outcomes

/-- What a message is: a reply that needs nothing, the reply to the login, or a job. -/
inductive MessageKind where
  | quiet
  | login
  | job (res : Value)

def messageKind (doc : Value) : Json MessageKind := do
  let callId ← getJsonCallId doc
  let method ← getJsonString doc "method"
  let (result, error) ← messageResult doc callId
  match error with
  | some error =>
      let message ← getObjectMemberT error "message"
      let code ← getObjectMemberT error "code"
      let _ ← message.getString
      let _ ← code.getInt
      pure .quiet
  | none =>
      if cstr method = ascii "submit" then pure .quiet
      else if cstr method = ascii "login" then pure .login
      else if cstr method = ascii "job" ∨ cstr method = ascii "getjobtemplate" then
        match result with
        | some res => pure (.job res)
        | none => .error .assertion
      else jsonParseError (ascii "Unkonwn method: " ++ cstr method)

theorem procMessage_eq (getEpochNumber : UInt64 → Int32) (env : MessageEnv) (doc : Value) :
    procMessage getEpochNumber env doc = (do
      match ← messageKind doc with
      | .quiet => pure .handled
      | .login =>
          sendTemplateRequest
          pure .handled
      | .job res => jobMessage getEpochNumber env res) := by
  rw [procMessage, messageKind]
  simp only [lift_bind_assoc]
  apply bind_congr
  intro callId
  apply bind_congr
  intro method
  apply bind_congr
  rintro ⟨result, error⟩
  cases error with
  | some error =>
      simp only [lift_bind_assoc]
      rfl
  | none =>
      simp only
      split
      · rfl
      · split
        · rfl
        · split
          · cases result with
            | some res => rfl
            | none => rfl
          · rfl

def createsJob (env : MessageEnv) (doc : Value) : Bool :=
  match messageKind doc with
  | .ok (.job res) =>
      match jobHeader env res with
      | .ok (some _) => true
      | _ => false
  | _ => false

def messageJob (env : MessageEnv) (doc : Value) : Json (Option JobBody) := do
  match ← messageKind doc with
  | .job res => readJob env res
  | _ => pure none

structure Said (env : MessageEnv) (doc res : Value) (b : JobBody) : Prop where
  kind : messageKind doc = .ok (.job res)
  header : jobHeader env res = .ok (some b.header)
  epochs : jobEpochs b.header.height res = .ok b.uses
  jobid : getJsonUInt res "job_id" = .ok b.jobid
  prepow : readPrepowText res = .ok b.prepow

theorem said_of_messageJob {env : MessageEnv} {doc : Value} {b : JobBody}
    (read : messageJob env doc = .ok (some b)) : ∃ res, Said env doc res b := by
  simp only [messageJob, bind_eq_ok] at read
  obtain ⟨kind, named, read⟩ := read
  cases kind with
  | quiet | login => cases read
  | job res =>
      simp only [readJob, bind_eq_ok] at read
      obtain ⟨header, found, read⟩ := read
      cases header with
      | none => cases read
      | some header =>
          simp only [bind_eq_ok] at read
          obtain ⟨uses, listed, jobid, numbered, prepow, written, same⟩ := read
          cases (pure_eq_ok _ _).mp same
          exact ⟨res, named, found, listed, numbered, written⟩

theorem createsJob_of_messageJob {env : MessageEnv} {doc : Value} {b : JobBody}
    (read : messageJob env doc = .ok (some b)) : createsJob env doc = true := by
  obtain ⟨res, said⟩ := said_of_messageJob read
  simp [createsJob, said.kind, said.header]

theorem storeAll_rxSeed (uses : List EpochUse) : ∀ job : JobData,
    (storeAll uses job).rxSeed =
      (uses.filterMap EpochUse.current?).getLast?.getD job.rxSeed := by
  induction uses with
  | nil => intro job; rfl
  | cons use rest ih =>
      intro job
      change (storeAll rest (use.store job)).rxSeed = _
      rw [ih]
      cases use with
      | current seed => simp [EpochUse.current?, EpochUse.store, List.getLast?_cons]
      | following seed => simp [EpochUse.current?, EpochUse.store]

theorem storeAll_rxNextSeed (uses : List EpochUse) : ∀ job : JobData,
    (storeAll uses job).rxNextSeed =
      (uses.filterMap EpochUse.following?).getLast?.getD job.rxNextSeed := by
  induction uses with
  | nil => intro job; rfl
  | cons use rest ih =>
      intro job
      change (storeAll rest (use.store job)).rxNextSeed = _
      rw [ih]
      cases use with
      | current seed => simp [EpochUse.following?, EpochUse.store]
      | following seed => simp [EpochUse.following?, EpochUse.store, List.getLast?_cons]

theorem storeAll_frame (uses : List EpochUse) : ∀ job : JobData,
    { storeAll uses job with rxSeed := job.rxSeed, rxNextSeed := job.rxNextSeed } = job := by
  induction uses with
  | nil => intro job; rfl
  | cons use rest ih =>
      intro job
      have kept := ih (use.store job)
      cases use with
      | current seed => exact congrArg (fun j : JobData => { j with rxSeed := job.rxSeed }) kept
      | following seed =>
          exact congrArg (fun j : JobData => { j with rxNextSeed := job.rxNextSeed }) kept

theorem mapM_readEpoch_length (height : UInt32) (epochs : List Value) : ∀ uses : List EpochUse,
    epochs.mapM (readEpoch height) = .ok uses → uses.length = epochs.length := by
  induction epochs with
  | nil =>
      intro uses read
      cases read
      rfl
  | cons epoch rest ih =>
      intro uses read
      simp only [List.mapM_cons, bind_eq_ok] at read
      obtain ⟨use, _, others, taken, same⟩ := read
      obtain rfl := (pure_eq_ok _ _).mp same
      rw [List.length_cons, List.length_cons, ih others taken]

theorem jobEpochs_spec {height : UInt32} {res : Value} {uses : List EpochUse}
    (read : jobEpochs height res = .ok uses) :
    (uses.length = 1 ∨ uses.length = 2) ∧ uses.any EpochUse.isCurrent = true := by
  simp only [jobEpochs, bind_eq_ok, rejectIf_eq_ok] at read
  obtain ⟨_, _, epochs, _, _, sized, uses', taken, _, current, same⟩ := read
  obtain rfl := (pure_eq_ok _ _).mp same
  refine ⟨?_, by simpa using current⟩
  rw [mapM_readEpoch_length height epochs uses' taken]
  by_contra neither
  simp only [not_or] at neither
  simp [neither] at sized

theorem exists_current_last (uses : List EpochUse) (current : uses.any EpochUse.isCurrent = true) :
    ∃ seed, (uses.filterMap EpochUse.current?).getLast? = some seed := by
  obtain ⟨use, member, mine⟩ := List.any_eq_true.mp current
  cases use with
  | following seed => cases mine
  | current seed =>
      have present : seed ∈ uses.filterMap EpochUse.current? :=
        List.mem_filterMap.mpr ⟨_, member, rfl⟩
      exact ⟨_, List.getLast?_eq_some_getLast (List.ne_nil_of_mem present)⟩

/-- Every field that names the work of a job comes from its message. -/
structure SetFrom (b : JobBody) (job : JobData) : Prop where
  type : job.type = b.header.type
  height : job.height = b.header.height
  jobid : job.jobid = b.jobid
  rxSeed : (b.uses.filterMap EpochUse.current?).getLast? = some job.rxSeed
  rxNextSeed : job.rxNextSeed =
    (b.uses.filterMap EpochUse.following?).getLast?.getD .setAllZero
  prepowLen : job.prepowLen.toNat = b.prepow.length / 2 + 8
  blob : job.blob =
    (hex2bin b.prepow b.prepow.length).2.take (b.prepow.length / 2) ++ List.replicate 8 0

theorem setPrepow_blob (text : List UInt8) (job : JobData)
    (short : text.length / 2 ≤ prepowSize - 8) (decoded : (hex2bin text text.length).1 = true) :
    (setPrepow text job).prepowLen.toNat = text.length / 2 + 8 ∧
      (setPrepow text job).blob =
        (hex2bin text text.length).2.take (text.length / 2) ++ List.replicate 8 0 := by
  have eight : UInt32.toNat 8 = 8 := rfl
  simp only [prepowSize] at short
  have length : (setPrepow text job).prepowLen.toNat = text.length / 2 + 8 := by
    simp only [setPrepow]
    rw [UInt32.toNat_add, UInt32.toNat_ofNat', eight]
    omega
  have turns : (hex2bin text text.length).2.length = (text.length + 1) / 2 :=
    (hex2binLoop_length _ _).2 (by simpa [hex2bin] using decoded)
  have zeros : (List.replicate 8 (0 : UInt8)).length = 8 := rfl
  refine ⟨length, ?_⟩
  rw [JobData.blob, length]
  simp only [setPrepow]
  rw [Buffer.read_prefix_write _ _ _ _ (by rw [zeros]) (by simp only [prepowSize]; omega), zeros,
    Nat.sub_self]
  simp only [Buffer.read, List.drop_zero, List.take_zero, List.append_nil]
  rw [Buffer.write_bytes _ _ _ (by simp only [prepowSize]; omega), List.take_zero, List.nil_append,
    List.take_append_of_le_length (by omega)]

theorem setFrom_of_messageJob {env : MessageEnv} {doc : Value} {b : JobBody}
    (read : messageJob env doc = .ok (some b)) : SetFrom b b.job := by
  obtain ⟨res, said⟩ := said_of_messageJob read
  have prepow := said.prepow
  simp only [readPrepowText, bind_eq_ok, rejectIf_eq_ok] at prepow
  obtain ⟨text, _, _, short, _, decoded, same⟩ := prepow
  have text_eq := (pure_eq_ok _ _).mp same
  subst text_eq
  have frame := storeAll_frame b.uses
    { JobData.zero with type := b.header.type, blockDiff := b.header.blockDiff }
  have blob := setPrepow_blob b.prepow
    { storeAll b.uses { JobData.zero with
        type := b.header.type, blockDiff := b.header.blockDiff } with
      jobid := b.jobid, height := b.header.height }
    (by simpa using short) (by simpa using decoded)
  obtain ⟨seed, last⟩ := exists_current_last b.uses (jobEpochs_spec said.epochs).2
  refine ⟨congrArg JobData.type frame, rfl, rfl, ?_, storeAll_rxNextSeed b.uses _, blob.1, blob.2⟩
  have stored := storeAll_rxSeed b.uses
    { JobData.zero with type := b.header.type, blockDiff := b.header.blockDiff }
  rw [last] at stored ⊢
  exact congrArg some stored.symm

theorem messageJob_uses {env : MessageEnv} {doc : Value} {b : JobBody}
    (read : messageJob env doc = .ok (some b)) : b.uses.length = 1 ∨ b.uses.length = 2 := by
  obtain ⟨res, said⟩ := said_of_messageJob read
  exact (jobEpochs_spec said.epochs).1

section Messages

variable {getEpochNumber : UInt64 → Int32} (n t : Node) (env : MessageEnv) (doc : Value)

/-- A message that does not fail changes nothing but the effects, or publishes the job
that it describes. -/
theorem runs_procMessage (outcome : Processed)
    (ran : Runs (procMessage getEpochNumber env doc) n outcome t) :
    (createsJob env doc = false ∧ (∀ job, outcome ≠ .published job) ∧
      ∃ effects, t = { n with effects := effects }) ∨
    ∃ b job effects, messageJob env doc = .ok (some b) ∧ outcome = .published job ∧
      (n.Fresh → job = b.job ∧ t = afterJob getEpochNumber n env b effects) := by
  rw [procMessage_eq, runs_lift_bind] at ran
  obtain ⟨kind, named, ran⟩ := ran
  cases kind with
  | quiet =>
      left
      obtain ⟨rfl, rfl⟩ := (runs_pure _ _ _ _).mp ran
      exact ⟨by simp [createsJob, named], by simp, _, rfl⟩
  | login =>
      left
      obtain ⟨_, _, requested, ran⟩ := (runs_bind _ _ _ _ _).mp ran
      obtain ⟨rfl, rfl⟩ := (runs_pure _ _ _ _).mp ran
      obtain rfl := (runs_modify _ _ _ _).mp requested
      exact ⟨by simp [createsJob, named], by simp, _, rfl⟩
  | job res =>
      rcases runs_jobMessage n t env res outcome ran with
        ⟨empty, other, effects, rfl⟩ | ⟨b, job, effects, read, rfl, published⟩
      · exact .inl ⟨by simp [createsJob, named, empty], other, effects, rfl⟩
      · right
        refine ⟨b, job, effects, ?_, rfl, published⟩
        simp [messageJob, named, read, bind, Except.bind]

theorem fails_procMessage (e : JsonFail)
    (failed : Fails (procMessage getEpochNumber env doc) n e t) :
    (createsJob env doc = false ∧ t = n) ∨
    (createsJob env doc = true ∧ messageJob env doc = .error e ∧
      ∃ fill rx pp effects, t = n.filling fill rx pp effects) := by
  rw [procMessage_eq, fails_lift_bind] at failed
  rcases failed with ⟨bad, rfl⟩ | ⟨kind, named, failed⟩
  · exact .inl ⟨by simp [createsJob, bad], rfl⟩
  cases kind with
  | quiet => exact absurd failed (not_fails_pure _ _ _ _)
  | login =>
      rcases (fails_bind _ _ _ _ _).mp failed with first | ⟨_, _, _, last⟩
      · exact absurd first (not_fails_pure _ _ _ _)
      · exact absurd last (not_fails_pure _ _ _ _)
  | job res =>
      rcases fails_jobMessage n t env res e failed with
        ⟨bad, rfl⟩ | ⟨header, fill, rx, pp, effects, read, bad, rfl⟩
      · exact .inl ⟨by simp [createsJob, named, bad], rfl⟩
      · refine .inr ⟨by simp [createsJob, named, read], ?_, fill, rx, pp, effects, rfl⟩
        simp [messageJob, named, bad, bind, Except.bind]

end Messages

end Node

end EpicPoold
