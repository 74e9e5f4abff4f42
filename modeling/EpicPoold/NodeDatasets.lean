import EpicPoold.DatasetRotation

/-! The datasets that a message of the node asks for, whether the message is accepted or
rejected further on. -/

namespace EpicPoold

open Foundations

/-- What json_proc_msg asks of the two pools for a message: seeds of the RandomX pool, in
this order, and notify_block with a height. -/
structure Asked where
  seeds : List V32
  height : Option UInt32

namespace Asked

def nothing : Asked := ⟨[], none⟩

def blocks (a : Asked) : List UInt64 :=
  match a.height with
  | some height => PpHashpool.notifyBlock height.toUInt64
  | none => []

/-- has_dataset and calculate_dataset for each of them. -/
def require (getEpochNumber : UInt64 → Int32) (a : Asked)
    (slots : DatasetSlots × DatasetSlots) : DatasetSlots × DatasetSlots :=
  (slots.1.requireAll (a.seeds.map V32.getId),
    slots.2.requireAll (a.blocks.map (DatasetSlots.blockId getEpochNumber)))

end Asked

namespace Node

/-- The slots of the RandomX pool and of the ProgPoW pool. -/
def slots (n : Node) : DatasetSlots × DatasetSlots := (n.rx, n.pp)

def epochsTaken (height : UInt32) : List Value → List EpochUse
  | [] => []
  | epoch :: rest =>
      match readEpoch height epoch with
      | .ok use => use :: epochsTaken height rest
      | .error _ => []

def jobAsks (height : UInt32) (res : Value) : Asked :=
  match getObjectMemberT res "epochs" >>= getArray with
  | .error _ => .nothing
  | .ok epochs =>
      if epochs.length ≠ 1 ∧ epochs.length ≠ 2 then .nothing
      else
        { seeds := (epochsTaken height epochs).map EpochUse.seed
          height :=
            match jobEpochs height res with
            | .ok _ => some height
            | .error _ => none }

def messageAsks (env : MessageEnv) (doc : Value) : Asked :=
  match messageKind doc with
  | .ok (.job res) =>
      match jobHeader env res with
      | .ok (some header) => jobAsks header.height res
      | _ => .nothing
  | _ => .nothing

section Leaves

theorem leaves_modifyJob (addr : Nat) (f : JobData → JobData) : Leaves slots (modifyJob addr f) :=
  leaves_modify (fun _ => rfl)

theorem leaves_emit (effect : NodeEffect) : Leaves slots (emit effect) :=
  leaves_modify (fun _ => rfl)

theorem leaves_readPrepow (addr : Nat) (res : Value) : Leaves slots (readPrepow addr res) := by
  apply (leaves_lift _).bind
  intro text
  apply (leaves_lift _).bind
  intro _
  apply (leaves_emit _).bind
  intro _
  apply (leaves_modifyJob _ _).bind
  intro _
  apply (leaves_lift _).bind
  intro _
  apply (leaves_emit _).bind
  intro _
  apply (leaves_modifyJob _ _).bind
  intro _
  apply leaves_get.bind
  intro n
  split
  · exact leaves_pure _
  · exact leaves_throw _

theorem leaves_publish (env : MessageEnv) (addr : Nat) : Leaves slots (publish env addr) := by
  have trimmed : ∀ n : Node,
      (if 5 < n.jobs.length then { n with jobs := n.jobs.tail } else n : Node).slots = n.slots := by
    intro n
    split
    · rfl
    · rfl
  rw [publish]
  refine Leaves.bind (leaves_modify ?_) ?_
  · intro n
    rfl
  · intro _
    exact (leaves_emit _).bind (fun _ => leaves_modify trimmed)

end Leaves

theorem exists_run_epochLoop (addr : Nat) (height : UInt32) (epochs : List Value) :
    ∀ (ours : Bool) (n : Node), ∃ t : Node,
      Id.run ((epochLoop addr height epochs ours).run.run n) =
        ((epochs.mapM (readEpoch height)).map (fun uses => ours || uses.any EpochUse.isCurrent),
          t) ∧
      t.slots = (n.rx.requireAll ((epochsTaken height epochs).map EpochUse.id), n.pp) := by
  induction epochs with
  | nil =>
      intro ours n
      refine ⟨n, ?_, rfl⟩
      change (Except.ok ours, n) = (Except.ok (ours || false), n)
      rw [Bool.or_false]
  | cons epoch rest ih =>
      intro ours n
      rw [epochLoop_cons, List.mapM_cons, epochsTaken]
      cases taken : readEpoch height epoch with
      | error e => exact ⟨n, rfl, rfl⟩
      | ok use =>
          -- the node when the loop goes on
          let next : Node :=
            { n with
              jobs := n.jobs.map (updateJob addr use.store)
              rx := n.rx.require use.id }
          obtain ⟨t, ran, slots⟩ := ih (ours || use.isCurrent) next
          refine ⟨t, ?_, slots⟩
          change Id.run ((epochLoop addr height rest (ours || use.isCurrent)).run.run next) = _
          rw [ran]
          cases rest.mapM (readEpoch height) with
          | error e => rfl
          | ok uses =>
              change (Except.ok _, t) = (Except.ok _, t)
              simp only [List.any_cons, Bool.or_assoc]

section Messages

variable {getEpochNumber : UInt64 → Int32}

theorem slots_jobMessage_none (env : MessageEnv) (res : Value) (n : Node)
    (stops : ∀ header, jobHeader env res ≠ .ok (some header)) :
    (final (jobMessage getEpochNumber env res) n).slots = n.slots := by
  rcases runs_or_fails (jobMessage getEpochNumber env res) n with ⟨a, t, ran⟩ | ⟨e, t, failed⟩
  · have ended : final (jobMessage getEpochNumber env res) n = t := congrArg Prod.snd ran
    rw [ended]
    rcases runs_jobMessage n t env res a ran with
      ⟨_, _, effects, rfl⟩ | ⟨b, job, effects, read, _⟩
    · rfl
    · simp only [readJob, bind_eq_ok] at read
      obtain ⟨header, found, read⟩ := read
      cases header with
      | none => cases read
      | some header => exact absurd found (stops header)
  · have ended : final (jobMessage getEpochNumber env res) n = t := congrArg Prod.snd failed
    rw [ended]
    rcases fails_jobMessage n t env res e failed with ⟨_, rfl⟩ | ⟨header, _, _, _, _, found, _⟩
    · rfl
    · exact absurd found (stops header)

/-- notify_block, which is reached when one of the entries is the current epoch. -/
theorem slots_ours (height : UInt32) {rest : NodeM Processed} (leaves : Leaves slots rest)
    (ours : Bool) (n : Node) :
    (final (do
      rejectIf (!ours) (ascii "We don't have our epoch")
      notifyBlock getEpochNumber height.toUInt64
      rest : NodeM Processed) n).slots =
      bif ours then (n.rx, n.pp.notifyBlock getEpochNumber height.toUInt64) else n.slots := by
  cases ours with
  | false =>
      have missing : rejectIf (!false) (ascii "We don't have our epoch") =
          .error (.parseError (ascii "We don't have our epoch")) := rfl
      rw [final_lift_error missing]
      rfl
  | true =>
      have passed : rejectIf (!true) (ascii "We don't have our epoch") = .ok () := rfl
      have notified : Runs (notifyBlock getEpochNumber height.toUInt64) n () _ :=
        (DatasetSlots.runs_notifyBlock _ n _ _ _).mpr rfl
      rw [final_lift_ok passed, final_bind_ok notified, leaves]
      rfl

/-- The loop over epochs and notify_block, before whatever else is read. -/
theorem slots_epochs (addr : Nat) (height : UInt32) (res : Value) {rest : NodeM Processed}
    (leaves : Leaves slots rest) (n : Node) :
    (final (do
      let epochs ← getArray (← getObjectMemberT res "epochs")
      rejectIf (epochs.length ≠ 1 ∧ epochs.length ≠ 2) (ascii "Unexpected epochs size")
      let hasOurEpoch ← epochLoop addr height epochs false
      rejectIf (!hasOurEpoch) (ascii "We don't have our epoch")
      notifyBlock getEpochNumber height.toUInt64
      rest : NodeM Processed) n).slots = (jobAsks height res).require getEpochNumber n.slots := by
  rw [← lift_bind_assoc]
  cases listed : getObjectMemberT res "epochs" >>= getArray with
  | error e =>
      rw [final_lift_error rfl, jobAsks, listed]
      rfl
  | ok epochs =>
      rw [final_lift_ok rfl, jobAsks, listed]
      have read : jobEpochs height res = (do
          rejectIf (epochs.length ≠ 1 ∧ epochs.length ≠ 2) (ascii "Unexpected epochs size")
          let uses ← epochs.mapM (readEpoch height)
          rejectIf (!uses.any EpochUse.isCurrent) (ascii "We don't have our epoch")
          pure uses) := by
        rw [jobEpochs, ← bind_assoc, listed]
        rfl
      simp only [read]
      split
      · rename_i wrong
        rw [rejectIf, if_pos (decide_eq_true wrong)]
        rfl
      · rename_i sized
        rw [rejectIf, if_neg (by simpa using sized)]
        obtain ⟨t, ran, left⟩ := exists_run_epochLoop addr height epochs false n
        have ids : (epochsTaken height epochs).map EpochUse.id =
            ((epochsTaken height epochs).map EpochUse.seed).map V32.getId := by
          rw [List.map_map]
          rfl
        rw [ids] at left
        change (final (epochLoop addr height epochs false >>= _) n).slots = _
        cases taken : epochs.mapM (readEpoch height) with
        | error e =>
            rw [taken] at ran
            have failed : Fails (epochLoop addr height epochs false) n e t := ran
            rw [final_bind_error failed, left]
            rfl
        | ok uses =>
            rw [taken] at ran
            have ended : Runs (epochLoop addr height epochs false) n
              (uses.any EpochUse.isCurrent) t := ran
            rw [final_bind_ok ended, slots_ours height leaves]
            obtain ⟨rx, pp⟩ := Prod.mk.inj left
            rw [left, rx, pp]
            simp only [bind, Except.bind, pure, Except.pure]
            cases uses.any EpochUse.isCurrent with
            | false => rfl
            | true => rfl

theorem slots_jobMessage_some (env : MessageEnv) (res : Value) (n : Node) (header : JobHeader)
    (found : jobHeader env res = .ok (some header)) :
    (final (jobMessage getEpochNumber env res) n).slots =
      (jobAsks header.height res).require getEpochNumber n.slots := by
  simp only [jobHeader, bind_eq_ok] at found
  obtain ⟨height, tall, found⟩ := found
  split at found
  · cases found
  rename_i nonzero
  simp only [bind_eq_ok] at found
  obtain ⟨algo, named, type, typed, member, listed, items, array, blockDiff, summed, found⟩ := found
  split at found
  · cases found
  rename_i hard
  cases found
  rw [jobMessage, final_lift_ok tall, if_neg nonzero, final_lift_ok named, final_lift_ok typed,
    final_lift_ok listed, final_lift_ok array, final_lift_ok summed, if_neg hard]
  have placed : Runs emplaceJob n n.nextAddr (n.filling id n.rx n.pp []) := by
    rw [← filling_new]
    rfl
  have set : ∀ f, Runs (modifyJob n.nextAddr f) (n.filling id n.rx n.pp []) ()
      (n.filling (f ∘ id) n.rx n.pp []) := by
    intro f
    rw [← filling_update]
    rfl
  rw [final_bind_ok placed, final_bind_ok (set _)]
  refine slots_epochs n.nextAddr height res ?_ _
  apply (leaves_lift _).bind
  intro jobid
  apply (leaves_modifyJob _ _).bind
  intro _
  apply (leaves_readPrepow _ _).bind
  intro job
  exact (leaves_publish _ _).bind (fun _ => leaves_pure _)

theorem slots_jobMessage (env : MessageEnv) (res : Value) (n : Node) :
    (final (jobMessage getEpochNumber env res) n).slots =
      match jobHeader env res with
      | .ok (some header) => (jobAsks header.height res).require getEpochNumber n.slots
      | _ => n.slots := by
  split
  · rename_i header found
    exact slots_jobMessage_some env res n header found
  · rename_i stops
    exact slots_jobMessage_none env res n stops

theorem slots_procMessage (env : MessageEnv) (doc : Value) (n : Node) :
    (final (procMessage getEpochNumber env doc) n).slots =
      (messageAsks env doc).require getEpochNumber n.slots := by
  rw [procMessage_eq, messageAsks]
  cases named : messageKind doc with
  | error e => rfl
  | ok kind =>
      cases kind with
      | quiet | login => rfl
      | job res =>
          change (final (jobMessage getEpochNumber env res) n).slots = _
          rw [slots_jobMessage]
          simp only
          split
          · rfl
          · rfl

end Messages

end Node

end EpicPoold
