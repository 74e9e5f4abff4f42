import EpicPoold.Node

/-! What a published job has to do with the message it came in: its length is fixed by
the text of `pre_pow`, and handling the message touches the job's array only inside. -/

namespace EpicPoold

open Foundations

namespace Node

theorem runs_emit (effect : NodeEffect) (n t : Node) (u : Unit) :
    Runs (emit effect) n u t ↔ { n with effects := n.effects ++ [effect] } = t :=
  runs_modify _ n t u

theorem runs_modifyJob (addr : Nat) (f : JobData → JobData) (n t : Node) (u : Unit)
    (ran : Runs (modifyJob addr f) n u t) :
    t.effects = n.effects ∧
      t.jobs =
        n.jobs.map (fun e => if e.addr = addr then { e with job := f e.job } else e) := by
  have equal := (runs_modify _ n t u).mp ran
  subst equal
  exact ⟨rfl, rfl⟩

theorem runs_emplaceJob (n t : Node) (addr : Nat) (ran : Runs emplaceJob n addr t) :
    t.effects = n.effects := by
  simp only [emplaceJob, runs_bind, runs_get, runs_set, runs_pure] at ran
  obtain ⟨before, _, ⟨rfl, rfl⟩, _, _, rfl, _, rfl⟩ := ran
  rfl

theorem runs_requireRx (seed : V32) (n t : Node) (u : Unit) (ran : Runs (requireRx seed) n u t) :
    t.effects = n.effects := by
  have equal := (runs_modify _ n t u).mp ran
  subst equal
  rfl

theorem epochLoop_effects (addr : Nat) (height : UInt32) (epochs : List Value) :
    ∀ (ours found : Bool) (n t : Node), Runs (epochLoop addr height epochs ours) n found t →
      t.effects = n.effects := by
  induction epochs with
  | nil =>
      intro ours found n t ran
      rw [epochLoop, runs_pure] at ran
      rw [ran.2]
  | cons epoch rest ih =>
      intro ours found n t ran
      rw [epochLoop, runs_bind] at ran
      obtain ⟨members, n₁, taken, ran⟩ := ran
      obtain ⟨_, rfl⟩ := (runs_lift _ _ _ _).mp taken
      split at ran
      · simp only [runs_bind, runs_lift] at ran
        obtain ⟨first, _, ⟨_, rfl⟩, last, _, ⟨_, rfl⟩, _, _, ⟨_, rfl⟩, ran⟩ := ran
        split at ran
        · simp only [runs_bind, runs_lift] at ran
          obtain ⟨seed, _, ⟨_, rfl⟩, _, n₂, set, _, n₃, required, ran⟩ := ran
          rw [ih true found n₃ t ran, runs_requireRx _ _ _ _ required,
            (runs_modifyJob _ _ _ _ _ set).1]
        · split at ran
          · simp only [runs_bind, runs_lift] at ran
            obtain ⟨seed, _, ⟨_, rfl⟩, _, n₂, set, _, n₃, required, ran⟩ := ran
            rw [ih ours found n₃ t ran, runs_requireRx _ _ _ _ required,
              (runs_modifyJob _ _ _ _ _ set).1]
          · have failed := (runs_lift _ _ _ _).mp ran
            cases failed.1
      · exact absurd ran (not_runs_throw _ _ _ _)

/-- The writes of one message to the array of its job, given the length of its text. -/
def prepowAccesses (digits : Nat) : List NodeEffect :=
  [.access ⟨.prepow, 0, (digits + 1) / 2⟩, .access ⟨.prepow, (digits / 2 : Nat), 8⟩]

theorem readPrepow_runs (addr : Nat) (res : Value) (n t : Node) (job : JobData)
    (ran : Runs (readPrepow addr res) n job t) :
    ∃ text, getJsonString res "pre_pow" = .ok text ∧ text.length / 2 ≤ prepowSize - 8 ∧
      job.prepowLen.toNat = text.length / 2 + 8 ∧
      t.effects = n.effects ++ prepowAccesses text.length := by
  simp only [readPrepow, runs_bind, runs_lift, rejectIf_eq_ok, runs_emit, runs_get] at ran
  obtain ⟨text, _, ⟨named, rfl⟩, _, _, ⟨short, rfl⟩, _, _, rfl, _, n₁, first, _, _,
    ⟨decoded, rfl⟩, _, _, rfl, _, n₂, second, _, _, ⟨rfl, rfl⟩, ran⟩ := ran
  have bound : text.length / 2 ≤ prepowSize - 8 := by simpa using short
  obtain ⟨firstEffects, firstJobs⟩ := runs_modifyJob _ _ _ _ _ first
  obtain ⟨secondEffects, secondJobs⟩ := runs_modifyJob _ _ _ _ _ second
  have turns : (hex2bin text text.length).2.length = (text.length + 1) / 2 :=
    (hex2binLoop_length _ _).2 (by simpa [hex2bin] using decoded)
  split at ran
  · rename_i entry found
    obtain ⟨rfl, rfl⟩ := (runs_pure _ _ _ _).mp ran
    refine ⟨text, named, bound, ?_, ?_⟩
    · have present := List.mem_of_find?_eq_some found
      have address : entry.addr = addr := by simpa using List.find?_some found
      rw [secondJobs] at present
      obtain ⟨before, _, changed⟩ := List.mem_map.mp present
      have same : before.addr = addr := by
        rw [← changed] at address
        split at address
        · assumption
        · exact address
      rw [if_pos same] at changed
      rw [← changed]
      change (UInt32.ofNat (text.length / 2) + 8).toNat = _
      have eight : UInt32.toNat 8 = 8 := rfl
      simp only [prepowSize] at bound
      rw [UInt32.toNat_add, UInt32.toNat_ofNat', eight]
      omega
    · rw [secondEffects, firstEffects, turns]
      simp [prepowAccesses]
  · exact absurd ran (not_runs_throw _ _ _ _)

theorem publish_effects (env : MessageEnv) (addr : Nat) (n t : Node) (u : Unit)
    (ran : Runs (publish env addr) n u t) : t.effects = n.effects ++ [.notifyNewBlock] := by
  simp only [publish, runs_bind, runs_emit, runs_modify] at ran
  obtain ⟨_, _, rfl, _, _, rfl, rfl⟩ := ran
  split <;> rfl

section Published

variable {getEpochNumber : UInt64 → Int32}

def jobResult (doc : Value) : Json (Option Value) := do
  let callId ← getJsonCallId doc
  let (result, _) ← messageResult doc callId
  pure result

def prePow (doc : Value) : Json (List UInt8) := do
  match ← jobResult doc with
  | some res => getJsonString res "pre_pow"
  | none => .error .assertion

theorem jobMessage_published (env : MessageEnv) (res : Value) (n after : Node) (job : JobData)
    (ran : Runs (jobMessage getEpochNumber env res) n (.published job) after) :
    ∃ text, getJsonString res "pre_pow" = .ok text ∧ text.length / 2 ≤ prepowSize - 8 ∧
      job.prepowLen.toNat = text.length / 2 + 8 ∧
      after.effects = n.effects ++ prepowAccesses text.length ++ [.notifyNewBlock] := by
  rw [jobMessage, runs_bind] at ran
  obtain ⟨height, _, taken, ran⟩ := ran
  obtain ⟨_, rfl⟩ := (runs_lift _ _ _ _).mp taken
  split at ran
  · simp only [runs_bind, runs_pure] at ran
    obtain ⟨_, _, _, impossible, _⟩ := ran
    cases impossible
  · simp only [runs_bind, runs_lift] at ran
    obtain ⟨algo, _, ⟨_, rfl⟩, type, _, ⟨_, rfl⟩, member, _, ⟨_, rfl⟩, difficulties, _, ⟨_, rfl⟩,
      blockDiff, _, ⟨_, rfl⟩, ran⟩ := ran
    split at ran
    · rw [runs_pure] at ran
      cases ran.1
    · simp only [runs_bind, runs_lift, runs_pure, notifyBlock, runs_modify] at ran
      obtain ⟨addr, n₁, placed, _, n₂, typed, epochMember, _, ⟨_, rfl⟩, epochs, _, ⟨_, rfl⟩,
        _, _, ⟨_, rfl⟩, found, n₃, looped, _, _, ⟨_, rfl⟩, _, n₄, rfl, jobid, _, ⟨_, rfl⟩,
        _, n₅, named, made, n₆, read, _, n₇, posted, same, rfl⟩ := ran
      cases same
      obtain ⟨text, present, bound, length, touched⟩ := readPrepow_runs _ _ _ _ _ read
      refine ⟨text, present, bound, length, ?_⟩
      rw [publish_effects _ _ _ _ _ posted, touched, (runs_modifyJob _ _ _ _ _ named).1,
        epochLoop_effects _ _ _ _ _ _ _ looped, (runs_modifyJob _ _ _ _ _ typed).1,
        runs_emplaceJob _ _ _ placed]

theorem publishes_spec (n after : Node) (env : MessageEnv) (doc : Value) (job : JobData)
    (published : Publishes getEpochNumber n env doc job after) :
    ∃ text, prePow doc = .ok text ∧ text.length / 2 ≤ prepowSize - 8 ∧
      job.prepowLen.toNat = text.length / 2 + 8 ∧
      after.effects = n.effects ++ prepowAccesses text.length ++ [.notifyNewBlock] := by
  simp only [Publishes, procMessage, runs_bind, runs_lift] at published
  obtain ⟨callId, _, ⟨called, rfl⟩, method, _, ⟨_, rfl⟩, ⟨result, error⟩, _, ⟨results, rfl⟩, ran⟩ :=
    published
  have member : jobResult doc = .ok result := by
    simp [jobResult, called, results, bind, Except.bind, pure, Except.pure]
  split at ran
  · simp only [runs_bind, runs_pure] at ran
    obtain ⟨_, _, _, _, _, _, _, _, _, _, _, _, impossible, _⟩ := ran
    cases impossible
  · split at ran
    · rw [runs_pure] at ran
      cases ran.1
    · split at ran
      · simp only [runs_bind, runs_pure] at ran
        obtain ⟨_, _, _, impossible, _⟩ := ran
        cases impossible
      · split at ran
        · split at ran
          · rename_i res same
            simp only at same
            subst same
            obtain ⟨text, present, rest⟩ := jobMessage_published env res n after job ran
            refine ⟨text, ?_, rest⟩
            simp [prePow, member, present, bind, Except.bind]
          · exact absurd ran (not_runs_throw _ _ _ _)
        · have failed := (runs_lift _ _ _ _).mp ran
          cases failed.1

variable (getEpochNumber)

def Published (job : JobData) : Prop :=
  ∃ n env doc after, Publishes getEpochNumber n env doc job after

variable {getEpochNumber}

theorem published_prepowLen (job : JobData) (published : Published getEpochNumber job) :
    8 ≤ job.prepowLen.toNat ∧ job.prepowLen.toNat ≤ prepowSize := by
  obtain ⟨n, env, doc, after, published⟩ := published
  obtain ⟨text, _, bound, length, _⟩ := publishes_spec n after env doc job published
  simp only [prepowSize] at bound ⊢
  omega

end Published

section Plain

def plainString (text : String) : Value := .string (ascii text)

def plainNumber (n : UInt8) : Value :=
  have small := n.toNat_lt
  .number (.integer n.toNat ⟨by omega, by omega⟩)

def plainMessage (algo : String) (digits : Nat) : Value :=
  .object [(ascii "id", plainString "Stratum"), (ascii "method", plainString "job"),
    (ascii "params", .object [(ascii "height", plainNumber 5),
      (ascii "algorithm", plainString algo),
      (ascii "block_difficulty", .array [.array [plainString algo, plainNumber 10]]),
      (ascii "epochs", .array [.array [plainNumber 0, plainNumber 100,
        .array (List.replicate 32 (plainNumber 7))]]),
      (ascii "job_id", plainNumber 3),
      (ascii "pre_pow", .string (List.replicate digits 0x30))])]

def plainNode : Node where
  jobs := []
  nextAddr := 0
  currentJob := none
  lastJobTs := 0
  rx := ⟨fun _ => ⟨invalidId, invalidId⟩, 0⟩
  pp := ⟨fun _ => ⟨invalidId, invalidId⟩, 0⟩
  effects := []

def plainJob (algo : String) (digits : Nat) : JobData :=
  match (Id.run ((procMessage (fun _ => 0) ⟨0, 0⟩ (plainMessage algo digits)).run.run
    plainNode)).1 with
  | .ok (.published job) => job
  | _ => .zero

theorem plainJob_publishes (algo : String) (digits : Nat)
    (present : (plainJob algo digits).prepowLen ≠ 0) :
    ∃ after, Publishes (fun _ => 0) plainNode ⟨0, 0⟩ (plainMessage algo digits)
      (plainJob algo digits) after := by
  unfold plainJob at present ⊢
  split at present
  · rename_i job equal
    exact ⟨_, Prod.ext equal rfl⟩
  · exact absurd rfl present

theorem plainJob_published (algo : String) (digits : Nat)
    (present : (plainJob algo digits).prepowLen ≠ 0) :
    Published (fun _ => 0) (plainJob algo digits) := by
  obtain ⟨after, published⟩ := plainJob_publishes algo digits present
  exact ⟨plainNode, ⟨0, 0⟩, plainMessage algo digits, after, published⟩

end Plain

end Node

end EpicPoold
