import EpicPoold.NodeReceive

/-! The timer of recv_main: one timestamp for the template requests and for the fatal
timeout. recv_main is a part of the node thread, so that its list of jobs is in order. -/

namespace EpicPoold

open Foundations

namespace ReceiveRun

open Node

variable {getEpochNumber : UInt64 → Int32} {parse : List UInt8 → Option Value}
  {timeouts : NodeTimeouts}

section Simulation

/-- What json_proc_msg does with a line is a step of the node thread. -/
theorem jsonProcMsg_nodeRun {r : NodeRun} {env : MessageEnv} {msg : List UInt8} {i : Nat}
    (receiving : r.receiving = true) (found : msg.findIdx? (· = 0x0a) = some i)
    (fine : (jsonProcMsg getEpochNumber parse env r.node msg).1 ≠ .assertion) :
    ∃ a q, NodeRun.next getEpochNumber r a = some q ∧
      q.node = (jsonProcMsg getEpochNumber parse env r.node msg).2 ∧
      ∀ msglen, (jsonProcMsg getEpochNumber parse env r.node msg).1 = .consumed msglen →
        q.receiving = true := by
  have rejected : NodeRun.next getEpochNumber r .notJson = some { r with receiving := false } := by
    rw [NodeRun.next, if_pos receiving]
  rw [jsonProcMsg] at fine ⊢
  simp only [found] at fine ⊢
  cases parsed : parse (cstr (msg.take i)) with
  | none => exact ⟨.notJson, _, rejected, rfl, by simp⟩
  | some doc =>
      simp only [parsed] at fine ⊢
      cases object : doc.isObject with
      | false => exact ⟨.notJson, _, rejected, rfl, by simp⟩
      | true =>
          simp only [object, Bool.not_true, Bool.false_eq_true, if_false] at fine ⊢
          rcases ended : Id.run ((procMessage getEpochNumber env doc).run.run r.node) with
            ⟨result, n⟩
          have same : (procMessage getEpochNumber env doc).run.run r.node = (result, n) := ended
          rw [same] at fine ⊢
          refine ⟨.message env doc, ?_⟩
          rw [NodeRun.next, if_pos receiving, NodeRun.messageStep, ended]
          cases result with
          | ok outcome =>
              cases outcome with
              | handled => exact ⟨_, rfl, rfl, fun _ _ => receiving⟩
              | reconnect => exact ⟨_, rfl, rfl, by simp⟩
              | published job => exact ⟨_, rfl, rfl, fun _ _ => receiving⟩
          | error e =>
              cases e with
              | parseError what => exact ⟨_, rfl, rfl, by simp⟩
              | assertion => exact absurd rfl fine

def Within (getEpochNumber : UInt64 → Int32) (s : ReceiveRun) : Prop :=
  ∃ r, (NodeRun.system getEpochNumber).Reachable r ∧ r.node = s.node ∧
    (s.ended = none → r.receiving = true)

variable {s t : ReceiveRun} {a : ReceiveAction}

theorem within_step {r q : NodeRun} {act : NodeAction}
    (reached : (NodeRun.system getEpochNumber).Reachable r)
    (stepped : NodeRun.next getEpochNumber r act = some q) (node : q.node = t.node)
    (receiving : t.ended = none → q.receiving = true) : Within getEpochNumber t :=
  ⟨q, .step reached trivial stepped, node, receiving⟩

theorem moved_within (before : Within getEpochNumber s) (running : s.ended = none)
    (fine : t.ended ≠ some .assertion)
    (moved : Moved getEpochNumber parse timeouts s a t) : Within getEpochNumber t := by
  obtain ⟨r, reached, node, receiving⟩ := before
  have receiving := receiving running
  cases moved with
  | fatal now again here late => exact ⟨r, reached, node, by simp⟩
  | requested now again here early due =>
      have stepped : NodeRun.next getEpochNumber r (.timeout again) = some _ := if_pos receiving
      refine within_step reached stepped ?_ (fun _ => receiving)
      simp only [node]
  | waiting now again here early notDue => exact ⟨r, reached, node, fun _ => receiving⟩
  | closed a here nothing => exact ⟨r, reached, node, by simp⟩
  | filled data here full buf datalen => exact ⟨r, reached, node, by simp⟩
  | received data here got room => exact ⟨r, reached, node, fun _ => receiving⟩
  | dropped env left msgstart i why here found own said =>
      have failed : (jsonProcMsg getEpochNumber parse env r.node
          (s.buf.read msgstart s.datalen)).1 ≠ .assertion := by
        rw [node, jsonProcMsg_newline env found]
        rcases said with ⟨failed, _⟩ | ⟨_, rfl⟩
        · simp [failed]
        · exact absurd rfl fine
      obtain ⟨act, q, stepped, after, _⟩ := jsonProcMsg_nodeRun receiving found failed
      rw [node] at after
      exact within_step reached stepped after (by simp)
  | consumed env left msgstart i here found own said =>
      have returned := @jsonProcMsg_newline getEpochNumber parse s env msgstart i found
      rw [said, ← node] at returned
      have fine : (jsonProcMsg getEpochNumber parse env r.node
          (s.buf.read msgstart s.datalen)).1 ≠ .assertion := by
        simp [returned]
      obtain ⟨act, q, stepped, after, still⟩ := jsonProcMsg_nodeRun receiving found fine
      rw [node] at after
      exact within_step reached stepped after (fun _ => still _ returned)
  | moved msgstart here none => exact ⟨r, reached, node, fun _ => receiving⟩
  | rxReady i id =>
      have stepped : NodeRun.next getEpochNumber r (.rxReady i id) = some _ := rfl
      refine within_step reached stepped ?_ (fun _ => receiving)
      simp only [node]
  | ppReady i id =>
      have stepped : NodeRun.next getEpochNumber r (.ppReady i id) = some _ := rfl
      refine within_step reached stepped ?_ (fun _ => receiving)
      simp only [node]

theorem reachable_within (reached : (system getEpochNumber parse timeouts).Reachable s) :
    s.ended ≠ some .assertion → Within getEpochNumber s := by
  refine reached.invariant (fun s => s.ended ≠ some .assertion → Within getEpochNumber s) ?_ ?_
  · rintro s ⟨r, q, timestampMs, buf, earlier, connected, rfl⟩ _
    refine within_step earlier connected rfl ?_
    intro _
    rw [NodeRun.next] at connected
    split at connected
    · cases connected
    · cases connected
      rfl
  · intro s a t _ before stepped fine
    obtain ⟨running, moved⟩ := next_moved stepped
    exact moved_within (before (by simp [running])) running fine moved

end Simulation

section Timer

variable {s t : ReceiveRun} {a : ReceiveAction}

theorem jsonProcMsg_lastJobTs {n : Node} (fresh : n.Fresh) (env : MessageEnv) {msg : List UInt8}
    {i : Nat} (found : msg.findIdx? (· = 0x0a) = some i) :
    (jsonProcMsg getEpochNumber parse env n msg).2.lastJobTs =
      if acceptsJob getEpochNumber parse env n msg then env.timestampMs else n.lastJobTs := by
  cases parsed : parse (cstr (msg.take i)) with
  | none =>
      have other : acceptsJob getEpochNumber parse env n msg = false := by
        simp only [acceptsJob, found, parsed]
      simp only [other, jsonProcMsg, found, parsed, Bool.false_eq_true, if_false]
  | some doc =>
      cases object : doc.isObject with
      | false =>
          have other : acceptsJob getEpochNumber parse env n msg = false := by
            simp only [acceptsJob, found, parsed, object, Bool.false_and]
          simp only [other, jsonProcMsg, found, parsed, object, Bool.not_false, Bool.false_eq_true,
            if_true, if_false]
      | true =>
          rcases ended : Id.run ((procMessage getEpochNumber env doc).run.run n) with ⟨result, t⟩
          have same : (procMessage getEpochNumber env doc).run.run n = (result, t) := ended
          have accepted : acceptsJob getEpochNumber parse env n msg = publishes result := by
            simp only [acceptsJob, found, parsed, object, ended, Bool.true_and]
          simp only [accepted, jsonProcMsg, found, parsed, object, same, Bool.not_true,
            Bool.false_eq_true, if_false]
          cases result with
          | ok outcome =>
              rcases runs_procMessage n t env doc outcome ended with
                ⟨_, other, effects, rfl⟩ | ⟨b, job, effects, _, rfl, rest⟩
              · cases outcome with
                | handled | reconnect => rfl
                | published job => exact absurd rfl (other job)
              · rw [(rest fresh).2]
                rfl
          | error e =>
              have kept : t.lastJobTs = n.lastJobTs := by
                rcases fails_procMessage n t env doc e ended with
                  ⟨_, rfl⟩ | ⟨_, _, fill, rx, pp, effects, rfl⟩
                · rfl
                · rfl
              cases e with
              | assertion => exact kept
              | parseError what => exact kept

/-- More seconds than the fatal timeout have passed since the last accepted job or the
login. -/
def LongSilent (timeouts : NodeTimeouts) (s : ReceiveRun) (now : UInt64) : Prop :=
  s.since.toNat + 1000 * timeouts.fatal.toNat < now.toNat

/-- At every receive timeout of a node that has been silent too long the loop takes the
fatal exit. -/
def SilenceDetected (getEpochNumber : UInt64 → Int32) (parse : List UInt8 → Option Value)
    (timeouts : NodeTimeouts) : Prop :=
  ∀ s now again t, (system getEpochNumber parse timeouts).Reachable s →
    next getEpochNumber parse timeouts s (.timedOut now again) = some t →
    LongSilent timeouts s now → t.ended = some .fatal

theorem fatalMs_toNat : timeouts.fatalMs.toNat = 1000 * timeouts.fatal.toNat := by
  have small := timeouts.fatal.toNat_lt
  rw [NodeTimeouts.fatalMs, UInt64.toNat_mul, UInt32.toNat_toUInt64]
  change timeouts.fatal.toNat * 1000 % 2 ^ 64 = _
  omega

theorem templateMs_toNat : timeouts.templateMs.toNat = 1000 * timeouts.template.toNat := by
  have small := timeouts.template.toNat_lt
  rw [NodeTimeouts.templateMs, UInt64.toNat_mul, UInt32.toNat_toUInt64]
  change timeouts.template.toNat * 1000 % 2 ^ 64 = _
  omega

/-- With the shorter fatal timeout no request is ever sent for a timeout, so that the
timestamp is that of the last job. -/
theorem moved_since (shorter : timeouts.fatal ≤ timeouts.template) (fresh : s.node.Fresh)
    (before : s.node.lastJobTs = s.since)
    (moved : Moved getEpochNumber parse timeouts s a t) : t.node.lastJobTs = t.since := by
  cases moved with
  | requested now again here early due =>
      have order := UInt32.le_iff_toNat_le.mp shorter
      rw [UInt64.lt_iff_toNat_lt, fatalMs_toNat] at early
      rw [UInt64.lt_iff_toNat_lt, templateMs_toNat] at due
      omega
  | dropped env left msgstart i why here found own said =>
      simp only [handedOver, jsonProcMsg_lastJobTs fresh env found, before]
  | consumed env left msgstart i here found own said =>
      simp only [handedOver, jsonProcMsg_lastJobTs fresh env found, before]
  | fatal _ _ _ _ | waiting _ _ _ _ _ | closed _ _ _ | filled _ _ _ _ _ | received _ _ _ _
  | moved _ _ _ | rxReady _ _ | ppReady _ _ => exact before

theorem reachable_since (shorter : timeouts.fatal ≤ timeouts.template)
    (reached : (system getEpochNumber parse timeouts).Reachable s) :
    s.node.lastJobTs = s.since := by
  refine reached.invariant (fun s => s.node.lastJobTs = s.since) ?_ ?_
  · rintro s ⟨r, q, timestampMs, buf, _, connected, rfl⟩
    rw [NodeRun.next] at connected
    split at connected
    · cases connected
    · cases connected
      rfl
  · intro s a t earlier before stepped
    obtain ⟨running, moved⟩ := next_moved stepped
    obtain ⟨r, reached, node, _⟩ := reachable_within earlier (by simp [running])
    have fresh := (NodeRun.reachable_publishedAlive reached).1.fresh
    rw [node] at fresh
    exact moved_since shorter fresh before moved

theorem timeoutStep_requested {now again : UInt64}
    (early : ¬ timeouts.fatalMs < now - s.node.lastJobTs)
    (due : timeouts.templateMs < now - s.node.lastJobTs) :
    s.timeoutStep timeouts now again =
      { s with
        node := { s.node with
          lastJobTs := again
          effects := s.node.effects ++ [.sendTemplateRequest] } } := by
  rw [timeoutStep]
  simp only [early, due, if_false, if_true]

theorem timeoutStep_ended {now again : UInt64}
    (early : ¬ timeouts.fatalMs < now - s.node.lastJobTs) :
    (s.timeoutStep timeouts now again).ended = s.ended := by
  rw [timeoutStep]
  simp only [early, if_false]
  split
  · rfl
  · rfl

variable (timeouts) in
/-- The node has been silent from the login at time 0 on, and a template was requested one
millisecond after it was due. -/
def requestedOnce : ReceiveRun :=
  { new plainNode 0 (.filled _ 0) with
    node := { plainNode with
      lastJobTs := timeouts.templateMs + 1
      effects := [.sendTemplateRequest] } }

theorem templateMs_succ : (timeouts.templateMs + 1).toNat = 1000 * timeouts.template.toNat + 1 := by
  have small := timeouts.template.toNat_lt
  rw [UInt64.toNat_add, templateMs_toNat]
  change (_ + 1) % 2 ^ 64 = _
  omega

theorem fatalMs_succ : (timeouts.fatalMs + 1).toNat = 1000 * timeouts.fatal.toNat + 1 := by
  have small := timeouts.fatal.toNat_lt
  rw [UInt64.toNat_add, fatalMs_toNat]
  change (_ + 1) % 2 ^ 64 = _
  omega

theorem requestedOnce_reachable (longer : timeouts.template < timeouts.fatal) :
    (system getEpochNumber parse timeouts).Reachable (requestedOnce timeouts) := by
  have order := UInt32.lt_iff_toNat_lt.mp longer
  have login : (system getEpochNumber parse timeouts).Reachable (new plainNode 0 (.filled _ 0)) :=
    .start ⟨⟨plainNode, false, []⟩, ⟨plainNode, true, []⟩, 0, .filled _ 0, .start rfl, rfl, rfl⟩
  have early : ¬ timeouts.fatalMs < timeouts.templateMs + 1 - 0 := by
    rw [UInt64.sub_zero, UInt64.lt_iff_toNat_lt, fatalMs_toNat, templateMs_succ]
    omega
  have due : timeouts.templateMs < timeouts.templateMs + 1 - 0 := by
    rw [UInt64.sub_zero, UInt64.lt_iff_toNat_lt, templateMs_toNat, templateMs_succ]
    omega
  refine .step login trivial (a := .timedOut (timeouts.templateMs + 1) (timeouts.templateMs + 1)) ?_
  exact congrArg some (timeoutStep_requested early due)

/-- A request that was due in time makes the silence look short. -/
theorem silence_hidden (longer : timeouts.template < timeouts.fatal) :
    ∃ s now t, (system getEpochNumber parse timeouts).Reachable s ∧
      next getEpochNumber parse timeouts s (.timedOut now now) = some t ∧
      LongSilent timeouts s now ∧ t.ended = none := by
  have order := UInt32.lt_iff_toNat_lt.mp longer
  have early : ¬ timeouts.fatalMs <
      timeouts.fatalMs + 1 - (requestedOnce timeouts).node.lastJobTs := by
    change ¬ timeouts.fatalMs < timeouts.fatalMs + 1 - (timeouts.templateMs + 1)
    have before : timeouts.templateMs + 1 ≤ timeouts.fatalMs + 1 := by
      rw [UInt64.le_iff_toNat_le, templateMs_succ, fatalMs_succ]
      omega
    rw [UInt64.lt_iff_toNat_lt, UInt64.toNat_sub_of_le _ _ before, fatalMs_succ, templateMs_succ,
      fatalMs_toNat]
    omega
  refine ⟨requestedOnce timeouts, timeouts.fatalMs + 1, _, requestedOnce_reachable longer, rfl,
    ?_, timeoutStep_ended early⟩
  change 0 + 1000 * timeouts.fatal.toNat < (timeouts.fatalMs + 1).toNat
  rw [fatalMs_succ]
  omega

/-- A silent node is detected in every run if and only if the fatal timeout is no longer
than that of the template requests. -/
theorem silence_detected_iff :
    SilenceDetected getEpochNumber parse timeouts ↔ timeouts.fatal ≤ timeouts.template := by
  constructor
  · intro detected
    apply UInt32.not_lt.mp
    intro longer
    obtain ⟨s, now, t, reached, stepped, silent, running⟩ :=
      @silence_hidden getEpochNumber parse timeouts longer
    have ended := detected s now now t reached stepped silent
    rw [running] at ended
    cases ended
  · intro shorter s now again t reached stepped silent
    have since := reachable_since shorter reached
    have late : timeouts.fatalMs < now - s.node.lastJobTs := by
      have passed : s.since.toNat + 1000 * timeouts.fatal.toNat < now.toNat := silent
      rw [since, UInt64.lt_iff_toNat_lt, fatalMs_toNat, UInt64.toNat_sub_of_le _ _
        (UInt64.le_iff_toNat_le.mpr (by omega))]
      omega
    obtain ⟨_, moved⟩ := next_moved stepped
    cases moved with
    | fatal _ _ here _ => rfl
    | requested _ _ here early due => exact absurd late early
    | waiting _ _ here early notDue => exact absurd late early
    | closed _ here nothing => simp at nothing

def shippedTimeouts : NodeTimeouts := ⟨60, 300⟩

/-- With them the daemon waits for a silent node for ever. -/
theorem shipped_silence_undetected :
    ¬ SilenceDetected (fun _ => 0) (fun _ => none) shippedTimeouts := by
  intro detected
  obtain ⟨s, now, t, reached, stepped, silent, running⟩ :=
    @silence_hidden (fun _ => 0) (fun _ => none) shippedTimeouts (by decide)
  have ended := detected s now now t reached stepped silent
  rw [running] at ended
  cases ended

end Timer

end ReceiveRun

end EpicPoold
