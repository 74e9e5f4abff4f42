import EpicPoold.NodeRuns
import EpicPoold.Foundations.LineBuffer

/-! recv_main from the login on, step by step: receive timeouts, reads, messages and moves
of the leftover. The parser works in place, so that a message that has been handed over is
left as any bytes. -/

namespace EpicPoold

open Foundations

abbrev dataBufferLen : Nat := 16 * 1024

structure NodeTimeouts where
  template : UInt32
  fatal : UInt32
  deriving DecidableEq

namespace NodeTimeouts

def templateMs (t : NodeTimeouts) : UInt64 := t.template.toUInt64 * 1000

def fatalMs (t : NodeTimeouts) : UInt64 := t.fatal.toUInt64 * 1000

end NodeTimeouts

/-- At recv, or at json_proc_msg for what begins at `msgstart`. -/
inductive ReceivePc where
  | recv
  | scan (msgstart : Nat)
  deriving DecidableEq

/-- Why the loop ended: the node is gone, the buffer is full, a message was rejected, an
assertion of the parser failed, or the fatal timeout was noticed. -/
inductive ReceiveEnd where
  | closed
  | overflow
  | rejected
  | assertion
  | fatal
  deriving DecidableEq

/-- recv_main with all it has received, the lines handed to json_proc_msg, and the time of
the last accepted job or, before the first, of the login. -/
structure ReceiveRun where
  node : Node
  datalen : Nat
  buf : Buffer dataBufferLen
  pc : ReceivePc
  ended : Option ReceiveEnd
  received : List UInt8
  handed : List (List UInt8)
  since : UInt64

/-- A receive timeout with the clock readings it may take, bytes (none at the end of the
stream), another failure, the next message with what its bytes are afterwards, and the move
of the leftover. The dataset threads publish ready ids at any time. -/
inductive ReceiveAction where
  | timedOut (now again : UInt64)
  | recv (data : List UInt8)
  | failed
  | message (env : MessageEnv) (left : List UInt8)
  | leftover
  | rxReady (i : SlotIdx) (id : UInt64)
  | ppReady (i : SlotIdx) (id : UInt64)

namespace ReceiveRun

open Node

def start : ReceivePc → Nat
  | .recv => 0
  | .scan msgstart => msgstart

/-- The newline that json_proc_msg finds. -/
def newline (s : ReceiveRun) (msgstart : Nat) : Option Nat :=
  (s.buf.read msgstart s.datalen).findIdx? (· = 0x0a)

def space (s : ReceiveRun) : Nat := dataBufferLen - s.datalen

def timeoutStep (timeouts : NodeTimeouts) (s : ReceiveRun) (now again : UInt64) : ReceiveRun :=
  let lastJobDelta := now - s.node.lastJobTs
  if timeouts.fatalMs < lastJobDelta then { s with ended := some .fatal }
  else if timeouts.templateMs < lastJobDelta then
    { s with
      node := { s.node with
        lastJobTs := again
        effects := s.node.effects ++ [.sendTemplateRequest] } }
  else s

def recvStep (s : ReceiveRun) (data : List UInt8) : ReceiveRun :=
  let got := data.take s.space
  if got = [] then { s with ended := some .closed }
  else
    let s := { s with
      datalen := s.datalen + got.length
      buf := s.buf.write s.datalen got
      received := s.received ++ got }
    if dataBufferLen ≤ s.datalen then { s with ended := some .overflow }
    else { s with pc := .scan 0 }

def publishes : Except JsonFail Processed → Bool
  | .ok (.published _) => true
  | _ => false

section System

variable (getEpochNumber : UInt64 → Int32) (parse : List UInt8 → Option Value)

def acceptsJob (env : MessageEnv) (n : Node) (msg : List UInt8) : Bool :=
  match msg.findIdx? (· = 0x0a) with
  | none => false
  | some i =>
      match parse (cstr (msg.take i)) with
      | none => false
      | some doc =>
          doc.isObject && publishes (Id.run ((procMessage getEpochNumber env doc).run.run n)).1

def messageStep (s : ReceiveRun) (msgstart : Nat) (env : MessageEnv) (left : List UInt8) :
    Option ReceiveRun :=
  match s.newline msgstart with
  | none => none
  | some i =>
      if left.length = i + 1 then
        let msg := s.buf.read msgstart s.datalen
        let ran := jsonProcMsg getEpochNumber parse env s.node msg
        let t := { s with
          node := ran.2
          buf := s.buf.write msgstart left
          handed := s.handed ++ [s.buf.read msgstart (i + 1)]
          since := if acceptsJob getEpochNumber parse env s.node msg then env.timestampMs
            else s.since }
        match ran.1 with
        | .consumed msglen =>
            some { t with datalen := s.datalen - msglen, pc := .scan (msgstart + msglen) }
        | .failed => some { t with ended := some .rejected }
        | .assertion => some { t with ended := some .assertion }
        | .needMore => none
      else none

/-- memmove of the leftover bytes to the front. -/
def moveLeftover (s : ReceiveRun) (msgstart : Nat) : Buffer dataBufferLen :=
  if 0 < s.datalen ∧ msgstart ≠ 0 then s.buf.write 0 (s.buf.read msgstart s.datalen) else s.buf

variable (timeouts : NodeTimeouts)

def step (s : ReceiveRun) (a : ReceiveAction) : Option ReceiveRun :=
  match s.pc, a with
  | .recv, .timedOut now again => some (s.timeoutStep timeouts now again)
  | .recv, .recv data => some (s.recvStep data)
  | .recv, .failed => some { s with ended := some .closed }
  | .scan msgstart, .message env left => s.messageStep getEpochNumber parse msgstart env left
  | .scan msgstart, .leftover =>
      if s.newline msgstart = none then
        some { s with buf := s.moveLeftover msgstart, pc := .recv }
      else none
  | _, .rxReady i id =>
      some { s with node := { s.node with rx := NodeRun.setReady s.node.rx i id } }
  | _, .ppReady i id =>
      some { s with node := { s.node with pp := NodeRun.setReady s.node.pp i id } }
  | _, _ => none

def next (s : ReceiveRun) (a : ReceiveAction) : Option ReceiveRun :=
  if s.ended.isSome then none else s.step getEpochNumber parse timeouts a

/-- The login has been sent; the buffer holds what the last connection left in it. -/
def new (n : Node) (timestampMs : UInt64) (buf : Buffer dataBufferLen) : ReceiveRun :=
  ⟨n, 0, buf, .recv, none, [], [], timestampMs⟩

/-- recv_main begins wherever the node thread connects. -/
def system : System ReceiveRun ReceiveAction where
  start s := ∃ r q timestampMs buf, (NodeRun.system getEpochNumber).Reachable r ∧
    NodeRun.next getEpochNumber r (.connected timestampMs) = some q ∧
      s = new q.node timestampMs buf
  next := next getEpochNumber parse timeouts

end System

section Verdicts

/-- What a message comes to, read off the message alone: whether recv_main goes on, or the
exception. A block difficulty that no entry sets is what the stack held. -/
def goesOn (blockDiffBytes : UInt64) (doc : Value) : Json Bool := do
  match ← messageKind doc with
  | .job res =>
      let height ← getJsonUInt res "height"
      let body ← readJob ⟨blockDiffBytes, 0⟩ res
      pure (height = 0 || body.isSome)
  | _ => pure true

variable {getEpochNumber : UInt64 → Int32} {env : MessageEnv} {doc : Value} {n t : Node}

/-- A job message that is passed over is so for its height, and one that ends the
connection for its difficulty. -/
theorem runs_jobMessage_height {res : Value} {outcome : Processed}
    (ran : Runs (jobMessage getEpochNumber env res) n outcome t) :
    ∃ height, getJsonUInt res "height" = .ok height ∧
      (jobHeader env res = .ok none → (outcome ≠ .reconnect ↔ height = 0)) := by
  rw [jobMessage, runs_lift_bind] at ran
  obtain ⟨height, tall, ran⟩ := ran
  refine ⟨height, tall, ?_⟩
  intro empty
  split at ran
  · rename_i zero
    obtain ⟨_, _, _, ran⟩ := (runs_bind _ _ _ _ _).mp ran
    obtain ⟨rfl, _⟩ := (runs_pure _ _ _ _).mp ran
    simp [zero]
  · rename_i nonzero
    simp only [runs_lift_bind] at ran
    obtain ⟨algo, named, type, typed, member, found, difficulties, listed, blockDiff, summed,
      ran⟩ := ran
    split at ran
    · obtain ⟨rfl, _⟩ := (runs_pure _ _ _ _).mp ran
      simp [nonzero]
    · rename_i hard
      simp [jobHeader, tall, nonzero, named, typed, found, listed, summed, hard, bind,
        Except.bind, pure, Except.pure] at empty

theorem readJob_of_header {res : Value} (empty : jobHeader env res = .ok none) :
    readJob env res = .ok none := by
  simp [readJob, empty, bind, Except.bind, pure, Except.pure]

theorem runs_goesOn {outcome : Processed}
    (ran : Runs (procMessage getEpochNumber env doc) n outcome t) :
    goesOn env.blockDiffBytes doc = .ok (outcome ≠ .reconnect) := by
  rw [procMessage_eq, runs_lift_bind] at ran
  obtain ⟨kind, named, ran⟩ := ran
  cases kind with
  | quiet =>
      obtain ⟨rfl, _⟩ := (runs_pure _ _ _ _).mp ran
      simp [goesOn, named, bind, Except.bind, pure, Except.pure]
  | login =>
      obtain ⟨_, _, _, ran⟩ := (runs_bind _ _ _ _ _).mp ran
      obtain ⟨rfl, _⟩ := (runs_pure _ _ _ _).mp ran
      simp [goesOn, named, bind, Except.bind, pure, Except.pure]
  | job res =>
      obtain ⟨height, tall, ends⟩ := runs_jobMessage_height ran
      rcases runs_jobMessage n t env res outcome ran with
        ⟨empty, _, _⟩ | ⟨b, job, _, read, rfl, _⟩
      · have read : readJob ⟨env.blockDiffBytes, 0⟩ res = .ok none := readJob_of_header empty
        simp [goesOn, named, tall, read, ends empty, bind, Except.bind, pure, Except.pure]
      · have same : readJob ⟨env.blockDiffBytes, 0⟩ res = .ok (some b) := read
        simp [goesOn, named, tall, same, bind, Except.bind, pure, Except.pure]

theorem fails_goesOn {e : JsonFail} (failed : Fails (procMessage getEpochNumber env doc) n e t) :
    goesOn env.blockDiffBytes doc = .error e := by
  rw [procMessage_eq, fails_lift_bind] at failed
  rcases failed with ⟨bad, _⟩ | ⟨kind, named, failed⟩
  · simp [goesOn, bad, bind, Except.bind]
  cases kind with
  | quiet => exact absurd failed (not_fails_pure _ _ _ _)
  | login =>
      rcases (fails_bind _ _ _ _ _).mp failed with first | ⟨_, _, _, last⟩
      · exact absurd first (not_fails_pure _ _ _ _)
      · exact absurd last (not_fails_pure _ _ _ _)
  | job res =>
      have bad : readJob ⟨env.blockDiffBytes, 0⟩ res = .error e := by
        rcases fails_jobMessage n t env res e failed with ⟨early, _⟩ | ⟨_, _, _, _, _, _, late, _⟩
        · have same : jobHeader ⟨env.blockDiffBytes, 0⟩ res = .error e := early
          simp [readJob, same, bind, Except.bind]
        · exact late
      cases tall : getJsonUInt res "height" with
      | error e' =>
          have same : readJob ⟨env.blockDiffBytes, 0⟩ res = .error e' := by
            simp [readJob, jobHeader, tall, bind, Except.bind]
          rw [bad] at same
          cases same
          simp [goesOn, named, tall, bind, Except.bind]
      | ok height => simp [goesOn, named, tall, bad, bind, Except.bind]

def verdict (parse : List UInt8 → Option Value) (blockDiffBytes : UInt64) (line : List UInt8) :
    MsgReturn :=
  match parse (cstr line.dropLast) with
  | none => .failed
  | some doc =>
      if !doc.isObject then .failed
      else
        match goesOn blockDiffBytes doc with
        | .ok true => .consumed line.length
        | .ok false => .failed
        | .error (.parseError _) => .failed
        | .error .assertion => .assertion

theorem jsonProcMsg_verdict {parse : List UInt8 → Option Value} {msg : List UInt8} {i : Nat}
    (found : msg.findIdx? (· = 0x0a) = some i) :
    (jsonProcMsg getEpochNumber parse env n msg).1 =
      verdict parse env.blockDiffBytes (msg.take (i + 1)) := by
  have inside := (ended_of_findIdx found).1
  have length : (msg.take (i + 1)).length = i + 1 := by
    rw [List.length_take]
    omega
  have text : (msg.take (i + 1)).dropLast = msg.take i := by
    rw [List.dropLast_eq_take, length, List.take_take]
    simp
  rw [jsonProcMsg, verdict, text, length]
  simp only [found]
  cases parse (cstr (msg.take i)) with
  | none => rfl
  | some doc =>
      simp only
      cases object : doc.isObject with
      | false => rfl
      | true =>
          simp only [Bool.not_true, Bool.false_eq_true, if_false]
          rcases ended : Id.run ((procMessage getEpochNumber env doc).run.run n) with ⟨result, t⟩
          have same : (procMessage getEpochNumber env doc).run.run n = (result, t) := ended
          rw [same]
          cases result with
          | ok outcome =>
              rw [runs_goesOn ended]
              cases outcome with
              | handled | reconnect | published _ => simp
          | error e =>
              rw [fails_goesOn ended]
              cases e with
              | assertion | parseError _ => rfl

theorem verdict_consumed {parse : List UInt8 → Option Value} {blockDiffBytes : UInt64}
    {line : List UInt8} {msglen : Nat}
    (consumed : verdict parse blockDiffBytes line = .consumed msglen) : msglen = line.length := by
  unfold verdict at consumed
  split at consumed
  · cases consumed
  · split at consumed
    · cases consumed
    · split at consumed
      · cases consumed
        rfl
      · cases consumed
      · cases consumed
      · cases consumed

end Verdicts

variable {getEpochNumber : UInt64 → Int32} {parse : List UInt8 → Option Value}
  {timeouts : NodeTimeouts}

def handedOver (getEpochNumber : UInt64 → Int32) (parse : List UInt8 → Option Value)
    (s : ReceiveRun) (msgstart i : Nat) (env : MessageEnv) (left : List UInt8) : ReceiveRun :=
  let msg := s.buf.read msgstart s.datalen
  { s with
    node := (jsonProcMsg getEpochNumber parse env s.node msg).2
    buf := s.buf.write msgstart left
    handed := s.handed ++ [s.buf.read msgstart (i + 1)]
    since := if acceptsJob getEpochNumber parse env s.node msg then env.timestampMs else s.since }

inductive Moved (getEpochNumber : UInt64 → Int32) (parse : List UInt8 → Option Value)
    (timeouts : NodeTimeouts) (s : ReceiveRun) : ReceiveAction → ReceiveRun → Prop
  | fatal (now again : UInt64) (here : s.pc = .recv)
      (late : timeouts.fatalMs < now - s.node.lastJobTs) :
      Moved getEpochNumber parse timeouts s (.timedOut now again) { s with ended := some .fatal }
  | requested (now again : UInt64) (here : s.pc = .recv)
      (early : ¬ timeouts.fatalMs < now - s.node.lastJobTs)
      (due : timeouts.templateMs < now - s.node.lastJobTs) :
      Moved getEpochNumber parse timeouts s (.timedOut now again)
        { s with
          node := { s.node with
            lastJobTs := again
            effects := s.node.effects ++ [.sendTemplateRequest] } }
  | waiting (now again : UInt64) (here : s.pc = .recv)
      (early : ¬ timeouts.fatalMs < now - s.node.lastJobTs)
      (notDue : ¬ timeouts.templateMs < now - s.node.lastJobTs) :
      Moved getEpochNumber parse timeouts s (.timedOut now again) s
  | closed (a : ReceiveAction) (here : s.pc = .recv)
      (nothing : a = .failed ∨ ∃ data, a = .recv data ∧ data.take s.space = []) :
      Moved getEpochNumber parse timeouts s a { s with ended := some .closed }
  | filled (data : List UInt8) (here : s.pc = .recv) (full : s.space ≤ data.length)
      (buf : Buffer dataBufferLen) (datalen : Nat) :
      Moved getEpochNumber parse timeouts s (.recv data)
        { s with
          datalen := datalen
          buf := buf
          received := s.received ++ data.take s.space
          ended := some .overflow }
  | received (data : List UInt8) (here : s.pc = .recv) (got : data ≠ [])
      (room : s.datalen + data.length < dataBufferLen) :
      Moved getEpochNumber parse timeouts s (.recv data)
        { s with
          datalen := s.datalen + data.length
          buf := s.buf.write s.datalen data
          received := s.received ++ data
          pc := .scan 0 }
  | dropped (env : MessageEnv) (left : List UInt8) (msgstart i : Nat) (why : ReceiveEnd)
      (here : s.pc = .scan msgstart) (found : s.newline msgstart = some i)
      (own : left.length = i + 1)
      (said : verdict parse env.blockDiffBytes (s.buf.read msgstart (i + 1)) = .failed ∧
          why = .rejected ∨
        verdict parse env.blockDiffBytes (s.buf.read msgstart (i + 1)) = .assertion ∧
          why = .assertion) :
      Moved getEpochNumber parse timeouts s (.message env left)
        { handedOver getEpochNumber parse s msgstart i env left with ended := some why }
  | consumed (env : MessageEnv) (left : List UInt8) (msgstart i : Nat)
      (here : s.pc = .scan msgstart) (found : s.newline msgstart = some i)
      (own : left.length = i + 1)
      (said : verdict parse env.blockDiffBytes (s.buf.read msgstart (i + 1)) =
        .consumed (i + 1)) :
      Moved getEpochNumber parse timeouts s (.message env left)
        { handedOver getEpochNumber parse s msgstart i env left with
          datalen := s.datalen - (i + 1)
          pc := .scan (msgstart + (i + 1)) }
  | moved (msgstart : Nat) (here : s.pc = .scan msgstart) (none : s.newline msgstart = none) :
      Moved getEpochNumber parse timeouts s .leftover
        { s with buf := s.moveLeftover msgstart, pc := .recv }
  | rxReady (i : SlotIdx) (id : UInt64) :
      Moved getEpochNumber parse timeouts s (.rxReady i id)
        { s with node := { s.node with rx := NodeRun.setReady s.node.rx i id } }
  | ppReady (i : SlotIdx) (id : UInt64) :
      Moved getEpochNumber parse timeouts s (.ppReady i id)
        { s with node := { s.node with pp := NodeRun.setReady s.node.pp i id } }

section Inversion

variable {s t : ReceiveRun}

theorem timeoutStep_moved (now again : UInt64) (here : s.pc = .recv) :
    Moved getEpochNumber parse timeouts s (.timedOut now again)
      (s.timeoutStep timeouts now again) := by
  rw [timeoutStep]
  by_cases late : timeouts.fatalMs < now - s.node.lastJobTs
  · rw [if_pos late]
    exact .fatal now again here late
  · rw [if_neg late]
    by_cases due : timeouts.templateMs < now - s.node.lastJobTs
    · rw [if_pos due]
      exact .requested now again here late due
    · rw [if_neg due]
      exact .waiting now again here late due

theorem recvStep_moved (data : List UInt8) (here : s.pc = .recv) :
    Moved getEpochNumber parse timeouts s (.recv data) (s.recvStep data) := by
  have space : s.space = dataBufferLen - s.datalen := rfl
  by_cases nothing : data.take s.space = []
  · rw [recvStep]
    simp only [nothing, if_true]
    exact .closed _ here (.inr ⟨data, rfl, nothing⟩)
  · have some : 0 < (data.take s.space).length := List.length_pos_iff.mpr nothing
    by_cases full : s.space ≤ data.length
    · have size : (data.take s.space).length = s.space := by
        rw [List.length_take, Nat.min_eq_left full]
      have reached : dataBufferLen ≤ s.datalen + (data.take s.space).length := by omega
      rw [recvStep]
      simp only [nothing, reached, if_false, if_true]
      exact .filled data here full _ _
    · have whole : data.take s.space = data := List.take_of_length_le (by omega)
      rw [whole] at nothing
      have room : s.datalen + data.length < dataBufferLen := by
        rw [whole] at some
        omega
      rw [recvStep]
      simp only [whole, nothing, Nat.not_le.mpr room, if_false]
      exact .received data here nothing room

theorem newline_take {msgstart i : Nat} (found : s.newline msgstart = some i) :
    (s.buf.read msgstart s.datalen).take (i + 1) = s.buf.read msgstart (i + 1) := by
  have inside := (ended_of_findIdx found).1
  rw [Buffer.read, List.length_take] at inside
  exact Buffer.read_take _ _ _ _ (by omega)

/-- What json_proc_msg returns for the message that begins at `msgstart`. -/
theorem jsonProcMsg_newline (env : MessageEnv) {msgstart i : Nat}
    (found : s.newline msgstart = some i) :
    (jsonProcMsg getEpochNumber parse env s.node (s.buf.read msgstart s.datalen)).1 =
      verdict parse env.blockDiffBytes (s.buf.read msgstart (i + 1)) := by
  rw [← newline_take found]
  exact jsonProcMsg_verdict found

theorem messageStep_moved {msgstart : Nat} {env : MessageEnv} {left : List UInt8}
    (here : s.pc = .scan msgstart)
    (stepped : s.messageStep getEpochNumber parse msgstart env left = some t) :
    Moved getEpochNumber parse timeouts s (.message env left) t := by
  rw [messageStep] at stepped
  split at stepped
  · cases stepped
  · rename_i i found
    have length : (s.buf.read msgstart (i + 1)).length = i + 1 := by
      have inside := (ended_of_findIdx found).1
      rw [← newline_take found, List.length_take]
      omega
    have said := @jsonProcMsg_newline getEpochNumber parse s env msgstart i found
    split at stepped
    · rename_i own
      simp only [said] at stepped
      split at stepped
      · rename_i msglen consumed
        cases stepped
        obtain rfl := (verdict_consumed consumed).trans length
        exact .consumed env left msgstart i here found own consumed
      · rename_i failed
        cases stepped
        exact .dropped env left msgstart i .rejected here found own (.inl ⟨failed, rfl⟩)
      · rename_i asserted
        cases stepped
        exact .dropped env left msgstart i .assertion here found own (.inr ⟨asserted, rfl⟩)
      · cases stepped
    · cases stepped

theorem step_moved {a : ReceiveAction}
    (stepped : s.step getEpochNumber parse timeouts a = some t) :
    Moved getEpochNumber parse timeouts s a t := by
  rcases here : s.pc with _ | msgstart
  · cases a with
    | timedOut now again =>
        simp only [step, here] at stepped
        cases stepped
        exact timeoutStep_moved now again here
    | recv data =>
        simp only [step, here] at stepped
        cases stepped
        exact recvStep_moved data here
    | failed =>
        have moved : Moved getEpochNumber parse timeouts s .failed _ := .closed _ here (.inl rfl)
        simp only [step, here] at stepped
        cases stepped
        rwa [here] at moved
    | rxReady i id =>
        have moved : Moved getEpochNumber parse timeouts s (.rxReady i id) _ := .rxReady i id
        simp only [step, here] at stepped
        cases stepped
        rwa [here] at moved
    | ppReady i id =>
        have moved : Moved getEpochNumber parse timeouts s (.ppReady i id) _ := .ppReady i id
        simp only [step, here] at stepped
        cases stepped
        rwa [here] at moved
    | message _ _ | leftover =>
        simp only [step, here] at stepped
        cases stepped
  · cases a with
    | message env left =>
        simp only [step, here] at stepped
        exact messageStep_moved here stepped
    | leftover =>
        simp only [step, here] at stepped
        split at stepped
        · rename_i none
          cases stepped
          exact .moved msgstart here none
        · cases stepped
    | rxReady i id =>
        have moved : Moved getEpochNumber parse timeouts s (.rxReady i id) _ := .rxReady i id
        simp only [step, here] at stepped
        cases stepped
        rwa [here] at moved
    | ppReady i id =>
        have moved : Moved getEpochNumber parse timeouts s (.ppReady i id) _ := .ppReady i id
        simp only [step, here] at stepped
        cases stepped
        rwa [here] at moved
    | timedOut _ _ | recv _ | failed =>
        simp only [step, here] at stepped
        cases stepped

theorem next_moved {a : ReceiveAction}
    (stepped : next getEpochNumber parse timeouts s a = some t) :
    s.ended = none ∧ Moved getEpochNumber parse timeouts s a t := by
  rw [next] at stepped
  split at stepped
  · cases stepped
  · rename_i running
    exact ⟨by simpa using running, step_moved stepped⟩

end Inversion

section Framing

variable {s t : ReceiveRun} {a : ReceiveAction}

abbrev Framed (s : ReceiveRun) : Prop :=
  Foundations.Framed 0x0a s.buf (start s.pc) s.datalen s.received s.handed (s.pc = .recv)

theorem moved_framed (before : Framed s) (running : t.ended = none)
    (moved : Moved getEpochNumber parse timeouts s a t) : Framed t := by
  have holding := before.holding
  cases moved with
  | fatal now again here late => cases running
  | requested now again here early due => exact before
  | waiting now again here early notDue => exact before
  | closed a here nothing => cases running
  | filled data here full buf datalen => cases running
  | received data here got room =>
      rw [here] at holding
      exact ⟨holding_receive holding data room, by simp⟩
  | dropped env left msgstart i why here found own said => cases running
  | consumed env left msgstart i here found own said =>
      rw [here] at holding
      exact ⟨holding_take holding found left own, by simp⟩
  | moved msgstart here none =>
      rw [here] at holding
      exact framed_move holding none _
  | rxReady i id => exact before
  | ppReady i id => exact before

theorem reachable_framed (reached : (system getEpochNumber parse timeouts).Reachable s) :
    s.ended = none → Framed s := by
  refine reached.invariant (fun s => s.ended = none → Framed s) ?_ ?_
  · rintro s ⟨r, q, timestampMs, buf, _, _, rfl⟩ _
    exact framed_empty _ (by decide) _
  · intro s a t _ before stepped running
    obtain ⟨earlier, moved⟩ := next_moved stepped
    exact moved_framed (before earlier) running moved

def accepts (parse : List UInt8 → Option Value) (blockDiffBytes : Nat → UInt64) (k : Nat)
    (line : List UInt8) : Bool :=
  decide (verdict parse (blockDiffBytes k) line = .consumed line.length)

def SameStack (blockDiffBytes : Nat → UInt64) (s : ReceiveRun) : ReceiveAction → Prop
  | .message env _ => env.blockDiffBytes = blockDiffBytes s.handed.length
  | _ => True

def dropped : Option ReceiveEnd → Prop
  | some .rejected => True
  | some .assertion => True
  | _ => False

/-- How recv_main ends for what json_proc_msg returns. -/
def endsWith : MsgReturn → Option ReceiveEnd
  | .failed => some .rejected
  | .assertion => some .assertion
  | _ => none

abbrev Lines (parse : List UInt8 → Option Value) (blockDiffBytes : Nat → UInt64)
    (s : ReceiveRun) : Prop :=
  Offered (accepts parse blockDiffBytes) (pieces 0x0a s.received) s.handed (dropped s.ended)
    (s.ended = some .closed)

variable {blockDiffBytes : Nat → UInt64}

theorem lines_same (framed : Framed s) (before : Lines parse blockDiffBytes s)
    (running : s.ended = none) (handed : t.handed = s.handed) (received : s.received <+: t.received)
    (fine : ¬ dropped t.ended)
    (closed : t.ended = some .closed → t.handed = pieces 0x0a t.received) :
    Lines parse blockDiffBytes t := by
  have initial : s.handed <+: pieces 0x0a t.received := cut_initial framed.holding.cut received
  unfold Lines
  rw [handed] at closed ⊢
  exact before.more (by simp [running, dropped]) initial fine closed

theorem lines_still (framed : Framed s) (before : Lines parse blockDiffBytes s)
    (running : s.ended = none) (handed : t.handed = s.handed) (received : s.received <+: t.received)
    (still : t.ended = s.ended) : Lines parse blockDiffBytes t := by
  apply lines_same framed before running handed received
  · rw [still, running]
    exact id
  · rw [still, running]
    intro closed
    cases closed

theorem dropped_said {k : Nat} {line : List UInt8} {why : ReceiveEnd}
    (said : verdict parse (blockDiffBytes k) line = .failed ∧ why = .rejected ∨
      verdict parse (blockDiffBytes k) line = .assertion ∧ why = .assertion) :
    accepts parse blockDiffBytes k line = false ∧ dropped (some why) ∧ why ≠ .closed ∧
      endsWith (verdict parse (blockDiffBytes k) line) = some why := by
  rcases said with ⟨failed, rfl⟩ | ⟨asserted, rfl⟩
  · simp [accepts, dropped, endsWith, failed]
  · simp [accepts, dropped, endsWith, asserted]

theorem moved_lines (framed : Framed s) (before : Lines parse blockDiffBytes s)
    (running : s.ended = none) (same : SameStack blockDiffBytes s a)
    (moved : Moved getEpochNumber parse timeouts s a t) : Lines parse blockDiffBytes t := by
  have still : ¬ dropped s.ended := by simp [running, dropped]
  have unclosed : s.ended ≠ some .closed := by simp [running]
  have holding := framed.holding
  cases moved with
  | fatal now again here late =>
      exact lines_same framed before running rfl (List.prefix_refl _) (by simp [dropped]) (by simp)
  | closed a here nothing =>
      refine lines_same framed before running rfl (List.prefix_refl _) (by simp [dropped]) ?_
      intro _
      rw [here] at holding
      exact (holding_whole holding (framed.whole here)).1
  | filled data here full buf datalen =>
      exact lines_same framed before running rfl (List.prefix_append _ _) (by simp [dropped])
        (by simp)
  | received data here got room =>
      exact lines_still framed before running rfl (List.prefix_append _ _) rfl
  | dropped env left msgstart i why here found own said =>
      rw [here] at holding
      have stack : env.blockDiffBytes = blockDiffBytes s.handed.length := same
      rw [stack] at said
      obtain ⟨bad, gone, open', _⟩ := dropped_said said
      exact before.refuse still (holding_initial holding found) bad gone (by simpa using open')
  | consumed env left msgstart i here found own said =>
      rw [here] at holding
      have stack : env.blockDiffBytes = blockDiffBytes s.handed.length := same
      rw [stack] at said
      have fine : accepts parse blockDiffBytes s.handed.length (s.buf.read msgstart (i + 1)) =
          true := by
        have length := verdict_consumed said
        exact decide_eq_true (by rw [said, ← length])
      exact before.accept still (holding_initial holding found) fine still unclosed
  | requested _ _ _ _ _ | waiting _ _ _ _ _ | moved _ _ _ | rxReady _ _ | ppReady _ _ =>
      exact lines_still framed before running rfl (List.prefix_refl _) rfl

def LastVerdict (parse : List UInt8 → Option Value) (blockDiffBytes : Nat → UInt64)
    (s : ReceiveRun) : Prop :=
  dropped s.ended → ∃ before line, s.handed = before ++ [line] ∧
    endsWith (verdict parse (blockDiffBytes before.length) line) = s.ended

theorem moved_lastVerdict (running : s.ended = none) (same : SameStack blockDiffBytes s a)
    (moved : Moved getEpochNumber parse timeouts s a t) : LastVerdict parse blockDiffBytes t := by
  have still : ¬ dropped s.ended := by simp [running, dropped]
  cases moved with
  | dropped env left msgstart i why here found own said =>
      intro _
      have stack : env.blockDiffBytes = blockDiffBytes s.handed.length := same
      rw [stack] at said
      obtain ⟨_, _, _, ends⟩ := dropped_said said
      exact ⟨s.handed, _, rfl, ends⟩
  | fatal _ _ _ _ | closed _ _ _ | filled _ _ _ _ _ => exact False.elim
  | requested _ _ _ _ _ | waiting _ _ _ _ _ | received _ _ _ _ | consumed _ _ _ _ _ _ _ _
  | moved _ _ _ | rxReady _ _ | ppReady _ _ => exact fun ended => absurd ended still

/-- In every run with these bytes on the stack, the messages handed over are the first of
the stream up to one that is not accepted. -/
theorem reachable_lines (reached : (system getEpochNumber parse timeouts).ReachableUnder
    (SameStack blockDiffBytes) s) :
    Lines parse blockDiffBytes s ∧ LastVerdict parse blockDiffBytes s := by
  refine reached.invariant
    (fun s => Lines parse blockDiffBytes s ∧ LastVerdict parse blockDiffBytes s) ?_ ?_
  · rintro s ⟨r, q, timestampMs, buf, _, _, rfl⟩
    exact ⟨offered_nil _ (by simp [new, dropped]) (by simp [new]),
      by simp [LastVerdict, new, dropped]⟩
  · intro s a t earlier before same stepped
    obtain ⟨running, moved⟩ := next_moved stepped
    have framed := reachable_framed earlier.reachable running
    exact ⟨moved_lines framed before.1 running same moved, moved_lastVerdict running same moved⟩

end Framing

end ReceiveRun

end EpicPoold
