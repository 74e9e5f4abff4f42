import EpicPoold.ClientRuns
import EpicPoold.Foundations.LineBuffer

/-! on_socket_read step by step, over the whole life of a client: each read, each line and
each move of the leftover is a step. The parser works in place, so that a line that has
been handed over is left as any bytes. -/

namespace EpicPoold

open Foundations

/-- Between two calls into the client, at the read, or at the search for the next newline
from `lnstart` on. -/
inductive SocketPc where
  | idle
  | recv
  | scan (lnstart : Nat)
  deriving DecidableEq

/-- Why the pool removes the client: the peer is gone, the buffer is full, a line was not
accepted, or on_new_block found the client aborting. -/
inductive SocketEnd where
  | closed
  | overflow
  | rejected
  | aborted
  deriving DecidableEq

/-- A client with all it has received, the lines handed to process_line and its effects. -/
structure SocketRun where
  client : Client
  pc : SocketPc
  ended : Option SocketEnd
  received : List UInt8
  handed : List (List UInt8)
  trace : List Effect

/-- `left` is what a line's bytes are after process_line. -/
inductive SocketAction where
  | call
  | recv (result : Client.ReadResult)
  | line (env : RequestEnv) (left : List UInt8)
  | leftover
  | newBlock (env : RequestEnv)

def Client.ReadResult.got (space : Nat) : Client.ReadResult → List UInt8
  | .bytes data => data.take space
  | .failed _ => []

namespace SocketRun

open Client

def start : SocketPc → Nat
  | .scan lnstart => lnstart
  | _ => 0

def newline (s : SocketRun) (lnstart : Nat) : Option Nat :=
  (s.client.recvBuf.buf.read lnstart s.client.recvBuf.len).findIdx? (· = 0x0a)

def space (s : SocketRun) : Nat := sockBufSize - s.client.recvBuf.len

def recvStep (s : SocketRun) (result : ReadResult) : SocketRun :=
  if s.client.aborting then { s with pc := .idle }
  else
    let (ret, c) := netRecv s.client result
    let s := { s with client := c, received := s.received ++ result.got s.space }
    if ret ≤ 0 then
      if ret ≠ 0 then { s with pc := .idle } else { s with ended := some .closed }
    else if sockBufSize ≤ c.recvBuf.len then
      { s with client := c.hardAbort, ended := some .overflow }
    else { s with pc := .scan 0 }

section System

variable (maxCallsPerMin : Nat) (parse : List UInt8 → Option Value)

def lineStep (s : SocketRun) (lnstart : Nat) (env : RequestEnv) (left : List UInt8) :
    Option SocketRun :=
  match s.newline lnstart with
  | none => none
  | some i =>
      if left.length = i + 1 then
        let line := s.client.recvBuf.buf.read lnstart (i + 1)
        match processLine maxCallsPerMin parse env s.client line with
        | .error _ => none
        | .ok (fine, c, effects) =>
            let buf := c.recvBuf.buf.write lnstart left
            let s := { s with handed := s.handed ++ [line], trace := s.trace ++ effects }
            if !fine then
              some { s with
                client := { c with recvBuf := { c.recvBuf with buf := buf } }.hardAbort
                ended := some .rejected }
            else
              some { s with
                client := { c with recvBuf := ⟨c.recvBuf.len - (i + 1), buf⟩ }
                pc := .scan (lnstart + (i + 1)) }
      else none

def step (s : SocketRun) (a : SocketAction) : Option SocketRun :=
  match s.pc, a with
  | .idle, .call => some { s with pc := .recv }
  | .idle, .newBlock env =>
      let (keep, c, effects) := onNewBlock env s.client
      some { s with
        client := c
        trace := s.trace ++ effects
        ended := if keep then none else some .aborted }
  | .recv, .recv result => some (s.recvStep result)
  | .scan lnstart, .line env left => s.lineStep maxCallsPerMin parse lnstart env left
  | .scan lnstart, .leftover =>
      if s.newline lnstart = none then
        some { s with client := moveLeftover s.client lnstart, pc := .recv }
      else none
  | _, _ => none

def next (s : SocketRun) (a : SocketAction) : Option SocketRun :=
  if s.ended.isSome then none else s.step maxCallsPerMin parse a

def new (c : Client) : SocketRun := ⟨c, .idle, none, [], [], []⟩

def system : System SocketRun SocketAction where
  start s := ∃ fd extraNonce stale, s = new (construct fd extraNonce stale)
  next := next maxCallsPerMin parse

end System

variable {maxCallsPerMin : Nat} {parse : List UInt8 → Option Value}

inductive Moved (maxCallsPerMin : Nat) (parse : List UInt8 → Option Value) (s : SocketRun) :
    SocketAction → SocketRun → Prop
  | called (idle : s.pc = .idle) : Moved maxCallsPerMin parse s .call { s with pc := .recv }
  | newBlock (env : RequestEnv) (keep : Bool) (c : Client) (effects : List Effect)
      (idle : s.pc = .idle) (ran : onNewBlock env s.client = (keep, c, effects)) :
      Moved maxCallsPerMin parse s (.newBlock env)
        { s with
          client := c
          trace := s.trace ++ effects
          ended := if keep then none else some .aborted }
  | deaf (result : ReadResult) (here : s.pc = .recv) (aborting : s.client.aborting = true) :
      Moved maxCallsPerMin parse s (.recv result) { s with pc := .idle }
  | drained (here : s.pc = .recv) (alive : s.client.aborting = false) :
      Moved maxCallsPerMin parse s (.recv (.failed true)) { s with pc := .idle }
  | closed (result : ReadResult) (here : s.pc = .recv) (alive : s.client.aborting = false)
      (nothing : result.got s.space = []) :
      Moved maxCallsPerMin parse s (.recv result) { s with ended := some .closed }
  | filled (data : List UInt8) (here : s.pc = .recv) (alive : s.client.aborting = false)
      (got : data.take s.space ≠ []) (full : s.space ≤ data.length) :
      Moved maxCallsPerMin parse s (.recv (.bytes data))
        { s with
          client := (netRecv s.client (.bytes data)).2.hardAbort
          received := s.received ++ data.take s.space
          ended := some .overflow }
  | received (data : List UInt8) (here : s.pc = .recv) (alive : s.client.aborting = false)
      (got : data ≠ []) (room : s.client.recvBuf.len + data.length < sockBufSize) :
      Moved maxCallsPerMin parse s (.recv (.bytes data))
        { s with
          client :=
            { s.client with
              recvBuf := ⟨s.client.recvBuf.len + data.length,
                s.client.recvBuf.buf.write s.client.recvBuf.len data⟩ }
          received := s.received ++ data
          pc := .scan 0 }
  | rejected (env : RequestEnv) (left : List UInt8) (lnstart i : Nat) (c : Client)
      (effects : List Effect) (here : s.pc = .scan lnstart) (found : s.newline lnstart = some i)
      (own : left.length = i + 1)
      (ran : processLine maxCallsPerMin parse env s.client
        (s.client.recvBuf.buf.read lnstart (i + 1)) = .ok (false, c, effects)) :
      Moved maxCallsPerMin parse s (.line env left)
        { s with
          client :=
            { c with
              recvBuf := { c.recvBuf with buf := c.recvBuf.buf.write lnstart left } }.hardAbort
          handed := s.handed ++ [s.client.recvBuf.buf.read lnstart (i + 1)]
          trace := s.trace ++ effects
          ended := some .rejected }
  | accepted (env : RequestEnv) (left : List UInt8) (lnstart i : Nat) (c : Client)
      (effects : List Effect) (here : s.pc = .scan lnstart) (found : s.newline lnstart = some i)
      (own : left.length = i + 1)
      (ran : processLine maxCallsPerMin parse env s.client
        (s.client.recvBuf.buf.read lnstart (i + 1)) = .ok (true, c, effects)) :
      Moved maxCallsPerMin parse s (.line env left)
        { s with
          client :=
            { c with
              recvBuf := ⟨c.recvBuf.len - (i + 1), c.recvBuf.buf.write lnstart left⟩ }
          handed := s.handed ++ [s.client.recvBuf.buf.read lnstart (i + 1)]
          trace := s.trace ++ effects
          pc := .scan (lnstart + (i + 1)) }
  | moved (lnstart : Nat) (here : s.pc = .scan lnstart) (none : s.newline lnstart = none) :
      Moved maxCallsPerMin parse s .leftover
        { s with client := moveLeftover s.client lnstart, pc := .recv }

section Inversion

variable {s t : SocketRun}

theorem write_nil {size : Nat} (buf : Buffer size) (offset : Nat) : buf.write offset [] = buf := by
  by_cases fits : offset ≤ size
  · exact Buffer.write_read buf offset 0 (by omega)
  · simp [Buffer.write, fits]

theorem recvBytes_moved (data : List UInt8) (here : s.pc = .recv)
    (alive : s.client.aborting = false) :
    Moved maxCallsPerMin parse s (.recv (.bytes data)) (s.recvStep (.bytes data)) := by
  by_cases nothing : data.take s.space = []
  · have same : s.recvStep (.bytes data) = { s with ended := some .closed } := by
      have got : data.take (sockBufSize - s.client.recvBuf.len) = [] := nothing
      have unread : netRecv s.client (.bytes data) = (0, s.client) := by
        rw [netRecv]
        simp only [got, List.length_nil, write_nil]
        rfl
      simp [recvStep, alive, unread, ReadResult.got, nothing]
    rw [same]
    exact .closed _ here alive nothing
  · have some : 0 < (data.take s.space).length := List.length_pos_iff.mpr nothing
    have space : s.space = sockBufSize - s.client.recvBuf.len := rfl
    by_cases full : s.space ≤ data.length
    · have same : s.recvStep (.bytes data) =
          { s with
            client := (netRecv s.client (.bytes data)).2.hardAbort
            received := s.received ++ data.take s.space
            ended := Option.some .overflow } := by
        have size : (data.take s.space).length = s.space := by
          rw [List.length_take, Nat.min_eq_left full]
        have reached : sockBufSize ≤ s.client.recvBuf.len + s.space := by omega
        have positive : ¬ ((s.space : Nat) : Int) ≤ 0 := by omega
        simp only [recvStep, alive, netRecv, ReadResult.got, ← space, size, positive, reached,
          Bool.false_eq_true, if_false, if_true]
      rw [same]
      exact .filled data here alive nothing full
    · have whole : data.take s.space = data := List.take_of_length_le (by omega)
      rw [whole] at nothing some
      have room : s.client.recvBuf.len + data.length < sockBufSize := by omega
      have positive : ¬ ((data.length : Nat) : Int) ≤ 0 := by omega
      have same : s.recvStep (.bytes data) =
          { s with
            client :=
              { s.client with
                recvBuf := ⟨s.client.recvBuf.len + data.length,
                  s.client.recvBuf.buf.write s.client.recvBuf.len data⟩ }
            received := s.received ++ data
            pc := .scan 0 } := by
        simp only [recvStep, alive, netRecv, ReadResult.got, ← space, whole, positive,
          Nat.not_le.mpr room, Bool.false_eq_true, if_false]
      rw [same]
      exact .received data here alive nothing room

theorem recvStep_moved (result : ReadResult) (here : s.pc = .recv) :
    Moved maxCallsPerMin parse s (.recv result) (s.recvStep result) := by
  cases aborting : s.client.aborting with
  | true =>
      have same : s.recvStep result = { s with pc := .idle } := by
        rw [recvStep, if_pos aborting]
      rw [same]
      exact .deaf result here aborting
  | false =>
      cases result with
      | bytes data => exact recvBytes_moved data here aborting
      | failed wouldBlock =>
          cases wouldBlock with
          | true =>
              have same : s.recvStep (.failed true) = { s with pc := .idle } := by
                simp [recvStep, aborting, netRecv, ReadResult.got]
              rw [same]
              exact .drained here aborting
          | false =>
              have same : s.recvStep (.failed false) = { s with ended := some .closed } := by
                simp [recvStep, aborting, netRecv, ReadResult.got]
              rw [same]
              exact .closed _ here aborting rfl

theorem lineStep_moved {lnstart : Nat} {env : RequestEnv} {left : List UInt8}
    (here : s.pc = .scan lnstart)
    (stepped : s.lineStep maxCallsPerMin parse lnstart env left = some t) :
    Moved maxCallsPerMin parse s (.line env left) t := by
  rw [lineStep] at stepped
  split at stepped
  · cases stepped
  · rename_i i found
    split at stepped
    · rename_i own
      simp only at stepped
      split at stepped
      · cases stepped
      · rename_i fine c effects ran
        cases fine with
        | false =>
            cases stepped
            exact .rejected env left lnstart i c effects here found own ran
        | true =>
            cases stepped
            exact .accepted env left lnstart i c effects here found own ran
    · cases stepped

theorem step_moved {a : SocketAction} (stepped : s.step maxCallsPerMin parse a = some t) :
    Moved maxCallsPerMin parse s a t := by
  rcases here : s.pc with _ | _ | lnstart
  · cases a with
    | call =>
        simp only [step, here] at stepped
        cases stepped
        exact .called here
    | newBlock env =>
        rcases ran : onNewBlock env s.client with ⟨keep, c, effects⟩
        simp only [step, here, ran] at stepped
        cases stepped
        have moved : Moved maxCallsPerMin parse s (.newBlock env) _ :=
          .newBlock env keep c effects here ran
        rwa [here] at moved
    | recv _ | line _ _ | leftover =>
        simp only [step, here] at stepped
        cases stepped
  · cases a with
    | recv result =>
        simp only [step, here] at stepped
        cases stepped
        exact recvStep_moved result here
    | call | newBlock _ | line _ _ | leftover =>
        simp only [step, here] at stepped
        cases stepped
  · cases a with
    | line env left =>
        simp only [step, here] at stepped
        exact lineStep_moved here stepped
    | leftover =>
        simp only [step, here] at stepped
        split at stepped
        · rename_i none
          cases stepped
          exact .moved lnstart here none
        · cases stepped
    | call | newBlock _ | recv _ =>
        simp only [step, here] at stepped
        cases stepped

theorem next_moved {a : SocketAction} (stepped : next maxCallsPerMin parse s a = some t) :
    s.ended = none ∧ Moved maxCallsPerMin parse s a t := by
  rw [next] at stepped
  split at stepped
  · cases stepped
  · rename_i running
    exact ⟨by simpa using running, step_moved stepped⟩

end Inversion

section Framing

def Reading (s : SocketRun) : Prop := s.pc = .idle ∨ s.pc = .recv

/-- The buffer of a client that is not given up holds what comes after the lines handed
over. -/
abbrev Framed (s : SocketRun) : Prop :=
  Foundations.Framed 0x0a s.client.recvBuf.buf (start s.pc) s.client.recvBuf.len s.received
    s.handed s.Reading

/-- The lines handed over are the first of the stream, whatever became of the client. -/
abbrev Lines (parse : List UInt8 → Option Value) (s : SocketRun) : Prop :=
  Offered (fun _ => accepts parse) (pieces 0x0a s.received) s.handed (s.ended = some .rejected)
    (s.ended = some .closed)

variable {s t : SocketRun} {a : SocketAction}

theorem processLine_recvBuf {env : RequestEnv} {c after : Client} {line : List UInt8}
    {fine : Bool} {effects : List Effect}
    (ran : processLine maxCallsPerMin parse env c line = .ok (fine, after, effects)) :
    after.recvBuf = c.recvBuf := by
  have same := congrArg Io.recvBuf (processLine_io ran).2
  split at same
  · exact same
  · exact same

theorem onNewBlock_recvBuf {env : RequestEnv} {c after : Client} {keep : Bool}
    {effects : List Effect} (ran : onNewBlock env c = (keep, after, effects)) :
    after.recvBuf = c.recvBuf := by
  have same := congrArg Io.recvBuf (io_onNewBlock env c)
  rw [ran] at same
  split at same
  · exact same
  · exact same

theorem moveLeftover_recvBuf (c : Client) (lnstart : Nat) :
    (moveLeftover c lnstart).recvBuf =
      ⟨c.recvBuf.len, if 0 < c.recvBuf.len ∧ lnstart ≠ 0 then
        c.recvBuf.buf.write 0 (c.recvBuf.buf.read lnstart c.recvBuf.len) else c.recvBuf.buf⟩ := by
  rw [moveLeftover]
  split
  · rfl
  · rfl

theorem moved_framed (before : Framed s) (running : t.ended = none)
    (moved : Moved maxCallsPerMin parse s a t) : Framed t := by
  have holding := before.holding
  cases moved with
  | called idle =>
      rw [idle] at holding
      exact ⟨holding, fun _ => before.whole (.inl idle)⟩
  | newBlock env keep c effects idle ran =>
      have same := onNewBlock_recvBuf ran
      unfold Framed
      simp only [same]
      exact ⟨holding, fun _ => before.whole (.inl idle)⟩
  | deaf result here aborting =>
      rw [here] at holding
      exact ⟨holding, fun _ => before.whole (.inr here)⟩
  | drained here alive =>
      rw [here] at holding
      exact ⟨holding, fun _ => before.whole (.inr here)⟩
  | closed result here alive nothing => cases running
  | filled data here alive got full => cases running
  | received data here alive got room =>
      rw [here] at holding
      exact ⟨holding_receive holding data room, by simp [Reading]⟩
  | rejected env left lnstart i c effects here found own ran => cases running
  | accepted env left lnstart i c effects here found own ran =>
      rw [here] at holding
      unfold Framed
      simp only [processLine_recvBuf ran]
      exact ⟨holding_take holding found left own, by simp [Reading]⟩
  | moved lnstart here none =>
      rw [here] at holding
      unfold Framed
      simp only [moveLeftover_recvBuf]
      exact framed_move holding none _

theorem lines_same (framed : Framed s) (before : Lines parse s) (running : s.ended = none)
    (handed : t.handed = s.handed) (received : s.received <+: t.received)
    (fine : t.ended ≠ some .rejected)
    (closed : t.ended = some .closed → t.handed = pieces 0x0a t.received) : Lines parse t := by
  have initial : s.handed <+: pieces 0x0a t.received := cut_initial framed.holding.cut received
  unfold Lines
  rw [handed] at closed ⊢
  exact before.more (by simp [running]) initial fine closed

theorem moved_lines (framed : Framed s) (before : Lines parse s) (running : s.ended = none)
    (moved : Moved maxCallsPerMin parse s a t) : Lines parse t := by
  have still : s.ended ≠ some .rejected := by simp [running]
  have unclosed : s.ended ≠ some .closed := by simp [running]
  have holding := framed.holding
  cases moved with
  | called idle | deaf result here aborting | drained here alive | moved lnstart here none =>
      exact lines_same framed before running rfl (List.prefix_refl _) still
        (fun closed => absurd closed unclosed)
  | newBlock env keep c effects idle ran =>
      refine lines_same framed before running rfl (List.prefix_refl _) ?_ ?_
      · cases keep <;> simp
      · cases keep <;> simp
  | closed result here alive nothing =>
      refine lines_same framed before running rfl (List.prefix_refl _) (by simp) ?_
      intro _
      rw [here] at holding
      exact (holding_whole holding (framed.whole (.inr here))).1
  | filled data here alive got full =>
      exact lines_same framed before running rfl (List.prefix_append _ _) (by simp) (by simp)
  | received data here alive got room =>
      exact lines_same framed before running rfl (List.prefix_append _ _) still
        (fun closed => absurd closed unclosed)
  | rejected env left lnstart i c effects here found own ran =>
      rw [here] at holding
      exact before.refuse still (holding_initial holding found) (processLine_io ran).1.symm rfl
        (by simp)
  | accepted env left lnstart i c effects here found own ran =>
      rw [here] at holding
      exact before.accept still (holding_initial holding found) (processLine_io ran).1.symm still
        unclosed

/-- In every run the lines handed over are the first of the stream, and the buffer holds
what comes after them. -/
theorem reachable_framed (reached : (system maxCallsPerMin parse).Reachable s) :
    (s.ended = none → Framed s) ∧ Lines parse s := by
  refine reached.invariant (fun s => (s.ended = none → Framed s) ∧ Lines parse s) ?_ ?_
  · rintro s ⟨fd, extraNonce, stale, rfl⟩
    exact ⟨fun _ => framed_empty _ (by decide) _, offered_nil _ (by simp [new]) (by simp [new])⟩
  · intro s a t _ before stepped
    obtain ⟨running, moved⟩ := next_moved stepped
    have framed := before.1 running
    exact ⟨fun still => moved_framed framed still moved,
      moved_lines framed before.2 running moved⟩

end Framing

section Calls

structure Called (maxCallsPerMin : Nat) (parse : List UInt8 → Option Value) (s : SocketRun)
    (keep : Bool) (after : Client) (effects : List Effect) (t : SocketRun) : Prop where
  leads : (system maxCallsPerMin parse).Leads s t
  client : t.client = after
  trace : t.trace = s.trace ++ effects
  kept : keep = true → t.pc = .idle ∧ t.ended = none
  gone : keep = false → t.ended.isSome = true

variable {s : SocketRun}

theorem leads_next {a : SocketAction} {t : SocketRun}
    (stepped : next maxCallsPerMin parse s a = some t) :
    (system maxCallsPerMin parse).Leads s t :=
  Relation.ReflTransGen.single ⟨a, stepped⟩

theorem next_line {lnstart i : Nat} {env : RequestEnv} {fine : Bool} {c : Client}
    {effects : List Effect} (running : s.ended = none) (here : s.pc = .scan lnstart)
    (found : s.newline lnstart = some i)
    (ran : processLine maxCallsPerMin parse env s.client
      (s.client.recvBuf.buf.read lnstart (i + 1)) = .ok (fine, c, effects)) :
    ∃ t, next maxCallsPerMin parse s
        (.line env (s.client.recvBuf.buf.read lnstart (i + 1))) = some t ∧
      t.trace = s.trace ++ effects ∧
      if fine then
        t.client = { c with recvBuf := { c.recvBuf with len := c.recvBuf.len - (i + 1) } } ∧
          t.pc = .scan (lnstart + (i + 1)) ∧ t.ended = none
      else t.client = c.hardAbort ∧ t.ended = some .rejected := by
  have inside := (ended_of_findIdx found).1
  have fits : lnstart + (i + 1) ≤ sockBufSize := by
    rw [Buffer.read, List.length_take, List.length_drop, Buffer.length_eq] at inside
    omega
  have length := Buffer.read_length s.client.recvBuf.buf lnstart (i + 1) fits
  have same : c.recvBuf.buf.write lnstart (s.client.recvBuf.buf.read lnstart (i + 1)) =
      c.recvBuf.buf := by
    rw [processLine_recvBuf ran]
    exact Buffer.write_read _ _ _ fits
  simp only [next, running, step, here, lineStep, found, length, if_true, ran, same]
  cases fine with
  | true => exact ⟨_, rfl, rfl, rfl, rfl, rfl⟩
  | false => exact ⟨_, rfl, rfl, rfl, rfl⟩

theorem lineTurns_leads {request : Nat → RequestEnv} {turns handled lnstart : Nat} {c : Client}
    {fine : Bool} {rest : Nat} {after : Client} {effects : List Effect} {total : Nat}
    (ran : LineTurns maxCallsPerMin parse request turns handled lnstart c fine rest after effects
      total) : ∀ s : SocketRun, s.ended = none → s.pc = .scan lnstart → s.client = c →
      c.recvBuf.len ≤ turns →
      ∃ t, (system maxCallsPerMin parse).Leads s t ∧ t.trace = s.trace ++ effects ∧
        if fine then t.client = after ∧ t.pc = .scan rest ∧ t.ended = none ∧ t.newline rest = none
        else t.client = after.hardAbort ∧ t.ended = some .rejected := by
  induction ran with
  | out handled lnstart c =>
      intro s running here same few
      have empty : s.client.recvBuf.len = 0 := by
        rw [same]
        exact Nat.le_zero.mp few
      refine ⟨s, .refl, by simp, same, here, running, ?_⟩
      rw [newline, empty, Buffer.read, List.take_zero]
      rfl
  | done turns handled lnstart c none =>
      intro s running here same few
      rw [← same] at none
      exact ⟨s, .refl, by simp, same, here, running, none⟩
  | rejected turns handled lnstart i c after effects found ran =>
      intro s running here same few
      rw [← same] at found ran
      obtain ⟨t, stepped, trace, left⟩ := next_line running here found ran
      exact ⟨t, leads_next stepped, trace, left⟩
  | accepted turns handled lnstart i c middle first fine rest after more total found ran _ ih =>
      intro s running here same few
      have size : middle.recvBuf.len = c.recvBuf.len :=
        congrArg SockBuffer.len (processLine_recvBuf ran)
      have fewer : middle.recvBuf.len - (i + 1) ≤ turns := by
        omega
      rw [← same] at found ran
      obtain ⟨t, stepped, trace, client, there, alive⟩ := next_line running here found ran
      obtain ⟨u, leads, later, ended⟩ := ih t alive there client fewer
      refine ⟨u, (leads_next stepped).trans leads, ?_, ended⟩
      rw [later, trace, List.append_assoc]

def taken (s : SocketRun) (result : ReadResult) : SocketRun :=
  { s with
    client := (netRecv s.client result).2
    received := s.received ++ result.got s.space }

theorem next_recv {result : ReadResult} (running : s.ended = none) (here : s.pc = .recv)
    (alive : s.client.aborting = false) :
    next maxCallsPerMin parse s (.recv result) = some (
      if (netRecv s.client result).1 ≤ 0 then
        if (netRecv s.client result).1 ≠ 0 then { s.taken result with pc := .idle }
        else { s.taken result with ended := some .closed }
      else if sockBufSize ≤ (netRecv s.client result).2.recvBuf.len then
        { s.taken result with
          client := (netRecv s.client result).2.hardAbort, ended := some .overflow }
      else { s.taken result with pc := .scan 0 }) := by
  simp [next, running, step, here, recvStep, alive, taken]

/-- What on_socket_read does in one call is a run of its steps. -/
theorem reads_called {request : Nat → RequestEnv} {reads : List ReadResult} {handled : Nat}
    {c after : Client} {keep : Bool} {effects : List Effect}
    (ran : Reads maxCallsPerMin parse request reads handled c keep after effects) :
    ∀ s : SocketRun, s.ended = none → s.pc = .recv → s.client = c →
      ∃ t, Called maxCallsPerMin parse s keep after effects t := by
  induction ran with
  | deaf reads handled c aborting =>
      intro s running here same
      rw [← same] at aborting ⊢
      have waits : next maxCallsPerMin parse s (.recv (.failed true)) =
          some { s with pc := .idle } := by
        simp [next, running, step, here, recvStep, aborting]
      exact ⟨_, leads_next waits, rfl, by simp, fun _ => ⟨rfl, running⟩, by simp⟩
  | drained handled c alive =>
      intro s running here same
      rw [← same] at alive ⊢
      have waits : next maxCallsPerMin parse s (.recv (.failed true)) =
          some { s with pc := .idle } := by
        simp [next, running, step, here, recvStep, alive, netRecv, ReadResult.got]
      exact ⟨_, leads_next waits, rfl, by simp, fun _ => ⟨rfl, running⟩, by simp⟩
  | waits result rest handled c alive nothing =>
      intro s running here same
      rw [← same] at alive nothing ⊢
      have stepped := @next_recv maxCallsPerMin parse s result running here alive
      rw [if_pos (by omega), if_pos (by omega)] at stepped
      exact ⟨_, leads_next stepped, rfl, (List.append_nil _).symm, fun _ => ⟨rfl, running⟩, by simp⟩
  | closed result rest handled c alive nothing =>
      intro s running here same
      rw [← same] at alive nothing ⊢
      have stepped := @next_recv maxCallsPerMin parse s result running here alive
      rw [if_pos (by omega), if_neg (by simpa using nothing)] at stepped
      exact ⟨_, leads_next stepped, rfl, (List.append_nil _).symm, by simp, by simp⟩
  | filled result rest handled c alive got full =>
      intro s running here same
      rw [← same] at alive got full ⊢
      have stepped := @next_recv maxCallsPerMin parse s result running here alive
      rw [if_neg (by omega), if_pos full] at stepped
      exact ⟨_, leads_next stepped, rfl, (List.append_nil _).symm, by simp, by simp⟩
  | rejected result rest handled c lnstart middle effects total alive got room lines =>
      intro s running here same
      rw [← same] at alive got room lines
      have stepped := @next_recv maxCallsPerMin parse s result running here alive
      rw [if_neg (by omega), if_neg (by omega)] at stepped
      obtain ⟨t, leads, trace, client, ended⟩ :=
        lineTurns_leads lines { s.taken result with pc := .scan 0 } running rfl rfl le_rfl
      exact ⟨t, (leads_next stepped).trans leads, client, trace, by simp, by simp [ended]⟩
  | goesOn result rest handled c lnstart middle first total keep after more alive got room lines
      _ ih =>
      intro s running here same
      rw [← same] at alive got room lines
      have stepped := @next_recv maxCallsPerMin parse s result running here alive
      rw [if_neg (by omega), if_neg (by omega)] at stepped
      obtain ⟨t, leads, trace, client, there, living, none⟩ :=
        lineTurns_leads lines { s.taken result with pc := .scan 0 } running rfl rfl le_rfl
      have moved : next maxCallsPerMin parse t .leftover =
          Option.some { t with client := moveLeftover t.client lnstart, pc := .recv } := by
        simp [next, living, step, there, none]
      obtain ⟨u, called⟩ := ih { t with
        client := moveLeftover t.client lnstart, pc := .recv } living rfl (by rw [client])
      have read := ((leads_next stepped).trans leads).trans (leads_next moved)
      refine ⟨u, read.trans called.leads, called.client, ?_, called.kept, called.gone⟩
      rw [called.trace, ← List.append_assoc]
      exact congrArg (· ++ more) trace

/-- on_socket_read, which the pool calls, is a run from one state between calls to the
next. -/
theorem onSocketRead_called {env : SocketEnv} {keep : Bool} {after : Client}
    {effects : List Effect} (running : s.ended = none) (here : s.pc = .idle)
    (ran : onSocketRead maxCallsPerMin parse env s.client = .ok (keep, after, effects)) :
    ∃ t, Called maxCallsPerMin parse s keep after effects t := by
  have stepped : next maxCallsPerMin parse s .call = some { s with pc := .recv } := by
    simp [next, running, step, here]
  obtain ⟨t, called⟩ :=
    reads_called (socketLoop_reads _ _ _ _ _ _ ran) { s with pc := .recv } running rfl rfl
  exact ⟨t, (leads_next stepped).trans called.leads, called.client, called.trace, called.kept,
    called.gone⟩

end Calls

end SocketRun

end EpicPoold
