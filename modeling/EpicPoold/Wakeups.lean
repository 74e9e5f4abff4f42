import EpicPoold.EpollBatch
import EpicPoold.Daemon

/-! Edge-triggered epoll: the kernel reports a descriptor once for what has arrived, so that
whoever is reported must be read dry. A pool's thread never goes to sleep over something
that it was told of. -/

namespace EpicPoold

open Foundations

namespace Client

def dry : List ReadResult → Bool
  | [] => true
  | .failed wouldBlock :: _ => wouldBlock
  | .bytes _ :: rest => dry rest

/-- on_socket_read goes on with a client that it has read dry, or that is aborting. -/
theorem reads_dry {maxCallsPerMin : Nat} {parse : List UInt8 → Option Value}
    {request : Nat → RequestEnv} {reads : List ReadResult} {handled : Nat} {c after : Client}
    {keep : Bool} {effects : List Effect}
    (ran : Reads maxCallsPerMin parse request reads handled c keep after effects) :
    keep = true → after.aborting = true ∨ dry reads = true := by
  induction ran with
  | deaf reads handled c aborting => exact fun _ => .inl aborting
  | drained handled c alive => exact fun _ => .inr rfl
  | waits result rest handled c alive nothing =>
      intro _
      cases result with
      | bytes data => exact absurd nothing (not_lt.mpr (Int.natCast_nonneg _))
      | failed wouldBlock =>
          cases wouldBlock with
          | true => exact .inr rfl
          | false => exact absurd nothing (lt_irrefl 0)
  | closed | filled | rejected => exact fun impossible => by cases impossible
  | goesOn result rest handled c lnstart middle first total keep after more alive got room lines
      later ih =>
      intro kept
      refine (ih kept).imp_right ?_
      intro rested
      cases result with
      | bytes data => exact rested
      | failed wouldBlock =>
          cases wouldBlock with
          | true => rfl
          | false => exact absurd got (lt_irrefl 0)

/-- A client that the pool keeps and that goes on reading was read dry. -/
theorem kept_dry {maxCallsPerMin : Nat} {parse : List UInt8 → Option Value} {env : SocketEnv}
    {c after : Client}
    (ran : (cliType maxCallsPerMin parse).onSocketRead env c = (true, after))
    (alive : after.aborting = false) : dry env.reads = true := by
  obtain ⟨effects, called⟩ := cliType_onSocketRead maxCallsPerMin parse env c
  rw [ran] at called
  rcases reads_dry (socketLoop_reads env.reads 0 c true after
    effects called) rfl with aborting | rested
  · rw [aborting] at alive
    cases alive
  · exact rested

end Client

/-- A pool with what the kernel knows of its descriptors: `unread` are the clients whose
sockets hold data, or whose end of stream was not read, and `edge` the descriptors that
epoll_wait has still to report. -/
structure Polled (S : Setting) (n : Nat) where
  pool : ClientPool S.cliType n
  unread : Fin n → Bool
  edge : Source n → Bool

/-- The listener or the node thread counts or posts, something arrives for a client, or the
pool's thread takes a step. `arrived` is whether there is already something to read from a
socket that it registers. -/
inductive PolledAction (S : Setting) (n : Nat) where
  | count
  | post (m : PipeMsg)
  | arrive (idx : Fin n)
  | thread (a : PoolAction S.cliType n) (arrived : Bool)

namespace Polled

variable {S : Setting} {n : Nat}

/-- The step reads a socket dry: no read of its call is left out, and the client goes on. -/
def readsDry (s : Polled S n) (a : PoolAction S.cliType n) (q : ClientPool S.cliType n)
    (i : Fin n) : Bool :=
  match s.pool.pc, a with
  | .events (.client idx mev _ :: _), .read (env : Client.SocketEnv) =>
      idx == i && mev &&& epollIn != 0 && Client.dry env.reads &&
        (q.clients idx).any (fun c => !Client.aborting c.cli)
  | _, _ => false

/-- The step is an epoll_wait that returns the descriptor. -/
def collects (s : Polled S n) (a : PoolAction S.cliType n) (src : Source n) : Bool :=
  match s.pool.pc, a with
  | .wait, .collected batch => batch.any (fun e => e.1 == src)
  | _, _ => false

def registers (s : Polled S n) (q : ClientPool S.cliType n) (i : Fin n) : Bool :=
  (s.pool.clients i).isNone && (q.clients i).isSome

def afterThread (s : Polled S n) (a : PoolAction S.cliType n) (arrived : Bool)
    (q : ClientPool S.cliType n) : Polled S n where
  pool := q
  unread i := if s.registers q i then arrived else s.unread i && !s.readsDry a q i
  edge
    | .pipe => s.edge .pipe && !s.collects a .pipe
    | .client i =>
        if s.registers q i then arrived else s.edge (.client i) && !s.collects a (.client i)

def next (s : Polled S n) : PolledAction S n → Option (Polled S n)
  | .count => some { s with pool := s.pool.count }
  | .post m =>
      some { s with pool := s.pool.post m, edge := Function.update s.edge .pipe true }
  | .arrive idx =>
      some { s with
        unread := Function.update s.unread idx true
        edge := Function.update s.edge (.client idx) true }
  | .thread a arrived => (s.pool.step a).map (s.afterThread a arrived)

def start (S : Setting) (n : Nat) : Polled S n where
  pool := .new S.cliType n
  unread _ := false
  edge _ := false

def system (S : Setting) (n : Nat) : System (Polled S n) (PolledAction S n) where
  start s := s = start S n
  next := next

def Waiting (s : Polled S n) : Source n → Prop
  | .pipe => s.pool.pipe ≠ []
  | .client i =>
      ∃ c, s.pool.clients i = some c ∧ Client.aborting c.cli = false ∧ s.unread i = true

def Reported (todo : List (PoolEvent n)) (src : Source n) : Prop :=
  src ∈ todo.map ClientPool.source

def OwedAfter : Return n → Source n → Prop
  | .events todo, src => Reported todo src
  | .pipe todo, src => src = .pipe ∨ Reported todo src
  | .block _ todo, src => src = .pipe ∨ Reported todo src

/-- The thread is going to read this descriptor dry, or to remove the client; a thread that
has crashed owes nothing any more. -/
def Owed : PoolPc n → Source n → Prop
  | .events todo, src => Reported todo src
  | .removing idx ret, src => src = .client idx ∨ OwedAfter ret src
  | .decrement ret, src => OwedAfter ret src
  | .pipe todo, src => src = .pipe ∨ Reported todo src
  | .message _ todo, src => src = .pipe ∨ Reported todo src
  | .block _ todo, src => src = .pipe ∨ Reported todo src
  | .crashed _, _ => True
  | _, _ => False

theorem owed_ret (ret : Return n) (src : Source n) : Owed ret.pc src = OwedAfter ret src := by
  cases ret with
  | events | pipe | block => rfl

theorem reported_cons (e : PoolEvent n) (todo : List (PoolEvent n)) (src : Source n) :
    Reported (e :: todo) src ↔ src = ClientPool.source e ∨ Reported todo src :=
  List.mem_cons

/-- A descriptor with something to read is reported by the next epoll_wait, or the thread is
on its way to it. -/
def Watched (s : Polled S n) : Prop := ∀ src, s.Waiting src → s.edge src = true ∨ Owed s.pool.pc src

section Steps

variable {s : Polled S n} {a : PoolAction S.cliType n} {q : ClientPool S.cliType n}

theorem read_alive {env : S.cliType.ReadEnv} {c after : Client} {keep : Bool}
    (ran : S.cliType.onSocketRead env c = (keep, after)) (alive : after.aborting = false) :
    c.aborting = false := by
  by_contra aborting
  have stays : S.cliType.onSocketRead env c = (true, c) :=
    Client.onSocketRead_aborting S.maxCallsPerMin S.parse env (by simpa using aborting)
  rw [ran] at stays
  cases stays
  exact aborting alive

theorem block_alive {env : S.cliType.BlockEnv} {c after : Client} {keep : Bool}
    (ran : S.cliType.onNewBlock env c = (keep, after)) (alive : after.aborting = false) :
    c.aborting = false := by
  by_contra aborting
  have stays : S.cliType.onNewBlock env c = (false, c) := by
    change ((Client.onNewBlock env c).1, (Client.onNewBlock env c).2.1) = (false, c)
    rw [Client.onNewBlock_aborting env c (by simpa using aborting)]
  rw [ran] at stays
  cases stays
  exact aborting alive

theorem moved_pipe (moved : ClientPool.Moved s.pool a q) (later : q.pipe ≠ []) :
    s.pool.pipe ≠ [] := by
  cases moved with
  | popped _ _ m rest here front =>
      rw [front]
      exact List.cons_ne_nil m rest
  | interrupted | collected | batchDone | pipeEvent | nullRead | readKept | readEnded | hangUp
  | alreadyGone | removed | decremented | pipeEmpty | overflow | refused | added | newBlock
  | blockDone | blockKept | blockEnded | again | leave | finished => exact later

theorem touch_alive {p : ClientPool S.cliType n} {i idx : Fin n} {b c : Placed S.cliType}
    {cli : Client} (earlier : p.clients idx = some b)
    (calls : cli.aborting = false → Client.aborting b.cli = false)
    (there : p.touch idx b cli i = some c) (alive : Client.aborting c.cli = false) :
    ∃ d, p.clients i = some d ∧ Client.aborting d.cli = false := by
  change p.clients.put idx ⟨b.serial, cli⟩ i = some c at there
  by_cases own : i = idx
  · subst own
    rw [Slots.put_same] at there
    cases there
    exact ⟨b, earlier, calls alive⟩
  · rw [Slots.put_other _ _ own] at there
    exact ⟨c, there, alive⟩

/-- No client comes back from aborting. -/
theorem moved_client (moved : ClientPool.Moved s.pool a q) {i : Fin n} {c : Placed S.cliType}
    (there : q.clients i = some c) (alive : Client.aborting c.cli = false)
    (old : s.registers q i = false) :
    ∃ b, s.pool.clients i = some b ∧ Client.aborting b.cli = false := by
  cases moved with
  | readKept _ _ _ _ _ _ _ _ _ earlier ran | readEnded _ _ _ _ _ _ _ _ _ earlier ran =>
      exact touch_alive earlier (read_alive ran) there alive
  | blockKept _ _ _ _ _ _ _ _ earlier ran | blockEnded _ _ _ _ _ _ _ _ earlier ran =>
      exact touch_alive earlier (block_alive ran) there alive
  | removed _ idx _ b _ earlier =>
      change s.pool.clients.clear idx i = some c at there
      by_cases own : i = idx
      · subst own
        rw [Slots.clear_same] at there
        cases there
      · rw [Slots.clear_other _ own] at there
        exact ⟨c, there, alive⟩
  | added env m todo idx cli here adds free made =>
      change s.pool.clients.put idx ⟨s.pool.nextSerial, cli⟩ i = some c at there
      by_cases own : i = idx
      · subst own
        rw [registers, Slots.firstFree_eq_some free] at old
        have filled : (s.pool.clients.put i ⟨s.pool.nextSerial, cli⟩ i).isSome = true :=
          congrArg Option.isSome there
        cases filled.symm.trans old
      · rw [Slots.put_other _ _ own] at there
        exact ⟨c, there, alive⟩
  | interrupted | collected | batchDone | pipeEvent | nullRead | hangUp | alreadyGone | decremented
  | pipeEmpty | popped | overflow | refused | newBlock | blockDone | again | leave | finished =>
      exact ⟨c, there, alive⟩

/-- What epoll_wait returns is in the batch that the thread goes through. -/
theorem collects_owed (moved : ClientPool.Moved s.pool a q) {src : Source n}
    (collected : s.collects a src = true) : Owed q.pc src := by
  unfold collects at collected
  cases moved with
  | collected batch events here valid found =>
      rw [here] at collected
      obtain ⟨e, member, same⟩ := List.any_eq_true.mp collected
      obtain ⟨_, sources⟩ := ClientPool.collected_spec s.pool batch events found
      change src ∈ events.map ClientPool.source
      rw [sources, ← eq_of_beq same]
      exact List.mem_map_of_mem member
  | interrupted here | batchDone _ here | pipeEvent _ _ here | nullRead _ _ _ _ _ here
  | readKept _ _ _ _ _ _ _ here | readEnded _ _ _ _ _ _ _ here | hangUp _ _ _ _ _ here
  | alreadyGone _ _ _ here | removed _ _ _ _ here | decremented _ _ here | pipeEmpty _ _ here
  | popped _ _ _ _ here | overflow _ _ _ _ here | refused _ _ _ _ here | added _ _ _ _ _ here
  | newBlock _ _ _ here | blockDone _ _ _ here | blockKept _ _ _ _ _ _ here
  | blockEnded _ _ _ _ _ _ here | again _ here | leave _ here | finished _ here =>
      rw [here] at collected
      cases collected

theorem readsDry_kept {env : Client.SocketEnv} {idx : Fin n} {mev : UInt32} {serial : Nat}
    {todo : List (PoolEvent n)} {d : Placed S.cliType}
    (here : s.pool.pc = .events (.client idx mev serial :: todo)) (readable : mev &&& epollIn ≠ 0)
    (dry : Client.dry env.reads = true) (there : q.clients idx = some d)
    (alive : Client.aborting d.cli = false) : s.readsDry (.read env) q idx = true := by
  unfold readsDry
  rw [here]
  simp [readable, dry, there, alive]

/-- Whoever still waits after a step is still owed what it was owed: a client was read dry,
or it is being removed. -/
theorem moved_owed (moved : ClientPool.Moved s.pool a q) {arrived : Bool} {src : Source n}
    (waits : (s.afterThread a arrived q).Waiting src)
    (old : ∀ i, src = .client i → s.registers q i = false) (owed : Owed s.pool.pc src) :
    Owed q.pc src := by
  cases moved with
  | interrupted here | collected _ _ here | batchDone _ here | again _ here | leave _ here
  | finished _ here =>
      rw [here] at owed
      cases owed
  | nullRead | overflow => trivial
  | pipeEvent a todo here | hangUp a idx mev serial todo here =>
      rw [here] at owed
      exact (reported_cons _ _ _).mp owed
  | readEnded env idx mev serial todo c cli here =>
      rw [here] at owed
      exact (reported_cons _ _ _).mp owed
  | readKept env idx mev serial todo c cli here readable there ran =>
      rw [here] at owed
      rcases (reported_cons _ _ _).mp owed with rfl | later
      · obtain ⟨d, present, alive, unread⟩ := waits
        have same : d = ⟨c.serial, cli⟩ :=
          (Option.some.inj ((Slots.put_same s.pool.clients idx ⟨c.serial, cli⟩).symm.trans
            present)).symm
        subst same
        have nothing : s.readsDry (.read env)
            { s.pool with clients := s.pool.touch idx c cli, pc := .events todo } idx = true :=
          readsDry_kept here readable (Client.kept_dry ran alive) present alive
        simp only [afterThread, old idx rfl] at unread
        rw [nothing] at unread
        simp at unread
      · exact later
  | alreadyGone a idx ret here empty =>
      rw [here] at owed
      rw [owed_ret]
      rcases owed with rfl | later
      · obtain ⟨c, there, _⟩ := waits
        exact absurd there (by simp [afterThread, empty])
      · exact later
  | removed a idx ret c here there =>
      rw [here] at owed
      rcases owed with rfl | later
      · obtain ⟨d, present, _⟩ := waits
        exact absurd present (by simp [afterThread])
      · exact later
  | decremented a ret here =>
      rw [here] at owed
      rw [owed_ret]
      exact owed
  | pipeEmpty a todo here empty =>
      rw [here] at owed
      rcases owed with rfl | later
      · exact absurd empty waits
      · exact later
  | popped a todo m rest here | refused env _ m todo here | added env m todo i cli here
  | newBlock a m todo here | blockDone a start todo here
  | blockKept env start todo i c cli here =>
      rw [here] at owed
      exact owed
  | blockEnded env start todo i c cli here =>
      rw [here] at owed
      exact .inr owed

theorem watched_thread (before : Watched s) (arrived : Bool) (stepped : s.pool.step a = some q) :
    Watched (s.afterThread a arrived q) := by
  have moved := ClientPool.step_moved stepped
  intro src waits
  cases src with
  | pipe =>
      rcases before .pipe (moved_pipe moved waits) with edge | owed
      · rcases collected : s.collects a .pipe with _ | _
        · left
          simp only [afterThread, edge, collected]
          rfl
        · exact .inr (collects_owed moved collected)
      · exact .inr (moved_owed moved waits (fun i other => by cases other) owed)
  | client i =>
      have present := waits
      obtain ⟨c, there, alive, unread⟩ := present
      simp only [afterThread] at unread
      rcases old : s.registers q i with _ | _
      · rw [old] at unread
        have waited : s.Waiting (.client i) := by
          obtain ⟨b, earlier, lived⟩ := moved_client moved there alive old
          exact ⟨b, earlier, lived, (Bool.and_eq_true_iff.mp unread).1⟩
        rcases before (.client i) waited with edge | owed
        · rcases collected : s.collects a (.client i) with _ | _
          · left
            simp only [afterThread, old, edge, collected]
            rfl
          · exact .inr (collects_owed moved collected)
        · refine .inr (moved_owed moved waits ?_ owed)
          intro j same
          cases same
          exact old
      · left
        rw [old] at unread
        simp only [afterThread, old]
        exact unread

end Steps

theorem reachable_watched {s : Polled S n} (reached : (system S n).Reachable s) : Watched s := by
  refine reached.invariant Watched ?_ ?_
  · rintro s rfl src waits
    cases src with
    | pipe => exact absurd rfl waits
    | client i =>
        obtain ⟨c, there, _⟩ := waits
        cases there
  · intro s act t _ before stepped
    cases act with
    | count =>
        cases stepped
        exact before
    | post m =>
        cases stepped
        intro src waits
        rcases src with _ | i
        · left
          change Function.update s.edge .pipe true .pipe = true
          rw [Function.update_self]
        · rcases before (.client i) waits with edge | owed
          · left
            change Function.update s.edge .pipe true (.client i) = true
            rwa [Function.update_of_ne (fun same => by cases same)]
          · exact .inr owed
    | arrive idx =>
        cases stepped
        intro src waits
        by_cases own : src = .client idx
        · subst own
          left
          change Function.update s.edge (.client idx) true (.client idx) = true
          rw [Function.update_self]
        · have waited : s.Waiting src := by
            cases src with
            | pipe => exact waits
            | client i =>
                obtain ⟨c, there, alive, unread⟩ := waits
                refine ⟨c, there, alive, ?_⟩
                change Function.update s.unread idx true i = true at unread
                rwa [Function.update_of_ne (fun same => own (by rw [same]))] at unread
          rcases before src waited with edge | owed
          · left
            change Function.update s.edge (.client idx) true src = true
            rwa [Function.update_of_ne own]
          · exact .inr owed
    | thread a arrived =>
        obtain ⟨q, moved, rfl⟩ := Option.map_eq_some_iff.mp stepped
        exact watched_thread before arrived moved

/-- The pool's thread never sleeps through anything: while it is in epoll_wait, a message in
its pipe, or data for a client that still reads, is still to be reported. -/
theorem nothing_slept_through {s : Polled S n} (reached : (system S n).Reachable s)
    (waits : s.pool.pc = .wait) :
    (s.pool.pipe ≠ [] → s.edge .pipe = true) ∧
      ∀ i c, s.pool.clients i = some c → Client.aborting c.cli = false → s.unread i = true →
        s.edge (.client i) = true := by
  have watched := reachable_watched reached
  have idle (src : Source n) (waiting : s.Waiting src) : s.edge src = true := by
    rcases watched src waiting with edge | owed
    · exact edge
    · rw [waits] at owed
      cases owed
  exact ⟨idle .pipe, fun i c there alive unread => idle (.client i) ⟨c, there, alive, unread⟩⟩

section Runs

def silentSetting : Setting := ⟨60, fun _ => none, fun _ => 0⟩

def hastyMiner : List (PolledAction silentSetting clientPoolSize.size) :=
  [.count, .post ⟨7⟩, .thread (.collected [(.pipe, epollIn)]) false, .thread .go false,
    .thread .go false, .thread (.make Server.plainMake true) true, .thread .go false,
    .thread .go false, .thread .go false]

theorem hasty_miner_reported :
    ∃ s : Polled silentSetting clientPoolSize.size, s.pool.pc = .wait ∧
      s.unread Server.firstClient = true ∧ s.edge (.client Server.firstClient) = true := by
  obtain ⟨s, reached, found⟩ := System.exists_reachable
    (S := system silentSetting clientPoolSize.size) rfl hastyMiner
    (fun s => s.pool.pc == .wait && s.unread Server.firstClient &&
      (s.pool.clients Server.firstClient).any (fun c => !Client.aborting c.cli))
    (by decide +kernel)
  simp only [Bool.and_eq_true, beq_iff_eq] at found
  obtain ⟨⟨waits, unread⟩, present⟩ := found
  obtain ⟨c, there, alive⟩ := (Option.any_eq_true _ _).mp present
  exact ⟨s, waits, unread,
    (nothing_slept_through reached waits).2 _ c there (by simpa using alive) unread⟩

end Runs

end Polled

end EpicPoold
