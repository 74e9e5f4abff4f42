import EpicPoold.EpollBatch
import EpicPoold.Foundations.LineBuffer

/-! A client that aborts, and its slot: on_socket_read returns true for a client that is
aborting, and for one whose replies fail while every line is accepted. -/

namespace EpicPoold

open Foundations

namespace Client

variable {maxCallsPerMin : Nat} {parse : List UInt8 → Option Value}
  {request : Nat → RequestEnv}

/-- The lines from the one with number `k` on are answered. -/
def answered (request : Nat → RequestEnv) : Nat → List (List UInt8) → Bool
  | _, [] => true
  | k, _ :: rest => (request k).writeOk && answered request (k + 1) rest

structure LinesDone (request : Nat → RequestEnv) (c : Client) (handled : Nat) (text : List UInt8)
    (rest : Nat) (after : Client) (total : Nat) : Prop where
  aborting : after.aborting = (c.aborting || !answered request handled (pieces 0x0a text))
  left : after.recvBuf.buf.read rest after.recvBuf.len = remainder 0x0a text
  inside : rest + after.recvBuf.len ≤ sockBufSize
  total : total = handled + (pieces 0x0a text).length

theorem linesDone_of_none {c : Client} {handled lnstart : Nat} {text : List UInt8}
    (none : text.findIdx? (· = 0x0a) = none)
    (holds : c.recvBuf.buf.read lnstart c.recvBuf.len = text)
    (inside : lnstart + c.recvBuf.len ≤ sockBufSize) :
    true = (pieces 0x0a text).all (accepts parse) ∧
      (true = true → LinesDone request c handled text lnstart c handled) := by
  obtain ⟨nothing, tail⟩ := frame_of_notMem (notMem_of_findIdx none)
  rw [nothing]
  refine ⟨rfl, fun _ => ⟨?_, holds.trans tail.symm, inside, ?_⟩⟩
  · rw [nothing]
    simp [answered]
  · rw [nothing]
    rfl

theorem lineTurns_spec {turns handled lnstart : Nat} {c : Client} {fine : Bool} {rest : Nat}
    {after : Client} {effects : List Effect} {total : Nat}
    (ran : LineTurns maxCallsPerMin parse request turns handled lnstart c fine rest after effects
      total) : lnstart + c.recvBuf.len ≤ sockBufSize → c.recvBuf.len ≤ turns →
      fine = (pieces 0x0a (c.recvBuf.buf.read lnstart c.recvBuf.len)).all (accepts parse) ∧
        (fine = true → LinesDone request c handled (c.recvBuf.buf.read lnstart c.recvBuf.len) rest
          after total) := by
  induction ran with
  | out handled lnstart c =>
      intro inside few
      have empty : c.recvBuf.buf.read lnstart c.recvBuf.len = [] := by
        rw [Nat.le_zero.mp few, Buffer.read, List.take_zero]
      exact linesDone_of_none (by rw [empty]; rfl) rfl inside
  | done turns handled lnstart c none =>
      intro inside few
      exact linesDone_of_none none rfl inside
  | rejected turns handled lnstart i c after effects found ran =>
      intro inside few
      have short := (ended_of_findIdx found).1
      rw [Buffer.read_length _ _ _ inside] at short
      obtain ⟨lines, _⟩ := pieces_of_findIdx found
      rw [Buffer.read_take _ _ _ _ (by omega)] at lines
      refine ⟨?_, by simp⟩
      rw [lines, List.all_cons, ← (processLine_io ran).1, Bool.false_and]
  | accepted turns handled lnstart i c middle first fine rest after more total found ran _ ih =>
      intro inside few
      have short := (ended_of_findIdx found).1
      rw [Buffer.read_length _ _ _ inside] at short
      obtain ⟨lines, tail⟩ := pieces_of_findIdx found
      rw [Buffer.read_take _ _ _ _ (by omega), Buffer.read_drop] at lines
      rw [Buffer.read_drop] at tail
      obtain ⟨verdict, io⟩ := processLine_io ran
      have buffer : middle.recvBuf = c.recvBuf := congrArg Io.recvBuf io
      have replied : middle.aborting = (c.aborting || !(request handled).writeOk) :=
        congrArg Io.aborting io
      obtain ⟨all, done⟩ := ih (by simp only [buffer]; omega) (by simp only [buffer]; omega)
      simp only [buffer] at all done
      constructor
      · rw [lines, List.all_cons, ← verdict, Bool.true_and]
        exact all
      · intro fine
        obtain ⟨aborting, left, within, count⟩ := done fine
        refine ⟨?_, ?_, within, ?_⟩
        · rw [lines, answered, aborting]
          simp only [replied, Bool.not_and, Bool.or_assoc]
        · rw [left, tail]
        · simp only [count, lines, List.length_cons]
          omega

/-- Some read brings lines that are all accepted and not all answered, and those before
it bring lines that are accepted and answered. -/
def failsQuietly (parse : List UInt8 → Option Value) (request : Nat → RequestEnv) :
    List ReadResult → Nat → List UInt8 → Bool
  | .bytes data :: rest, handled, tail =>
      let got := data.take (sockBufSize - tail.length)
      let lines := pieces 0x0a (tail ++ got)
      if got.isEmpty || decide (sockBufSize ≤ (tail ++ got).length) || !lines.all (accepts parse)
      then false
      else if answered request handled lines then
        failsQuietly parse request rest (handled + lines.length) (remainder 0x0a (tail ++ got))
      else true
  | _, _, _ => false

theorem read_moveLeftover (c : Client) (lnstart : Nat)
    (inside : lnstart + c.recvBuf.len ≤ sockBufSize) :
    (moveLeftover c lnstart).recvBuf.buf.read 0 (moveLeftover c lnstart).recvBuf.len =
      c.recvBuf.buf.read lnstart c.recvBuf.len := by
  have moved := read_moved c.recvBuf.buf lnstart c.recvBuf.len inside
  rw [moveLeftover]
  split
  · rename_i move
    rwa [if_pos move] at moved
  · rename_i still
    rwa [if_neg still] at moved

theorem aborting_moveLeftover (c : Client) (lnstart : Nat) :
    (moveLeftover c lnstart).aborting = c.aborting := by
  rw [moveLeftover]
  split
  · rfl
  · rfl

theorem aborting_netRecv (c : Client) (result : ReadResult) :
    (netRecv c result).2.aborting = c.aborting := by
  cases result with
  | bytes data => rfl
  | failed wouldBlock => rfl

theorem reads_deaf {reads : List ReadResult} {handled : Nat} {c after : Client} {keep : Bool}
    {effects : List Effect}
    (ran : Reads maxCallsPerMin parse request reads handled c keep after effects)
    (aborting : c.aborting = true) : keep = true ∧ after = c := by
  cases ran with
  | deaf => exact ⟨rfl, rfl⟩
  | drained _ _ alive | waits _ _ _ _ alive | closed _ _ _ _ alive | filled _ _ _ _ alive
  | rejected _ _ _ _ _ _ _ _ alive | goesOn _ _ _ _ _ _ _ _ _ _ _ alive =>
      rw [alive] at aborting
      cases aborting

abbrev unread (c : Client) : List UInt8 := c.recvBuf.buf.read 0 c.recvBuf.len

section Quiet

variable {result : ReadResult} {rest : List ReadResult} {handled : Nat} {c : Client}

theorem length_unread (c : Client) : (unread c).length = min c.recvBuf.len sockBufSize := by
  rw [unread, Buffer.read, List.drop_zero, List.length_take, Buffer.length_eq]

theorem space_unread (c : Client) :
    sockBufSize - (unread c).length = sockBufSize - c.recvBuf.len := by
  rw [length_unread]
  omega

theorem failsQuietly_nothing (nothing : (netRecv c result).1 ≤ 0) :
    failsQuietly parse request (result :: rest) handled (unread c) = false := by
  cases result with
  | failed wouldBlock => rfl
  | bytes data =>
      have none : data.take (sockBufSize - c.recvBuf.len) = [] := by
        apply List.eq_nil_of_length_eq_zero
        exact Int.natCast_eq_zero.mp (le_antisymm nothing (Int.natCast_nonneg _))
      simp [failsQuietly, space_unread, none]

theorem failsQuietly_full (full : sockBufSize ≤ (netRecv c result).2.recvBuf.len)
    (got : 0 < (netRecv c result).1) :
    failsQuietly parse request (result :: rest) handled (unread c) = false := by
  cases result with
  | failed wouldBlock => rfl
  | bytes data =>
      have room := List.length_take_le (sockBufSize - c.recvBuf.len) data
      have text : sockBufSize ≤
          (unread c ++ data.take (sockBufSize - c.recvBuf.len)).length := by
        have filled : sockBufSize ≤
            c.recvBuf.len + (data.take (sockBufSize - c.recvBuf.len)).length := full
        rw [List.length_append, length_unread]
        omega
      simp only [failsQuietly, space_unread, text, decide_true, Bool.or_true, Bool.true_or,
        if_true]

theorem failsQuietly_lines (got : 0 < (netRecv c result).1)
    (room : (netRecv c result).2.recvBuf.len < sockBufSize) :
    failsQuietly parse request (result :: rest) handled (unread c) =
      ((pieces 0x0a (unread (netRecv c result).2)).all (accepts parse) &&
        if answered request handled (pieces 0x0a (unread (netRecv c result).2)) then
          failsQuietly parse request rest
            (handled + (pieces 0x0a (unread (netRecv c result).2)).length)
            (remainder 0x0a (unread (netRecv c result).2))
        else true) := by
  cases result with
  | failed wouldBlock =>
      cases wouldBlock <;> simp [netRecv] at got
  | bytes data =>
      have short : c.recvBuf.len + (data.take (sockBufSize - c.recvBuf.len)).length <
        sockBufSize := room
      have some : (data.take (sockBufSize - c.recvBuf.len)).isEmpty = false := by
        rw [List.isEmpty_eq_false_iff, ← List.length_pos_iff]
        exact Int.natCast_pos.mp got
      have text : unread (netRecv c (.bytes data)).2 =
          unread c ++ data.take (sockBufSize - c.recvBuf.len) :=
        read_received _ _ _ (le_of_lt short)
      have open' : ¬ sockBufSize ≤
          (unread c ++ data.take (sockBufSize - c.recvBuf.len)).length := by
        rw [List.length_append, length_unread]
        omega
      simp only [failsQuietly, space_unread, text, some, open', decide_false, Bool.false_or]
      cases (pieces 0x0a (unread c ++ data.take (sockBufSize - c.recvBuf.len))).all
        (accepts parse) with
      | false => rfl
      | true => rfl

theorem firstTurns_spec {fine : Bool} {lnstart : Nat} {after : Client} {effects : List Effect}
    {total : Nat} (room : c.recvBuf.len < sockBufSize)
    (ran : LineTurns maxCallsPerMin parse request c.recvBuf.len handled 0 c fine lnstart after
      effects total) : fine = (pieces 0x0a (unread c)).all (accepts parse) ∧
      (fine = true → LinesDone request c handled (unread c) lnstart after total) :=
  lineTurns_spec ran (by omega) le_rfl

end Quiet

theorem reads_quiet_iff {reads : List ReadResult} {handled : Nat} {c after : Client} {keep : Bool}
    {effects : List Effect}
    (ran : Reads maxCallsPerMin parse request reads handled c keep after effects) :
    c.aborting = false →
      ((keep = true ∧ after.aborting = true) ↔
        failsQuietly parse request reads handled (unread c) = true) := by
  induction ran with
  | deaf reads handled c aborting =>
      intro alive
      rw [alive] at aborting
      cases aborting
  | drained handled c alive => simp [failsQuietly, alive]
  | waits result rest handled c alive nothing =>
      intro _
      rw [failsQuietly_nothing (le_of_lt nothing), aborting_netRecv, alive]
      simp
  | closed result rest handled c alive nothing =>
      intro _
      rw [failsQuietly_nothing (le_of_eq nothing)]
      simp
  | filled result rest handled c alive got full =>
      intro _
      rw [failsQuietly_full full got]
      simp
  | rejected result rest handled c lnstart middle effects total alive got room lines =>
      intro _
      obtain ⟨all, _⟩ := firstTurns_spec room lines
      rw [failsQuietly_lines got room, ← all]
      simp
  | goesOn result rest handled c lnstart middle first total keep after more alive got room lines
      later ih =>
      intro _
      obtain ⟨all, done⟩ := firstTurns_spec room lines
      obtain ⟨aborting, left, inside, count⟩ := done rfl
      rw [aborting_netRecv, alive, Bool.false_or] at aborting
      have still := aborting_moveLeftover middle lnstart
      rw [aborting] at still
      rw [failsQuietly_lines got room, ← all, Bool.true_and]
      cases written : answered request handled (pieces 0x0a (unread (netRecv c result).2)) with
      | true =>
          rw [written] at still
          rw [if_pos rfl, ← count, ← left, ← read_moveLeftover middle lnstart inside]
          exact ih still
      | false =>
          rw [written] at still
          obtain ⟨rfl, rfl⟩ := reads_deaf later still
          simp [still]

theorem cliType_quiet_iff (env : SocketEnv) {c : Client} (alive : c.aborting = false) :
    (((cliType maxCallsPerMin parse).onSocketRead env c).1 = true ∧
        ((cliType maxCallsPerMin parse).onSocketRead env c).2.aborting = true) ↔
      failsQuietly parse env.request env.reads 0 (c.recvBuf.buf.read 0 c.recvBuf.len) = true := by
  obtain ⟨effects, ran⟩ := cliType_onSocketRead maxCallsPerMin parse env c
  exact reads_quiet_iff (socketLoop_reads _ _ _ _ _ effects ran) alive

end Client

namespace Server

open ClientPool

section Removal

variable {K : CliType} {n : Nat} {s t u : Server K n} {id : Nat} {idx : Fin n}
  {todo : List (PoolEvent n)}

def Busy (id : Nat) (todo : List (PoolEvent n)) (s : Server K n) (_ : ServerAction K n) : Prop :=
  (s.pool id).pc ≠ .events todo

/-- When the pool comes to the rest of the batch, and it can, the slot is empty and the
counter has just been lowered. -/
structure GivesBack (id : Nat) (idx : Fin n) (todo : List (PoolEvent n)) (t : Server K n) :
    Prop where
  ends : ∃ u, (system K n).LeadsUnder (Busy id todo) t u ∧ (u.pool id).pc = .events todo
  gone : ∀ u, (system K n).LeadsUnder (Busy id todo) t u → (u.pool id).pc = .events todo →
    (u.pool id).clients idx = none ∧
      ∃ v a, (system K n).LeadsUnder (Busy id todo) t v ∧ next v a = some u ∧
        (u.pool id).activeCnt = (v.pool id).activeCnt - 1

inductive Removing (id : Nat) (idx : Fin n) (todo : List (PoolEvent n)) (t u : Server K n) : Prop
  | slot (c : Placed K) (here : (u.pool id).pc = .removing idx (.events todo))
      (there : (u.pool id).clients idx = some c)
  | counter (here : (u.pool id).pc = .decrement (.events todo))
      (empty : (u.pool id).clients idx = none)
  | done (here : (u.pool id).pc = .events todo) (empty : (u.pool id).clients idx = none)
      (v : Server K n) (a : ServerAction K n)
      (leads : (system K n).LeadsUnder (Busy id todo) t v) (last : next v a = some u)
      (lowered : (u.pool id).activeCnt = (v.pool id).activeCnt - 1)

theorem step_slot {p : ClientPool K n} {c : Placed K} (here : p.pc = .removing idx (.events todo))
    (there : p.clients idx = some c) (act : PoolAction K n) :
    p.step act =
      some { p with clients := p.clients.clear idx, pc := .decrement (.events todo) } := by
  simp only [step, here, removeClient, there]

theorem step_counter {p : ClientPool K n} (here : p.pc = .decrement (.events todo))
    (act : PoolAction K n) :
    p.step act = some { p with activeCnt := p.activeCnt - 1, pc := .events todo } := by
  simp only [step, here]
  rfl

theorem next_removing {v : Server K n} {a : ServerAction K n}
    (leads : (system K n).LeadsUnder (Busy id todo) t u) (before : Removing id idx todo t u)
    (busy : Busy id todo u a) (stepped : next u a = some v) : Removing id idx todo t v := by
  rcases next_pool stepped id with ⟨clients, _, pc, _⟩ | ⟨act, rfl, moved⟩
  · cases before with
    | slot c here there => exact .slot c (pc.trans here) ((congrFun clients idx).trans there)
    | counter here empty => exact .counter (pc.trans here) ((congrFun clients idx).trans empty)
    | done here => exact absurd here busy
  · cases before with
    | slot c here there =>
        rw [step_slot here there act] at moved
        have same := (Option.some.inj moved).symm
        exact .counter (by rw [same]) (by rw [same]; exact Slots.clear_same _ _)
    | counter here empty =>
        rw [step_counter here act] at moved
        have same := (Option.some.inj moved).symm
        exact .done (by rw [same]) (by rw [same]; exact empty) u _ leads stepped (by rw [same])
    | done here => exact absurd here busy

theorem leads_removing (first : Removing id idx todo t t)
    (leads : (system K n).LeadsUnder (Busy id todo) t u) : Removing id idx todo t u := by
  induction leads with
  | refl => exact first
  | tail earlier stepped ih =>
      obtain ⟨a, busy, next⟩ := stepped
      exact next_removing earlier ih busy next

theorem next_pool_step {p : ClientPool K n} {a : PoolAction K n} (present : id < t.created)
    (stepped : (t.pool id).step a = some p) : next t (.pool id a) = some (t.setPool id p) := by
  rw [next, if_pos present, stepped]
  rfl

theorem givesBack_of_removing {c : Placed K} (present : id < t.created)
    (here : (t.pool id).pc = .removing idx (.events todo))
    (there : (t.pool id).clients idx = some c) : GivesBack id idx todo t := by
  constructor
  · have first := next_pool_step present (step_slot here there .go)
    generalize removed : t.setPool id _ = u at first
    have pool : (u.pool id).pc = .decrement (.events todo) := by
      rw [← removed, setPool_same]
    have created : u.created = t.created := by
      rw [← removed]
      rfl
    have second := next_pool_step (created ▸ present) (step_counter pool .go)
    refine ⟨_, .tail (.single ⟨.pool id .go, ?_, first⟩) ⟨.pool id .go, ?_, second⟩, ?_⟩
    · simp [Busy, here]
    · simp [Busy, pool]
    · rw [setPool_same]
  · intro u leads over'
    have removing := leads_removing (.slot c here there) leads
    cases removing with
    | slot _ still _ =>
        rw [over'] at still
        cases still
    | counter still _ =>
        rw [over'] at still
        cases still
    | done _ empty v a leads last lowered => exact ⟨empty, v, a, leads, last, lowered⟩

theorem not_givesBack {c : Placed K} (here : (t.pool id).pc = .events todo)
    (there : (t.pool id).clients idx = some c) : ¬ GivesBack id idx todo t := by
  intro gives
  obtain ⟨empty, _⟩ := gives.gone t .refl here
  rw [there] at empty
  cases empty

end Removal

section Events

variable {maxCallsPerMin : Nat} {parse : List UInt8 → Option Value} {n : Nat}

/-- The event is lost on the client: it is read for a client that is aborting, or by a
call that leaves the client aborting and says nothing. -/
def swallows (mev : UInt32) (c : Client) :
    PoolAction (Client.cliType maxCallsPerMin parse) n → Bool
  | .read env =>
      let env : Client.SocketEnv := env
      decide (mev &&& epollIn ≠ 0) && (c.aborting ||
        Client.failsQuietly parse env.request env.reads 0 (c.recvBuf.buf.read 0 c.recvBuf.len))
  | _ => false

def Aborted (c : Client) (t : Server (Client.cliType maxCallsPerMin parse) n) (id : Nat)
    (idx : Fin n) : Prop :=
  c.aborting = true ∨ ∃ d, (t.pool id).clients idx = some d ∧ Client.aborting d.cli = true

theorem read_gives_back_iff {s : Server (Client.cliType maxCallsPerMin parse) n} {id : Nat}
    {idx : Fin n} {mev : UInt32} {todo : List (PoolEvent n)}
    {c : Placed (Client.cliType maxCallsPerMin parse)} (env : Client.SocketEnv)
    (present : id < s.created) (there : (s.pool id).clients idx = some c)
    (readable : mev &&& epollIn ≠ 0) :
    (Aborted c.cli (s.setPool id ((s.pool id).readClient idx env todo)) id idx →
      GivesBack id idx todo (s.setPool id ((s.pool id).readClient idx env todo))) ↔
      swallows mev c.cli (.read env : PoolAction (Client.cliType maxCallsPerMin parse) n) =
        false := by
  rcases ran : (Client.cliType maxCallsPerMin parse).onSocketRead env c.cli with ⟨keep, cli⟩
  have read : (s.pool id).readClient idx env todo =
      { s.pool id with
        clients := (s.pool id).clients.put idx { c with cli := cli }
        pc := if keep then .events todo else .removing idx (.events todo) } := by
    simp only [readClient, there, ran]
  generalize after : s.setPool id ((s.pool id).readClient idx env todo) = t
  have pool : t.pool id = (s.pool id).readClient idx env todo := by
    rw [← after, setPool_same]
  have slot : (t.pool id).clients idx = some { c with cli := cli } := by
    rw [pool, read]
    exact Slots.put_same _ _ _
  have created : id < t.created := by
    rw [← after]
    exact present
  simp only [swallows, readable, ne_eq, not_false_eq_true, decide_true, Bool.true_and]
  cases aborting : Client.aborting c.cli with
  | true =>
      rw [Client.onSocketRead_aborting maxCallsPerMin parse env aborting] at ran
      cases ran
      refine iff_of_false ?_ (by simp)
      intro gives
      exact not_givesBack (by rw [pool, read]; rfl) slot (gives (.inl aborting))
  | false =>
      have quiet := @Client.cliType_quiet_iff maxCallsPerMin parse env c.cli aborting
      rw [ran] at quiet
      rw [Bool.false_or, ← Bool.not_eq_true, ← quiet]
      cases keep with
      | true =>
          constructor
          · rintro gives ⟨_, dead⟩
            exact not_givesBack (by rw [pool, read]; rfl) slot (gives (.inr ⟨_, slot, dead⟩))
          · intro fine aborted
            refine absurd ⟨rfl, ?_⟩ fine
            rcases aborted with before | ⟨d, found, dead⟩
            · rw [aborting] at before
              cases before
            · rw [slot] at found
              cases found
              exact dead
      | false =>
          refine iff_of_true (fun _ => ?_) (by simp)
          exact givesBack_of_removing created (by rw [pool, read]; rfl) slot

/-- An aborted client gives its slot back unless the event is swallowed. -/
theorem aborted_gives_back_iff {s t : Server (Client.cliType maxCallsPerMin parse) n} {id : Nat}
    {idx : Fin n} {mev : UInt32} {serial : Nat} {todo : List (PoolEvent n)}
    {c : Placed (Client.cliType maxCallsPerMin parse)}
    {a : PoolAction (Client.cliType maxCallsPerMin parse) n}
    (here : (s.pool id).pc = .events (.client idx mev serial :: todo))
    (there : (s.pool id).clients idx = some c) (stepped : next s (.pool id a) = some t) :
    (Aborted c.cli t id idx → GivesBack id idx todo t) ↔ swallows mev c.cli a = false := by
  obtain ⟨present, q, moved, rfl⟩ : id < s.created ∧ ∃ q, (s.pool id).step a = some q ∧
      s.setPool id q = t := by
    rw [next] at stepped
    split at stepped
    · rename_i present
      exact ⟨present, Option.map_eq_some_iff.mp stepped⟩
    · cases stepped
  have pool : (s.setPool id q).pool id = q := setPool_same s id q
  simp only [step, here, eventStep] at moved
  by_cases readable : mev &&& epollIn ≠ 0
  · rw [if_pos readable] at moved
    cases a with
    | read env =>
        cases moved
        exact read_gives_back_iff env present there readable
    | interrupted | collected _ | make _ _ | block _ | go => cases moved
  · rw [if_neg readable] at moved
    cases moved
    have quiet : swallows mev c.cli a = false := by
      cases a with
      | read env => simp only [swallows, readable, decide_false, Bool.false_and]
      | interrupted | collected _ | make _ _ | block _ | go => rfl
    refine iff_of_true (fun _ => ?_) quiet
    exact givesBack_of_removing present (by rw [pool]) (by rw [pool]; exact there)

abbrev Logins : Type := Server (Client.cliType 60 parseJson)
  clientPoolSize.size

def deafInHand (mev : UInt32) (s : Logins) : Bool :=
  decide ((s.pool 0).pc = .events [.client firstClient mev 0]) &&
    ((s.pool 0).clients firstClient).any (fun c => Client.aborting c.cli)

def stays (s : Logins) : Bool :=
  decide ((s.pool 0).pc = .events []) && ((s.pool 0).clients firstClient).isSome

theorem deafInHand_spec {mev : UInt32} {s : Logins} (holds : deafInHand mev s = true) :
    (s.pool 0).pc = .events [.client firstClient mev 0] ∧
      ∃ c, (s.pool 0).clients firstClient = some c ∧ Client.aborting c.cli = true := by
  simpa only [deafInHand, Bool.and_eq_true, decide_eq_true_eq, Option.any_eq_true] using holds

/-- The descriptor of the aborting client has hung up, with no data to read. -/
theorem aborted_gives_back_hangUp :
    ∃ (s t : Logins) (c : Placed (Client.cliType 60 parseJson)),
      (s.pool 0).clients firstClient = some c ∧ Client.aborting c.cli = true ∧
        next s (.pool 0 .go) = some t ∧ GivesBack 0 firstClient [] t := by
  obtain ⟨s, _, left⟩ := System.exists_reachable
    (S := minerServer parseJson) rfl
    (deafClient ++ [.pool 0 (.collected [(.client firstClient, 0x10)])])
    (fun s => deafInHand 0x10 s && (next s (.pool 0 .go)).isSome) (by decide +kernel)
  rw [Bool.and_eq_true, Option.isSome_iff_exists] at left
  obtain ⟨inHand, t, stepped⟩ := left
  obtain ⟨here, c, there, aborting⟩ := deafInHand_spec inHand
  refine ⟨s, t, c, there, aborting, stepped, ?_⟩
  exact (aborted_gives_back_iff here there stepped).mpr rfl (.inl aborting)

/-- Data and a hang-up are reported for it at once. -/
theorem aborted_client_stays :
    ∃ s t : Logins, (minerServer parseJson).Reachable s ∧
      (s.pool 0).pc = .events [.client firstClient 0x11 0] ∧
      (∃ c, (s.pool 0).clients firstClient = some c ∧ Client.aborting c.cli = true) ∧
      next s (.pool 0 (.read deafEnv)) = some t ∧ ¬ GivesBack 0 firstClient [] t := by
  obtain ⟨s, reached, left⟩ := System.exists_reachable
    (S := minerServer parseJson) rfl
    (deafClient ++ [.pool 0 (.collected [(.client firstClient, 0x11)])])
    (fun s => deafInHand 0x11 s && (next s (.pool 0 (.read deafEnv))).any stays)
    (by decide +kernel)
  rw [Bool.and_eq_true, Option.any_eq_true] at left
  obtain ⟨inHand, t, stepped, still⟩ := left
  obtain ⟨here, some⟩ := deafInHand_spec inHand
  rw [stays, Bool.and_eq_true, Option.isSome_iff_exists, decide_eq_true_eq] at still
  obtain ⟨after, d, kept⟩ := still
  exact ⟨s, t, reached, here, some, stepped, not_givesBack after kept⟩

end Events

end Server

end EpicPoold
