import EpicPoold.ClientPool

/-! What one step of a pool thread can do, said once with all that the step found. -/

namespace EpicPoold

open Foundations

namespace ClientPool

variable {K : CliType} {n : Nat}

def touch (p : ClientPool K n) (i : Fin n) (c : Placed K) (cli : K.Cli) : Slots n (Placed K) :=
  p.clients.put i { c with cli := cli }

/-- The steps of pool_main, remove_client and process_pipe, one by one. -/
inductive Moved (p : ClientPool K n) : PoolAction K n → ClientPool K n → Prop
  | interrupted (here : p.pc = .wait) : Moved p .interrupted { p with pc := .test }
  | collected (batch : List (Source n × UInt32)) (events : List (PoolEvent n))
      (here : p.pc = .wait)
      (valid : batch ≠ [] ∧ batch.length ≤ n ∧ (batch.map Prod.fst).Nodup)
      (found : batch.mapM p.event = some events) :
      Moved p (.collected batch) { p with pc := .events events }
  | batchDone (a : PoolAction K n) (here : p.pc = .events []) : Moved p a { p with pc := .test }
  | pipeEvent (a : PoolAction K n) (todo : List (PoolEvent n))
      (here : p.pc = .events (.pipe :: todo)) : Moved p a { p with pc := .pipe todo }
  | nullRead (env : K.ReadEnv) (idx : Fin n) (mev : UInt32) (serial : Nat)
      (todo : List (PoolEvent n)) (here : p.pc = .events (.client idx mev serial :: todo))
      (readable : mev &&& epollIn ≠ 0) (empty : p.clients idx = none) :
      Moved p (.read env) { p with pc := .crashed .nullDeref }
  | readKept (env : K.ReadEnv) (idx : Fin n) (mev : UInt32) (serial : Nat)
      (todo : List (PoolEvent n)) (c : Placed K) (cli : K.Cli)
      (here : p.pc = .events (.client idx mev serial :: todo)) (readable : mev &&& epollIn ≠ 0)
      (there : p.clients idx = some c) (ran : K.onSocketRead env c.cli = (true, cli)) :
      Moved p (.read env) { p with clients := p.touch idx c cli, pc := .events todo }
  | readEnded (env : K.ReadEnv) (idx : Fin n) (mev : UInt32) (serial : Nat)
      (todo : List (PoolEvent n)) (c : Placed K) (cli : K.Cli)
      (here : p.pc = .events (.client idx mev serial :: todo)) (readable : mev &&& epollIn ≠ 0)
      (there : p.clients idx = some c) (ran : K.onSocketRead env c.cli = (false, cli)) :
      Moved p (.read env)
        { p with clients := p.touch idx c cli, pc := .removing idx (.events todo) }
  | hangUp (a : PoolAction K n) (idx : Fin n) (mev : UInt32) (serial : Nat)
      (todo : List (PoolEvent n)) (here : p.pc = .events (.client idx mev serial :: todo))
      (unreadable : mev &&& epollIn = 0) : Moved p a { p with pc := .removing idx (.events todo) }
  | alreadyGone (a : PoolAction K n) (idx : Fin n) (ret : Return n)
      (here : p.pc = .removing idx ret) (empty : p.clients idx = none) :
      Moved p a { p with pc := ret.pc }
  | removed (a : PoolAction K n) (idx : Fin n) (ret : Return n) (c : Placed K)
      (here : p.pc = .removing idx ret) (there : p.clients idx = some c) :
      Moved p a { p with clients := p.clients.clear idx, pc := .decrement ret }
  | decremented (a : PoolAction K n) (ret : Return n) (here : p.pc = .decrement ret) :
      Moved p a { p with activeCnt := p.activeCnt - 1, pc := ret.pc }
  | pipeEmpty (a : PoolAction K n) (todo : List (PoolEvent n)) (here : p.pc = .pipe todo)
      (empty : p.pipe = []) : Moved p a { p with pc := .events todo }
  | popped (a : PoolAction K n) (todo : List (PoolEvent n)) (m : PipeMsg) (rest : List PipeMsg)
      (here : p.pc = .pipe todo) (front : p.pipe = m :: rest) :
      Moved p a { p with pipe := rest, pc := .message m todo }
  | overflow (env : K.MakeEnv) (registers : Bool) (m : PipeMsg) (todo : List (PoolEvent n))
      (here : p.pc = .message m todo) (adds : m.adds = true) (full : p.clients.firstFree = none) :
      Moved p (.make env registers) { p with pc := .crashed .poolOverflow }
  | refused (env : K.MakeEnv) (registers : Bool) (m : PipeMsg) (todo : List (PoolEvent n))
      (here : p.pc = .message m todo) (adds : m.adds = true)
      (failed : K.construct env m.cliFd = none ∨ registers = false) :
      Moved p (.make env registers) { p with pc := .decrement (.pipe todo) }
  | added (env : K.MakeEnv) (m : PipeMsg) (todo : List (PoolEvent n)) (i : Fin n) (cli : K.Cli)
      (here : p.pc = .message m todo) (adds : m.adds = true)
      (free : p.clients.firstFree = some i) (made : K.construct env m.cliFd = some cli) :
      Moved p (.make env true)
        { p with
          clients := p.clients.put i ⟨p.nextSerial, cli⟩
          nextSerial := p.nextSerial + 1
          pc := .pipe todo }
  | newBlock (a : PoolAction K n) (m : PipeMsg) (todo : List (PoolEvent n))
      (here : p.pc = .message m todo) (posted : m.adds = false) :
      Moved p a { p with pc := .block 0 todo }
  | blockDone (a : PoolAction K n) (start : Nat) (todo : List (PoolEvent n))
      (here : p.pc = .block start todo) (last : p.clients.nextTaken start = none) :
      Moved p a { p with pc := .pipe todo }
  | blockKept (env : K.BlockEnv) (start : Nat) (todo : List (PoolEvent n)) (i : Fin n)
      (c : Placed K) (cli : K.Cli) (here : p.pc = .block start todo)
      (next : p.clients.nextTaken start = some i) (there : p.clients i = some c)
      (ran : K.onNewBlock env c.cli = (true, cli)) :
      Moved p (.block env) { p with clients := p.touch i c cli, pc := .block (i.val + 1) todo }
  | blockEnded (env : K.BlockEnv) (start : Nat) (todo : List (PoolEvent n)) (i : Fin n)
      (c : Placed K) (cli : K.Cli) (here : p.pc = .block start todo)
      (next : p.clients.nextTaken start = some i) (there : p.clients i = some c)
      (ran : K.onNewBlock env c.cli = (false, cli)) :
      Moved p (.block env)
        { p with clients := p.touch i c cli, pc := .removing i (.block (i.val + 1) todo) }
  | again (a : PoolAction K n) (here : p.pc = .test) (active : 0 < p.activeCnt) :
      Moved p a { p with pc := .wait }
  | leave (a : PoolAction K n) (here : p.pc = .test) (idle : p.activeCnt = 0) :
      Moved p a { p with pc := .exit }
  | finished (a : PoolAction K n) (here : p.pc = .exit) :
      Moved p a { p with thdFinished := true, pc := .done }

section Inversion

variable {p q : ClientPool K n} {a : PoolAction K n}

theorem waitStep_moved (here : p.pc = .wait) (stepped : p.waitStep a = some q) : Moved p a q := by
  cases a with
  | interrupted =>
      cases stepped
      exact .interrupted here
  | collected batch =>
      simp only [waitStep] at stepped
      split at stepped
      · rename_i valid
        obtain ⟨events, found, rfl⟩ := Option.map_eq_some_iff.mp stepped
        exact .collected batch events here valid found
      · cases stepped
  | read env | make env registers | block env | go => cases stepped

theorem readClient_moved (env : K.ReadEnv) (idx : Fin n) (mev : UInt32) (serial : Nat)
    (todo : List (PoolEvent n)) (here : p.pc = .events (.client idx mev serial :: todo))
    (readable : mev &&& epollIn ≠ 0) : Moved p (.read env) (p.readClient idx env todo) := by
  rw [readClient]
  split
  · rename_i empty
    exact .nullRead env idx mev serial todo here readable empty
  · rename_i c there
    rcases ran : K.onSocketRead env c.cli with ⟨keep, cli⟩
    cases keep with
    | true => exact .readKept env idx mev serial todo c cli here readable there ran
    | false => exact .readEnded env idx mev serial todo c cli here readable there ran

theorem eventStep_moved (events : List (PoolEvent n)) (here : p.pc = .events events)
    (stepped : p.eventStep events a = some q) : Moved p a q := by
  rcases events with _ | ⟨_ | ⟨idx, mev, serial⟩, todo⟩
  all_goals simp only [eventStep] at stepped
  · cases stepped
    exact .batchDone a here
  · cases stepped
    exact .pipeEvent a todo here
  · split at stepped
    · rename_i readable
      split at stepped
      · cases stepped
        exact readClient_moved _ idx mev serial todo here readable
      · cases stepped
    · rename_i unreadable
      cases stepped
      exact .hangUp a idx mev serial todo here (not_not.mp unreadable)

theorem removeClient_moved (idx : Fin n) (ret : Return n) (here : p.pc = .removing idx ret) :
    Moved p a (p.removeClient idx ret) := by
  rw [removeClient]
  split
  · rename_i empty
    exact .alreadyGone a idx ret here empty
  · rename_i c there
    exact .removed a idx ret c here there

theorem pipeStep_moved (todo : List (PoolEvent n)) (here : p.pc = .pipe todo) :
    Moved p a (p.pipeStep todo) := by
  rw [pipeStep]
  split
  · rename_i empty
    exact .pipeEmpty a todo here empty
  · rename_i m rest front
    exact .popped a todo m rest here front

theorem addClient_moved (env : K.MakeEnv) (registers : Bool) (m : PipeMsg)
    (todo : List (PoolEvent n)) (here : p.pc = .message m todo) (adds : m.adds = true) :
    Moved p (.make env registers) (p.addClient m.cliFd env registers todo) := by
  rw [addClient]
  split
  · rename_i full
    exact .overflow env registers m todo here adds full
  · rename_i i free
    split
    · rename_i failed
      exact .refused env registers m todo here adds (.inl failed)
    · rename_i cli made
      cases registers with
      | true => exact .added env m todo i cli here adds free made
      | false => exact .refused env false m todo here adds (.inr rfl)

theorem messageStep_moved (m : PipeMsg) (todo : List (PoolEvent n))
    (here : p.pc = .message m todo) (stepped : p.messageStep m todo a = some q) :
    Moved p a q := by
  simp only [messageStep] at stepped
  split at stepped
  · rename_i adds
    split at stepped
    · cases stepped
      exact addClient_moved _ _ m todo here adds
    · cases stepped
  · rename_i posted
    cases stepped
    exact .newBlock a m todo here (by simpa using posted)

theorem blockStep_moved (start : Nat) (todo : List (PoolEvent n)) (here : p.pc = .block start todo)
    (stepped : p.blockStep start todo a = some q) : Moved p a q := by
  rw [blockStep] at stepped
  split at stepped
  · rename_i last
    cases stepped
    exact .blockDone a start todo here last
  · rename_i i next
    split at stepped
    · rename_i env
      obtain ⟨c, there, rfl⟩ := Option.map_eq_some_iff.mp stepped
      rw [blockClient]
      rcases ran : K.onNewBlock env c.cli with ⟨keep, cli⟩
      cases keep with
      | true => exact .blockKept env start todo i c cli here next there ran
      | false => exact .blockEnded env start todo i c cli here next there ran
    · cases stepped

theorem step_moved (stepped : p.step a = some q) : Moved p a q := by
  rcases here : p.pc with _ | todo | ⟨idx, ret⟩ | ret | todo | ⟨m, todo⟩ | ⟨start, todo⟩ | _ | _ |
    _ | why
  all_goals simp only [step, here] at stepped
  · exact waitStep_moved here stepped
  · exact eventStep_moved todo here stepped
  · cases stepped
    exact removeClient_moved idx ret here
  · cases stepped
    exact .decremented a ret here
  · cases stepped
    exact pipeStep_moved todo here
  · exact messageStep_moved m todo here stepped
  · exact blockStep_moved start todo here stepped
  · cases stepped
    by_cases active : 0 < p.activeCnt
    · rw [if_pos active]
      exact .again a here active
    · rw [if_neg active]
      exact .leave a here (UInt32.le_zero_iff.mp (UInt32.not_lt.mp active))
  · cases stepped
    exact .finished a here
  · cases stepped
  · cases stepped

end Inversion

end ClientPool

end EpicPoold
