import EpicPoold.Foundations.Slots

/-! client_pool: the clients of one pool and the thread that serves them, one step for
every access to what other threads see (the counter, the pipe, the finished flag) and
for every call into a client. -/

namespace EpicPoold

open Foundations

/-- What the pool uses of its `cli_type`. What a call finds outside the client is an
environment; a constructor that throws yields nothing. -/
structure CliType where
  Cli : Type
  MakeEnv : Type
  ReadEnv : Type
  BlockEnv : Type
  construct : MakeEnv → Int → Option Cli
  onSocketRead : ReadEnv → Cli → Bool × Cli
  onNewBlock : BlockEnv → Cli → Bool × Cli

structure PoolSize where
  size : Nat
  positive : 0 < size
  fits : size < 2 ^ 32

def epollIn : UInt32 := 1

def dummyNewBlockFd : Int := -1

structure PipeMsg where
  cliFd : Int
  deriving DecidableEq

/-- A message of add_socket. -/
def PipeMsg.adds (m : PipeMsg) : Bool := m.cliFd != dummyNewBlockFd

/-- A client in its slot, numbered in the order of construction. -/
structure Placed (K : CliType) where
  serial : Nat
  cli : K.Cli

/-- A registered descriptor: the pipe's, or that of the client in a slot. -/
inductive Source (n : Nat) where
  | pipe
  | client (idx : Fin n)
  deriving DecidableEq

/-- An entry of `events`; a client's remembers who was in the slot when epoll_wait
returned. -/
inductive PoolEvent (n : Nat) where
  | pipe
  | client (idx : Fin n) (events : UInt32) (serial : Nat)
  deriving DecidableEq

/-- Where pool_main goes on after a client was removed or not added. -/
inductive Return (n : Nat) where
  | events (todo : List (PoolEvent n))
  | pipe (todo : List (PoolEvent n))
  | block (start : Nat) (todo : List (PoolEvent n))
  deriving DecidableEq

inductive Crash where
  | nullDeref
  | poolOverflow
  deriving DecidableEq

/-- Where the pool thread is: in epoll_wait, at the next event, in remove_client, at a
decrement of the counter, at the next read of the pipe, at a message, in the loop over
clients of a new block, at the exit test, or past it. `todo` is what is left of the batch. -/
inductive PoolPc (n : Nat) where
  | wait
  | events (todo : List (PoolEvent n))
  | removing (idx : Fin n) (ret : Return n)
  | decrement (ret : Return n)
  | pipe (todo : List (PoolEvent n))
  | message (m : PipeMsg) (todo : List (PoolEvent n))
  | block (start : Nat) (todo : List (PoolEvent n))
  | test
  | exit
  | done
  | crashed (why : Crash)
  deriving DecidableEq

def Return.pc {n : Nat} : Return n → PoolPc n
  | .events todo => .events todo
  | .pipe todo => .pipe todo
  | .block start todo => .block start todo

structure ClientPool (K : CliType) (n : Nat) where
  clients : Slots n (Placed K)
  activeCnt : UInt32
  thdFinished : Bool
  pipe : List PipeMsg
  pc : PoolPc n
  nextSerial : Nat

inductive PoolAction (K : CliType) (n : Nat) where
  | interrupted
  | collected (batch : List (Source n × UInt32))
  | read (env : K.ReadEnv)
  | make (env : K.MakeEnv) (registers : Bool)
  | block (env : K.BlockEnv)
  | go

namespace ClientPool

variable {K : CliType} {n : Nat}

def new (K : CliType) (n : Nat) : ClientPool K n where
  clients := .empty
  activeCnt := 0
  thdFinished := false
  pipe := []
  pc := .wait
  nextSerial := 0

def isFull (p : ClientPool K n) : Bool := p.activeCnt.toNat == n

/-- A write to the pipe, which is assumed to succeed. -/
def post (p : ClientPool K n) (m : PipeMsg) : ClientPool K n := { p with pipe := p.pipe ++ [m] }

/-- `active_cnt++`. -/
def count (p : ClientPool K n) : ClientPool K n := { p with activeCnt := p.activeCnt + 1 }

/-- The event of a source; only the client in a slot has a registered descriptor. -/
def event (p : ClientPool K n) : Source n × UInt32 → Option (PoolEvent n)
  | (.pipe, _) => some .pipe
  | (.client idx, events) => (p.clients idx).map (fun c => .client idx events c.serial)

/-- epoll_wait fails with EINTR, or returns at most one event for each descriptor. -/
def waitStep (p : ClientPool K n) : PoolAction K n → Option (ClientPool K n)
  | .interrupted => some { p with pc := .test }
  | .collected batch =>
      if batch ≠ [] ∧ batch.length ≤ n ∧ (batch.map Prod.fst).Nodup then
        (batch.mapM p.event).map (fun events => { p with pc := .events events })
      else none
  | _ => none

def readClient (p : ClientPool K n) (idx : Fin n) (env : K.ReadEnv) (todo : List (PoolEvent n)) :
    ClientPool K n :=
  match p.clients idx with
  | none => { p with pc := .crashed .nullDeref }
  | some c =>
      let (keep, cli) := K.onSocketRead env c.cli
      { p with
        clients := p.clients.put idx { c with cli := cli }
        pc := if keep then .events todo else .removing idx (.events todo) }

def eventStep (p : ClientPool K n) (events : List (PoolEvent n)) (a : PoolAction K n) :
    Option (ClientPool K n) :=
  match events with
  | [] => some { p with pc := .test }
  | .pipe :: todo => some { p with pc := .pipe todo }
  | .client idx mev _ :: todo =>
      if mev &&& epollIn ≠ 0 then
        match a with
        | .read env => some (p.readClient idx env todo)
        | _ => none
      else some { p with pc := .removing idx (.events todo) }

/-- remove_client up to its decrement. The descriptor of a client in a slot is
registered, so that EPOLL_CTL_DEL succeeds. -/
def removeClient (p : ClientPool K n) (idx : Fin n) (ret : Return n) : ClientPool K n :=
  match p.clients idx with
  | none => { p with pc := ret.pc }
  | some _ => { p with clients := p.clients.clear idx, pc := .decrement ret }

def pipeStep (p : ClientPool K n) (todo : List (PoolEvent n)) : ClientPool K n :=
  match p.pipe with
  | [] => { p with pc := .events todo }
  | m :: rest => { p with pipe := rest, pc := .message m todo }

/-- The add_socket branch of process_pipe. A constructor that throws leaves the slot
empty, and a client that cannot be registered is freed again. -/
def addClient (p : ClientPool K n) (fd : Int) (env : K.MakeEnv) (registers : Bool)
    (todo : List (PoolEvent n)) : ClientPool K n :=
  match p.clients.firstFree with
  | none => { p with pc := .crashed .poolOverflow }
  | some i =>
      match K.construct env fd with
      | none => { p with pc := .decrement (.pipe todo) }
      | some cli =>
          if registers then
            { p with
              clients := p.clients.put i ⟨p.nextSerial, cli⟩
              nextSerial := p.nextSerial + 1
              pc := .pipe todo }
          else { p with pc := .decrement (.pipe todo) }

def messageStep (p : ClientPool K n) (m : PipeMsg) (todo : List (PoolEvent n))
    (a : PoolAction K n) : Option (ClientPool K n) :=
  if m.adds then
    match a with
    | .make env registers => some (p.addClient m.cliFd env registers todo)
    | _ => none
  else some { p with pc := .block 0 todo }

/-- on_new_block of the next client. -/
def blockClient (p : ClientPool K n) (i : Fin n) (c : Placed K) (env : K.BlockEnv)
    (todo : List (PoolEvent n)) : ClientPool K n :=
  let (keep, cli) := K.onNewBlock env c.cli
  { p with
    clients := p.clients.put i { c with cli := cli }
    pc := if keep then .block (i.val + 1) todo else .removing i (.block (i.val + 1) todo) }

def blockStep (p : ClientPool K n) (start : Nat) (todo : List (PoolEvent n))
    (a : PoolAction K n) : Option (ClientPool K n) :=
  match p.clients.nextTaken start with
  | none => some { p with pc := .pipe todo }
  | some i =>
      match a with
      | .block env => (p.clients i).map (fun c => p.blockClient i c env todo)
      | _ => none

def step (p : ClientPool K n) (a : PoolAction K n) : Option (ClientPool K n) :=
  match p.pc with
  | .wait => p.waitStep a
  | .events todo => p.eventStep todo a
  | .removing idx ret => some (p.removeClient idx ret)
  | .decrement ret => some { p with activeCnt := p.activeCnt - 1, pc := ret.pc }
  | .pipe todo => some (p.pipeStep todo)
  | .message m todo => p.messageStep m todo a
  | .block start todo => p.blockStep start todo a
  | .test => some { p with pc := if 0 < p.activeCnt then .wait else .exit }
  | .exit => some { p with thdFinished := true, pc := .done }
  | .done => none
  | .crashed _ => none

end ClientPool

end EpicPoold
