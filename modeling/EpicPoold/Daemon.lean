import EpicPoold.Foundations.Ownership
import EpicPoold.PoolClient
import EpicPoold.ServerSteps

/-! The whole process: the node thread, the listeners of the two ports with their lists of
pools, and the pools' threads. They share the current job, the counter of extra nonces
and the numbers of descriptors. -/

namespace EpicPoold

open Foundations

/-- What is fixed for a run: the flood limit, the JSON parser and
ethash::get_epoch_number. -/
structure Setting where
  maxCallsPerMin : Nat
  parse : List UInt8 → Option Value
  getEpochNumber : UInt64 → Int32

abbrev Setting.cliType (S : Setting) : CliType := Client.cliType S.maxCallsPerMin S.parse

/-- A job that the node thread may store in `current_job`. -/
structure PublishedJob (S : Setting) where
  job : JobData
  published : Node.Published S.getEpochNumber job

/-- `plain_sck` and `tls_sck`, with a list of pools each. -/
inductive Port where
  | plain
  | tls
  deriving DecidableEq

def Port.poolSize : Port → PoolSize
  | .plain => clientPoolSize
  | .tls => tlsClientPoolSize

abbrev Port.size (port : Port) : Nat := port.poolSize.size

/-- A client from its construction to its end: its pool and its number there. -/
structure ClientId where
  port : Port
  pool : Nat
  serial : Nat
  deriving DecidableEq

/-- `seen` are the jobs that `current_job` pointed to since the last step of a pool's
thread, the newest first: what get_current_job may return in its next step.
`constructed` are the clients that were given an extra nonce, in that order, and
`closes` counts the calls of close on a number since accept4 returned it last. -/
structure Daemon (S : Setting) where
  server : (port : Port) → Server S.cliType port.size
  currentJob : PublishedJob S
  seen : Port → Nat → List (PublishedJob S)
  extraNonceCtr : UInt32
  constructed : List ClientId
  closes : Int → Option Nat

/-- `refuse` is an accept4 followed by a setsockopt that fails. A step of a pool carries
the choice of what get_current_job returns at each call. -/
inductive DaemonAction (S : Setting) where
  | store (job : PublishedJob S)
  | node
  | accept (port : Port) (sck : Socket)
  | refuse (port : Port) (sck : Socket)
  | listener (port : Port)
  | pool (port : Port) (id : Nat) (a : PoolAction S.cliType port.size) (times : Nat → Nat)

namespace ClientPool

variable {S : Setting} {n : Nat}

def constructs (p : ClientPool S.cliType n) : PoolAction S.cliType n → Bool
  | .make env _ =>
      match p.pc with
      | .message m _ =>
          m.adds && p.clients.firstFree.isSome && (S.cliType.construct env m.cliFd).isSome
      | _ => false
  | _ => false

/-- The calls of close in the add_socket branch of process_pipe: the handler's, after that
of the destructor if there was an object. -/
def closedByAdd (fd : Int) (env : S.cliType.MakeEnv) (registers : Bool) : List Int :=
  match S.cliType.construct env fd with
  | none => [fd]
  | some (cli : Client) => if registers then [] else [cli.fd, fd]

def closed (p : ClientPool S.cliType n) (a : PoolAction S.cliType n) : List Int :=
  match p.pc with
  | .removing idx _ =>
      match p.clients idx with
      | none => []
      | some c => [Client.fd c.cli]
  | .message m _ =>
      match a with
      | .make env registers =>
          if m.adds ∧ p.clients.firstFree.isSome then closedByAdd m.cliFd env registers else []
      | _ => []
  | _ => []

def fds (p : ClientPool S.cliType n) : List Int :=
  (List.finRange n).filterMap (fun i => (p.clients i).map (fun c => Client.fd c.cli))

end ClientPool

namespace Server

variable {S : Setting} {n : Nat}

/-- What is closed by the destructor of the pool that iterate_pools erases next, if
any. -/
def closedByErase (s : Server S.cliType n) : List Nat → List Int
  | [] => []
  | id :: _ => if (s.pool id).thdFinished then (s.pool id).fds else []

def closedByListener (s : Server S.cliType n) : List Int :=
  match s.listener with
  | .isFinished _ rest => s.closedByErase rest
  | _ => []

def closedByNode (s : Server S.cliType n) : List Int :=
  match s.node with
  | .isFinished rest => s.closedByErase rest
  | _ => []

end Server

namespace Daemon

variable {S : Setting}

def setServer (d : Daemon S) (port : Port) (server : Server S.cliType port.size) : Daemon S :=
  { d with server := Function.update d.server port server }

def closeAll (d : Daemon S) (fds : List Int) : Daemon S :=
  { d with closes := fds.foldl close d.closes }

def reusable (d : Daemon S) (fd : Int) : Bool := d.closes fd != some 0

/-- The result of get_current_job at some time of the next step of a pool. -/
def jobAt (d : Daemon S) (port : Port) (id time : Nat) : PublishedJob S :=
  (d.seen port id).getD time d.currentJob

def supply (d : Daemon S) (port : Port) (id : Nat) (times : Nat → Nat) :
    PoolAction S.cliType port.size → PoolAction S.cliType port.size
  | .read (env : Client.SocketEnv) =>
      .read (Client.SocketEnv.mk env.reads (fun k =>
        { env.request k with currentJob := (d.jobAt port id (times k)).job }))
  | .block (env : RequestEnv) =>
      .block ({ env with currentJob := (d.jobAt port id (times 0)).job } : RequestEnv)
  | .make (env : Client.MakeEnv) registers =>
      .make ({ env with extraNonce := d.extraNonceCtr } : Client.MakeEnv) registers
  | .collected batch => .collected batch
  | .interrupted => .interrupted
  | .go => .go

def afterStore (d : Daemon S) (job : PublishedJob S)
    (server : Server S.cliType Port.plain.size) : Daemon S :=
  { d.setServer .plain server with
    currentJob := job
    seen := fun port id =>
      if id < (d.server port).created then job :: d.seen port id else [job] }

def storeStep (d : Daemon S) (job : PublishedJob S) : Option (Daemon S) :=
  match (d.server .tls).node with
  | .idle => ((d.server .plain).next .notify).map (d.afterStore job)
  | _ => none

def walk (d : Daemon S) (port : Port) : Option (Daemon S) :=
  ((d.server port).next .node).map (fun server =>
    (d.setServer port server).closeAll (d.server port).closedByNode)

def nodeStep (d : Daemon S) : Option (Daemon S) :=
  match (d.server .plain).node with
  | .idle => d.walk .tls
  | .unlock =>
      (d.walk .plain).bind (fun d => ((d.server .tls).next .notify).map (d.setServer .tls))
  | _ => d.walk .plain

def acceptStep (d : Daemon S) (port : Port) (sck : Socket) : Option (Daemon S) :=
  if d.reusable sck.fd then
    ((d.server port).next (.accept sck)).map (fun server =>
      { d.setServer port server with closes := opened d.closes sck.fd })
  else none

/-- sock_abort of a socket that no option can be set on. -/
def refuseStep (d : Daemon S) (port : Port) (sck : Socket) : Option (Daemon S) :=
  match (d.server port).listener with
  | .accept =>
      if d.reusable sck.fd then
        some { d with closes := close (opened d.closes sck.fd) sck.fd }
      else none
  | _ => none

def listenerStep (d : Daemon S) (port : Port) : Option (Daemon S) :=
  ((d.server port).next .listener).map (fun server =>
    (d.setServer port server).closeAll (d.server port).closedByListener)

def afterPool (d : Daemon S) (port : Port) (id : Nat) (a : PoolAction S.cliType port.size)
    (server : Server S.cliType port.size) : Daemon S :=
  let p := (d.server port).pool id
  { (d.setServer port server).closeAll (p.closed a) with
    seen := fun other k => if other = port ∧ k = id then [d.currentJob] else d.seen other k
    extraNonceCtr := if p.constructs a then d.extraNonceCtr + 1 else d.extraNonceCtr
    constructed :=
      if p.constructs a then d.constructed ++ [⟨port, id, p.nextSerial⟩] else d.constructed }

def poolStep (d : Daemon S) (port : Port) (id : Nat) (a : PoolAction S.cliType port.size) :
    Option (Daemon S) :=
  ((d.server port).next (.pool id a)).map (d.afterPool port id a)

def next (d : Daemon S) : DaemonAction S → Option (Daemon S)
  | .store job => d.storeStep job
  | .node => d.nodeStep
  | .accept port sck => d.acceptStep port sck
  | .refuse port sck => d.refuseStep port sck
  | .listener port => d.listenerStep port
  | .pool port id a times => d.poolStep port id (d.supply port id times a)

/-- The listeners start once there is a job. -/
def start (first : PublishedJob S) : Daemon S where
  server port := Server.start S.cliType port.size
  currentJob := first
  seen _ _ := [first]
  extraNonceCtr := 0
  constructed := []
  closes _ := none

def system (S : Setting) : System (Daemon S) (DaemonAction S) where
  start d := ∃ first, d = start first
  next := next

end Daemon

end EpicPoold
