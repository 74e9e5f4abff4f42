import EpicPoold.ClientPool
import EpicPoold.Foundations.Transition

/-! server: the listener, the node thread and the pools of one list. The list is used
under its mutex; what a pool thread does is not. -/

namespace EpicPoold

open Foundations

/-- A descriptor that accept4 returned. -/
structure Socket where
  fd : Int
  nonneg : 0 ≤ fd

/-- listen_main: waiting for a connection or for the mutex, at the tests of the next
pool in iterate_pools, at the creation of a pool, at the two steps of add_socket, or at
the release of the mutex. -/
inductive ListenerPc where
  | accept
  | lock (sck : Socket)
  | isFinished (sck : Socket) (rest : List Nat)
  | isFull (sck : Socket) (id : Nat) (rest : List Nat)
  | create (sck : Socket)
  | count (sck : Socket) (id : Nat)
  | write (sck : Socket) (id : Nat)
  | unlock

/-- notify_new_block on the same list. -/
inductive NotifyPc where
  | idle
  | lock
  | isFinished (rest : List Nat)
  | getActive (id : Nat) (rest : List Nat)
  | post (id : Nat) (rest : List Nat)
  | unlock

def ListenerPc.mentions : ListenerPc → List Nat
  | .isFinished _ rest => rest
  | .isFull _ id rest => id :: rest
  | .count _ id => [id]
  | .write _ id => [id]
  | _ => []

def NotifyPc.mentions : NotifyPc → List Nat
  | .isFinished rest => rest
  | .getActive id rest => id :: rest
  | .post id rest => id :: rest
  | _ => []

inductive MutexOwner where
  | listener
  | node
  deriving DecidableEq

/-- Pools are numbered in the order of their creation; `pools` is the list. -/
structure Server (K : CliType) (n : Nat) where
  storeMtx : Option MutexOwner
  pools : List Nat
  created : Nat
  pool : Nat → ClientPool K n
  listener : ListenerPc
  node : NotifyPc

inductive ServerAction (K : CliType) (n : Nat) where
  | accept (sck : Socket)
  | listener
  | notify
  | node
  | pool (id : Nat) (a : PoolAction K n)

namespace Server

variable {K : CliType} {n : Nat}

def setPool (s : Server K n) (id : Nat) (p : ClientPool K n) : Server K n :=
  { s with pool := Function.update s.pool id p }

/-- pools.erase, whose destructor joins a thread that has finished. -/
def erase (s : Server K n) (id : Nat) : Server K n := { s with pools := s.pools.erase id }

def lock (s : Server K n) (owner : MutexOwner) : Option (Server K n) :=
  if s.storeMtx = none then some { s with storeMtx := some owner } else none

def unlock (s : Server K n) : Server K n := { s with storeMtx := none }

def listenerStep (s : Server K n) : Option (Server K n) :=
  match s.listener with
  | .accept => none
  | .lock sck =>
      (s.lock .listener).map (fun s => { s with listener := .isFinished sck s.pools })
  | .isFinished sck [] => some { s with listener := .create sck }
  | .isFinished sck (id :: rest) =>
      if (s.pool id).thdFinished then
        some { s.erase id with listener := .isFinished sck rest }
      else some { s with listener := .isFull sck id rest }
  | .isFull sck id rest =>
      if (s.pool id).isFull then some { s with listener := .isFinished sck rest }
      else some { s with listener := .count sck id }
  | .create sck =>
      some { s with
        pools := s.pools ++ [s.created]
        created := s.created + 1
        listener := .count sck s.created }
  | .count sck id => some { s.setPool id (s.pool id).count with listener := .write sck id }
  | .write sck id => some { s.setPool id ((s.pool id).post ⟨sck.fd⟩) with listener := .unlock }
  | .unlock => some { s.unlock with listener := .accept }

def nodeStep (s : Server K n) : Option (Server K n) :=
  match s.node with
  | .idle => none
  | .lock => (s.lock .node).map (fun s => { s with node := .isFinished s.pools })
  | .isFinished [] => some { s with node := .unlock }
  | .isFinished (id :: rest) =>
      if (s.pool id).thdFinished then some { s.erase id with node := .isFinished rest }
      else some { s with node := .getActive id rest }
  | .getActive id rest => some { s with node := .post id rest }
  | .post id rest =>
      some { s.setPool id ((s.pool id).post ⟨dummyNewBlockFd⟩) with node := .isFinished rest }
  | .unlock => some { s.unlock with node := .idle }

def next (s : Server K n) : ServerAction K n → Option (Server K n)
  | .accept sck =>
      match s.listener with
      | .accept => some { s with listener := .lock sck }
      | _ => none
  | .listener => s.listenerStep
  | .notify =>
      match s.node with
      | .idle => some { s with node := .lock }
      | _ => none
  | .node => s.nodeStep
  | .pool id a =>
      if id < s.created then ((s.pool id).step a).map (s.setPool id) else none

def start (K : CliType) (n : Nat) : Server K n where
  storeMtx := none
  pools := []
  created := 0
  pool _ := .new K n
  listener := .accept
  node := .idle

def system (K : CliType) (n : Nat) : System (Server K n) (ServerAction K n) where
  start s := s = start K n
  next := next

@[simp] theorem setPool_same (s : Server K n) (id : Nat) (p : ClientPool K n) :
    (s.setPool id p).pool id = p := by
  simp [setPool]

theorem setPool_other (s : Server K n) {id other : Nat} (p : ClientPool K n) (ne : other ≠ id) :
    (s.setPool id p).pool other = s.pool other := by
  simp [setPool, Function.update_of_ne ne]

end Server

end EpicPoold
