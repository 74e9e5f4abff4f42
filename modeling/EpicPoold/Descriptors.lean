import EpicPoold.JobDelivery

/-! The descriptors of accepted connections: who has one, from accept4 to close, and why it
is closed once, unless a client is constructed that cannot be registered. -/

namespace EpicPoold

open Foundations

namespace ClientPool

variable {S : Setting} {n : Nat}

def ofClient (fd : Int) : Option (Placed S.cliType) → Nat
  | none => 0
  | some c => if Client.fd c.cli = fd then 1 else 0

def ofMessage (fd : Int) (m : PipeMsg) : Nat := if m.adds = true ∧ m.cliFd = fd then 1 else 0

def ofPc (fd : Int) : PoolPc n → Nat
  | .message m _ => ofMessage fd m
  | _ => 0

/-- How often the pool has the descriptor: in its slots, in its pipe, in hand. -/
def held (p : ClientPool S.cliType n) (fd : Int) : Nat :=
  p.clients.total (ofClient fd) + (p.pipe.map (ofMessage fd)).sum + ofPc fd p.pc

/-- A client is constructed, and epoll_ctl fails for it. -/
def Abandons (p : ClientPool S.cliType n) (a : PoolAction S.cliType n) : Prop :=
  ∃ env, a = .make env false ∧ p.constructs a = true

section Steps

variable {p q : ClientPool S.cliType n} {a : PoolAction S.cliType n} (fd : Int)

@[simp] theorem ofPc_ret (ret : Return n) : ofPc fd ret.pc = 0 := by
  cases ret <;> rfl

@[simp] theorem ofMessage_dummy : ofMessage fd ⟨dummyNewBlockFd⟩ = 0 := by
  simp [ofMessage, PipeMsg.adds]

theorem held_move {pc : PoolPc n} (outside : ofPc fd pc = 0) :
    held { p with pc := pc } fd ≤ p.held fd := by
  simp only [held, outside]
  omega

theorem held_touch {pc : PoolPc n} (i : Fin n) (c : Placed S.cliType) (cli : Client)
    (there : p.clients i = some c) (same : SameClient c.cli cli) (outside : ofPc fd pc = 0) :
    held { p with clients := p.touch i c cli, pc := pc } fd ≤ p.held fd := by
  have total := p.clients.total_update (ofClient fd) i (some ⟨c.serial, cli⟩)
  have alike : ofClient fd (some (Placed.mk (K := S.cliType) c.serial cli)) =
      ofClient fd (some c) := by
    simp only [ofClient, same.2]
  rw [there, alike] at total
  simp only [held, ClientPool.touch, Slots.put, outside]
  omega

theorem held_removed (idx : Fin n) (ret : Return n) (c : Placed S.cliType)
    (there : p.clients idx = some c) :
    held { p with clients := p.clients.clear idx, pc := .decrement ret } fd +
      [Client.fd c.cli].count fd ≤ p.held fd := by
  have total := p.clients.total_update (ofClient fd) idx none
  have gone : ofClient fd (some c) = [Client.fd c.cli].count fd := by
    simp [ofClient, List.count_singleton]
  rw [there, gone] at total
  simp only [held, Slots.clear, ofPc, ofClient] at total ⊢
  omega

theorem held_popped (todo : List (PoolEvent n)) (m : PipeMsg) (rest : List PipeMsg)
    (front : p.pipe = m :: rest) :
    held { p with pipe := rest, pc := .message m todo } fd ≤ p.held fd := by
  simp only [held, front, ofPc, List.map_cons, List.sum_cons]
  omega

theorem held_added (i : Fin n) (serial : Nat) (cli : Client) (m : PipeMsg)
    (todo : List (PoolEvent n)) (here : p.pc = .message m todo) (adds : m.adds = true)
    (free : p.clients i = none) (own : cli.fd = m.cliFd) :
    held
      { p with
        clients := p.clients.put i ⟨serial, cli⟩
        nextSerial := p.nextSerial + 1
        pc := .pipe todo } fd ≤ p.held fd := by
  have total := p.clients.total_update (ofClient fd) i (some ⟨serial, cli⟩)
  rw [free] at total
  simp only [held, Slots.put, here, ofPc, ofMessage, ofClient, adds, own, true_and] at total ⊢
  omega

theorem construct_fd {env : Client.MakeEnv} {number : Int} {cli : Client}
    (made : S.cliType.construct env number = some cli) : cli.fd = number := by
  simp only [Setting.cliType, Client.cliType] at made
  split at made
  · cases made
    rfl
  · cases made

/-- The message in hand is closed by the handler of process_pipe. -/
theorem held_refused {env : Client.MakeEnv} {registers : Bool} (m : PipeMsg)
    (todo : List (PoolEvent n)) (here : p.pc = .message m todo) (adds : m.adds = true)
    (failed : S.cliType.construct env m.cliFd = none ∨ registers = false)
    (registered : ¬ Abandons p (.make env registers)) :
    held { p with pc := .decrement (.pipe todo) } fd +
      (p.closed (.make env registers)).count fd ≤ p.held fd := by
  have inHand : ofPc fd p.pc = [m.cliFd].count fd := by
    simp [here, ofPc, ofMessage, adds, List.count_singleton]
  have less : (p.closed (.make env registers)).count fd ≤ [m.cliFd].count fd := by
    simp only [closed, here, adds, true_and]
    split
    · rename_i free
      rcases made : S.cliType.construct env m.cliFd with _ | cli
      · simp [closedByAdd, made]
      · rcases failed with impossible | unregistered
        · rw [made] at impossible
          cases impossible
        · refine absurd ⟨env, by rw [unregistered], ?_⟩ registered
          simp only [constructs, here, adds, free, made]
          rfl
    · simp
  have later : ofPc fd (.decrement (.pipe todo) : PoolPc n) = 0 := rfl
  rw [← inHand] at less
  simp only [held, later]
  omega

/-- Apart from a client that cannot be registered, the thread closes only what it has, and
has it no more. -/
theorem step_held (stepped : p.step a = some q) (registered : ¬ Abandons p a) :
    q.held fd + (p.closed a).count fd ≤ p.held fd := by
  have nothing : ∀ pc, p.pc = pc → (∀ idx ret, pc ≠ .removing idx ret) →
      (∀ m todo, pc ≠ .message m todo) → p.closed a = [] := by
    intro pc here apart silent
    subst here
    unfold closed
    split
    · rename_i idx ret here
      exact absurd here (apart idx ret)
    · rename_i m todo here
      exact absurd here (silent m todo)
    · rfl
  cases step_moved stepped with
  | interrupted here | batchDone _ here | pipeEvent _ _ here | hangUp _ _ _ _ _ here _
  | pipeEmpty _ _ here _ | blockDone _ _ _ here _ | again _ here _ | leave _ here _ =>
      rw [nothing _ here (by simp) (by simp)]
      exact held_move fd rfl
  | collected _ _ here _ _ | nullRead _ _ _ _ _ here _ _ | finished _ here =>
      rw [nothing _ here (by simp) (by simp)]
      exact held_move fd rfl
  | decremented _ ret here =>
      rw [nothing _ here (by simp) (by simp)]
      exact held_move fd (ofPc_ret fd ret)
  | readKept env i _ _ _ c cli here _ there ran | readEnded env i _ _ _ c cli here _ there ran =>
      have same : SameClient c.cli (S.cliType.onSocketRead env c.cli).2 :=
        sameClient_onSocketRead env c.cli
      rw [ran] at same
      rw [nothing _ here (by simp) (by simp)]
      exact held_touch fd i c cli there same rfl
  | blockKept env _ _ i c cli here _ there ran | blockEnded env _ _ i c cli here _ there ran =>
      have same : SameClient c.cli (S.cliType.onNewBlock env c.cli).2 :=
        sameClient_onNewBlock env c.cli
      rw [ran] at same
      rw [nothing _ here (by simp) (by simp)]
      exact held_touch fd i c cli there same rfl
  | alreadyGone _ idx ret here empty =>
      simp only [closed, here, empty]
      exact held_move fd (ofPc_ret fd ret)
  | removed _ idx ret c here there =>
      simp only [closed, here, there]
      exact held_removed fd idx ret c there
  | popped _ todo m rest here front =>
      rw [nothing _ here (by simp) (by simp)]
      exact held_popped fd todo m rest front
  | overflow env registers m todo here adds full =>
      have none : p.closed (.make env registers) = [] := by
        simp [closed, here, full]
      rw [none]
      exact held_move fd rfl
  | refused env registers m todo here adds failed =>
      exact held_refused fd m todo here adds failed registered
  | added env m todo i cli here adds free made =>
      have kept : p.closed (.make env true) = [] := by
        simp [closed, here, adds, free, closedByAdd, made]
      rw [kept]
      exact held_added fd i p.nextSerial cli m todo here adds (Slots.firstFree_eq_some free)
        (construct_fd made)
  | newBlock _ m todo here posted =>
      have none : p.closed a = [] := by
        simp only [closed, here]
        cases a <;> simp [posted]
      rw [none]
      exact held_move fd rfl

end Steps

end ClientPool

def ListenerPc.socket? : ListenerPc → Option Socket
  | .lock sck | .isFinished sck _ | .isFull sck _ _ | .create sck | .count sck _
  | .write sck _ => some sck
  | .accept | .unlock => none

namespace Server

open ClientPool

variable {S : Setting} {n : PoolSize} {s t : Server S.cliType n.size}

/-- How often the listener has the descriptor, or the pool of this number. -/
def held (s : Server S.cliType n.size) : Option Nat → Int → Nat
  | none, fd => if s.listener.socket?.map Socket.fd = some fd then 1 else 0
  | some id, fd => (s.pool id).held fd

theorem held_same (listener : t.listener.socket? = s.listener.socket?) (pool : t.pool = s.pool)
    (k : Option Nat) (fd : Int) : t.held k fd ≤ s.held k fd := by
  cases k with
  | none => rw [held, held, listener]
  | some id => rw [held, held, pool]

theorem held_pool (id : Nat) (p : ClientPool S.cliType n.size)
    (listener : t.listener.socket? = s.listener.socket?) (pool : t.pool = (s.setPool id p).pool)
    (fewer : ∀ fd, p.held fd ≤ (s.pool id).held fd) (k : Option Nat) (fd : Int) :
    t.held k fd ≤ s.held k fd := by
  cases k with
  | none => rw [held, held, listener]
  | some other =>
      rw [held, held, pool]
      by_cases same : other = id
      · rw [same, setPool_same]
        exact fewer fd
      · rw [setPool_other _ _ same]

theorem held_post (p : ClientPool S.cliType n.size) (m : PipeMsg) (fd : Int) :
    (p.post m).held fd = p.held fd + ofMessage fd m := by
  simp only [ClientPool.held, post, List.map_append, List.map_cons, List.map_nil, List.sum_append,
    List.sum_singleton]
  omega

theorem nodeMoved_held (moved : NodeMoved s t) (k : Option Nat) (fd : Int) :
    t.held k fd ≤ s.held k fd := by
  cases moved with
  | posted id rest here =>
      apply held_pool id ((s.pool id).post ⟨dummyNewBlockFd⟩)
      · rfl
      · rfl
      · intro fd
        rw [held_post, ofMessage_dummy]
        exact le_rfl
  | locked | noneLeft | erased | running | gotActive | unlocked =>
      apply held_same
      · rfl
      · rfl

theorem wrote_held (sck : Socket) (id other : Nat) (fd : Int) :
    held { s.setPool id ((s.pool id).post ⟨sck.fd⟩) with listener := .unlock } (some other) fd =
      s.held (some other) fd + if other = id ∧ sck.fd = fd then 1 else 0 := by
  have adds : PipeMsg.adds ⟨sck.fd⟩ = true := by
    have nonneg := sck.nonneg
    simp only [PipeMsg.adds, dummyNewBlockFd, bne_iff_ne, ne_eq]
    omega
  by_cases same : other = id
  · subst same
    simp [held, setPool_same, held_post, ofMessage, adds]
  · have apart := setPool_other s ((s.pool id).post ⟨sck.fd⟩) same
    simp only [held, apart, same, false_and, if_false, add_zero]

theorem listenerMoved_held (moved : ListenerMoved s t) :
    (∀ k fd, t.held k fd ≤ s.held k fd) ∨
      ∃ (sck : Socket) (id : Nat), t.held none sck.fd < s.held none sck.fd ∧
        t.held (some id) sck.fd ≤ s.held (some id) sck.fd + 1 ∧
        ∀ k fd, k ≠ some id ∨ fd ≠ sck.fd → t.held k fd ≤ s.held k fd := by
  cases moved with
  | wrote sck id here =>
      right
      refine ⟨sck, id, ?_, ?_, ?_⟩
      · simp [held, here, ListenerPc.socket?]
      · rw [wrote_held]
        simp
      · intro k fd away
        cases k with
        | none => simp [held, ListenerPc.socket?]
        | some other =>
            have elsewhere : ¬ (other = id ∧ sck.fd = fd) := by
              rintro ⟨same, number⟩
              rcases away with apart | apart
              · exact apart (by rw [same])
              · exact apart number.symm
            rw [wrote_held, if_neg elsewhere]
            exact le_rfl
  | counted sck id here =>
      left
      intro k fd
      apply held_pool id (s.pool id).count
      · rw [here]
        rfl
      · rfl
      · exact fun _ => le_rfl
  | locked sck here | noneLeft sck here | erased sck _ _ here | running sck _ _ here
  | full sck _ _ here | chose sck _ _ here | created sck here =>
      left
      intro k fd
      apply held_same
      · rw [here]
        rfl
      · rfl
  | unlocked here =>
      left
      intro k fd
      apply held_same
      · rw [here]
        rfl
      · rfl

section Next

theorem next_node_held (stepped : s.next .node = some t) (k : Option Nat) (fd : Int) :
    t.held k fd ≤ s.held k fd := by
  cases next_moved stepped with
  | node _ moved => exact nodeMoved_held moved k fd

theorem next_notify_held (stepped : s.next .notify = some t) (k : Option Nat) (fd : Int) :
    t.held k fd ≤ s.held k fd := by
  cases next_moved stepped with
  | notified here =>
      apply held_same
      · rfl
      · rfl

theorem next_listener_held (stepped : s.next .listener = some t) :
    (∀ k fd, t.held k fd ≤ s.held k fd) ∨
      ∃ (sck : Socket) (id : Nat), t.held none sck.fd < s.held none sck.fd ∧
        t.held (some id) sck.fd ≤ s.held (some id) sck.fd + 1 ∧
        ∀ k fd, k ≠ some id ∨ fd ≠ sck.fd → t.held k fd ≤ s.held k fd := by
  cases next_moved stepped with
  | listener _ moved => exact listenerMoved_held moved

theorem next_accept_held {sck : Socket} (stepped : s.next (.accept sck) = some t) :
    t.held none sck.fd ≤ s.held none sck.fd + 1 ∧
      ∀ k fd, k ≠ none ∨ fd ≠ sck.fd → t.held k fd ≤ s.held k fd := by
  cases next_moved stepped with
  | accepted _ here =>
      constructor
      · simp [held, ListenerPc.socket?]
      · intro k fd away
        cases k with
        | none =>
            have apart : sck.fd ≠ fd := (away.resolve_left (fun other => other rfl)).symm
            simp [held, ListenerPc.socket?, apart]
        | some id => exact le_rfl

theorem setPool_held {id : Nat} {p : ClientPool S.cliType n.size}
    (fewer : ∀ fd, p.held fd ≤ (s.pool id).held fd) (k : Option Nat) (fd : Int) :
    (s.setPool id p).held k fd ≤ s.held k fd := by
  apply held_pool id p
  · rfl
  · rfl
  · exact fewer

end Next

theorem closedByErase_eq_nil (reached : (system S.cliType n.size).Reachable s) (todo : List Nat) :
    s.closedByErase todo = [] := by
  cases todo with
  | nil => rfl
  | cons id rest =>
      simp only [closedByErase]
      split
      · rename_i finished
        rw [fds, List.filterMap_eq_nil_iff]
        intro i _
        rw [finished_empty reached finished i]
        rfl
      · rfl

theorem closedByListener_eq_nil (reached : (system S.cliType n.size).Reachable s) :
    s.closedByListener = [] := by
  rw [closedByListener]
  split
  · exact closedByErase_eq_nil reached _
  · rfl

theorem closedByNode_eq_nil (reached : (system S.cliType n.size).Reachable s) :
    s.closedByNode = [] := by
  rw [closedByNode]
  split
  · exact closedByErase_eq_nil reached _
  · rfl

end Server

namespace Daemon

open ClientPool

variable {S : Setting} {d e : Daemon S} {act : DaemonAction S}

/-- Those who may have a descriptor: the listeners and the pools of the ports. -/
def held (d : Daemon S) (x : Port × Option Nat) (fd : Int) : Nat :=
  Server.held (n := x.1.poolSize) (d.server x.1) x.2 fd

/-- Every client that is constructed in the step is registered with epoll. -/
def Registers (d : Daemon S) : DaemonAction S → Prop
  | .pool port id a times => ¬ Abandons ((d.server port).pool id) (d.supply port id times a)
  | _ => True

/-- Between two times that accept4 returns a number, it is closed once at most. -/
def ClosedOnce (d : Daemon S) : Prop := ∀ fd k, d.closes fd = some k → k ≤ 1

theorem held_setServer {port : Port} {server : Server S.cliType port.size}
    (grows : Option Nat → Int → Prop)
    (rest : ∀ k fd, ¬ grows k fd → Server.held (n := port.poolSize) server k fd ≤
      Server.held (n := port.poolSize) (d.server port) k fd)
    (x : Port × Option Nat) (fd : Int) (fine : x.1 = port → ¬ grows x.2 fd) :
    (d.setServer port server).held x fd ≤ d.held x fd := by
  obtain ⟨other, k⟩ := x
  by_cases same : other = port
  · subst same
    simp only [held, setServer_same]
    exact rest k fd (fine rfl)
  · simp only [held]
    rw [setServer_other d server same]

theorem setServer_held {port : Port} {server : Server S.cliType port.size}
    (rest : ∀ k fd, Server.held (n := port.poolSize) server k fd ≤
      Server.held (n := port.poolSize) (d.server port) k fd) (x : Port × Option Nat) (fd : Int) :
    (d.setServer port server).held x fd ≤ d.held x fd :=
  held_setServer (fun _ _ => False) (fun k fd _ => rest k fd) x fd (fun _ => id)

theorem free_of_reusable {fd : Int} (reusable : d.reusable fd = true) : d.closes fd ≠ some 0 := by
  simpa [Daemon.reusable] using reusable

section Steps

variable (before : Owned d.held d.closes)

include before

theorem accepted_owned (port : Port) (sck : Socket) (server : Server S.cliType port.size)
    (free : d.closes sck.fd ≠ some 0)
    (stepped : (d.server port).next (.accept sck) = some server) :
    Owned (d.setServer port server).held (opened d.closes sck.fd) := by
  obtain ⟨there, rest⟩ := Server.next_accept_held (n := port.poolSize) stepped
  refine before.taken (x := (port, none)) free ?_ ?_
  · simp only [held, setServer_same]
    exact there
  · intro y fd away
    refine held_setServer (fun k fd => k = none ∧ fd = sck.fd) ?_ y fd ?_
    · intro k fd apart
      exact rest k fd (not_and_or.mp apart)
    · rintro same ⟨none, number⟩
      rcases away with apart | apart
      · exact apart (Prod.ext same none)
      · exact apart number

theorem listened_owned (port : Port) (server : Server S.cliType port.size)
    (stepped : (d.server port).next .listener = some server) :
    Owned (d.setServer port server).held d.closes := by
  rcases Server.next_listener_held (n := port.poolSize) stepped with
    rest | ⟨sck, id, gone, came, rest⟩
  · exact before.fewer (setServer_held rest)
  · refine before.passed (x := (port, none)) (y := (port, some id)) (r := sck.fd) ?_ ?_ ?_
    · simp only [held, setServer_same]
      exact gone
    · simp only [held, setServer_same]
      exact came
    · intro z fd away
      refine held_setServer (fun k fd => k = some id ∧ fd = sck.fd) ?_ z fd ?_
      · intro k fd apart
        exact rest k fd (not_and_or.mp apart)
      · rintro same ⟨own, number⟩
        rcases away with apart | apart
        · exact apart (Prod.ext same own)
        · exact apart number

theorem pooled_owned (port : Port) (id : Nat) (a : PoolAction S.cliType port.size)
    (q : ClientPool S.cliType port.size) (registers : ¬ Abandons ((d.server port).pool id) a)
    (ran : ((d.server port).pool id).step a = some q) :
    Owned (d.afterPool port id a ((d.server port).setPool id q)).held
      (d.afterPool port id a ((d.server port).setPool id q)).closes := by
  have less : ∀ fd, q.held fd + (((d.server port).pool id).closed a).count fd ≤
      ((d.server port).pool id).held fd := fun fd => step_held fd ran registers
  refine before.closedAll (x := (port, some id)) (((d.server port).pool id).closed a) ?_ ?_
  · intro fd
    simp only [held, afterPool_server, setServer_same, Server.held, Server.setPool_same]
    exact less fd
  · intro y fd
    refine setServer_held ?_ y fd
    exact Server.setPool_held (n := port.poolSize)
      (fun fd => (Nat.le_add_right _ _).trans (less fd))

theorem moved_owned
    (servers : ∀ port, (Server.system S.cliType port.size).Reachable (d.server port))
    (moved : Moved d act e) (registers : Registers d act) : Owned e.held e.closes := by
  cases moved with
  | stored job server idle stepped =>
      exact before.fewer (setServer_held (Server.next_notify_held (n := clientPoolSize) stepped))
  | walked port server turn within stepped =>
      rw [Server.closedByNode_eq_nil (n := port.poolSize) (servers port)]
      exact before.fewer (setServer_held (Server.next_node_held (n := port.poolSize) stepped))
  | handedOver server other last stepped notified =>
      have first := before.fewer
        (setServer_held (Server.next_node_held (n := clientPoolSize) stepped))
      refine first.fewer (setServer_held ?_)
      rw [setServer_other d server (by simp)]
      exact Server.next_notify_held (n := tlsClientPoolSize) notified
  | accepted port sck server reusable stepped =>
      exact accepted_owned before port sck server (free_of_reusable reusable) stepped
  | refused port sck here reusable => exact before.refused (free_of_reusable reusable)
  | listened port server stepped =>
      rw [Server.closedByListener_eq_nil (n := port.poolSize) (servers port)]
      exact listened_owned before port server stepped
  | pooled port id a times q present ran =>
      exact pooled_owned before port id (d.supply port id times a) q registers ran

end Steps

theorem reachable_owned (reached : (system S).ReachableUnder Registers d) :
    Owned d.held d.closes := by
  refine reached.invariant (fun d => Owned d.held d.closes) ?_ ?_
  · intro d started
    obtain ⟨first, rfl⟩ := started
    have nothing : ∀ x fd, (start first).held x fd = 0 := by
      rintro ⟨port, k⟩ fd
      cases k with
      | none => rfl
      | some id =>
          simp [held, start, Server.held, Server.start, ClientPool.held, ClientPool.new,
            Slots.total, Slots.empty, ofClient, ofPc]
    constructor
    · intro x fd
      rw [nothing]
      exact Nat.zero_le 1
    · intro x y fd holds
      rw [nothing] at holds
      cases holds
    · intro x fd holds
      rw [nothing] at holds
      cases holds
    · intro fd k counted
      cases counted
  · intro d act e earlier before registers stepped
    exact moved_owned before (reachable_server earlier.reachable) (next_moved stepped) registers

/-- A client that cannot be registered has its descriptor closed by its destructor and
again by the handler. -/
theorem abandons_closed {n : Nat} {p : ClientPool S.cliType n} {a : PoolAction S.cliType n}
    (abandons : Abandons p a) :
    ∃ m todo, p.pc = .message m todo ∧ m.adds = true ∧ p.closed a = [m.cliFd, m.cliFd] := by
  obtain ⟨env, rfl, constructs⟩ := abandons
  simp only [ClientPool.constructs] at constructs
  split at constructs
  · rename_i m todo here
    simp only [Bool.and_eq_true] at constructs
    obtain ⟨⟨adds, free⟩, made⟩ := constructs
    obtain ⟨cli, made⟩ := Option.isSome_iff_exists.mp made
    refine ⟨m, todo, here, adds, ?_⟩
    simp [closed, here, adds, free, closedByAdd, made, construct_fd made]
  · cases constructs

theorem closed_twice_of_abandons (reached : (system S).ReachableUnder Registers d) {port : Port}
    {id : Nat} {a : PoolAction S.cliType port.size} {times : Nat → Nat}
    (abandons : Abandons ((d.server port).pool id) (d.supply port id times a))
    (stepped : next d (.pool port id a times) = some e) : ¬ ClosedOnce e := by
  obtain ⟨m, todo, here, adds, twice⟩ := abandons_closed abandons
  have inHand : 0 < d.held (port, some id) m.cliFd := by
    have mine : ofMessage m.cliFd m = 1 := if_pos ⟨adds, rfl⟩
    simp only [held, Server.held, ClientPool.held, here, ofPc, mine]
    omega
  have live := (reachable_owned reached).live _ _ inHand
  have counted : e.closes m.cliFd = some 2 := by
    cases next_moved stepped with
    | pooled _ _ _ _ q present ran =>
        change (((d.server port).pool id).closed (d.supply port id times a)).foldl close d.closes
          m.cliFd = some 2
        rw [twice]
        simp [close, live]
  intro once
  exact absurd (once m.cliFd 2 counted) (by decide)

/-- As long as every client that is constructed can be registered, no descriptor is closed
twice. -/
theorem closed_once (reached : (system S).ReachableUnder Registers d) : ClosedOnce d :=
  (reachable_owned reached).atMostOnce

section Runs

def hangUpOne (i : Fin clientPoolSize.size) : List (DaemonAction S) :=
  firstPool [.collected [(.client i, 0x10)], .go, .go, .go]

def registers (d : Daemon plainSetting) : DaemonAction plainSetting → Bool
  | .pool port id a times =>
      match d.supply port id times a with
      | .make env false => !((d.server port).pool id).constructs (.make env false)
      | _ => true
  | _ => true

theorem registers_spec (d : Daemon plainSetting) (act : DaemonAction plainSetting)
    (checked : registers d act = true) : Registers d act := by
  cases act with
  | pool port id a times =>
      rintro ⟨env, abandoned, constructed⟩
      simp only [registers, abandoned] at checked
      rw [abandoned] at constructed
      rw [constructed] at checked
      cases checked
  | store job | node | accept port sck | refuse port sck | listener port => trivial

theorem closed_after_hangUp :
    ∃ d : Daemon plainSetting, d.closes 7 = some 1 ∧ ClosedOnce d := by
  obtain ⟨d, reached, closed⟩ := System.exists_reachableUnder (S := system plainSetting) registers
    registers_spec (s := start randomxJob) ⟨_, rfl⟩
    (connectOne 7 true ++ hangUpOne Server.firstClient)
    (fun d => d.closes 7 == some 1) (by decide +kernel)
  exact ⟨d, beq_iff_eq.mp closed, closed_once reached⟩

/-- The destructor closes the descriptor of a client that could not be registered, and the
handler closes it again. -/
theorem closed_twice : ∃ d : Daemon plainSetting, (system plainSetting).Reachable d ∧
    d.closes 7 = some 2 ∧ ¬ ClosedOnce d := by
  obtain ⟨d, reached, closed⟩ := System.exists_reachable (S := system plainSetting)
    (s := start randomxJob) ⟨_, rfl⟩ (connectOne 7 false) (fun d => d.closes 7 == some 2)
    (by decide +kernel)
  have twice : d.closes 7 = some 2 := beq_iff_eq.mp closed
  refine ⟨d, reached, twice, ?_⟩
  intro once
  exact absurd (once 7 2 twice) (by decide)

end Runs

end Daemon

end EpicPoold
