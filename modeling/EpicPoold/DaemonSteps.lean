import EpicPoold.Daemon
import EpicPoold.SlotAccounting

/-! What one step of the process can do, said once: to the lists of the two ports, and to
a single client. -/

namespace EpicPoold

open Foundations

namespace Daemon

variable {S : Setting}

@[simp] theorem setServer_same (d : Daemon S) (port : Port)
    (server : Server S.cliType port.size) : (d.setServer port server).server port = server := by
  simp [setServer]

theorem setServer_other (d : Daemon S) {port other : Port}
    (server : Server S.cliType port.size) (ne : other ≠ port) :
    (d.setServer port server).server other = d.server other := by
  simp [setServer, Function.update_of_ne ne]

@[simp] theorem closeAll_server (d : Daemon S) (fds : List Int) :
    (d.closeAll fds).server = d.server := rfl

@[simp] theorem afterStore_server (d : Daemon S) (job : PublishedJob S)
    (server : Server S.cliType Port.plain.size) :
    (d.afterStore job server).server = (d.setServer .plain server).server := rfl

@[simp] theorem afterPool_server (d : Daemon S) (port : Port) (id : Nat)
    (a : PoolAction S.cliType port.size) (server : Server S.cliType port.size) :
    (d.afterPool port id a server).server = (d.setServer port server).server := rfl

inductive Moved (d : Daemon S) : DaemonAction S → Daemon S → Prop
  | stored (job : PublishedJob S) (server : Server S.cliType Port.plain.size)
      (idle : (d.server .tls).node = .idle)
      (stepped : (d.server .plain).next .notify = some server) :
      Moved d (.store job) (d.afterStore job server)
  | walked (port : Port) (server : Server S.cliType port.size)
      (turn : port = .tls → (d.server .plain).node = .idle)
      (within : port = .plain → (d.server .plain).node ≠ .unlock)
      (stepped : (d.server port).next .node = some server) :
      Moved d .node ((d.setServer port server).closeAll (d.server port).closedByNode)
  | handedOver (server : Server S.cliType Port.plain.size)
      (other : Server S.cliType Port.tls.size) (last : (d.server .plain).node = .unlock)
      (stepped : (d.server .plain).next .node = some server)
      (notified : (d.server .tls).next .notify = some other) :
      Moved d .node ((d.setServer .plain server).setServer .tls other)
  | accepted (port : Port) (sck : Socket) (server : Server S.cliType port.size)
      (reusable : d.reusable sck.fd = true)
      (stepped : (d.server port).next (.accept sck) = some server) :
      Moved d (.accept port sck)
        { d.setServer port server with closes := opened d.closes sck.fd }
  | refused (port : Port) (sck : Socket) (here : (d.server port).listener = .accept)
      (reusable : d.reusable sck.fd = true) :
      Moved d (.refuse port sck)
        { d with closes := close (opened d.closes sck.fd) sck.fd }
  | listened (port : Port) (server : Server S.cliType port.size)
      (stepped : (d.server port).next .listener = some server) :
      Moved d (.listener port)
        ((d.setServer port server).closeAll (d.server port).closedByListener)
  | pooled (port : Port) (id : Nat) (a : PoolAction S.cliType port.size) (times : Nat → Nat)
      (q : ClientPool S.cliType port.size) (present : id < (d.server port).created)
      (ran : ((d.server port).pool id).step (d.supply port id times a) = some q) :
      Moved d (.pool port id a times)
        (d.afterPool port id (d.supply port id times a) ((d.server port).setPool id q))

section Inversion

variable {d e : Daemon S}

theorem walk_moved (port : Port) (turn : port = .tls → (d.server .plain).node = .idle)
    (within : port = .plain → (d.server .plain).node ≠ .unlock) (stepped : d.walk port = some e) :
    Moved d .node e := by
  rw [walk, Option.map_eq_some_iff] at stepped
  obtain ⟨server, moved, rfl⟩ := stepped
  exact .walked port server turn within moved

theorem nodeStep_moved (stepped : d.nodeStep = some e) : Moved d .node e := by
  unfold nodeStep at stepped
  split at stepped
  · rename_i idle
    exact walk_moved .tls (fun _ => idle) (fun impossible => by cases impossible) stepped
  · rename_i last
    obtain ⟨middle, walked, notified⟩ := Option.bind_eq_some_iff.mp stepped
    rw [walk, Option.map_eq_some_iff] at walked
    obtain ⟨server, moved, rfl⟩ := walked
    obtain ⟨other, asked, rfl⟩ := Option.map_eq_some_iff.mp notified
    rw [closeAll_server, setServer_other d server (by simp)] at asked
    have nothing : (d.server .plain).closedByNode = [] := by
      simp only [Server.closedByNode, last]
    rw [nothing]
    exact .handedOver server other last moved asked
  · rename_i working last
    exact walk_moved .plain (fun impossible => by cases impossible) (fun _ => last) stepped

theorem next_moved {act : DaemonAction S} (stepped : next d act = some e) : Moved d act e := by
  cases act with
  | store job =>
      simp only [next, storeStep] at stepped
      split at stepped
      · rename_i idle
        obtain ⟨server, moved, rfl⟩ := Option.map_eq_some_iff.mp stepped
        exact .stored job server idle moved
      · cases stepped
  | node => exact nodeStep_moved stepped
  | accept port sck =>
      simp only [next, acceptStep] at stepped
      split at stepped
      · rename_i reusable
        obtain ⟨server, moved, rfl⟩ := Option.map_eq_some_iff.mp stepped
        exact .accepted port sck server reusable moved
      · cases stepped
  | refuse port sck =>
      simp only [next, refuseStep] at stepped
      split at stepped
      · rename_i here
        split at stepped
        · rename_i reusable
          cases stepped
          exact .refused port sck here reusable
        · cases stepped
      · cases stepped
  | listener port =>
      obtain ⟨server, moved, rfl⟩ := Option.map_eq_some_iff.mp stepped
      exact .listened port server moved
  | pool port id a times =>
      obtain ⟨server, moved, rfl⟩ := Option.map_eq_some_iff.mp stepped
      simp only [Server.next] at moved
      split at moved
      · rename_i present
        obtain ⟨q, ran, rfl⟩ := Option.map_eq_some_iff.mp moved
        exact .pooled port id a times q present ran
      · cases moved

end Inversion

section Servers

variable {d e : Daemon S} {act : DaemonAction S}

def Acts (d e : Daemon S) (act : DaemonAction S) (port : Port)
    (a : ServerAction S.cliType port.size) : Prop :=
  (d.server port).next a = some (e.server port) ∧
    ∀ id b, a = .pool id b → ∃ c times, act = .pool port id c times ∧
      b = d.supply port id times c

theorem setServer_acts (d : Daemon S) (act : DaemonAction S) {port other : Port}
    (server : Server S.cliType port.size) (a : ServerAction S.cliType port.size)
    (stepped : (d.server port).next a = some server)
    (pooled : ∀ id b, a = .pool id b → ∃ c times, act = .pool port id c times ∧
      b = d.supply port id times c) :
    (d.setServer port server).server other = d.server other ∨
      ∃ a, Acts d (d.setServer port server) act other a := by
  by_cases same : other = port
  · subst same
    refine .inr ⟨a, ?_, pooled⟩
    rw [setServer_same]
    exact stepped
  · exact .inl (setServer_other d server same)

theorem moved_server (moved : Moved d act e) (port : Port) :
    e.server port = d.server port ∨ ∃ a, Acts d e act port a := by
  cases moved with
  | stored job server idle stepped =>
      exact setServer_acts d _ server .notify stepped (fun _ _ impossible => by cases impossible)
  | walked walker server turn within stepped =>
      exact setServer_acts d _ server .node stepped (fun _ _ impossible => by cases impossible)
  | handedOver server other last stepped notified =>
      right
      cases port with
      | plain =>
          refine ⟨.node, ?_, fun _ _ impossible => by cases impossible⟩
          rw [setServer_other _ other (by simp), setServer_same]
          exact stepped
      | tls =>
          refine ⟨.notify, ?_, fun _ _ impossible => by cases impossible⟩
          rw [setServer_same]
          exact notified
  | accepted target sck server reusable stepped =>
      exact setServer_acts d _ server (.accept sck) stepped
        (fun _ _ impossible => by cases impossible)
  | refused => exact .inl rfl
  | listened target server stepped =>
      exact setServer_acts d _ server .listener stepped
        (fun _ _ impossible => by cases impossible)
  | pooled target id a times q present ran =>
      refine setServer_acts d _ _ (.pool id (d.supply target id times a)) ?_ ?_
      · simp [Server.next, present, ran]
      · intro _ _ same
        cases same
        exact ⟨a, times, rfl, rfl⟩

theorem reachable_server (reached : (system S).Reachable d) (port : Port) :
    (Server.system S.cliType port.size).Reachable (d.server port) := by
  refine reached.invariant
    (fun d => (Server.system S.cliType port.size).Reachable (d.server port)) ?_ ?_
  · intro d started
    obtain ⟨first, rfl⟩ := started
    exact .start rfl
  · intro d act e _ before stepped
    rcases moved_server (next_moved stepped) port with same | ⟨a, moved, _⟩
    · rw [same]
      exact before
    · exact .step before trivial moved

theorem moved_outside (moved : Moved d act e) (port : Port) (id : Nat)
    (other : ∀ a times, act ≠ .pool port id a times) :
    ∃ raises, Server.Outside raises ((d.server port).pool id) ((e.server port).pool id) := by
  rcases moved_server moved port with same | ⟨a, stepped, pooled⟩
  · rw [same]
    exact ⟨True, Server.outside_refl _ _⟩
  · rcases Server.next_pool stepped id with outside | ⟨b, own, _⟩
    · exact ⟨_, outside⟩
    · obtain ⟨c, times, mine, _⟩ := pooled id b own
      exact absurd mine (other c times)

end Servers

end Daemon

namespace ClientPool

variable {S : Setting} {n : Nat}

def SameClient (b c : Client) : Prop := c.extraNonce = b.extraNonce ∧ c.fd = b.fd

theorem sameClient_kept (c : Client) (s t : Session) (a : SessionAction)
    (before : SameClient c s.client) (_ : Session.Supplied (fun _ => True) s a)
    (stepped : Session.next S.maxCallsPerMin S.parse s a = some t) : SameClient c t.client := by
  obtain ⟨extraNonce, fd⟩ := Session.next_extraNonce_fd stepped
  exact ⟨extraNonce.trans before.1, fd.trans before.2⟩

theorem sameClient_onSocketRead (env : Client.SocketEnv) (c : Client) :
    SameClient c (S.cliType.onSocketRead env c).2 := by
  have here : SameClient c (Session.mk c []).client := ⟨rfl, rfl⟩
  obtain ⟨_, same⟩ := Client.onSocketRead_kept S.maxCallsPerMin S.parse (fun _ => True)
    (fun s => SameClient c s.client) (sameClient_kept c) (fun _ => trivial) here
  exact same

theorem sameClient_onNewBlock (env : RequestEnv) (c : Client) :
    SameClient c (S.cliType.onNewBlock env c).2 := by
  have here : SameClient c (Session.mk c []).client := ⟨rfl, rfl⟩
  obtain ⟨_, same⟩ := Client.onNewBlock_kept S.maxCallsPerMin S.parse (fun _ => True)
    (fun s => SameClient c s.client) (sameClient_kept c) trivial here
  exact same

/-- Where the client of a slot comes from in a step: it was there, or it has just been
constructed. -/
inductive Comes (p : ClientPool S.cliType n) (a : PoolAction S.cliType n) (i : Fin n)
    (c : Placed S.cliType) : Prop
  | stays (b : Placed S.cliType) (there : p.clients i = some b) (serial : c.serial = b.serial)
      (same : SameClient b.cli c.cli)
  | made (env : Client.MakeEnv) (m : PipeMsg) (todo : List (PoolEvent n))
      (action : a = .make env true) (here : p.pc = .message m todo) (adds : m.adds = true)
      (free : p.clients.firstFree = some i) (serial : c.serial = p.nextSerial)
      (cli : c.cli = Client.construct m.cliFd env.extraNonce env.stale)
      (constructs : p.constructs a = true)

theorem comes_touch {p : ClientPool S.cliType n} (a : PoolAction S.cliType n) {i j : Fin n}
    {b c : Placed S.cliType} (cli : Client) (there : p.clients j = some b)
    (same : SameClient b.cli cli) (after : p.touch j b cli i = some c) : Comes p a i c := by
  by_cases own : i = j
  · subst own
    simp only [ClientPool.touch, Slots.put_same] at after
    cases after
    exact .stays b there rfl same
  · simp only [ClientPool.touch, Slots.put_other _ _ own] at after
    exact .stays c after rfl ⟨rfl, rfl⟩

theorem comes_added {p : ClientPool S.cliType n} {env : S.cliType.MakeEnv} {m : PipeMsg}
    {todo : List (PoolEvent n)} {i j : Fin n} {cli : S.cliType.Cli} {c : Placed S.cliType}
    (here : p.pc = .message m todo) (adds : m.adds = true) (free : p.clients.firstFree = some j)
    (made : S.cliType.construct env m.cliFd = some cli)
    (after : p.clients.put j ⟨p.nextSerial, cli⟩ i = some c) : Comes p (.make env true) i c := by
  by_cases own : i = j
  · subst own
    rw [Slots.put_same] at after
    cases after
    have constructs : p.constructs (.make env true) = true := by
      simp only [constructs, here, adds, free, made]
      rfl
    simp only [Setting.cliType, Client.cliType] at made
    split at made
    · cases made
      exact .made env m todo rfl here adds free rfl rfl constructs
    · cases made
  · rw [Slots.put_other _ _ own] at after
    exact .stays c after rfl ⟨rfl, rfl⟩

theorem step_comes {p q : ClientPool S.cliType n} {a : PoolAction S.cliType n}
    (stepped : p.step a = some q) {i : Fin n} {c : Placed S.cliType}
    (after : q.clients i = some c) : Comes p a i c := by
  cases step_moved stepped with
  | interrupted | collected | batchDone | pipeEvent | nullRead | hangUp | alreadyGone | decremented
  | pipeEmpty | popped | overflow | refused | newBlock | blockDone | again | leave | finished =>
      exact .stays c after rfl ⟨rfl, rfl⟩
  | readKept env j _ _ _ b cli _ _ there ran | readEnded env j _ _ _ b cli _ _ there ran =>
      have same : SameClient b.cli (S.cliType.onSocketRead env b.cli).2 :=
        sameClient_onSocketRead env b.cli
      rw [ran] at same
      exact comes_touch _ cli there same after
  | blockKept env _ _ j b cli _ _ there ran | blockEnded env _ _ j b cli _ _ there ran =>
      have same : SameClient b.cli (S.cliType.onNewBlock env b.cli).2 :=
        sameClient_onNewBlock env b.cli
      rw [ran] at same
      exact comes_touch _ cli there same after
  | removed _ idx ret b here there =>
      by_cases own : i = idx
      · subst own
        change p.clients.clear i i = some c at after
        rw [Slots.clear_same] at after
        cases after
      · change p.clients.clear idx i = some c at after
        rw [Slots.clear_other _ own] at after
        exact .stays c after rfl ⟨rfl, rfl⟩
  | added env m todo j cli here adds free made => exact comes_added here adds free made after

end ClientPool

end EpicPoold
