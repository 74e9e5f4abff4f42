import EpicPoold.Foundations.Progress
import EpicPoold.JobDelivery
import EpicPoold.PoolTraversal

/-! The listeners and the node thread share the lists of pools under two mutexes. Neither
waits for the other forever: an accepted socket gets to a pool and a notification to its
end, whatever the pools' threads do meanwhile. -/

namespace EpicPoold

open Foundations

/-- The steps that a listener has left with its socket, on a list of so many pools, and what
the pool that it may create costs a notification. -/
def ListenerPc.turns (pools : Nat) : ListenerPc → Nat
  | .accept => 0
  | .lock _ => 2 * pools + 9
  | .isFinished _ rest => 2 * rest.length + 8
  | .isFull _ _ rest => 2 * rest.length + 9
  | .create _ => 7
  | .count _ _ => 3
  | .write _ _ => 2
  | .unlock => 1

/-- The steps that notify_new_block has left. -/
def NotifyPc.turns (pools : Nat) : NotifyPc → Nat
  | .idle => 0
  | .lock => 3 * pools + 3
  | .isFinished rest => 3 * rest.length + 2
  | .getActive _ rest => 3 * rest.length + 4
  | .post _ rest => 3 * rest.length + 3
  | .unlock => 1

theorem listenerTurns_mono (pc : ListenerPc) {a b : Nat} (le : a ≤ b) :
    pc.turns a ≤ pc.turns b := by
  cases pc with
  | lock => simp only [ListenerPc.turns]; omega
  | accept | isFinished | isFull | create | count | write | unlock => exact le_rfl

theorem notifyTurns_le (pc : NotifyPc) (a b : Nat) : pc.turns b ≤ pc.turns a + 3 * (b - a) := by
  cases pc with
  | lock => simp only [NotifyPc.turns]; omega
  | idle | isFinished | getActive | post | unlock => exact Nat.le_add_right _ _

namespace Server

open TraversalRun

variable {K : CliType} {n : Nat} {s t : Server K n}

def listenerTurns (s : Server K n) : Nat := s.listener.turns s.pools.length

def nodeTurns (s : Server K n) : Nat := s.node.turns s.pools.length

theorem listenerMoved_same (moved : ListenerMoved s t) : t.node = s.node := by
  cases moved <;> rfl

theorem nodeMoved_same (moved : NodeMoved s t) : t.listener = s.listener := by
  cases moved <;> rfl

theorem nodeMoved_busy (moved : NodeMoved s t) : s.node ≠ .idle := by
  cases moved with
  | locked here | noneLeft here | erased _ _ here | running _ _ here | gotActive _ _ here
  | posted _ _ here | unlocked here =>
      rw [here]
      exact fun impossible => by cases impossible

theorem nodeMoved_unlock (moved : NodeMoved s t) (last : s.node = .unlock) : t.node = .idle := by
  cases moved with
  | unlocked => rfl
  | locked here | noneLeft here | erased _ _ here | running _ _ here | gotActive _ _ here
  | posted _ _ here =>
      rw [here] at last
      cases last

/-- A step of the listener is one turn less, also for a notification that has still to go
through the list. -/
theorem listenerMoved_turns (moved : ListenerMoved s t) (pc : NotifyPc) :
    t.listenerTurns + pc.turns t.pools.length < s.listenerTurns + pc.turns s.pools.length := by
  have longer := notifyTurns_le pc s.pools.length t.pools.length
  have fewer : t.listenerTurns + 3 * (t.pools.length - s.pools.length) < s.listenerTurns := by
    cases moved with
    | erased sck id rest here =>
        have shorter := List.length_erase_le (a := id) (l := s.pools)
        simp only [listenerTurns, erase, here, ListenerPc.turns, List.length_cons]
        omega
    | created sck here =>
        simp only [listenerTurns, here, ListenerPc.turns, List.length_append,
          List.length_singleton]
        omega
    | locked _ here | noneLeft _ here | running _ _ _ here | full _ _ _ here | chose _ _ _ here
    | counted _ _ here | wrote _ _ here | unlocked here =>
        simp only [listenerTurns, setPool, unlock, here, ListenerPc.turns, List.length_nil,
          List.length_cons]
        omega
  omega

theorem nodeMoved_turns (moved : NodeMoved s t) :
    t.listenerTurns + t.nodeTurns < s.listenerTurns + s.nodeTurns := by
  have fewer : t.nodeTurns < s.nodeTurns ∧ t.pools.length ≤ s.pools.length := by
    cases moved with
    | erased id rest here =>
        have shorter := List.length_erase_le (a := id) (l := s.pools)
        simp only [nodeTurns, erase, here, NotifyPc.turns, List.length_cons]
        omega
    | locked here | noneLeft here | running _ _ here | gotActive _ _ here | posted _ _ here
    | unlocked here =>
        simp only [nodeTurns, setPool, unlock, here, NotifyPc.turns, List.length_nil,
          List.length_cons]
        omega
  have level : t.listenerTurns ≤ s.listenerTurns := by
    rw [listenerTurns, nodeMoved_same moved]
    exact listenerTurns_mono s.listener fewer.2
  omega

inductive Guarded (s : Server K n) : Prop
  | free (mtx : s.storeMtx = none) (listener : ¬ ListenerHolds s.listener)
      (node : ¬ NodeHolds s.node)
  | listener (mtx : s.storeMtx = some .listener) (works : ListenerHolds s.listener)
      (node : ¬ NodeHolds s.node)
  | node (mtx : s.storeMtx = some .node) (listener : ¬ ListenerHolds s.listener)
      (works : NodeHolds s.node)

theorem Guarded.of_listener (guarded : Guarded s) (works : ListenerHolds s.listener) :
    s.storeMtx = some .listener ∧ ¬ NodeHolds s.node := by
  cases guarded with
  | free _ listener _ | node _ listener _ => exact absurd works listener
  | listener mtx _ node => exact ⟨mtx, node⟩

theorem Guarded.of_node (guarded : Guarded s) (works : NodeHolds s.node) :
    s.storeMtx = some .node ∧ ¬ ListenerHolds s.listener := by
  cases guarded with
  | free _ _ node | listener _ _ node => exact absurd works node
  | node mtx listener _ => exact ⟨mtx, listener⟩

theorem Guarded.of_free (guarded : Guarded s) (free : s.storeMtx = none) :
    ¬ ListenerHolds s.listener ∧ ¬ NodeHolds s.node := by
  cases guarded with
  | free _ listener node => exact ⟨listener, node⟩
  | listener mtx | node mtx =>
      rw [free] at mtx
      cases mtx

theorem listenerMoved_guarded (before : Guarded s) (moved : ListenerMoved s t) : Guarded t := by
  cases moved with
  | locked sck here free => exact .listener rfl trivial (before.of_free free).2
  | unlocked here =>
      exact .free rfl id (before.of_listener (by rw [here]; trivial)).2
  | noneLeft _ here | erased _ _ _ here | running _ _ _ here | full _ _ _ here | chose _ _ _ here
  | created _ here | counted _ _ here | wrote _ _ here =>
      obtain ⟨mtx, node⟩ := before.of_listener (by rw [here]; trivial)
      exact .listener mtx trivial node

theorem nodeMoved_guarded (before : Guarded s) (moved : NodeMoved s t) : Guarded t := by
  cases moved with
  | locked here free => exact .node rfl (before.of_free free).1 trivial
  | unlocked here =>
      exact .free rfl (before.of_node (by rw [here]; trivial)).2 id
  | noneLeft here | erased _ _ here | running _ _ here | gotActive _ _ here | posted _ _ here =>
      obtain ⟨mtx, listener⟩ := before.of_node (by rw [here]; trivial)
      exact .node mtx listener trivial

theorem reachable_guarded (reached : (system K n).Reachable s) : Guarded s := by
  refine reached.invariant Guarded ?_ ?_
  · rintro s rfl
    exact .free rfl id id
  · intro s act t _ before stepped
    cases next_moved stepped with
    | listener _ moved => exact listenerMoved_guarded before moved
    | node _ moved => exact nodeMoved_guarded before moved
    | accepted sck here =>
        cases before with
        | free mtx _ node => exact .free mtx id node
        | listener _ works => exact absurd works (by rw [here]; exact id)
        | node mtx _ works => exact .node mtx id works
    | notified here =>
        cases before with
        | free mtx listener _ => exact .free mtx listener id
        | listener mtx works _ => exact .listener mtx works id
        | node _ _ works => exact absurd works (by rw [here]; exact id)
    | pool =>
        cases before with
        | free mtx listener node => exact .free mtx listener node
        | listener mtx works node => exact .listener mtx works node
        | node mtx listener works => exact .node mtx listener works

theorem listener_goes_on (stays : s.listenerStep = none) :
    s.listener = .accept ∨ (∃ sck, s.listener = .lock sck) ∧ s.storeMtx ≠ none := by
  rcases here : s.listener with _ | sck | ⟨sck, _ | ⟨id, rest⟩⟩ | ⟨sck, id, rest⟩ | sck |
    ⟨sck, id⟩ | ⟨sck, id⟩ | _
  all_goals simp only [listenerStep, here] at stays
  · exact .inl rfl
  · refine .inr ⟨⟨sck, rfl⟩, ?_⟩
    intro free
    simp [lock, free] at stays
  all_goals (try split at stays) <;> cases stays

theorem node_goes_on (stays : s.nodeStep = none) :
    s.node = .idle ∨ s.node = .lock ∧ s.storeMtx ≠ none := by
  rcases here : s.node with _ | _ | (_ | ⟨id, rest⟩) | ⟨id, rest⟩ | ⟨id, rest⟩ | _
  all_goals simp only [nodeStep, here] at stays
  · exact .inl rfl
  · refine .inr ⟨rfl, ?_⟩
    intro free
    simp [lock, free] at stays
  all_goals (try split at stays) <;> cases stays

structure AtRest (s : Server K n) : Prop where
  listener : s.listener = .accept
  node : s.node = .idle
  storeMtx : s.storeMtx = none

theorem atRest_of_stays (guarded : Guarded s) (listener : s.listenerStep = none)
    (node : s.nodeStep = none) : AtRest s := by
  have listens := listener_goes_on listener
  have posts := node_goes_on node
  cases guarded with
  | free mtx =>
      refine ⟨?_, ?_, mtx⟩
      · rcases listens with accepts | ⟨_, taken⟩
        · exact accepts
        · exact absurd mtx taken
      · rcases posts with idle | ⟨_, taken⟩
        · exact idle
        · exact absurd mtx taken
  | listener _ works =>
      rcases listens with accepts | ⟨⟨sck, waits⟩, _⟩
      · rw [accepts] at works
        cases works
      · rw [waits] at works
        cases works
  | node _ _ works =>
      rcases posts with idle | ⟨waits, _⟩
      · rw [idle] at works
        cases works
      · rw [waits] at works
        cases works

end Server

namespace Daemon

variable {S : Setting} {d e : Daemon S}

def tlsNotify (d : Daemon S) : NotifyPc :=
  match (d.server .plain).node with
  | .idle => (d.server .tls).node
  | _ => .lock

def tlsTurns (d : Daemon S) : Nat := d.tlsNotify.turns (d.server .tls).pools.length

/-- The steps that the listeners and the node thread have left. -/
def turnsLeft (d : Daemon S) : Nat :=
  (d.server .plain).listenerTurns + (d.server .tls).listenerTurns +
    ((d.server .plain).nodeTurns + d.tlsTurns)

def Quiet (_ : Daemon S) : DaemonAction S → Prop
  | .store _ => False
  | .accept _ _ => False
  | _ => True

def OfLists : DaemonAction S → Prop
  | .node => True
  | .listener _ => True
  | _ => False

theorem turnsLeft_listened (port : Port) (server : Server S.cliType port.size)
    (moved : Server.ListenerMoved (d.server port) server) (fds : List Int) :
    ((d.setServer port server).closeAll fds).turnsLeft < d.turnsLeft := by
  have same := Server.listenerMoved_same moved
  cases port with
  | plain =>
      have fewer := Server.listenerMoved_turns moved server.node
      simp only [turnsLeft, tlsTurns, tlsNotify, Server.nodeTurns, closeAll_server,
        setServer_same, setServer_other d server (show Port.tls ≠ .plain by simp), same] at fewer ⊢
      omega
  | tls =>
      have fewer := Server.listenerMoved_turns moved d.tlsNotify
      have told : ((d.setServer .tls server).closeAll fds).tlsNotify = d.tlsNotify := by
        simp only [tlsNotify, closeAll_server, setServer_same,
          setServer_other d server (show Port.plain ≠ .tls by simp), same]
      simp only [turnsLeft, tlsTurns, told, Server.nodeTurns, closeAll_server, setServer_same,
        setServer_other d server (show Port.plain ≠ .tls by simp)]
      omega

theorem tlsNotify_busy (busy : (d.server .plain).node ≠ .idle) : d.tlsNotify = .lock := by
  unfold tlsNotify
  split
  · rename_i idle
    exact absurd idle busy
  · rfl

theorem turnsLeft_walked (port : Port) (server : Server S.cliType port.size)
    (turn : port = .tls → (d.server .plain).node = .idle)
    (within : port = .plain → (d.server .plain).node ≠ .unlock)
    (moved : Server.NodeMoved (d.server port) server) (fds : List Int) :
    ((d.setServer port server).closeAll fds).turnsLeft < d.turnsLeft := by
  have fewer := Server.nodeMoved_turns moved
  cases port with
  | plain =>
      have later : ((d.setServer .plain server).closeAll fds).tlsTurns = d.tlsTurns := by
        have busy : (((d.setServer .plain server).closeAll fds).server .plain).node ≠ .idle := by
          rw [closeAll_server, setServer_same]
          exact nodeMoved_not_idle moved (within rfl)
        rw [tlsTurns, tlsTurns, tlsNotify_busy (Server.nodeMoved_busy moved), tlsNotify_busy busy,
          closeAll_server, setServer_other d server (show Port.tls ≠ .plain by simp)]
      simp only [turnsLeft, later, closeAll_server, setServer_same,
        setServer_other d server (show Port.tls ≠ .plain by simp)]
      omega
  | tls =>
      have idle := turn rfl
      simp only [turnsLeft, tlsTurns, tlsNotify, closeAll_server, setServer_same,
        setServer_other d server (show Port.plain ≠ .tls by simp), idle] at fewer ⊢
      simp only [Server.nodeTurns] at fewer ⊢
      omega

theorem turnsLeft_handedOver (server : Server S.cliType Port.plain.size)
    (other : Server S.cliType Port.tls.size) (last : (d.server .plain).node = .unlock)
    (stepped : (d.server .plain).next .node = some server)
    (notified : (d.server .tls).next .notify = some other) :
    ((d.setServer .plain server).setServer .tls other).turnsLeft < d.turnsLeft := by
  have moved := Server.nodeStep_moved stepped
  have fewer := Server.nodeMoved_turns moved
  have idle := Server.nodeMoved_unlock moved last
  have waits := tlsNotify_busy (Server.nodeMoved_busy moved)
  cases Server.next_moved notified with
  | notified =>
      simp only [turnsLeft, tlsTurns, waits]
      simp only [tlsNotify, setServer_same, setServer_other _ _ (show Port.plain ≠ .tls by simp),
        idle, Server.listenerTurns]
      simp only [Server.listenerTurns] at fewer
      omega

theorem next_turnsLeft {act : DaemonAction S} (quiet : Quiet d act)
    (stepped : next d act = some e) :
    (OfLists act → e.turnsLeft < d.turnsLeft) ∧ (¬ OfLists act → e.turnsLeft = d.turnsLeft) := by
  cases next_moved stepped with
  | stored | accepted => cases quiet
  | refused => exact ⟨False.elim, fun _ => rfl⟩
  | listened port server ran =>
      exact ⟨fun _ => turnsLeft_listened port server (Server.listenerStep_moved ran) _,
        fun other => absurd trivial other⟩
  | walked port server turn within ran =>
      exact ⟨fun _ => turnsLeft_walked port server turn within (Server.nodeStep_moved ran) _,
        fun other => absurd trivial other⟩
  | handedOver server other last ran notified =>
      exact ⟨fun _ => turnsLeft_handedOver server other last ran notified,
        fun other => absurd trivial other⟩
  | pooled port id a times q present ran =>
      refine ⟨False.elim, fun _ => ?_⟩
      cases port with
      | plain =>
          simp only [turnsLeft, tlsTurns, tlsNotify, afterPool_server, setServer_same,
            setServer_other d _ (show Port.tls ≠ .plain by simp)]
          rfl
      | tls =>
          simp only [turnsLeft, tlsTurns, tlsNotify, afterPool_server, setServer_same,
            setServer_other d _ (show Port.plain ≠ .tls by simp)]
          rfl

/-- notify_new_block is at one of the ports at a time. -/
def InTurn (d : Daemon S) : Prop := (d.server .plain).node ≠ .idle → (d.server .tls).node = .idle

theorem inTurn_setServer (before : InTurn d) {port : Port} {server : Server S.cliType port.size}
    (same : server.node = (d.server port).node) : InTurn (d.setServer port server) := by
  intro busy
  rw [setServer_node same] at busy ⊢
  exact before busy

theorem reachable_inTurn (reached : (system S).Reachable d) : InTurn d := by
  refine reached.invariant InTurn ?_ ?_
  · rintro d ⟨first, rfl⟩ busy
    exact absurd rfl busy
  · intro d act e _ before stepped
    cases next_moved stepped with
    | stored job server idle _ =>
        intro _
        rw [afterStore_server, setServer_other d server (by simp)]
        exact idle
    | walked port server turn within ran =>
        have busy := Server.nodeMoved_busy (Server.nodeStep_moved ran)
        cases port with
        | plain =>
            intro _
            rw [closeAll_server, setServer_other d server (by simp)]
            exact before busy
        | tls =>
            intro impossible
            rw [closeAll_server, setServer_other d server (by simp)] at impossible
            exact absurd (turn rfl) impossible
    | handedOver server other last ran _ =>
        intro impossible
        rw [setServer_other _ other (by simp), setServer_same] at impossible
        exact absurd (Server.nodeMoved_unlock (Server.nodeStep_moved ran) last) impossible
    | accepted port sck server _ ran =>
        cases Server.next_moved ran with
        | accepted => exact inTurn_setServer before rfl
    | refused => exact before
    | listened port server ran =>
        exact inTurn_setServer before
          (Server.listenerMoved_same (Server.listenerStep_moved ran))
    | pooled port id a times q _ _ =>
        have kept : InTurn (d.setServer port ((d.server port).setPool id q)) :=
          inTurn_setServer before rfl
        exact kept

theorem plain_stays (turn : InTurn d) (node : d.nodeStep = none) :
    (d.server .plain).nodeStep = none := by
  unfold nodeStep at node
  split at node
  · rename_i idle
    rw [Server.nodeStep, idle]
  · rename_i last
    have idle : (d.server .tls).node = .idle := turn (by rw [last]; simp)
    have freed : (d.server .plain).next .node =
        some { (d.server .plain).unlock with node := .idle } := by
      simp only [Server.next, Server.nodeStep, last]
    have walked := congrArg (Option.map (fun server =>
      (d.setServer .plain server).closeAll (d.server .plain).closedByNode)) freed
    have refused := Option.map_eq_none_iff.mp (Option.bind_eq_none_iff.mp node _ walked)
    rw [closeAll_server, setServer_other d _ (by simp)] at refused
    simp only [Server.next, idle] at refused
    cases refused
  · exact Option.map_eq_none_iff.mp node

/-- When none of the threads with a list can go on, they all have finished. -/
theorem atRest_of_stuck (reached : (system S).Reachable d)
    (stuck : ∀ act, OfLists act → next d act = none) (port : Port) :
    (d.server port).AtRest := by
  have guarded (port : Port) := Server.reachable_guarded (reachable_server reached port)
  have listener (port : Port) : (d.server port).listenerStep = none :=
    Option.map_eq_none_iff.mp (stuck (.listener port) trivial)
  have node : d.nodeStep = none := stuck .node trivial
  have plain : (d.server .plain).AtRest := by
    apply Server.atRest_of_stays (guarded .plain) (listener .plain)
    exact plain_stays (reachable_inTurn reached) node
  cases port with
  | plain => exact plain
  | tls =>
      apply Server.atRest_of_stays (guarded .tls) (listener .tls)
      unfold nodeStep at node
      simp only [plain.node] at node
      exact Option.map_eq_none_iff.mp node

/-- The listeners and the node thread never wait for each other for good. From any state that
the process can be in, as long as nobody connects and no job arrives, they take boundedly
many steps more, in any order and whatever the pools' threads do in between; and where none
of them can go on, every accepted socket is with a pool, every notification has ended, and
the mutexes are free. -/
theorem lists_settle (S : Setting) {d : Daemon S} (reached : (system S).Reachable d) (n : Nat)
    (e : Daemon S) (run : (system S).RunCounting Quiet OfLists d n e) :
    n + e.turnsLeft ≤ d.turnsLeft ∧
      ((∀ act, OfLists act → next e act = none) → ∀ port, (e.server port).AtRest) := by
  constructor
  · apply run.bounded turnsLeft
    · intro d act e quiet counts stepped
      exact (next_turnsLeft quiet stepped).1 counts
    · intro d act e quiet other stepped
      exact le_of_eq ((next_turnsLeft quiet stepped).2 other)
  · exact atRest_of_stuck (run.reachable reached)

section Runs

def bothArrive : List (DaemonAction plainSetting) :=
  [.accept .plain ⟨7, by decide⟩, .store progpowJob, .listener .plain]

def bothBusy (d : Daemon plainSetting) : Bool :=
  match (d.server .plain).listener, (d.server .plain).node with
  | .isFinished _ _, .lock => true
  | _, _ => false

theorem lists_settle_both :
    ∃ d : Daemon plainSetting, bothBusy d = true ∧ ∀ n e,
      (system plainSetting).RunCounting Quiet OfLists d n e → n + e.turnsLeft ≤ d.turnsLeft ∧
        ((∀ act, OfLists act → next e act = none) → ∀ port, (e.server port).AtRest) := by
  obtain ⟨d, reached, busy⟩ := System.exists_reachable (S := system plainSetting)
    (s := start randomxJob) ⟨_, rfl⟩ bothArrive bothBusy (by decide +kernel)
  exact ⟨d, busy, lists_settle plainSetting reached⟩

end Runs

end Daemon

end EpicPoold
