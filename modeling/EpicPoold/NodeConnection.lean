import EpicPoold.Submission

/-! The connection to the node: `sock_fd`, which the node thread closes and opens again
while the threads of the pools send results through it, and the numbers of descriptors,
which the listeners use as well. -/

namespace EpicPoold

open Foundations

inductive Descriptor where
  | closed
  | node (connected : Bool)
  | client
  deriving DecidableEq

/-- thread_main and node_connect: at getaddrinfo, at socket, at the assignment of its
result, at the test of it, at connect, at the close after a failed connect, in recv_main,
at the close after it, or where `sock_fd` is set to -1. -/
inductive ReconnectPc where
  | getaddrinfo
  | socket
  | assign (fd : Int)
  | test
  | connect
  | giveUp
  | recvMain
  | close
  | clear
  deriving DecidableEq

inductive Outcome where
  | done
  | failed
  | descriptor (fd : Int)

/-- A result after its send: what the number referred to then, and how many of its bytes
were taken. -/
structure Receipt where
  message : SubmitMessage
  target : Descriptor
  taken : Nat

def Receipt.Delivered (r : Receipt) : Prop :=
  r.target = .node true ∧ r.taken = r.message.text.length

/-- A pool's thread with a share: what it has still to do, and what it has handed to
send_job_result without an answer so far. `sending` is between the load of `sock_fd` and
the send. -/
inductive SubmitPc where
  | idle
  | running (handed : List Receipt) (todo : List Effect)
  | sending (handed : List Receipt) (message : SubmitMessage) (fd : Int) (todo : List Effect)

def ReconnectPc.connected : ReconnectPc → Bool
  | .recvMain | .close => true
  | _ => false

def SubmitPc.handed : SubmitPc → List Receipt
  | .idle => []
  | .running handed _ => handed
  | .sending handed _ _ _ => handed

/-- `answered` are the results whose submit was answered with OK. -/
structure NodeConnection (T : Type) where
  sockFd : Int
  table : Int → Descriptor
  pc : ReconnectPc
  thread : T → SubmitPc
  answered : List Receipt

inductive ConnectionAction (T : Type) where
  | node (outcome : Outcome)
  | accept (fd : Int)
  | closeClient (fd : Int)
  | share (t : T) (env : RequestEnv) (c : Client) (callId : Int64) (nonce : UInt32)
  | go (t : T)
  | send (t : T) (taken : Nat)

namespace NodeConnection

variable {T : Type}

def refer (s : NodeConnection T) (fd : Int) (kind : Descriptor) : NodeConnection T :=
  { s with table := Function.update s.table fd kind }

/-- thread_main. A new descriptor gets a number that is not in use. -/
def nodeStep (s : NodeConnection T) (outcome : Outcome) : Option (NodeConnection T) :=
  match s.pc, outcome with
  | .getaddrinfo, .failed => some s
  | .getaddrinfo, .done => some { s with pc := .socket }
  | .socket, .failed => some { s with pc := .assign (-1) }
  | .socket, .descriptor fd =>
      if 0 ≤ fd ∧ s.table fd = .closed then
        some { s.refer fd (.node false) with pc := .assign fd }
      else none
  | .assign fd, .done => some { s with sockFd := fd, pc := .test }
  | .test, .done => some { s with pc := if s.sockFd < 0 then .clear else .connect }
  | .connect, .done => some { s.refer s.sockFd (.node true) with pc := .recvMain }
  | .connect, .failed => some { s with pc := .giveUp }
  | .giveUp, .done => some { s.refer s.sockFd .closed with pc := .clear }
  | .recvMain, .done => some { s with pc := .close }
  | .close, .done => some { s.refer s.sockFd .closed with pc := .clear }
  | .clear, .done => some { s with sockFd := -1, pc := .getaddrinfo }
  | _, _ => none

def acceptStep (s : NodeConnection T) (fd : Int) : Option (NodeConnection T) :=
  if 0 ≤ fd ∧ s.table fd = .closed then some (s.refer fd .client) else none

def closeClientStep (s : NodeConnection T) (fd : Int) : Option (NodeConnection T) :=
  if s.table fd = .client then some (s.refer fd .closed) else none

/-- send takes nothing unless the number refers to a connection. -/
def receipt (s : NodeConnection T) (message : SubmitMessage) (fd : Int) (taken : Nat) : Receipt :=
  ⟨message, s.table fd,
    match s.table fd with
    | .node true | .client => taken
    | .node false | .closed => 0⟩

section Threads

variable [DecidableEq T]

def setThread (s : NodeConnection T) (t : T) (pc : SubmitPc) : NodeConnection T :=
  { s with thread := Function.update s.thread t pc }

/-- process_method_submit from check_client_work on, by a thread of a pool. -/
def shareStep (s : NodeConnection T) (t : T) (effects : List Effect) :
    Option (NodeConnection T) :=
  match s.thread t with
  | .idle => some (s.setThread t (.running [] effects))
  | _ => none

/-- The next thing a share does. send_job_result begins with the load of `sock_fd`. -/
def goStep (s : NodeConnection T) (t : T) : Option (NodeConnection T) :=
  match s.thread t with
  | .running _ [] => some (s.setThread t .idle)
  | .running handed (.submit message :: todo) =>
      some (s.setThread t (.sending handed message s.sockFd todo))
  | .running handed (.send (.status _) :: todo) =>
      some { s.setThread t (.running [] todo) with answered := s.answered ++ handed }
  | .running handed (_ :: todo) => some (s.setThread t (.running handed todo))
  | _ => none

/-- The result of send is ignored. -/
def sendStep (s : NodeConnection T) (t : T) (taken : Nat) : Option (NodeConnection T) :=
  match s.thread t with
  | .sending handed message fd todo =>
      if taken ≤ message.text.length then
        some (s.setThread t (.running (handed ++ [s.receipt message fd taken]) todo))
      else none
  | _ => none

def next (s : NodeConnection T) : ConnectionAction T → Option (NodeConnection T)
  | .node outcome => s.nodeStep outcome
  | .accept fd => s.acceptStep fd
  | .closeClient fd => s.closeClientStep fd
  | .share t env c callId nonce => s.shareStep t (Client.checkShare env c callId nonce).2
  | .go t => s.goStep t
  | .send t taken => s.sendStep t taken

end Threads

def start (T : Type) : NodeConnection T where
  sockFd := -1
  table _ := .closed
  pc := .getaddrinfo
  thread _ := .idle
  answered := []

def system (T : Type) [DecidableEq T] : System (NodeConnection T) (ConnectionAction T) where
  start s := s = start T
  next := next

inductive NodeMoved (s : NodeConnection T) : NodeConnection T → Prop
  | went (pc : ReconnectPc) (same : pc.connected = s.pc.connected) :
      NodeMoved s { s with pc := pc }
  | opened (fd : Int) (here : s.pc.connected = false) (free : s.table fd = .closed) :
      NodeMoved s { s.refer fd (.node false) with pc := .assign fd }
  | assigned (fd : Int) (pc : ReconnectPc) (here : s.pc.connected = false)
      (still : pc.connected = false) : NodeMoved s { s with sockFd := fd, pc := pc }
  | connected (here : s.pc.connected = false) :
      NodeMoved s { s.refer s.sockFd (.node true) with pc := .recvMain }
  | closed : NodeMoved s { s.refer s.sockFd .closed with pc := .clear }

inductive Moved [DecidableEq T] (s : NodeConnection T) :
    ConnectionAction T → NodeConnection T → Prop
  | node (outcome : Outcome) (t : NodeConnection T) (moved : NodeMoved s t) :
      Moved s (.node outcome) t
  | referred (a : ConnectionAction T) (fd : Int) (kind : Descriptor)
      (earlier : s.table fd ≠ .node true) (later : kind ≠ .node true) : Moved s a (s.refer fd kind)
  | went (a : ConnectionAction T) (t : T) (pc : SubmitPc)
      (same : ∀ r ∈ pc.handed, r ∈ (s.thread t).handed) : Moved s a (s.setThread t pc)
  | answered (t : T) (handed : List Receipt) (callId : Int64) (todo : List Effect)
      (here : s.thread t = .running handed (.send (.status callId) :: todo)) :
      Moved s (.go t)
        { s.setThread t (.running [] todo) with answered := s.answered ++ handed }
  | sent (t : T) (taken : Nat) (handed : List Receipt) (message : SubmitMessage) (fd : Int)
      (todo : List Effect) (here : s.thread t = .sending handed message fd todo) :
      Moved s (.send t taken)
        (s.setThread t (.running (handed ++ [s.receipt message fd taken]) todo))

section Numbers

variable {s t : NodeConnection T}

theorem nodeStep_moved {outcome : Outcome} (stepped : s.nodeStep outcome = some t) :
    NodeMoved s t := by
  unfold nodeStep at stepped
  split at stepped
  · rename_i here
    cases stepped
    exact .went s.pc rfl
  · rename_i here
    cases stepped
    exact .went .socket (by rw [here]; rfl)
  · rename_i here
    cases stepped
    exact .went (.assign (-1)) (by rw [here]; rfl)
  · rename_i fd here
    split at stepped
    · rename_i free
      cases stepped
      exact .opened fd (by rw [here]; rfl) free.2
    · cases stepped
  · rename_i fd here
    cases stepped
    exact .assigned fd .test (by rw [here]; rfl) rfl
  · rename_i here
    cases stepped
    refine .went _ ?_
    rw [here]
    split
    · rfl
    · rfl
  · rename_i here
    cases stepped
    exact .connected (by rw [here]; rfl)
  · rename_i here
    cases stepped
    exact .went .giveUp (by rw [here]; rfl)
  · cases stepped
    exact .closed
  · rename_i here
    cases stepped
    exact .went .close (by rw [here]; rfl)
  · cases stepped
    exact .closed
  · rename_i here
    cases stepped
    exact .assigned (-1) .getaddrinfo (by rw [here]; rfl) rfl
  · cases stepped

theorem acceptStep_moved [DecidableEq T] {fd : Int} (stepped : s.acceptStep fd = some t) :
    Moved s (.accept fd) t := by
  unfold acceptStep at stepped
  split at stepped
  · rename_i free
    cases stepped
    exact .referred _ fd .client (by simp [free.2]) (by simp)
  · cases stepped

theorem closeClientStep_moved [DecidableEq T] {fd : Int}
    (stepped : s.closeClientStep fd = some t) : Moved s (.closeClient fd) t := by
  unfold closeClientStep at stepped
  split at stepped
  · rename_i client
    cases stepped
    exact .referred _ fd .closed (by simp [client]) (by simp)
  · cases stepped

theorem goStep_moved [DecidableEq T] {thread : T} (stepped : s.goStep thread = some t) :
    Moved s (.go thread) t := by
  unfold goStep at stepped
  split at stepped
  · cases stepped
    exact .went _ thread _ (fun r member => by cases member)
  · rename_i here
    cases stepped
    refine .went _ thread _ ?_
    rw [here]
    exact fun r member => member
  · rename_i here
    cases stepped
    exact .answered thread _ _ _ here
  · rename_i here
    cases stepped
    refine .went _ thread _ ?_
    rw [here]
    exact fun r member => member
  · cases stepped

theorem sendStep_moved [DecidableEq T] {thread : T} {taken : Nat}
    (stepped : s.sendStep thread taken = some t) : Moved s (.send thread taken) t := by
  unfold sendStep at stepped
  split at stepped
  · rename_i here
    split at stepped
    · cases stepped
      exact .sent thread taken _ _ _ _ here
    · cases stepped
  · cases stepped

theorem next_moved [DecidableEq T] {a : ConnectionAction T} (stepped : next s a = some t) :
    Moved s a t := by
  cases a with
  | node outcome => exact .node outcome t (nodeStep_moved stepped)
  | accept fd => exact acceptStep_moved stepped
  | closeClient fd => exact closeClientStep_moved stepped
  | share thread env c callId nonce =>
      simp only [next, shareStep] at stepped
      split at stepped
      · cases stepped
        exact .went _ thread _ (fun r member => by cases member)
      · cases stepped
  | go thread => exact goStep_moved stepped
  | send thread taken => exact sendStep_moved stepped

/-- A number refers to the connected node socket only as `sock_fd`, and while the node thread
is connected. -/
def Wired (s : NodeConnection T) : Prop :=
  ∀ fd, s.table fd = .node true ↔ s.pc.connected = true ∧ fd = s.sockFd

theorem Wired.refer (before : Wired s) {fd : Int} {kind : Descriptor}
    (earlier : s.table fd ≠ .node true) (later : kind ≠ .node true) : Wired (s.refer fd kind) := by
  intro other
  by_cases same : other = fd
  · subst same
    have unwired : ¬ (s.pc.connected = true ∧ other = s.sockFd) :=
      fun wired => earlier ((before other).mpr wired)
    simp only [NodeConnection.refer, Function.update_self]
    exact iff_of_false later unwired
  · simp only [NodeConnection.refer, Function.update_of_ne same]
    exact before other

theorem Wired.away (before : Wired s) (here : s.pc.connected = false) (fd : Int) :
    s.table fd ≠ .node true := by
  intro wired
  have connected := ((before fd).mp wired).1
  rw [here] at connected
  cases connected

theorem nodeMoved_wired (before : Wired s) (moved : NodeMoved s t) : Wired t := by
  cases moved with
  | went pc same =>
      intro fd
      change s.table fd = .node true ↔ pc.connected = true ∧ fd = s.sockFd
      rw [same]
      exact before fd
  | opened fd here free =>
      intro other
      refine iff_of_false ?_ (fun impossible => by cases impossible.1)
      by_cases same : other = fd
      · simp [refer, same]
      · simp only [refer, Function.update_of_ne same]
        exact before.away here other
  | assigned fd pc here still =>
      intro other
      refine iff_of_false (before.away here other) ?_
      rintro ⟨connected, _⟩
      rw [still] at connected
      cases connected
  | connected here =>
      intro other
      by_cases same : other = s.sockFd
      · simp [refer, same, ReconnectPc.connected]
      · simp only [refer, Function.update_of_ne same]
        exact iff_of_false (before.away here other) (fun wired => same wired.2)
  | closed =>
      intro other
      refine iff_of_false ?_ (fun impossible => by cases impossible.1)
      by_cases same : other = s.sockFd
      · simp [refer, same]
      · simp only [refer, Function.update_of_ne same]
        exact fun wired => same ((before other).mp wired).2

theorem next_wired [DecidableEq T] {a : ConnectionAction T} (before : Wired s)
    (stepped : next s a = some t) : Wired t := by
  cases next_moved stepped with
  | node outcome _ moved => exact nodeMoved_wired before moved
  | referred _ fd kind earlier later => exact before.refer earlier later
  | went | answered | sent => exact before

theorem reachable_wired [DecidableEq T] (reached : (system T).Reachable s) : Wired s := by
  refine reached.invariant Wired ?_ ?_
  · intro s started
    cases started
    intro fd
    exact iff_of_false (by simp [start]) (fun impossible => by cases impossible.1)
  · intro s a t _ before stepped
    exact next_wired before stepped

end Numbers

section Results

variable {s t : NodeConnection T}

/-- A send reaches the node with the whole result exactly when the node thread is connected,
`sock_fd` is still the number that was loaded, and all the bytes are taken. -/
theorem receipt_delivered_iff (wired : Wired s) (message : SubmitMessage) (fd : Int)
    (taken : Nat) :
    (s.receipt message fd taken).Delivered ↔
      s.pc.connected = true ∧ fd = s.sockFd ∧ taken = message.text.length := by
  constructor
  · rintro ⟨target, whole⟩
    have here : s.table fd = .node true := target
    obtain ⟨connected, same⟩ := (wired fd).mp here
    simp only [receipt, here] at whole
    exact ⟨connected, same, whole⟩
  · rintro ⟨connected, same, whole⟩
    have here : s.table fd = .node true := (wired fd).mpr ⟨connected, same⟩
    simp only [Receipt.Delivered, receipt, here]
    exact ⟨trivial, whole⟩

/-- A send happens while the node thread is connected, with `sock_fd` as it was loaded, and
takes the whole message. -/
def InTime (s : NodeConnection T) : ConnectionAction T → Prop
  | .send t taken => ∀ handed message fd todo, s.thread t = .sending handed message fd todo →
      s.pc.connected = true ∧ fd = s.sockFd ∧ taken = message.text.length
  | _ => True

structure Complete (s : NodeConnection T) : Prop where
  handed : ∀ t, ∀ r ∈ (s.thread t).handed, r.Delivered
  answered : ∀ r ∈ s.answered, r.Delivered

variable [DecidableEq T]

theorem Complete.setThread (before : Complete s) (t : T) (pc : SubmitPc)
    (handed : ∀ r ∈ pc.handed, r.Delivered) : Complete (s.setThread t pc) where
  handed other r member := by
    by_cases same : other = t
    · subst same
      simp only [NodeConnection.setThread, Function.update_self] at member
      exact handed r member
    · simp only [NodeConnection.setThread, Function.update_of_ne same] at member
      exact before.handed other r member
  answered := before.answered

theorem moved_complete {a : ConnectionAction T} (before : Complete s) (wired : Wired s)
    (inTime : InTime s a) (moved : Moved s a t) : Complete t := by
  cases moved with
  | node outcome _ moved =>
      cases moved with
      | went | opened | assigned | connected | closed => exact ⟨before.handed, before.answered⟩
  | referred => exact ⟨before.handed, before.answered⟩
  | went _ thread pc same =>
      exact before.setThread thread pc (fun r member => before.handed thread r (same r member))
  | answered thread handed callId todo here =>
      have delivered := before.handed thread
      rw [here] at delivered
      have cleared := before.setThread thread (.running [] todo) (fun r member => by cases member)
      refine ⟨cleared.handed, ?_⟩
      intro r member
      rcases List.mem_append.mp member with old | new
      · exact before.answered r old
      · exact delivered r new
  | sent thread taken handed message fd todo here =>
      have delivered := before.handed thread
      rw [here] at delivered
      refine before.setThread thread _ ?_
      intro r member
      rcases List.mem_append.mp member with old | new
      · exact delivered r old
      · rw [List.mem_singleton.mp new]
        exact (receipt_delivered_iff wired message fd taken).mpr (inTime _ _ _ _ here)

theorem reachable_complete (reached : (system T).ReachableUnder InTime s) : Complete s := by
  refine reached.invariant Complete ?_ ?_
  · intro s started
    cases started
    exact ⟨fun _ _ member => (by cases member), fun _ member => (by cases member)⟩
  · intro s a t earlier before inTime stepped
    exact moved_complete before (reachable_wired earlier.reachable) inTime (next_moved stepped)

/-- In every run whose sends are in time, every result that was answered with OK is written
in full to the connected node socket. -/
theorem results_delivered (reached : (system T).ReachableUnder InTime s) :
    ∀ r ∈ s.answered, r.Delivered :=
  (reachable_complete reached).answered

end Results

section Answers

open Client

/-- A result that is handed to send_job_result is answered with OK. -/
theorem forwarded_answered (env : RequestEnv) (c : Client) (callId : Int64) (nonce : UInt32)
    (message : SubmitMessage)
    (handed : .submit message ∈ (checkShare env c callId nonce).2) :
    .send (.status callId) ∈ (checkShare env c callId nonce).2 := by
  obtain ⟨accepted, _, _⟩ := (submit_mem_checkShare env c callId nonce message).mp handed
  have reply : shareReply env c callId nonce = .status callId := by
    rw [shareReply, if_neg (by simp [accepted.1]), if_neg (UInt32.not_lt.mpr accepted.2)]
  rw [mem_checkShare_of_not_hashing _ _ _ _ _ (by simp [Hashing]), reply]
  exact .inr (.inr rfl)

end Answers

section Runs

def connectNode (fd : Int) : List (ConnectionAction Nat) :=
  [.node .done, .node (.descriptor fd), .node .done, .node .done, .node .done]

def shareUpToLoad : List (ConnectionAction Nat) :=
  .share 0 (Session.plainEnv .zero) (Session.plainMiner (Node.plainJob "randomx" 24)) 0 0 ::
    List.replicate 6 (.go 0)

/-- recv_main returns and the node thread closes its socket. -/
def loseNode : List (ConnectionAction Nat) := [.node .done, .node .done]

def sendAndAnswer : List (ConnectionAction Nat) :=
  let miner := Session.plainMiner (Node.plainJob "randomx" 24)
  let result := sendJobResult (Client.minedJob miner 0) (miner.fullNonce 0) .setAllZero
  [.send 0 result.text.length, .go 0, .go 0]

def inTime (s : NodeConnection Nat) : ConnectionAction Nat → Bool
  | .send t taken =>
      match s.thread t with
      | .sending _ message fd _ =>
          s.pc.connected && fd == s.sockFd && taken == message.text.length
      | _ => true
  | _ => true

theorem inTime_spec (s : NodeConnection Nat) (a : ConnectionAction Nat)
    (checked : inTime s a = true) : InTime s a := by
  cases a with
  | send t taken =>
      intro handed message fd todo here
      simpa [inTime, here, and_assoc] using checked
  | node | accept | closeClient | share | go => trivial

theorem result_delivered :
    ∃ s : NodeConnection Nat, s.answered.length = 1 ∧ ∀ r ∈ s.answered, r.Delivered := by
  obtain ⟨s, reached, one⟩ := System.exists_reachableUnder (S := system Nat) inTime inTime_spec rfl
    (connectNode 5 ++ shareUpToLoad ++ sendAndAnswer) (fun s => s.answered.length == 1)
    (by decide +kernel)
  exact ⟨s, beq_iff_eq.mp one, results_delivered reached⟩

/-- The node thread closes its socket after the load, and accept4 returns the same number:
the result goes to a client, and the submit is answered with OK. -/
theorem result_to_client :
    ∃ s, (system Nat).Reachable s ∧ ∃ r ∈ s.answered, r.target = .client ∧ ¬ r.Delivered := by
  obtain ⟨s, reached, found⟩ := System.exists_reachable (S := system Nat) rfl
    (connectNode 5 ++ shareUpToLoad ++ loseNode ++ [.accept 5] ++ sendAndAnswer)
    (fun s => s.answered.any (fun r => r.target == .client)) (by decide +kernel)
  obtain ⟨r, answered, client⟩ := List.any_eq_true.mp found
  have target : r.target = .client := beq_iff_eq.mp client
  refine ⟨s, reached, r, answered, target, ?_⟩
  rintro ⟨node, _⟩
  rw [target] at node
  cases node

end Runs

end NodeConnection

end EpicPoold
