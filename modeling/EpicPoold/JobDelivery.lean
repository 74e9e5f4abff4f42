import EpicPoold.DaemonSteps
import EpicPoold.PoolExit
import EpicPoold.Submission

/-! A new job reaches every miner: where it can be while a client still works on an
older one. -/

namespace EpicPoold

open Foundations

namespace Client

variable {S : Setting}

def Follows (holds : JobData → Prop) (c : Client) : Prop :=
  ∃ trace, Session.Inv holds ⟨c, trace⟩

def Knows (job : JobData) (c : Client) : Prop := c.aborting = true ∨ c.Follows (· = job)

theorem follows_construct (holds : JobData → Prop) (fd : Int) (extraNonce : UInt32)
    (stale : JobData) : (construct fd extraNonce stale).Follows holds := by
  refine ⟨[], ?_, ?_⟩
  · refine iff_of_false (by simp [construct]) ?_
    rintro ⟨callId, message, member⟩
    cases member
  · intro impossible
    cases impossible

section Calls

variable {holds : JobData → Prop}
  (bounds : ∀ job, holds job → 8 ≤ job.prepowLen.toNat ∧ job.prepowLen.toNat ≤ prepowSize)

include bounds

theorem Follows.onSocketRead {c : Client} (before : c.Follows holds) {env : SocketEnv}
    (supplied : ∀ k, holds (env.request k).currentJob) :
    Follows holds (S.cliType.onSocketRead env c).2 := by
  obtain ⟨trace, inv⟩ := before
  obtain ⟨effects, after⟩ := onSocketRead_kept S.maxCallsPerMin S.parse holds (Session.Inv holds)
    (Session.next_inv bounds) supplied inv
  exact ⟨trace ++ effects, after⟩

theorem follows_onNewBlock {c : Client} {earlier : JobData → Prop} (before : c.Follows earlier)
    {env : RequestEnv} (supplied : holds env.currentJob) (alive : c.aborting = false) :
    Follows holds (S.cliType.onNewBlock env c).2 := by
  obtain ⟨trace, inv⟩ := before
  exact ⟨_, Session.newBlock_inv bounds ⟨c, trace⟩ env supplied inv.login alive⟩

end Calls

theorem published_bounds (job : PublishedJob S) (other : JobData) (same : other = job.job) :
    8 ≤ other.prepowLen.toNat ∧ other.prepowLen.toNat ≤ prepowSize := by
  rw [same]
  exact Node.published_prepowLen job.job job.published

theorem Knows.onSocketRead {c : Client} {job : PublishedJob S} (before : c.Knows job.job)
    {env : SocketEnv} (supplied : ∀ k, (env.request k).currentJob = job.job) :
    Knows job.job (S.cliType.onSocketRead env c).2 := by
  rcases before with aborting | follows
  · rw [onSocketRead_aborting S.maxCallsPerMin S.parse env aborting]
    exact .inl aborting
  · exact .inr (follows.onSocketRead (published_bounds job) supplied)

end Client

namespace ClientPool

variable {S : Setting} {n : Nat}

def inBlock : PoolPc n → Option Nat
  | .block start _ => some start
  | .removing _ (.block start _) => some start
  | .decrement (.block start _) => some start
  | _ => none

/-- A message of on_new_block is in the pipe. -/
def Pending (p : ClientPool S.cliType n) : Prop := ∃ m ∈ p.pipe, m.adds = false

/-- A new-block message has still to be handled for this slot: it is in the pipe or in
hand, or the loop over the clients has not come to the slot. -/
inductive Awaits (p : ClientPool S.cliType n) (i : Fin n) : Prop
  | pending (pending : Pending p)
  | inHand (m : PipeMsg) (todo : List (PoolEvent n)) (here : p.pc = .message m todo)
      (posted : m.adds = false)
  | ahead (start : Nat) (here : inBlock p.pc = some start) (later : start ≤ i.val)

/-- Every client has the job, unless the pool is owed a new-block message or has not
handled one. -/
structure Delivered (job : PublishedJob S) (owed : Prop) (p : ClientPool S.cliType n) : Prop where
  follows : ∀ i c, p.clients i = some c → Client.Follows (Node.Published S.getEpochNumber) c.cli
  knows : ∀ i c, p.clients i = some c → owed ∨ Awaits p i ∨ Client.Knows job.job c.cli

/-- What get_current_job returns during the step. -/
def Offers (holds : JobData → Prop) : PoolAction S.cliType n → Prop
  | .read (env : Client.SocketEnv) => ∀ k, holds (env.request k).currentJob
  | .block (env : RequestEnv) => holds env.currentJob
  | _ => True

section Steps

variable {p q : ClientPool S.cliType n} {job : PublishedJob S} {owed : Prop}

theorem Awaits.go {i : Fin n} (awaits : Awaits p i) (pipe : q.pipe = p.pipe)
    (idle : ∀ m todo, p.pc = .message m todo → m.adds = true)
    (block : inBlock q.pc = inBlock p.pc) : Awaits q i := by
  cases awaits with
  | pending pending =>
      refine .pending ?_
      rwa [Pending, pipe]
  | inHand m todo here posted =>
      rw [idle m todo here] at posted
      cases posted
  | ahead start here later => exact .ahead start (block.trans here) later

theorem Delivered.move (before : Delivered job owed p) (clients : q.clients = p.clients)
    (awaits : ∀ i c, p.clients i = some c → Awaits p i → Awaits q i) : Delivered job owed q where
  follows i c there := before.follows i c (by rwa [clients] at there)
  knows i c there := by
    rw [clients] at there
    rcases before.knows i c there with owes | waits | knows
    · exact .inl owes
    · exact .inr (.inl (awaits i c there waits))
    · exact .inr (.inr knows)

theorem Delivered.go (before : Delivered job owed p) (pc : PoolPc n)
    (idle : ∀ m todo, p.pc = .message m todo → m.adds = true)
    (block : inBlock pc = inBlock p.pc) : Delivered job owed { p with pc := pc } :=
  before.move rfl (fun _ _ _ awaits => awaits.go rfl idle block)

theorem Delivered.touch (before : Delivered job owed p) (i : Fin n) (c : Placed S.cliType)
    (cli : Client) (pc : PoolPc n)
    (follows : Client.Follows (Node.Published S.getEpochNumber) cli)
    (knows : owed ∨ Awaits { p with pc := pc } i ∨ Client.Knows job.job cli)
    (awaits : ∀ j d, j ≠ i → p.clients j = some d → Awaits p j → Awaits { p with pc := pc } j) :
    Delivered job owed { p with clients := p.touch i c cli, pc := pc } := by
  have same : ∀ j, Awaits { p with pc := pc } j →
      Awaits { p with clients := p.touch i c cli, pc := pc } j := by
    intro j waits
    cases waits with
    | pending pending => exact .pending pending
    | inHand m todo here posted => exact .inHand m todo here posted
    | ahead start here later => exact .ahead start here later
  constructor
  · intro j d there
    by_cases own : j = i
    · subst own
      simp only [ClientPool.touch, Slots.put_same] at there
      cases there
      exact follows
    · simp only [ClientPool.touch, Slots.put_other _ _ own] at there
      exact before.follows j d there
  · intro j d there
    by_cases own : j = i
    · subst own
      simp only [ClientPool.touch, Slots.put_same] at there
      cases there
      rcases knows with owes | waits | known
      · exact .inl owes
      · exact .inr (.inl (same j waits))
      · exact .inr (.inr known)
    · simp only [ClientPool.touch, Slots.put_other _ _ own] at there
      rcases before.knows j d there with owes | waits | known
      · exact .inl owes
      · exact .inr (.inl (same j (awaits j d own there waits)))
      · exact .inr (.inr known)

theorem Delivered.read (before : Delivered job owed p) {env : Client.SocketEnv} {i : Fin n}
    {mev : UInt32} {serial : Nat} {todo : List (PoolEvent n)} {c : Placed S.cliType}
    (here : p.pc = .events (.client i mev serial :: todo)) (there : p.clients i = some c)
    (published : ∀ k, Node.Published S.getEpochNumber (env.request k).currentJob)
    (current : owed ∨ Pending p ∨ ∀ k, (env.request k).currentJob = job.job) (pc : PoolPc n)
    (block : inBlock pc = none) :
    Delivered job owed
      { p with clients := p.touch i c (S.cliType.onSocketRead env c.cli).2, pc := pc } := by
  have idle : ∀ m todo, p.pc = .message m todo → m.adds = true := by
    intro m todo impossible
    rw [here] at impossible
    cases impossible
  have outside : inBlock pc = inBlock p.pc := by
    rw [block, here]
    rfl
  refine before.touch i c _ pc ?_ ?_ (fun j d _ _ waits => waits.go rfl idle outside)
  · exact (before.follows i c there).onSocketRead Node.published_prepowLen published
  · rcases current with owes | pending | offers
    · exact .inl owes
    · exact .inr (.inl (.pending pending))
    · rcases before.knows i c there with owes | waits | knows
      · exact .inl owes
      · exact .inr (.inl (waits.go rfl idle outside))
      · exact .inr (.inr (knows.onSocketRead offers))

theorem Delivered.removed (before : Delivered job owed p) (idx : Fin n) (ret : Return n)
    (here : p.pc = .removing idx ret) :
    Delivered job owed { p with clients := p.clients.clear idx, pc := .decrement ret } := by
  have kept : ∀ j c, p.clients.clear idx j = some c → p.clients j = some c := by
    intro j c there
    by_cases own : j = idx
    · subst own
      rw [Slots.clear_same] at there
      cases there
    · rwa [Slots.clear_other _ own] at there
  refine ⟨fun j c there => before.follows j c (kept j c there), ?_⟩
  intro j c there
  rcases before.knows j c (kept j c there) with owes | waits | knows
  · exact .inl owes
  · refine .inr (.inl (waits.go rfl ?_ ?_))
    · intro m todo impossible
      rw [here] at impossible
      cases impossible
    · rw [here]
      cases ret <;> rfl
  · exact .inr (.inr knows)

theorem Delivered.popped (before : Delivered job owed p) (todo : List (PoolEvent n))
    (m : PipeMsg) (rest : List PipeMsg) (here : p.pc = .pipe todo) (front : p.pipe = m :: rest) :
    Delivered job owed { p with pipe := rest, pc := .message m todo } := by
  refine before.move rfl ?_
  intro i c _ awaits
  cases awaits with
  | pending pending =>
      obtain ⟨other, member, posted⟩ := pending
      rw [front] at member
      rcases List.mem_cons.mp member with rfl | later
      · exact .inHand other todo rfl posted
      · exact .pending ⟨other, later, posted⟩
  | inHand _ _ there _ =>
      rw [here] at there
      cases there
  | ahead _ there _ =>
      rw [here] at there
      cases there

theorem Delivered.added (before : Delivered job owed p) (i : Fin n) (serial : Nat)
    (cli : Client) (m : PipeMsg) (todo : List (PoolEvent n)) (here : p.pc = .message m todo)
    (adds : m.adds = true) (made : ∀ holds, cli.Follows holds) :
    Delivered job owed
      { p with
        clients := p.clients.put i ⟨serial, cli⟩
        nextSerial := p.nextSerial + 1
        pc := .pipe todo } := by
  constructor
  · intro j c there
    by_cases own : j = i
    · subst own
      simp only [Slots.put_same] at there
      cases there
      exact made _
    · simp only [Slots.put_other _ _ own] at there
      exact before.follows j c there
  · intro j c there
    by_cases own : j = i
    · subst own
      simp only [Slots.put_same] at there
      cases there
      exact .inr (.inr (.inr (made _)))
    · simp only [Slots.put_other _ _ own] at there
      rcases before.knows j c there with owes | waits | knows
      · exact .inl owes
      · refine .inr (.inl (waits.go rfl ?_ ?_))
        · intro other others there
          rw [here] at there
          cases there
          exact adds
        · rw [here]
          rfl
      · exact .inr (.inr knows)

theorem Delivered.newBlock (before : Delivered job owed p) (m : PipeMsg)
    (todo : List (PoolEvent n)) (here : p.pc = .message m todo) :
    Delivered job owed { p with pc := .block 0 todo } := by
  refine before.move rfl ?_
  intro i c _ awaits
  cases awaits with
  | pending pending => exact .pending pending
  | inHand _ _ _ _ => exact .ahead 0 rfl (Nat.zero_le _)
  | ahead _ there _ =>
      rw [here] at there
      cases there

theorem Delivered.blockDone (before : Delivered job owed p) (start : Nat)
    (todo : List (PoolEvent n)) (here : p.pc = .block start todo)
    (last : p.clients.nextTaken start = none) : Delivered job owed { p with pc := .pipe todo } := by
  refine before.move rfl ?_
  intro i c there awaits
  cases awaits with
  | pending pending => exact .pending pending
  | inHand _ _ impossible _ =>
      rw [here] at impossible
      cases impossible
  | ahead _ reached later =>
      rw [here] at reached
      cases reached
      rw [Slots.nextTaken_eq_none last later] at there
      cases there

theorem Delivered.block (before : Delivered job owed p) {env : RequestEnv} {start : Nat}
    {todo : List (PoolEvent n)} {i : Fin n} {c : Placed S.cliType} (here : p.pc = .block start todo)
    (next : p.clients.nextTaken start = some i) (there : p.clients i = some c)
    (published : Node.Published S.getEpochNumber env.currentJob)
    (current : owed ∨ Pending p ∨ env.currentJob = job.job) (pc : PoolPc n)
    (block : inBlock pc = some (i.val + 1)) :
    Delivered job owed
      { p with clients := p.touch i c (S.cliType.onNewBlock env c.cli).2, pc := pc } := by
  have follows := before.follows i c there
  refine before.touch i c _ pc ?_ ?_ ?_
  · rcases alive : Client.aborting c.cli with _ | _
    · exact Client.follows_onNewBlock Node.published_prepowLen follows published alive
    · have same : (S.cliType.onNewBlock env c.cli).2 = c.cli := by
        change (Client.onNewBlock env c.cli).2.1 = c.cli
        rw [Client.onNewBlock_aborting env _ alive]
      rw [same]
      exact follows
  · rcases current with owes | pending | offers
    · exact .inl owes
    · exact .inr (.inl (.pending pending))
    · right
      right
      rcases alive : Client.aborting c.cli with _ | _
      · exact .inr (Client.follows_onNewBlock (Client.published_bounds job) follows offers alive)
      · left
        change Client.aborting (Client.onNewBlock env c.cli).2.1 = true
        rw [Client.onNewBlock_aborting env _ alive]
        exact alive
  · intro j d other present awaits
    cases awaits with
    | pending pending => exact .pending pending
    | inHand _ _ impossible _ =>
        rw [here] at impossible
        cases impossible
    | ahead _ reached later =>
        rw [here] at reached
        cases reached
        have passed := Slots.nextTaken_le next later (by rw [present]; simp)
        have apart : i.val ≠ j.val := fun same => other (Fin.ext same.symm)
        exact .ahead (i.val + 1) block (by omega)

theorem step_delivered {a : PoolAction S.cliType n} (before : Delivered job owed p)
    (published : Offers (Node.Published S.getEpochNumber) a)
    (current : owed ∨ Pending p ∨ Offers (· = job.job) a) (stepped : p.step a = some q) :
    Delivered job owed q := by
  have idle : ∀ pc, p.pc = pc → (∀ m todo, pc ≠ .message m todo) →
      ∀ m todo, p.pc = .message m todo → m.adds = true := by
    intro pc here apart m todo there
    exact absurd (here.symm.trans there) (apart m todo)
  cases step_moved stepped with
  | interrupted here | batchDone _ here | again _ here _ | leave _ here _ =>
      exact before.go _ (idle _ here (by simp)) (by rw [here]; rfl)
  | collected _ _ here _ _ => exact before.go _ (idle _ here (by simp)) (by rw [here]; rfl)
  | pipeEvent _ _ here | nullRead _ _ _ _ _ here _ _ | hangUp _ _ _ _ _ here _
  | pipeEmpty _ _ here _ =>
      exact before.go _ (idle _ here (by simp)) (by rw [here]; rfl)
  | readKept env i mev serial todo c cli here _ there ran =>
      have after := before.read here there published current (.events todo) rfl
      rwa [ran] at after
  | readEnded env i mev serial todo c cli here _ there ran =>
      have after := before.read here there published current (.removing i (.events todo)) rfl
      rwa [ran] at after
  | alreadyGone _ idx ret here _ =>
      refine before.go _ (idle _ here (by simp)) ?_
      rw [here]
      cases ret <;> rfl
  | removed _ idx ret c here there => exact before.removed idx ret here
  | decremented _ ret here =>
      refine before.move rfl (fun i c there awaits => awaits.go rfl (idle _ here (by simp)) ?_)
      rw [here]
      cases ret <;> rfl
  | popped _ todo m rest here front => exact before.popped todo m rest here front
  | overflow _ _ m todo here adds _ | refused _ _ m todo here adds _ =>
      refine before.go _ ?_ (by rw [here]; rfl)
      intro other others there
      rw [here] at there
      cases there
      exact adds
  | added env m todo i cli here adds _ made =>
      refine before.added i p.nextSerial cli m todo here adds ?_
      intro holds
      simp only [Setting.cliType, Client.cliType] at made
      split at made
      · cases made
        exact Client.follows_construct holds _ _ _
      · cases made
  | newBlock _ m todo here _ => exact before.newBlock m todo here
  | blockDone _ start todo here last => exact before.blockDone start todo here last
  | blockKept env start todo i c cli here next there ran =>
      have after := before.block here next there published current (.block (i.val + 1) todo) rfl
      rwa [ran] at after
  | blockEnded env start todo i c cli here next there ran =>
      have after := before.block here next there published current
        (.removing i (.block (i.val + 1) todo)) rfl
      rwa [ran] at after
  | finished _ here =>
      exact before.move rfl (fun i c there awaits => awaits.go rfl (idle _ here (by simp))
        (by rw [here]; rfl))

theorem Delivered.outside {owed' : Prop} (before : Delivered job owed p)
    (clients : q.clients = p.clients) (pc : q.pc = p.pc) (pipe : ∀ m ∈ p.pipe, m ∈ q.pipe)
    (owes : owed → owed' ∨ Pending q) : Delivered job owed' q where
  follows i c there := before.follows i c (by rwa [clients] at there)
  knows i c there := by
    rw [clients] at there
    rcases before.knows i c there with owed | waits | knows
    · rcases owes owed with still | pending
      · exact .inl still
      · exact .inr (.inl (.pending pending))
    · right
      left
      cases waits with
      | pending pending =>
          obtain ⟨m, member, posted⟩ := pending
          exact .pending ⟨m, pipe m member, posted⟩
      | inHand m todo here posted => exact .inHand m todo (pc.trans here) posted
      | ahead start here later => exact .ahead start (by rw [pc, here]) later
    · exact .inr (.inr knows)

structure CaughtUp (p : ClientPool S.cliType n) : Prop where
  pipe : ∀ m ∈ p.pipe, m.adds = true
  inHand : ∀ m todo, p.pc = .message m todo → m.adds = true
  block : inBlock p.pc = none

theorem CaughtUp.not_awaits (caught : CaughtUp p) (i : Fin n) : ¬ Awaits p i := by
  intro awaits
  cases awaits with
  | pending pending =>
      obtain ⟨m, member, posted⟩ := pending
      rw [caught.pipe m member] at posted
      cases posted
  | inHand m todo here posted =>
      rw [caught.inHand m todo here] at posted
      cases posted
  | ahead start here _ =>
      rw [caught.block] at here
      cases here

theorem delivered_new (job : PublishedJob S) (owed : Prop) :
    Delivered job owed (.new S.cliType n) :=
  ⟨fun _ _ there => (by cases there), fun _ _ there => (by cases there)⟩

end Steps

section Ends

variable {K : CliType} {p q : ClientPool K n}

/-- A thread past its exit test has no clients left, and has finished only at its end. -/
structure Gone (p : ClientPool K n) : Prop where
  finished : p.thdFinished = true → p.pc = .done
  empty : leaving p.pc = true → ∀ i, p.clients i = none

theorem gone_of_stays (before : Gone p) (running : p.pc ≠ .done) (stays : leaving q.pc = false)
    (same : q.thdFinished = p.thdFinished) : Gone q where
  finished ended := by
    rw [same] at ended
    exact absurd (before.finished ended) running
  empty gone := by
    rw [stays] at gone
    cases gone

theorem step_gone (a : PoolAction K n) (before : Gone p)
    (counted : p.clients.occupied ≤ p.activeCnt.toNat) (stepped : p.step a = some q) : Gone q := by
  cases step_moved stepped with
  | interrupted here | collected _ _ here _ _ | batchDone _ here | pipeEvent _ _ here
  | nullRead _ _ _ _ _ here _ _ | readKept _ _ _ _ _ _ _ here _ _ _
  | readEnded _ _ _ _ _ _ _ here _ _ _ | hangUp _ _ _ _ _ here _ | removed _ _ _ _ here _
  | pipeEmpty _ _ here _ | popped _ _ _ _ here _ | overflow _ _ _ _ here _ _
  | refused _ _ _ _ here _ _ | added _ _ _ _ _ here _ _ _ | newBlock _ _ _ here _
  | blockDone _ _ _ here _ | blockKept _ _ _ _ _ _ here _ _ _
  | blockEnded _ _ _ _ _ _ here _ _ _ | again _ here _ =>
      exact gone_of_stays before (by simp [here]) rfl rfl
  | alreadyGone _ _ ret here _ | decremented _ ret here =>
      exact gone_of_stays before (by simp [here]) (leaving_ret ret) rfl
  | leave _ here idle =>
      constructor
      · intro ended
        have done := before.finished ended
        rw [here] at done
        cases done
      · intro _ i
        apply Slots.eq_none_of_occupied
        rw [idle] at counted
        exact Nat.le_zero.mp counted
  | finished _ here => exact ⟨fun _ => rfl, fun _ => before.empty (by rw [here]; rfl)⟩

theorem step_finished {a : PoolAction K n} (stepped : p.step a = some q)
    (unfinished : q.thdFinished = false) : p.thdFinished = false := by
  cases step_moved stepped with
  | finished => cases unfinished
  | interrupted | collected | batchDone | pipeEvent | nullRead | readKept | readEnded | hangUp
  | alreadyGone | removed | decremented | pipeEmpty | popped | overflow | refused | added
  | newBlock | blockDone | blockKept | blockEnded | again | leave => exact unfinished

end Ends

end ClientPool

/-- notify_new_block has still to come to the pool. -/
def NotifyPc.owes : NotifyPc → Nat → Prop
  | .lock, _ => True
  | pc, id => id ∈ pc.mentions

namespace Server

open ClientPool

section Lists

variable {K : CliType} {n : PoolSize} {s t : Server K n.size}

structure Listed (s : Server K n.size) : Prop where
  listed : ∀ id, id < s.created → (s.pool id).thdFinished = false → id ∈ s.pools
  gone : ∀ id, Gone (s.pool id)

theorem next_pools {act : ServerAction K n.size} (stepped : next s act = some t) (id : Nat)
    (listed : id ∈ s.pools) (unfinished : (s.pool id).thdFinished = false) : id ∈ t.pools := by
  have apart : ∀ other, (s.pool other).thdFinished = true → id ≠ other := by
    intro other finished same
    rw [same, finished] at unfinished
    cases unfinished
  cases next_moved stepped with
  | listener _ moved =>
      cases moved with
      | erased sck other rest here finished =>
          exact (List.mem_erase_of_ne (apart other finished)).mpr listed
      | created => exact List.mem_append_left _ listed
      | locked | noneLeft | running | full | chose | counted | wrote | unlocked => exact listed
  | node _ moved =>
      cases moved with
      | erased other rest here finished =>
          exact (List.mem_erase_of_ne (apart other finished)).mpr listed
      | locked | noneLeft | running | gotActive | posted | unlocked => exact listed
  | accepted | notified | pool => exact listed

theorem next_created {act : ServerAction K n.size} (stepped : next s act = some t) :
    t.created = s.created ∨ t.created = s.created + 1 ∧ s.created ∈ t.pools := by
  cases next_moved stepped with
  | listener _ moved =>
      cases moved with
      | created => exact .inr ⟨rfl, List.mem_append_right _ (List.mem_singleton.mpr rfl)⟩
      | locked | noneLeft | erased | running | full | chose | counted | wrote | unlocked =>
          exact .inl rfl
  | node _ moved =>
      cases moved with
      | locked | noneLeft | erased | running | gotActive | posted | unlocked => exact .inl rfl
  | accepted | notified | pool => exact .inl rfl

theorem next_listed {act : ServerAction K n.size} (before : Listed s) (inv : Inv s)
    (stepped : next s act = some t) : Listed t := by
  have earlier : ∀ id, (t.pool id).thdFinished = false → (s.pool id).thdFinished = false := by
    intro id unfinished
    rcases next_pool stepped id with outside | ⟨a, _, moved⟩
    · rw [← outside.thdFinished]
      exact unfinished
    · exact step_finished moved unfinished
  constructor
  · intro id present unfinished
    have running := earlier id unfinished
    rcases next_created stepped with same | ⟨more, listed⟩
    · rw [same] at present
      exact next_pools stepped id (before.listed id present running) running
    · rw [more] at present
      rcases Nat.lt_succ_iff_lt_or_eq.mp present with old | new
      · exact next_pools stepped id (before.listed id old running) running
      · rw [new]
        exact listed
  · intro id
    rcases next_pool stepped id with outside | ⟨a, _, moved⟩
    · constructor
      · rw [outside.thdFinished, outside.pc]
        exact (before.gone id).finished
      · rw [outside.pc, outside.clients]
        exact (before.gone id).empty
    · refine step_gone a (before.gone id) ?_ moved
      have counted := inv.counted id
      rw [account] at counted
      omega

theorem reachable_listed (reached : (system K n.size).Reachable s) : Listed s := by
  refine reached.invariant Listed ?_ ?_
  · intro s started
    cases started
    constructor
    · intro id present
      cases present
    · intro id
      exact ⟨fun ended => (by cases ended), fun gone => (by cases gone)⟩
  · intro s act t earlier before stepped
    exact next_listed before (reachable_inv earlier).1 stepped

theorem finished_empty (reached : (system K n.size).Reachable s) {id : Nat}
    (finished : (s.pool id).thdFinished = true) (i : Fin n.size) :
    (s.pool id).clients i = none := by
  have gone := (reachable_listed reached).gone id
  refine gone.empty ?_ i
  rw [gone.finished finished]
  rfl

theorem next_pipe {act : ServerAction K n.size} (stepped : next s act = some t) (id : Nat)
    (other : ∀ a, act ≠ .pool id a) : ∀ m ∈ (s.pool id).pipe, m ∈ (t.pool id).pipe := by
  have posted : ∀ target m, ∀ k ∈ (s.pool id).pipe,
      k ∈ ((s.setPool target ((s.pool target).post m)).pool id).pipe := by
    intro target m k member
    by_cases same : id = target
    · subst same
      rw [setPool_same]
      exact List.mem_append_left _ member
    · rwa [setPool_other _ _ same]
  cases next_moved stepped with
  | listener _ moved =>
      cases moved with
      | counted sck target here =>
          intro m member
          change m ∈ ((s.setPool target (s.pool target).count).pool id).pipe
          by_cases same : id = target
          · subst same
            rw [setPool_same]
            exact member
          · rwa [setPool_other _ _ same]
      | wrote sck target here => exact posted target _
      | locked | noneLeft | erased | running | full | chose | created | unlocked =>
          exact fun _ member => member
  | node _ moved =>
      cases moved with
      | posted target rest here => exact posted target _
      | locked | noneLeft | erased | running | gotActive | unlocked =>
          exact fun _ member => member
  | accepted | notified => exact fun _ member => member
  | pool target a q present ran =>
      have apart : id ≠ target := fun same => other a (by rw [same])
      rw [setPool_other _ _ apart]
      exact fun _ member => member


/-- An unfinished pool that notify_new_block has to come to gets its message in the
end. -/
theorem nodeMoved_owes (moved : NodeMoved s t) (id : Nat) (listed : id ∈ s.pools)
    (unfinished : (s.pool id).thdFinished = false) (owes : s.node.owes id) :
    t.node.owes id ∨ ∃ m ∈ (t.pool id).pipe, m.adds = false := by
  cases moved with
  | locked => exact .inl listed
  | noneLeft here =>
      rw [here] at owes
      cases owes
  | erased other rest here finished =>
      rw [here] at owes
      left
      rcases List.mem_cons.mp owes with rfl | later
      · rw [unfinished] at finished
        cases finished
      · exact later
  | running other rest here unfinished =>
      rw [here] at owes
      exact .inl owes
  | gotActive other rest here =>
      rw [here] at owes
      exact .inl owes
  | posted other rest here =>
      rw [here] at owes
      rcases List.mem_cons.mp owes with rfl | later
      · refine .inr ⟨⟨dummyNewBlockFd⟩, ?_, rfl⟩
        change _ ∈ ((s.setPool id ((s.pool id).post ⟨dummyNewBlockFd⟩)).pool id).pipe
        rw [setPool_same]
        exact List.mem_append_right _ (List.mem_singleton.mpr rfl)
      · exact .inl later
  | unlocked here =>
      rw [here] at owes
      cases owes

/-- Only the node thread is in notify_new_block. -/
theorem next_node {act : ServerAction K n.size} (stepped : next s act = some t)
    (other : act ≠ .node ∧ act ≠ .notify) : t.node = s.node := by
  cases next_moved stepped with
  | listener _ moved => cases moved <;> rfl
  | node => exact absurd rfl other.1
  | notified => exact absurd rfl other.2
  | accepted | pool => rfl

end Lists

end Server

namespace Daemon

open ClientPool

variable {S : Setting} {d e : Daemon S} {act : DaemonAction S}

/-- The node thread has stored the current job and has still to come to this pool. The
tls pools are notified after the plain ones. -/
def Owed (d : Daemon S) (port : Port) (id : Nat) : Prop :=
  (d.server port).node.owes id ∨ port = .tls ∧ (d.server .plain).node ≠ .idle

/-- Everything but a step of notify_new_block leaves the debt of the node thread alone. -/
theorem owed_of_node (node : ∀ port, (e.server port).node = (d.server port).node) {port : Port}
    {id : Nat} (owed : Owed d port id) : Owed e port id := by
  rw [Owed, node port, node .plain]
  exact owed

theorem setServer_node {walker : Port} {server : Server S.cliType walker.size}
    (same : server.node = (d.server walker).node) (port : Port) :
    ((d.setServer walker server).server port).node = (d.server port).node := by
  by_cases here : port = walker
  · subst here
    rw [setServer_same, same]
  · rw [setServer_other d server here]

theorem nodeMoved_not_idle {K : CliType} {n : Nat} {s t : Server K n}
    (moved : Server.NodeMoved s t) (within : s.node ≠ .unlock) : t.node ≠ .idle := by
  cases moved with
  | unlocked here => exact absurd here within
  | locked | noneLeft | erased | running | gotActive | posted => simp

theorem walked_owed {walker : Port} {server : Server S.cliType walker.size}
    (turn : walker = .tls → (d.server .plain).node = .idle)
    (within : walker = .plain → (d.server .plain).node ≠ .unlock)
    (moved : Server.NodeMoved (d.server walker) server) (port : Port) (id : Nat)
    (listed : id ∈ (d.server port).pools)
    (unfinished : ((d.server port).pool id).thdFinished = false) (owed : Owed d port id) :
    Owed (d.setServer walker server) port id ∨
      Pending (((d.setServer walker server).server port).pool id) := by
  by_cases here : port = walker
  · subst here
    rcases owed with owes | ⟨rfl, busy⟩
    · rw [setServer_same]
      rcases Server.nodeMoved_owes (n := port.poolSize) moved id listed unfinished owes with
        still | pending
      · left
        left
        rwa [setServer_same]
      · exact .inr pending
    · exact absurd (turn rfl) busy
  · left
    rcases owed with owes | ⟨rfl, busy⟩
    · left
      rwa [setServer_other d server here]
    · have plain : walker = .plain := by
        cases walker with
        | plain => rfl
        | tls => exact absurd rfl here
      subst plain
      right
      refine ⟨rfl, ?_⟩
      rw [setServer_same]
      exact nodeMoved_not_idle moved (within rfl)

theorem moved_owed (moved : Moved d act e) (port : Port) (id : Nat)
    (listed : id ∈ (d.server port).pools)
    (unfinished : ((d.server port).pool id).thdFinished = false) (owed : Owed d port id) :
    Owed e port id ∨ Pending ((e.server port).pool id) := by
  cases moved with
  | stored job server idle stepped =>
      left
      have locked : server.node = .lock := by
        cases Server.next_moved stepped with
        | notified => rfl
      cases port with
      | plain =>
          left
          rw [afterStore_server, setServer_same, locked]
          trivial
      | tls =>
          right
          refine ⟨rfl, ?_⟩
          rw [afterStore_server, setServer_same, locked]
          simp
  | walked walker server turn within stepped =>
      cases Server.next_moved stepped with
      | node _ moved => exact walked_owed turn within moved port id listed unfinished owed
  | handedOver server other last stepped notified =>
      cases port with
      | plain =>
          rcases owed with owes | ⟨impossible, _⟩
          · rw [last] at owes
            cases owes
          · cases impossible
      | tls =>
          cases Server.next_moved notified with
          | notified idle =>
              left
              left
              rw [setServer_same]
              trivial
  | accepted target sck server reusable stepped =>
      exact .inl (owed_of_node (setServer_node
        (Server.next_node (n := target.poolSize) stepped (by simp))) owed)
  | refused => exact .inl owed
  | listened target server stepped =>
      exact .inl (owed_of_node (setServer_node
        (Server.next_node (n := target.poolSize) stepped (by simp))) owed)
  | pooled target other a times q present ran =>
      refine .inl (owed_of_node ?_ owed)
      intro port
      rw [afterPool_server]
      refine setServer_node ?_ port
      rfl

/-- For a pool that has not finished: what get_current_job may return is out of date only
while a message is on its way, and every client has the job unless one is. -/
structure Served (d : Daemon S) (port : Port) (id : Nat) : Prop where
  seen : id < (d.server port).created → ((d.server port).pool id).thdFinished = false →
    Owed d port id ∨ Pending ((d.server port).pool id) ∨ d.seen port id = [d.currentJob]
  unseen : (d.server port).created ≤ id → d.seen port id = [d.currentJob]
  delivered : ((d.server port).pool id).thdFinished = false →
    Delivered d.currentJob (Owed d port id) ((d.server port).pool id)

theorem moved_created (moved : Moved d act e) (port : Port) :
    (e.server port).created = (d.server port).created ∨
      (e.server port).created = (d.server port).created + 1 := by
  rcases moved_server moved port with same | ⟨a, stepped, _⟩
  · rw [same]
    exact .inl rfl
  · rcases Server.next_created (n := port.poolSize) stepped with same | ⟨more, _⟩
    · exact .inl same
    · exact .inr more

structure Aside (d e : Daemon S) (port : Port) (id : Nat) : Prop where
  job : e.currentJob = d.currentJob
  seen : e.seen port id = d.seen port id
  clients : ((e.server port).pool id).clients = ((d.server port).pool id).clients
  pc : ((e.server port).pool id).pc = ((d.server port).pool id).pc
  thdFinished : ((e.server port).pool id).thdFinished = ((d.server port).pool id).thdFinished
  pipe : ∀ m ∈ ((d.server port).pool id).pipe, m ∈ ((e.server port).pool id).pipe

theorem moved_pipe (moved : Moved d act e) (port : Port) (id : Nat)
    (other : ∀ a times, act ≠ .pool port id a times) :
    ∀ m ∈ ((d.server port).pool id).pipe, m ∈ ((e.server port).pool id).pipe := by
  rcases moved_server moved port with same | ⟨a, stepped, pooled⟩
  · rw [same]
    exact fun _ member => member
  · refine Server.next_pipe (n := port.poolSize) stepped id ?_
    intro b own
    obtain ⟨c, times, mine, _⟩ := pooled id b own
    exact other c times mine

theorem moved_aside (moved : Moved d act e) (port : Port) (id : Nat)
    (other : ∀ a times, act ≠ .pool port id a times) (kept : ∀ job, act ≠ .store job) :
    Aside d e port id := by
  obtain ⟨_, clients, thdFinished, pc, _⟩ := moved_outside moved port id other
  have pipe := moved_pipe moved port id other
  have rest : e.currentJob = d.currentJob ∧ e.seen port id = d.seen port id := by
    cases moved with
    | stored job => exact absurd rfl (kept job)
    | pooled target k a times q present ran =>
        refine ⟨rfl, if_neg ?_⟩
        rintro ⟨rfl, rfl⟩
        exact other a times rfl
    | walked | handedOver | accepted | refused | listened => exact ⟨rfl, rfl⟩
  exact ⟨rest.1, rest.2, clients, pc, thdFinished, pipe⟩

/-- The result of get_current_job is one of the jobs seen since the pool's last step, or
the current one. -/
theorem jobAt_eq {port : Port} {id : Nat} (seen : d.seen port id = [d.currentJob]) (time : Nat) :
    d.jobAt port id time = d.currentJob := by
  rw [jobAt, seen]
  cases time with
  | zero => rfl
  | succ time => rfl

theorem supply_published (d : Daemon S) (port : Port) (id : Nat) (times : Nat → Nat)
    (a : PoolAction S.cliType port.size) :
    Offers (Node.Published S.getEpochNumber) (d.supply port id times a) := by
  cases a with
  | read env => exact fun k => (d.jobAt port id (times k)).published
  | block env => exact (d.jobAt port id (times 0)).published
  | interrupted | collected batch | make env registers | go => trivial

theorem supply_current {port : Port} {id : Nat} (seen : d.seen port id = [d.currentJob])
    (times : Nat → Nat) (a : PoolAction S.cliType port.size) :
    Offers (· = d.currentJob.job) (d.supply port id times a) := by
  cases a with
  | read env =>
      intro k
      change (d.jobAt port id (times k)).job = d.currentJob.job
      rw [jobAt_eq seen]
  | block env =>
      change (d.jobAt port id (times 0)).job = d.currentJob.job
      rw [jobAt_eq seen]
  | interrupted | collected batch | make env registers | go => trivial

section Steps

variable {port : Port} {id : Nat} (before : Served d port id)

include before

theorem stored_served (job : PublishedJob S) (server : Server S.cliType Port.plain.size)
    (moved : Moved d (.store job) (d.afterStore job server))
    (stepped : (d.server .plain).next .notify = some server) :
    Served (d.afterStore job server) port id := by
  obtain ⟨locked, sameCreated⟩ :
      server.node = .lock ∧ server.created = (d.server .plain).created := by
    cases Server.next_moved stepped with
    | notified => exact ⟨rfl, rfl⟩
  have owed : Owed (d.afterStore job server) port id := by
    cases port with
    | plain =>
        left
        rw [afterStore_server, setServer_same, locked]
        trivial
    | tls =>
        right
        refine ⟨rfl, ?_⟩
        rw [afterStore_server, setServer_same, locked]
        simp
  have created : ((d.afterStore job server).server port).created = (d.server port).created := by
    cases port with
    | plain => rw [afterStore_server, setServer_same, sameCreated]
    | tls => rw [afterStore_server, setServer_other _ _ (by simp)]
  refine ⟨fun _ _ => .inl owed, ?_, ?_⟩
  · intro later
    rw [created] at later
    exact if_neg (Nat.not_lt.mpr later)
  · intro unfinished
    obtain ⟨_, clients, thdFinished, _⟩ := moved_outside moved port id (by simp)
    rw [thdFinished] at unfinished
    refine ⟨?_, fun _ _ _ => .inl owed⟩
    intro i c there
    rw [clients] at there
    exact (before.delivered unfinished).follows i c there

theorem pooled_served (a : PoolAction S.cliType port.size) (times : Nat → Nat)
    (q : ClientPool S.cliType port.size) (present : id < (d.server port).created)
    (ran : ((d.server port).pool id).step (d.supply port id times a) = some q) :
    Served (d.afterPool port id (d.supply port id times a) ((d.server port).setPool id q))
      port id := by
  have sees : (d.afterPool port id (d.supply port id times a)
      ((d.server port).setPool id q)).seen port id = [d.currentJob] := if_pos ⟨rfl, rfl⟩
  refine ⟨fun _ _ => .inr (.inr sees), fun _ => sees, ?_⟩
  intro unfinished
  rw [afterPool_server, setServer_same, Server.setPool_same] at unfinished ⊢
  have running := step_finished ran unfinished
  have delivered : Delivered d.currentJob (Owed d port id) q := by
    refine step_delivered (before.delivered running) (supply_published d port id times a) ?_ ran
    rcases before.seen present running with owed | pending | seen
    · exact .inl owed
    · exact .inr (.inl pending)
    · exact .inr (.inr (supply_current seen times a))
  refine delivered.outside rfl rfl (fun _ member => member) ?_
  intro owed
  refine .inl (owed_of_node ?_ owed)
  intro other
  rw [afterPool_server]
  refine setServer_node ?_ other
  rfl

theorem aside_served (listed : Server.Listed (n := port.poolSize) (d.server port))
    (fresh : (d.server port).created ≤ id → (d.server port).pool id = .new S.cliType port.size)
    (moved : Moved d act e) (aside : Aside d e port id) : Served e port id := by
  rcases Nat.lt_or_ge id (d.server port).created with present | later
  · have owes : ((d.server port).pool id).thdFinished = false → Owed d port id →
        Owed e port id ∨ Pending ((e.server port).pool id) := by
      intro running owed
      exact moved_owed moved port id (listed.listed id present running) running owed
    refine ⟨?_, ?_, ?_⟩
    · intro _ unfinished
      rw [aside.thdFinished] at unfinished
      rcases before.seen present unfinished with owed | ⟨m, inPipe, posted⟩ | seen
      · rcases owes unfinished owed with still | pending
        · exact .inl still
        · exact .inr (.inl pending)
      · exact .inr (.inl ⟨m, aside.pipe m inPipe, posted⟩)
      · right
        right
        rw [aside.seen, aside.job, seen]
    · intro absent
      rcases moved_created moved port with same | more
      · omega
      · omega
    · intro unfinished
      rw [aside.thdFinished] at unfinished
      rw [aside.job]
      exact (before.delivered unfinished).outside aside.clients aside.pc aside.pipe
        (owes unfinished)
  · have sees : e.seen port id = [e.currentJob] := by
      rw [aside.seen, aside.job]
      exact before.unseen later
    refine ⟨fun _ _ => .inr (.inr sees), fun _ => sees, ?_⟩
    intro _
    have new := delivered_new (n := port.size) e.currentJob (Owed e port id)
    rw [← fresh later] at new
    exact new.outside aside.clients aside.pc aside.pipe .inl

theorem moved_served (listed : Server.Listed (n := port.poolSize) (d.server port))
    (fresh : (d.server port).created ≤ id → (d.server port).pool id = .new S.cliType port.size)
    (moved : Moved d act e) : Served e port id := by
  by_cases aside : (∀ a times, act ≠ .pool port id a times) ∧ ∀ job, act ≠ .store job
  · exact aside_served before listed fresh moved (moved_aside moved port id aside.1 aside.2)
  · cases moved with
    | stored job server idle stepped =>
        exact stored_served before job server (.stored job server idle stepped) stepped
    | pooled target k a times q present ran =>
        by_cases own : port = target ∧ id = k
        · obtain ⟨rfl, rfl⟩ := own
          exact pooled_served before a times q present ran
        · refine absurd ⟨?_, by simp⟩ aside
          intro b others same
          cases same
          exact own ⟨rfl, rfl⟩
    | walked | handedOver | accepted | refused | listened => exact absurd ⟨by simp, by simp⟩ aside

end Steps

theorem reachable_served (reached : (system S).Reachable d) :
    ∀ port id, Served d port id := by
  refine reached.invariant (fun d => ∀ port id, Served d port id) ?_ ?_
  · intro d started port id
    obtain ⟨first, rfl⟩ := started
    exact ⟨fun _ _ => .inr (.inr rfl), fun _ => rfl, fun _ => delivered_new _ _⟩
  · intro d act e earlier before stepped port id
    have server := reachable_server earlier port
    exact moved_served (before port id) (Server.reachable_listed (n := port.poolSize) server)
      (fun later => ((Server.reachable_inv (n := port.poolSize) server).1.untouched id later).1)
      (next_moved stepped)

theorem not_owed (notified : ∀ port, (d.server port).node = .idle) (port : Port) (id : Nat) :
    ¬ Owed d port id := by
  rintro (owes | ⟨_, busy⟩)
  · rw [notified port] at owes
    cases owes
  · exact busy (notified .plain)

/-- In every run: while the node thread is not about to notify the pools, the miners of a
pool that has handled its new-block messages work on the current job. -/
theorem miners_have_current_job (reached : (system S).Reachable d)
    (notified : ∀ port, (d.server port).node = .idle) (port : Port) (id : Nat)
    (caught : CaughtUp ((d.server port).pool id)) (i : Fin port.size) (c : Placed S.cliType)
    (there : ((d.server port).pool id).clients i = some c)
    (miner : Client.loggedIn c.cli = true) (alive : Client.aborting c.cli = false) :
    Session.CopyOf (Client.curJob c.cli) d.currentJob.job := by
  rcases finished : ((d.server port).pool id).thdFinished with _ | _
  · have delivered := (reachable_served reached port id).delivered finished
    rcases delivered.knows i c there with owed | awaits | ended | follows
    · exact absurd owed (not_owed notified port id)
    · exact absurd awaits (caught.not_awaits i)
    · rw [alive] at ended
      cases ended
    · obtain ⟨trace, inv⟩ := follows
      obtain ⟨job, rfl, _, mining, _⟩ := inv.told miner
      exact Session.mining_copyOf (Node.published_prepowLen _ d.currentJob.published).1 mining
  · have empty :=
      Server.finished_empty (n := port.poolSize) (reachable_server reached port) finished i
    rw [empty] at there
    cases there

section Runs

def plainSetting : Setting := ⟨60, parseJson, fun _ => 0⟩

def plainPublished (algo : String)
    (published : Node.Published (fun _ => 0) (Node.plainJob algo 24)) :
    PublishedJob plainSetting :=
  ⟨Node.plainJob algo 24, published⟩

def randomxJob : PublishedJob plainSetting :=
  plainPublished "randomx" (Node.plainJob_published "randomx" 24 (by decide +kernel))

def progpowJob : PublishedJob plainSetting :=
  plainPublished "progpow" (Node.plainJob_published "progpow" 24 (by decide +kernel))

variable {S : Setting}

/-- Steps of the first plain pool's thread, at each of which get_current_job returns the
newest job. -/
def firstPool (actions : List (PoolAction S.cliType Port.plain.size)) : List (DaemonAction S) :=
  actions.map (fun a => .pool .plain 0 a (fun _ => 0))

def connectOne (fd : Nat) (registers : Bool) : List (DaemonAction S) :=
  .accept .plain ⟨fd, Int.natCast_nonneg fd⟩ :: List.replicate 6 (.listener .plain) ++
    firstPool [.collected [(.pipe, epollIn)], .go, .go, .make Server.plainMake registers, .go, .go,
      .go]

def loginOne (i : Fin clientPoolSize.size) : List (DaemonAction S) :=
  firstPool [.collected [(.client i, epollIn)],
    .read ⟨[.bytes (Client.loginLine 1)], fun _ => Session.plainEnv .zero⟩, .go, .go]

/-- The node thread stores a job and notifies one plain pool and no tls pool, and the pool
handles the message. -/
def newJob (job : PublishedJob plainSetting) : List (DaemonAction plainSetting) :=
  .store job :: List.replicate 9 .node ++
    firstPool [.collected [(.pipe, epollIn)], .go, .go, .go, .block (Session.plainEnv .zero), .go,
      .go, .go, .go]

def atEase (d : Daemon plainSetting) : Bool :=
  (match (d.server .plain).node, (d.server .tls).node with
    | .idle, .idle => true
    | _, _ => false) &&
  ((d.server .plain).pool 0).pipe == [] && ((d.server .plain).pool 0).pc == .wait &&
  (((d.server .plain).pool 0).clients Server.firstClient).any
    (fun c => Client.loggedIn c.cli && !Client.aborting c.cli)

theorem atEase_spec {d : Daemon plainSetting} (calm : atEase d = true) :
    (∀ port, (d.server port).node = .idle) ∧ CaughtUp ((d.server .plain).pool 0) ∧
      ∃ c, ((d.server .plain).pool 0).clients Server.firstClient = some c ∧
        Client.loggedIn c.cli = true ∧ Client.aborting c.cli = false := by
  simp only [atEase, Bool.and_eq_true, beq_iff_eq, Option.any_eq_true, Bool.not_eq_true'] at calm
  obtain ⟨⟨⟨idle, empty⟩, waits⟩, c, there, miner, alive⟩ := calm
  refine ⟨?_, ⟨?_, ?_, ?_⟩, c, there, miner, alive⟩
  · intro port
    split at idle
    · rename_i plain tls
      cases port with
      | plain => exact plain
      | tls => exact tls
    · cases idle
  · intro m member
    rw [empty] at member
    cases member
  · intro m todo here
    rw [waits] at here
    cases here
  · rw [waits]
    rfl

/-- A miner logs in, and then the node has another job. -/
theorem current_job_after_new_block :
    ∃ (d : Daemon plainSetting) (c : Placed plainSetting.cliType),
      ((d.server .plain).pool 0).clients Server.firstClient = some c ∧
        d.currentJob.job = progpowJob.job ∧
        Session.CopyOf (Client.curJob c.cli) progpowJob.job := by
  obtain ⟨d, reached, found⟩ := System.exists_reachable (S := system plainSetting)
    (s := start randomxJob) ⟨_, rfl⟩
    (connectOne 7 true ++ loginOne Server.firstClient ++ newJob progpowJob)
    (fun d => atEase d && d.currentJob.job == progpowJob.job) (by decide +kernel)
  rw [Bool.and_eq_true, beq_iff_eq] at found
  obtain ⟨notified, caught, c, there, miner, alive⟩ := atEase_spec found.1
  refine ⟨d, c, there, found.2, ?_⟩
  rw [← found.2]
  exact miners_have_current_job reached notified .plain 0 caught Server.firstClient c there miner
    alive

end Runs

end Daemon

end EpicPoold
