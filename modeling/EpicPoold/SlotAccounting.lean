import EpicPoold.PoolClient
import EpicPoold.PoolSteps
import EpicPoold.ServerSteps

/-! The counter of a pool against its slots: who may have raised it and who still has
to lower it. -/

namespace EpicPoold

open Foundations

namespace ClientPool

variable {K : CliType} {n : Nat}

def adds (pipe : List PipeMsg) : Nat := pipe.countP PipeMsg.adds

def inHand : PoolPc n → Nat
  | .message m _ => if m.adds then 1 else 0
  | _ => 0

def owed : PoolPc n → Nat
  | .decrement _ => 1
  | _ => 0

/-- add_socket calls whose message the pool has not processed. -/
def pending (p : ClientPool K n) : Nat := adds p.pipe + inHand p.pc

def account (p : ClientPool K n) : Nat := p.clients.occupied + p.pending + owed p.pc

@[simp] theorem inHand_ret (ret : Return n) : inHand ret.pc = 0 := by
  cases ret <;> rfl

@[simp] theorem owed_ret (ret : Return n) : owed ret.pc = 0 := by
  cases ret <;> rfl

@[simp] theorem inHand_message (m : PipeMsg) (todo : List (PoolEvent n)) :
    inHand (.message m todo) = if m.adds then 1 else 0 := rfl

@[simp] theorem owed_message (m : PipeMsg) (todo : List (PoolEvent n)) :
    owed (.message m todo) = 0 := rfl

@[simp] theorem inHand_decrement (ret : Return n) : inHand (.decrement ret) = 0 := rfl

@[simp] theorem owed_decrement (ret : Return n) : owed (.decrement ret) = 1 := rfl

@[simp] theorem inHand_pipe (todo : List (PoolEvent n)) : inHand (.pipe todo) = 0 := rfl

@[simp] theorem owed_pipe (todo : List (PoolEvent n)) : owed (.pipe todo) = 0 := rfl

@[simp] theorem adds_nil : adds [] = 0 := rfl

theorem adds_cons (m : PipeMsg) (rest : List PipeMsg) :
    adds (m :: rest) = adds rest + if m.adds then 1 else 0 := by
  rw [adds, List.countP_cons, adds]

theorem adds_append (pipe : List PipeMsg) (m : PipeMsg) :
    adds (pipe ++ [m]) = adds pipe + if m.adds then 1 else 0 := by
  simp [adds, List.countP_append, List.countP_cons]

/-- What a step of the pool thread does to counter and slots: nothing together, or it
lowers the counter by the one it owes, or it finds no slot for a new client. -/
inductive Accounted (p q : ClientPool K n) : Prop
  | balanced (cnt : q.activeCnt = p.activeCnt) (account : q.account = p.account)
      (fine : q.pc ≠ .crashed .poolOverflow)
  | lowered (ret : Return n) (pc : p.pc = .decrement ret) (cnt : q.activeCnt = p.activeCnt - 1)
      (account : q.account + 1 = p.account) (fine : q.pc ≠ .crashed .poolOverflow)
  | overflow (m : PipeMsg) (todo : List (PoolEvent n)) (pc : p.pc = .message m todo)
      (adds : m.adds = true) (full : p.clients.occupied = n)

theorem ret_ne_crashed (ret : Return n) (why : Crash) : ret.pc ≠ .crashed why := by
  cases ret <;> simp [Return.pc]

theorem accounted_move (p : ClientPool K n) (pc : PoolPc n) (here : inHand p.pc + owed p.pc = 0)
    (there : inHand pc + owed pc = 0) (fine : pc ≠ .crashed .poolOverflow) :
    Accounted p { p with pc := pc } := by
  refine .balanced rfl ?_ fine
  simp only [account, pending]
  omega

theorem accounted_put (p : ClientPool K n) (i : Fin n) (c d : Placed K) (pc : PoolPc n)
    (there : p.clients i = some c) (here : inHand p.pc + owed p.pc = 0)
    (after : inHand pc + owed pc = 0) (fine : pc ≠ .crashed .poolOverflow) :
    Accounted p { p with clients := p.clients.put i d, pc := pc } := by
  refine .balanced rfl ?_ fine
  simp only [account, pending, Slots.occupied_put_taken _ i d c there]
  omega

theorem removed_accounted (p : ClientPool K n) (idx : Fin n) (ret : Return n) (c : Placed K)
    (here : p.pc = .removing idx ret) (there : p.clients idx = some c) :
    Accounted p { p with clients := p.clients.clear idx, pc := .decrement ret } := by
  have idle : inHand p.pc + owed p.pc = 0 := by rw [here]; rfl
  have gone := Slots.occupied_clear p.clients idx c there
  refine .balanced rfl ?_ (by simp)
  simp only [account, pending, inHand_decrement, owed_decrement]
  omega

theorem popped_accounted (p : ClientPool K n) (todo : List (PoolEvent n)) (m : PipeMsg)
    (rest : List PipeMsg) (here : p.pc = .pipe todo) (front : p.pipe = m :: rest) :
    Accounted p { p with pipe := rest, pc := .message m todo } := by
  refine .balanced rfl ?_ (by simp)
  simp only [account, pending, front, adds_cons, here, inHand_message, owed_message,
    inHand_pipe, owed_pipe]
  omega

theorem refused_accounted (p : ClientPool K n) (m : PipeMsg) (todo : List (PoolEvent n))
    (here : p.pc = .message m todo) (adding : m.adds = true) :
    Accounted p { p with pc := .decrement (.pipe todo) } := by
  refine .balanced rfl ?_ (by simp)
  simp only [account, pending, here, inHand_message, owed_message, adding, if_true,
    inHand_decrement, owed_decrement]
  omega

theorem added_accounted (p : ClientPool K n) (m : PipeMsg) (todo : List (PoolEvent n))
    (i : Fin n) (c : Placed K) (here : p.pc = .message m todo) (adding : m.adds = true)
    (free : p.clients.firstFree = some i) :
    Accounted p
      { p with
        clients := p.clients.put i c
        nextSerial := p.nextSerial + 1
        pc := .pipe todo } := by
  have taken := Slots.occupied_put_free p.clients i c (Slots.firstFree_eq_some free)
  refine .balanced rfl ?_ (by simp)
  simp only [account, pending, here, inHand_message, owed_message, adding, if_true, inHand_pipe,
    owed_pipe]
  omega

theorem step_accounted (p q : ClientPool K n) (a : PoolAction K n) (stepped : p.step a = some q) :
    Accounted p q := by
  cases step_moved stepped with
  | interrupted here | collected _ _ here _ _ | batchDone _ here | pipeEvent _ _ here
  | nullRead _ _ _ _ _ here _ _ | hangUp _ _ _ _ _ here _ | pipeEmpty _ _ here _
  | blockDone _ _ _ here _ | again _ here _ | leave _ here _ =>
      exact accounted_move p _ (by rw [here]; rfl) rfl (by simp)
  | newBlock _ m todo here posted =>
      exact accounted_move p _ (by simp [here, posted]) rfl (by simp)
  | alreadyGone _ idx ret here _ =>
      exact accounted_move p ret.pc (by rw [here]; rfl) (by simp) (ret_ne_crashed ret _)
  | readKept _ _ _ _ _ c _ here _ there _ | readEnded _ _ _ _ _ c _ here _ there _
  | blockKept _ _ _ _ c _ here _ there _ | blockEnded _ _ _ _ c _ here _ there _ =>
      exact accounted_put p _ c _ _ there (by rw [here]; rfl) rfl (by simp)
  | removed _ idx ret c here there => exact removed_accounted p idx ret c here there
  | decremented _ ret here =>
      refine .lowered ret here rfl ?_ (ret_ne_crashed ret _)
      simp [account, pending, here]
  | popped _ todo m rest here front => exact popped_accounted p todo m rest here front
  | overflow _ _ m todo here adds full =>
      exact .overflow m todo here adds (Slots.occupied_of_full full)
  | refused _ _ m todo here adds _ => exact refused_accounted p m todo here adds
  | added _ m todo i cli here adds free _ => exact added_accounted p m todo i _ here adds free
  | finished _ here =>
      refine .balanced rfl ?_ (by simp)
      simp [account, pending, here, inHand, owed]

end ClientPool

namespace Server

variable {K : CliType} {n : PoolSize}

def writing : ListenerPc → Nat → Nat
  | .write _ target, id => if target = id then 1 else 0
  | _, _ => 0

def chosen : ListenerPc → Option Nat
  | .count _ id => some id
  | _ => none

structure Inv (s : Server K n.size) : Prop where
  counted : ∀ id, (s.pool id).activeCnt.toNat = (s.pool id).account + writing s.listener id
  bounded : ∀ id, (s.pool id).activeCnt.toNat ≤ n.size
  room : ∀ id, chosen s.listener = some id → (s.pool id).activeCnt.toNat < n.size
  fine : ∀ id, (s.pool id).pc ≠ .crashed .poolOverflow
  untouched : ∀ id, s.created ≤ id → s.pool id = .new K n.size ∧ writing s.listener id = 0

theorem inv_same {s t : Server K n.size} (before : Inv s) (pools : t.pool = s.pool)
    (created : t.created = s.created) (busy : ∀ id, writing t.listener id = writing s.listener id)
    (room : ∀ id, chosen t.listener = some id → (s.pool id).activeCnt.toNat < n.size) :
    Inv t where
  counted id := by rw [pools, busy]; exact before.counted id
  bounded id := by rw [pools]; exact before.bounded id
  room id := by rw [pools]; exact room id
  fine id := by rw [pools]; exact before.fine id
  untouched id fresh := by
    rw [pools, busy]
    rw [created] at fresh
    exact before.untouched id fresh

theorem inv_at {s t : Server K n.size} (before : Inv s) (id : Nat) (present : id < s.created)
    (created : t.created = s.created)
    (elsewhere : ∀ other, other ≠ id → t.pool other = s.pool other ∧
      writing t.listener other = writing s.listener other)
    (counted : (t.pool id).activeCnt.toNat = (t.pool id).account + writing t.listener id)
    (bounded : (t.pool id).activeCnt.toNat ≤ n.size)
    (room : ∀ other, chosen t.listener = some other → (t.pool other).activeCnt.toNat < n.size)
    (fine : (t.pool id).pc ≠ .crashed .poolOverflow) : Inv t where
  counted other := by
    by_cases same : other = id
    · subst same
      exact counted
    · rw [(elsewhere other same).1, (elsewhere other same).2]
      exact before.counted other
  bounded other := by
    by_cases same : other = id
    · subst same
      exact bounded
    · rw [(elsewhere other same).1]
      exact before.bounded other
  room := room
  fine other := by
    by_cases same : other = id
    · subst same
      exact fine
    · rw [(elsewhere other same).1]
      exact before.fine other
  untouched other fresh := by
    have later : s.created ≤ other := created ▸ fresh
    have same : other ≠ id := by omega
    rw [(elsewhere other same).1, (elsewhere other same).2]
    exact before.untouched other later

theorem inv_pool {s : Server K n.size} (before : Inv s) (id : Nat) (present : id < s.created)
    (q : ClientPool K n.size) (step : ClientPool.Accounted (s.pool id) q) :
    Inv (s.setPool id q) := by
  have counted := before.counted id
  have bounded := before.bounded id
  have one : (1 : UInt32).toNat = 1 := rfl
  have pool : q.activeCnt.toNat = q.account + writing s.listener id ∧
      q.activeCnt.toNat ≤ (s.pool id).activeCnt.toNat ∧ q.pc ≠ .crashed .poolOverflow := by
    cases step with
    | balanced cnt account fine =>
        rw [cnt, account]
        exact ⟨counted, le_rfl, fine⟩
    | lowered ret pc cnt account fine =>
        have positive : 1 ≤ (s.pool id).activeCnt := by
          rw [UInt32.le_iff_toNat_le, counted]
          omega
        rw [cnt, UInt32.toNat_sub_of_le _ _ positive]
        exact ⟨by omega, by omega, fine⟩
    | overflow m todo pc adds full =>
        exfalso
        have held : ClientPool.inHand (s.pool id).pc = 1 := by rw [pc]; simp [adds]
        simp only [ClientPool.account, ClientPool.pending] at counted
        omega
  obtain ⟨balance, smaller, fine⟩ := pool
  refine inv_at before id present rfl ?_ ?_ ?_ ?_ ?_
  · exact fun other ne => ⟨setPool_other s q ne, rfl⟩
  · rw [setPool_same]
    exact balance
  · rw [setPool_same]
    exact smaller.trans bounded
  · intro other next
    have room := before.room other next
    by_cases same : other = id
    · subst same
      rw [setPool_same]
      exact lt_of_le_of_lt smaller room
    · rw [setPool_other s q same]
      exact room
  · rw [setPool_same]
    exact fine

/-- add_socket raises the counter of a pool with room and now owes it a message. -/
theorem inv_count {s : Server K n.size} (before : Inv s) (known : Known s) (sck : Socket)
    (id : Nat) (here : s.listener = .count sck id) :
    Inv { s.setPool id (s.pool id).count with listener := .write sck id } := by
  have present : id < s.created := known.listener id (by rw [here]; simp [ListenerPc.mentions])
  have room := before.room id (by rw [here]; rfl)
  have counted := before.counted id
  have fits := n.fits
  have raised : (s.pool id).count.activeCnt.toNat = (s.pool id).activeCnt.toNat + 1 := by
    have one : (1 : UInt32).toNat = 1 := rfl
    rw [ClientPool.count, UInt32.toNat_add, one]
    omega
  have target : (s.setPool id (s.pool id).count).pool id = (s.pool id).count :=
    setPool_same s id _
  refine inv_at before id present rfl ?_ ?_ ?_ ?_ ?_
  · intro other ne
    refine ⟨setPool_other s _ ne, ?_⟩
    rw [here]
    simp [writing, Ne.symm ne]
  · rw [target, raised, counted, here]
    simp [writing, ClientPool.count, ClientPool.account, ClientPool.pending]
  · rw [target, raised]
    exact room
  · intro other next
    cases next
  · rw [target]
    exact before.fine id

/-- A message goes into the pipe of a pool: the one the listener owes, or one of the
node thread. -/
theorem inv_post {s t : Server K n.size} (before : Inv s) (id : Nat) (present : id < s.created)
    (m : PipeMsg) (pools : t.pool = (s.setPool id ((s.pool id).post m)).pool)
    (created : t.created = s.created) (room : ∀ other, chosen t.listener = some other →
      chosen s.listener = some other)
    (busy : ∀ other, writing t.listener other + (if other = id ∧ m.adds then 1 else 0) =
      writing s.listener other) : Inv t := by
  have elsewhere : ∀ other, other ≠ id → t.pool other = s.pool other := by
    intro other ne
    rw [pools, setPool_other s _ ne]
  have target : t.pool id = (s.pool id).post m := by
    rw [pools, setPool_same]
  have counted := before.counted id
  have wrote := busy id
  refine inv_at before id present created ?_ ?_ ?_ ?_ ?_
  · intro other ne
    refine ⟨elsewhere other ne, ?_⟩
    have quiet := busy other
    simpa [ne] using quiet
  · rw [target]
    simp only [ClientPool.post, ClientPool.account, ClientPool.pending,
      ClientPool.adds_append] at counted ⊢
    simp only [true_and] at wrote
    omega
  · rw [target]
    exact before.bounded id
  · intro other next
    have free := before.room other (room other next)
    by_cases same : other = id
    · subst same
      rw [target]
      exact free
    · rw [elsewhere other same]
      exact free
  · rw [target]
    exact before.fine id

theorem created_inv {s : Server K n.size} (before : Inv s) (sck : Socket)
    (here : s.listener = .create sck) :
    Inv { s with
      pools := s.pools ++ [s.created]
      created := s.created + 1
      listener := .count sck s.created } where
  counted id := by
    have counted := before.counted id
    rw [here] at counted
    exact counted
  bounded := before.bounded
  room id next := by
    have fresh := before.untouched s.created le_rfl
    cases next
    change (s.pool s.created).activeCnt.toNat < n.size
    rw [fresh.1]
    exact n.positive
  fine := before.fine
  untouched id later := by
    have older : s.created ≤ id := Nat.le_of_succ_le later
    exact ⟨(before.untouched id older).1, rfl⟩

theorem wrote_inv {s : Server K n.size} (before : Inv s) (known : Known s) (sck : Socket)
    (id : Nat) (here : s.listener = .write sck id) :
    Inv { s.setPool id ((s.pool id).post ⟨sck.fd⟩) with listener := .unlock } := by
  have present : id < s.created := known.listener id (by rw [here]; simp [ListenerPc.mentions])
  have adding : (PipeMsg.mk sck.fd).adds = true := by
    have nonneg := sck.nonneg
    simp only [PipeMsg.adds, dummyNewBlockFd, bne_iff_ne, ne_eq]
    omega
  refine inv_post before id present ⟨sck.fd⟩ rfl rfl ?_ ?_
  · intro other next
    cases next
  · intro other
    rw [here]
    simp [writing, adding, eq_comm]

theorem listenerMoved_inv {s t : Server K n.size} (before : Inv s) (known : Known s)
    (moved : ListenerMoved s t) : Inv t := by
  cases moved with
  | locked _ here _ | noneLeft _ here | erased _ _ _ here _ | running _ _ _ here _
  | full _ _ _ here _ | unlocked here =>
      refine inv_same before rfl rfl ?_ ?_
      · intro id
        rw [here]
        rfl
      · intro id next
        cases next
  | chose sck id rest here room =>
      refine inv_same before rfl rfl ?_ ?_
      · intro other
        rw [here]
        rfl
      · intro other next
        cases next
        have bounded := before.bounded id
        have short : (s.pool id).activeCnt.toNat ≠ n.size := by
          simpa [ClientPool.isFull] using room
        omega
  | created sck here => exact created_inv before sck here
  | counted sck id here => exact inv_count before known sck id here
  | wrote sck id here => exact wrote_inv before known sck id here

theorem nodeMoved_inv {s t : Server K n.size} (before : Inv s) (known : Known s)
    (moved : NodeMoved s t) : Inv t := by
  cases moved with
  | locked | noneLeft | erased | running | gotActive | unlocked =>
      exact inv_same before rfl rfl (fun _ => rfl) before.room
  | posted id rest here =>
      have present : id < s.created := known.node id (by rw [here]; simp [NotifyPc.mentions])
      refine inv_post before id present ⟨dummyNewBlockFd⟩ rfl rfl (fun _ next => next) ?_
      intro other
      simp [PipeMsg.adds, setPool]

theorem next_inv {s t : Server K n.size} (a : ServerAction K n.size) (before : Inv s)
    (known : Known s) (stepped : next s a = some t) : Inv t := by
  cases next_moved stepped with
  | accepted sck here =>
      refine inv_same before rfl rfl ?_ ?_
      · intro id
        rw [here]
        rfl
      · intro id next
        cases next
  | listener _ moved => exact listenerMoved_inv before known moved
  | notified => exact inv_same before rfl rfl (fun _ => rfl) before.room
  | node _ moved => exact nodeMoved_inv before known moved
  | pool id a q present moved =>
      exact inv_pool before id present q (ClientPool.step_accounted _ _ _ moved)

theorem start_inv : Inv (start K n.size) where
  counted id := by simp [start, ClientPool.new, ClientPool.account, ClientPool.pending,
    ClientPool.inHand, ClientPool.owed, writing]
  bounded id := Nat.zero_le _
  room id next := by cases next
  fine id := by simp [start, ClientPool.new]
  untouched id _ := ⟨rfl, rfl⟩

theorem start_known : Known (start K n.size) where
  listed _ member := by cases member
  listener _ member := by cases member
  node _ member := by cases member

theorem reachable_inv {allowed : Server K n.size → ServerAction K n.size → Prop}
    {s : Server K n.size} (reached : (system K n.size).ReachableUnder allowed s) :
    Inv s ∧ Known s := by
  refine reached.invariant (fun s => Inv s ∧ Known s) ?_ ?_
  · rintro s rfl
    exact ⟨start_inv, start_known⟩
  · rintro s a t _ ⟨before, known⟩ _ stepped
    exact ⟨next_inv a before known stepped, next_known a known stepped⟩

/-- The add_socket calls whose message the pool has not processed: written, read but
not handled, or still to be written by a listener that has raised the counter. -/
def owing (s : Server K n.size) (id : Nat) : Nat :=
  (s.pool id).pending + writing s.listener id

/-- The counter of every pool is the number of its clients and of those still to come,
everywhere but between the end of a client and the decrement that follows it. It stays
within the pool, so that every message of add_socket finds a slot, and the counter is
never lowered below zero. -/
theorem slot_accounting {s : Server K n.size} (reached : (system K n.size).Reachable s)
    (id : Nat) :
    ((∀ ret, (s.pool id).pc ≠ .decrement ret) →
      (s.pool id).activeCnt.toNat = (s.pool id).clients.occupied + owing s id) ∧
    (s.pool id).activeCnt.toNat ≤ n.size ∧
    (∀ m todo, (s.pool id).pc = .message m todo → m.adds = true →
      ∃ i, (s.pool id).clients.firstFree = some i ∧ (s.pool id).clients i = none) ∧
    (s.pool id).pc ≠ .crashed .poolOverflow ∧
    ∀ ret, (s.pool id).pc = .decrement ret → 0 < (s.pool id).activeCnt.toNat := by
  obtain ⟨inv, _⟩ := reachable_inv reached
  have counted := inv.counted id
  have bounded := inv.bounded id
  refine ⟨?_, bounded, ?_, inv.fine id, ?_⟩
  · intro settled
    have paid : ClientPool.owed (s.pool id).pc = 0 := by
      unfold ClientPool.owed
      split
      · rename_i ret here
        exact absurd here (settled ret)
      · rfl
    rw [counted, ClientPool.account, paid, owing]
    omega
  · intro m todo here adding
    rcases found : (s.pool id).clients.firstFree with _ | i
    · have full := Slots.occupied_of_full found
      have held : ClientPool.inHand (s.pool id).pc = 1 := by rw [here]; simp [adding]
      simp only [ClientPool.account, ClientPool.pending] at counted
      omega
    · exact ⟨i, rfl, Slots.firstFree_eq_some found⟩
  · intro ret here
    have owes : ClientPool.owed (s.pool id).pc = 1 := by rw [here]; rfl
    rw [counted, ClientPool.account]
    omega

section Runs

variable {K : CliType} {n : Nat}

def acceptOne (fd : Nat) : List (ServerAction K n) :=
  .accept ⟨fd, Int.natCast_nonneg fd⟩ :: List.replicate 6 .listener

def takeOne (env : K.MakeEnv) : List (ServerAction K n) :=
  [.pool 0 (.collected [(.pipe, epollIn)]), .pool 0 .go, .pool 0 .go, .pool 0 (.make env true),
    .pool 0 .go, .pool 0 .go, .pool 0 .go]

abbrev minerServer (parse : List UInt8 → Option Value) :
    System (Server (Client.cliType 60 parse) clientPoolSize.size)
      (ServerAction (Client.cliType 60 parse) clientPoolSize.size) :=
  system (Client.cliType 60 parse) clientPoolSize.size

def plainMake : Client.MakeEnv := ⟨0, .zero, true⟩

def firstClient : Fin clientPoolSize.size := ⟨0, by decide⟩

/-- One client is in its slot and the message of a second is in the pipe. -/
theorem two_clients_counted :
    ∃ s : Server (Client.cliType 60 (fun _ => none)) clientPoolSize.size,
      (s.pool 0).activeCnt = 2 ∧
        (s.pool 0).activeCnt.toNat = (s.pool 0).clients.occupied + owing s 0 := by
  obtain ⟨s, reached, counted⟩ := System.exists_reachable (S := minerServer (fun _ => none)) rfl
    (acceptOne 7 ++ takeOne plainMake ++ acceptOne 8)
    (fun s => (s.pool 0).activeCnt == 2 && (s.pool 0).pc == .wait) (by decide +kernel)
  obtain ⟨two, waits⟩ : (s.pool 0).activeCnt = 2 ∧ (s.pool 0).pc = .wait := by
    simpa using counted
  refine ⟨s, two, (slot_accounting (n := clientPoolSize) reached 0).1 ?_⟩
  rw [waits]
  intro ret impossible
  cases impossible

end Runs

end Server

end EpicPoold
