import EpicPoold.SlotAccounting
import EpicPoold.Submission

/-! A batch of epoll events is a snapshot: which of its events still find the client
they were collected for. -/

namespace EpicPoold

open Foundations

namespace ClientPool

variable {K : CliType} {n : Nat}

def Return.todo : Return n → List (PoolEvent n)
  | .events todo => todo
  | .pipe todo => todo
  | .block _ todo => todo

def pendingEvents : PoolPc n → List (PoolEvent n)
  | .events todo => todo
  | .removing _ ret => Return.todo ret
  | .decrement ret => Return.todo ret
  | .pipe todo => todo
  | .message _ todo => todo
  | .block _ todo => todo
  | _ => []

theorem pendingEvents_ret (ret : Return n) : pendingEvents ret.pc = Return.todo ret := by
  cases ret <;> rfl

def source : PoolEvent n → Source n
  | .pipe => .pipe
  | .client idx _ _ => .client idx

/-- The event is for the client in its slot, or has nothing to read from an empty one. -/
def Fresh (clients : Slots n (Placed K)) : PoolEvent n → Prop
  | .pipe => True
  | .client idx mev serial =>
      (∃ c, clients idx = some c ∧ c.serial = serial) ∨
        clients idx = none ∧ mev &&& epollIn = 0

/-- Every event of a batch reaches the client it was collected for, or an empty slot
where it does nothing. -/
def NoStaleEvent (p : ClientPool K n) : Prop :=
  (∀ e todo, p.pc = .events (e :: todo) → Fresh p.clients e) ∧ p.pc ≠ .crashed .nullDeref

/-- An event of the batch would call on_socket_read through this slot. -/
def reads (idx : Fin n) : PoolEvent n → Bool
  | .pipe => false
  | .client i mev _ => i == idx && mev &&& epollIn != 0

/-- A new block is about to remove a client that the batch has data for, or a client is
about to be constructed in a slot that the batch has an event for. -/
def disturbs (p : ClientPool K n) (a : PoolAction K n) : Bool :=
  match p.pc, a with
  | .message m todo, .make env registers =>
      m.adds && registers && (K.construct env m.cliFd).isSome &&
        p.clients.firstFree.any (fun i => todo.any (fun e => source e == .client i))
  | .block start todo, .block env =>
      (p.clients.nextTaken start).any (fun i =>
        (p.clients i).any (fun c => !(K.onNewBlock env c.cli).1) && todo.any (reads i))
  | _, _ => false

structure Snapshot (p : ClientPool K n) : Prop where
  fresh : ∀ e ∈ pendingEvents p.pc, Fresh p.clients e
  distinct : ((pendingEvents p.pc).map source).Nodup
  removing : ∀ idx ret, p.pc = .removing idx ret → ∀ e ∈ Return.todo ret, reads idx e = false
  live : p.pc ≠ .crashed .nullDeref

theorem snapshot_noStaleEvent {p : ClientPool K n} (snapshot : Snapshot p) : NoStaleEvent p := by
  refine ⟨?_, snapshot.live⟩
  intro e todo here
  exact snapshot.fresh e (by rw [here]; exact List.mem_cons_self)

/-- In remove_client, a snapshot leaves nothing to read through the client's slot. -/
theorem snapshot_of_removing {p : ClientPool K n} {idx : Fin n} {ret : Return n}
    (here : p.pc = .removing idx ret) (fresh : ∀ e ∈ Return.todo ret, Fresh p.clients e)
    (distinct : ((Return.todo ret).map source).Nodup)
    (quiet : ∀ e ∈ Return.todo ret, reads idx e = false) : Snapshot p where
  fresh := by
    rw [here]
    exact fresh
  distinct := by
    rw [here]
    exact distinct
  removing i other there := by
    rw [here] at there
    cases there
    exact quiet
  live there := by
    rw [here] at there
    cases there

/-- Neither in remove_client nor past a null pointer. -/
def orderly : PoolPc n → Bool
  | .removing _ _ => false
  | .crashed .nullDeref => false
  | _ => true

theorem snapshot_of_orderly {p : ClientPool K n} (calm : orderly p.pc = true)
    (fresh : ∀ e ∈ pendingEvents p.pc, Fresh p.clients e)
    (distinct : ((pendingEvents p.pc).map source).Nodup) : Snapshot p where
  fresh := fresh
  distinct := distinct
  removing idx ret here := by
    rw [here] at calm
    cases calm
  live here := by
    rw [here] at calm
    cases calm

theorem snapshot_go {p : ClientPool K n} (before : Snapshot p) (pc : PoolPc n)
    (rest : List.Sublist (pendingEvents pc) (pendingEvents p.pc)) (calm : orderly pc = true) :
    Snapshot { p with pc := pc } :=
  snapshot_of_orderly calm (fun e member => before.fresh e (rest.subset member))
    (before.distinct.sublist (rest.map source))

theorem orderly_ret (ret : Return n) : orderly ret.pc = true := by
  cases ret <;> rfl

theorem fresh_put {clients : Slots n (Placed K)} {i : Fin n} {c d : Placed K} {e : PoolEvent n}
    (there : clients i = some c) (same : d.serial = c.serial) (before : Fresh clients e) :
    Fresh (clients.put i d) e := by
  cases e with
  | pipe => trivial
  | client idx mev serial =>
      by_cases target : idx = i
      · subst target
        rcases before with ⟨owner, found, mine⟩ | ⟨empty, _⟩
        · rw [there] at found
          cases found
          exact .inl ⟨d, Slots.put_same _ _ _, same.trans mine⟩
        · rw [there] at empty
          cases empty
      · simp only [Fresh, Slots.put_other _ _ target]
        exact before

theorem fresh_put_other {clients : Slots n (Placed K)} {i : Fin n} {d : Placed K}
    {e : PoolEvent n} (other : source e ≠ .client i) (before : Fresh clients e) :
    Fresh (clients.put i d) e := by
  cases e with
  | pipe => trivial
  | client idx mev serial =>
      have target : idx ≠ i := by
        rintro rfl
        exact other rfl
      simp only [Fresh, Slots.put_other _ _ target]
      exact before

theorem fresh_clear {clients : Slots n (Placed K)} {i : Fin n} {e : PoolEvent n}
    (quiet : reads i e = false) (before : Fresh clients e) : Fresh (clients.clear i) e := by
  cases e with
  | pipe => trivial
  | client idx mev serial =>
      by_cases target : idx = i
      · subst target
        refine .inr ⟨Slots.clear_same _ _, ?_⟩
        simpa [reads] using quiet
      · simp only [Fresh, Slots.clear_other _ target]
        exact before

theorem reads_rest {idx : Fin n} {mev : UInt32} {serial : Nat} {todo : List (PoolEvent n)}
    (distinct : ((PoolEvent.client idx mev serial :: todo).map source).Nodup) :
    ∀ e ∈ todo, reads idx e = false := by
  intro e member
  have absent := (List.nodup_cons.mp distinct).1
  cases e with
  | pipe => rfl
  | client other otherMev otherSerial =>
      have differs : other ≠ idx := by
        rintro rfl
        exact absent (List.mem_map.mpr ⟨_, member, rfl⟩)
      simp [reads, differs]

theorem collected_spec (p : ClientPool K n) (batch : List (Source n × UInt32))
    (events : List (PoolEvent n)) (collected : batch.mapM p.event = some events) :
    (∀ e ∈ events, Fresh p.clients e) ∧ events.map source = batch.map Prod.fst := by
  induction batch generalizing events with
  | nil =>
      cases collected
      exact ⟨fun e member => (by cases member), rfl⟩
  | cons signal rest ih =>
      simp only [List.mapM_cons, bind, Option.bind_eq_some_iff, pure] at collected
      obtain ⟨e, first, others, tail, whole⟩ := collected
      cases whole
      obtain ⟨fresh, sources⟩ := ih others tail
      have head : Fresh p.clients e ∧ source e = signal.1 := by
        rcases signal with ⟨_ | idx, mev⟩
        · cases first
          exact ⟨trivial, rfl⟩
        · simp only [event] at first
          obtain ⟨c, there, made⟩ := Option.map_eq_some_iff.mp first
          subst made
          exact ⟨.inl ⟨c, there, rfl⟩, rfl⟩
      constructor
      · intro other member
        rcases List.mem_cons.mp member with rfl | later
        · exact head.1
        · exact fresh other later
      · rw [List.map_cons, List.map_cons, head.2, sources]

theorem readable_client {p : ClientPool K n} (before : Snapshot p) {idx : Fin n} {mev : UInt32}
    {serial : Nat} {todo : List (PoolEvent n)}
    (here : p.pc = .events (.client idx mev serial :: todo)) (readable : mev &&& epollIn ≠ 0) :
    p.clients idx ≠ none := by
  have fresh := before.fresh (.client idx mev serial) (by rw [here]; exact List.mem_cons_self)
  rcases fresh with ⟨c, there, _⟩ | ⟨_, nothing⟩
  · simp [there]
  · exact absurd nothing readable

theorem rest_snapshot {p : ClientPool K n} (before : Snapshot p) {idx : Fin n} {mev : UInt32}
    {serial : Nat} {todo : List (PoolEvent n)}
    (here : p.pc = .events (.client idx mev serial :: todo)) :
    (∀ e ∈ todo, Fresh p.clients e) ∧ (todo.map source).Nodup ∧
      ∀ e ∈ todo, reads idx e = false := by
  have fresh := before.fresh
  have distinct := before.distinct
  rw [here] at fresh distinct
  exact ⟨fun e member => fresh e (List.mem_cons_of_mem _ member),
    (List.nodup_cons.mp distinct).2, reads_rest distinct⟩

theorem step_snapshot {p q : ClientPool K n} (before : Snapshot p) (a : PoolAction K n)
    (calm : disturbs p a = false) (stepped : p.step a = some q) : Snapshot q := by
  have fresh := before.fresh
  have distinct := before.distinct
  cases step_moved stepped with
  | interrupted here | batchDone _ here | overflow _ _ _ _ here _ _ | again _ here _
  | leave _ here _ => exact snapshot_go before _ (List.nil_sublist _) rfl
  | finished _ here =>
      exact snapshot_of_orderly rfl (fun e member => by cases member) List.nodup_nil
  | collected batch events here valid found =>
      obtain ⟨collected, sources⟩ := collected_spec p batch events found
      refine snapshot_of_orderly rfl collected ?_
      change (events.map source).Nodup
      rw [sources]
      exact valid.2.2
  | pipeEvent _ todo here =>
      apply snapshot_go before (.pipe todo) _ rfl
      rw [here]
      exact List.sublist_cons_self _ _
  | nullRead _ idx mev serial todo here readable empty =>
      exact absurd empty (readable_client before here readable)
  | readKept _ idx mev serial todo c cli here readable there _ =>
      obtain ⟨later, rest, _⟩ := rest_snapshot before here
      exact snapshot_of_orderly rfl (fun e member => fresh_put there rfl (later e member)) rest
  | readEnded _ idx mev serial todo c cli here readable there _ =>
      obtain ⟨later, rest, quiet⟩ := rest_snapshot before here
      exact snapshot_of_removing rfl (fun e member => fresh_put there rfl (later e member)) rest
        quiet
  | hangUp _ idx mev serial todo here _ =>
      obtain ⟨later, rest, quiet⟩ := rest_snapshot before here
      exact snapshot_of_removing rfl later rest quiet
  | alreadyGone _ idx ret here _ =>
      apply snapshot_go before ret.pc _ (orderly_ret ret)
      rw [here, pendingEvents_ret]
      exact List.Sublist.refl _
  | removed _ idx ret c here there =>
      rw [here] at fresh distinct
      refine snapshot_of_orderly rfl ?_ distinct
      intro e member
      exact fresh_clear (before.removing idx ret here e member) (fresh e member)
  | decremented _ ret here =>
      have same : pendingEvents (.decrement ret) = pendingEvents ret.pc :=
        (pendingEvents_ret ret).symm
      rw [here, same] at fresh distinct
      exact snapshot_of_orderly (orderly_ret ret) fresh distinct
  | pipeEmpty _ todo here _ | popped _ todo _ _ here _ | refused _ _ _ todo here _ _
  | newBlock _ _ todo here _ | blockDone _ _ todo here _ =>
      rw [here] at fresh distinct
      exact snapshot_of_orderly rfl fresh distinct
  | added env m todo i cli here adds free made =>
      -- no event of the batch names the slot
      have absent : ∀ e ∈ todo, source e ≠ .client i := by
        simpa [disturbs, here, adds, made, free] using calm
      rw [here] at fresh distinct
      refine snapshot_of_orderly rfl ?_ distinct
      intro e member
      exact fresh_put_other (absent e member) (fresh e member)
  | blockKept env start todo i c cli here next there ran =>
      rw [here] at fresh distinct
      exact snapshot_of_orderly rfl (fun e member => fresh_put there rfl (fresh e member)) distinct
  | blockEnded env start todo i c cli here next there ran =>
      -- nothing is left to be read through the slot
      have quiet : ∀ e ∈ todo, reads i e = false := by
        simpa [disturbs, here, next, there, ran] using calm
      rw [here] at fresh distinct
      exact snapshot_of_removing rfl (fun e member => fresh_put there rfl (fresh e member))
        distinct quiet

end ClientPool

namespace Server

open ClientPool

variable {K : CliType} {n : Nat}

def undisturbed (s : Server K n) : ServerAction K n → Bool
  | .pool id a => !disturbs (s.pool id) a
  | _ => true

theorem reachable_snapshot {s : Server K n}
    (reached : (system K n).ReachableUnder (fun s a => undisturbed s a = true) s) :
    ∀ id, Snapshot (s.pool id) := by
  refine reached.invariant (fun s => ∀ id, Snapshot (s.pool id)) ?_ ?_
  · rintro s rfl id
    exact snapshot_of_orderly rfl (fun e member => by cases member) List.nodup_nil
  · intro s act t _ before calm stepped id
    rcases next_pool stepped id with ⟨clients, _, pc, _⟩ | ⟨a, rfl, moved⟩
    · obtain ⟨fresh, distinct, removing, live⟩ := before id
      rw [← pc] at fresh distinct removing live
      rw [← clients] at fresh
      exact ⟨fresh, distinct, removing, live⟩
    · exact step_snapshot (before id) a (by simpa [undisturbed] using calm) moved

/-- No event of a batch is stale in any run in which no new block removes a client that
the rest of the batch has data for, and no client is constructed in a slot that the rest
of the batch names. -/
theorem noStaleEvent_of_undisturbed {s : Server K n}
    (reached : (system K n).ReachableUnder (fun s a => undisturbed s a = true) s) (id : Nat) :
    NoStaleEvent (s.pool id) :=
  snapshot_noStaleEvent (reachable_snapshot reached id)

section Runs

open Session

def deafEnv : Client.SocketEnv where
  reads := [.bytes (Client.loginLine 1)]
  request := fun _ => { plainEnv (Node.plainJob "randomx" 24) with writeOk := false }

def deafClient : List (ServerAction (Client.cliType 60 parseJson)
    clientPoolSize.size) :=
  acceptOne 7 ++ takeOne plainMake ++
    [.pool 0 (.collected [(.client firstClient, epollIn)]), .pool 0 (.read deafEnv),
      .pool 0 .go, .pool 0 .go]

def secondClient : Fin clientPoolSize.size := ⟨1, by decide⟩

/-- A new block and data of another client are in one batch. The block removes the first client,
and then comes the event of the other. -/
def blockThenData : List (ServerAction (Client.cliType 60 parseJson) clientPoolSize.size) :=
  let block := .pool 0 (.block (plainEnv (Node.plainJob "randomx" 24)))
  deafClient ++ acceptOne 8 ++ takeOne plainMake ++ .notify :: List.replicate 5 .node ++
    [.pool 0 (.collected [(.pipe, epollIn), (.client secondClient, epollIn)]), .pool 0 .go,
      .pool 0 .go, .pool 0 .go, block, .pool 0 .go, .pool 0 .go, block, .pool 0 .go, .pool 0 .go]

theorem no_stale_event_deafClient :
    ∃ s : Server (Client.cliType 60 parseJson) clientPoolSize.size,
      (s.pool 0).clients firstClient = none ∧
        (s.pool 0).pc = .events [.client secondClient epollIn 1] ∧ NoStaleEvent (s.pool 0) := by
  obtain ⟨s, reached, inBatch⟩ := System.exists_reachableUnder
    (S := minerServer parseJson) undisturbed (fun _ _ calm => calm) rfl blockThenData
    (fun s => ((s.pool 0).clients firstClient).isNone &&
      (s.pool 0).pc == .events [.client secondClient epollIn 1]) (by decide +kernel)
  obtain ⟨removed, here⟩ := Bool.and_eq_true_iff.mp inBatch
  exact ⟨s, Option.isNone_iff_eq_none.mp removed, eq_of_beq here,
    noStaleEvent_of_undisturbed reached 0⟩

/-- A new block removes that client while the hang-up of its socket is still in the
batch: pool_main calls on_socket_read through the empty slot. -/
def removedInBatch : List (ServerAction (Client.cliType 60 parseJson)
    clientPoolSize.size) :=
  deafClient ++ .notify :: List.replicate 5 .node ++
    [.pool 0 (.collected [(.pipe, epollIn), (.client firstClient, 0x11)]), .pool 0 .go,
      .pool 0 .go, .pool 0 .go, .pool 0 (.block (plainEnv (Node.plainJob "randomx" 24))),
      .pool 0 .go, .pool 0 .go, .pool 0 .go, .pool 0 .go, .pool 0 (.read deafEnv)]

theorem stale_event_reachable :
    ∃ s : Server (Client.cliType 60 parseJson) clientPoolSize.size,
      (minerServer parseJson).Reachable s ∧ ¬ NoStaleEvent (s.pool 0) := by
  obtain ⟨s, reached, crashed⟩ := System.exists_reachable
    (S := minerServer parseJson) rfl removedInBatch
    (fun s => (s.pool 0).pc == .crashed .nullDeref) (by decide +kernel)
  refine ⟨s, reached, ?_⟩
  intro fresh
  exact fresh.2 (by simpa using crashed)

end Runs

end Server

end EpicPoold
