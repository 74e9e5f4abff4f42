import EpicPoold.Foundations.Traversal
import EpicPoold.SlotAccounting

/-! iterate_pools for any list and any function, and what it comes to in notify_new_block
and in listen_main, while the pool threads go on. -/

namespace EpicPoold

open Foundations

section Iterate

variable {α σ : Type}

/-- What the loop meets at its k-th pool: whether that pool is finished when it is asked,
and what the function does to its captures and returns. -/
structure PoolVisitor (α σ : Type) where
  isFinished : Nat → α → Bool
  functor : Nat → α → σ → Bool × σ

def iterateFrom (v : PoolVisitor α σ) : Nat → List α → List α → σ → List α × σ
  | _, before, [], captures => (before, captures)
  | k, before, pool :: rest, captures =>
      if v.isFinished k pool then iterateFrom v (k + 1) before rest captures
      else
        let called := v.functor k pool captures
        if !called.1 then (before ++ [pool] ++ rest, called.2)
        else iterateFrom v (k + 1) (before ++ [pool]) rest called.2

/-- `iterate_pools`: what is left of the list, and of what the function captured. -/
def iteratePools (v : PoolVisitor α σ) (pools : List α) (captures : σ) : List α × σ :=
  iterateFrom v 0 [] pools captures

/-- These visits are what the visitor does, one after the other: a pool is removed if it was
found finished, and else the function is called on it. -/
inductive Visits (v : PoolVisitor α σ) : Nat → σ → List (Visit α) → σ → Prop
  | done {k : Nat} {captures : σ} : Visits v k captures [] captures
  | removed {k : Nat} {pool : α} {captures last : σ} {later : List (Visit α)} :
      v.isFinished k pool = true → Visits v (k + 1) captures later last →
        Visits v k captures (.removed pool :: later) last
  | called {k : Nat} {pool : α} {captures last : σ} {later : List (Visit α)} :
      v.isFinished k pool = false →
        Visits v (k + 1) (v.functor k pool captures).2 later last →
        Visits v k captures (.called pool (v.functor k pool captures).1 :: later) last

section Turn

variable {v : PoolVisitor α σ} {k : Nat} {before rest : List α} {pool : α} {captures : σ}

theorem iterateFrom_finished (finished : v.isFinished k pool = true) :
    iterateFrom v k before (pool :: rest) captures =
      iterateFrom v (k + 1) before rest captures := if_pos finished

theorem iterateFrom_unfinished (unfinished : v.isFinished k pool = false) :
    iterateFrom v k before (pool :: rest) captures =
      if !(v.functor k pool captures).1 then
        (before ++ [pool] ++ rest, (v.functor k pool captures).2)
      else iterateFrom v (k + 1) (before ++ [pool]) rest (v.functor k pool captures).2 :=
  if_neg (Bool.eq_false_iff.mp unfinished)

end Turn

theorem iterateFrom_traversed (v : PoolVisitor α σ) (whole : List α) (rest : List α) :
    ∀ k visits captures, Underway whole (kept visits ++ rest) visits rest →
      ∃ later, Visits v k captures later (iterateFrom v k (kept visits) rest captures).2 ∧
        Traversed whole (iterateFrom v k (kept visits) rest captures).1 (visits ++ later) := by
  induction rest with
  | nil =>
      intro k visits captures underway
      refine ⟨[], .done, ?_⟩
      rw [List.append_nil] at underway ⊢
      exact .ended underway
  | cons pool rest ih =>
      intro k visits captures underway
      cases finished : v.isFinished k pool with
      | true =>
          have same : kept (visits ++ [.removed pool]) = kept visits := by
            rw [kept_append]
            exact List.append_nil _
          have next := underway.removed
          rw [← same] at next
          obtain ⟨later, ran, traversed⟩ := ih (k + 1) _ captures next
          rw [same] at ran traversed
          rw [List.append_assoc] at traversed
          rw [iterateFrom_finished finished]
          exact ⟨.removed pool :: later, .removed finished ran, traversed⟩
      | false =>
          rw [iterateFrom_unfinished finished]
          cases more : (v.functor k pool captures).1 with
          | false =>
              have ran : Visits v k captures _ _ := .called finished .done
              have shape : kept visits ++ pool :: rest = kept visits ++ [pool] ++ rest := by
                rw [List.append_assoc]
                rfl
              rw [more] at ran
              rw [shape] at underway
              exact ⟨[.called pool false], ran, .stopped rfl underway⟩
          | true =>
              have same : kept (visits ++ [.called pool true]) = kept visits ++ [pool] :=
                kept_append _ _
              have shape : kept visits ++ pool :: rest =
                  kept (visits ++ [.called pool true]) ++ rest := by
                rw [same, List.append_assoc]
                rfl
              have next := underway.called
              rw [shape] at next
              obtain ⟨later, ran, traversed⟩ := ih (k + 1) _ (v.functor k pool captures).2 next
              rw [same] at ran traversed
              rw [List.append_assoc] at traversed
              have called : Visits v k captures _ _ := .called finished ran
              rw [more] at called
              exact ⟨.called pool true :: later, called, traversed⟩

theorem iteratePools_traversed (v : PoolVisitor α σ) (pools : List α) (captures : σ) :
    ∃ visits, Visits v 0 captures visits (iteratePools v pools captures).2 ∧
      Traversed pools (iteratePools v pools captures).1 visits :=
  iterateFrom_traversed v pools pools 0 [] captures (.start pools)

end Iterate

section Steps

variable {K : CliType} {n : Nat} (s : Server K n)

/-- What a step of the node thread finds out by is_finished. -/
def Server.nodeTests : List (Nat × Bool) :=
  match s.node with
  | .isFinished (id :: _) => [(id, (s.pool id).thdFinished)]
  | _ => []

def Server.listenerTests : List (Nat × Bool) :=
  match s.listener with
  | .isFinished _ (id :: _) => [(id, (s.pool id).thdFinished)]
  | _ => []

/-- What a step of the node thread does to a pool: it is removed, or the function is called
on it. The function of notify_new_block always returns true. -/
def Server.nodeVisits : List (Visit Nat) :=
  match s.node with
  | .isFinished (id :: _) => if (s.pool id).thdFinished then [.removed id] else []
  | .post id _ => [.called id true]
  | _ => []

def Server.listenerVisits : List (Visit Nat) :=
  match s.listener with
  | .isFinished _ (id :: _) => if (s.pool id).thdFinished then [.removed id] else []
  | .isFull _ id _ => [.called id (s.pool id).isFull]
  | _ => []

def Server.nodePosts : List Nat :=
  match s.node with
  | .post id _ => [id]
  | _ => []

def Server.listenerAdds : List (Nat × Int) :=
  match s.listener with
  | .write sck id => [(id, sck.fd)]
  | _ => []

end Steps

/-- A walk along the list: the list when the mutex was taken, and what is_finished returned
and which visits were made since. -/
structure Walk where
  pools : List Nat
  tests : List (Nat × Bool)
  visits : List (Visit Nat)

def Walk.extend (walk : Walk) (tests : List (Nat × Bool)) (visits : List (Visit Nat)) : Walk :=
  { walk with tests := walk.tests ++ tests, visits := walk.visits ++ visits }

/-- The walk has left the list as `left`, has `rest` before it, and has been asked about
these pools that it has not yet visited. -/
structure Walk.At (walk : Walk) (left rest : List Nat) (asked : List (Nat × Bool)) : Prop where
  underway : Underway walk.pools left walk.visits rest
  tests : walk.tests = walk.visits.map Visit.test ++ asked

namespace Walk.At

variable {walk : Walk} {left rest : List Nat} {id : Nat}

theorem start (pools : List Nat) : At ⟨pools, [], []⟩ pools pools [] := ⟨.start pools, rfl⟩

@[simp] theorem extend_nil (walk : Walk) : walk.extend [] [] = walk := by
  simp [extend]

theorem asked (at_ : walk.At left (id :: rest) []) :
    (walk.extend [(id, false)] []).At left (id :: rest) [(id, false)] := by
  constructor
  · simpa [extend] using at_.underway
  · simp [extend, at_.tests]

theorem removed (at_ : walk.At left (id :: rest) []) (nodup : left.Nodup) :
    (walk.extend [(id, true)] [.removed id]).At (left.erase id) rest [] := by
  constructor
  · rw [at_.underway.erase nodup]
    exact at_.underway.removed
  · simp [extend, at_.tests, Visit.test]

theorem called (at_ : walk.At left (id :: rest) [(id, false)]) :
    (walk.extend [] [.called id true]).At left rest [] := by
  constructor
  · exact at_.underway.called
  · simp [extend, at_.tests, Visit.test]

end Walk.At

/-- The server with a record of the walk of each thread, of the pools the node thread has
posted to since it took the mutex, of the socket the listener took the mutex for, and of what
the listener has added since. -/
structure TraversalRun (K : CliType) (n : Nat) where
  server : Server K n
  nodeWalk : Walk
  posted : List Nat
  listenerWalk : Walk
  accepted : Int
  added : List (Nat × Int)

namespace TraversalRun

variable {K : CliType} {n : Nat}

def listened (r : TraversalRun K n) (t : Server K n) : TraversalRun K n :=
  match r.server.listener with
  | .lock sck =>
      { r with
        server := t
        listenerWalk := ⟨r.server.pools, [], []⟩
        accepted := sck.fd
        added := [] }
  | _ =>
      { r with
        server := t
        listenerWalk := r.listenerWalk.extend r.server.listenerTests r.server.listenerVisits
        added := r.added ++ r.server.listenerAdds }

def walked (r : TraversalRun K n) (t : Server K n) : TraversalRun K n :=
  match r.server.node with
  | .lock => { r with server := t, nodeWalk := ⟨r.server.pools, [], []⟩, posted := [] }
  | _ =>
      { r with
        server := t
        nodeWalk := r.nodeWalk.extend r.server.nodeTests r.server.nodeVisits
        posted := r.posted ++ r.server.nodePosts }

def next (r : TraversalRun K n) (a : ServerAction K n) : Option (TraversalRun K n) :=
  (Server.next r.server a).map (fun t =>
    match a with
    | .listener => r.listened t
    | .node => r.walked t
    | _ => { r with server := t })

def system (K : CliType) (n : Nat) : System (TraversalRun K n) (ServerAction K n) where
  start r := r.server = Server.start K n
  next := next

/-- The listener has found this pool for its socket: the first neither finished nor full, or
a new one behind those that stayed. -/
inductive Chosen (walk : Walk) (pools : List Nat) (id : Nat) : Prop
  | found {earlier : List (Visit Nat)} {rest : List Nat}
      (last : walk.visits = earlier ++ [.called id false])
      (underway : Underway walk.pools pools earlier (id :: rest))
      (tests : walk.tests = walk.visits.map Visit.test)
  | created {left : List Nat} (ended : walk.At left [] []) (behind : pools = left ++ [id])
      (fresh : id ∉ walk.pools)

def NodeSound (pools : List Nat) (walk : Walk) (posted : List Nat) : NotifyPc → Prop
  | .idle => True
  | .lock => True
  | .isFinished rest => walk.At pools rest [] ∧ posted = kept walk.visits
  | .getActive id rest => walk.At pools (id :: rest) [(id, false)] ∧ posted = kept walk.visits
  | .post id rest => walk.At pools (id :: rest) [(id, false)] ∧ posted = kept walk.visits
  | .unlock => walk.At pools [] [] ∧ posted = kept walk.visits

/-- The same of the listener; `created` is the number of the next pool. -/
def ListenerSound (pools : List Nat) (created : Nat) (walk : Walk) (accepted : Int)
    (added : List (Nat × Int)) : ListenerPc → Prop
  | .accept => True
  | .lock _ => True
  | .isFinished sck rest => walk.At pools rest [] ∧
      (∀ id ∈ walk.pools, id < created) ∧ accepted = sck.fd ∧ added = []
  | .isFull sck id rest => walk.At pools (id :: rest) [(id, false)] ∧
      (∀ id ∈ walk.pools, id < created) ∧ accepted = sck.fd ∧ added = []
  | .create sck => walk.At pools [] [] ∧
      (∀ id ∈ walk.pools, id < created) ∧ accepted = sck.fd ∧ added = []
  | .count sck id => Chosen walk pools id ∧ accepted = sck.fd ∧ added = []
  | .write sck id => Chosen walk pools id ∧ accepted = sck.fd ∧ added = []
  | .unlock => ∃ id, Chosen walk pools id ∧ added = [(id, accepted)]

/-- Where a thread has the mutex. -/
def NodeHolds : NotifyPc → Prop
  | .idle | .lock => False
  | _ => True

def ListenerHolds : ListenerPc → Prop
  | .accept | .lock _ => False
  | _ => True

theorem nodeSound_of_not_holds {pc : NotifyPc} (free : ¬ NodeHolds pc) (pools : List Nat)
    (walk : Walk) (posted : List Nat) : NodeSound pools walk posted pc := by
  cases pc with
  | idle | lock => trivial
  | isFinished | getActive | post | unlock => exact absurd trivial free

theorem listenerSound_of_not_holds {pc : ListenerPc} (free : ¬ ListenerHolds pc)
    (pools : List Nat) (created : Nat) (walk : Walk) (accepted : Int) (added : List (Nat × Int)) :
    ListenerSound pools created walk accepted added pc := by
  cases pc with
  | accept | lock => trivial
  | isFinished | isFull | create | count | write | unlock => exact absurd trivial free

/-- The records are right, the mutex is with the thread that uses the list, and the list has
no repetitions. -/
structure Sound (r : TraversalRun K n) : Prop where
  known : Server.Known r.server
  nodup : r.server.pools.Nodup
  nodeHolds : NodeHolds r.server.node → r.server.storeMtx = some .node
  listenerHolds : ListenerHolds r.server.listener → r.server.storeMtx = some .listener
  node : NodeSound r.server.pools r.nodeWalk r.posted r.server.node
  listener : ListenerSound r.server.pools r.server.created r.listenerWalk r.accepted r.added
    r.server.listener

section Listener

variable {r : TraversalRun K n} {t : Server K n}

theorem listenerMoved_node (moved : Server.ListenerMoved r.server t) :
    t.node = r.server.node := by
  cases moved <;> rfl

theorem not_nodeHolds (before : Sound r) (moved : Server.ListenerMoved r.server t) :
    ¬ NodeHolds r.server.node := by
  intro holds
  have mine := before.nodeHolds holds
  have other : r.server.storeMtx = none ∨ r.server.storeMtx = some .listener := by
    cases moved with
    | locked _ _ free => exact .inl free
    | noneLeft _ here | erased _ _ _ here | running _ _ _ here | full _ _ _ here
    | chose _ _ _ here | created _ here | counted _ _ here | wrote _ _ here | unlocked here =>
        exact .inr (before.listenerHolds (by rw [here]; trivial))
  rw [mine] at other
  rcases other with other | other
  · cases other
  · cases other

theorem sound_of_listener (before : Sound r) (moved : Server.ListenerMoved r.server t)
    {walk : Walk} {accepted : Int} {added : List (Nat × Int)} (nodup : t.pools.Nodup)
    (holds : ListenerHolds t.listener → t.storeMtx = some .listener)
    (listener : ListenerSound t.pools t.created walk accepted added t.listener) :
    Sound { r with server := t, listenerWalk := walk, accepted := accepted, added := added } := by
  have free := not_nodeHolds before moved
  rw [← listenerMoved_node moved] at free
  exact ⟨Server.listenerMoved_known before.known moved, nodup, fun other => absurd other free,
    holds, nodeSound_of_not_holds free _ _ _, listener⟩

theorem sound_listened (before : Sound r) (moved : Server.ListenerMoved r.server t) :
    Sound (r.listened t) := by
  have record := before.listener
  have held := before.listenerHolds
  have step := @sound_of_listener K n r t before moved
  cases moved with
  | locked sck here free =>
      simp only [listened, here]
      exact step before.nodup (fun _ => rfl) ⟨.start _, before.known.listed, rfl, rfl⟩
  | noneLeft sck here =>
      rw [here] at record held
      simp only [listened, here, Server.listenerTests, Server.listenerVisits,
        Server.listenerAdds, Walk.At.extend_nil, List.append_nil]
      exact step before.nodup held record
  | erased sck id rest here finished =>
      rw [here] at record held
      obtain ⟨at_, old, same, none⟩ := record
      simp only [listened, here, Server.listenerTests, Server.listenerVisits,
        Server.listenerAdds, finished, if_true, List.append_nil]
      exact step (before.nodup.erase id) held ⟨at_.removed before.nodup, old, same, none⟩
  | running sck id rest here unfinished =>
      rw [here] at record held
      obtain ⟨at_, old, same, none⟩ := record
      simp only [listened, here, Server.listenerTests, Server.listenerVisits,
        Server.listenerAdds, unfinished, Bool.false_eq_true, if_false, List.append_nil]
      exact step before.nodup held ⟨at_.asked, old, same, none⟩
  | full sck id rest here full =>
      rw [here] at record held
      obtain ⟨at_, old, same, none⟩ := record
      simp only [listened, here, Server.listenerTests, Server.listenerVisits,
        Server.listenerAdds, full, List.append_nil]
      exact step before.nodup held ⟨at_.called, old, same, none⟩
  | chose sck id rest here room =>
      rw [here] at record held
      obtain ⟨at_, _, same, none⟩ := record
      simp only [listened, here, Server.listenerTests, Server.listenerVisits,
        Server.listenerAdds, room, List.append_nil]
      refine step before.nodup held ⟨.found rfl at_.underway ?_, same, none⟩
      simp [Walk.extend, at_.tests, Visit.test]
  | created sck here =>
      rw [here] at record held
      obtain ⟨at_, old, same, none⟩ := record
      simp only [listened, here, Server.listenerTests, Server.listenerVisits,
        Server.listenerAdds, Walk.At.extend_nil, List.append_nil]
      have fresh : r.server.created ∉ r.server.pools := by
        intro listed
        exact Nat.lt_irrefl _ (before.known.listed _ listed)
      refine step ?_ held ⟨.created at_ rfl ?_, same, none⟩
      · apply before.nodup.append (List.nodup_singleton _)
        exact List.disjoint_singleton.mpr fresh
      · intro among
        exact Nat.lt_irrefl _ (old _ among)
  | counted sck id here =>
      rw [here] at record held
      simp only [listened, here, Server.listenerTests, Server.listenerVisits,
        Server.listenerAdds, Walk.At.extend_nil, List.append_nil]
      exact step before.nodup held record
  | wrote sck id here =>
      rw [here] at record held
      obtain ⟨chosen, same, none⟩ := record
      simp only [listened, here, Server.listenerTests, Server.listenerVisits,
        Server.listenerAdds, Walk.At.extend_nil, none, List.nil_append]
      exact step before.nodup held ⟨id, chosen, by rw [same]⟩
  | unlocked here =>
      simp only [listened, here, Server.listenerTests, Server.listenerVisits,
        Server.listenerAdds, Walk.At.extend_nil, List.append_nil]
      exact step before.nodup (fun holds => absurd holds id) trivial

end Listener

section Node

variable {r : TraversalRun K n} {t : Server K n}

theorem nodeMoved_listener (moved : Server.NodeMoved r.server t) :
    t.listener = r.server.listener := by
  cases moved <;> rfl

theorem not_listenerHolds (before : Sound r) (moved : Server.NodeMoved r.server t) :
    ¬ ListenerHolds r.server.listener := by
  intro holds
  have mine := before.listenerHolds holds
  have other : r.server.storeMtx = none ∨ r.server.storeMtx = some .node := by
    cases moved with
    | locked _ free => exact .inl free
    | noneLeft here | erased _ _ here | running _ _ here | gotActive _ _ here | posted _ _ here
    | unlocked here => exact .inr (before.nodeHolds (by rw [here]; trivial))
  rw [mine] at other
  rcases other with other | other
  · cases other
  · cases other

theorem sound_of_node (before : Sound r) (moved : Server.NodeMoved r.server t) {walk : Walk}
    {posted : List Nat} (nodup : t.pools.Nodup)
    (holds : NodeHolds t.node → t.storeMtx = some .node)
    (node : NodeSound t.pools walk posted t.node) :
    Sound { r with server := t, nodeWalk := walk, posted := posted } := by
  have free := not_listenerHolds before moved
  rw [← nodeMoved_listener moved] at free
  exact ⟨Server.nodeMoved_known before.known moved, nodup, holds, fun other => absurd other free,
    node, listenerSound_of_not_holds free _ _ _ _ _⟩

theorem sound_walked (before : Sound r) (moved : Server.NodeMoved r.server t) :
    Sound (r.walked t) := by
  have record := before.node
  have held := before.nodeHolds
  have step := @sound_of_node K n r t before moved
  cases moved with
  | locked here free =>
      simp only [walked, here]
      exact step before.nodup (fun _ => rfl) ⟨.start _, rfl⟩
  | noneLeft here =>
      rw [here] at record held
      simp only [walked, here, Server.nodeTests, Server.nodeVisits, Server.nodePosts,
        Walk.At.extend_nil, List.append_nil]
      exact step before.nodup held record
  | erased id rest here finished =>
      rw [here] at record held
      obtain ⟨at_, all⟩ := record
      simp only [walked, here, Server.nodeTests, Server.nodeVisits, Server.nodePosts, finished,
        if_true, List.append_nil]
      refine step (before.nodup.erase id) held ⟨at_.removed before.nodup, ?_⟩
      rw [all, Walk.extend, kept_append]
      exact (List.append_nil _).symm
  | running id rest here unfinished =>
      rw [here] at record held
      obtain ⟨at_, all⟩ := record
      simp only [walked, here, Server.nodeTests, Server.nodeVisits, Server.nodePosts, unfinished,
        Bool.false_eq_true, if_false, List.append_nil]
      refine step before.nodup held ⟨at_.asked, ?_⟩
      rw [all, Walk.extend, List.append_nil]
  | gotActive id rest here =>
      rw [here] at record held
      simp only [walked, here, Server.nodeTests, Server.nodeVisits, Server.nodePosts,
        Walk.At.extend_nil, List.append_nil]
      exact step before.nodup held record
  | posted id rest here =>
      rw [here] at record held
      obtain ⟨at_, all⟩ := record
      simp only [walked, here, Server.nodeTests, Server.nodeVisits, Server.nodePosts]
      refine step before.nodup held ⟨at_.called, ?_⟩
      rw [all, Walk.extend, kept_append]
      rfl
  | unlocked here =>
      simp only [walked, here, Server.nodeTests, Server.nodeVisits, Server.nodePosts,
        Walk.At.extend_nil, List.append_nil]
      exact step before.nodup (fun holds => absurd holds id) trivial

end Node

section Runs

variable {r r' : TraversalRun K n}

theorem sound_start (first : r.server = Server.start K n) : Sound r := by
  refine ⟨?_, ?_, ?_, ?_, ?_, ?_⟩
  all_goals rw [first]
  · exact ⟨by simp [Server.start], by simp [Server.start, ListenerPc.mentions],
      by simp [Server.start, NotifyPc.mentions]⟩
  · exact List.nodup_nil
  · exact fun holds => absurd holds id
  · exact fun holds => absurd holds id
  · trivial
  · trivial

theorem sound_next (a : ServerAction K n) (before : Sound r) (stepped : next r a = some r') :
    Sound r' := by
  obtain ⟨t, stepped, same⟩ := Option.map_eq_some_iff.mp stepped
  have known := Server.next_known a before.known stepped
  cases Server.next_moved stepped with
  | listener _ moved => exact same ▸ sound_listened before moved
  | node _ moved => exact same ▸ sound_walked before moved
  | accepted sck here =>
      subst same
      have free : ¬ ListenerHolds (.lock sck) := id
      exact ⟨known, before.nodup, before.nodeHolds, fun holds => absurd holds free, before.node,
        trivial⟩
  | notified here =>
      subst same
      have free : ¬ NodeHolds .lock := id
      exact ⟨known, before.nodup, fun holds => absurd holds free, before.listenerHolds, trivial,
        before.listener⟩
  | pool =>
      subst same
      exact ⟨known, before.nodup, before.nodeHolds, before.listenerHolds, before.node,
        before.listener⟩

theorem reachable_sound (reached : (system K n).Reachable r) : Sound r :=
  reached.invariant Sound (fun _ first => sound_start first)
    (fun _ a _ _ before stepped => sound_next a before stepped)

end Runs

end TraversalRun

section Pipes

variable {K : CliType} {n : Nat} {s t : Server K n}

/-- The node thread writes one new-block message to each pool it posts to, and nothing else. -/
theorem Server.nodeStep_pipe (stepped : s.nodeStep = some t) (id : Nat) :
    (t.pool id).pipe =
      (s.pool id).pipe ++ List.replicate (s.nodePosts.count id) ⟨dummyNewBlockFd⟩ := by
  cases Server.nodeStep_moved stepped with
  | posted target rest here =>
      simp only [nodePosts, here]
      by_cases same : id = target
      · subst same
        rw [List.count_singleton_self]
        exact congrArg ClientPool.pipe (setPool_same s id _)
      · rw [List.count_eq_zero_of_not_mem (by simpa using same), List.replicate_zero,
          List.append_nil]
        exact congrArg ClientPool.pipe (setPool_other s _ same)
  | locked here | noneLeft here | erased _ _ here | running _ _ here | gotActive _ _ here
  | unlocked here =>
      rw [nodePosts, here]
      exact (List.append_nil _).symm

theorem Server.listenerStep_pipe (stepped : s.listenerStep = some t) (id : Nat) :
    (t.pool id).pipe =
      (s.pool id).pipe ++
        ((s.listenerAdds.filter (fun add => add.1 == id)).map (fun add => ⟨add.2⟩)) := by
  cases Server.listenerStep_moved stepped with
  | wrote sck target here =>
      simp only [listenerAdds, here]
      by_cases same : id = target
      · subst same
        simp [setPool_same, ClientPool.post]
      · have other : target ≠ id := fun equal => same equal.symm
        simp [setPool_other s _ same, other]
  | counted sck target here =>
      simp only [listenerAdds, here, List.filter_nil, List.map_nil, List.append_nil]
      by_cases same : id = target
      · subst same
        rw [setPool_same]
        rfl
      · exact congrArg ClientPool.pipe (setPool_other s _ same)
  | locked _ here | noneLeft _ here | erased _ _ _ here | running _ _ _ here | full _ _ _ here
  | chose _ _ _ here | created _ here | unlocked here =>
      rw [listenerAdds, here]
      exact (List.append_nil _).symm

end Pipes

/-- iterate_pools visits the pools in their order, removes what it found finished and calls
the function on the others until it says to stop. So a new block is posted once to every pool
that was found unfinished, and a socket is added to the first pool that was found neither
finished nor full, or to a new one. -/
theorem pools_traversed (K : CliType) (n : Nat) :
    (∀ (α σ : Type) (v : PoolVisitor α σ) (pools : List α) (captures : σ),
      ∃ visits, Visits v 0 captures visits (iteratePools v pools captures).2 ∧
        Traversed pools (iteratePools v pools captures).1 visits) ∧
    (∀ r : TraversalRun K n, (TraversalRun.system K n).Reachable r → r.server.node = .unlock →
      r.nodeWalk.At r.server.pools [] [] ∧ r.posted = kept r.nodeWalk.visits ∧
        r.posted.Nodup) ∧
    (∀ r : TraversalRun K n, (TraversalRun.system K n).Reachable r →
      r.server.listener = .unlock →
      ∃ id, TraversalRun.Chosen r.listenerWalk r.server.pools id ∧
        r.added = [(id, r.accepted)]) ∧
    (∀ (s t : Server K n), s.nodeStep = some t → ∀ id, (t.pool id).pipe =
      (s.pool id).pipe ++ List.replicate (s.nodePosts.count id) ⟨dummyNewBlockFd⟩) ∧
    (∀ (s t : Server K n), s.listenerStep = some t → ∀ id, (t.pool id).pipe =
      (s.pool id).pipe ++
        ((s.listenerAdds.filter (fun add => add.1 == id)).map (fun add => ⟨add.2⟩))) := by
  refine ⟨?_, ?_, ?_, ?_, ?_⟩
  · intro α σ v pools captures
    exact iteratePools_traversed v pools captures
  · intro r reached here
    have sound := TraversalRun.reachable_sound reached
    have record := sound.node
    rw [here] at record
    obtain ⟨ended, posted⟩ := record
    have left := ended.underway.left
    rw [List.append_nil, ← posted] at left
    exact ⟨ended, posted, left ▸ sound.nodup⟩
  · intro r reached here
    have record := (TraversalRun.reachable_sound reached).listener
    rw [here] at record
    exact record
  · intro s t stepped id
    exact Server.nodeStep_pipe stepped id
  · intro s t stepped id
    exact Server.listenerStep_pipe stepped id

section Witness

/-- Two pools of one client each. The client of the first hangs up and its thread ends, and then
there is a third connection. -/
def finishedAndFull : List (ServerAction (Client.cliType 60 (fun _ => none)) 1) :=
  Server.acceptOne 7 ++ Server.takeOne Server.plainMake ++ Server.acceptOne 8 ++
    List.replicate 2 .listener ++ .pool 0 (.collected [(.client 0, 0x10)]) ::
    List.replicate 6 (.pool 0 .go) ++ .accept ⟨9, by decide⟩ :: List.replicate 8 .listener

/-- The listener has removed the finished pool and passed the full one by. -/
theorem pools_traversed_finishedAndFull :
    ∃ r : TraversalRun (Client.cliType 60 (fun _ => none)) 1,
      r.server.listener = .unlock ∧ r.listenerWalk.visits = [.removed 0, .called 1 true] ∧
        r.server.pools = [1, 2] ∧ TraversalRun.Chosen r.listenerWalk [1, 2] 2 ∧
        r.added = [(2, 9)] := by
  obtain ⟨r, reached, checks⟩ := System.exists_reachable
    (S := TraversalRun.system (Client.cliType 60 (fun _ => none)) 1)
    (s := ⟨.start _ _, ⟨[], [], []⟩, [], ⟨[], [], []⟩, 0, []⟩) rfl finishedAndFull
    (fun r =>
      match r.server.listener with
      | .unlock => decide (r.listenerWalk.visits = [.removed 0, .called 1 true] ∧
          r.server.pools = [1, 2] ∧ r.added = [(2, 9)])
      | _ => false) (by decide +kernel)
  have here : r.server.listener = .unlock := by
    cases listener : r.server.listener with
    | unlock => rfl
    | accept | lock | isFinished | isFull | create | count | write => simp [listener] at checks
  rw [here] at checks
  obtain ⟨visits, pools, added⟩ := of_decide_eq_true checks
  obtain ⟨id, chosen, same⟩ := (pools_traversed (Client.cliType 60 (fun _ => none)) 1).2.2.1 r
    reached here
  rw [added, List.singleton_inj, Prod.mk.injEq] at same
  rw [pools, ← same.1] at chosen
  exact ⟨r, here, visits, pools, chosen, added⟩

end Witness

end EpicPoold
