import EpicPoold.SlotAccounting

/-! The end of a pool: its thread decides at its exit test and says so a step later,
without the mutex under which the listener chooses a pool. -/

namespace EpicPoold

open Foundations

namespace ClientPool

variable {K : CliType} {n : Nat}

def leaving : PoolPc n → Bool
  | .exit => true
  | .done => true
  | _ => false

theorem leaving_ret (ret : Return n) : leaving ret.pc = false := by
  cases ret <;> rfl

structure Leaves (p : ClientPool K n) : Prop where
  zero : leaving p.pc = true → p.activeCnt = 0
  finished : p.thdFinished = true → p.pc = .done

/-- A step within the loop of pool_main. -/
theorem leaves_of_stays {p q : ClientPool K n} (before : Leaves p) (running : p.pc ≠ .done)
    (stays : leaving q.pc = false) (same : q.thdFinished = p.thdFinished) : Leaves q where
  zero gone := by
    rw [stays] at gone
    cases gone
  finished ended := by
    rw [same] at ended
    exact absurd (before.finished ended) running

theorem step_leaves {p q : ClientPool K n} (a : PoolAction K n) (before : Leaves p)
    (stepped : p.step a = some q) : Leaves q := by
  cases step_moved stepped with
  | interrupted here | collected _ _ here _ _ | batchDone _ here | pipeEvent _ _ here
  | nullRead _ _ _ _ _ here _ _ | readKept _ _ _ _ _ _ _ here _ _ _
  | readEnded _ _ _ _ _ _ _ here _ _ _ | hangUp _ _ _ _ _ here _ | removed _ _ _ _ here _
  | pipeEmpty _ _ here _ | popped _ _ _ _ here _ | overflow _ _ _ _ here _ _
  | refused _ _ _ _ here _ _ | added _ _ _ _ _ here _ _ _ | newBlock _ _ _ here _
  | blockDone _ _ _ here _ | blockKept _ _ _ _ _ _ here _ _ _
  | blockEnded _ _ _ _ _ _ here _ _ _ | again _ here _ =>
      exact leaves_of_stays before (by simp [here]) rfl rfl
  | alreadyGone _ _ ret here _ | decremented _ ret here =>
      exact leaves_of_stays before (by simp [here]) (leaving_ret ret) rfl
  | leave _ here idle =>
      refine ⟨fun _ => idle, ?_⟩
      intro ended
      have done := before.finished ended
      rw [here] at done
      cases done
  | finished _ here => exact ⟨fun _ => before.zero (by rw [here]; rfl), fun _ => rfl⟩

end ClientPool

namespace Server

open ClientPool

variable {K : CliType} {n : PoolSize}

/-- add_socket does not raise the counter of a pool whose thread has passed its exit
test. -/
def inTime (s : Server K n.size) : ServerAction K n.size → Bool
  | .listener =>
      match s.listener with
      | .count _ id => !leaving (s.pool id).pc
      | _ => true
  | _ => true

/-- A finished pool owes no client to an accepted socket. -/
def NothingOwed (s : Server K n.size) : Prop :=
  ∀ id, (s.pool id).thdFinished = true →
    (∀ m ∈ (s.pool id).pipe, m.adds = false) ∧ ∀ sck, s.listener ≠ .write sck id

theorem next_leaves {s t : Server K n.size} (act : ServerAction K n.size)
    (before : ∀ id, Leaves (s.pool id)) (timely : inTime s act = true)
    (stepped : next s act = some t) (id : Nat) : Leaves (t.pool id) := by
  rcases next_pool stepped id with ⟨_, thdFinished, pc, activeCnt⟩ | ⟨a, rfl, moved⟩
  · constructor
    · intro gone
      have left : leaving (s.pool id).pc = true := pc ▸ gone
      rw [activeCnt]
      · exact (before id).zero left
      · rintro ⟨rfl, sck, here⟩
        simp [inTime, here, left] at timely
    · intro ended
      rw [pc]
      exact (before id).finished (thdFinished ▸ ended)
  · exact step_leaves a (before id) moved

theorem reachable_leaves {s : Server K n.size}
    (reached : (system K n.size).ReachableUnder (fun s a => inTime s a = true) s) :
    ∀ id, Leaves (s.pool id) := by
  refine reached.invariant (fun s => ∀ id, Leaves (s.pool id)) ?_ ?_
  · rintro s rfl id
    constructor
    · intro gone
      cases gone
    · intro ended
      cases ended
  · intro s act t _ before timely stepped id
    exact next_leaves act before timely stepped id

/-- A finished pool owes nothing in any run in which the listener raises the counter of
a pool only before its thread has passed the exit test. -/
theorem nothingOwed_of_inTime {s : Server K n.size}
    (reached : (system K n.size).ReachableUnder (fun s a => inTime s a = true) s) :
    NothingOwed s := by
  intro id ended
  have leaves := reachable_leaves reached id
  have counted := (reachable_inv reached).1.counted id
  have zero : (s.pool id).activeCnt = 0 := by
    refine leaves.zero ?_
    rw [leaves.finished ended]
    rfl
  rw [zero, account, pending] at counted
  have nothing : (0 : UInt32).toNat = 0 := rfl
  have empty : adds (s.pool id).pipe = 0 := by omega
  constructor
  · intro m member
    have none := List.countP_eq_zero.mp empty m member
    simpa using none
  · intro sck here
    have one : writing s.listener id = 1 := by
      rw [here]
      simp [writing]
    omega

section Runs

def lastClientLeaves : List (ServerAction (Client.cliType 60 (fun _ => none))
    clientPoolSize.size) :=
  acceptOne 7 ++ takeOne plainMake ++
    [.pool 0 (.collected [(.client firstClient, 0x10)]), .pool 0 .go, .pool 0 .go, .pool 0 .go,
      .pool 0 .go]

theorem nothing_owed_at_exit :
    ∃ s : Server (Client.cliType 60 (fun _ => none)) clientPoolSize.size,
      (s.pool 0).thdFinished = true ∧ NothingOwed (n := clientPoolSize) s := by
  obtain ⟨s, reached, ended⟩ := System.exists_reachableUnder (S := minerServer (fun _ => none))
    (inTime (n := clientPoolSize)) (fun _ _ timely => timely) rfl
    (lastClientLeaves ++ [.pool 0 .go, .pool 0 .go]) (fun s => (s.pool 0).thdFinished)
    (by decide +kernel)
  exact ⟨s, ended, nothingOwed_of_inTime reached⟩

/-- The listener finds the pool neither finished nor full, the thread passes its exit
test, and the next connection is given to a pool that nobody serves. -/
def lateConnection : List (ServerAction (Client.cliType 60 (fun _ => none))
    clientPoolSize.size) :=
  lastClientLeaves ++ .accept ⟨8, by decide⟩ :: List.replicate 3 .listener ++
    .pool 0 .go :: List.replicate 2 .listener ++ [.pool 0 .go]

theorem connection_lost_reachable :
    ∃ s : Server (Client.cliType 60 (fun _ => none)) clientPoolSize.size,
      (minerServer (fun _ => none)).Reachable s ∧ ¬ NothingOwed (n := clientPoolSize) s := by
  obtain ⟨s, reached, lost⟩ := System.exists_reachable (S := minerServer (fun _ => none)) rfl
    lateConnection (fun s => (s.pool 0).thdFinished && (s.pool 0).pipe.any PipeMsg.adds)
    (by decide +kernel)
  obtain ⟨ended, m, member, adding⟩ : (s.pool 0).thdFinished = true ∧
      ∃ m ∈ (s.pool 0).pipe, m.adds = true := by simpa using lost
  refine ⟨s, reached, ?_⟩
  intro nothing
  have none := (nothing 0 ended).1 m member
  rw [adding] at none
  cases none

end Runs

end Server

end EpicPoold
