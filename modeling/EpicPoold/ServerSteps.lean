import EpicPoold.Server

/-! What one step of the server can do, said once with all that the step found, and what
it leaves alone. -/

namespace EpicPoold

open Foundations

namespace Server

variable {K : CliType} {n : Nat}

inductive ListenerMoved (s : Server K n) : Server K n → Prop
  | locked (sck : Socket) (here : s.listener = .lock sck) (free : s.storeMtx = none) :
      ListenerMoved s
        { s with storeMtx := some .listener, listener := .isFinished sck s.pools }
  | noneLeft (sck : Socket) (here : s.listener = .isFinished sck []) :
      ListenerMoved s { s with listener := .create sck }
  | erased (sck : Socket) (id : Nat) (rest : List Nat)
      (here : s.listener = .isFinished sck (id :: rest))
      (finished : (s.pool id).thdFinished = true) :
      ListenerMoved s { s.erase id with listener := .isFinished sck rest }
  | running (sck : Socket) (id : Nat) (rest : List Nat)
      (here : s.listener = .isFinished sck (id :: rest))
      (unfinished : (s.pool id).thdFinished = false) :
      ListenerMoved s { s with listener := .isFull sck id rest }
  | full (sck : Socket) (id : Nat) (rest : List Nat) (here : s.listener = .isFull sck id rest)
      (full : (s.pool id).isFull = true) :
      ListenerMoved s { s with listener := .isFinished sck rest }
  | chose (sck : Socket) (id : Nat) (rest : List Nat) (here : s.listener = .isFull sck id rest)
      (room : (s.pool id).isFull = false) : ListenerMoved s { s with listener := .count sck id }
  | created (sck : Socket) (here : s.listener = .create sck) :
      ListenerMoved s
        { s with
          pools := s.pools ++ [s.created]
          created := s.created + 1
          listener := .count sck s.created }
  | counted (sck : Socket) (id : Nat) (here : s.listener = .count sck id) :
      ListenerMoved s { s.setPool id (s.pool id).count with listener := .write sck id }
  | wrote (sck : Socket) (id : Nat) (here : s.listener = .write sck id) :
      ListenerMoved s { s.setPool id ((s.pool id).post ⟨sck.fd⟩) with listener := .unlock }
  | unlocked (here : s.listener = .unlock) :
      ListenerMoved s { s.unlock with listener := .accept }

inductive NodeMoved (s : Server K n) : Server K n → Prop
  | locked (here : s.node = .lock) (free : s.storeMtx = none) :
      NodeMoved s { s with storeMtx := some .node, node := .isFinished s.pools }
  | noneLeft (here : s.node = .isFinished []) : NodeMoved s { s with node := .unlock }
  | erased (id : Nat) (rest : List Nat) (here : s.node = .isFinished (id :: rest))
      (finished : (s.pool id).thdFinished = true) :
      NodeMoved s { s.erase id with node := .isFinished rest }
  | running (id : Nat) (rest : List Nat) (here : s.node = .isFinished (id :: rest))
      (unfinished : (s.pool id).thdFinished = false) :
      NodeMoved s { s with node := .getActive id rest }
  | gotActive (id : Nat) (rest : List Nat) (here : s.node = .getActive id rest) :
      NodeMoved s { s with node := .post id rest }
  | posted (id : Nat) (rest : List Nat) (here : s.node = .post id rest) :
      NodeMoved s
        { s.setPool id ((s.pool id).post ⟨dummyNewBlockFd⟩) with node := .isFinished rest }
  | unlocked (here : s.node = .unlock) : NodeMoved s { s.unlock with node := .idle }

inductive Moved (s : Server K n) : ServerAction K n → Server K n → Prop
  | accepted (sck : Socket) (here : s.listener = .accept) :
      Moved s (.accept sck) { s with listener := .lock sck }
  | listener (t : Server K n) (moved : ListenerMoved s t) : Moved s .listener t
  | notified (here : s.node = .idle) : Moved s .notify { s with node := .lock }
  | node (t : Server K n) (moved : NodeMoved s t) : Moved s .node t
  | pool (id : Nat) (a : PoolAction K n) (q : ClientPool K n) (present : id < s.created)
      (stepped : (s.pool id).step a = some q) : Moved s (.pool id a) (s.setPool id q)

section Inversion

variable {s t : Server K n}

theorem listenerStep_moved (stepped : s.listenerStep = some t) : ListenerMoved s t := by
  rcases here : s.listener with _ | sck | ⟨sck, _ | ⟨id, rest⟩⟩ | ⟨sck, id, rest⟩ | sck |
    ⟨sck, id⟩ | ⟨sck, id⟩ | _
  all_goals simp only [listenerStep, here] at stepped
  · cases stepped
  · obtain ⟨locked, taken, rfl⟩ := Option.map_eq_some_iff.mp stepped
    rw [lock] at taken
    split at taken
    · rename_i free
      cases taken
      exact .locked sck here free
    · cases taken
  · cases stepped
    exact .noneLeft sck here
  · split at stepped
    · rename_i finished
      cases stepped
      exact .erased sck id rest here finished
    · rename_i unfinished
      cases stepped
      exact .running sck id rest here (by simpa using unfinished)
  · split at stepped
    · rename_i full
      cases stepped
      exact .full sck id rest here full
    · rename_i room
      cases stepped
      exact .chose sck id rest here (by simpa using room)
  · cases stepped
    exact .created sck here
  · cases stepped
    exact .counted sck id here
  · cases stepped
    exact .wrote sck id here
  · cases stepped
    exact .unlocked here

theorem nodeStep_moved (stepped : s.nodeStep = some t) : NodeMoved s t := by
  rcases here : s.node with _ | _ | (_ | ⟨id, rest⟩) | ⟨id, rest⟩ | ⟨id, rest⟩ | _
  all_goals simp only [nodeStep, here] at stepped
  · cases stepped
  · obtain ⟨locked, taken, rfl⟩ := Option.map_eq_some_iff.mp stepped
    rw [lock] at taken
    split at taken
    · rename_i free
      cases taken
      exact .locked here free
    · cases taken
  · cases stepped
    exact .noneLeft here
  · split at stepped
    · rename_i finished
      cases stepped
      exact .erased id rest here finished
    · rename_i unfinished
      cases stepped
      exact .running id rest here (by simpa using unfinished)
  · cases stepped
    exact .gotActive id rest here
  · cases stepped
    exact .posted id rest here
  · cases stepped
    exact .unlocked here

theorem next_moved {act : ServerAction K n} (stepped : next s act = some t) : Moved s act t := by
  cases act with
  | accept sck =>
      simp only [next] at stepped
      split at stepped
      · rename_i here
        cases stepped
        exact .accepted sck here
      · cases stepped
  | listener => exact .listener t (listenerStep_moved stepped)
  | notify =>
      simp only [next] at stepped
      split at stepped
      · rename_i here
        cases stepped
        exact .notified here
      · cases stepped
  | node => exact .node t (nodeStep_moved stepped)
  | pool id a =>
      simp only [next] at stepped
      split at stepped
      · rename_i present
        obtain ⟨q, moved, rfl⟩ := Option.map_eq_some_iff.mp stepped
        exact .pool id a q present moved
      · cases stepped

end Inversion

/-- What another thread may do to a pool: write to its pipe, and raise its counter in
the one step that does. -/
structure Outside (raises : Prop) (p q : ClientPool K n) : Prop where
  clients : q.clients = p.clients
  thdFinished : q.thdFinished = p.thdFinished
  pc : q.pc = p.pc
  activeCnt : ¬ raises → q.activeCnt = p.activeCnt

theorem outside_refl (raises : Prop) (p : ClientPool K n) : Outside raises p p :=
  ⟨rfl, rfl, rfl, fun _ => rfl⟩

theorem outside_setPool {raises : Prop} (s : Server K n) (target : Nat) (q : ClientPool K n)
    (id : Nat) (here : id = target → Outside raises (s.pool id) q) :
    Outside raises (s.pool id) ((s.setPool target q).pool id) := by
  by_cases same : id = target
  · have change := here same
    subst same
    rw [setPool_same]
    exact change
  · rw [setPool_other s q same]
    exact outside_refl raises _

def Counting (s : Server K n) (id : Nat) : Prop := ∃ sck, s.listener = .count sck id

theorem listenerMoved_outside {s t : Server K n} (moved : ListenerMoved s t) (id : Nat) :
    Outside (s.Counting id) (s.pool id) (t.pool id) := by
  cases moved with
  | counted sck target here =>
      apply outside_setPool s target (s.pool target).count id
      intro same
      subst same
      exact ⟨rfl, rfl, rfl, fun idle => absurd ⟨sck, here⟩ idle⟩
  | wrote sck target here =>
      apply outside_setPool s target ((s.pool target).post ⟨sck.fd⟩) id
      intro same
      subst same
      exact ⟨rfl, rfl, rfl, fun _ => rfl⟩
  | locked | noneLeft | erased | running | full | chose | created | unlocked =>
      exact outside_refl _ _

theorem nodeMoved_outside {s t : Server K n} (raises : Prop) (moved : NodeMoved s t)
    (id : Nat) : Outside raises (s.pool id) (t.pool id) := by
  cases moved with
  | posted target rest here =>
      apply outside_setPool s target ((s.pool target).post ⟨dummyNewBlockFd⟩) id
      intro same
      subst same
      exact ⟨rfl, rfl, rfl, fun _ => rfl⟩
  | locked | noneLeft | erased | running | gotActive | unlocked => exact outside_refl _ _

/-- A step of the server is, for each pool, a step of its thread or one from outside. -/
theorem next_pool {s t : Server K n} {act : ServerAction K n} (stepped : next s act = some t)
    (id : Nat) : Outside (act = .listener ∧ s.Counting id) (s.pool id) (t.pool id) ∨
      ∃ a, act = .pool id a ∧ (s.pool id).step a = some (t.pool id) := by
  cases next_moved stepped with
  | accepted | notified => exact .inl (outside_refl _ _)
  | listener _ moved =>
      left
      simpa using listenerMoved_outside moved id
  | node _ moved => exact .inl (nodeMoved_outside _ moved id)
  | pool target a q present moved =>
      by_cases same : id = target
      · subst same
        rw [setPool_same]
        exact .inr ⟨a, rfl, moved⟩
      · rw [setPool_other s q same]
        exact .inl (outside_refl _ _)

/-- Pools are looked at only after they were created. -/
structure Known (s : Server K n) : Prop where
  listed : ∀ id ∈ s.pools, id < s.created
  listener : ∀ id ∈ s.listener.mentions, id < s.created
  node : ∀ id ∈ s.node.mentions, id < s.created

theorem listenerMoved_known {s t : Server K n} (before : Known s) (moved : ListenerMoved s t) :
    Known t := by
  have mentioned := before.listener
  cases moved with
  | locked => exact ⟨before.listed, before.listed, before.node⟩
  | noneLeft | unlocked => exact ⟨before.listed, fun _ member => (by cases member), before.node⟩
  | erased sck id rest here =>
      rw [here] at mentioned
      exact ⟨fun other member => before.listed other (List.mem_of_mem_erase member),
        fun other member => mentioned other (List.mem_cons_of_mem _ member), before.node⟩
  | running _ _ _ here | counted _ _ here =>
      rw [here] at mentioned
      exact ⟨before.listed, mentioned, before.node⟩
  | full _ _ _ here =>
      rw [here] at mentioned
      exact ⟨before.listed, fun other member => mentioned other (List.mem_cons_of_mem _ member),
        before.node⟩
  | chose sck id rest here =>
      rw [here] at mentioned
      refine ⟨before.listed, ?_, before.node⟩
      intro other member
      exact mentioned other (List.mem_cons.mpr (.inl (List.mem_singleton.mp member)))
  | created =>
      constructor
      · intro other member
        change other < s.created + 1
        rcases List.mem_append.mp member with old | new
        · exact Nat.lt_succ_of_lt (before.listed other old)
        · rw [List.mem_singleton.mp new]
          exact Nat.lt_succ_self _
      · intro other member
        rw [List.mem_singleton.mp member]
        exact Nat.lt_succ_self _
      · intro other member
        exact Nat.lt_succ_of_lt (before.node other member)
  | wrote => exact ⟨before.listed, fun _ member => (by cases member), before.node⟩

theorem nodeMoved_known {s t : Server K n} (before : Known s) (moved : NodeMoved s t) :
    Known t := by
  have mentioned := before.node
  cases moved with
  | locked => exact ⟨before.listed, before.listener, before.listed⟩
  | noneLeft | unlocked =>
      exact ⟨before.listed, before.listener, fun _ member => (by cases member)⟩
  | erased id rest here =>
      rw [here] at mentioned
      exact ⟨fun other member => before.listed other (List.mem_of_mem_erase member),
        before.listener, fun other member => mentioned other (List.mem_cons_of_mem _ member)⟩
  | running _ _ here | gotActive _ _ here =>
      rw [here] at mentioned
      exact ⟨before.listed, before.listener, mentioned⟩
  | posted id rest here =>
      rw [here] at mentioned
      exact ⟨before.listed, before.listener,
        fun other member => mentioned other (List.mem_cons_of_mem _ member)⟩

theorem next_known {s t : Server K n} (a : ServerAction K n) (before : Known s)
    (stepped : next s a = some t) : Known t := by
  cases next_moved stepped with
  | accepted => exact ⟨before.listed, fun _ member => (by cases member), before.node⟩
  | listener _ moved => exact listenerMoved_known before moved
  | notified => exact ⟨before.listed, before.listener, fun _ member => (by cases member)⟩
  | node _ moved => exact nodeMoved_known before moved
  | pool => exact ⟨before.listed, before.listener, before.node⟩

end Server

end EpicPoold
