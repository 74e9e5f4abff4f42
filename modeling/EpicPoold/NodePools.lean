import EpicPoold.ChainServed
import EpicPoold.NodeDatasets
import EpicPoold.Relay

/-! The node thread with its messages and both hash pools with all their threads. What
json_proc_msg takes the slots of the pools for is what they are. -/

namespace EpicPoold

open Foundations Hashpool

/-- The block numbers that notify_block makes of a height. -/
def OfMessages (blockNumber : UInt64) : Prop := blockNumber.toNat ≤ 2 ^ 32

namespace PpHashpool

theorem ofMessages_height (height : UInt32) :
    OfMessages height.toUInt64 ∧ OfMessages (height.toUInt64 + 1) := by
  have small := height.toNat_lt
  have next := toUInt64_succ height
  simp only [OfMessages, next, UInt32.toNat_toUInt64]
  omega

def ofHeight (height : UInt32) : Notified OfMessages := ⟨height, ofMessages_height height⟩

end PpHashpool

namespace Hashpool

variable {K : PoolKind} {s t : State K}

theorem next_idle {a : Action K} (idle : s.node = .idle) (quiet : ∀ r, a ≠ .request r)
    (stepped : next s a = some t) : t.node = .idle := by
  cases a with
  | request r => exact absurd rfl (quiet r)
  | node => simp [next, Hashpool.nodeStep, idle] at stepped
  | dataset k => rw [(datasetStep_frame stepped).1, idle]
  | pushJob job =>
      cases stepped
      exact idle
  | worker w =>
      have still := workerMoved_quiet (workerStep_moved stepped)
      rw [still.node, idle]

def nodeLeft (s : State K) : Nat :=
  match s.node with
  | .idle => 0
  | .hasDataset _ k => 6 + (2 - k)
  | .fetchAdd _ => 5
  | .storeReady _ _ => 4
  | .assignSeed _ _ => 3
  | .storeLoaded _ _ => 2
  | .spawn _ => 1

theorem exists_nodeStep (busy : s.node ≠ .idle) :
    ∃ t, nodeStep s = some t ∧ nodeLeft t < nodeLeft s := by
  unfold nodeStep
  cases here : s.node with
  | idle => exact absurd here busy
  | hasDataset request k =>
      simp only
      split
      · rename_i inside
        split
        · refine ⟨_, rfl, ?_⟩
          simp only [nodeLeft, here]
          omega
        · refine ⟨_, rfl, ?_⟩
          simp only [nodeLeft, here]
          omega
      · refine ⟨_, rfl, ?_⟩
        simp only [nodeLeft, here]
        omega
  | fetchAdd | storeReady | assignSeed | storeLoaded | spawn =>
      refine ⟨_, rfl, ?_⟩
      simp only [nodeLeft, here]
      omega

end Hashpool

namespace DatasetCalls

variable {K : PoolKind} {T C : Type}

def free (s : DatasetCalls K T C) : Bool :=
  match s.todo, s.checks.pool.node with
  | [], .idle => true
  | _, _ => false

def ofPool : CallAction K T C → Bool
  | .call _ => false
  | _ => true

def callWith [DecidableEq T] (requests : C → List K.Request) (s : DatasetCalls K T C) :
    Option C → Option (DatasetCalls K T C)
  | none => some s
  | some c => next requests s (.call c)

section Free

variable [DecidableEq T] {requests : C → List K.Request} {s t : DatasetCalls K T C}

omit [DecidableEq T] in
theorem free_iff :
    s.free = true ↔ s.todo = [] ∧ s.checks.pool.node = .idle := by
  rw [free]
  split
  · rename_i done idle
    simp only [done, idle, and_self]
  · rename_i busy
    simp only [Bool.false_eq_true, false_iff]
    rintro ⟨done, idle⟩
    exact busy done idle

theorem next_free {a : CallAction K T C} (free : s.free = true) (own : ofPool a = true)
    (stepped : next requests s a = some t) : t.free = true := by
  obtain ⟨done, idle⟩ := free_iff.mp free
  cases next_moved stepped with
  | called c => cases own
  | requested request rest checks todo ran =>
      rw [done] at todo
      cases todo
  | shared a checks others ran =>
      refine free_iff.mpr ⟨done, ?_⟩
      cases ShareChecks.next_moved ran with
      | checked v job here => exact idle
      | woken v job report here => exact idle
      | pooled b q inner went =>
          change (ShareChecks.afterPool _ _ _).pool.node = .idle
          rw [ShareChecks.afterPool_pool]
          refine next_idle idle ?_ went
          rintro r rfl
          cases others

theorem next_calls {a : CallAction K T C} (own : ofPool a = true)
    (stepped : next requests s a = some t) : t.calls = s.calls := by
  cases next_moved stepped with
  | called c => cases own
  | requested | shared => rfl

theorem callWith_asked {c : Option C} (called : callWith requests s c = some t) :
    asked requests t.calls = (asked requests s.calls).requireAll
      (((c.map requests).getD []).map K.requestId) := by
  cases c with
  | none =>
      cases called
      rfl
  | some c =>
      have stepped : next requests s (.call c) = some t := called
      cases next_moved stepped with
      | called _ done idle => exact asked_append requests s.calls c

theorem callWith_sound {c : Option C} (before : Sound requests s)
    (called : callWith requests s c = some t) : Sound requests t := by
  cases c with
  | none =>
      cases called
      exact before
  | some c =>
      have stepped : next requests s (.call c) = some t := called
      exact next_sound before stepped

def Alone (_ : DatasetCalls K T C) (a : CallAction K T C) : Prop := ofPool a = true

theorem leads_idle (requests : C → List K.Request) : ∀ (left : Nat) (s : DatasetCalls K T C),
    nodeLeft s.checks.pool ≤ left →
    ∃ t, (system requests).LeadsUnder Alone s t ∧ t.checks.pool.node = .idle ∧ t.todo = s.todo := by
  intro left
  induction left with
  | zero =>
      intro s few
      refine ⟨s, .refl, ?_, rfl⟩
      by_contra busy
      obtain ⟨_, _, less⟩ := exists_nodeStep busy
      omega
  | succ left ih =>
      intro s few
      by_cases idle : s.checks.pool.node = .idle
      · exact ⟨s, .refl, idle, rfl⟩
      · obtain ⟨q, ran, less⟩ := exists_nodeStep idle
        let middle : DatasetCalls K T C := { s with checks := { s.checks with pool := q } }
        have stepped : (system requests).next s (.share (.pool .node)) = some middle := by
          change DatasetCalls.next requests s (.share (.pool .node)) = some middle
          simp only [DatasetCalls.next, ShareChecks.next, Hashpool.next, ran, ofOthers,
            ShareChecks.ofPool, Option.map_some, if_true]
          rfl
        obtain ⟨t, leads, done, todo⟩ := ih middle (by
          change nodeLeft q ≤ left
          omega)
        exact ⟨t, .head ⟨.share (.pool .node), rfl, stepped⟩ leads, done, todo⟩

theorem leads_free (requests : C → List K.Request) (s : DatasetCalls K T C) :
    ∃ t, (system requests).LeadsUnder Alone s t ∧ t.free = true := by
  have all : ∀ (todo : List K.Request) (s : DatasetCalls K T C), s.todo = todo →
      ∃ t, (system requests).LeadsUnder Alone s t ∧ t.free = true := by
    intro todo
    induction todo with
    | nil =>
        intro s done
        obtain ⟨t, leads, idle, same⟩ := leads_idle requests _ s le_rfl
        exact ⟨t, leads, free_iff.mpr ⟨same.trans done, idle⟩⟩
    | cons request rest ih =>
        intro s pending
        obtain ⟨t, leads, idle, same⟩ := leads_idle requests _ s le_rfl
        have stepped : ∃ middle, (system requests).next t .request = some middle ∧
            middle.todo = rest := by
          change ∃ middle, DatasetCalls.next requests t .request = some middle ∧ _
          simp only [DatasetCalls.next, same, pending, ShareChecks.next, Hashpool.next, idle,
            ShareChecks.ofPool, Option.map_some, if_true]
          exact ⟨_, rfl, rfl⟩
        obtain ⟨middle, stepped, left⟩ := stepped
        obtain ⟨u, on, free⟩ := ih middle left
        exact ⟨u, leads.trans (.head ⟨.request, rfl, stepped⟩ on), free⟩
  exact all s.todo s rfl

end Free

end DatasetCalls

/-- How far json_proc_msg is: it has asked the RandomX pool, or the ProgPoW pool too. -/
inductive MessagePc where
  | between
  | epochs (env : MessageEnv) (doc : Value)
  | blocks (env : MessageEnv) (doc : Value)

/-- `C` are the lists of seeds that the messages ask for. -/
structure NodePools (getEpochNumber : UInt64 → Int32) (T C : Type) where
  run : NodeRun
  message : MessagePc
  rx : DatasetCalls RxHashpool.kind T C
  pp : DatasetCalls (PpHashpool.kind getEpochNumber OfMessages) T (PpHashpool.Notified OfMessages)

/-- `finish` is whatever else json_proc_msg does. -/
inductive NodePoolsAction (getEpochNumber : UInt64 → Int32) (T C : Type) where
  | node (a : NodeAction)
  | begin (env : MessageEnv) (doc : Value) (asked : Option C)
  | notifyBlock
  | finish
  | rx (a : CallAction RxHashpool.kind T C)
  | pp (a : CallAction (PpHashpool.kind getEpochNumber OfMessages) T
      (PpHashpool.Notified OfMessages))

namespace NodePools

open DatasetCalls

variable {getEpochNumber : UInt64 → Int32} {T C : Type}

/-- What recv_main does between two messages. The dataset threads are in the pools. -/
def betweenMessages : NodeAction → Bool
  | .message _ _ => false
  | .rxReady _ _ => false
  | .ppReady _ _ => false
  | _ => true

section System

variable [DecidableEq T] (requests : C → List V32)

def beginStep (s : NodePools getEpochNumber T C) (env : MessageEnv) (doc : Value)
    (asked : Option C) : Option (NodePools getEpochNumber T C) :=
  match s.message with
  | .between =>
      if s.run.receiving ∧ (asked.map requests).getD [] = (Node.messageAsks env doc).seeds then
        (callWith requests s.rx asked).map (fun rx =>
          { s with rx := rx, message := .epochs env doc })
      else none
  | _ => none

def notifyStep (s : NodePools getEpochNumber T C) : Option (NodePools getEpochNumber T C) :=
  match s.message with
  | .epochs env doc =>
      if s.rx.free then
        (callWith PpHashpool.notified s.pp
          ((Node.messageAsks env doc).height.map PpHashpool.ofHeight)).map (fun pp =>
            { s with pp := pp, message := .blocks env doc })
      else none
  | _ => none

def finishStep (s : NodePools getEpochNumber T C) : Option (NodePools getEpochNumber T C) :=
  match s.message with
  | .blocks env doc =>
      if s.pp.free then
        (NodeRun.next getEpochNumber s.run (.message env doc)).map (fun run =>
          { s with run := run, message := .between })
      else none
  | _ => none

def nodeStep (s : NodePools getEpochNumber T C) (a : NodeAction) :
    Option (NodePools getEpochNumber T C) :=
  match s.message with
  | .between =>
      if betweenMessages a then
        (NodeRun.next getEpochNumber s.run a).map (fun run => { s with run := run })
      else none
  | _ => none

def next (s : NodePools getEpochNumber T C) :
    NodePoolsAction getEpochNumber T C → Option (NodePools getEpochNumber T C)
  | .node a => s.nodeStep a
  | .begin env doc asked => s.beginStep requests env doc asked
  | .notifyBlock => s.notifyStep
  | .finish => s.finishStep
  | .rx a =>
      if ofPool a then
        (DatasetCalls.next requests s.rx a).map (fun rx =>
          { s with rx := rx })
      else none
  | .pp a =>
      if ofPool a then
        (DatasetCalls.next PpHashpool.notified s.pp a).map (fun pp => { s with pp := pp })
      else none

def system : System (NodePools getEpochNumber T C) (NodePoolsAction getEpochNumber T C) where
  start s := (NodeRun.system getEpochNumber).start s.run ∧ s.message = .between ∧
    (DatasetCalls.system requests).start s.rx ∧
    (DatasetCalls.system PpHashpool.notified).start s.pp
  next := next requests

inductive Moved (s : NodePools getEpochNumber T C) :
    NodePoolsAction getEpochNumber T C → NodePools getEpochNumber T C → Prop
  | node (a : NodeAction) (run : NodeRun) (here : s.message = .between)
      (between : betweenMessages a = true) (ran : NodeRun.next getEpochNumber s.run a = some run) :
      Moved s (.node a) { s with run := run }
  | begun (env : MessageEnv) (doc : Value) (asked : Option C)
      (rx : DatasetCalls RxHashpool.kind T C) (here : s.message = .between)
      (lists : (asked.map requests).getD [] = (Node.messageAsks env doc).seeds)
      (called : callWith requests s.rx asked = some rx) :
      Moved s (.begin env doc asked) { s with rx := rx, message := .epochs env doc }
  | notified (env : MessageEnv) (doc : Value)
      (pp : DatasetCalls (PpHashpool.kind getEpochNumber OfMessages) T
        (PpHashpool.Notified OfMessages))
      (here : s.message = .epochs env doc) (free : s.rx.free = true)
      (called : callWith PpHashpool.notified s.pp
        ((Node.messageAsks env doc).height.map PpHashpool.ofHeight) = some pp) :
      Moved s .notifyBlock { s with pp := pp, message := .blocks env doc }
  | finished (env : MessageEnv) (doc : Value) (run : NodeRun)
      (here : s.message = .blocks env doc) (free : s.pp.free = true)
      (ran : NodeRun.next getEpochNumber s.run (.message env doc) = some run) :
      Moved s .finish { s with run := run, message := .between }
  | rx (a : CallAction RxHashpool.kind T C) (rx : DatasetCalls RxHashpool.kind T C)
      (own : ofPool a = true)
      (ran : DatasetCalls.next requests s.rx a = some rx) :
      Moved s (.rx a) { s with rx := rx }
  | pp (a : CallAction (PpHashpool.kind getEpochNumber OfMessages) T
        (PpHashpool.Notified OfMessages))
      (pp : DatasetCalls (PpHashpool.kind getEpochNumber OfMessages) T
        (PpHashpool.Notified OfMessages))
      (own : ofPool a = true) (ran : DatasetCalls.next PpHashpool.notified s.pp a = some pp) :
      Moved s (.pp a) { s with pp := pp }

end System

section Steps

variable [DecidableEq T] {requests : C → List V32} {s t : NodePools getEpochNumber T C}

theorem next_moved {a : NodePoolsAction getEpochNumber T C}
    (stepped : next requests s a = some t) : Moved requests s a t := by
  cases a with
  | node a =>
      simp only [next, nodeStep] at stepped
      split at stepped
      · rename_i here
        split at stepped
        · rename_i between
          obtain ⟨run, ran, rfl⟩ := Option.map_eq_some_iff.mp stepped
          exact .node a run here between ran
        · cases stepped
      · cases stepped
  | begin env doc asked =>
      simp only [next, beginStep] at stepped
      split at stepped
      · rename_i here
        split at stepped
        · rename_i lists
          obtain ⟨rx, called, rfl⟩ := Option.map_eq_some_iff.mp stepped
          exact .begun env doc asked rx here lists.2 called
        · cases stepped
      · cases stepped
  | notifyBlock =>
      simp only [next, notifyStep] at stepped
      split at stepped
      · rename_i env doc here
        split at stepped
        · rename_i free
          obtain ⟨pp, called, rfl⟩ := Option.map_eq_some_iff.mp stepped
          exact .notified env doc pp here free called
        · cases stepped
      · cases stepped
  | finish =>
      simp only [next, finishStep] at stepped
      split at stepped
      · rename_i env doc here
        split at stepped
        · rename_i free
          obtain ⟨run, ran, rfl⟩ := Option.map_eq_some_iff.mp stepped
          exact .finished env doc run here free ran
        · cases stepped
      · cases stepped
  | rx a =>
      simp only [next] at stepped
      split at stepped
      · rename_i own
        obtain ⟨rx, ran, rfl⟩ := Option.map_eq_some_iff.mp stepped
        exact .rx a rx own ran
      · cases stepped
  | pp a =>
      simp only [next] at stepped
      split at stepped
      · rename_i own
        obtain ⟨pp, ran, rfl⟩ := Option.map_eq_some_iff.mp stepped
        exact .pp a pp own ran
      · cases stepped

/-- The node's slots with what json_proc_msg has asked for so far. -/
def expected (s : NodePools getEpochNumber T C) : DatasetSlots × DatasetSlots :=
  match s.message with
  | .between => s.run.node.slots
  | .epochs env doc =>
      (((Node.messageAsks env doc).require getEpochNumber s.run.node.slots).1, s.run.node.pp)
  | .blocks env doc => (Node.messageAsks env doc).require getEpochNumber s.run.node.slots

variable (requests) in
structure Sound (s : NodePools getEpochNumber T C) : Prop where
  run : (NodeRun.system getEpochNumber).Reachable s.run
  rx : DatasetCalls.Sound requests s.rx
  pp : DatasetCalls.Sound PpHashpool.notified s.pp
  slots : s.expected = (asked (K := RxHashpool.kind) requests s.rx.calls,
    asked (K := PpHashpool.kind getEpochNumber OfMessages) PpHashpool.notified s.pp.calls)
  rxFree : (∀ env doc, s.message ≠ .epochs env doc) → s.rx.free = true
  ppFree : (∀ env doc, s.message ≠ .blocks env doc) → s.pp.free = true

theorem betweenMessages_slots {r run : NodeRun} {a : NodeAction}
    (between : betweenMessages a = true) (ran : NodeRun.next getEpochNumber r a = some run) :
    run.node.slots = r.node.slots := by
  cases a with
  | message | rxReady | ppReady => cases between
  | connected timestampMs =>
      simp only [NodeRun.next] at ran
      split at ran
      · cases ran
      · cases ran
        rfl
  | disconnected | timeout | notJson =>
      simp only [NodeRun.next] at ran
      split at ran
      · cases ran
        rfl
      · cases ran

theorem message_slots {r run : NodeRun} {env : MessageEnv} {doc : Value}
    (ran : NodeRun.next getEpochNumber r (.message env doc) = some run) :
    run.node.slots = (Node.messageAsks env doc).require getEpochNumber r.node.slots := by
  rw [← Node.slots_procMessage]
  simp only [NodeRun.next] at ran
  split at ran
  · rcases ended : Id.run ((Node.procMessage getEpochNumber env doc).run.run r.node) with
      ⟨result, n⟩
    have final : final (Node.procMessage getEpochNumber env doc) r.node = n :=
      congrArg Prod.snd ended
    rw [final]
    simp only [NodeRun.messageStep, ended] at ran
    split at ran
    · rename_i same
      cases same
      cases ran
      rfl
    · rename_i same
      cases same
      cases ran
      rfl
    · rename_i same
      cases same
      cases ran
      rfl
    · rename_i same
      cases same
      cases ran
      rfl
    · cases ran
  · cases ran

theorem blocks_eq (a : Asked) :
    (((a.height.map PpHashpool.ofHeight).map PpHashpool.notified).getD []).map
        (PpHashpool.kind getEpochNumber OfMessages).requestId =
      a.blocks.map (DatasetSlots.blockId getEpochNumber) := by
  rcases a with ⟨seeds, _ | height⟩
  · rfl
  · rfl

theorem next_sound {a : NodePoolsAction getEpochNumber T C} (before : Sound requests s)
    (stepped : next requests s a = some t) : Sound requests t := by
  have slots := before.slots
  cases next_moved stepped with
  | node a run here between ran =>
      refine ⟨.step before.run trivial ran, before.rx, before.pp, ?_, before.rxFree, before.ppFree⟩
      rw [expected, here] at slots ⊢
      exact (betweenMessages_slots between ran).trans slots
  | begun env doc c rx here lists called =>
      refine ⟨before.run, callWith_sound before.rx called, before.pp, ?_, ?_, ?_⟩
      · rw [expected, here] at slots
        obtain ⟨rxSlots, ppSlots⟩ := Prod.mk.inj slots
        rw [callWith_asked called, lists, ← rxSlots, ← ppSlots]
        rfl
      · intro other
        exact absurd rfl (other env doc)
      · intro _
        exact before.ppFree (by simp [here])
  | notified env doc pp here free called =>
      refine ⟨before.run, before.rx, callWith_sound before.pp called, ?_, ?_, ?_⟩
      · rw [expected, here] at slots
        obtain ⟨rxSlots, ppSlots⟩ := Prod.mk.inj slots
        rw [callWith_asked called, blocks_eq, ← rxSlots, ← ppSlots]
        rfl
      · intro _
        exact free
      · intro other
        exact absurd rfl (other env doc)
  | finished env doc run here free ran =>
      have reached : (NodeRun.system getEpochNumber).Reachable run :=
        .step before.run (a := .message env doc) trivial ran
      refine ⟨reached, before.rx, before.pp, ?_, ?_, ?_⟩
      · rw [expected, here] at slots
        exact (message_slots ran).trans slots
      · intro _
        exact before.rxFree (by simp [here])
      · intro _
        exact free
  | rx a rx own ran =>
      refine ⟨before.run, DatasetCalls.next_sound before.rx ran, before.pp, ?_, ?_, before.ppFree⟩
      · rw [next_calls own ran]
        exact slots
      · intro other
        exact next_free (before.rxFree other) own ran
  | pp a pp own ran =>
      refine ⟨before.run, before.rx, DatasetCalls.next_sound before.pp ran, ?_, before.rxFree, ?_⟩
      · rw [next_calls own ran]
        exact slots
      · intro other
        exact next_free (before.ppFree other) own ran

theorem start_sound (start : (system requests).start s) : Sound requests s := by
  obtain ⟨run, here, rx, pp⟩ := start
  refine ⟨.start run, DatasetCalls.start_sound rx, DatasetCalls.start_sound pp, ?_, ?_, ?_⟩
  · have first : s.run = ⟨Node.plainNode, false, []⟩ := run
    rw [expected, here, rx.2.1, pp.2.1, first]
    rfl
  · intro _
    exact free_iff.mpr ⟨rx.2.2, rx.1.1.idle⟩
  · intro _
    exact free_iff.mpr ⟨pp.2.2, pp.1.1.idle⟩

theorem reachable_sound
    {allowed : NodePools getEpochNumber T C → NodePoolsAction getEpochNumber T C → Prop}
    (reached : (system requests).ReachableUnder allowed s) : Sound requests s :=
  reached.invariant (Sound requests) (fun _ => start_sound)
    (fun _ _ _ _ before _ stepped => next_sound before stepped)

theorem slots_agree (sound : Sound requests s) (here : s.message = .between) :
    s.run.node.slots = (s.rx.checks.pool.slots, s.pp.checks.pool.slots) := by
  have slots := sound.slots
  rw [expected, here] at slots
  obtain ⟨rxDone, rxIdle⟩ := free_iff.mp (sound.rxFree (by simp [here]))
  obtain ⟨ppDone, ppIdle⟩ := free_iff.mp (sound.ppFree (by simp [here]))
  rw [sound.rx.slots_of_idle rxDone rxIdle, sound.pp.slots_of_idle ppDone ppIdle]
  exact slots

theorem leads_rx {x : DatasetCalls RxHashpool.kind T C}
    (leads : (DatasetCalls.system requests).LeadsUnder Alone s.rx x) :
    (system requests).Leads s { s with rx := x } := by
  refine leads.lift (fun x => { s with rx := x }) ?_
  rintro first second ⟨a, own, ran⟩
  have own : ofPool a = true := own
  refine ⟨.rx a, ?_⟩
  change next requests _ (.rx a) = _
  simp only [next, own, if_true]
  exact congrArg (Option.map _) ran

theorem leads_pp {x : DatasetCalls (PpHashpool.kind getEpochNumber OfMessages) T
      (PpHashpool.Notified OfMessages)}
    (leads : (DatasetCalls.system PpHashpool.notified).LeadsUnder Alone s.pp x) :
    (system requests).Leads s { s with pp := x } := by
  refine leads.lift (fun x => { s with pp := x }) ?_
  rintro first second ⟨a, own, ran⟩
  have own : ofPool a = true := own
  refine ⟨.pp a, ?_⟩
  change next requests _ (.pp a) = _
  simp only [next, own, if_true]
  exact congrArg (Option.map _) ran

theorem exists_callWith {K : PoolKind} {D : Type} (requests : D → List K.Request)
    {calls : DatasetCalls K T D} (free : calls.free = true) (c : Option D) :
    ∃ after, callWith requests calls c = some after := by
  cases c with
  | none => exact ⟨calls, rfl⟩
  | some c =>
      obtain ⟨done, idle⟩ := free_iff.mp free
      simp only [callWith, DatasetCalls.next, done, idle]
      exact ⟨_, rfl⟩

theorem message_ends {s : NodePools getEpochNumber T (List V32)} (sound : Sound id s)
    (here : s.message = .between) {env : MessageEnv} {doc : Value} {run : NodeRun}
    (ran : NodeRun.next getEpochNumber s.run (.message env doc) = some run) :
    ∃ t, (system id).Leads s t ∧ t.message = .between ∧ t.run = run := by
  have receiving : s.run.receiving = true := by
    by_contra off
    simp [NodeRun.next, off] at ran
  let seeds := (Node.messageAsks env doc).seeds
  have rxIdle := sound.rxFree (by simp [here])
  have ppIdle := sound.ppFree (by simp [here])
  obtain ⟨rx, asked⟩ := exists_callWith (K := RxHashpool.kind) id rxIdle (some seeds)
  let begun : NodePools getEpochNumber T (List V32) :=
    { s with rx := rx, message := .epochs env doc }
  have first : (system id).next s (.begin env doc (some seeds)) = some begun := by
    change next id s (.begin env doc (some seeds)) = some begun
    simp only [next, beginStep, here, receiving, asked, Option.map_some, Option.getD_some, id,
      and_self, if_true, seeds, begun]
  obtain ⟨rxAfter, rxLeads, rxFree⟩ := leads_free (K := RxHashpool.kind) id rx
  let rested : NodePools getEpochNumber T (List V32) := { begun with rx := rxAfter }
  obtain ⟨pp, notified⟩ := exists_callWith PpHashpool.notified ppIdle
    ((Node.messageAsks env doc).height.map PpHashpool.ofHeight)
  let told : NodePools getEpochNumber T (List V32) :=
    { rested with pp := pp, message := .blocks env doc }
  have second : (system id).next rested .notifyBlock = some told := by
    change next id rested .notifyBlock = some told
    simp only [next, notifyStep, rested, begun, rxFree, notified, Option.map_some, if_true, told]
  obtain ⟨ppAfter, ppLeads, ppFree⟩ := leads_free PpHashpool.notified pp
  let settled : NodePools getEpochNumber T (List V32) := { told with pp := ppAfter }
  have third : (system id).next settled .finish =
      some { settled with run := run, message := .between } := by
    change next id settled .finish = _
    simp only [next, finishStep, settled, told, rested, begun, ppFree, ran, Option.map_some,
      if_true]
  have toRested : (system id).Leads begun rested := leads_rx rxLeads
  have toSettled : (system id).Leads told settled := leads_pp ppLeads
  have toEnd : (system id).Leads rested { settled with run := run, message := .between } :=
    .head ⟨_, second⟩ (toSettled.tail ⟨_, third⟩)
  exact ⟨_, .head ⟨_, first⟩ (toRested.trans toEnd), rfl, rfl⟩

end Steps

/-- The slots that json_proc_msg goes by are those of the pools with all their threads, and
the pools keep no message of the node from its end. -/
theorem pools_refined (getEpochNumber : UInt64 → Int32) (T : Type) [DecidableEq T]
    (s : NodePools getEpochNumber T (List V32)) (reached : (system id).Reachable s)
    (here : s.message = .between) :
    s.run.node.slots = (s.rx.checks.pool.slots, s.pp.checks.pool.slots) ∧
      ∀ env doc run, NodeRun.next getEpochNumber s.run (.message env doc) = some run →
        ∃ t, (system id).Leads s t ∧ t.message = .between ∧ t.run = run := by
  have sound := reachable_sound reached
  exact ⟨slots_agree sound here, fun _ _ _ ran => message_ends sound here ran⟩

section Witness

variable {C : Type}

def loadOne {K : PoolKind} {D : Type} (steps : Nat) : List (CallAction K T D) :=
  let node := List.replicate 8 (.share (.pool .node))
  .request :: node ++ .request :: .share (.pool .node) ::
    List.replicate steps (.share (.pool (.dataset 0)))

def firstMessage (c : C) : List (NodePoolsAction PpHashpool.epochOf30000 (Fin 2) C) :=
  let doc := NodeRun.seedMessage [(0, 100, 1), (100, 200, 2)]
  .node (.connected 0) :: .begin ⟨0, 0⟩ doc (some c) ::
    (loadBoth c 5).tail.map .rx ++ .notifyBlock :: (loadOne 6).map .pp ++ [.finish]

def served (s : NodePools PpHashpool.epochOf30000 (Fin 2) C) : Bool :=
  match s.message with
  | .between =>
      restedAfter 2 s.rx.checks.pool && restedAfter 1 s.pp.checks.pool &&
        s.run.node.getCurrentJob.isSome
  | _ => false

theorem served_spec {s : NodePools PpHashpool.epochOf30000 (Fin 2) C} (done : served s = true) :
    s.message = .between ∧ Hashpool.AtRest s.rx.checks.pool ∧
      Hashpool.AtRest s.pp.checks.pool ∧ ∃ job, s.run.node.getCurrentJob = some job := by
  rw [served] at done
  split at done
  · rename_i here
    simp only [Bool.and_eq_true] at done
    obtain ⟨⟨rx, pp⟩, current⟩ := done
    exact ⟨here, (atRest_of_restedAfter 2 _ rx).1, (atRest_of_restedAfter 1 _ pp).1,
      Option.isSome_iff_exists.mp current⟩
  · cases done

def first : NodePools PpHashpool.epochOf30000 (Fin 2) C :=
  ⟨⟨Node.plainNode, false, []⟩, .between, fresh ⟨V32.setAllZero, none⟩, fresh ⟨none, []⟩⟩

theorem first_start (requests : C → List V32) : (system requests).start first :=
  ⟨rfl, rfl, fresh_start _ _ rfl, fresh_start _ _ rfl⟩

theorem pools_refined_after_message :
    ∃ s : NodePools PpHashpool.epochOf30000 (Fin 2) (List V32),
      (∃ job, s.run.node.getCurrentJob = some job) ∧
      s.run.node.slots = (s.rx.checks.pool.slots, s.pp.checks.pool.slots) := by
  obtain ⟨s, reached, done⟩ := System.exists_reachable (first_start id)
    (firstMessage [RxHashpool.uniformSeed 1, RxHashpool.uniformSeed 2]) served (by decide +kernel)
  obtain ⟨here, _, _, current⟩ := served_spec done
  exact ⟨s, current, (pools_refined PpHashpool.epochOf30000 (Fin 2) s reached here).1⟩

end Witness

end NodePools

end EpicPoold
