import EpicPoold.DatasetRotation
import EpicPoold.ShareServed

/-! The node thread asks a pool for several datasets in one call, step by step and beside all
other threads. What comes of it is what has_dataset and calculate_dataset do at once. -/

namespace EpicPoold

open Foundations Hashpool

namespace DatasetSlots

def fill (d : DatasetSlots) (i : SlotIdx) (id : UInt64) : DatasetSlots :=
  { d with slots := Function.update d.slots i ⟨id, invalidId⟩ }

def Spares (i : SlotIdx) (id : UInt64) : DatasetSlots → List UInt64 → Prop
  | d, [] => (d.slots i).loadedId = id
  | d, next :: rest => (d.slots i).loadedId = id ∧ Spares i id (d.require next) rest

theorem requireAll_append (d : DatasetSlots) (first second : List UInt64) :
    d.requireAll (first ++ second) = (d.requireAll first).requireAll second :=
  List.foldl_append

theorem Spares.here {i : SlotIdx} {id : UInt64} {d : DatasetSlots} {ids : List UInt64}
    (spares : Spares i id d ids) : (d.slots i).loadedId = id := by
  cases ids with
  | nil => exact spares
  | cons next rest => exact spares.1

theorem Spares.after {i : SlotIdx} {id : UInt64} {d : DatasetSlots} {ids : List UInt64}
    (spares : Spares i id d ids) : ((d.requireAll ids).slots i).loadedId = id := by
  induction ids generalizing d with
  | nil => exact spares
  | cons next rest ih => exact ih spares.2

end DatasetSlots

namespace Hashpool

variable {K : PoolKind} {s t : State K}

def State.slots (s : State K) : DatasetSlots :=
  ⟨fun i => ⟨(s.ds i).loadedId, invalidId⟩, s.dsCtr⟩

def State.promised (s : State K) : DatasetSlots :=
  match s.node with
  | .idle => s.slots
  | .hasDataset request _ => s.slots.require (K.requestId request)
  | .fetchAdd request => s.slots.require (K.requestId request)
  | .storeReady request i => s.slots.fill i (K.requestId request)
  | .assignSeed request i => s.slots.fill i (K.requestId request)
  | .storeLoaded request i => s.slots.fill i (K.requestId request)
  | .spawn _ => s.slots

theorem slots_eq (loaded : ∀ i, (t.ds i).loadedId = (s.ds i).loadedId)
    (dsCtr : t.dsCtr = s.dsCtr) : t.slots = s.slots := by
  simp only [State.slots, loaded, dsCtr]

theorem promised_eq (node : t.node = s.node) (slots : t.slots = s.slots) :
    t.promised = s.promised := by
  rw [State.promised, State.promised, node, slots]

theorem slots_setSlot (s : State K) (i : SlotIdx) (slot : Slot K)
    (same : slot.loadedId = (s.ds i).loadedId) : (s.setSlot i slot).slots = s.slots :=
  slots_eq (loaded_setSlot same) rfl

theorem slots_loaded (s : State K) (i : SlotIdx) (id : UInt64) :
    ({ s.setSlot i { s.ds i with loadedId := id } with node := .spawn i } : State K).slots =
      s.slots.fill i id := by
  simp only [State.slots, DatasetSlots.fill, State.setSlot, DatasetSlots.mk.injEq, and_true]
  funext j
  rcases eq_or_ne j i with rfl | other
  · simp only [Function.update_self]
  · simp only [Function.update_of_ne other]

theorem nodeStep_promised (distinct : Distinct s) (stepped : nodeStep s = some t) :
    t.promised = s.promised := by
  unfold nodeStep at stepped
  cases here : s.node with
  | idle => simp [here] at stepped
  | hasDataset request k =>
      have promised : s.promised = s.slots.require (K.requestId request) := by
        rw [State.promised, here]
      simp only [here] at stepped
      split at stepped
      · split at stepped
        · rename_i inside found
          cases stepped
          have loaded : s.slots.Loaded (K.requestId request) := ⟨⟨k, inside⟩, found⟩
          rw [promised, DatasetSlots.require_of_loaded loaded]
          rfl
        · cases stepped
          rw [promised]
          rfl
      · cases stepped
        rw [promised]
        rfl
  | fetchAdd request =>
      have missing := distinct.missing request 2 (by rw [here]; rfl)
      have absent : ¬ s.slots.Loaded (K.requestId request) := by
        rintro ⟨i, loaded⟩
        exact missing i i.isLt loaded
      simp only [here] at stepped
      cases stepped
      rw [State.promised, State.promised, here]
      exact (DatasetSlots.require_of_absent absent).symm
  | storeReady request i | assignSeed request i =>
      simp only [here] at stepped
      cases stepped
      rw [State.promised, State.promised, here]
      exact congrArg (fun d => DatasetSlots.fill d i (K.requestId request))
        (slots_setSlot s i _ rfl)
  | storeLoaded request i =>
      simp only [here] at stepped
      cases stepped
      rw [State.promised, State.promised, here]
      exact slots_loaded s i (K.requestId request)
  | spawn i =>
      simp only [here] at stepped
      cases stepped
      rw [State.promised, State.promised, here]
      rfl

theorem workerMoved_dsCtr {w : Fin hashThdCount} (moved : WorkerMoved s w t) :
    t.dsCtr = s.dsCtr := by
  cases moved with
  | popped | found | passed | missed | sharedLocked | refused | confirmed | hashed | failed
  | finished | released => rfl

theorem datasetStep_dsCtr {k : Nat} (stepped : datasetStep s k = some t) : t.dsCtr = s.dsCtr := by
  unfold datasetStep at stepped
  split at stepped
  · cases stepped
  · rename_i thd present
    cases here : thd.pc with
    | lock =>
        simp only [here] at stepped
        obtain ⟨mtx, _, rfl⟩ := Option.map_eq_some_iff.mp stepped
        rfl
    | inside phase =>
        simp only [here] at stepped
        split at stepped
        · cases stepped
          rfl
        · cases stepped
          rfl
    | unlock =>
        simp only [here] at stepped
        cases stepped
        rfl
    | done => simp [here] at stepped

theorem next_promised {a : Action K} (distinct : Distinct s) (quiet : ∀ r, a ≠ .request r)
    (stepped : next s a = some t) : t.promised = s.promised := by
  cases a with
  | request r => exact absurd rfl (quiet r)
  | node => exact nodeStep_promised distinct stepped
  | dataset k =>
      obtain ⟨node, loaded⟩ := datasetStep_frame stepped
      exact promised_eq node (slots_eq loaded (datasetStep_dsCtr stepped))
  | pushJob job =>
      cases stepped
      rfl
  | worker w =>
      have moved := workerStep_moved stepped
      have still := workerMoved_quiet moved
      exact promised_eq still.node (slots_eq still.loadedId (workerMoved_dsCtr moved))

theorem request_promised {r : K.Request} (stepped : next s (.request r) = some t) :
    t.promised = s.promised.require (K.requestId r) := by
  simp only [next] at stepped
  split at stepped
  · rename_i idle
    cases stepped
    rw [State.promised, State.promised, idle]
    rfl
  · cases stepped

end Hashpool

/-- A pool and the calls the node thread has made, the last of them perhaps not to its end. -/
structure DatasetCalls (K : PoolKind) (T C : Type) where
  checks : ShareChecks K T
  calls : List C
  todo : List K.Request

inductive CallAction (K : PoolKind) (T C : Type) where
  | call (c : C)
  | request
  | share (a : ShareAction K T)

namespace DatasetCalls

variable {K : PoolKind} {T C : Type}

def settled (s : DatasetCalls K T C) : DatasetSlots :=
  s.checks.pool.promised.requireAll (s.todo.map K.requestId)

def ofOthers : ShareAction K T → Bool
  | .pool (.request _) => false
  | _ => true

section System

variable [DecidableEq T] (requests : C → List K.Request)

def next (s : DatasetCalls K T C) : CallAction K T C → Option (DatasetCalls K T C)
  | .call c =>
      match s.todo, s.checks.pool.node with
      | [], .idle => some { s with calls := s.calls ++ [c], todo := requests c }
      | _, _ => none
  | .request =>
      match s.todo with
      | [] => none
      | request :: rest =>
          (ShareChecks.next s.checks (.pool (.request request))).map (fun checks =>
            { s with checks := checks, todo := rest })
  | .share a =>
      if ofOthers a then
        (ShareChecks.next s.checks a).map (fun checks => { s with checks := checks })
      else none

def system : System (DatasetCalls K T C) (CallAction K T C) where
  start s := (ShareChecks.system K T).start s.checks ∧ s.calls = [] ∧ s.todo = []
  next := next requests

inductive Moved (s : DatasetCalls K T C) : CallAction K T C → DatasetCalls K T C → Prop
  | called (c : C) (done : s.todo = []) (idle : s.checks.pool.node = .idle) :
      Moved s (.call c) { s with calls := s.calls ++ [c], todo := requests c }
  | requested (request : K.Request) (rest : List K.Request) (checks : ShareChecks K T)
      (todo : s.todo = request :: rest)
      (ran : ShareChecks.next s.checks (.pool (.request request)) = some checks) :
      Moved s .request { s with checks := checks, todo := rest }
  | shared (a : ShareAction K T) (checks : ShareChecks K T) (others : ofOthers a = true)
      (ran : ShareChecks.next s.checks a = some checks) :
      Moved s (.share a) { s with checks := checks }

def asked (calls : List C) : DatasetSlots :=
  DatasetSlots.empty.requireAll ((calls.flatMap requests).map K.requestId)

end System

variable [DecidableEq T] {requests : C → List K.Request} {s t : DatasetCalls K T C}

theorem next_moved {a : CallAction K T C} (stepped : next requests s a = some t) :
    Moved requests s a t := by
  cases a with
  | call c =>
      simp only [next] at stepped
      split at stepped
      · rename_i done idle
        cases stepped
        exact .called c done idle
      · cases stepped
  | request =>
      simp only [next] at stepped
      split at stepped
      · cases stepped
      · rename_i request rest todo
        obtain ⟨checks, ran, rfl⟩ := Option.map_eq_some_iff.mp stepped
        exact .requested request rest checks todo ran
  | share a =>
      simp only [next] at stepped
      split at stepped
      · rename_i others
        obtain ⟨checks, ran, rfl⟩ := Option.map_eq_some_iff.mp stepped
        exact .shared a checks others ran
      · cases stepped

theorem shared_promised {checks after : ShareChecks K T} {a : ShareAction K T}
    (reached : (ShareChecks.system K T).Reachable checks) (others : ofOthers a = true)
    (ran : ShareChecks.next checks a = some after) :
    after.pool.promised = checks.pool.promised := by
  have distinct := reachable_distinct (ShareChecks.pool_reachable reached)
  cases ShareChecks.next_moved ran with
  | checked v job here => rfl
  | woken v job report here => rfl
  | pooled b q inner stepped =>
      rw [ShareChecks.afterPool_pool]
      refine next_promised distinct ?_ stepped
      rintro r rfl
      cases others

theorem requested_promised {checks after : ShareChecks K T} {r : K.Request}
    (ran : ShareChecks.next checks (.pool (.request r)) = some after) :
    after.pool.promised = checks.pool.promised.require (K.requestId r) := by
  cases ShareChecks.next_moved ran with
  | pooled b q inner stepped =>
      rw [ShareChecks.afterPool_pool]
      exact request_promised stepped

theorem next_checks {a : CallAction K T C} (reached : (ShareChecks.system K T).Reachable s.checks)
    (stepped : next requests s a = some t) : (ShareChecks.system K T).Reachable t.checks := by
  cases next_moved stepped with
  | called c done idle => exact reached
  | requested request rest checks todo ran =>
      exact .step (a := .pool (.request request)) reached trivial ran
  | shared a checks others ran => exact .step reached trivial ran

theorem asked_append (requests : C → List K.Request) (calls : List C) (c : C) :
    asked requests (calls ++ [c]) =
      (asked requests calls).requireAll ((requests c).map K.requestId) := by
  simp only [asked, List.flatMap_append, List.flatMap_singleton, List.map_append,
    DatasetSlots.requireAll_append]

theorem next_settled {a : CallAction K T C} (reached : (ShareChecks.system K T).Reachable s.checks)
    (before : s.settled = asked requests s.calls) (stepped : next requests s a = some t) :
    t.settled = asked requests t.calls := by
  cases next_moved stepped with
  | called c done idle =>
      rw [settled, done] at before
      rw [asked_append, ← before]
      rfl
  | requested request rest checks todo ran =>
      rw [settled, todo] at before
      rw [settled, requested_promised ran]
      exact before
  | shared a checks others ran =>
      rw [settled, shared_promised reached others ran]
      exact before

structure Sound (requests : C → List K.Request) (s : DatasetCalls K T C) : Prop where
  checks : (ShareChecks.system K T).Reachable s.checks
  settled : s.settled = asked requests s.calls

theorem start_sound (start : (system requests).start s) : Sound requests s := by
  obtain ⟨begun, calls, todo⟩ := start
  refine ⟨.start begun, ?_⟩
  have slots : s.checks.pool.slots = DatasetSlots.empty := by
    simp only [State.slots, DatasetSlots.empty, begun.1.counter, begun.1.slots]
  rw [DatasetCalls.settled, asked, calls, todo, State.promised, begun.1.idle]
  exact slots

theorem next_sound {a : CallAction K T C} (before : Sound requests s)
    (stepped : next requests s a = some t) : Sound requests t :=
  ⟨next_checks before.checks stepped, next_settled before.checks before.settled stepped⟩

theorem reachable_sound {allowed : DatasetCalls K T C → CallAction K T C → Prop}
    (reached : (system requests).ReachableUnder allowed s) : Sound requests s :=
  reached.invariant (Sound requests) (fun _ => start_sound)
    (fun _ _ _ _ before _ stepped => next_sound before stepped)

structure AtRest (s : DatasetCalls K T C) : Prop where
  done : s.todo = []
  pool : Hashpool.AtRest s.checks.pool

omit [DecidableEq T] in
theorem settled_at_rest (rest : AtRest s) : s.settled = s.checks.pool.slots := by
  rw [settled, rest.done, State.promised, rest.pool.1]
  rfl

theorem Sound.slots_of_idle (sound : Sound requests s) (done : s.todo = [])
    (idle : s.checks.pool.node = .idle) : s.checks.pool.slots = asked requests s.calls := by
  have settled := sound.settled
  rw [DatasetCalls.settled, done, State.promised, idle] at settled
  exact settled

/-- The two levels of a pool agree: whenever the node thread is between two calls, what it
goes by is what the calls come to, each done at once. -/
theorem slots_refined (K : PoolKind) (T C : Type) [DecidableEq T] (requests : C → List K.Request) :
    ∀ s, (system (T := T) requests).Reachable s → s.todo = [] → s.checks.pool.node = .idle →
      s.checks.pool.slots = asked requests s.calls := by
  intro s reached done idle
  exact (reachable_sound reached).slots_of_idle done idle

section Serves

variable {i : SlotIdx} {id : UInt64}

def Spares (requests : C → List K.Request) (i : SlotIdx) (id : UInt64) (s : DatasetCalls K T C) :
    CallAction K T C → Prop
  | .call c => DatasetSlots.Spares i id s.settled ((requests c).map K.requestId)
  | _ => True

def Serves (requests : C → List K.Request) (allowed : DatasetCalls K T C → CallAction K T C → Prop)
    (s : DatasetCalls K T C) (id : UInt64) : Prop :=
  ∀ u v t, (system requests).LeadsUnder allowed s u → u.checks.caller t = .outside →
    (system requests).LeadsUnder allowed u v →
    ∃ later, v.checks.returned = u.checks.returned ++ later ∧
      ∀ job report, (t, job, report) ∈ later → K.jobId job = id → report.error = false

theorem Serves.mono {fewer more : DatasetCalls K T C → CallAction K T C → Prop}
    (serves : Serves requests more s id) (implies : ∀ w a, fewer w a → more w a) :
    Serves requests fewer s id := by
  intro u v t toU outside toV
  exact serves u v t (toU.mono implies) outside (toV.mono implies)

structure Kept (D : Sparing K) (i : SlotIdx) (id : UInt64) (first s : DatasetCalls K T C) :
    Prop where
  reached : (ShareChecks.system K T).Reachable s.checks
  spared : Spared (D.tagged T) i id s.checks.pool
  spares : DatasetSlots.Spares i id s.checks.pool.promised (s.todo.map K.requestId)
  leads : (ShareChecks.system K T).LeadsUnder (ShareChecks.Keeps i) first.checks s.checks

theorem keeps_of_promised {p : State K} {a : Hashpool.Action K} (distinct : Distinct p)
    (loaded : (p.ds i).loadedId = id) (promised : (p.promised.slots i).loadedId = id) :
    Hashpool.Keeps i p a := by
  rintro rfl request here
  have missing := distinct.missing request 2 (by rw [here]; rfl) i i.isLt
  rw [State.promised, here] at promised
  simp only [DatasetSlots.fill, Function.update_self] at promised
  exact missing (loaded.trans promised.symm)

theorem Kept.ran {D : Sparing K} {first : DatasetCalls K T C} (before : Kept D i id first s)
    (valid : id ≠ invalidId) {a : ShareAction K T} {checks : ShareChecks K T}
    (ran : ShareChecks.next s.checks a = some checks) :
    (ShareChecks.system K T).Reachable checks ∧ Spared (D.tagged T) i id checks.pool ∧
      (ShareChecks.system K T).LeadsUnder (ShareChecks.Keeps i) first.checks checks := by
  have distinct := reachable_distinct (ShareChecks.pool_reachable before.reached)
  have keeps : ShareChecks.Keeps i s.checks a := fun b _ =>
    keeps_of_promised distinct before.spared.loaded before.spares.here
  exact ⟨.step before.reached trivial ran,
    ShareChecks.next_spared before.spared distinct valid keeps ran,
    before.leads.tail ⟨a, keeps, ran⟩⟩

theorem next_kept {D : Sparing K} {first : DatasetCalls K T C} {a : CallAction K T C}
    (before : Kept D i id first s) (valid : id ≠ invalidId) (spares : Spares requests i id s a)
    (stepped : next requests s a = some t) : Kept D i id first t := by
  cases next_moved stepped with
  | called c done idle =>
      refine ⟨before.reached, before.spared, ?_, before.leads⟩
      have now : DatasetSlots.Spares i id s.settled ((requests c).map K.requestId) := spares
      rw [settled, done] at now
      exact now
  | requested request rest checks todo ran =>
      obtain ⟨reached, spared, leads⟩ := before.ran valid ran
      refine ⟨reached, spared, ?_, leads⟩
      have now := before.spares
      rw [todo] at now
      rw [requested_promised ran]
      exact now.2
  | shared a checks others ran =>
      obtain ⟨reached, spared, leads⟩ := before.ran valid ran
      refine ⟨reached, spared, ?_, leads⟩
      rw [shared_promised before.reached others ran]
      exact before.spares

theorem serves_of_spares (S : Settling K) (D : Sparing K) (sound : Sound requests s)
    (rest : AtRest s) (loaded : (s.settled.slots i).loadedId = id) (valid : id ≠ invalidId) :
    Serves requests (Spares requests i id) s id := by
  intro u v t toU outside toV
  rw [settled_at_rest rest] at loaded
  have slot : (s.checks.pool.ds i).loadedId = id := loaded
  have pool := ShareChecks.pool_reachable sound.checks
  have slots := (reachable_slots (S.tagged T) s.checks.pool pool).2
  have spared : Spared (D.tagged T) i id s.checks.pool := by
    rw [← slot]
    exact spared_at_rest slots rest.pool (reachable_distinct pool) (by rwa [slot])
  have begun : Kept D i id s s := by
    refine ⟨sound.checks, spared, ?_, .refl⟩
    rw [rest.done, State.promised, rest.pool.1]
    exact loaded
  have atU : Kept D i id s u := toU.invariant (Kept D i id s) begun
    (fun w a x before spares stepped => next_kept before valid spares stepped)
  have again : Kept D i id u u := ⟨atU.reached, atU.spared, atU.spares, .refl⟩
  have atV : Kept D i id u v := toV.invariant (Kept D i id u) again
    (fun w a x before spares stepped => next_kept before valid spares stepped)
  have serves := ShareChecks.serves_of_atRest S D sound.checks rest.pool
  have result := serves i u.checks v.checks t (by rwa [slot]) atU.leads outside atV.leads
  rwa [slot] at result

end Serves

section Witness

def fresh (data : K.Data) : DatasetCalls K T C := ⟨ShareChecks.fresh K T data, [], []⟩

theorem fresh_start (requests : C → List K.Request) (data : K.Data) (blank : K.blank data) :
    (system (T := T) requests).start (fresh data) :=
  ⟨ShareChecks.fresh_start data blank, rfl, rfl⟩

/-- One call for two datasets that are not there, with the steps of the node thread and of both
dataset threads. -/
def loadBoth (c : C) (steps : Nat) : List (CallAction K T C) :=
  let node := List.replicate 8 (.share (.pool .node))
  let thread k := List.replicate steps (.share (.pool (.dataset k)))
  .call c :: .request :: node ++ .request :: node ++ thread 0 ++ thread 1

def firstOnly (s : DatasetCalls K T C) : CallAction K T C → Bool
  | .call _ => s.calls.isEmpty
  | _ => true

def oneDone [DecidableEq C] (c : C) (s : DatasetCalls K T C) : Bool :=
  s.todo.isEmpty && restedAfter 2 s.checks.pool && decide (s.calls = [c])

omit [DecidableEq T] in
theorem oneDone_spec [DecidableEq C] {c : C} (done : oneDone c s = true) :
    AtRest s ∧ s.calls.getLast? = some c := by
  simp only [oneDone, Bool.and_eq_true, List.isEmpty_iff, decide_eq_true_eq] at done
  obtain ⟨⟨todo, rested⟩, calls⟩ := done
  exact ⟨⟨todo, (atRest_of_restedAfter 2 s.checks.pool rested).1⟩, by rw [calls]; rfl⟩

/-- Two seeds in one call, and both datasets are there. -/
theorem slots_refined_after_load :
    ∃ s : DatasetCalls RxHashpool.kind (Fin 2) (List V32), ∃ call,
      s.calls = [call] ∧ call.length = 2 ∧
        s.checks.pool.slots = asked (K := RxHashpool.kind) id [call] := by
  let call := [RxHashpool.uniformSeed 1, RxHashpool.uniformSeed 2]
  have start := fresh_start (K := RxHashpool.kind) (T := Fin 2) (C := List V32) id
    ⟨V32.setAllZero, none⟩ rfl
  obtain ⟨s, reached, loaded⟩ := System.exists_reachable start (loadBoth call 5)
    (fun s => oneDone call s && decide (s.calls = [call])) (by decide +kernel)
  simp only [Bool.and_eq_true, decide_eq_true_eq] at loaded
  obtain ⟨done, made⟩ := loaded
  have rest := (oneDone_spec done).1
  have same := slots_refined RxHashpool.kind (Fin 2) (List V32) id s reached rest.done rest.pool.1
  rw [made] at same
  exact ⟨s, call, made, rfl, same⟩

end Witness

end DatasetCalls

end EpicPoold
