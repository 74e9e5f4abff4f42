import EpicPoold.SearchSpaces

/-! The daemon refines its sessions: what the pools' threads do with a client, among all the
others, is a run of that client's session. -/

namespace EpicPoold

open Foundations

namespace ClientPool

variable {S : Setting} {n : Nat}

section Calls

def readEffects (S : Setting) (env : Client.SocketEnv) (c : Client) : List Effect :=
  match Client.onSocketRead S.maxCallsPerMin S.parse env c with
  | .ok (_, _, effects) => effects
  | .error _ => []

def called (p : ClientPool S.cliType n) (a : PoolAction S.cliType n) :
    Option (Nat × List Effect) :=
  match p.pc, a with
  | .events (.client idx mev _ :: _), .read env =>
      if mev &&& epollIn ≠ 0 then
        (p.clients idx).map (fun c => (c.serial, readEffects S env c.cli))
      else none
  | .block start _, .block env =>
      (p.clients.nextTaken start).bind (fun i =>
        (p.clients i).map (fun c => (c.serial, (Client.onNewBlock env c.cli).2.2)))
  | _, _ => none

def record (trace : Nat → List Effect) : Option (Nat × List Effect) → Nat → List Effect
  | none => trace
  | some (serial, effects) => Function.update trace serial (trace serial ++ effects)

end Calls

def Ran (S : Setting) (holds : JobData → Prop) (c : Client) (trace : List Effect) : Prop :=
  Session.Reaches S.maxCallsPerMin S.parse holds c trace

structure Kept (holds : JobData → Prop) (p : ClientPool S.cliType n)
    (trace : Nat → List Effect) : Prop where
  present : ∀ i c, p.clients i = some c → Ran S holds c.cli (trace c.serial)
  ever : ∀ serial, ∃ c, Ran S holds c (trace serial)
  fresh : ∀ serial, p.nextSerial ≤ serial → trace serial = []
  known : ∀ i c, p.clients i = some c → c.serial < p.nextSerial
  apart : ∀ i j b c, p.clients i = some b → p.clients j = some c → b.serial = c.serial → i = j

section Steps

variable {p q : ClientPool S.cliType n} {trace : Nat → List Effect} {holds : JobData → Prop}

theorem ran_construct (fd : Int) (extraNonce : UInt32) (stale : JobData) :
    Ran S holds (Client.construct fd extraNonce stale) [] :=
  .start ⟨fd, extraNonce, stale, rfl⟩

theorem ran_read {c : Client} {effects : List Effect} (ran : Ran S holds c effects)
    {env : Client.SocketEnv} (supplied : ∀ k, holds (env.request k).currentJob)
    {keep : Bool} {after : Client} (called : S.cliType.onSocketRead env c = (keep, after)) :
    Ran S holds after (effects ++ readEffects S env c) := by
  obtain ⟨more, done⟩ := Client.cliType_onSocketRead S.maxCallsPerMin S.parse env c
  have same : readEffects S env c = more := by
    simp only [readEffects, done]
  have outcome : ((Client.cliType S.maxCallsPerMin S.parse).onSocketRead env c).2 = after := by
    have second := congrArg Prod.snd called
    exact second
  rw [same, ← outcome]
  exact Session.onSocketRead_reaches supplied ran done

theorem ran_block {c : Client} {effects : List Effect} (ran : Ran S holds c effects)
    {env : RequestEnv} (supplied : holds env.currentJob) {keep : Bool} {after : Client}
    (called : S.cliType.onNewBlock env c = (keep, after)) :
    Ran S holds after (effects ++ (Client.onNewBlock env c).2.2) := by
  have outcome : (Client.onNewBlock env c).1 = keep ∧ (Client.onNewBlock env c).2.1 = after :=
    Prod.mk.inj called
  rcases done : Client.onNewBlock env c with ⟨kept, later, more⟩
  rw [done] at outcome
  obtain ⟨rfl, rfl⟩ := outcome
  cases kept with
  | true =>
      refine .step ran (a := .newBlock env) supplied ?_
      change Session.next S.maxCallsPerMin S.parse ⟨c, effects⟩ (.newBlock env) = _
      simp only [Session.next, done]
  | false =>
      have aborting : c.aborting = true := by
        have ended := Client.cliType_onNewBlock S.maxCallsPerMin S.parse env c
        change (Client.onNewBlock env c).1 = !c.aborting at ended
        rw [done] at ended
        simpa using ended.symm
      rw [Client.onNewBlock_aborting env c aborting] at done
      cases done
      simpa using ran

theorem Kept.still (kept : Kept holds p trace)
    (clients : ∀ i c, q.clients i = some c → p.clients i = some c)
    (nextSerial : q.nextSerial = p.nextSerial) : Kept holds q trace where
  present i c there := kept.present i c (clients i c there)
  ever := kept.ever
  fresh serial later := kept.fresh serial (nextSerial ▸ later)
  known i c there := nextSerial ▸ kept.known i c (clients i c there)
  apart i j b c first second := kept.apart i j b c (clients i b first) (clients j c second)

theorem Kept.touched (kept : Kept holds p trace) {i : Fin n} {c : Placed S.cliType} {cli : Client}
    {effects : List Effect} (there : p.clients i = some c)
    (clients : q.clients = p.touch i c cli) (nextSerial : q.nextSerial = p.nextSerial)
    (ran : Ran S holds cli (trace c.serial ++ effects)) :
    Kept holds q (record trace (some (c.serial, effects))) := by
  have slots : ∀ j b, q.clients j = some b →
      j = i ∧ b = { c with cli := cli } ∨ j ≠ i ∧ p.clients j = some b ∧ b.serial ≠ c.serial := by
    intro j b found
    rw [clients] at found
    change p.clients.put i { c with cli := cli } j = some b at found
    by_cases own : j = i
    · subst own
      rw [Slots.put_same] at found
      exact .inl ⟨rfl, (Option.some.inj found).symm⟩
    · rw [Slots.put_other _ _ own] at found
      exact .inr ⟨own, found, fun same => own (kept.apart j i b c found there same)⟩
  refine ⟨?_, ?_, ?_, ?_, ?_⟩
  · intro j b found
    rcases slots j b found with ⟨rfl, rfl⟩ | ⟨_, earlier, other⟩
    · simpa only [record, Function.update_self] using ran
    · rw [record, Function.update_of_ne other]
      exact kept.present j b earlier
  · intro serial
    by_cases own : serial = c.serial
    · subst own
      refine ⟨cli, ?_⟩
      simpa only [record, Function.update_self] using ran
    · rw [record, Function.update_of_ne own]
      exact kept.ever serial
  · intro serial later
    rw [nextSerial] at later
    have known := kept.known i c there
    rw [record, Function.update_of_ne (by omega)]
    exact kept.fresh serial later
  · intro j b found
    rw [nextSerial]
    rcases slots j b found with ⟨rfl, rfl⟩ | ⟨_, earlier, _⟩
    · exact kept.known j c there
    · exact kept.known j b earlier
  · intro j k b d first second same
    rcases slots j b first with ⟨rfl, rfl⟩ | ⟨_, earlier, other⟩
    · rcases slots k d second with ⟨rfl, rfl⟩ | ⟨_, _, apart⟩
      · rfl
      · exact absurd same.symm apart
    · rcases slots k d second with ⟨rfl, rfl⟩ | ⟨_, also, _⟩
      · exact absurd same other
      · exact kept.apart j k b d earlier also same

theorem Kept.added (kept : Kept holds p trace) {i : Fin n} {fd : Int} {extraNonce : UInt32}
    {stale : JobData}
    (clients : q.clients =
      p.clients.put i ⟨p.nextSerial, Client.construct fd extraNonce stale⟩)
    (nextSerial : q.nextSerial = p.nextSerial + 1) : Kept holds q trace := by
  have slots : ∀ j b, q.clients j = some b →
      j = i ∧ b = ⟨p.nextSerial, Client.construct fd extraNonce stale⟩ ∨
        j ≠ i ∧ p.clients j = some b := by
    intro j b found
    rw [clients] at found
    by_cases own : j = i
    · subst own
      rw [Slots.put_same] at found
      exact .inl ⟨rfl, (Option.some.inj found).symm⟩
    · rw [Slots.put_other _ _ own] at found
      exact .inr ⟨own, found⟩
  refine ⟨?_, kept.ever, ?_, ?_, ?_⟩
  · intro j b found
    rcases slots j b found with ⟨_, rfl⟩ | ⟨_, earlier⟩
    · rw [kept.fresh p.nextSerial le_rfl]
      exact ran_construct fd extraNonce stale
    · exact kept.present j b earlier
  · intro serial later
    exact kept.fresh serial (by omega)
  · intro j b found
    rw [nextSerial]
    rcases slots j b found with ⟨_, rfl⟩ | ⟨_, earlier⟩
    · exact Nat.lt_succ_self _
    · exact Nat.lt_succ_of_lt (kept.known j b earlier)
  · intro j k b d first second same
    rcases slots j b first with ⟨rfl, rfl⟩ | ⟨_, earlier⟩
    · rcases slots k d second with ⟨rfl, _⟩ | ⟨_, also⟩
      · rfl
      · have older := kept.known k d also
        simp only at same
        omega
    · rcases slots k d second with ⟨rfl, rfl⟩ | ⟨_, also⟩
      · have older := kept.known j b earlier
        simp only at same
        omega
      · exact kept.apart j k b d earlier also same

theorem called_read {env : Client.SocketEnv} {idx : Fin n} {mev : UInt32} {serial : Nat}
    {todo : List (PoolEvent n)} {c : Placed S.cliType}
    (here : p.pc = .events (.client idx mev serial :: todo)) (readable : mev &&& epollIn ≠ 0)
    (there : p.clients idx = some c) :
    p.called (.read env) = some (c.serial, readEffects S env c.cli) := by
  simp only [called, here, there, Option.map_some]
  exact if_pos readable

theorem called_block {env : RequestEnv} {start : Nat} {todo : List (PoolEvent n)} {i : Fin n}
    {c : Placed S.cliType} (here : p.pc = .block start todo)
    (next : p.clients.nextTaken start = some i) (there : p.clients i = some c) :
    p.called (.block env) = some (c.serial, (Client.onNewBlock env c.cli).2.2) := by
  simp only [called, here, next, there, Option.bind_some, Option.map_some]

theorem called_hangUp (a : PoolAction S.cliType n) {idx : Fin n} {mev : UInt32} {serial : Nat}
    {todo : List (PoolEvent n)} (here : p.pc = .events (.client idx mev serial :: todo))
    (unreadable : mev &&& epollIn = 0) : p.called a = none := by
  cases a with
  | read env =>
      simp only [called, here]
      exact if_neg (not_not.mpr unreadable)
  | interrupted | collected | make | block | go => simp only [called, here]

theorem called_blockDone (a : PoolAction S.cliType n) {start : Nat} {todo : List (PoolEvent n)}
    (here : p.pc = .block start todo) (last : p.clients.nextTaken start = none) :
    p.called a = none := by
  cases a with
  | block env =>
      simp only [called, here, last]
      rfl
  | interrupted | collected | make | read | go => simp only [called, here]

theorem step_kept {a : PoolAction S.cliType n} (kept : Kept holds p trace)
    (offers : Offers holds a) (stepped : p.step a = some q) :
    Kept holds q (record trace (p.called a)) := by
  have quiet : p.called a = none → q.clients = p.clients → q.nextSerial = p.nextSerial →
      Kept holds q (record trace (p.called a)) := by
    intro silent clients nextSerial
    rw [silent]
    exact kept.still (fun i c there => by rwa [clients] at there) nextSerial
  cases step_moved stepped with
  | interrupted here => exact quiet (by simp only [called, here]) rfl rfl
  | collected batch events here => exact quiet (by simp only [called, here]) rfl rfl
  | batchDone _ here => exact quiet (by simp only [called, here]) rfl rfl
  | pipeEvent _ todo here => exact quiet (by simp only [called, here]) rfl rfl
  | nullRead env idx mev serial todo here readable empty =>
      refine quiet ?_ rfl rfl
      simp only [called, here, empty, Option.map_none, ite_self]
  | readKept env idx mev serial todo c cli here readable there ran
  | readEnded env idx mev serial todo c cli here readable there ran =>
      have calls : p.called (.read env) = some (c.serial, readEffects S env c.cli) :=
        called_read here readable there
      rw [calls]
      exact kept.touched there rfl rfl (ran_read (kept.present idx c there) offers ran)
  | hangUp _ idx mev serial todo here unreadable =>
      exact quiet (called_hangUp a here unreadable) rfl rfl
  | alreadyGone _ idx ret here empty => exact quiet (by simp only [called, here]) rfl rfl
  | removed _ idx ret c here there =>
      have silent : p.called a = none := by simp only [called, here]
      rw [silent]
      refine kept.still ?_ rfl
      intro i b found
      by_cases own : i = idx
      · subst own
        change p.clients.clear i i = some b at found
        rw [Slots.clear_same] at found
        cases found
      · change p.clients.clear idx i = some b at found
        rwa [Slots.clear_other _ own] at found
  | decremented _ ret here => exact quiet (by simp only [called, here]) rfl rfl
  | pipeEmpty _ todo here empty => exact quiet (by simp only [called, here]) rfl rfl
  | popped _ todo m rest here front => exact quiet (by simp only [called, here]) rfl rfl
  | overflow env registers m todo here | refused env registers m todo here =>
      exact quiet (by simp only [called, here]) rfl rfl
  | added env m todo i cli here adds free made =>
      have silent : p.called (.make env true) = none := by simp only [called, here]
      rw [silent]
      simp only [Setting.cliType, Client.cliType] at made
      split at made
      · cases made
        exact kept.added rfl rfl
      · cases made
  | newBlock _ m todo here posted => exact quiet (by simp only [called, here]) rfl rfl
  | blockDone _ start todo here last => exact quiet (called_blockDone a here last) rfl rfl
  | blockKept env start todo i c cli here next there ran
  | blockEnded env start todo i c cli here next there ran =>
      have calls : p.called (.block env) =
          some (c.serial, (Client.onNewBlock env c.cli).2.2) := called_block here next there
      rw [calls]
      exact kept.touched there rfl rfl (ran_block (kept.present i c there) offers ran)
  | again _ here active => exact quiet (by simp only [called, here]) rfl rfl
  | leave _ here idle => exact quiet (by simp only [called, here]) rfl rfl
  | finished _ here => exact quiet (by simp only [called, here]) rfl rfl

theorem kept_new : Kept holds (ClientPool.new S.cliType n) (fun _ => []) where
  present i c there := by cases there
  ever _ := ⟨_, ran_construct 0 0 .zero⟩
  fresh _ _ := rfl
  known i c there := by cases there
  apart i j b c there := by cases there

end Steps

def SameClients {K : CliType} (p q : ClientPool K n) : Prop :=
  q.clients = p.clients ∧ q.nextSerial = p.nextSerial

end ClientPool

namespace Server

variable {K : CliType} {n : Nat} {s t : Server K n}

theorem sameClients_setPool (s : Server K n) (target : Nat) (q : ClientPool K n)
    (same : (s.pool target).SameClients q) (id : Nat) :
    (s.pool id).SameClients ((s.setPool target q).pool id) := by
  by_cases own : id = target
  · subst own
    rwa [setPool_same]
  · rw [setPool_other s q own]
    exact ⟨rfl, rfl⟩

theorem next_sameClients {act : ServerAction K n} (stepped : next s act = some t) (id : Nat) :
    (s.pool id).SameClients (t.pool id) ∨
      ∃ a, act = .pool id a ∧ (s.pool id).step a = some (t.pool id) := by
  cases next_moved stepped with
  | accepted | notified => exact .inl ⟨rfl, rfl⟩
  | listener _ moved =>
      left
      cases moved with
      | counted sck target here =>
          exact sameClients_setPool s target (s.pool target).count ⟨rfl, rfl⟩ id
      | wrote sck target here =>
          exact sameClients_setPool s target ((s.pool target).post ⟨sck.fd⟩) ⟨rfl, rfl⟩ id
      | locked | noneLeft | erased | running | full | chose | created | unlocked =>
          exact ⟨rfl, rfl⟩
  | node _ moved =>
      left
      cases moved with
      | posted target rest here =>
          exact sameClients_setPool s target ((s.pool target).post ⟨dummyNewBlockFd⟩) ⟨rfl, rfl⟩ id
      | locked | noneLeft | erased | running | gotActive | unlocked => exact ⟨rfl, rfl⟩
  | pool target a q present moved =>
      by_cases own : id = target
      · subst own
        rw [setPool_same]
        exact .inr ⟨a, rfl, moved⟩
      · left
        rw [setPool_other s q own]
        exact ⟨rfl, rfl⟩

end Server

/-- The process, with what each client did to the outside since its construction. -/
structure Recording (S : Setting) where
  daemon : Daemon S
  trace : ClientId → List Effect

namespace Recording

variable {S : Setting}

def ofPool (r : Recording S) (port : Port) (id serial : Nat) : List Effect :=
  r.trace ⟨port, id, serial⟩

def noted (r : Recording S) (act : DaemonAction S) (x : ClientId) : List Effect :=
  match act with
  | .pool port id a times =>
      if x.port = port ∧ x.pool = id then
        ClientPool.record (r.ofPool port id)
          (((r.daemon.server port).pool id).called (r.daemon.supply port id times a)) x.serial
      else r.trace x
  | _ => r.trace x

def next (r : Recording S) (act : DaemonAction S) : Option (Recording S) :=
  (Daemon.next r.daemon act).map (fun d => ⟨d, r.noted act⟩)

def system (S : Setting) : System (Recording S) (DaemonAction S) where
  start r := (∃ first, r.daemon = Daemon.start first) ∧ r.trace = fun _ => []
  next := next

section Refinement

variable {r t : Recording S} {act : DaemonAction S} {holds : JobData → Prop}

def AllKept (holds : JobData → Prop) (r : Recording S) : Prop :=
  ∀ port id, ClientPool.Kept holds ((r.daemon.server port).pool id) (r.ofPool port id)

theorem noted_elsewhere {port : Port} {id : Nat} (other : ∀ a times, act ≠ .pool port id a times)
    (serial : Nat) : r.noted act ⟨port, id, serial⟩ = r.ofPool port id serial := by
  cases act with
  | pool target k a times =>
      have apart : ¬ (port = target ∧ id = k) := by
        rintro ⟨rfl, rfl⟩
        exact other a times rfl
      simp only [noted]
      rw [if_neg apart]
      rfl
  | store | node | accept | refuse | listener => rfl

theorem noted_here {port : Port} {id : Nat} {a : PoolAction S.cliType port.size}
    {times : Nat → Nat} (serial : Nat) :
    r.noted (.pool port id a times) ⟨port, id, serial⟩ =
      ClientPool.record (r.ofPool port id)
        (((r.daemon.server port).pool id).called (r.daemon.supply port id times a)) serial := by
  simp only [noted]
  rw [if_pos ⟨trivial, trivial⟩]

/-- A step in which get_current_job returns one of these jobs. -/
theorem next_kept (kept : AllKept holds r)
    (offers : ∀ port id a times, act = .pool port id a times →
      ClientPool.Offers holds (r.daemon.supply port id times a))
    (stepped : next r act = some t) : AllKept holds t := by
  obtain ⟨e, ran, rfl⟩ := Option.map_eq_some_iff.mp stepped
  have moved := Daemon.next_moved ran
  intro port id
  have before := kept port id
  by_cases own : ∃ a times, act = .pool port id a times
  · obtain ⟨a, times, rfl⟩ := own
    have noted : ofPool ⟨e, r.noted (.pool port id a times)⟩ port id =
        ClientPool.record (r.ofPool port id)
          (((r.daemon.server port).pool id).called (r.daemon.supply port id times a)) :=
      funext noted_here
    rw [noted]
    cases moved with
    | pooled _ _ _ _ q present went =>
        rw [Daemon.afterPool_server, Daemon.setServer_same, Server.setPool_same]
        exact ClientPool.step_kept before (offers port id a times rfl) went
  · have other : ∀ a times, act ≠ .pool port id a times :=
      fun a times same => own ⟨a, times, same⟩
    have noted : ofPool ⟨e, r.noted act⟩ port id = r.ofPool port id :=
      funext (noted_elsewhere other)
    rw [noted]
    have same : ((r.daemon.server port).pool id).SameClients ((e.server port).pool id) := by
      rcases Daemon.moved_server moved port with unchanged | ⟨b, acted, pooled⟩
      · rw [unchanged]
        exact ⟨rfl, rfl⟩
      · rcases Server.next_sameClients acted id with same | ⟨c, mine, _⟩
        · exact same
        · obtain ⟨a, times, actual, _⟩ := pooled id c mine
          exact absurd actual (other a times)
    exact before.still (fun i c there => by rwa [same.1] at there) same.2

theorem start_kept (start : (system S).start r) : AllKept holds r := by
  obtain ⟨⟨first, started⟩, empty⟩ := start
  intro port id
  have none : r.ofPool port id = fun _ => [] := by
    funext serial
    rw [ofPool, empty]
  rw [none, started]
  exact ClientPool.kept_new

theorem reachable_kept (reached : (system S).Reachable r) :
    AllKept (Node.Published S.getEpochNumber) r := by
  refine reached.invariant (AllKept (Node.Published S.getEpochNumber)) (fun _ => start_kept) ?_
  intro r act t _ before stepped
  exact next_kept before
    (fun port id a times _ => Daemon.supply_published r.daemon port id times a) stepped

/-- What each client did is the trace of a run of its session with published jobs, which
ends in the client while it is in its slot. -/
structure Refines (r : Recording S) : Prop where
  present : ∀ x c, Daemon.Present r.daemon x c →
    Session.Reaches S.maxCallsPerMin S.parse (Node.Published S.getEpochNumber) c (r.trace x)
  ever : ∀ x, ∃ c,
    Session.Reaches S.maxCallsPerMin S.parse (Node.Published S.getEpochNumber) c (r.trace x)

theorem refines_of_kept (kept : AllKept (Node.Published S.getEpochNumber) r) : Refines r where
  present := by
    rintro ⟨port, id, serial⟩ c ⟨i, placed, there, rfl, rfl⟩
    exact (kept port id).present i placed there
  ever := by
    rintro ⟨port, id, serial⟩
    exact (kept port id).ever serial

theorem exists_recording {d : Daemon S} (reached : (Daemon.system S).Reachable d) :
    ∃ r, (system S).Reachable r ∧ r.daemon = d := by
  refine reached.invariant (fun d => ∃ r, (system S).Reachable r ∧ r.daemon = d) ?_ ?_
  · intro d started
    exact ⟨⟨d, fun _ => []⟩, .start ⟨started, rfl⟩, rfl⟩
  · rintro _ act e _ ⟨r, earlier, rfl⟩ stepped
    refine ⟨⟨e, r.noted act⟩, .step earlier (a := act) trivial ?_, rfl⟩
    change next r act = _
    rw [next, show Daemon.next r.daemon act = some e from stepped]
    rfl

/-- The daemon refines its sessions, whatever its threads do between the calls into a
client. -/
theorem daemon_refines_sessions (S : Setting) :
    (∀ r, (system S).Reachable r → Refines r) ∧
      ∀ d, (Daemon.system S).Reachable d → ∃ r, (system S).Reachable r ∧ r.daemon = d :=
  ⟨fun _ reached => refines_of_kept (reachable_kept reached),
    fun _ reached => exists_recording reached⟩

end Refinement

/-- A miner logs in, and then the node has another job. -/
theorem miner_runs_session :
    ∃ (r : Recording Daemon.plainSetting) (x : ClientId) (c : Client),
      Daemon.Present r.daemon x c ∧ c.loggedIn = true ∧
        Session.Reaches 60 Daemon.plainSetting.parse (Node.Published (fun _ => 0)) c
          (r.trace x) := by
  obtain ⟨d, reached, calm⟩ := System.exists_reachable (S := Daemon.system Daemon.plainSetting)
    (s := Daemon.start Daemon.randomxJob) ⟨_, rfl⟩
    (Daemon.connectOne 7 true ++ Daemon.loginOne Server.firstClient ++
      Daemon.newJob Daemon.progpowJob)
    Daemon.atEase (by decide +kernel)
  obtain ⟨_, _, c, there, miner, _⟩ := Daemon.atEase_spec calm
  have refines := daemon_refines_sessions Daemon.plainSetting
  obtain ⟨r, recorded, rfl⟩ := refines.2 d reached
  have present : Daemon.Present r.daemon ⟨.plain, 0, c.serial⟩ c.cli :=
    ⟨Server.firstClient, c, there, rfl, rfl⟩
  exact ⟨r, _, c.cli, present, miner, (refines.1 r recorded).present _ _ present⟩

end Recording

end EpicPoold
