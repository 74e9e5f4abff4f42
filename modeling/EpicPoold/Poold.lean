import EpicPoold.MinerSessions
import EpicPoold.Relay

/-! The whole program between the node and its miners: the node thread with its list of jobs,
the listeners, and the pools with their clients. -/

namespace EpicPoold

open Foundations Foundations.JsonText

/-- The node reads its own height and job id in a result. For RandomX, its own text with the
nonce that it is told was hashed. -/
def Template.Answered (t : Template) (trace : List Effect) (m : SubmitMessage) : Prop :=
  ∃ line r, m.text = line ++ [0x0a] ∧ (JsonText.parse line).bind readResult = some r ∧
    r.height = t.height.toNat ∧ r.jobId = t.jobId.toNat ∧
    (t.algorithm = ascii "randomx" → Effect.rxCheck (t.check r.nonce) ∈ trace)

theorem Template.Confirms.answered {t : Template} {env : RequestEnv} {effects : List Effect}
    {m : SubmitMessage} (confirms : t.Confirms env effects m) : t.Answered effects m := by
  obtain ⟨line, r, text, read, height, jobId, hashed⟩ := confirms
  exact ⟨line, r, text, read, height, jobId, fun randomx => (hashed randomx).1⟩

theorem Template.Answered.mono {t : Template} {effects trace : List Effect} {m : SubmitMessage}
    (answered : t.Answered effects m) (within : effects ⊆ trace) : t.Answered trace m := by
  obtain ⟨line, r, text, read, height, jobId, hashed⟩ := answered
  exact ⟨line, r, text, read, height, jobId, fun randomx => within (hashed randomx)⟩

namespace Session

open Client

def ResultsAnswer (holds : JobData → Prop) (trace : List Effect) : Prop :=
  ∀ before m after, trace = before ++ .submit m :: after → LoggedInBefore before →
    ∃ job, holds job ∧ ∀ t : Template, t.Describes job → t.Answered trace m

section Steps

variable {maxCallsPerMin : Nat} {parse : List UInt8 → Option Value} {holds : JobData → Prop}
  {s t : Session}

theorem resultsAnswer_append {trace effects : List Effect} (before : ResultsAnswer holds trace)
    (new : ∀ front m after, effects = front ++ .submit m :: after →
      LoggedInBefore (trace ++ front) →
      ∃ job, holds job ∧ ∀ t : Template, t.Describes job → t.Answered effects m) :
    ResultsAnswer holds (trace ++ effects) := by
  have now : ∀ front m after, effects = front ++ .submit m :: after →
      LoggedInBefore (trace ++ front) →
      ∃ job, holds job ∧ ∀ t : Template, t.Describes job → t.Answered (trace ++ effects) m := by
    intro front m after split miner
    obtain ⟨job, good, answers⟩ := new front m after split miner
    exact ⟨job, good, fun t describes =>
      (answers t describes).mono (List.subset_append_right trace effects)⟩
  intro earlier m after split miner
  rcases List.append_eq_append_iff.mp split with ⟨front, same, rest⟩ | ⟨rest, same, front⟩
  · subst same
    exact now front m after rest miner
  · cases rest with
    | nil =>
        rw [List.append_nil] at same
        subst same
        exact now [] m after front.symm (by rwa [List.append_nil])
    | cons e rest =>
        simp only [List.cons_append, List.cons.injEq] at front
        obtain ⟨rfl, _⟩ := front
        obtain ⟨job, good, answers⟩ := before earlier m rest same miner
        exact ⟨job, good, fun t describes =>
          (answers t describes).mono (List.subset_append_left trace effects)⟩

theorem line_answers {env : RequestEnv} {buf : List UInt8} {accepted : Bool}
    {out : Client × List Effect} (inv : Inv holds s)
    (ran : processLine maxCallsPerMin parse env s.client buf = .ok (accepted, out))
    (front : List Effect) (m : SubmitMessage) (after : List Effect)
    (split : out.2 = front ++ .submit m :: after) (miner : LoggedInBefore (s.trace ++ front)) :
    ∃ job, holds job ∧ ∀ t : Template, t.Describes job → t.Answered out.2 m := by
  have sent : .submit m ∈ out.2 := by simp [split]
  rcases processLine_handled buf accepted out.1 out.2 ran with ⟨_, _, none⟩ | ⟨_, handled⟩
  · rw [none] at sent
    cases sent
  · obtain ⟨counted, callId, nonce, view, same⟩ := handled_submit handled sent
    have shared : out = checkShare env counted callId nonce := same
    subst shared
    have quiet : Quiet front := by
      intro e among
      refine quiet_checkShare env counted callId nonce e ?_
      rw [split]
      exact List.mem_append_left _ among
    have before : LoggedInBefore s.trace := by
      rcases (loggedInBefore_append s.trace front).mp miner with early | late
      · exact early
      · exact absurd late (not_loggedInBefore_quiet quiet)
    obtain ⟨job, good, _, mining, _⟩ := inv.told (inv.login.mpr before)
    rw [← view] at mining
    exact ⟨job, good, fun t describes =>
      (Relay.confirms_checkShare describes mining env callId nonce sent).answered⟩

theorem next_resultsAnswer {a : SessionAction} (inv : Inv holds s)
    (before : ResultsAnswer holds s.trace) (stepped : next maxCallsPerMin parse s a = some t) :
    ResultsAnswer holds t.trace := by
  cases a with
  | line env buf =>
      simp only [next] at stepped
      split at stepped
      · rename_i accepted c effects ran
        cases stepped
        exact resultsAnswer_append before (line_answers inv ran)
      · cases stepped
  | newBlock env =>
      simp only [next] at stepped
      split at stepped
      · rename_i c effects ran
        cases stepped
        refine resultsAnswer_append before ?_
        intro front m after split _
        have none := onNewBlock_submits_nothing env s.client m
        rw [ran, split] at none
        exact absurd (by simp) none
      · cases stepped
  | recvBuf buffer =>
      cases stepped
      exact before
  | overflow =>
      cases stepped
      exact before

theorem reachable_resultsAnswer
    (bounds : ∀ job, holds job → 8 ≤ job.prepowLen.toNat ∧ job.prepowLen.toNat ≤ prepowSize)
    (reached : (system maxCallsPerMin parse).ReachableUnder (Supplied holds) s) :
    ResultsAnswer holds s.trace := by
  refine reached.invariant (fun s => ResultsAnswer holds s.trace) ?_ ?_
  · rintro s ⟨fd, extraNonce, stale, rfl⟩ before m after split
    simp at split
  · intro s a t earlier before _ stepped
    exact next_resultsAnswer (reachable_inv bounds earlier) before stepped

end Steps

end Session

namespace Daemon

variable {S : Setting} {d e : Daemon S} {act : DaemonAction S} {holds weaker : JobData → Prop}

/-- What get_current_job can return. -/
def Knows (d : Daemon S) (holds : JobData → Prop) : Prop :=
  holds d.currentJob.job ∧ ∀ port id, ∀ job ∈ d.seen port id, holds job.job

theorem Knows.mono (knows : d.Knows holds) (implies : ∀ job, holds job → weaker job) :
    d.Knows weaker :=
  ⟨implies _ knows.1, fun port id job among => implies _ (knows.2 port id job among)⟩

theorem Knows.jobAt (knows : d.Knows holds) (port : Port) (id time : Nat) :
    holds (d.jobAt port id time).job := by
  rw [Daemon.jobAt, List.getD_eq_getElem?_getD]
  cases found : (d.seen port id)[time]? with
  | none => exact knows.1
  | some job => exact knows.2 port id job (List.mem_of_getElem? found)

theorem supply_knows (knows : d.Knows holds) (port : Port) (id : Nat) (times : Nat → Nat)
    (a : PoolAction S.cliType port.size) :
    ClientPool.Offers holds (d.supply port id times a) := by
  cases a with
  | read env => exact fun k => knows.jobAt port id (times k)
  | block env => exact knows.jobAt port id (times 0)
  | interrupted | collected batch | make env registers | go => trivial

theorem moved_currentJob (moved : Moved d act e) (kept : ∀ job, act ≠ .store job) :
    e.currentJob = d.currentJob := by
  cases moved with
  | stored job => exact absurd rfl (kept job)
  | pooled | walked | handedOver | accepted | refused | listened => rfl

theorem moved_knows (moved : Moved d act e) (knows : d.Knows holds)
    (new : ∀ job, act = .store job → holds job.job) : e.Knows holds := by
  cases moved with
  | stored job =>
      have good := new job rfl
      refine ⟨good, ?_⟩
      intro port id other among
      simp only [afterStore] at among
      split at among
      · rcases List.mem_cons.mp among with rfl | old
        · exact good
        · exact knows.2 port id other old
      · rw [List.mem_singleton.mp among]
        exact good
  | pooled port id =>
      refine ⟨knows.1, ?_⟩
      intro other k job among
      simp only [afterPool] at among
      split at among
      · rw [List.mem_singleton.mp among]
        exact knows.1
      · exact knows.2 other k job among
  | walked | handedOver | accepted | refused | listened => exact knows

end Daemon

section Weaker

variable {S : Setting} {holds weaker : JobData → Prop}

theorem Session.supplied_mono (implies : ∀ job, holds job → weaker job) (s : Session)
    (a : SessionAction) (supplied : Session.Supplied holds s a) : Session.Supplied weaker s a := by
  cases a with
  | line | newBlock => exact implies _ supplied
  | recvBuf | overflow => trivial

theorem ClientPool.Ran.mono {c : Client} {trace : List Effect} (ran : Ran S holds c trace)
    (implies : ∀ job, holds job → weaker job) : Ran S weaker c trace :=
  System.ReachableUnder.mono (Session.supplied_mono implies) ran

theorem Recording.AllKept.mono {r : Recording S} (kept : r.AllKept holds)
    (implies : ∀ job, holds job → weaker job) : r.AllKept weaker := by
  intro port id
  have before := kept port id
  exact { before with
    present := fun i c there => (before.present i c there).mono implies
    ever := fun serial => (before.ever serial).imp (fun _ ran => ran.mono implies) }

end Weaker

/-- The node thread with all its jobs, and the process with what each client did. -/
structure Poold (S : Setting) where
  run : NodeRun
  recording : Recording S

/-- `publish` is a message that ends in notify_new_block, `node` any other step of the node
thread or of a dataset thread. -/
inductive PooldAction (S : Setting) where
  | node (a : NodeAction)
  | publish (env : MessageEnv) (doc : Value) (job : PublishedJob S)
  | others (act : DaemonAction S)

namespace Poold

variable {S : Setting}

def ofNodeThread : NodeAction → Bool
  | .rxReady _ _ => false
  | .ppReady _ _ => false
  | _ => true

/-- The node thread is not in notify_new_block. -/
def listening (s : Poold S) : Bool :=
  match (s.recording.daemon.server .plain).node, (s.recording.daemon.server .tls).node with
  | .idle, .idle => true
  | _, _ => false

def nodeStep (s : Poold S) (a : NodeAction) : Option (Poold S) :=
  if ofNodeThread a = true → s.listening = true then
    match NodeRun.next S.getEpochNumber s.run a with
    | some run =>
        if run.accepted.length = s.run.accepted.length then some { s with run := run } else none
    | none => none
  else none

def publishStep (s : Poold S) (env : MessageEnv) (doc : Value) (job : PublishedJob S) :
    Option (Poold S) :=
  match NodeRun.next S.getEpochNumber s.run (.message env doc) with
  | some run =>
      if run.accepted.length = s.run.accepted.length + 1 ∧
          run.accepted.head?.map AcceptedJob.job = some job.job then
        (Recording.next s.recording (.store job)).map (fun recording => ⟨run, recording⟩)
      else none
  | none => none

def next (s : Poold S) : PooldAction S → Option (Poold S)
  | .node a => s.nodeStep a
  | .publish env doc job => s.publishStep env doc job
  | .others (.store _) => none
  | .others act =>
      (Recording.next s.recording act).map (fun recording => { s with recording := recording })

/-- start of the server waits until has_first_job says so. -/
def system (S : Setting) : System (Poold S) (PooldAction S) where
  start s := (NodeRun.system S.getEpochNumber).Reachable s.run ∧
    (Recording.system S).start s.recording ∧
    s.run.accepted.head?.map AcceptedJob.job = some s.recording.daemon.currentJob.job
  next := next

section Steps

variable {s t : Poold S} {act : PooldAction S}

inductive Moved (s : Poold S) : PooldAction S → Poold S → Prop
  | node (a : NodeAction) (run : NodeRun)
      (ran : NodeRun.next S.getEpochNumber s.run a = some run)
      (none : run.accepted.length = s.run.accepted.length) :
      Moved s (.node a) { s with run := run }
  | published (env : MessageEnv) (doc : Value) (job : PublishedJob S) (run : NodeRun)
      (recording : Recording S)
      (ran : NodeRun.next S.getEpochNumber s.run (.message env doc) = some run)
      (newest : run.accepted.head?.map AcceptedJob.job = some job.job)
      (stored : Recording.next s.recording (.store job) = some recording) :
      Moved s (.publish env doc job) ⟨run, recording⟩
  | others (act : DaemonAction S) (recording : Recording S) (other : ∀ job, act ≠ .store job)
      (ran : Recording.next s.recording act = some recording) :
      Moved s (.others act) { s with recording := recording }

theorem next_moved (stepped : next s act = some t) : Moved s act t := by
  cases act with
  | node a =>
      simp only [next, nodeStep] at stepped
      split at stepped
      · split at stepped
        · rename_i run ran
          split at stepped
          · rename_i none
            cases stepped
            exact .node a run ran none
          · cases stepped
        · cases stepped
      · cases stepped
  | publish env doc job =>
      simp only [next, publishStep] at stepped
      split at stepped
      · rename_i run ran
        split at stepped
        · rename_i grown
          obtain ⟨recording, stored, rfl⟩ := Option.map_eq_some_iff.mp stepped
          exact .published env doc job run recording ran grown.2 stored
        · cases stepped
      · cases stepped
  | others act =>
      cases act with
      | store job => cases stepped
      | node | accept | refuse | listener | pool =>
          obtain ⟨recording, ran, rfl⟩ := Option.map_eq_some_iff.mp stepped
          exact .others _ recording (fun _ impossible => by cases impossible) ran

theorem listening_iff : s.listening = true ↔
    (s.recording.daemon.server .plain).node = .idle ∧
      (s.recording.daemon.server .tls).node = .idle := by
  rw [listening]
  split
  · rename_i plain tls
    simp only [plain, tls, and_self]
  · rename_i busy
    simp only [Bool.false_eq_true, false_iff]
    rintro ⟨plain, tls⟩
    exact busy plain tls

/-- The miners hold the node thread up in notify_new_block only. -/
theorem exists_next_of_node (listening : s.listening = true) {a : NodeAction} {run : NodeRun}
    (ran : NodeRun.next S.getEpochNumber s.run a = some run) :
    ∃ act t, next s act = some t ∧ t.run = run := by
  obtain ⟨plain, tls⟩ := listening_iff.mp listening
  rcases NodeRun.next_published ran with same | ⟨env, doc, job, addr, rfl, published, grown⟩
  · refine ⟨.node a, { s with run := run }, ?_, rfl⟩
    simp only [next, nodeStep, ran, same, listening, implies_true, if_true]
  · have notified : ∃ server, (s.recording.daemon.server .plain).next .notify = some server := by
      simp only [Server.next, plain]
      exact ⟨_, rfl⟩
    obtain ⟨server, notified⟩ := notified
    let stored : PublishedJob S := ⟨job, published⟩
    have took : ∃ recording, Recording.next s.recording (.store stored) = some recording := by
      simp only [Recording.next, Daemon.next, Daemon.storeStep, tls, notified, Option.map_some]
      exact ⟨_, rfl⟩
    obtain ⟨recording, took⟩ := took
    refine ⟨.publish env doc stored, ⟨run, recording⟩, ?_, rfl⟩
    simp only [next, publishStep, ran, grown, List.length_cons, List.head?_cons, Option.map_some,
      and_self, if_true, took, stored]

/-- What the pools know is of the node, and the last job they can get is its newest. -/
structure Sound (s : Poold S) : Prop where
  run : (NodeRun.system S.getEpochNumber).Reachable s.run
  newest : s.run.accepted.head?.map AcceptedJob.job = some s.recording.daemon.currentJob.job
  knows : s.recording.daemon.Knows s.run.Sent
  kept : Recording.AllKept s.run.Sent s.recording

theorem sent_of_newest {run : NodeRun} {job : JobData}
    (newest : run.accepted.head?.map AcceptedJob.job = some job) : run.Sent job := by
  obtain ⟨a, first, made⟩ := Option.map_eq_some_iff.mp newest
  exact ⟨a, List.mem_of_mem_head? first, made⟩

theorem next_sound (before : Sound s) (stepped : next s act = some t) : Sound t := by
  have fresh := (NodeRun.reachable_publishedAlive before.run).1.fresh
  cases next_moved stepped with
  | node a run ran none =>
      have same : run.accepted = s.run.accepted := by
        rcases NodeRun.next_accepted fresh ran with same | ⟨_, _, grown, _⟩
        · exact same
        · rw [grown, List.length_cons] at none
          omega
      have sent : ∀ job, s.run.Sent job → run.Sent job := by
        intro job
        simp only [NodeRun.Sent, same, imp_self]
      refine ⟨.step before.run trivial ran, ?_, before.knows.mono sent, before.kept.mono sent⟩
      rw [same]
      exact before.newest
  | published env doc job run recording ran newest stored =>
      have sent : ∀ job, s.run.Sent job → run.Sent job :=
        fun _ => NodeRun.sent_next fresh ran
      have kept := Recording.next_kept (before.kept.mono sent)
        (fun _ _ _ _ impossible => by cases impossible) stored
      obtain ⟨e, moved, rfl⟩ := Option.map_eq_some_iff.mp stored
      have took := Daemon.next_moved moved
      refine ⟨.step before.run (a := .message env doc) trivial ran, ?_, ?_, kept⟩
      · cases took with
        | stored => exact newest
      · refine Daemon.moved_knows took (before.knows.mono sent) ?_
        rintro _ ⟨⟩
        exact sent_of_newest newest
  | others act recording other ran =>
      have kept := Recording.next_kept before.kept
        (fun port id a times _ => Daemon.supply_knows before.knows port id times a) ran
      obtain ⟨e, moved, rfl⟩ := Option.map_eq_some_iff.mp ran
      have took := Daemon.next_moved moved
      refine ⟨before.run, ?_, ?_, kept⟩
      · change s.run.accepted.head?.map AcceptedJob.job = some e.currentJob.job
        rw [Daemon.moved_currentJob took other]
        exact before.newest
      · exact Daemon.moved_knows took before.knows (fun job same => absurd same (other job))

theorem reachable_sound (reached : (system S).Reachable s) : Sound s := by
  refine reached.invariant Sound ?_ (fun _ _ _ _ => next_sound)
  rintro s ⟨run, first, newest⟩
  refine ⟨run, newest, ?_, Recording.start_kept first⟩
  obtain ⟨⟨job, started⟩, _⟩ := first
  rw [started] at newest ⊢
  refine ⟨sent_of_newest newest, ?_⟩
  intro port id other among
  rw [List.mem_singleton.mp among]
  exact sent_of_newest newest

end Steps

section Clients

variable {s : Poold S}

/-- What connects the two ends of the program: nobody stops the node thread outside of
notify_new_block, the job that the pools get is the one that it has published last, a
result that a miner's share sends answers a message of the node, and a miner works on
one. -/
structure Faithful (s : Poold S) : Prop where
  free : s.listening = true → ∀ a run, NodeRun.next S.getEpochNumber s.run a = some run →
    ∃ act t, next s act = some t ∧ t.run = run
  current : s.run.node.getCurrentJob = some s.recording.daemon.currentJob.job
  newest : s.run.accepted.head?.map AcceptedJob.job = some s.recording.daemon.currentJob.job
  results : ∀ x before m after, s.recording.trace x = before ++ .submit m :: after →
    Session.LoggedInBefore before →
    ∃ a ∈ s.run.accepted, ∃ t : Template, t.Written a.doc ∧ t.Answered (s.recording.trace x) m
  told : ∀ x c, Daemon.Present s.recording.daemon x c → c.loggedIn = true →
    ∃ a ∈ s.run.accepted, ∃ t : Template, t.Written a.doc ∧
      ∃ line w, lastJobLine (s.recording.trace x) = some (line ++ [0x0a]) ∧
        (JsonText.parse line).bind readWork = some w ∧ w.ComesFrom t

/-- Whatever the threads do in whatever order. -/
theorem faithful (reached : (system S).Reachable s) : Faithful s := by
  have sound := reachable_sound reached
  have bounds := Relay.sent_bounds sound.run
  refine ⟨fun listening _ _ ran => exists_next_of_node listening ran, ?_, sound.newest, ?_,
    ?_⟩
  · exact NodeRun.getCurrentJob_newest (NodeRun.reachable_publishedAlive sound.run).2 sound.newest
  · intro x before m after split miner
    obtain ⟨c, ran⟩ := (sound.kept x.port x.pool).ever x.serial
    have ran : (Session.system S.maxCallsPerMin S.parse).ReachableUnder
        (Session.Supplied s.run.Sent) ⟨c, s.recording.trace x⟩ := ran
    obtain ⟨job, sent, answers⟩ :=
      Session.reachable_resultsAnswer bounds ran before m after split miner
    obtain ⟨a, among, t, written, describes⟩ := Relay.sent_template sound.run sent
    exact ⟨a, among, t, written, answers t describes⟩
  · rintro x c ⟨i, placed, there, serial, rfl⟩ miner
    have ran := (sound.kept x.port x.pool).present i placed there
    rw [serial] at ran
    have ran : (Session.system S.maxCallsPerMin S.parse).ReachableUnder
        (Session.Supplied s.run.Sent) ⟨placed.cli, s.recording.trace x⟩ := ran
    obtain ⟨job, sent, _, _, message⟩ := (Session.reachable_inv bounds ran).told miner
    obtain ⟨a, among, t, written, describes⟩ := Relay.sent_template sound.run sent
    exact ⟨a, among, t, written, Relay.told_template ran.reachable message describes⟩

def firstRun : NodeRun :=
  let before : NodeRun := ⟨Node.plainNode, false, []⟩
  ((NodeRun.system Daemon.minerSetting.getEpochNumber).runWhile (fun _ _ => true) before
    [.connected 0, .message ⟨0, 0⟩ (Node.plainMessage "randomx" 24)]).getD before

theorem firstRun_reachable :
    (NodeRun.system Daemon.minerSetting.getEpochNumber).Reachable firstRun := by
  rw [firstRun]
  cases ran : (NodeRun.system Daemon.minerSetting.getEpochNumber).runWhile (fun _ _ => true)
      ⟨Node.plainNode, false, []⟩
      [.connected 0, .message ⟨0, 0⟩ (Node.plainMessage "randomx" 24)] with
  | none => exact .start rfl
  | some run => exact .of_runWhile (fun _ _ _ => trivial) _ (.start rfl) ran

theorem laterJob_published :
    Node.Published Daemon.minerSetting.getEpochNumber (Node.plainJob "progpow" 24) :=
  Node.plainJob_published "progpow" 24 (by decide +kernel)

def laterJob : PublishedJob Daemon.minerSetting :=
  ⟨Node.plainJob "progpow" 24, laterJob_published⟩

/-- A miner logs in, the node has another job, and the miner finds a block before it is told. -/
def blockFound : List (PooldAction Daemon.minerSetting) :=
  (Daemon.connectOne 7 true ++ Daemon.loginOne Server.firstClient).map .others ++
    .publish ⟨0, 0⟩ (Node.plainMessage "progpow" 24) laterJob ::
    (Daemon.firstPool [.collected [(.client Server.firstClient, epollIn)],
      .read ⟨[.bytes (Client.submitLine 2 1 0 .setAllZero)], fun _ => Session.plainEnv .zero⟩, .go,
      .go]).map .others

def isSubmit : Effect → Bool
  | .submit _ => true
  | _ => false

def isLogin : Effect → Bool
  | .send (.login _ _) => true
  | _ => false

def answersLogin (trace : List Effect) : Bool :=
  trace.any isSubmit && (trace.takeWhile (fun e => !isSubmit e)).any isLogin

theorem answersLogin_spec {trace : List Effect} (checked : answersLogin trace = true) :
    ∃ before m after, trace = before ++ .submit m :: after ∧ Session.LoggedInBefore before := by
  simp only [answersLogin, Bool.and_eq_true, List.any_eq_true] at checked
  obtain ⟨⟨e, sent, submits⟩, told, among, login⟩ := checked
  obtain ⟨first, found⟩ := Option.isSome_iff_exists.mp (List.find?_isSome.mpr ⟨e, sent, submits⟩)
  obtain ⟨isFirst, before, after, split, quiet⟩ := List.find?_eq_some_iff_append.mp found
  rw [split, List.takeWhile_append_of_pos quiet, List.takeWhile_cons] at among
  simp only [isFirst, Bool.not_true, Bool.false_eq_true, if_false, List.append_nil] at among
  cases first with
  | submit m =>
      refine ⟨before, m, after, split, ?_⟩
      cases told with
      | send reply =>
          cases reply with
          | login callId message => exact ⟨callId, message, among⟩
          | error | status | job => cases login
      | getCurrentJob | access | checkClientWork | rxCheck | ppCheck | submit => cases login
  | getCurrentJob | access | checkClientWork | rxCheck | ppCheck | send => cases isFirst

/-- This result answers the first of the two messages or the second. -/
theorem faithful_when_found :
    ∃ (s : Poold Daemon.minerSetting) (x : ClientId) (m : SubmitMessage),
      s.run.accepted.length = 2 ∧ .submit m ∈ s.recording.trace x ∧
        ∃ a ∈ s.run.accepted, ∃ t : Template, t.Written a.doc ∧
          t.Answered (s.recording.trace x) m := by
  obtain ⟨s, reached, checks⟩ := System.exists_reachable (S := system Daemon.minerSetting)
    (s := ⟨firstRun, ⟨Daemon.start Daemon.minerJob, fun _ => []⟩⟩)
    ⟨firstRun_reachable, ⟨⟨_, rfl⟩, rfl⟩, by decide +kernel⟩ blockFound
    (fun s => s.run.accepted.length == 2 && answersLogin (s.recording.trace ⟨.plain, 0, 0⟩))
    (by decide +kernel)
  simp only [Bool.and_eq_true, beq_iff_eq] at checks
  obtain ⟨two, found⟩ := checks
  obtain ⟨before, m, after, split, miner⟩ := answersLogin_spec found
  refine ⟨s, _, m, two, ?_, (faithful reached).results _ before m after split miner⟩
  rw [split]
  simp

end Clients

end Poold

end EpicPoold
