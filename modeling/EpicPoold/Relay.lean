import EpicPoold.HexCodec
import EpicPoold.JobDifficulty
import EpicPoold.MinerProtocol

/-! The pool between the node and its miners. Read from either end, it is about the same
work: the bytes that the node has to hash for a result are those that the miner hashed. -/

namespace EpicPoold

open Foundations Foundations.JsonText

def Node.getCurrentJob (n : Node) : Option JobData := do
  let addr ← n.currentJob
  let e ← n.jobs.find? (fun e => e.addr == addr)
  some e.job

def SessionAction.withJob (job : JobData) : SessionAction → SessionAction
  | .line env buf => .line { env with currentJob := job } buf
  | .newBlock env => .newBlock { env with currentJob := job }
  | .recvBuf buffer => .recvBuf buffer
  | .overflow => .overflow

structure Relay (ι : Type) where
  run : NodeRun
  sessions : ι → Session

inductive RelayAction (ι : Type) where
  | node (a : NodeAction)
  | miner (i : ι) (a : SessionAction)

structure Template where
  height : UInt32
  jobId : UInt32
  algorithm : List UInt8
  prepow : List UInt8
  seed : V32

namespace Template

def Written (t : Template) (doc : Value) : Prop :=
  ∃ (res : Value) (algorithm prepow : List UInt8) (epochs : List Value)
      (entries : List EpochEntry),
    Node.messageKind doc = .ok (.job res) ∧
    getJsonUInt res "height" = .ok t.height ∧
    getJsonUInt res "job_id" = .ok t.jobId ∧
    getJsonString res "algorithm" = .ok algorithm ∧ cstr algorithm = t.algorithm ∧
    getJsonString res "pre_pow" = .ok prepow ∧
    hex2bin prepow prepow.length = (true, t.prepow) ∧
    getObjectMember res "epochs" = .ok (some (.array epochs)) ∧
    Selects t.height epochs entries ∧
    lastSeed (EpochEntry.covers t.height) entries = some t.seed

/-- What the node hashes for a result: its own text and the nonce it is told. -/
def check (t : Template) (nonce : Nat) : RxCheckJob :=
  ⟨t.prepow ++ bytesBE 8 nonce, t.seed.getId, t.seed, rfl⟩

structure Describes (t : Template) (job : JobData) : Prop where
  height : job.height = t.height
  jobid : job.jobid = t.jobId
  type : ascii (powTypeToStr job.type) = t.algorithm
  seed : job.rxSeed = t.seed
  length : job.prepowLen.toNat = t.prepow.length + 8
  fits : job.prepowLen.toNat ≤ prepowSize
  blob : job.blob.take (job.blob.length - 8) = t.prepow

end Template

structure Work.ComesFrom (w : Work) (t : Template) : Prop where
  height : w.height = t.height.toNat
  algorithm : w.algorithm = t.algorithm
  seed : w.seed = t.seed
  blob : w.blob.take (w.blob.length - 8) = t.prepow
  length : w.blob.length = t.prepow.length + 8

/-- The node reads its own height and job id in a result, and a RandomX hash that it gets
again itself. The pool hashed the same. -/
def Template.Confirms (t : Template) (env : RequestEnv) (effects : List Effect)
    (m : SubmitMessage) : Prop :=
  ∃ line r, m.text = line ++ [0x0a] ∧ (JsonText.parse line).bind readResult = some r ∧
    r.height = t.height.toNat ∧ r.jobId = t.jobId.toNat ∧
    (t.algorithm = ascii "randomx" →
      Effect.rxCheck (t.check r.nonce) ∈ effects ∧ (env.rx (t.check r.nonce)).error = false ∧
      r.hash = (env.rx (t.check r.nonce)).hash.data.bytes.map UInt8.toNat)

namespace Node

theorem jobType_text {algo : List UInt8} {type : PowType} (read : jobType algo = .ok type) :
    ascii (powTypeToStr type) = cstr algo := by
  unfold jobType at read
  split at read
  · rename_i same
    cases read
    exact same.symm
  · split at read
    · rename_i same
      cases read
      exact same.symm
    · split at read
      · rename_i same
        cases read
        exact same.symm
      · cases read

theorem selects_of_jobEpochs {height : UInt32} {res : Value} {uses : List EpochUse} {seed : V32}
    (read : jobEpochs height res = .ok uses)
    (last : (uses.filterMap EpochUse.current?).getLast? = some seed) :
    ∃ epochs entries, getObjectMember res "epochs" = .ok (some (.array epochs)) ∧
      Selects height epochs entries ∧ lastSeed (EpochEntry.covers height) entries = some seed := by
  have opened := read
  simp only [jobEpochs, bind_eq_ok, getObjectMemberT_eq_ok, getArray_eq_ok] at opened
  obtain ⟨_, listed, epochs, rfl, _⟩ := opened
  obtain ⟨entries, selects, rfl⟩ := (jobEpochs_eq_ok listed uses).mp read
  refine ⟨epochs, entries, listed, selects, ?_⟩
  rw [current_useOf, List.getLast?_map] at last
  exact last

theorem exists_template {env : MessageEnv} {doc : Value} {b : JobBody}
    (read : messageJob env doc = .ok (some b)) :
    ∃ t : Template, t.Written doc ∧ t.Describes b.job := by
  obtain ⟨res, said⟩ := said_of_messageJob read
  have set := setFrom_of_messageJob read
  obtain ⟨algo, _, lists, typed, tall, _⟩ := jobHeader_lists said.kind said.header
  obtain ⟨epochs, entries, listed, selects, last⟩ := selects_of_jobEpochs said.epochs set.rxSeed
  have prepow := said.prepow
  simp only [readPrepowText, bind_eq_ok, rejectIf_eq_ok] at prepow
  obtain ⟨text, named, _, short, _, accepted, same⟩ := prepow
  cases (pure_eq_ok _ _).mp same
  have decoded : (hex2bin b.prepow b.prepow.length).1 = true := by simpa using accepted
  have half := (hex2bin_decoded b.prepow).whole decoded
  have room : b.prepow.length / 2 ≤ prepowSize - 8 := by simpa using short
  have blob := set.blob
  rw [List.take_of_length_le half.le] at blob
  refine ⟨⟨b.header.height, b.jobid, cstr algo, (hex2bin b.prepow b.prepow.length).2,
      b.job.rxSeed⟩, ?_, set.height, set.jobid, ?_, rfl, ?_, ?_, ?_⟩
  · exact ⟨res, algo, b.prepow, epochs, entries, said.kind, tall, said.jobid, lists.algo, rfl,
      named, Prod.ext decoded rfl, listed, selects, last⟩
  · rw [set.type]
    exact jobType_text typed
  · rw [set.prepowLen, half]
  · rw [set.prepowLen]
    simp only [prepowSize] at room ⊢
    omega
  · rw [blob, List.length_append, List.length_replicate, Nat.add_sub_cancel, List.take_left]

end Node

namespace NodeRun

variable {getEpochNumber : UInt64 → Int32} {s t : NodeRun}

def Sent (r : NodeRun) (job : JobData) : Prop := ∃ a ∈ r.accepted, a.job = job

theorem next_accepted {a : NodeAction} (fresh : s.node.Fresh)
    (stepped : next getEpochNumber s a = some t) :
    t.accepted = s.accepted ∨
      ∃ m b, t.accepted = m :: s.accepted ∧ Node.messageJob m.env m.doc = .ok (some b) ∧
        m.job = b.job := by
  cases a with
  | message env doc =>
      simp only [next] at stepped
      split at stepped
      · cases messageStep_stepped fresh stepped with
        | quiet => exact .inl rfl
        | rejected => exact .inl rfl
        | published b effects valid => exact .inr ⟨_, b, rfl, valid, rfl⟩
      · cases stepped
  | connected timestampMs =>
      simp only [next] at stepped
      split at stepped
      · cases stepped
      · cases stepped
        exact .inl rfl
  | disconnected | timeout | notJson =>
      simp only [next] at stepped
      split at stepped
      · cases stepped
        exact .inl rfl
      · cases stepped
  | rxReady i id | ppReady i id =>
      cases stepped
      exact .inl rfl

theorem accepted_described (reached : (system getEpochNumber).Reachable s) :
    ∀ m ∈ s.accepted, ∃ b, Node.messageJob m.env m.doc = .ok (some b) ∧ m.job = b.job := by
  apply reached.invariant
    (fun s => ∀ m ∈ s.accepted, ∃ b, Node.messageJob m.env m.doc = .ok (some b) ∧ m.job = b.job)
  · rintro s rfl m impossible
    cases impossible
  · intro s a t earlier before stepped m among
    have fresh := (reachable_publishedAlive earlier).1.fresh
    rcases next_accepted fresh stepped with same | ⟨new, b, grown, valid, made⟩
    · rw [same] at among
      exact before m among
    · rw [grown] at among
      rcases List.mem_cons.mp among with rfl | old
      · exact ⟨b, valid, made⟩
      · exact before m old

theorem sent_next {a : NodeAction} (fresh : s.node.Fresh)
    (stepped : next getEpochNumber s a = some t) {job : JobData} (sent : s.Sent job) :
    t.Sent job := by
  obtain ⟨m, among, made⟩ := sent
  rcases next_accepted fresh stepped with same | ⟨_, _, grown, _⟩
  · exact ⟨m, same ▸ among, made⟩
  · exact ⟨m, grown ▸ List.mem_cons_of_mem _ among, made⟩

/-- What `current_job` points to is the job of a message. -/
theorem getCurrentJob_sent (alive : PublishedAlive s) {job : JobData}
    (current : s.node.getCurrentJob = some job) : s.Sent job := by
  simp only [Node.getCurrentJob, Option.bind_eq_bind, Option.bind_eq_some_iff,
    Option.some.injEq] at current
  obtain ⟨addr, points, e, found, made⟩ := current
  cases accepted : s.accepted with
  | nil =>
      have none := alive.none_iff.mpr accepted
      rw [none] at points
      cases points
  | cons m older =>
      obtain ⟨last, filled⟩ := alive.last m older accepted
      obtain rfl := Option.some.inj (last.symm.trans points)
      have address : e.addr = m.addr := by simpa using List.find?_some found
      have entry := filled.only e (List.mem_of_find?_eq_some found) address
      refine ⟨m, accepted ▸ List.mem_cons_self, ?_⟩
      rw [← made, entry]
      rfl

/-- `current_job` points to the newest job. -/
theorem getCurrentJob_newest {run : NodeRun} (alive : PublishedAlive run) {job : JobData}
    (newest : run.accepted.head?.map AcceptedJob.job = some job) :
    run.node.getCurrentJob = some job := by
  obtain ⟨a, first, made⟩ := Option.map_eq_some_iff.mp newest
  obtain ⟨older, accepted⟩ := List.head?_eq_some_iff.mp first
  obtain ⟨points, filled⟩ := alive.last a older accepted
  have found : run.node.jobs.find? (fun e => e.addr == a.addr) = some a.entry := by
    cases search : run.node.jobs.find? (fun e => e.addr == a.addr) with
    | none =>
        have missing := List.find?_eq_none.mp search a.entry filled.present
        exact absurd (beq_self_eq_true a.addr) missing
    | some e =>
        have address : e.addr = a.addr := by simpa using List.find?_some search
        rw [filled.only e (List.mem_of_find?_eq_some search) address]
  simp only [Node.getCurrentJob, points, Option.bind_eq_bind, Option.bind_some, found]
  exact congrArg some made

theorem next_published {a : NodeAction}
    (stepped : next getEpochNumber s a = some t) :
    t.accepted = s.accepted ∨ ∃ env doc job addr, a = .message env doc ∧
      Node.Published getEpochNumber job ∧ t.accepted = ⟨addr, env, doc, job⟩ :: s.accepted := by
  cases a with
  | message env doc =>
      simp only [next] at stepped
      split at stepped
      · rcases ended : Id.run ((Node.procMessage getEpochNumber env doc).run.run s.node) with
          ⟨result, n⟩
        simp only [messageStep, ended] at stepped
        split at stepped
        · rename_i job after same
          cases same
          cases stepped
          exact .inr ⟨env, doc, job, _, rfl, ⟨s.node, env, doc, _, ended⟩, rfl⟩
        · cases stepped
          exact .inl rfl
        · cases stepped
          exact .inl rfl
        · cases stepped
          exact .inl rfl
        · cases stepped
      · cases stepped
  | connected timestampMs =>
      simp only [next] at stepped
      split at stepped
      · cases stepped
      · cases stepped
        exact .inl rfl
  | disconnected | timeout | notJson =>
      simp only [next] at stepped
      split at stepped
      · cases stepped
        exact .inl rfl
      · cases stepped
  | rxReady i id | ppReady i id =>
      cases stepped
      exact .inl rfl

theorem exists_newest {run : NodeRun} (alive : PublishedAlive run) {job : JobData}
    (current : run.node.getCurrentJob = some job) :
    ∃ a, run.accepted.head? = some a ∧ a.job = job := by
  cases accepted : run.accepted with
  | nil =>
      rw [Node.getCurrentJob, alive.none_iff.mpr accepted] at current
      cases current
  | cons a older =>
      have newest : run.accepted.head?.map AcceptedJob.job = some a.job := by
        rw [accepted]
        rfl
      rw [getCurrentJob_newest alive newest] at current
      exact ⟨a, rfl, Option.some.inj current⟩

end NodeRun

namespace Relay

open Session

section System

variable (maxCallsPerMin : Nat) (parse : List UInt8 → Option Value)
  (getEpochNumber : UInt64 → Int32) (ι : Type) [DecidableEq ι]

variable {ι} in
/-- Messages of the node and requests in any order. The server is started only once there is
a job. -/
def next (s : Relay ι) : RelayAction ι → Option (Relay ι)
  | .node a => (NodeRun.next getEpochNumber s.run a).map (fun run => { s with run := run })
  | .miner i a => do
      let job ← s.run.node.getCurrentJob
      let session ← Session.next maxCallsPerMin parse (s.sessions i) (a.withJob job)
      some { s with sessions := Function.update s.sessions i session }

def system : System (Relay ι) (RelayAction ι) where
  start s := (NodeRun.system getEpochNumber).start s.run ∧
    ∀ i, (Session.system maxCallsPerMin parse).start (s.sessions i)
  next := next maxCallsPerMin parse getEpochNumber

end System

variable {maxCallsPerMin : Nat} {parse : List UInt8 → Option Value}
  {getEpochNumber : UInt64 → Int32} {ι : Type} [DecidableEq ι] {s t : Relay ι}

variable (maxCallsPerMin parse getEpochNumber) in
structure Sound (s : Relay ι) : Prop where
  run : (NodeRun.system getEpochNumber).Reachable s.run
  sessions : ∀ i, (Session.system maxCallsPerMin parse).Reachable (s.sessions i)
  told : ∀ i, Session.Inv s.run.Sent (s.sessions i)

theorem inv_mono {holds weaker : JobData → Prop} (implies : ∀ job, holds job → weaker job)
    {session : Session} (before : Session.Inv holds session) : Session.Inv weaker session where
  login := before.login
  told := by
    intro miner
    obtain ⟨job, good, rest⟩ := before.told miner
    exact ⟨job, implies job good, rest⟩

theorem sent_bounds {r : NodeRun} (reached : (NodeRun.system getEpochNumber).Reachable r)
    (job : JobData) (sent : r.Sent job) :
    8 ≤ job.prepowLen.toNat ∧ job.prepowLen.toNat ≤ prepowSize := by
  obtain ⟨m, among, rfl⟩ := sent
  obtain ⟨b, valid, made⟩ := NodeRun.accepted_described reached m among
  obtain ⟨t, _, describes⟩ := Node.exists_template valid
  rw [made]
  have length := describes.length
  exact ⟨by omega, describes.fits⟩

theorem supplied_withJob {holds : JobData → Prop} {job : JobData} (good : holds job)
    (session : Session) (a : SessionAction) : Supplied holds session (a.withJob job) := by
  cases a with
  | line | newBlock => exact good
  | recvBuf | overflow => trivial

theorem next_sound {a : RelayAction ι} (before : Sound maxCallsPerMin parse getEpochNumber s)
    (stepped : next maxCallsPerMin parse getEpochNumber s a = some t) :
    Sound maxCallsPerMin parse getEpochNumber t := by
  have published := NodeRun.reachable_publishedAlive before.run
  cases a with
  | node a =>
      obtain ⟨run, ran, rfl⟩ := Option.map_eq_some_iff.mp stepped
      refine ⟨.step before.run trivial ran, before.sessions, ?_⟩
      intro i
      exact inv_mono (fun _ sent => NodeRun.sent_next published.1.fresh ran sent) (before.told i)
  | miner i a =>
      simp only [next, Option.bind_eq_bind, Option.bind_eq_some_iff, Option.some.injEq] at stepped
      obtain ⟨job, current, session, ran, rfl⟩ := stepped
      have sent := NodeRun.getCurrentJob_sent published.2 current
      have told := next_inv (sent_bounds before.run) _ _ _ (before.told i)
        (supplied_withJob sent _ a) ran
      refine ⟨before.run, ?_, ?_⟩
      · apply (Function.forall_update_iff s.sessions
          (fun _ session => (Session.system maxCallsPerMin parse).Reachable session)).mpr
        exact ⟨.step (before.sessions i) trivial ran, fun j _ => before.sessions j⟩
      · apply (Function.forall_update_iff s.sessions
          (fun _ session => Session.Inv s.run.Sent session)).mpr
        exact ⟨told, fun j _ => before.told j⟩

theorem reachable_sound
    (reached : (system maxCallsPerMin parse getEpochNumber ι).Reachable s) :
    Sound maxCallsPerMin parse getEpochNumber s := by
  apply reached.invariant (Sound maxCallsPerMin parse getEpochNumber)
  · rintro s ⟨run, sessions⟩
    refine ⟨.start run, fun i => .start (sessions i), ?_⟩
    intro i
    have begun : (Session.system maxCallsPerMin parse).ReachableUnder (Supplied s.run.Sent)
        (s.sessions i) := .start (sessions i)
    exact reachable_inv (sent_bounds (.start run)) begun
  · intro s a t _ before stepped
    exact next_sound before stepped

section Results

open Client

variable {c : Client} {job : JobData}

theorem mining_jobid (mining : Mining c.view job) : c.curJob.jobid = job.jobid := by
  obtain ⟨earlier, _, same⟩ := mining
  have curJob : c.curJob = (copyBack (freshJob job c.extraNonce) 4 earlier).1 := same
  rw [curJob]
  rfl

theorem minedJob_header (c : Client) (nonce : UInt32) :
    (minedJob c nonce).height = c.curJob.height ∧ (minedJob c nonce).jobid = c.curJob.jobid := by
  rw [minedJob]
  split
  · exact ⟨rfl, rfl⟩
  · exact ⟨rfl, rfl⟩

theorem told_comesFrom {t : Template} (describes : t.Describes job) (extraNonce jobid : UInt32) :
    (Work.told (freshJob job extraNonce) jobid).ComesFrom t := by
  have length := describes.length
  have room : 8 ≤ job.prepowLen.toNat := by omega
  obtain ⟨tail, size, blob⟩ := exists_blob_freshJob job extraNonce room describes.fits
  have eight : (store32 extraNonce ++ tail).length = 8 := by
    rw [List.length_append, store32_length, size]
  rw [describes.blob] at blob
  refine ⟨congrArg UInt32.toNat describes.height, describes.type, describes.seed, ?_, ?_⟩
  · change (freshJob job extraNonce).blob.take ((freshJob job extraNonce).blob.length - 8) = _
    rw [blob, List.length_append, eight, Nat.add_sub_cancel, List.take_left]
  · change (freshJob job extraNonce).blob.length = _
    rw [blob, List.length_append, eight]

/-- The pool hashes what the node will. -/
theorem check_minedJob {t : Template} (describes : t.Describes job) (mining : Mining c.view job)
    (randomx : c.curJob.type = .randomx) (nonce : UInt32) :
    t.check (c.fullNonce nonce).toNat = rxCheckJob (minedJob c nonce) := by
  have length := describes.length
  have room : 8 ≤ job.prepowLen.toNat := by omega
  have data : (minedJob c nonce).blob = t.prepow ++ bytesBE 8 (c.fullNonce nonce).toNat := by
    rw [blob_minedJob mining randomx room describes.fits, describes.blob, fullNonce_bytesBE]
  have seed : (minedJob c nonce).rxSeed = t.seed := by
    rw [minedJob_randomx mining randomx]
    exact describes.seed
  simp only [Template.check, rxCheckJob, data, seed]

theorem confirms_checkShare {t : Template} (describes : t.Describes job)
    (mining : Mining c.view job) (env : RequestEnv) (callId : Int64) (nonce : UInt32)
    {m : SubmitMessage} (sent : .submit m ∈ (checkShare env c callId nonce).2) :
    t.Confirms env (checkShare env c callId nonce).2 m := by
  obtain ⟨accepted, _, rfl⟩ := (submit_mem_checkShare env c callId nonce m).mp sent
  obtain ⟨height, jobid⟩ := minedJob_header c nonce
  let m := sendJobResult (minedJob c nonce) (c.fullNonce nonce) (shareResult env c nonce).hash
  have plain : ∀ b ∈ ascii "RandomX", IsPlain b := plain_of_allPlain rfl
  have printable : Printable m.doc := m.printable_doc plain
  refine ⟨m.doc.print, m.reading, m.text_eq_print, ?_, ?_, ?_, ?_⟩
  · rw [parse_print printable]
    exact m.readResult_doc
  · change (minedJob c nonce).height.toNat = _
    rw [height, mining_height mining, describes.height]
  · change (minedJob c nonce).jobid.toNat = _
    rw [jobid, mining_jobid mining, describes.jobid]
  · intro named
    have randomx : c.curJob.type = .randomx := by
      rw [mining_type mining]
      have text := describes.type.trans named
      cases type : job.type with
      | randomx => rfl
      | progpow | cuckoo =>
          rw [type] at text
          exact absurd text (by decide)
    have check := check_minedJob describes mining randomx nonce
    have result : shareResult env c nonce = env.rx (t.check m.reading.nonce) := by
      change _ = env.rx (t.check (c.fullNonce nonce).toNat)
      rw [check]
      simp only [shareResult, checkClientWork, minedJob, randomx]
    refine ⟨?_, ?_, ?_⟩
    · apply (rxCheck_mem_checkShare env c callId nonce randomx _).mpr
      exact check
    · rw [← result]
      exact accepted.1
    · rw [← result]
      rfl

theorem sent_template {r : NodeRun} (reached : (NodeRun.system getEpochNumber).Reachable r)
    (sent : r.Sent job) :
    ∃ a ∈ r.accepted, ∃ t : Template, t.Written a.doc ∧ t.Describes job := by
  obtain ⟨a, among, rfl⟩ := sent
  obtain ⟨b, valid, same⟩ := NodeRun.accepted_described reached a among
  obtain ⟨t, written, describes⟩ := Node.exists_template valid
  rw [← same] at describes
  exact ⟨a, among, t, written, describes⟩

theorem told_template {t : Template} {session : Session}
    (reached : (Session.system maxCallsPerMin parse).Reachable session)
    (message : lastMessage session.trace =
      some (jobMessage (freshJob job session.client.extraNonce) session.client.jobid))
    (describes : t.Describes job) :
    ∃ line w, lastJobLine session.trace = some (line ++ [0x0a]) ∧
      (JsonText.parse line).bind readWork = some w ∧ w.ComesFrom t := by
  obtain ⟨line, last, _, read⟩ := lastJobLine_told reached message
  exact ⟨line, _, last, read, told_comesFrom describes _ _⟩

/-- A miner works on a message that the node has sent, and knows all of it that matters. A
result of this miner answers that message: the node reads its own height and job id in
the line, and the hash of its own text with the nonce that it is told. -/
theorem results_confirmed
    (reached : (system maxCallsPerMin parse getEpochNumber ι).Reachable s) (i : ι)
    (miner : (s.sessions i).client.loggedIn = true) :
    ∃ a ∈ s.run.accepted, ∃ t : Template, t.Written a.doc ∧
      (∃ line w, lastJobLine (s.sessions i).trace = some (line ++ [0x0a]) ∧
        (JsonText.parse line).bind readWork = some w ∧ w.ComesFrom t) ∧
      ∀ env buf accepted out,
        processLine maxCallsPerMin parse env (s.sessions i).client buf = .ok (accepted, out) →
        ∀ m, .submit m ∈ out.2 → t.Confirms env out.2 m := by
  have sound := reachable_sound reached
  obtain ⟨job, sent, _, mining, message⟩ := (sound.told i).told miner
  obtain ⟨a, among, t, written, describes⟩ := sent_template sound.run sent
  refine ⟨a, among, t, written, told_template (sound.sessions i) message describes, ?_⟩
  intro env buf accepted out ran m sent
  rcases processLine_handled buf accepted out.1 out.2 ran with ⟨_, _, none⟩ | ⟨_, handled⟩
  · rw [none] at sent
    cases sent
  · obtain ⟨counted, callId, nonce, view, same⟩ := handled_submit handled sent
    have shared : out = checkShare env counted callId nonce := same
    subst shared
    rw [← view] at mining
    exact confirms_checkShare describes mining env callId nonce sent

def forwards (env : RequestEnv) (c : Client) (buf : List UInt8) : Bool :=
  match processLine 60 parseJson env c buf with
  | .ok (_, out) => out.2.any (fun e => match e with | .submit _ => true | _ => false)
  | .error _ => false

/-- A miner logs in after the first job, and finds a block with its next line. -/
theorem block_confirmed :
    ∃ (s : Relay Unit) (t : Template) (out : Client × List Effect) (m : SubmitMessage),
      s.run.accepted.length = 1 ∧ .submit m ∈ out.2 ∧ t.Confirms (plainEnv .zero) out.2 m := by
  obtain ⟨s, reached, checks⟩ :=
    System.exists_reachable (S := system 60 parseJson (fun _ => 0) Unit)
      (s := ⟨⟨Node.plainNode, false, []⟩, fun _ => ⟨construct 7 0 .zero, []⟩⟩)
      ⟨rfl, fun _ => ⟨7, 0, .zero, rfl⟩⟩
      [.node (.connected 0), .node (.message ⟨0, 0⟩ (Node.plainMessage "randomx" 24)),
        .miner () (.line (plainEnv .zero) (loginLine 1))]
      (fun s => s.run.accepted.length == 1 && (s.sessions ()).client.loggedIn &&
        forwards (plainEnv .zero) (s.sessions ()).client (submitLine 2 1 0 .setAllZero))
      (by decide +kernel)
  simp only [Bool.and_eq_true, beq_iff_eq] at checks
  obtain ⟨⟨one, miner⟩, found⟩ := checks
  obtain ⟨_, _, t, _, _, confirms⟩ := results_confirmed reached () miner
  rw [forwards] at found
  split at found
  · rename_i accepted out ran
    obtain ⟨e, sent, isResult⟩ := List.any_eq_true.mp found
    cases e with
    | submit m => exact ⟨s, t, out, m, one, sent, confirms _ _ _ _ ran m sent⟩
    | getCurrentJob | access | checkClientWork | rxCheck | ppCheck | send => cases isResult
  · cases found

end Results

end Relay

end EpicPoold
