import EpicPoold.BlockResults

/-! The protocol from a miner's end: what it reads in the last job line that it was sent is
all it needs to make the check of its own share that the pool makes. -/

namespace EpicPoold

open Foundations Foundations.JsonText

def readText : Doc → Option (List UInt8)
  | .string text => some text
  | _ => none

def readHex (doc : Doc) : Option (List UInt8) := do
  let text ← readText doc
  let decoded := hex2bin text text.length
  if decoded.1 then some decoded.2 else none

def readSeed (doc : Doc) : Option V32 := do
  let bytes ← readHex doc
  if size : bytes.length = 32 then some ⟨⟨bytes, size⟩⟩ else none

/-- What a miner finds in a job line. The job id is only repeated, as it stands. -/
structure Work where
  blob : List UInt8
  jobId : List UInt8
  target : UInt32
  algorithm : List UInt8
  seed : V32
  height : Nat

def jobOf (doc : Doc) : Option Doc :=
  match doc.member (ascii "result") with
  | some result => result.member (ascii "job")
  | none => doc.member (ascii "params")

def readWork (doc : Doc) : Option Work := do
  let job ← jobOf doc
  let blob ← readHex (← job.member (ascii "blob"))
  let jobId ← readText (← job.member (ascii "job_id"))
  let target ← readHex (← job.member (ascii "target"))
  let algorithm ← readText (← job.member (ascii "pow_algo"))
  let seed ← readSeed (← job.member (ascii "seed_hash"))
  let height ← readNumber (← job.member (ascii "height"))
  some ⟨blob, jobId, load32 target, algorithm, seed, height⟩

namespace Work

variable (w : Work)

def input (nonce : List UInt8) : List UInt8 := w.blob.take (w.blob.length - 4) ++ nonce

def extraNonce : UInt32 := load32 ((w.blob.drop (w.blob.length - 8)).take 4)

def rxCheck (nonce : List UInt8) : RxCheckJob := ⟨w.input nonce, w.seed.getId, w.seed, rfl⟩

def ppCheck (nonce : List UInt8) : PpCheckJob where
  data := w.blob.take (w.blob.length - 8)
  nonce := (w.extraNonce.toUInt64 <<< 32) ||| (load32 nonce).toUInt64
  blockNumber := UInt64.ofNat w.height

/-- The hash of a share, by hash functions that the miner and the pool have in common. -/
def verdict (env : RequestEnv) (nonce : List UInt8) : CheckJob :=
  if w.algorithm = ascii "randomx" then env.rx (w.rxCheck nonce)
  else if w.algorithm = ascii "progpow" then env.pp (w.ppCheck nonce)
  else ⟨.setAllOnes, true⟩

def answer (env : RequestEnv) (nonce : List UInt8) (callId : Int64) : Reply :=
  if (w.verdict env nonce).error then .error callId "Server error while checking share."
  else if w.target < (w.verdict env nonce).hash.getWork32 then .error callId "Bad share"
  else .status callId

def Submits (doc : Value) (nonce : List UInt8) : Prop :=
  ∃ (args : Value) (hash : V32),
    getObjectMember doc "method" = .ok (some (.string (ascii "submit"))) ∧
    getObjectMember doc "params" = .ok (some args) ∧ args.isObject = true ∧
    getObjectMember args "job_id" = .ok (some (.string w.jobId)) ∧
    getObjectMember args "nonce" = .ok (some (.string (bin2hex nonce))) ∧
    getObjectMember args "result" = .ok (some (.string (bin2hex hash.data.bytes)))

def told (job : JobData) (jobid : UInt32) : Work where
  blob := job.blob
  jobId := bin2hex (store32 jobid)
  target := Client.diffToTarget fixDiff
  algorithm := ascii (powTypeToStr job.type)
  seed := job.rxSeed
  height := job.height.toNat

end Work

section Reading

theorem readHex_bin2hex (bytes : List UInt8) :
    readHex (.string (bin2hex bytes)) = some bytes := by
  have decoded := hex2bin_bin2hex_self bytes
  simp only [readHex, readText, bind, Option.bind, decoded, if_true]

theorem readSeed_bin2hex (seed : V32) :
    readSeed (.string (bin2hex seed.data.bytes)) = some seed := by
  simp only [readSeed, readHex_bin2hex, bind, Option.bind, seed.data.length_eq, dif_pos]

theorem readWork_of_job {doc : Doc} {job : JobData} {jobid : UInt32}
    (found : jobOf doc = some (Client.jobMessage job jobid).doc) :
    readWork doc = some (.told job jobid) := by
  let message := (Client.jobMessage job jobid).doc
  have blob : message.member (ascii "blob") = some (.string (bin2hex job.blob)) := rfl
  have jobId : message.member (ascii "job_id") = some (.string (bin2hex (store32 jobid))) := rfl
  have target : message.member (ascii "target") =
      some (.string (bin2hex (store32 (Client.diffToTarget fixDiff)))) := rfl
  have algorithm : message.member (ascii "pow_algo") =
      some (.string (ascii (powTypeToStr job.type))) := rfl
  have seed : message.member (ascii "seed_hash") =
      some (.string (bin2hex job.rxSeed.data.bytes)) := rfl
  have height : message.member (ascii "height") =
      some (.number (decimal job.height.toNat)) := rfl
  simp only [readWork, found, bind, Option.bind, blob, jobId, target, algorithm, seed, height,
    readHex_bin2hex, readSeed_bin2hex, readText, SubmitMessage.readNumber_decimal, load32_store32,
    message]
  rfl

end Reading

def Reply.message? : Reply → Option JobMessage
  | .login _ message => some message
  | .job message => some message
  | _ => none

theorem jobOf_reply {reply : Reply} {message : JobMessage}
    (tells : reply.message? = some message) : jobOf reply.doc = some message.doc := by
  cases reply with
  | login | job =>
      cases tells
      rfl
  | error | status => cases tells

def lastJobLine (trace : List Effect) : Option (List UInt8) :=
  ((replies trace).filter (fun reply => reply.message?.isSome)).getLast?.map Reply.text

section Lines

theorem message_of_effect (e : Effect) : e.reply?.bind Reply.message? = e.message? := by
  cases e with
  | send reply => cases reply with
    | error | login | status | job => rfl
  | getCurrentJob | access | checkClientWork | rxCheck | ppCheck | submit => rfl

theorem filterMap_telling (sent : List Reply) :
    (sent.filter (fun reply => reply.message?.isSome)).filterMap Reply.message? =
      sent.filterMap Reply.message? := by
  rw [List.filterMap_filter]
  congr 1
  funext reply
  cases reply.message? with
  | none => rfl
  | some => rfl

theorem lastJobLine_of_message {trace : List Effect} {message : JobMessage}
    (last : lastMessage trace = some message) :
    ∃ reply, .send reply ∈ trace ∧ reply.message? = some message ∧
      lastJobLine trace = some reply.text := by
  let telling := (replies trace).filter (fun reply => reply.message?.isSome)
  have messages : telling.filterMap Reply.message? = trace.filterMap Effect.message? := by
    rw [filterMap_telling, replies, List.filterMap_filterMap]
    congr 1
    funext e
    exact message_of_effect e
  rw [lastMessage, ← messages] at last
  rcases List.eq_nil_or_concat telling with none | ⟨earlier, reply, split⟩
  · rw [none] at last
    cases last
  · have among : reply ∈ telling := by
      rw [split, List.concat_eq_append]
      exact List.mem_concat_self
    obtain ⟨sent, tells⟩ := List.mem_filter.mp among
    obtain ⟨told, same⟩ := Option.isSome_iff_exists.mp tells
    rw [split, List.concat_eq_append, List.filterMap_append, List.filterMap_cons, same] at last
    simp only [List.filterMap_nil, List.getLast?_concat, Option.some.injEq] at last
    refine ⟨reply, mem_replies.mp sent, by rw [same, last], ?_⟩
    change telling.getLast?.map Reply.text = _
    rw [split, List.concat_eq_append, List.getLast?_concat]
    rfl

end Lines

section Verdicts

open Client Session

variable {c : Client} {job : JobData}

theorem mining_type (mining : Mining c.view job) : c.curJob.type = job.type := by
  obtain ⟨earlier, _, same⟩ := mining
  have curJob : c.curJob = (copyBack (freshJob job c.extraNonce) 4 earlier).1 := same
  rw [curJob]
  rfl

theorem mining_height (mining : Mining c.view job) : c.curJob.height = job.height := by
  obtain ⟨earlier, _, same⟩ := mining
  have curJob : c.curJob = (copyBack (freshJob job c.extraNonce) 4 earlier).1 := same
  rw [curJob]
  rfl

theorem exists_blob_freshJob (job : JobData) (extraNonce : UInt32) (room : 8 ≤ job.prepowLen.toNat)
    (fits : job.prepowLen.toNat ≤ prepowSize) :
    ∃ tail : List UInt8, tail.length = 4 ∧ (freshJob job extraNonce).blob =
      job.blob.take (job.blob.length - 8) ++ (store32 extraNonce ++ tail) := by
  obtain ⟨tail, size, self⟩ := exists_copyBack_self (freshJob job extraNonce) 4
    (show 4 ≤ job.prepowLen.toNat by omega) fits
  have eight : (store32 extraNonce ++ tail).length = 8 := by
    rw [List.length_append, store32_length, size]
  have joined := copyBack_append job (store32 extraNonce) tail (by rw [eight]; exact room) fits
  rw [eight, size] at joined
  refine ⟨tail, size, ?_⟩
  rw [← blob_copyBack job 8 _ eight room fits, ← joined]
  exact congrArg JobData.blob self.symm

theorem rxCheck_told (mining : Mining c.view job) (room : 8 ≤ job.prepowLen.toNat)
    (fits : job.prepowLen.toNat ≤ prepowSize) (randomx : c.curJob.type = .randomx)
    (jobid : UInt32) {nonce : List UInt8} (size : nonce.length = 4) :
    (Work.told (freshJob job c.extraNonce) jobid).rxCheck nonce =
      rxCheckJob (minedJob c (load32 nonce)) := by
  have data : (minedJob c (load32 nonce)).blob =
      (Work.told (freshJob job c.extraNonce) jobid).input nonce := by
    rw [minedJob_randomx mining randomx, store32_load32 nonce size,
      blob_copyBack (freshJob job c.extraNonce) 4 nonce size
        (show 4 ≤ job.prepowLen.toNat by omega) fits]
    rfl
  have seed : (minedJob c (load32 nonce)).rxSeed = job.rxSeed := by
    rw [minedJob_randomx mining randomx]
    rfl
  simp only [rxCheckJob, Work.rxCheck, data, seed]
  rfl

theorem extraNonce_told (room : 8 ≤ job.prepowLen.toNat) (fits : job.prepowLen.toNat ≤ prepowSize)
    (extraNonce jobid : UInt32) :
    (Work.told (freshJob job extraNonce) jobid).extraNonce = extraNonce := by
  obtain ⟨tail, size, blob⟩ := exists_blob_freshJob job extraNonce room fits
  have whole := blob_length job fits
  have before : (job.blob.take (job.blob.length - 8)).length =
      (freshJob job extraNonce).blob.length - 8 := by
    rw [blob, List.length_append, List.length_append, store32_length, size]
    omega
  change load32 (((freshJob job extraNonce).blob.drop
    ((freshJob job extraNonce).blob.length - 8)).take 4) = extraNonce
  rw [← before, blob, List.drop_left, List.take_left' (store32_length extraNonce), load32_store32]

/-- ProgPoW hashes the part of the blob that no nonce is written to. -/
theorem ppData_told (mining : Mining c.view job) (room : 8 ≤ job.prepowLen.toNat)
    (fits : job.prepowLen.toNat ≤ prepowSize) :
    c.curJob.prepow.read 0 (ppDataLen c.curJob) =
      (freshJob job c.extraNonce).blob.take ((freshJob job c.extraNonce).blob.length - 8) := by
  obtain ⟨earlier, size, same⟩ := mining
  have curJob : c.curJob = (copyBack (freshJob job c.extraNonce) 4 earlier).1 := same
  have length : c.curJob.prepowLen.toNat = job.prepowLen.toNat := by
    rw [curJob]
    rfl
  have whole : (freshJob job c.extraNonce).blob.length = job.prepowLen.toNat :=
    blob_length (freshJob job c.extraNonce) fits
  have count : ppDataLen c.curJob = job.prepowLen.toNat - 8 := by
    have small := job.prepowLen.toNat_lt
    rw [ppDataLen, length]
    omega
  calc c.curJob.prepow.read 0 (ppDataLen c.curJob)
      = c.curJob.blob.take (job.prepowLen.toNat - 8) := by
        rw [count, JobData.blob, Buffer.read_take _ _ _ _ (by omega)]
    _ = ((freshJob job c.extraNonce).blob.take (job.prepowLen.toNat - 4) ++ earlier).take
          (job.prepowLen.toNat - 8) := by
        rw [curJob, blob_copyBack (freshJob job c.extraNonce) 4 earlier size
          (show 4 ≤ job.prepowLen.toNat by omega) fits, whole]
    _ = (freshJob job c.extraNonce).blob.take ((freshJob job c.extraNonce).blob.length - 8) := by
        rw [List.take_append_of_le_length (by rw [List.length_take, whole]; omega),
          List.take_take, whole, Nat.min_eq_left (by omega)]

theorem ppCheck_told (mining : Mining c.view job) (room : 8 ≤ job.prepowLen.toNat)
    (fits : job.prepowLen.toNat ≤ prepowSize) (jobid : UInt32) (nonce : List UInt8) :
    (Work.told (freshJob job c.extraNonce) jobid).ppCheck nonce =
      ppCheckJob c (load32 nonce) := by
  rw [Work.ppCheck, extraNonce_told room fits, ppCheckJob, ppData_told mining room fits,
    mining_height mining]
  simp only [Work.told, totalNonce]
  congr 1
  exact UInt64.ofNat_uInt32ToNat job.height

/-- The pool's check of a share is the one that the miner can make itself. -/
theorem verdict_told (mining : Mining c.view job) (room : 8 ≤ job.prepowLen.toNat)
    (fits : job.prepowLen.toNat ≤ prepowSize) (env : RequestEnv) (jobid : UInt32)
    {nonce : List UInt8} (size : nonce.length = 4) :
    (Work.told (freshJob job c.extraNonce) jobid).verdict env nonce =
      shareResult env c (load32 nonce) := by
  have algorithm : (Work.told (freshJob job c.extraNonce) jobid).algorithm =
      ascii (powTypeToStr c.curJob.type) := by
    rw [mining_type mining]
    rfl
  rw [Work.verdict, algorithm]
  unfold shareResult checkClientWork
  cases type : c.curJob.type with
  | randomx =>
      have check := rxCheck_told mining room fits type jobid size
      simp only [minedJob, type] at check
      rw [powTypeToStr, if_pos rfl, check]
  | progpow =>
      rw [powTypeToStr, if_neg (by decide), if_pos rfl, ppCheck_told mining room fits]
  | cuckoo => rw [powTypeToStr, if_neg (by decide), if_neg (by decide)]

theorem answer_told (mining : Mining c.view job) (room : 8 ≤ job.prepowLen.toNat)
    (fits : job.prepowLen.toNat ≤ prepowSize) (env : RequestEnv) (jobid : UInt32)
    {nonce : List UInt8} (size : nonce.length = 4) (callId : Int64) :
    (Work.told (freshJob job c.extraNonce) jobid).answer env nonce callId =
      shareReply env c callId (load32 nonce) := by
  rw [Work.answer, verdict_told mining room fits env jobid size, shareReply]
  rfl

end Verdicts

section Requests

open Client Session

variable {maxCallsPerMin : Nat} {parse : List UInt8 → Option Value} {env : RequestEnv} {c : Client}
  {w : Work} {doc : Value} {nonce : List UInt8}

theorem processLine_submits {line : List UInt8} (request : requestOf parse line = some doc)
    (submits : w.Submits doc nonce) (size : nonce.length = 4)
    (current : w.jobId = bin2hex (store32 c.jobid))
    (within : (countCall env.time c).floodCount.toNat ≤ maxCallsPerMin) :
    processLine maxCallsPerMin parse env c line =
      .ok (true, checkShare env (countCall env.time c) (answerId doc) (load32 nonce)) := by
  obtain ⟨args, hash, method, params, object, named, given, result⟩ := submits
  rw [requestOf] at request
  split at request
  · cases request
  · rename_i nonempty
    obtain ⟨parsed, _⟩ := Option.filter_eq_some_iff.mp request
    have hands : HandsSubmit maxCallsPerMin parse env c line doc args :=
      ⟨nonempty, parsed, ⟨_, method, by decide⟩, ⟨params, object⟩, within⟩
    obtain ⟨callId, read, ran⟩ := processLine_of_handsSubmit hands
    have counted : (countCall env.time c).jobid = c.jobid :=
      congrArg View.jobid (view_countCall env.time c)
    have gate : submitGate (countCall env.time c) args = .ok (.ok (load32 nonce)) := by
      rw [current] at named
      rw [submitGate_eq_ok, counted]
      exact submits_wellFormed size named given result
    rw [ran, ← requestId_eq_answerId read, processMethodSubmit, gate]
    rfl

end Requests

section Forwarding

open Client Session

variable {c : Client} {job : JobData}

theorem input_told (room : 8 ≤ job.prepowLen.toNat) (fits : job.prepowLen.toNat ≤ prepowSize)
    (extraNonce jobid : UInt32) (nonce : List UInt8) :
    (Work.told (freshJob job extraNonce) jobid).input nonce =
      job.blob.take (job.blob.length - 8) ++ (store32 extraNonce ++ nonce) := by
  obtain ⟨tail, size, blob⟩ := exists_blob_freshJob job extraNonce room fits
  have before : (freshJob job extraNonce).blob.length - 4 =
      (job.blob.take (job.blob.length - 8) ++ store32 extraNonce).length := by
    rw [blob, List.length_append, List.length_append, List.length_append, size]
    omega
  change (freshJob job extraNonce).blob.take ((freshJob job extraNonce).blob.length - 4) ++ nonce =
    _
  rw [before, blob, ← List.append_assoc, List.take_left, List.append_assoc]

theorem submit_told (mining : Mining c.view job) (room : 8 ≤ job.prepowLen.toNat)
    (fits : job.prepowLen.toNat ≤ prepowSize) {env : RequestEnv} (jobid : UInt32)
    {nonce : List UInt8} (size : nonce.length = 4) {callId : Int64} {m : SubmitMessage}
    (sent : .submit m ∈ (checkShare env c callId (load32 nonce)).2) :
    let w := Work.told (freshJob job c.extraNonce) jobid
    m.height.toNat = w.height ∧ m.powhash = (w.verdict env nonce).hash ∧
      bytesBE 8 m.nonce.toNat = (w.input nonce).drop ((w.input nonce).length - 8) := by
  intro w
  obtain ⟨_, _, rfl⟩ := (submit_mem_checkShare env c callId (load32 nonce) m).mp sent
  refine ⟨?_, ?_, ?_⟩
  · have kept : (minedJob c (load32 nonce)).height = c.curJob.height := by
      rw [minedJob]
      split
      · rfl
      · rfl
    change (minedJob c (load32 nonce)).height.toNat = job.height.toNat
    rw [kept, mining_height mining]
  · rw [verdict_told mining room fits env jobid size]
    rfl
  · have eight : (store32 c.extraNonce ++ nonce).length = 8 := by
      rw [List.length_append, store32_length, size]
    rw [input_told room fits, List.length_append, eight, Nat.add_sub_cancel, List.drop_left]
    exact (fullNonce_bytesBE c (load32 nonce)).trans (by rw [store32_load32 nonce size])

end Forwarding

namespace Session

open Client

variable {maxCallsPerMin : Nat} {parse : List UInt8 → Option Value}
  {getEpochNumber : UInt64 → Int32} {s : Session}

variable (maxCallsPerMin parse s) in
/-- The shares of a miner with this work are answered as it can tell beforehand: whatever the
nonce, and whichever line says so. A block goes to the node with the height, the hash and
the nonce that the miner knows. -/
def AnswersAsRead (w : Work) : Prop :=
  ∀ env line doc nonce, requestOf parse line = some doc → w.Submits doc nonce →
    nonce.length = 4 → (countCall env.time s.client).floodCount.toNat ≤ maxCallsPerMin →
    ∃ out, processLine maxCallsPerMin parse env s.client line = .ok (true, out) ∧
      replies out.2 = [w.answer env nonce (answerId doc)] ∧
      ((∃ m, .submit m ∈ out.2) ↔ Accepted (w.verdict env nonce) ∧
        4096 < workToDiff (w.verdict env nonce).hash.getWork64) ∧
      ∀ m, .submit m ∈ out.2 → m.height.toNat = w.height ∧
        m.powhash = (w.verdict env nonce).hash ∧
        bytesBE 8 m.nonce.toNat = (w.input nonce).drop ((w.input nonce).length - 8)

theorem answersAsRead_told {job : JobData} (mining : Mining s.client.view job)
    (room : 8 ≤ job.prepowLen.toNat) (fits : job.prepowLen.toNat ≤ prepowSize) :
    AnswersAsRead maxCallsPerMin parse s
      (.told (freshJob job s.client.extraNonce) s.client.jobid) := by
  intro env line doc nonce request submits size within
  have view := view_countCall env.time s.client
  have counted : Mining (countCall env.time s.client).view job := by
    rw [view]
    exact mining
  have extraNonce : (countCall env.time s.client).extraNonce = s.client.extraNonce :=
    congrArg View.extraNonce view
  have ran := processLine_submits request submits size rfl within
  have verdict := verdict_told counted room fits env s.client.jobid size
  have answer := answer_told counted room fits env s.client.jobid size (answerId doc)
  rw [extraNonce] at verdict answer
  refine ⟨_, ran, ?_, ?_, ?_⟩
  · rw [replies_checkShare, answer]
  · rw [verdict]
    constructor
    · rintro ⟨m, sent⟩
      obtain ⟨accepted, large, _⟩ := (submit_mem_checkShare _ _ _ _ m).mp sent
      exact ⟨accepted, large⟩
    · rintro ⟨accepted, large⟩
      exact ⟨_, (submit_mem_checkShare _ _ _ _ _).mpr ⟨accepted, large, rfl⟩⟩
  · intro m sent
    have told := submit_told counted room fits s.client.jobid size sent
    rw [extraNonce] at told
    exact told

theorem lastJobLine_told (reached : (system maxCallsPerMin parse).Reachable s) {job : JobData}
    {jobid : UInt32} (message : lastMessage s.trace = some (jobMessage job jobid)) :
    ∃ line, lastJobLine s.trace = some (line ++ [0x0a]) ∧ 0x0a ∉ line ∧
      (JsonText.parse line).bind readWork = some (.told job jobid) := by
  obtain ⟨reply, sent, tells, last⟩ := lastJobLine_of_message message
  have printable := (reachable_sent reached reply (mem_replies.mpr sent)).printable
  refine ⟨reply.doc.print, ?_, ?_, ?_⟩
  · rw [last, reply.text_eq_print]
  · intro newline
    exact absurd (printable.visible _ newline) (by decide)
  · rw [parse_print printable]
    exact readWork_of_job (jobOf_reply tells)

/-- A miner needs nothing but the last job line that it was sent: read as JSON, it tells the
work from which the miner knows, for each of its nonces, how the pool will answer. -/
theorem shares_answered_as_read
    (reached : (system maxCallsPerMin parse).ReachableUnder
      (Supplied (Node.Published getEpochNumber)) s) (miner : s.client.loggedIn = true) :
    ∃ line w, lastJobLine s.trace = some (line ++ [0x0a]) ∧ 0x0a ∉ line ∧
      (JsonText.parse line).bind readWork = some w ∧ AnswersAsRead maxCallsPerMin parse s w := by
  have inv := reachable_inv Node.published_prepowLen reached
  obtain ⟨job, published, _, mining, message⟩ := inv.told miner
  obtain ⟨room, fits⟩ := Node.published_prepowLen job published
  obtain ⟨line, last, oneLine, read⟩ := lastJobLine_told reached.reachable message
  exact ⟨line, _, last, oneLine, read, answersAsRead_told mining room fits⟩

def readJobId (s : Session) : Option (List UInt8) :=
  (lastJobLine s.trace).bind (fun text =>
    ((JsonText.parse text.dropLast).bind readWork).map Work.jobId)

/-- A miner logs in, and its next line is a submit for the work that it has read. -/
theorem login_read_as_work :
    ∃ (s : Session) (line : List UInt8) (w : Work) (out : Client × List Effect),
      lastJobLine s.trace = some (line ++ [0x0a]) ∧
      (JsonText.parse line).bind readWork = some w ∧
      processLine 60 parseJson (plainEnv .zero) s.client (submitLine 2 1 0 .setAllZero) =
        .ok (true, out) ∧
      replies out.2 = [w.answer (plainEnv .zero) (store32 0) 2] := by
  have published : Node.Published (fun _ => 0) (Node.plainJob "randomx" 24) :=
    Node.plainJob_published "randomx" 24 (by decide +kernel)
  obtain ⟨s, reached, checks⟩ :=
    System.exists_reachableUnder (S := system 60 parseJson)
      (suppliesOnly (Node.plainJob "randomx" 24)) (suppliesOnly_supplied _ published)
      ⟨7, 0, .zero, rfl⟩ [.line (plainEnv (Node.plainJob "randomx" 24)) (loginLine 1)]
      (fun s => s.client.loggedIn && decide ((countCall 0 s.client).floodCount.toNat ≤ 60) &&
        readJobId s == some (bin2hex (store32 1))) (by decide +kernel)
  simp only [Bool.and_eq_true, decide_eq_true_eq, beq_iff_eq] at checks
  obtain ⟨⟨miner, within⟩, told⟩ := checks
  obtain ⟨line, w, last, _, read, answers⟩ := shares_answered_as_read reached miner
  rw [readJobId, last, Option.bind_some, List.dropLast_concat, read] at told
  have named : w.jobId = bin2hex (store32 1) := Option.some.inj told
  have request : requestOf parseJson (submitLine 2 1 0 .setAllZero) =
      some (valueOf (submitDoc 2 1 0 .setAllZero)) :=
    requestOf_lineOf (printable_submitDoc 2 1 0 .setAllZero) rfl
  have submits : w.Submits (valueOf (submitDoc 2 1 0 .setAllZero)) (store32 0) :=
    ⟨zeroSubmit 1, .setAllZero, rfl, rfl, rfl, by rw [named]; rfl, rfl, rfl⟩
  have id : answerId (valueOf (submitDoc 2 1 0 .setAllZero)) = 2 := by decide +kernel
  obtain ⟨out, ran, answered, _⟩ :=
    answers (plainEnv .zero) _ _ _ request submits (store32_length 0) within
  rw [id] at answered
  exact ⟨s, line, w, out, last, read, ran, answered⟩

end Session

end EpicPoold
