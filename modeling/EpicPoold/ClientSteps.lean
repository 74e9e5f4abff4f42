import EpicPoold.Client
import EpicPoold.NodeJobs

/-! What one request and one new block do to a client, said once for each operation. -/

namespace EpicPoold

open Foundations

namespace Effect

def job? : Effect → Option JobData
  | .getCurrentJob job => some job
  | _ => none

def message? : Effect → Option JobMessage
  | .send (.login _ message) => some message
  | .send (.job message) => some message
  | _ => none

end Effect

def lastJob (trace : List Effect) : Option JobData := (trace.filterMap Effect.job?).getLast?

def lastMessage (trace : List Effect) : Option JobMessage :=
  (trace.filterMap Effect.message?).getLast?

def Quiet (effects : List Effect) : Prop :=
  ∀ e ∈ effects, e.job? = none ∧ e.message? = none

theorem lastJob_append_quiet (trace effects : List Effect) (quiet : Quiet effects) :
    lastJob (trace ++ effects) = lastJob trace := by
  have none : effects.filterMap Effect.job? = [] := by
    rw [List.filterMap_eq_nil_iff]
    exact fun e member => (quiet e member).1
  rw [lastJob, List.filterMap_append, none, List.append_nil, lastJob]

theorem lastMessage_append_quiet (trace effects : List Effect) (quiet : Quiet effects) :
    lastMessage (trace ++ effects) = lastMessage trace := by
  have none : effects.filterMap Effect.message? = [] := by
    rw [List.filterMap_eq_nil_iff]
    exact fun e member => (quiet e member).2
  rw [lastMessage, List.filterMap_append, none, List.append_nil, lastMessage]

namespace Client

/-- The part of a client that decides which shares are checked and over what. -/
structure View where
  loggedIn : Bool
  jobid : UInt32
  curJob : JobData
  extraNonce : UInt32

def view (c : Client) : View := ⟨c.loggedIn, c.jobid, c.curJob, c.extraNonce⟩

@[simp] theorem view_countCall (time : Int) (c : Client) : (countCall time c).view = c.view := by
  rw [countCall]
  split <;> rfl

@[simp] theorem view_netSend (env : RequestEnv) (c : Client) (reply : Reply) :
    (netSend env c reply).1.view = c.view := by
  rw [netSend]
  split <;> rfl

theorem quiet_netSend (env : RequestEnv) (c : Client) (reply : Reply)
    (plain : (Effect.send reply).message? = none) : Quiet (netSend env c reply).2 := by
  intro e member
  simp only [netSend, List.mem_cons, List.not_mem_nil, or_false] at member
  rcases member with rfl | rfl
  · exact ⟨rfl, rfl⟩
  · exact ⟨rfl, plain⟩

section Submits

/-- A well-formed submit request: three strings of the required lengths, of which the
first two are the hex texts of a job id and a nonce. -/
def WellFormed (args : Value) (jobid nonce : UInt32) : Prop :=
  ∃ jobText nonceText resultText : List UInt8,
    getObjectMember args "job_id" = .ok (some (.string jobText)) ∧ jobText.length = 8 ∧
    hex2bin jobText 8 = (true, store32 jobid) ∧
    getObjectMember args "nonce" = .ok (some (.string nonceText)) ∧ nonceText.length = 8 ∧
    hex2bin nonceText 8 = (true, store32 nonce) ∧
    getObjectMember args "result" = .ok (some (.string resultText)) ∧ resultText.length = 64 ∧
    (hex2bin (resultText.drop 48) 16).1 = true

theorem findMember_total {obj : Value} {key : String} {member : Option Value}
    (found : getObjectMember obj key = .ok member) (other : String) :
    ∃ member, getObjectMember obj other = .ok member := by
  cases obj with
  | object members => exact ⟨_, rfl⟩
  | null | bool _ | number _ | string _ | array _ => cases found

theorem isString_eq_true (v : Value) : v.isString = true ↔ ∃ text, v = .string text := by
  cases v <;> simp [Value.isString]

theorem hex2bin_eight {text : List UInt8} (decoded : (hex2bin text 8).1 = true) :
    hex2bin text 8 = (true, store32 (load32 (hex2bin text 8).2)) := by
  have four : (hex2bin text 8).2.length = 4 := (hex2binLoop_length 4 text).2 decoded
  rw [store32_load32 _ four, ← decoded]

theorem submitArgs_eq_ok (args : Value) (a : SubmitArgs) :
    submitArgs args = .ok (.ok a) → WellFormed args a.netJobid a.nonce := by
  intro accepted
  simp only [submitArgs, bind_eq_ok] at accepted
  obtain ⟨sJobid, jobFound, sNonce, nonceFound, sResult, resultFound, _, _, accepted⟩ := accepted
  split at accepted
  · rename_i job nonce result
    split at accepted
    · rw [pure_eq_ok] at accepted
      cases accepted
    · rename_i strings
      simp only [Bool.or_eq_true, Bool.not_eq_true', not_or, Bool.not_eq_false,
        isString_eq_true] at strings
      obtain ⟨⟨⟨jobText, rfl⟩, nonceText, rfl⟩, resultText, rfl⟩ := strings
      simp only [Value.getString, bind, Except.bind] at accepted
      split at accepted
      · cases accepted
      · rename_i lengths
        simp only [not_or, not_not] at lengths
        obtain ⟨jobLength, nonceLength, resultLength⟩ := lengths
        split at accepted
        · cases accepted
        · rename_i jobDecoded
          split at accepted
          · cases accepted
          · rename_i nonceDecoded
            split at accepted
            · cases accepted
            · rename_i resultDecoded
              rw [Bool.not_eq_true', Bool.not_eq_false] at jobDecoded nonceDecoded resultDecoded
              cases accepted
              exact ⟨jobText, nonceText, resultText, jobFound, jobLength,
                hex2bin_eight jobDecoded, nonceFound, nonceLength, hex2bin_eight nonceDecoded,
                resultFound, resultLength, resultDecoded⟩
  · cases accepted

/-- The tests before check_client_work let through the well-formed requests that name
the client's own job counter, and no others. -/
theorem submitGate_eq_ok (c : Client) (args : Value) (nonce : UInt32) :
    submitGate c args = .ok (.ok nonce) ↔ WellFormed args c.jobid nonce := by
  constructor
  · intro passed
    rw [submitGate, bind_eq_ok] at passed
    obtain ⟨outcome, decoded, passed⟩ := passed
    cases outcome with
    | error msg => cases passed
    | ok a =>
        simp only at passed
        split at passed
        · cases passed
        · rename_i same
          have wellFormed := submitArgs_eq_ok args a decoded
          cases passed
          rwa [not_not.mp same] at wellFormed
  · rintro ⟨jobText, nonceText, resultText, jobFound, jobLength, jobDecoded, nonceFound,
      nonceLength, nonceDecoded, resultFound, resultLength, resultDecoded⟩
    obtain ⟨count, countFound⟩ := findMember_total jobFound "hashcount_total"
    simp [submitGate, submitArgs, jobFound, nonceFound, resultFound, countFound, bind,
      Except.bind, pure, Except.pure, Value.isString, Value.getString, jobLength, nonceLength,
      resultLength, jobDecoded, nonceDecoded, resultDecoded, load32_store32]

end Submits

section Shares

variable (env : RequestEnv) (c : Client) (callId : Int64) (nonce : UInt32)

def minedJob : JobData :=
  match c.curJob.type with
  | .randomx => (copyBack c.curJob 4 (store32 nonce)).1
  | _ => c.curJob

def shareResult : CheckJob := (checkClientWork env c nonce).2.1

theorem checkClientWork_view :
    (checkClientWork env c nonce).1.view = { c.view with curJob := minedJob c nonce } := by
  unfold checkClientWork minedJob
  cases c.curJob.type <;> rfl

/-- check_client_work touches arrays and asks a hash pool, nothing else. -/
def Hashing (e : Effect) : Prop :=
  (∃ a, e = .access a) ∨ (∃ job, e = .rxCheck job) ∨ ∃ job, e = .ppCheck job

theorem checkClientWork_effects (e : Effect)
    (member : e ∈ (checkClientWork env c nonce).2.2) : Hashing e := by
  unfold checkClientWork at member
  split at member
  · simp only [List.cons_append, List.nil_append, List.mem_cons] at member
    rcases member with rfl | rfl | member
    · exact .inl ⟨_, rfl⟩
    · exact .inr (.inl ⟨_, rfl⟩)
    · split at member
      · cases member
      · simp only [hashAccesses, hexAccess, List.mem_cons, List.not_mem_nil, or_false] at member
        rcases member with rfl | rfl <;> exact .inl ⟨_, rfl⟩
  · simp only [List.mem_cons] at member
    rcases member with rfl | member
    · exact .inr (.inr ⟨_, rfl⟩)
    · split at member
      · cases member
      · simp only [hashAccesses, hexAccess, List.mem_cons, List.not_mem_nil, or_false] at member
        rcases member with rfl | rfl <;> exact .inl ⟨_, rfl⟩
  · cases member

def Accepted (result : CheckJob) : Prop :=
  result.error = false ∧ result.hash.getWork32 ≤ 0xffffffff / fixDiff

instance (result : CheckJob) : Decidable (Accepted result) :=
  inferInstanceAs (Decidable (_ ∧ _))

def shareReply : Reply :=
  if (shareResult env c nonce).error then .error callId "Server error while checking share."
  else if 0xffffffff / fixDiff < (shareResult env c nonce).hash.getWork32 then
    .error callId "Bad share"
  else .status callId

def forwarded : List Effect :=
  if Accepted (shareResult env c nonce) ∧
      4096 < workToDiff (shareResult env c nonce).hash.getWork64 then
    [.submit (sendJobResult (minedJob c nonce) (c.fullNonce nonce) (shareResult env c nonce).hash)]
  else []

theorem checkShare_eq :
    checkShare env c callId nonce =
      let checked := checkClientWork env c nonce
      let replied := netSend env checked.1 (shareReply env c callId nonce)
      (replied.1,
        .checkClientWork nonce :: checked.2.2 ++ (forwarded env c nonce ++ replied.2)) := by
  have view := checkClientWork_view env c nonce
  have curJob : (checkClientWork env c nonce).1.curJob = minedJob c nonce :=
    congrArg View.curJob view
  have extraNonce : (checkClientWork env c nonce).1.extraNonce = c.extraNonce :=
    congrArg View.extraNonce view
  rcases error : (shareResult env c nonce).error with _ | _
  · by_cases high : 0xffffffff / fixDiff < (shareResult env c nonce).hash.getWork32
    · have rejected : ¬ Accepted (shareResult env c nonce) :=
        fun accepted => absurd accepted.2 (UInt32.not_le.mpr high)
      have none : forwarded env c nonce = [] := if_neg (fun both => rejected both.1)
      have reply : shareReply env c callId nonce = .error callId "Bad share" := by
        rw [shareReply, if_neg (by simp [error]), if_pos high]
      rw [none, reply]
      simp only [shareResult] at error high
      simp [checkShare, error, high, sendErrorResponse]
    · have accepted : Accepted (shareResult env c nonce) := ⟨error, UInt32.not_lt.mp high⟩
      have reply : shareReply env c callId nonce = .status callId := by
        rw [shareReply, if_neg (by simp [error]), if_neg high]
      rw [reply, forwarded]
      by_cases large : 4096 < workToDiff (shareResult env c nonce).hash.getWork64
      · rw [if_pos ⟨accepted, large⟩]
        simp only [shareResult] at error high large
        simp [checkShare, error, high, large, curJob, fullNonce, extraNonce, shareResult]
      · rw [if_neg (fun both => large both.2)]
        simp only [shareResult] at error high large
        simp [checkShare, error, high, large]
  · have rejected : ¬ Accepted (shareResult env c nonce) :=
      fun accepted => Bool.noConfusion (error.symm.trans accepted.1)
    have none : forwarded env c nonce = [] := if_neg (fun both => rejected both.1)
    have reply : shareReply env c callId nonce =
        .error callId "Server error while checking share." := by
      rw [shareReply, if_pos error]
    rw [none, reply]
    simp only [shareResult] at error
    simp [checkShare, error, sendErrorResponse]

@[simp] theorem view_checkShare :
    (checkShare env c callId nonce).1.view = { c.view with curJob := minedJob c nonce } := by
  rw [checkShare_eq]
  simp only [view_netSend, checkClientWork_view]

theorem mem_forwarded (e : Effect) :
    e ∈ forwarded env c nonce ↔
      Accepted (shareResult env c nonce) ∧
        4096 < workToDiff (shareResult env c nonce).hash.getWork64 ∧
        e = .submit
          (sendJobResult (minedJob c nonce) (c.fullNonce nonce)
            (shareResult env c nonce).hash) := by
  rw [forwarded]
  split
  · rename_i both
    simp [both.1, both.2]
  · rename_i neither
    simp only [List.not_mem_nil, false_iff, not_and]
    exact fun accepted diff => absurd ⟨accepted, diff⟩ neither

theorem mem_checkShare (e : Effect) :
    e ∈ (checkShare env c callId nonce).2 ↔
      e = .checkClientWork nonce ∨ e ∈ (checkClientWork env c nonce).2.2 ∨
        e ∈ forwarded env c nonce ∨
        e ∈ (netSend env c (shareReply env c callId nonce)).2 := by
  rw [checkShare_eq]
  simp only [netSend, List.cons_append, List.mem_cons, List.mem_append]

/-- What a check does beside hashing: the call itself, the message to the node and the
reply. -/
theorem mem_checkShare_of_not_hashing (e : Effect) (outward : ¬ Hashing e) :
    e ∈ (checkShare env c callId nonce).2 ↔
      e = .checkClientWork nonce ∨ e ∈ forwarded env c nonce ∨
        e = .send (shareReply env c callId nonce) := by
  have unhashed : e ∉ (checkClientWork env c nonce).2.2 :=
    fun member => outward (checkClientWork_effects env c nonce e member)
  have untouched : ∀ a, e ≠ .access a := fun a equal => outward (.inl ⟨a, equal⟩)
  simp [mem_checkShare, unhashed, netSend, untouched]

theorem submit_mem_checkShare (m : SubmitMessage) :
    .submit m ∈ (checkShare env c callId nonce).2 ↔
      Accepted (shareResult env c nonce) ∧
        4096 < workToDiff (shareResult env c nonce).hash.getWork64 ∧
        m = sendJobResult (minedJob c nonce) (c.fullNonce nonce)
          (shareResult env c nonce).hash := by
  rw [mem_checkShare_of_not_hashing _ _ _ _ _ (by simp [Hashing]), mem_forwarded]
  simp

theorem quiet_checkShare : Quiet (checkShare env c callId nonce).2 := by
  intro e member
  rcases (mem_checkShare env c callId nonce e).mp member with rfl | hashed | sent | replied
  · exact ⟨rfl, rfl⟩
  · rcases checkClientWork_effects env c nonce e hashed with ⟨_, rfl⟩ | ⟨_, rfl⟩ | ⟨_, rfl⟩
    all_goals exact ⟨rfl, rfl⟩
  · obtain ⟨_, _, rfl⟩ := (mem_forwarded env c nonce e).mp sent
    exact ⟨rfl, rfl⟩
  · have plain : (Effect.send (shareReply env c callId nonce)).message? = none := by
      rw [shareReply]
      split
      · rfl
      · split <;> rfl
    exact quiet_netSend env c _ plain e replied

end Shares

section Jobs

variable (env : RequestEnv) (c : Client) (callId : Int64)

def freshJob (job : JobData) (extraNonce : UInt32) : JobData :=
  (copyBack job 8 (store32 extraNonce)).1

def View.given (v : View) (job : JobData) : View where
  loggedIn := true
  jobid := v.jobid + 1
  curJob := freshJob job v.extraNonce
  extraNonce := v.extraNonce

def giveEffects (job : JobData) (extraNonce : UInt32) : List Effect :=
  let fresh := copyBack job 8 (store32 extraNonce)
  [.getCurrentJob job, .access fresh.2, .access ⟨.prepow, 0, job.prepowLen.toNat⟩,
    hexAccess .hexBlob job.prepowLen.toNat, hexAccess .hexJobid 4, hexAccess .hexTarget 4,
    hexAccess .seedHash 32]

def View.message (v : View) : JobMessage := jobMessage v.curJob v.jobid

theorem giveFirstJob_given :
    (giveFirstJob env c callId).1.view = c.view.given env.currentJob ∧
      (giveFirstJob env c callId).2 = giveEffects env.currentJob c.extraNonce ++
        (netSend env c (.login callId (c.view.given env.currentJob).message)).2 := by
  refine ⟨?_, rfl⟩
  simp only [giveFirstJob, getNewJob, prepareJob, netSend]
  cases env.writeOk <;> rfl

theorem processMethodLogin_eq_ok {env : RequestEnv} {c : Client} {callId : Int64} {args : Value}
    {out : Client × List Effect} (ran : processMethodLogin env c callId args = .ok out) :
    (c.loggedIn = true ∧ out = netSend env c (.error callId "You are logged in.")) ∨
      (c.loggedIn = false ∧ out = giveFirstJob env c callId) := by
  rw [processMethodLogin] at ran
  cases miner : c.loggedIn with
  | true =>
      rw [miner, if_pos rfl, pure_eq_ok] at ran
      exact .inl ⟨rfl, ran.symm⟩
  | false =>
      rw [miner, if_neg Bool.false_ne_true, bind_eq_ok] at ran
      obtain ⟨_, _, ran⟩ := ran
      rw [bind_eq_ok] at ran
      obtain ⟨_, _, ran⟩ := ran
      rw [pure_eq_ok] at ran
      exact .inr ⟨rfl, ran.symm⟩

theorem onNewBlock_aborting (aborting : c.aborting = true) :
    onNewBlock env c = (false, c, []) := by
  simp [onNewBlock, aborting]

theorem onNewBlock_stranger (alive : c.aborting = false) (stranger : c.loggedIn = false) :
    onNewBlock env c =
      (true, { c with curJob := env.currentJob, jobid := c.jobid + 1 },
        [.getCurrentJob env.currentJob]) := by
  simp [onNewBlock, alive, stranger, getNewJob]

theorem onNewBlock_miner (alive : c.aborting = false) (miner : c.loggedIn = true) :
    (onNewBlock env c).1 = true ∧
      (onNewBlock env c).2.1.view = c.view.given env.currentJob ∧
      (onNewBlock env c).2.2 = giveEffects env.currentJob c.extraNonce ++
        (netSend env c (.job (c.view.given env.currentJob).message)).2 := by
  simp only [onNewBlock, alive, miner, getNewJob]
  refine ⟨rfl, ?_, rfl⟩
  simp only [prepareJob, netSend]
  cases env.writeOk <;> simp [view, miner, View.given, freshJob, hardAbort]

end Jobs

section Requests

/-- What a request does: it gets a reply without a job, or logs the client in, or has a
share checked. `counted` is the client with its flood counter moved on. -/
inductive Handled (env : RequestEnv) (c : Client) : Client × List Effect → Prop
  | answered (counted : Client) (reply : Reply) (same : counted.view = c.view)
      (plain : (Effect.send reply).message? = none) : Handled env c (netSend env counted reply)
  | login (counted : Client) (callId : Int64) (same : counted.view = c.view)
      (fresh : c.loggedIn = false) : Handled env c (giveFirstJob env counted callId)
  | share (counted : Client) (callId : Int64) (args : Value) (nonce : UInt32)
      (same : counted.view = c.view) (wellFormed : WellFormed args c.jobid nonce) :
      Handled env c (checkShare env counted callId nonce)

variable {env : RequestEnv} {c : Client}

theorem processMethodSubmit_handled (counted : Client) (same : counted.view = c.view)
    (callId : Int64) (args : Value) (out : Client × List Effect)
    (ran : processMethodSubmit env counted callId args = .ok out) : Handled env c out := by
  rw [processMethodSubmit, bind_eq_ok] at ran
  obtain ⟨outcome, gate, ran⟩ := ran
  cases outcome with
  | error msg =>
      rw [pure_eq_ok] at ran
      subst ran
      exact .answered counted _ same rfl
  | ok nonce =>
      rw [pure_eq_ok] at ran
      subst ran
      have wellFormed := (submitGate_eq_ok counted args nonce).mp gate
      have jobid : counted.jobid = c.jobid := congrArg View.jobid same
      rw [jobid] at wellFormed
      exact .share counted callId args nonce same wellFormed

theorem processMethodLogin_handled (counted : Client) (same : counted.view = c.view)
    (callId : Int64) (args : Value) (out : Client × List Effect)
    (ran : processMethodLogin env counted callId args = .ok out) : Handled env c out := by
  have loggedIn : counted.loggedIn = c.loggedIn := congrArg View.loggedIn same
  rcases processMethodLogin_eq_ok ran with ⟨_, rfl⟩ | ⟨stranger, rfl⟩
  · exact .answered counted _ same rfl
  · exact .login counted callId same (loggedIn.symm.trans stranger)

theorem dispatch_handled (counted : Client) (same : counted.view = c.view) (callId : Int64)
    (args : Value) (method : Method) (out : Client × List Effect)
    (ran : dispatch env counted callId args method = .ok out) : Handled env c out := by
  cases method with
  | submit => exact processMethodSubmit_handled counted same callId args out ran
  | login => exact processMethodLogin_handled counted same callId args out ran
  | keepalive =>
      rw [dispatch, pure_eq_ok] at ran
      subst ran
      exact .answered counted _ same rfl

theorem getObjectMember_total (obj : Value) (key : String) (object : obj.isObject = true) :
    ∃ member, getObjectMember obj key = .ok member := by
  cases obj with
  | object members => exact ⟨_, rfl⟩
  | null | bool _ | number _ | string _ | array _ => cases object

theorem requestId_total (doc : Value) (object : doc.isObject = true) :
    ∃ callId, requestId doc = .ok callId := by
  obtain ⟨member, found⟩ := getObjectMember_total doc "id" object
  simp only [requestId, found, bind, Except.bind]
  split
  · rename_i cid
    split
    · rename_i integer
      cases cid with
      | number v =>
          cases v with
          | integer value inRange =>
              simp only [Value.getInt64, Value.getInteger, integer, if_true]
              exact ⟨_, rfl⟩
          | double => cases integer
      | null | bool _ | string _ | array _ | object _ => cases integer
    · exact ⟨_, rfl⟩
  · exact ⟨_, rfl⟩

variable {maxCallsPerMin : Nat} {parse : List UInt8 → Option Value}

variable (maxCallsPerMin parse) in
/-- A line that process_line calls process_method_submit for. -/
structure HandsSubmit (env : RequestEnv) (c : Client) (buf : List UInt8) (doc args : Value) :
    Prop where
  nonempty : buf ≠ []
  parsed : parse (cstr buf.dropLast) = some doc
  method : ∃ name, getObjectMember doc "method" = .ok (some (.string name)) ∧
    findMethod name = some .submit
  params : getObjectMember doc "params" = .ok (some args) ∧ args.isObject = true
  within : (countCall env.time c).floodCount.toNat ≤ maxCallsPerMin

theorem processLine_of_handsSubmit {buf : List UInt8} {doc args : Value}
    (hands : HandsSubmit maxCallsPerMin parse env c buf doc args) :
    ∃ callId, requestId doc = .ok callId ∧ processLine maxCallsPerMin parse env c buf =
        (processMethodSubmit env (countCall env.time c) callId args).map
          (fun out => (true, out)) := by
  obtain ⟨nonempty, parsed, ⟨name, named, known⟩, ⟨given, object⟩, within⟩ := hands
  have docObject : doc.isObject = true := by
    cases doc with
    | object => rfl
    | null | bool _ | number _ | string _ | array _ => cases named
  obtain ⟨callId, read⟩ := requestId_total doc docObject
  refine ⟨callId, read, ?_⟩
  have request : processRequest maxCallsPerMin env c doc =
      processMethodSubmit env (countCall env.time c) callId args := by
    simp only [processRequest, read, named, given, object, bind, Except.bind, Value.isString,
      Value.getString, Bool.not_true, Bool.or_self, Bool.false_eq_true, if_false,
      if_neg (Nat.not_lt.mpr within), known, dispatch]
  rw [processLine, if_neg (by simpa using nonempty), parsed]
  simp only [docObject, Bool.not_true, Bool.false_eq_true, if_false, request]
  cases processMethodSubmit env (countCall env.time c) callId args with
  | error e => rfl
  | ok out => rfl

theorem processRequest_handled (doc : Value) (out : Client × List Effect)
    (ran : processRequest maxCallsPerMin env c doc = .ok out) : Handled env c out := by
  simp only [processRequest, bind_eq_ok] at ran
  obtain ⟨callId, _, method, _, args, _, ran⟩ := ran
  split at ran
  · split at ran
    · rw [pure_eq_ok] at ran
      subst ran
      exact .answered c _ rfl rfl
    · split at ran
      · rw [pure_eq_ok] at ran
        subst ran
        exact .answered _ _ (view_countCall _ _) rfl
      · rw [bind_eq_ok] at ran
        obtain ⟨text, _, ran⟩ := ran
        split at ran
        · exact dispatch_handled _ (view_countCall _ _) _ _ _ out ran
        · rw [pure_eq_ok] at ran
          subst ran
          exact .answered _ _ (view_countCall _ _) rfl
  · rw [pure_eq_ok] at ran
    subst ran
    exact .answered c _ rfl rfl

theorem processLine_handled (buf : List UInt8) (accepted : Bool) (after : Client)
    (effects : List Effect)
    (ran : processLine maxCallsPerMin parse env c buf = .ok (accepted, after, effects)) :
    (accepted = false ∧ after = c ∧ effects = []) ∨
      (accepted = true ∧ Handled env c (after, effects)) := by
  rw [processLine] at ran
  split at ran
  · cases ran
    exact .inl ⟨rfl, rfl, rfl⟩
  · split at ran
    · cases ran
      exact .inl ⟨rfl, rfl, rfl⟩
    · split at ran
      · cases ran
        exact .inl ⟨rfl, rfl, rfl⟩
      · rw [bind_eq_ok] at ran
        obtain ⟨out, handled, ran⟩ := ran
        cases ran
        exact .inr ⟨rfl, processRequest_handled _ _ handled⟩

end Requests

section Connections

structure Io where
  fd : Int
  aborting : Bool
  recvBuf : SockBuffer
  deriving DecidableEq

def io (c : Client) : Io := ⟨c.fd, c.aborting, c.recvBuf⟩

def Io.replied (env : RequestEnv) (io : Io) : Io :=
  { io with aborting := io.aborting || !env.writeOk }

@[simp] theorem io_countCall (time : Int) (c : Client) : (countCall time c).io = c.io := by
  rw [countCall]
  split
  · rfl
  · rfl

@[simp] theorem io_netSend (env : RequestEnv) (c : Client) (reply : Reply) :
    (netSend env c reply).1.io = c.io.replied env := by
  rw [netSend]
  cases written : env.writeOk with
  | true => simp [Io.replied, io, written]
  | false => simp [Io.replied, io, hardAbort, written]

theorem io_checkShare (env : RequestEnv) (c : Client) (callId : Int64) (nonce : UInt32) :
    (checkShare env c callId nonce).1.io = c.io.replied env := by
  have hashed : (checkClientWork env c nonce).1.io = c.io := by
    unfold checkClientWork
    cases c.curJob.type <;> rfl
  rw [checkShare_eq]
  simp only [io_netSend, hashed]

theorem io_giveFirstJob (env : RequestEnv) (c : Client) (callId : Int64) :
    (giveFirstJob env c callId).1.io = c.io.replied env := by
  unfold giveFirstJob
  exact io_netSend env _ _

theorem io_onNewBlock (env : RequestEnv) (c : Client) :
    (onNewBlock env c).2.1.io =
      if c.aborting = false ∧ c.loggedIn = true then c.io.replied env else c.io := by
  unfold onNewBlock
  split
  · rename_i aborting
    rw [if_neg (by simp [aborting])]
  · rename_i alive
    cases miner : c.loggedIn with
    | false =>
        simp only [getNewJob, miner, Bool.not_false, if_true, and_false, Bool.false_eq_true,
          if_false]
        rfl
    | true =>
        rw [if_pos ⟨by simpa using alive, rfl⟩]
        simp only [getNewJob, prepareJob, miner, Bool.not_true, Bool.false_eq_true, if_false,
          io_netSend]
        rfl

theorem fd_onNewBlock (env : RequestEnv) (c : Client) : (onNewBlock env c).2.1.fd = c.fd := by
  have same := congrArg Io.fd (io_onNewBlock env c)
  split at same
  · exact same
  · exact same

theorem dispatch_io {env : RequestEnv} {c : Client} {callId : Int64} {args : Value}
    {method : Method} {out : Client × List Effect}
    (ran : dispatch env c callId args method = .ok out) : out.1.io = c.io.replied env := by
  cases method with
  | submit =>
      rw [dispatch, processMethodSubmit, bind_eq_ok] at ran
      obtain ⟨outcome, _, ran⟩ := ran
      cases outcome with
      | error msg =>
          rw [pure_eq_ok] at ran
          subst ran
          exact io_netSend env c _
      | ok nonce =>
          rw [pure_eq_ok] at ran
          subst ran
          exact io_checkShare env c callId nonce
  | login =>
      rcases processMethodLogin_eq_ok ran with ⟨_, rfl⟩ | ⟨_, rfl⟩
      · exact io_netSend env c _
      · exact io_giveFirstJob env c callId
  | keepalive =>
      rw [dispatch, pure_eq_ok] at ran
      subst ran
      exact io_netSend env c _

variable {maxCallsPerMin : Nat} {parse : List UInt8 → Option Value}

theorem processRequest_io {env : RequestEnv} {c : Client} {doc : Value}
    {out : Client × List Effect} (ran : processRequest maxCallsPerMin env c doc = .ok out) :
    out.1.io = c.io.replied env := by
  have counted := io_countCall env.time c
  simp only [processRequest, bind_eq_ok] at ran
  obtain ⟨callId, _, method, _, args, _, ran⟩ := ran
  split at ran
  · split at ran
    · rw [pure_eq_ok] at ran
      subst ran
      exact io_netSend env c _
    · split at ran
      · rw [pure_eq_ok] at ran
        subst ran
        rw [← counted]
        exact io_netSend env _ _
      · rw [bind_eq_ok] at ran
        obtain ⟨text, _, ran⟩ := ran
        rw [← counted]
        split at ran
        · exact dispatch_io ran
        · rw [pure_eq_ok] at ran
          subst ran
          exact io_netSend env _ _
  · rw [pure_eq_ok] at ran
    subst ran
    exact io_netSend env c _

variable (parse) in
def accepts (line : List UInt8) : Bool :=
  !line.isEmpty && ((parse (cstr line.dropLast)).map Value.isObject).getD false

theorem processLine_io {env : RequestEnv} {c : Client} {buf : List UInt8} {accepted : Bool}
    {after : Client} {effects : List Effect}
    (ran : processLine maxCallsPerMin parse env c buf = .ok (accepted, after, effects)) :
    accepted = accepts parse buf ∧
      after.io = if accepted then c.io.replied env else c.io := by
  rw [processLine] at ran
  split at ran
  · rename_i empty
    cases ran
    exact ⟨by simp [accepts, List.length_eq_zero_iff.mp empty], rfl⟩
  · rename_i nonempty
    have some : buf.isEmpty = false := by simpa [List.isEmpty_iff_length_eq_zero] using nonempty
    split at ran
    · rename_i unparsed
      cases ran
      exact ⟨by simp [accepts, unparsed], rfl⟩
    · rename_i doc parsed
      split at ran
      · rename_i other
        cases ran
        exact ⟨by simpa [accepts, some, parsed] using other, rfl⟩
      · rename_i object
        rw [bind_eq_ok] at ran
        obtain ⟨out, handled, ran⟩ := ran
        cases ran
        refine ⟨?_, processRequest_io handled⟩
        simp only [accepts, some, parsed, Option.map_some, Option.getD_some, Bool.not_false,
          Bool.true_and]
        simpa using object

theorem processLine_fd {env : RequestEnv} {c : Client} {buf : List UInt8} {accepted : Bool}
    {after : Client} {effects : List Effect}
    (ran : processLine maxCallsPerMin parse env c buf = .ok (accepted, after, effects)) :
    after.fd = c.fd := by
  have same := congrArg Io.fd (processLine_io ran).2
  split at same
  · exact same
  · exact same

end Connections

section Reads

variable {maxCallsPerMin : Nat} {parse : List UInt8 → Option Value}
  {request : Nat → RequestEnv}

variable (maxCallsPerMin parse request) in
inductive LineTurns :
    Nat → Nat → Nat → Client → Bool → Nat → Client → List Effect → Nat → Prop
  | out (handled lnstart : Nat) (c : Client) :
      LineTurns 0 handled lnstart c true lnstart c [] handled
  | done (turns handled lnstart : Nat) (c : Client)
      (none : (c.recvBuf.buf.read lnstart c.recvBuf.len).findIdx? (· = 0x0a) = none) :
      LineTurns (turns + 1) handled lnstart c true lnstart c [] handled
  | rejected (turns handled lnstart i : Nat) (c after : Client) (effects : List Effect)
      (found : (c.recvBuf.buf.read lnstart c.recvBuf.len).findIdx? (· = 0x0a) = some i)
      (ran : processLine maxCallsPerMin parse (request handled) c
        (c.recvBuf.buf.read lnstart (i + 1)) = .ok (false, after, effects)) :
      LineTurns (turns + 1) handled lnstart c false lnstart after effects (handled + 1)
  | accepted (turns handled lnstart i : Nat) (c middle : Client) (first : List Effect)
      (fine : Bool) (rest : Nat) (after : Client) (more : List Effect) (total : Nat)
      (found : (c.recvBuf.buf.read lnstart c.recvBuf.len).findIdx? (· = 0x0a) = some i)
      (ran : processLine maxCallsPerMin parse (request handled) c
        (c.recvBuf.buf.read lnstart (i + 1)) = .ok (true, middle, first))
      (later : LineTurns turns (handled + 1) (lnstart + (i + 1))
        { middle with recvBuf := { middle.recvBuf with len := middle.recvBuf.len - (i + 1) } }
        fine rest after more total) :
      LineTurns (turns + 1) handled lnstart c fine rest after (first ++ more) total

theorem lineLoop_turns (turns : Nat) :
    ∀ (handled lnstart : Nat) (c : Client) (fine : Bool) (rest : Nat) (after : Client)
      (effects : List Effect) (total : Nat),
      lineLoop maxCallsPerMin parse request turns handled lnstart c =
        .ok (fine, rest, after, effects, total) →
      LineTurns maxCallsPerMin parse request turns handled lnstart c fine rest after effects
        total := by
  induction turns with
  | zero =>
      intro handled lnstart c fine rest after effects total ran
      cases ran
      exact .out _ _ _
  | succ turns ih =>
      intro handled lnstart c fine rest after effects total ran
      rw [lineLoop] at ran
      split at ran
      · rename_i none
        cases ran
        exact .done _ _ _ _ none
      · rename_i i found
        simp only [bind_eq_ok] at ran
        obtain ⟨⟨accepted, middle, first⟩, processed, ran⟩ := ran
        cases accepted with
        | false =>
            cases ran
            exact .rejected _ _ _ i _ _ _ found processed
        | true =>
            simp only [Bool.not_true, Bool.false_eq_true, if_false, bind_eq_ok] at ran
            obtain ⟨⟨fine', rest', after', more, total'⟩, looped, ran⟩ := ran
            cases ran
            exact .accepted _ _ _ i _ middle first _ _ _ more _ found processed
              (ih _ _ _ _ _ _ _ _ looped)

variable (maxCallsPerMin parse request) in
/-- The reads of one call of on_socket_read, to its return. A call for a client that is
aborting reads nothing. -/
inductive Reads : List ReadResult → Nat → Client → Bool → Client → List Effect → Prop
  | deaf (reads : List ReadResult) (handled : Nat) (c : Client) (aborting : c.aborting = true) :
      Reads reads handled c true c []
  | drained (handled : Nat) (c : Client) (alive : c.aborting = false) :
      Reads [] handled c true c []
  | waits (result : ReadResult) (rest : List ReadResult) (handled : Nat) (c : Client)
      (alive : c.aborting = false) (nothing : (netRecv c result).1 < 0) :
      Reads (result :: rest) handled c true (netRecv c result).2 []
  | closed (result : ReadResult) (rest : List ReadResult) (handled : Nat) (c : Client)
      (alive : c.aborting = false) (nothing : (netRecv c result).1 = 0) :
      Reads (result :: rest) handled c false (netRecv c result).2 []
  | filled (result : ReadResult) (rest : List ReadResult) (handled : Nat) (c : Client)
      (alive : c.aborting = false) (got : 0 < (netRecv c result).1)
      (full : sockBufSize ≤ (netRecv c result).2.recvBuf.len) :
      Reads (result :: rest) handled c false (netRecv c result).2.hardAbort []
  | rejected (result : ReadResult) (rest : List ReadResult) (handled : Nat) (c : Client)
      (lnstart : Nat) (middle : Client) (effects : List Effect) (total : Nat)
      (alive : c.aborting = false) (got : 0 < (netRecv c result).1)
      (room : (netRecv c result).2.recvBuf.len < sockBufSize)
      (lines : LineTurns maxCallsPerMin parse request (netRecv c result).2.recvBuf.len handled 0
        (netRecv c result).2 false lnstart middle effects total) :
      Reads (result :: rest) handled c false middle.hardAbort effects
  | goesOn (result : ReadResult) (rest : List ReadResult) (handled : Nat) (c : Client)
      (lnstart : Nat) (middle : Client) (first : List Effect) (total : Nat) (keep : Bool)
      (after : Client) (more : List Effect) (alive : c.aborting = false)
      (got : 0 < (netRecv c result).1)
      (room : (netRecv c result).2.recvBuf.len < sockBufSize)
      (lines : LineTurns maxCallsPerMin parse request (netRecv c result).2.recvBuf.len handled 0
        (netRecv c result).2 true lnstart middle first total)
      (later : Reads rest total (moveLeftover middle lnstart) keep after more) :
      Reads (result :: rest) handled c keep after (first ++ more)

theorem socketLoop_reads (reads : List ReadResult) :
    ∀ (handled : Nat) (c : Client) (keep : Bool) (after : Client) (effects : List Effect),
      socketLoop maxCallsPerMin parse request reads handled c = .ok (keep, after, effects) →
      Reads maxCallsPerMin parse request reads handled c keep after effects := by
  induction reads with
  | nil =>
      intro handled c keep after effects ran
      rw [socketLoop] at ran
      split at ran
      · rename_i aborting
        cases ran
        exact .deaf _ _ _ aborting
      · rename_i alive
        cases ran
        exact .drained _ _ (eq_false_of_ne_true alive)
  | cons result rest ih =>
      intro handled c keep after effects ran
      rw [socketLoop] at ran
      split at ran
      · rename_i aborting
        cases ran
        exact .deaf _ _ _ aborting
      · rename_i living
        have alive := eq_false_of_ne_true living
        simp only at ran
        split at ran
        · rename_i few
          cases ran
          by_cases nothing : (netRecv c result).1 = 0
          · simp only [nothing, ne_eq, not_true_eq_false, decide_false]
            exact .closed _ _ _ _ alive nothing
          · simp only [nothing, ne_eq, not_false_eq_true, decide_true]
            exact .waits _ _ _ _ alive (by omega)
        · rename_i some
          have got : 0 < (netRecv c result).1 := by omega
          split at ran
          · rename_i full
            cases ran
            exact .filled _ _ _ _ alive got full
          · rename_i open'
            have room := Nat.lt_of_not_le open'
            rw [bind_eq_ok] at ran
            obtain ⟨⟨fine, lnstart, middle, first, total⟩, looped, ran⟩ := ran
            have lines := lineLoop_turns _ _ _ _ _ _ _ _ _ looped
            cases fine with
            | false =>
                cases ran
                exact .rejected _ _ _ _ _ _ _ _ alive got room lines
            | true =>
                simp only [Bool.not_true, Bool.false_eq_true, if_false, bind_eq_ok] at ran
                obtain ⟨⟨keep', after', more⟩, looped', ran⟩ := ran
                cases ran
                exact .goesOn _ _ _ _ _ _ _ _ _ _ _ alive got room lines
                  (ih _ _ _ _ _ looped')

end Reads

end Client

end EpicPoold
