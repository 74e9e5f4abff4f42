import EpicPoold.Submission

/-! The job ids of a session: each job message carries the next number of the session's
own counter, and a submit is let through exactly when it names the last of them. -/

namespace EpicPoold

open Foundations

namespace Session

open Client

def fetches (trace : List Effect) : Nat := (trace.filterMap Effect.job?).length

def messages (trace : List Effect) : List JobMessage := trace.filterMap Effect.message?

def idText (n : Nat) : List UInt8 := bin2hex (store32 (UInt32.ofNat n))

/-- A well-formed submit with this nonce, whose job id text decodes to that of the
message. -/
def Names (args : Value) (message : JobMessage) (nonce : UInt32) : Prop :=
  ∃ jobid, WellFormed args jobid nonce ∧ message.jobId = bin2hex (store32 jobid)

section Steps

theorem fetches_append (first second : List Effect) :
    fetches (first ++ second) = fetches first + fetches second := by
  rw [fetches, List.filterMap_append, List.length_append, fetches, fetches]

theorem messages_append (first second : List Effect) :
    messages (first ++ second) = messages first ++ messages second := List.filterMap_append

theorem fetches_quiet {effects : List Effect} (quiet : Quiet effects) : fetches effects = 0 := by
  have none : effects.filterMap Effect.job? = [] :=
    List.filterMap_eq_nil_iff.mpr (fun e member => (quiet e member).1)
  rw [fetches, none, List.length_nil]

theorem messages_quiet {effects : List Effect} (quiet : Quiet effects) : messages effects = [] :=
  List.filterMap_eq_nil_iff.mpr (fun e member => (quiet e member).2)

theorem fetches_given (job : JobData) (extraNonce : UInt32) (env : RequestEnv) (c : Client)
    (reply : Reply) : fetches (giveEffects job extraNonce ++ (netSend env c reply).2) = 1 := rfl

theorem messages_given (job : JobData) (extraNonce : UInt32) (env : RequestEnv) (c : Client)
    {reply : Reply} {message : JobMessage}
    (carries : (Effect.send reply).message? = some message) :
    messages (giveEffects job extraNonce ++ (netSend env c reply).2) = [message] := by
  have silent : messages (giveEffects job extraNonce) = [] := rfl
  have access : ∀ a, (Effect.access a).message? = none := fun _ => rfl
  rw [messages_append, silent, List.nil_append]
  simp [messages, netSend, carries, access]

/-- What a step does to the counter and to the messages: nothing; a job is fetched before
the login; or a job is fetched and its message sent in the same step. -/
inductive Moved (s t : Session) : Prop
  | quiet (loggedIn : t.client.loggedIn = s.client.loggedIn)
      (jobid : t.client.jobid = s.client.jobid) (fetched : fetches t.trace = fetches s.trace)
      (told : messages t.trace = messages s.trace)
  | stranger (loggedIn : t.client.loggedIn = false) (jobid : t.client.jobid = s.client.jobid + 1)
      (fetched : fetches t.trace = fetches s.trace + 1) (told : messages t.trace = messages s.trace)
  | given (message : JobMessage) (loggedIn : t.client.loggedIn = true)
      (jobid : t.client.jobid = s.client.jobid + 1)
      (fetched : fetches t.trace = fetches s.trace + 1)
      (named : message.jobId = bin2hex (store32 t.client.jobid))
      (told : messages t.trace = messages s.trace ++ [message])

variable {s : Session}

theorem moved_quiet {c : Client} {effects : List Effect} (loggedIn : c.loggedIn = s.client.loggedIn)
    (jobid : c.jobid = s.client.jobid) (quiet : Quiet effects) :
    Moved s ⟨c, s.trace ++ effects⟩ := by
  refine .quiet loggedIn jobid ?_ ?_
  · rw [fetches_append, fetches_quiet quiet, Nat.add_zero]
  · rw [messages_append, messages_quiet quiet, List.append_nil]

theorem moved_given {c : Client} {job : JobData} {env : RequestEnv} {counted : Client}
    {reply : Reply} {effects : List Effect} (given : c.view = s.client.view.given job)
    (carries : (Effect.send reply).message? = some (s.client.view.given job).message)
    (same : effects = giveEffects job s.client.extraNonce ++ (netSend env counted reply).2) :
    Moved s ⟨c, s.trace ++ effects⟩ := by
  have jobid : c.jobid = s.client.jobid + 1 := congrArg View.jobid given
  refine .given (s.client.view.given job).message (congrArg View.loggedIn given) jobid ?_ ?_ ?_
  · rw [same, fetches_append, fetches_given]
  · simp only [jobid]
    rfl
  · rw [same, messages_append, messages_given _ _ _ _ carries]

theorem handled_moved {env : RequestEnv} {out : Client × List Effect}
    (handled : Handled env s.client out) : Moved s ⟨out.1, s.trace ++ out.2⟩ := by
  cases handled with
  | answered counted reply same plain =>
      have view : (netSend env counted reply).1.view = s.client.view := by
        rw [view_netSend, same]
      exact moved_quiet (congrArg View.loggedIn view) (congrArg View.jobid view)
        (quiet_netSend env counted reply plain)
  | login counted callId same fresh =>
      have stranger : counted.loggedIn = false := (congrArg View.loggedIn same).trans fresh
      have extraNonce : counted.extraNonce = s.client.extraNonce := congrArg View.extraNonce same
      obtain ⟨view, effects⟩ := giveFirstJob_given env counted callId
      rw [same] at view effects
      rw [extraNonce] at effects
      exact moved_given view rfl effects
  | share counted callId args nonce same wellFormed =>
      have view := view_checkShare env counted callId nonce
      rw [same] at view
      exact moved_quiet (congrArg View.loggedIn view) (congrArg View.jobid view)
        (quiet_checkShare env counted callId nonce)

theorem newBlock_moved (env : RequestEnv) (alive : s.client.aborting = false) :
    Moved s ⟨(onNewBlock env s.client).2.1, s.trace ++ (onNewBlock env s.client).2.2⟩ := by
  cases miner : s.client.loggedIn with
  | false =>
      rw [onNewBlock_stranger env s.client alive miner]
      refine .stranger miner rfl ?_ ?_
      · rw [fetches_append]
        rfl
      · rw [messages_append]
        exact List.append_nil _
  | true =>
      obtain ⟨_, view, effects⟩ := onNewBlock_miner env s.client alive miner
      exact moved_given view rfl effects

variable {maxCallsPerMin : Nat} {parse : List UInt8 → Option Value} {t : Session}

theorem next_jobs {a : SessionAction} (stepped : next maxCallsPerMin parse s a = some t) :
    Moved s t := by
  cases a with
  | line env buf =>
      simp only [next] at stepped
      split at stepped
      · rename_i accepted c effects ran
        cases stepped
        rcases processLine_handled buf accepted c effects ran with
          ⟨rfl, rfl, rfl⟩ | ⟨rfl, handled⟩
        · exact moved_quiet rfl rfl (fun e member => by cases member)
        · exact handled_moved handled
      · cases stepped
  | newBlock env =>
      simp only [next] at stepped
      cases aborting : s.client.aborting with
      | false =>
          have moved := newBlock_moved env aborting
          split at stepped
          · rename_i c effects ran
            cases stepped
            rwa [ran] at moved
          · cases stepped
      | true =>
          rw [onNewBlock_aborting env s.client aborting] at stepped
          cases stepped
  | recvBuf buffer =>
      cases stepped
      exact .quiet rfl rfl rfl rfl
  | overflow =>
      cases stepped
      exact .quiet rfl rfl rfl rfl

end Steps

/-- The client's job id counts the jobs it fetched. Its messages carry growing numbers of
that counter, the last of them the number of the last job once it is logged in. -/
structure Numbered (s : Session) (counts : List Nat) : Prop where
  jobid : s.client.jobid = UInt32.ofNat (fetches s.trace)
  growing : counts.Pairwise (· < ·)
  bounded : ∀ n ∈ counts, n ≤ fetches s.trace
  texts : (messages s.trace).map JobMessage.jobId = counts.map idText
  latest : s.client.loggedIn = true → counts.getLast? = some (fetches s.trace)

theorem moved_numbered {s t : Session} {counts : List Nat} (before : Numbered s counts)
    (moved : Moved s t) : ∃ counts', Numbered t counts' := by
  have next : UInt32.ofNat (fetches s.trace) + 1 = UInt32.ofNat (fetches s.trace + 1) := by
    rw [UInt32.ofNat_add]
    rfl
  cases moved with
  | quiet loggedIn jobid fetched told =>
      refine ⟨counts, ?_, before.growing, ?_, ?_, ?_⟩
      · rw [jobid, fetched, before.jobid]
      · rw [fetched]
        exact before.bounded
      · rw [told, before.texts]
      · rw [loggedIn, fetched]
        exact before.latest
  | stranger loggedIn jobid fetched told =>
      refine ⟨counts, ?_, before.growing, ?_, ?_, ?_⟩
      · rw [jobid, before.jobid, fetched, next]
      · intro n among
        rw [fetched]
        exact Nat.le_succ_of_le (before.bounded n among)
      · rw [told, before.texts]
      · intro miner
        rw [loggedIn] at miner
        cases miner
  | given message loggedIn jobid fetched named told =>
      have counter : t.client.jobid = UInt32.ofNat (fetches t.trace) := by
        rw [jobid, before.jobid, fetched, next]
      refine ⟨counts ++ [fetches t.trace], counter, ?_, ?_, ?_, fun _ => List.getLast?_concat⟩
      · rw [List.pairwise_append]
        refine ⟨before.growing, List.pairwise_singleton _ _, ?_⟩
        intro n among m last
        rw [List.mem_singleton.mp last, fetched]
        exact Nat.lt_succ_of_le (before.bounded n among)
      · rw [List.forall_mem_append, fetched]
        refine ⟨fun n among => Nat.le_succ_of_le (before.bounded n among), ?_⟩
        simp
      · rw [told, List.map_append, List.map_append, before.texts, List.map_singleton,
          List.map_singleton, named, counter, idText]

variable {maxCallsPerMin : Nat} {parse : List UInt8 → Option Value} {s : Session}

theorem reachable_numbered (reached : (system maxCallsPerMin parse).Reachable s) :
    ∃ counts, Numbered s counts := by
  apply reached.invariant (fun s => ∃ counts, Numbered s counts)
  · rintro s ⟨fd, extraNonce, stale, rfl⟩
    refine ⟨[], rfl, .nil, ?_, rfl, ?_⟩
    · intro n impossible
      cases impossible
    · intro miner
      cases miner
  · rintro s a t _ ⟨counts, before⟩ stepped
    exact moved_numbered before (next_jobs stepped)

theorem idText_injective {n m : Nat} (small : n < 2 ^ 32) (small' : m < 2 ^ 32)
    (same : idText n = idText m) : n = m := by
  have decoded := hex2bin_bin2hex_self (store32 (UInt32.ofNat n))
  have decoded' := hex2bin_bin2hex_self (store32 (UInt32.ofNat m))
  rw [← idText, same] at decoded
  rw [← idText, decoded] at decoded'
  have words := congrArg UInt32.toNat (store32_injective (Prod.mk.inj decoded').2)
  rwa [UInt32.toNat_ofNat_of_lt' small, UInt32.toNat_ofNat_of_lt' small'] at words

theorem submitGate_of_wellFormed {c : Client} {args : Value} {jobid nonce : UInt32}
    (wellFormed : WellFormed args jobid nonce) :
    submitGate c args =
      if jobid = c.jobid then .ok (.ok nonce) else .ok (.error "Stale job id") := by
  obtain ⟨jobText, nonceText, resultText, jobFound, jobLength, jobDecoded, nonceFound,
    nonceLength, nonceDecoded, resultFound, resultLength, resultDecoded⟩ := wellFormed
  obtain ⟨count, countFound⟩ := findMember_total jobFound "hashcount_total"
  simp only [submitGate, submitArgs, jobFound, nonceFound, resultFound, countFound, bind,
    Except.bind, pure, Except.pure, Value.isString, Value.getString, jobLength, nonceLength,
    resultLength, jobDecoded, nonceDecoded, resultDecoded, load32_store32]
  by_cases current : jobid = c.jobid
  · simp [current]
  · simp [current]

theorem submitGate_of_told (reached : (system maxCallsPerMin parse).Reachable s)
    (few : fetches s.trace < 2 ^ 32) (miner : s.client.loggedIn = true) {message : JobMessage}
    (told : message ∈ messages s.trace) {args : Value} {nonce : UInt32}
    (names : Names args message nonce) :
    submitGate s.client args =
      if lastMessage s.trace = some message then .ok (.ok nonce)
      else .ok (.error "Stale job id") := by
  obtain ⟨counts, numbered⟩ := reachable_numbered reached
  obtain ⟨earlier, split⟩ := List.getLast?_eq_some_iff.mp (numbered.latest miner)
  have texts := numbered.texts
  rw [split, List.map_append, List.map_singleton, List.map_eq_append_iff] at texts
  obtain ⟨olds, news, parts, oldTexts, newTexts⟩ := texts
  obtain ⟨last, rfl, lastText⟩ := List.map_eq_singleton_iff.mp newTexts
  have latest : lastMessage s.trace = some last := by
    rw [lastMessage, ← messages, parts, List.getLast?_concat]
  obtain ⟨jobid, wellFormed, text⟩ := names
  rw [submitGate_of_wellFormed wellFormed, latest, numbered.jobid]
  have word : bin2hex (store32 jobid) = idText jobid.toNat := by rw [idText, UInt32.ofNat_toNat]
  rw [word] at text
  rw [parts, List.mem_append, List.mem_singleton] at told
  rcases told with old | rfl
  · have among : message.jobId ∈ earlier.map idText := by
      rw [← oldTexts]
      exact List.mem_map_of_mem old
    obtain ⟨n, before, count⟩ := List.mem_map.mp among
    have growing := numbered.growing
    rw [split, List.pairwise_append] at growing
    have smaller : n < fetches s.trace := growing.2.2 n before _ (List.mem_singleton_self _)
    have number : n = jobid.toNat :=
      idText_injective (Nat.lt_trans smaller few) jobid.toNat_lt (count.trans text)
    have stale : jobid ≠ UInt32.ofNat (fetches s.trace) := by
      intro same
      have value := congrArg UInt32.toNat same
      rw [UInt32.toNat_ofNat_of_lt' few] at value
      omega
    have other : some last ≠ some message := by
      intro same
      have texts := congrArg JobMessage.jobId (Option.some.inj same)
      rw [lastText, ← count] at texts
      have := idText_injective few (Nat.lt_trans smaller few) texts
      omega
    rw [if_neg stale, if_neg other]
  · have number : fetches s.trace = jobid.toNat :=
      idText_injective few jobid.toNat_lt (lastText.symm.trans text)
    have current : jobid = UInt32.ofNat (fetches s.trace) := by
      rw [number, UInt32.ofNat_toNat]
    rw [if_pos current, if_pos rfl]

/-- A miner that repeats the job id of one of its messages gets its share checked when
that message was the last, and is told that it is stale when it was an earlier one. -/
theorem only_last_message_mined (reached : (system maxCallsPerMin parse).Reachable s)
    (few : fetches s.trace < 2 ^ 32) (miner : s.client.loggedIn = true) {message : JobMessage}
    (told : message ∈ messages s.trace) {args : Value} {nonce : UInt32}
    (names : Names args message nonce) (env : RequestEnv) (callId : Int64) :
    processMethodSubmit env s.client callId args =
      if lastMessage s.trace = some message then .ok (checkShare env s.client callId nonce)
      else .ok (sendErrorResponse env s.client callId "Stale job id") := by
  have gate := submitGate_of_told reached few miner told names
  rw [processMethodSubmit, gate]
  split
  · rfl
  · rfl

def nthMessage (n : UInt32) : JobMessage := jobMessage (freshJob (Node.plainJob "randomx" 24) 0) n

/-- A login and a new block: two messages, of which the second is current. -/
theorem first_message_stale :
    ∃ s : Session, lastMessage s.trace = some (nthMessage 2) ∧
      processMethodSubmit (plainEnv .zero) s.client 7 (zeroSubmit 1) =
        .ok (sendErrorResponse (plainEnv .zero) s.client 7 "Stale job id") := by
  let env := plainEnv (Node.plainJob "randomx" 24)
  obtain ⟨s, reached, holds⟩ :=
    System.exists_reachable (S := system 60 parseJson)
      ⟨7, 0, .zero, rfl⟩ [.line env (loginLine 1), .newBlock env]
      (fun s => s.client.loggedIn && decide (fetches s.trace = 2) &&
        decide (messages s.trace = [nthMessage 1, nthMessage 2]))
      (by decide +kernel)
  simp only [Bool.and_eq_true, decide_eq_true_eq] at holds
  obtain ⟨⟨miner, two⟩, told⟩ := holds
  have latest : lastMessage s.trace = some (nthMessage 2) := by
    rw [lastMessage, ← messages, told]
    rfl
  have names : Names (zeroSubmit 1) (nthMessage 1) 0 := ⟨1, zeroSubmit_wellFormed 1, rfl⟩
  have other : some (nthMessage 2) ≠ some (nthMessage 1) := by decide +kernel
  have refused := only_last_message_mined reached (by omega) miner (by simp [told]) names
    (plainEnv .zero) 7
  rw [latest, if_neg other] at refused
  exact ⟨s, latest, refused⟩

end Session

end EpicPoold
