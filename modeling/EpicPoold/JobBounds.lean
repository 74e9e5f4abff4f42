import EpicPoold.Submission

/-! The fixed arrays a job passes through, and the one length that is too long for one
of them. -/

namespace EpicPoold

open Foundations

theorem ascii_length (text : String) : (ascii text).length = text.length := by
  simp [ascii, String.length_toList]

theorem decimal_length (n digits : Nat) (some : 0 < digits) (bound : n < 10 ^ digits) :
    (decimal n).length ≤ digits := by
  rw [decimal, ascii_length, Nat.length_repr_le_iff some]
  exact bound

theorem signedDecimal_length (n : Int64) : (signedDecimal n).length ≤ 20 := by
  have low := n.le_toInt
  have high := n.toInt_lt
  have digits : (decimal n.toInt.natAbs).length ≤ 19 :=
    decimal_length _ 19 (by decide) (by omega)
  rw [signedDecimal]
  split
  · rw [List.length_cons]
    omega
  · omega

theorem JobMessage.text_length (m : JobMessage) :
    m.text.length = m.blob.length + m.jobId.length + m.target.length + m.powAlgo.length +
      m.seedHash.length + (decimal m.height.toNat).length + 74 := by
  have constants : "\x7b\"blob\":\"".length + "\",\"job_id\":\"".length +
      "\",\"target\":\"".length + "\",\"pow_algo\":\"".length + "\",\"seed_hash\":\"".length +
      "\",\"height\":".length + "\x7d".length = 74 := rfl
  simp only [JobMessage.text, List.length_append, ascii_length]
  omega

theorem powTypeToStr_length (type : PowType) : (powTypeToStr type).length ≤ 7 := by
  cases type <;> decide

namespace Client

theorem jobMessage_length (job : JobData) (jobid : UInt32)
    (fits : job.prepowLen.toNat ≤ prepowSize) :
    (jobMessage job jobid).text.length ≤ 2 * job.prepowLen.toNat + 171 := by
  have blob : (bin2hex job.blob).length = 2 * job.prepowLen.toNat := by
    rw [bin2hex_length, blob_length job fits]
  have id : (bin2hex (store32 jobid)).length = 8 := by simp
  have target : (bin2hex (store32 (diffToTarget fixDiff))).length = 8 := by simp
  have seed : (bin2hex job.rxSeed.data.bytes).length = 64 := by
    rw [bin2hex_length, job.rxSeed.data.length_eq]
  have algo := powTypeToStr_length job.type
  have height : (decimal job.height.toNat).length ≤ 10 :=
    decimal_length _ 10 (by decide) (by have := job.height.toNat_lt; omega)
  rw [JobMessage.text_length]
  change (bin2hex job.blob).length + (bin2hex (store32 jobid)).length +
    (bin2hex (store32 (diffToTarget fixDiff))).length + (powTypeToStr job.type).length +
    (bin2hex job.rxSeed.data.bytes).length + (decimal job.height.toNat).length + 74 ≤ _
  omega

def payload : Reply → Nat
  | .error _ message => message.length
  | .login _ message => message.text.length
  | .status _ => 0
  | .job message => message.text.length

theorem reply_length (reply : Reply) : reply.text.length ≤ payload reply + 110 := by
  cases reply with
  | error callId message =>
      have number := signedDecimal_length callId
      have constants : "\x7b\"id\":".length +
          ",\"jsonrpc\":\"2.0\",\"error\":\x7b\"code\":-1,\"message\":\"".length +
          "\"\x7d\x7d\n".length ≤ 90 := by decide
      simp only [Reply.text, List.length_append, ascii_length, payload]
      omega
  | login callId message =>
      have number := signedDecimal_length callId
      have constants : "\x7b\"id\":".length +
          ",\"jsonrpc\":\"2.0\",\"error\":null,\"result\":\x7b\"id\":\"decafbad0\",\"job\":".length +
          ",\"status\":\"OK\"\x7d\x7d\n".length ≤ 90 := by decide
      simp only [Reply.text, List.length_append, ascii_length, payload]
      omega
  | status callId =>
      have number := signedDecimal_length callId
      have constants : "\x7b\"id\":".length +
          ",\"jsonrpc\":\"2.0\",\"error\":null,\"result\":\x7b\"status\":\"OK\"\x7d\x7d\n".length ≤
          90 := by decide
      simp only [Reply.text, List.length_append, ascii_length, payload]
      omega
  | job message =>
      have constants : "\x7b\"jsonrpc\":\"2.0\",\"method\":\"job\",\"params\":".length +
          "\x7d\n".length ≤ 90 := by decide
      simp only [Reply.text, List.length_append, ascii_length, payload]
      omega

def Fits (effects : List Effect) : Prop := ∀ a, .access a ∈ effects → a.InBounds

theorem Fits.append {first second : List Effect} (left : Fits first) (right : Fits second) :
    Fits (first ++ second) := by
  intro a member
  rcases List.mem_append.mp member with early | late
  · exact left a early
  · exact right a late

theorem fits_netSend (env : RequestEnv) (c : Client) (reply : Reply)
    (short : payload reply ≤ 1000) : Fits (netSend env c reply).2 := by
  intro a member
  have length := reply_length reply
  simp only [netSend, List.mem_cons, Effect.access.injEq, reduceCtorEq, List.not_mem_nil,
    or_false] at member
  subst member
  simp only [Access.InBounds, BufferName.size]
  omega

/-- The fixed arrays take a job of fewer than 384 bytes; its blob then has a text of at
most 766 digits. -/
theorem fits_giveEffects (job : JobData) (extraNonce : UInt32)
    (room : 8 ≤ job.prepowLen.toNat) (short : job.prepowLen.toNat < prepowSize) :
    Fits (giveEffects job extraNonce) := by
  intro a member
  simp only [giveEffects, copyBack, hexAccess, List.mem_cons, Effect.access.injEq, reduceCtorEq,
    List.not_mem_nil, or_false, false_or, store32_length] at member
  simp only [prepowSize] at short
  rcases member with rfl | rfl | rfl | rfl | rfl | rfl <;>
    simp only [Access.InBounds, BufferName.size, prepowSize] <;> omega

theorem payload_given (v : View) (job : JobData) (short : job.prepowLen.toNat ≤ prepowSize) :
    (v.given job).message.text.length ≤ 1000 := by
  have length := jobMessage_length (freshJob job v.extraNonce) (v.jobid + 1) short
  simp only [prepowSize] at short
  have same : (freshJob job v.extraNonce).prepowLen = job.prepowLen := rfl
  rw [same] at length
  exact length.trans (by omega)

theorem fits_processMethodLogin (env : RequestEnv) (c : Client) (callId : Int64) (args : Value)
    (out : Client × List Effect) (room : 8 ≤ env.currentJob.prepowLen.toNat)
    (short : env.currentJob.prepowLen.toNat < prepowSize)
    (ran : processMethodLogin env c callId args = .ok out) : Fits out.2 := by
  rcases processMethodLogin_eq_ok ran with ⟨_, rfl⟩ | ⟨_, rfl⟩
  · have brief : "You are logged in.".length ≤ 1000 := by decide
    exact fits_netSend _ _ _ brief
  · rw [(giveFirstJob_given env c callId).2]
    exact (fits_giveEffects _ _ room short).append
      (fits_netSend _ _ _ (payload_given _ _ (le_of_lt short)))

theorem fits_onNewBlock (env : RequestEnv) (c : Client)
    (room : 8 ≤ env.currentJob.prepowLen.toNat)
    (short : env.currentJob.prepowLen.toNat < prepowSize) : Fits (onNewBlock env c).2.2 := by
  rcases aborting : c.aborting with _ | _
  · rcases miner : c.loggedIn with _ | _
    · rw [onNewBlock_stranger env c aborting miner]
      intro a member
      simp at member
    · rw [(onNewBlock_miner env c aborting miner).2.2]
      exact (fits_giveEffects _ _ room short).append
        (fits_netSend _ _ _ (payload_given _ _ (le_of_lt short)))
  · rw [onNewBlock_aborting env c aborting]
    intro a member
    cases member

def refusals : List String :=
  ["Malformed submit", "Invalid jobid", "Invalid nonce", "Invalid result", "Stale job id"]

theorem submitArgs_error (args : Value) (msg : String)
    (refused : submitArgs args = .ok (.error msg)) : msg ∈ refusals := by
  simp only [submitArgs, bind_eq_ok] at refused
  obtain ⟨sJobid, _, sNonce, _, sResult, _, _, _, refused⟩ := refused
  split at refused
  · split at refused
    · cases refused
      decide
    · simp only [bind_eq_ok] at refused
      obtain ⟨_, _, _, _, _, _, refused⟩ := refused
      split at refused
      · cases refused
        decide
      · split at refused
        · cases refused
          decide
        · split at refused
          · cases refused
            decide
          · split at refused
            · cases refused
              decide
            · cases refused
  · cases refused
    decide

theorem submitGate_error (c : Client) (args : Value) (msg : String)
    (refused : submitGate c args = .ok (.error msg)) : msg ∈ refusals := by
  rw [submitGate, bind_eq_ok] at refused
  obtain ⟨outcome, decoded, refused⟩ := refused
  cases outcome with
  | error text =>
      cases refused
      exact submitArgs_error args msg decoded
  | ok a =>
      simp only at refused
      split at refused
      · cases refused
        decide
      · cases refused

theorem fits_hashAccesses (len : Nat) (short : len ≤ prepowSize) : Fits (hashAccesses len) := by
  intro a member
  simp only [hashAccesses, hexAccess, List.mem_cons, Effect.access.injEq, List.not_mem_nil,
    or_false] at member
  simp only [prepowSize] at short
  rcases member with rfl | rfl <;>
    simp only [Access.InBounds, BufferName.size, prepowSize] <;> omega

theorem fits_checkClientWork (env : RequestEnv) (c : Client) (nonce : UInt32)
    (room : 8 ≤ c.curJob.prepowLen.toNat) (short : c.curJob.prepowLen.toNat ≤ prepowSize) :
    Fits (checkClientWork env c nonce).2.2 := by
  unfold checkClientWork
  split
  · intro a member
    simp only [List.cons_append, List.nil_append, List.mem_cons, Effect.access.injEq,
      reduceCtorEq, false_or] at member
    rcases member with rfl | member
    · simp only [prepowSize] at short
      simp only [copyBack, Access.InBounds, BufferName.size, prepowSize, store32_length]
      omega
    · split at member
      · cases member
      · exact fits_hashAccesses _ short a member
  · have tail : ppDataLen c.curJob ≤ prepowSize := by
      simp only [ppDataLen, prepowSize] at short ⊢
      omega
    intro a member
    simp only [List.mem_cons, reduceCtorEq, false_or] at member
    split at member
    · cases member
    · exact fits_hashAccesses _ tail a member
  · intro a member
    cases member

theorem fits_checkShare (env : RequestEnv) (c : Client) (callId : Int64) (nonce : UInt32)
    (room : 8 ≤ c.curJob.prepowLen.toNat) (short : c.curJob.prepowLen.toNat ≤ prepowSize) :
    Fits (checkShare env c callId nonce).2 := by
  have reply : payload (shareReply env c callId nonce) ≤ 1000 := by
    have error : "Server error while checking share.".length ≤ 1000 := by decide
    have bad : "Bad share".length ≤ 1000 := by decide
    rw [shareReply]
    split
    · exact error
    · split
      · exact bad
      · exact Nat.zero_le _
  intro a member
  rcases (mem_checkShare env c callId nonce _).mp member with impossible | hashed | sent | replied
  · cases impossible
  · exact fits_checkClientWork env c nonce room short a hashed
  · obtain ⟨_, _, impossible⟩ := (mem_forwarded env c nonce _).mp sent
    cases impossible
  · exact fits_netSend env c _ reply a replied

theorem fits_processMethodSubmit (env : RequestEnv) (c : Client) (callId : Int64) (args : Value)
    (after : Client) (effects : List Effect) (room : 8 ≤ c.curJob.prepowLen.toNat)
    (short : c.curJob.prepowLen.toNat ≤ prepowSize)
    (ran : processMethodSubmit env c callId args = .ok (after, effects)) : Fits effects := by
  rw [processMethodSubmit, bind_eq_ok] at ran
  obtain ⟨outcome, gate, ran⟩ := ran
  cases outcome with
  | error msg =>
      have known := submitGate_error c args msg gate
      have brief : ∀ text ∈ refusals, text.length ≤ 1000 := by decide
      rw [pure_eq_ok] at ran
      cases ran
      exact fits_netSend env c (.error callId msg) (brief msg known)
  | ok nonce =>
      rw [pure_eq_ok] at ran
      have effectsEq : (checkShare env c callId nonce).2 = effects := congrArg Prod.snd ran
      rw [← effectsEq]
      exact fits_checkShare env c callId nonce room short

end Client

namespace Node

open Client Session

def MessageFits (n after : Node) : Prop :=
  ∀ new, after.effects = n.effects ++ new → ∀ a, .access a ∈ new → a.InBounds

/-- What clients do with a job: they log in to it, are notified of it, and submit and
have shares checked on their copy of it. -/
structure UsesFit (job : JobData) : Prop where
  login : ∀ env c callId args out, env.currentJob = job →
    processMethodLogin env c callId args = .ok out → Fits out.2
  newBlock : ∀ env c, env.currentJob = job → Fits (onNewBlock env c).2.2
  submit : ∀ env c callId args after effects, CopyOf c.curJob job →
    processMethodSubmit env c callId args = .ok (after, effects) → Fits effects

theorem messageFits (n after : Node) (digits : Nat) (short : digits / 2 ≤ prepowSize - 8)
    (effects : after.effects = n.effects ++ prepowAccesses digits ++ [.notifyNewBlock]) :
    MessageFits n after := by
  intro new split a member
  rw [effects, List.append_assoc] at split
  have new_eq := List.append_cancel_left split
  rw [← new_eq] at member
  simp only [prepowSize] at short
  simp only [prepowAccesses, List.cons_append, List.nil_append, List.mem_cons,
    NodeEffect.access.injEq, reduceCtorEq, List.not_mem_nil, or_false] at member
  rcases member with rfl | rfl <;>
    simp only [Access.InBounds, BufferName.size, prepowSize] <;> omega

theorem usesFit_iff (job : JobData) (room : 8 ≤ job.prepowLen.toNat)
    (bound : job.prepowLen.toNat ≤ prepowSize) :
    UsesFit job ↔ job.prepowLen.toNat < prepowSize := by
  constructor
  · intro uses
    have fits := uses.login (plainEnv job) (construct 0 0 job) 0 (.object []) _ rfl rfl
      ⟨.hexBlob, 0, 2 * job.prepowLen.toNat + 1⟩
      (by rw [(giveFirstJob_given _ _ _).2]; simp [giveEffects, hexAccess, plainEnv])
    simp only [Access.InBounds, BufferName.size] at fits
    simp only [prepowSize]
    omega
  · intro short
    constructor
    · intro env c callId args out current ran
      rw [← current] at room short
      exact fits_processMethodLogin env c callId args out room short ran
    · intro env c current
      rw [← current] at room short
      exact fits_onNewBlock env c room short
    · intro env c callId args after effects copied ran
      have length : c.curJob.prepowLen = job.prepowLen := by
        rw [← copied.1]
      rw [← length] at room bound
      exact fits_processMethodSubmit env c callId args after effects room bound ran

/-- Everything done with the job of an accepted message stays inside its arrays if and
only if the text of the blob has fewer than 752 digits. -/
theorem buffers_fit_iff {getEpochNumber : UInt64 → Int32} {n after : Node} {env : MessageEnv}
    {doc : Value} {job : JobData} (published : Publishes getEpochNumber n env doc job after) :
    (MessageFits n after ∧ UsesFit job) ↔ ∀ text, prePow doc = .ok text → text.length < 752 := by
  obtain ⟨text, named, bound, length, effects⟩ := publishes_spec n after env doc job published
  have message := messageFits n after text.length bound effects
  simp only [prepowSize] at bound
  rw [usesFit_iff job (by omega) (by simp only [prepowSize]; omega)]
  simp only [prepowSize]
  constructor
  · rintro ⟨_, short⟩ other otherNamed
    rw [named] at otherNamed
    cases otherNamed
    omega
  · intro short
    have digits := short text named
    exact ⟨message, by omega⟩

/-- Eight digits are well below the limit. -/
theorem buffers_fit_short :
    UsesFit (plainJob "randomx" 8) := by
  obtain ⟨after, published⟩ := plainJob_publishes "randomx" 8 (by decide +kernel)
  have text : prePow (plainMessage "randomx" 8) = .ok (List.replicate 8 0x30) := by rfl
  refine ((buffers_fit_iff published).mpr ?_).2
  intro other named
  rw [text] at named
  cases named
  decide

/-- A blob of 752 digits is accepted, and the terminator of its text is written past
the end of `hex_blob` by the first login. -/
theorem terminator_out_of_bounds :
    (∃ after, Publishes (fun _ => 0) plainNode ⟨0, 0⟩ (plainMessage "randomx" 752)
      (plainJob "randomx" 752) after) ∧
    ∃ out a, processMethodLogin (plainEnv (plainJob "randomx" 752)) (construct 7 0 .zero) 0
        (.object []) = .ok out ∧
      .access a ∈ out.2 ∧ a.buffer = .hexBlob ∧ ¬ a.InBounds := by
  refine ⟨plainJob_publishes "randomx" 752 (by decide +kernel), ?_⟩
  have length : (plainJob "randomx" 752).prepowLen = 384 := by decide +kernel
  refine ⟨_, ⟨.hexBlob, 0, 2 * (plainJob "randomx" 752).prepowLen.toNat + 1⟩, rfl, ?_, rfl, ?_⟩
  · rw [(giveFirstJob_given _ _ _).2]
    simp [giveEffects, hexAccess, plainEnv]
  · rw [length]
    decide

end Node

end EpicPoold
