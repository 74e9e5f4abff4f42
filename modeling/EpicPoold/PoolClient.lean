import EpicPoold.ClientRuns
import EpicPoold.Server

/-! client_pool<client, 256>: the miners' connections as the clients of a pool. No line
can trip an assertion of the JSON library, so that each call of theirs returns. -/

namespace EpicPoold

open Foundations

namespace Client

theorem submitArgs_total (args : Value) (object : args.isObject = true) :
    ∃ out, submitArgs args = .ok out := by
  obtain ⟨sJobid, jobFound⟩ := getObjectMember_total args "job_id" object
  obtain ⟨sNonce, nonceFound⟩ := getObjectMember_total args "nonce" object
  obtain ⟨sResult, resultFound⟩ := getObjectMember_total args "result" object
  obtain ⟨count, countFound⟩ := getObjectMember_total args "hashcount_total" object
  simp only [submitArgs, jobFound, nonceFound, resultFound, countFound, bind, Except.bind]
  split
  · split
    · exact ⟨_, rfl⟩
    · rename_i strings
      simp only [Bool.or_eq_true, Bool.not_eq_true', not_or, Bool.not_eq_false,
        isString_eq_true] at strings
      obtain ⟨⟨⟨jobText, rfl⟩, nonceText, rfl⟩, resultText, rfl⟩ := strings
      simp only [Value.getString]
      split
      · exact ⟨_, rfl⟩
      · split
        · exact ⟨_, rfl⟩
        · split
          · exact ⟨_, rfl⟩
          · split <;> exact ⟨_, rfl⟩
  · exact ⟨_, rfl⟩

theorem submitGate_total (c : Client) (args : Value) (object : args.isObject = true) :
    ∃ out, submitGate c args = .ok out := by
  obtain ⟨decoded, ran⟩ := submitArgs_total args object
  simp only [submitGate, ran, bind, Except.bind]
  split
  · exact ⟨_, rfl⟩
  · split <;> exact ⟨_, rfl⟩

theorem dispatch_total (env : RequestEnv) (c : Client) (callId : Int64) (args : Value)
    (method : Method) (object : args.isObject = true) :
    ∃ out, dispatch env c callId args method = .ok out := by
  cases method with
  | submit =>
      obtain ⟨gate, ran⟩ := submitGate_total c args object
      simp only [dispatch, processMethodSubmit, ran, bind, Except.bind]
      split <;> exact ⟨_, rfl⟩
  | login =>
      obtain ⟨pass, passFound⟩ := getObjectMember_total args "pass" object
      obtain ⟨login, loginFound⟩ := getObjectMember_total args "login" object
      simp only [dispatch, processMethodLogin, passFound, loginFound, bind, Except.bind]
      split <;> exact ⟨_, rfl⟩
  | keepalive => exact ⟨_, rfl⟩

variable (maxCallsPerMin : Nat) (parse : List UInt8 → Option Value)

theorem processRequest_total (env : RequestEnv) (c : Client) (doc : Value)
    (object : doc.isObject = true) : ∃ out, processRequest maxCallsPerMin env c doc = .ok out := by
  obtain ⟨callId, idFound⟩ := requestId_total doc object
  obtain ⟨method, methodFound⟩ := getObjectMember_total doc "method" object
  obtain ⟨args, argsFound⟩ := getObjectMember_total doc "params" object
  simp only [processRequest, idFound, methodFound, argsFound, bind, Except.bind]
  split
  · rename_i method args
    split
    · exact ⟨_, rfl⟩
    · rename_i typed
      simp only [Bool.or_eq_true, Bool.not_eq_true', not_or, Bool.not_eq_false,
        isString_eq_true] at typed
      obtain ⟨⟨text, rfl⟩, objectArgs⟩ := typed
      split
      · exact ⟨_, rfl⟩
      · simp only [Value.getString]
        split
        · exact dispatch_total env _ _ _ _ objectArgs
        · exact ⟨_, rfl⟩
  · exact ⟨_, rfl⟩

theorem processLine_total (env : RequestEnv) (c : Client) (buf : List UInt8) :
    ∃ out, processLine maxCallsPerMin parse env c buf = .ok out := by
  rw [processLine]
  split
  · exact ⟨_, rfl⟩
  · split
    · exact ⟨_, rfl⟩
    · split
      · exact ⟨_, rfl⟩
      · rename_i doc _ object
        obtain ⟨out, ran⟩ := processRequest_total maxCallsPerMin env c doc (by simpa using object)
        rw [ran]
        exact ⟨_, rfl⟩

theorem lineLoop_total (request : Nat → RequestEnv) (turns : Nat) :
    ∀ (handled lnstart : Nat) (c : Client),
      ∃ out, lineLoop maxCallsPerMin parse request turns handled lnstart c = .ok out := by
  induction turns with
  | zero =>
      intro handled lnstart c
      exact ⟨_, rfl⟩
  | succ turns ih =>
      intro handled lnstart c
      rw [lineLoop]
      split
      · exact ⟨_, rfl⟩
      · rename_i i _
        obtain ⟨⟨fine, after, effects⟩, ran⟩ := processLine_total maxCallsPerMin parse
          (request handled) c (c.recvBuf.buf.read lnstart (i + 1))
        simp only [ran, bind, Except.bind]
        split
        · exact ⟨_, rfl⟩
        · obtain ⟨rest, looped⟩ := ih (handled + 1) (lnstart + (i + 1))
            { after with recvBuf := { after.recvBuf with len := after.recvBuf.len - (i + 1) } }
          rw [looped]
          exact ⟨_, rfl⟩

theorem socketLoop_total (request : Nat → RequestEnv) (reads : List ReadResult) :
    ∀ (handled : Nat) (c : Client),
      ∃ out, socketLoop maxCallsPerMin parse request reads handled c = .ok out := by
  induction reads with
  | nil =>
      intro handled c
      rw [socketLoop]
      split <;> exact ⟨_, rfl⟩
  | cons result rest ih =>
      intro handled c
      rw [socketLoop]
      split
      · exact ⟨_, rfl⟩
      · simp only
        split
        · exact ⟨_, rfl⟩
        · split
          · exact ⟨_, rfl⟩
          · obtain ⟨⟨fine, lnstart, after, effects, total⟩, looped⟩ := lineLoop_total
              maxCallsPerMin parse request (netRecv c result).2.recvBuf.len handled 0
              (netRecv c result).2
            simp only [looped, bind, Except.bind]
            split
            · exact ⟨_, rfl⟩
            · obtain ⟨more, ran⟩ := ih total (moveLeftover after lnstart)
              rw [ran]
              exact ⟨_, rfl⟩

theorem onSocketRead_total (env : SocketEnv) (c : Client) :
    ∃ out, onSocketRead maxCallsPerMin parse env c = .ok out :=
  socketLoop_total maxCallsPerMin parse env.request env.reads 0 c

/-- What a constructor finds: the next extra nonce, the old bytes of the slot, and
whether the address can be printed. -/
structure MakeEnv where
  extraNonce : UInt32
  stale : JobData
  ipOk : Bool

def cliType : CliType where
  Cli := Client
  MakeEnv := MakeEnv
  ReadEnv := SocketEnv
  BlockEnv := RequestEnv
  construct env fd := if env.ipOk then some (construct fd env.extraNonce env.stale) else none
  onSocketRead env c :=
    match onSocketRead maxCallsPerMin parse env c with
    | .ok (keep, c, _) => (keep, c)
    | .error _ => (false, c)
  onNewBlock env c := ((onNewBlock env c).1, (onNewBlock env c).2.1)

theorem cliType_onSocketRead (env : SocketEnv) (c : Client) :
    ∃ effects, onSocketRead maxCallsPerMin parse env c =
      .ok (((cliType maxCallsPerMin parse).onSocketRead env c).1,
        ((cliType maxCallsPerMin parse).onSocketRead env c).2, effects) := by
  obtain ⟨⟨keep, after, effects⟩, ran⟩ := onSocketRead_total maxCallsPerMin parse env c
  refine ⟨effects, ?_⟩
  simp only [cliType, ran]

theorem cliType_onNewBlock (env : RequestEnv) (c : Client) :
    ((cliType maxCallsPerMin parse).onNewBlock env c).1 = !c.aborting := by
  change (onNewBlock env c).1 = !c.aborting
  rcases aborting : c.aborting with _ | _
  · rcases miner : c.loggedIn with _ | _
    · rw [onNewBlock_stranger env c aborting miner]
      rfl
    · rw [(onNewBlock_miner env c aborting miner).1]
      rfl
  · rw [onNewBlock_aborting env c aborting]
    rfl

section Calls

variable (holds : JobData → Prop) (keeps : Session → Prop)
  (kept : ∀ s t a, keeps s → Session.Supplied holds s a →
    Session.next maxCallsPerMin parse s a = some t → keeps t)

include kept

/-- A call of on_socket_read is a run of the client's session, so that it keeps what
the session's steps keep. -/
theorem onSocketRead_kept {env : SocketEnv} (supplied : ∀ k, holds (env.request k).currentJob)
    {c : Client} {trace : List Effect} (before : keeps ⟨c, trace⟩) :
    ∃ effects, keeps ⟨((cliType maxCallsPerMin parse).onSocketRead env c).2, trace ++ effects⟩ := by
  obtain ⟨effects, ran⟩ := cliType_onSocketRead maxCallsPerMin parse env c
  exact ⟨effects, Session.onSocketRead_keeps kept supplied before ran⟩

/-- A call of on_new_block is a step of the session, or leaves the client alone. -/
theorem onNewBlock_kept {env : RequestEnv} (supplied : holds env.currentJob) {c : Client}
    {trace : List Effect} (before : keeps ⟨c, trace⟩) :
    ∃ effects, keeps ⟨((cliType maxCallsPerMin parse).onNewBlock env c).2, trace ++ effects⟩ := by
  rcases ran : onNewBlock env c with ⟨keep, after, effects⟩
  have outcome : ((cliType maxCallsPerMin parse).onNewBlock env c).2 = after := by
    change (onNewBlock env c).2.1 = after
    rw [ran]
  have ended := cliType_onNewBlock maxCallsPerMin parse env c
  rw [outcome]
  cases keep with
  | true =>
      refine ⟨effects, kept ⟨c, trace⟩ _ (.newBlock env) before supplied ?_⟩
      simp only [Session.next, ran]
  | false =>
      have aborting : c.aborting = true := by
        change (onNewBlock env c).1 = !c.aborting at ended
        rw [ran] at ended
        simpa using ended.symm
      rw [onNewBlock_aborting env c aborting] at ran
      cases ran
      exact ⟨[], by simpa using before⟩

end Calls

theorem onSocketRead_aborting (env : SocketEnv) {c : Client} (aborting : c.aborting = true) :
    (cliType maxCallsPerMin parse).onSocketRead env c = (true, c) := by
  have ran : onSocketRead maxCallsPerMin parse env c = .ok (true, c, []) := by
    rcases env with ⟨_ | ⟨result, rest⟩, request⟩
    · rw [onSocketRead, socketLoop, if_pos aborting]
      rfl
    · rw [onSocketRead, socketLoop, if_pos aborting]
      rfl
  simp only [cliType, ran]

end Client

/-- `client_pool_t` and `tls_client_pool_t`. -/
def clientPoolSize : PoolSize := ⟨256, by decide, by decide⟩

def tlsClientPoolSize : PoolSize := ⟨254, by decide, by decide⟩

end EpicPoold
