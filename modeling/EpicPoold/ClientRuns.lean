import EpicPoold.ClientSteps
import EpicPoold.Foundations.Transition

/-! The runs of one client: request lines and new blocks in any order since its
construction, with all it did to the outside. -/

namespace EpicPoold

open Foundations

namespace Client

section Blobs

variable (job : JobData) (back : Nat) (source : List UInt8)

theorem blob_length (fits : job.prepowLen.toNat ≤ prepowSize) :
    job.blob.length = job.prepowLen.toNat :=
  Buffer.read_length _ 0 _ (by simpa using fits)

theorem blob_copyBack (size : source.length = back) (inside : back ≤ job.prepowLen.toNat)
    (fits : job.prepowLen.toNat ≤ prepowSize) :
    (copyBack job back source).1.blob =
      job.blob.take (job.blob.length - back) ++ source := by
  have whole := blob_length job fits
  have ends : job.prepowLen.toNat - back + source.length = job.prepowLen.toNat := by omega
  rw [whole]
  simp only [copyBack, if_pos inside, JobData.blob]
  rw [Buffer.read_prefix_write _ _ _ _ (by omega) fits, ends, Nat.sub_self]
  simp only [Buffer.read, List.drop_zero, List.take_zero, List.append_nil, List.take_take]
  rw [Nat.min_eq_left (Nat.sub_le _ _)]

theorem copyBack_copyBack (first : List UInt8) (same : first.length = source.length) :
    (copyBack (copyBack job back first).1 back source).1 = (copyBack job back source).1 := by
  by_cases inside : back ≤ job.prepowLen.toNat
  · simp only [copyBack, if_pos inside, Buffer.write_write _ _ _ _ same]
  · simp only [copyBack, if_neg inside]

theorem copyBack_append (job : JobData) (first second : List UInt8)
    (inside : (first ++ second).length ≤ job.prepowLen.toNat)
    (fits : job.prepowLen.toNat ≤ prepowSize) :
    (copyBack (copyBack job (first ++ second).length first).1 second.length second).1 =
      (copyBack job (first ++ second).length (first ++ second)).1 := by
  have length : (first ++ second).length = first.length + second.length := List.length_append
  have second_inside : second.length ≤ job.prepowLen.toNat := by omega
  have starts : job.prepowLen.toNat - second.length =
      job.prepowLen.toNat - (first ++ second).length + first.length := by omega
  simp only [copyBack, if_pos inside, if_pos second_inside, starts]
  rw [Buffer.write_append _ _ _ _ (by omega)]

theorem exists_copyBack_self (inside : back ≤ job.prepowLen.toNat)
    (fits : job.prepowLen.toNat ≤ prepowSize) :
    ∃ source : List UInt8, source.length = back ∧ (copyBack job back source).1 = job := by
  have within : job.prepowLen.toNat - back + back ≤ prepowSize := by omega
  refine ⟨job.prepow.read (job.prepowLen.toNat - back) back, Buffer.read_length _ _ _ within, ?_⟩
  simp only [copyBack, if_pos inside, Buffer.write_read _ _ _ within]

theorem copyBack_frame (size : source.length = back) (inside : back ≤ job.prepowLen.toNat) :
    { (copyBack job back source).1 with prepow := job.prepow } = job ∧
      Buffer.AgreeOutside (job.prepowLen.toNat - back) back
        (copyBack job back source).1.prepow job.prepow := by
  refine ⟨rfl, ?_⟩
  simp only [copyBack, if_pos inside]
  exact Buffer.write_agreeOutside _ _ _ _ _ le_rfl (by omega)

end Blobs

end Client

structure Session where
  client : Client
  trace : List Effect

/-- The receive buffer is filled and shifted between requests; a line that is not
accepted, or none in a full buffer, aborts the client. -/
inductive SessionAction where
  | line (env : RequestEnv) (buf : List UInt8)
  | newBlock (env : RequestEnv)
  | recvBuf (buffer : SockBuffer)
  | overflow

namespace Session

open Client

section System

variable (maxCallsPerMin : Nat) (parse : List UInt8 → Option Value)

def next (s : Session) : SessionAction → Option Session
  | .line env buf =>
      match processLine maxCallsPerMin parse env s.client buf with
      | .ok (accepted, c, effects) =>
          some ⟨if accepted then c else c.hardAbort, s.trace ++ effects⟩
      | .error _ => none
  | .newBlock env =>
      match onNewBlock env s.client with
      | (true, c, effects) => some ⟨c, s.trace ++ effects⟩
      | (false, _, _) => none
  | .recvBuf buffer => some { s with client := { s.client with recvBuf := buffer } }
  | .overflow => some { s with client := s.client.hardAbort }

def system : System Session SessionAction where
  start s := ∃ fd extraNonce stale, s = ⟨construct fd extraNonce stale, []⟩
  next := next maxCallsPerMin parse

end System

/-- get_current_job returns a job with this property. -/
def Supplied (holds : JobData → Prop) (_ : Session) : SessionAction → Prop
  | .line env _ => holds env.currentJob
  | .newBlock env => holds env.currentJob
  | _ => True

def LoggedInBefore (trace : List Effect) : Prop :=
  ∃ callId message, .send (.login callId message) ∈ trace

/-- The job of a client that was told about `job`: its extra nonce and the nonce of
the last share checked stand in the last eight bytes. -/
def Mining (v : View) (job : JobData) : Prop :=
  ∃ nonce : List UInt8, nonce.length = 4 ∧
    v.curJob = (copyBack (freshJob job v.extraNonce) 4 nonce).1

/-- What a logged-in client works on, and that it was told so. -/
def Told (holds : JobData → Prop) (v : View) (trace : List Effect) : Prop :=
  ∃ job, holds job ∧ lastJob trace = some job ∧ Mining v job ∧
    lastMessage trace = some (jobMessage (freshJob job v.extraNonce) v.jobid)

structure Inv (holds : JobData → Prop) (s : Session) : Prop where
  login : s.client.loggedIn = true ↔ LoggedInBefore s.trace
  told : s.client.loggedIn = true → Told holds s.client.view s.trace

section Invariant

variable {holds : JobData → Prop}

theorem loggedInBefore_append (first second : List Effect) :
    LoggedInBefore (first ++ second) ↔ LoggedInBefore first ∨ LoggedInBefore second := by
  constructor
  · rintro ⟨callId, message, member⟩
    rcases List.mem_append.mp member with early | late
    · exact .inl ⟨callId, message, early⟩
    · exact .inr ⟨callId, message, late⟩
  · rintro (⟨callId, message, member⟩ | ⟨callId, message, member⟩)
    · exact ⟨callId, message, List.mem_append_left _ member⟩
    · exact ⟨callId, message, List.mem_append_right _ member⟩

theorem not_loggedInBefore_quiet {effects : List Effect} (quiet : Quiet effects) :
    ¬ LoggedInBefore effects := by
  rintro ⟨callId, message, member⟩
  cases (quiet _ member).2

theorem inv_quiet (s : Session) (c : Client) (effects : List Effect) (before : Inv holds s)
    (loggedIn : c.loggedIn = s.client.loggedIn) (quiet : Quiet effects)
    (told : Told holds s.client.view s.trace → Told holds c.view s.trace) :
    Inv holds ⟨c, s.trace ++ effects⟩ where
  login := by
    rw [loggedInBefore_append, loggedIn, before.login]
    exact ⟨.inl, fun either => either.resolve_right (not_loggedInBefore_quiet quiet)⟩
  told := by
    intro miner
    obtain ⟨job, good, fetched, mining, message⟩ := told (before.told (loggedIn ▸ miner))
    refine ⟨job, good, ?_, mining, ?_⟩
    · rw [lastJob_append_quiet _ _ quiet, fetched]
    · rw [lastMessage_append_quiet _ _ quiet, message]

/-- A job that is given replaces whatever the client was told before. -/
theorem inv_given (bounds : ∀ job, holds job → 8 ≤ job.prepowLen.toNat ∧
    job.prepowLen.toNat ≤ prepowSize) (s : Session) (c : Client) (job : JobData)
    (effects : List Effect) (good : holds job) (given : c.view = s.client.view.given job)
    (fetched : lastJob (s.trace ++ effects) = some job)
    (message : lastMessage (s.trace ++ effects) = some (s.client.view.given job).message)
    (login : LoggedInBefore (s.trace ++ effects)) :
    Inv holds ⟨c, s.trace ++ effects⟩ where
  login := by
    have loggedIn : c.loggedIn = true := congrArg View.loggedIn given
    exact iff_of_true loggedIn login
  told := by
    intro _
    obtain ⟨room, fits⟩ := bounds job good
    obtain ⟨nonce, size, same⟩ :=
      exists_copyBack_self (freshJob job s.client.extraNonce) 4
        (by simpa [freshJob, copyBack] using (by omega : 4 ≤ job.prepowLen.toNat))
        (by simpa [freshJob, copyBack] using fits)
    refine ⟨job, good, fetched, ⟨nonce, size, ?_⟩, ?_⟩
    · rw [given]
      exact same.symm
    · rw [message, given]
      rfl

theorem lastJob_given (trace : List Effect) (job : JobData) (extraNonce : UInt32)
    (env : RequestEnv) (c : Client) (reply : Reply) :
    lastJob (trace ++ (giveEffects job extraNonce ++ (netSend env c reply).2)) = some job := by
  have fetched : (giveEffects job extraNonce).filterMap Effect.job? = [job] := rfl
  have rest : (netSend env c reply).2.filterMap Effect.job? = [] := rfl
  rw [lastJob, List.filterMap_append, List.filterMap_append, fetched, rest]
  simp

theorem lastMessage_given (trace : List Effect) (job : JobData) (extraNonce : UInt32)
    (env : RequestEnv) (c : Client) (reply : Reply) (message : JobMessage)
    (carries : (Effect.send reply).message? = some message) :
    lastMessage (trace ++ (giveEffects job extraNonce ++ (netSend env c reply).2)) =
      some message := by
  have none : (giveEffects job extraNonce).filterMap Effect.message? = [] := rfl
  have rest : (netSend env c reply).2.filterMap Effect.message? = [message] := by
    have silent : ∀ a, (Effect.access a).message? = Option.none := fun _ => rfl
    simp [netSend, carries, silent]
  rw [lastMessage, List.filterMap_append, List.filterMap_append, none, rest]
  simp

/-- A share that is checked overwrites the nonce of the one before. -/
theorem mining_minedJob (c : Client) (nonce : UInt32) (job : JobData)
    (mining : Mining c.view job) : Mining { c.view with curJob := minedJob c nonce } job := by
  obtain ⟨earlier, size, same⟩ := mining
  have curJob : c.curJob = (copyBack (freshJob job c.extraNonce) 4 earlier).1 := same
  rcases type : c.curJob.type with _ | _ | _
  · refine ⟨store32 nonce, store32_length nonce, ?_⟩
    simp only [minedJob, type]
    rw [curJob, copyBack_copyBack _ _ _ _ (by rw [size, store32_length])]
    rfl
  all_goals
    refine ⟨earlier, size, ?_⟩
    simp only [minedJob, type]
    exact curJob

variable (bounds : ∀ job, holds job → 8 ≤ job.prepowLen.toNat ∧ job.prepowLen.toNat ≤ prepowSize)

include bounds

theorem handled_inv (env : RequestEnv) (s : Session) (out : Client × List Effect)
    (supplied : holds env.currentJob) (before : Inv holds s) (handled : Handled env s.client out) :
    Inv holds ⟨out.1, s.trace ++ out.2⟩ := by
  cases handled with
  | answered counted reply same plain =>
      have view : (netSend env counted reply).1.view = s.client.view := by
        rw [view_netSend, same]
      refine inv_quiet s _ _ before (congrArg View.loggedIn view) (quiet_netSend env _ _ plain) ?_
      rw [view]
      exact id
  | login counted callId same fresh =>
      have stranger : counted.loggedIn = false := (congrArg View.loggedIn same).trans fresh
      obtain ⟨view, effects⟩ := giveFirstJob_given env counted callId
      rw [same] at view effects
      refine inv_given bounds s _ env.currentJob _ supplied view ?_ ?_ ?_
      · rw [effects, lastJob_given]
      · rw [effects, lastMessage_given _ _ _ _ _ _ _ rfl]
      · rw [effects]
        refine ⟨callId, (s.client.view.given env.currentJob).message, ?_⟩
        simp [netSend]
  | share counted callId args nonce same wellFormed =>
      have view := view_checkShare env counted callId nonce
      refine inv_quiet s _ _ before ?_ (quiet_checkShare env counted callId nonce) ?_
      · exact (congrArg View.loggedIn view).trans (congrArg View.loggedIn same)
      · rintro ⟨job, good, fetched, mining, message⟩
        rw [← same] at mining message
        rw [view]
        exact ⟨job, good, fetched, mining_minedJob counted nonce job mining, message⟩

/-- A new block makes a client work on the job it was given, whatever it worked on
before. -/
theorem newBlock_inv (s : Session) (env : RequestEnv) (supplied : holds env.currentJob)
    (login : s.client.loggedIn = true ↔ LoggedInBefore s.trace)
    (alive : s.client.aborting = false) :
    Inv holds ⟨(onNewBlock env s.client).2.1, s.trace ++ (onNewBlock env s.client).2.2⟩ := by
  rcases miner : s.client.loggedIn with _ | _
  · rw [onNewBlock_stranger env s.client alive miner]
    constructor
    · rw [loggedInBefore_append, ← login]
      refine ⟨.inl, fun either => either.resolve_right ?_⟩
      rintro ⟨callId, message, member⟩
      simp at member
    · intro impossible
      rw [miner] at impossible
      cases impossible
  · obtain ⟨_, view, effects⟩ := onNewBlock_miner env s.client alive miner
    refine inv_given bounds s _ env.currentJob _ supplied view ?_ ?_ ?_
    · rw [effects, lastJob_given]
    · rw [effects, lastMessage_given _ _ _ _ _ _ _ rfl]
    · exact (loggedInBefore_append _ _).mpr (.inl (login.mp miner))

theorem next_inv {maxCallsPerMin : Nat} {parse : List UInt8 → Option Value} (s t : Session)
    (a : SessionAction) (before : Inv holds s) (supplied : Supplied holds s a)
    (stepped : next maxCallsPerMin parse s a = some t) : Inv holds t := by
  cases a with
  | line env buf =>
      simp only [next] at stepped
      split at stepped
      · rename_i accepted c effects ran
        cases stepped
        rcases processLine_handled buf accepted c effects ran with
          ⟨rfl, rfl, rfl⟩ | ⟨rfl, handled⟩
        · exact inv_quiet s _ [] before rfl (fun e member => by cases member) id
        · exact handled_inv bounds env s (c, effects) supplied before handled
      · cases stepped
  | newBlock env =>
      simp only [next] at stepped
      rcases aborting : s.client.aborting with _ | _
      · have given := newBlock_inv bounds s env supplied before.login aborting
        split at stepped
        · rename_i c effects ran
          cases stepped
          rwa [ran] at given
        · cases stepped
      · rw [onNewBlock_aborting env s.client aborting] at stepped
        cases stepped
  | recvBuf buffer =>
      cases stepped
      exact ⟨before.login, before.told⟩
  | overflow =>
      cases stepped
      exact ⟨before.login, before.told⟩

theorem reachable_inv {maxCallsPerMin : Nat} {parse : List UInt8 → Option Value} {s : Session}
    (reached : (system maxCallsPerMin parse).ReachableUnder (Supplied holds) s) :
    Inv holds s := by
  refine reached.invariant (Inv holds) ?_ ?_
  · rintro s ⟨fd, extraNonce, stale, rfl⟩
    constructor
    · refine iff_of_false (by simp [construct]) ?_
      rintro ⟨callId, message, member⟩
      cases member
    · intro impossible
      cases impossible
  · intro s a t _ before supplied stepped
    exact next_inv bounds s t a before supplied stepped

end Invariant

theorem handled_extraNonce {env : RequestEnv} {c : Client} {out : Client × List Effect}
    (handled : Handled env c out) : out.1.extraNonce = c.extraNonce := by
  cases handled with
  | answered counted reply same plain =>
      exact congrArg View.extraNonce ((view_netSend env counted reply).trans same)
  | login counted callId same fresh =>
      have stranger : counted.loggedIn = false := (congrArg View.loggedIn same).trans fresh
      have view := (giveFirstJob_given env counted callId).1
      exact (congrArg View.extraNonce view).trans (congrArg View.extraNonce same)
  | share counted callId args nonce same wellFormed =>
      have view := view_checkShare env counted callId nonce
      exact (congrArg View.extraNonce view).trans (congrArg View.extraNonce same)

theorem next_extraNonce_fd {maxCallsPerMin : Nat} {parse : List UInt8 → Option Value}
    {s t : Session} {a : SessionAction} (stepped : next maxCallsPerMin parse s a = some t) :
    t.client.extraNonce = s.client.extraNonce ∧ t.client.fd = s.client.fd := by
  cases a with
  | line env buf =>
      simp only [next] at stepped
      split at stepped
      · rename_i accepted c effects ran
        cases stepped
        have fd := processLine_fd ran
        rcases processLine_handled buf accepted c effects ran with
          ⟨rfl, rfl, rfl⟩ | ⟨rfl, handled⟩
        · exact ⟨rfl, rfl⟩
        · exact ⟨handled_extraNonce handled, fd⟩
      · cases stepped
  | newBlock env =>
      have fd := fd_onNewBlock env s.client
      simp only [next] at stepped
      split at stepped
      · rename_i c effects ran
        cases stepped
        rw [ran] at fd
        refine ⟨?_, fd⟩
        rcases aborting : s.client.aborting with _ | _
        · rcases miner : s.client.loggedIn with _ | _
          · rw [onNewBlock_stranger env s.client aborting miner] at ran
            cases ran
            rfl
          · have view := (onNewBlock_miner env s.client aborting miner).2.1
            rw [ran] at view
            exact congrArg View.extraNonce view
        · rw [onNewBlock_aborting env s.client aborting] at ran
          cases ran
      · cases stepped
  | recvBuf buffer =>
      cases stepped
      exact ⟨rfl, rfl⟩
  | overflow =>
      cases stepped
      exact ⟨rfl, rfl⟩

section Sockets

variable {maxCallsPerMin : Nat} {parse : List UInt8 → Option Value} {holds : JobData → Prop}

section Keeping

variable {keeps : Session → Prop} (kept : ∀ s t a, keeps s → Supplied holds s a →
  next maxCallsPerMin parse s a = some t → keeps t)

include kept

theorem keeps_recvBuf {c : Client} {trace : List Effect} (before : keeps ⟨c, trace⟩)
    (buffer : SockBuffer) : keeps ⟨{ c with recvBuf := buffer }, trace⟩ :=
  kept _ _ (.recvBuf buffer) before trivial rfl

theorem keeps_hardAbort {c : Client} {trace : List Effect} (before : keeps ⟨c, trace⟩) :
    keeps ⟨c.hardAbort, trace⟩ :=
  kept _ _ .overflow before trivial rfl

theorem keeps_line {c : Client} {trace : List Effect} (before : keeps ⟨c, trace⟩)
    {env : RequestEnv} {buf : List UInt8} (supplied : holds env.currentJob) {accepted : Bool}
    {after : Client} {effects : List Effect}
    (ran : processLine maxCallsPerMin parse env c buf = .ok (accepted, after, effects)) :
    keeps ⟨if accepted then after else after.hardAbort, trace ++ effects⟩ := by
  refine kept ⟨c, trace⟩ _ (.line env buf) before supplied ?_
  simp only [next, ran]

theorem lineTurns_keeps {request : Nat → RequestEnv}
    (supplied : ∀ k, holds (request k).currentJob) {turns handled lnstart : Nat} {c : Client}
    {fine : Bool} {rest : Nat} {after : Client} {effects : List Effect} {total : Nat}
    (ran : LineTurns maxCallsPerMin parse request turns handled lnstart c fine rest after effects
      total) : ∀ trace, keeps ⟨c, trace⟩ →
      keeps ⟨if fine then after else after.hardAbort, trace ++ effects⟩ := by
  induction ran with
  | out | done =>
      intro trace before
      simpa using before
  | rejected turns handled lnstart i c after effects found ran =>
      intro trace before
      exact keeps_line kept before (supplied handled) ran
  | accepted turns handled lnstart i c middle first fine rest after more total found ran _ ih =>
      intro trace before
      have stepped := keeps_line kept before (supplied handled) ran
      rw [← List.append_assoc]
      exact ih _ (keeps_recvBuf kept stepped _)

theorem keeps_netRecv {c : Client} {trace : List Effect} (before : keeps ⟨c, trace⟩)
    (result : ReadResult) : keeps ⟨(netRecv c result).2, trace⟩ := by
  cases result with
  | bytes data => exact keeps_recvBuf kept before _
  | failed wouldBlock => exact before

theorem keeps_moveLeftover {c : Client} {trace : List Effect} (before : keeps ⟨c, trace⟩)
    (lnstart : Nat) : keeps ⟨moveLeftover c lnstart, trace⟩ := by
  rw [moveLeftover]
  split
  · exact keeps_recvBuf kept before _
  · exact before

theorem reads_keeps {request : Nat → RequestEnv} (supplied : ∀ k, holds (request k).currentJob)
    {reads : List ReadResult} {handled : Nat} {c after : Client} {keep : Bool}
    {effects : List Effect}
    (ran : Reads maxCallsPerMin parse request reads handled c keep after effects) :
    ∀ trace, keeps ⟨c, trace⟩ → keeps ⟨after, trace ++ effects⟩ := by
  induction ran with
  | deaf | drained =>
      intro trace before
      simpa using before
  | waits result rest handled c _ _ | closed result rest handled c _ _ =>
      intro trace before
      simpa using keeps_netRecv kept before result
  | filled result rest handled c _ _ _ =>
      intro trace before
      simpa using keeps_hardAbort kept (keeps_netRecv kept before result)
  | rejected result rest handled c lnstart middle effects total _ _ _ lines =>
      intro trace before
      exact lineTurns_keeps kept supplied lines _ (keeps_netRecv kept before result)
  | goesOn result rest handled c lnstart middle first total keep after more _ _ _ lines _ ih =>
      intro trace before
      have looped := lineTurns_keeps kept supplied lines _ (keeps_netRecv kept before result)
      rw [← List.append_assoc]
      exact ih _ (keeps_moveLeftover kept looped lnstart)

/-- Whatever the steps of a session keep, on_socket_read keeps. -/
theorem onSocketRead_keeps {env : SocketEnv} (supplied : ∀ k, holds (env.request k).currentJob)
    {c after : Client} {trace effects : List Effect} {keep : Bool} (before : keeps ⟨c, trace⟩)
    (ran : onSocketRead maxCallsPerMin parse env c = .ok (keep, after, effects)) :
    keeps ⟨after, trace ++ effects⟩ :=
  reads_keeps kept supplied (socketLoop_reads env.reads 0 c keep after effects ran) trace before

end Keeping

variable (maxCallsPerMin parse holds) in
def Reaches (c : Client) (trace : List Effect) : Prop :=
  (system maxCallsPerMin parse).ReachableUnder (Supplied holds) ⟨c, trace⟩

/-- What on_socket_read does to a client is a run of request lines. -/
theorem onSocketRead_reaches {env : SocketEnv} (supplied : ∀ k, holds (env.request k).currentJob)
    {c after : Client} {trace effects : List Effect} {keep : Bool}
    (reached : Reaches maxCallsPerMin parse holds c trace)
    (ran : onSocketRead maxCallsPerMin parse env c = .ok (keep, after, effects)) :
    Reaches maxCallsPerMin parse holds after (trace ++ effects) :=
  onSocketRead_keeps (fun _ _ _ earlier fine stepped => .step earlier fine stepped) supplied
    reached ran

end Sockets

end Session

end EpicPoold
