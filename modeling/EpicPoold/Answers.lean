import EpicPoold.ClientReads
import EpicPoold.JobBounds
import EpicPoold.JsonParse
import EpicPoold.PoolClient

/-! Requests and their replies: each line that is a JSON object gets one reply line with
its id, in the order of the requests, and no other line gets any. -/

namespace EpicPoold

open Foundations

/-- The id of the request a reply belongs to; a job notification answers none. -/
def Reply.callId? : Reply → Option Int64
  | .error callId _ => some callId
  | .login callId _ => some callId
  | .status callId => some callId
  | .job _ => none

def Effect.reply? : Effect → Option Reply
  | .send reply => some reply
  | _ => none

def replies (effects : List Effect) : List Reply := effects.filterMap Effect.reply?

@[simp] theorem replies_nil : replies [] = [] := rfl

@[simp] theorem replies_append (first second : List Effect) :
    replies (first ++ second) = replies first ++ replies second :=
  List.filterMap_append

def answerIds (effects : List Effect) : List Int64 := (replies effects).filterMap Reply.callId?

@[simp] theorem answerIds_append (first second : List Effect) :
    answerIds (first ++ second) = answerIds first ++ answerIds second := by
  rw [answerIds, replies_append, List.filterMap_append]
  rfl

def IsLine (text : List UInt8) : Prop := ∃ body, text = body ++ [0x0a] ∧ 0x0a ∉ body

/-- The id a request is answered with: its own if that is a 64-bit signed integer. -/
def answerId (doc : Value) : Int64 :=
  match getObjectMember doc "id" with
  | .ok (some (.number (.integer n _))) => if n < 2 ^ 63 then Int64.ofInt n else 0
  | _ => 0

def HasId (callId : Int64) (text : List UInt8) : Prop :=
  ∃ rest, text = ascii "\x7b\"id\":" ++ signedDecimal callId ++ 0x2c :: rest

structure Answered (callId : Int64) (effects : List Effect) (reply : Reply) : Prop where
  once : replies effects = [reply]
  own : reply.callId? = some callId
  text : HasId callId reply.text
  line : IsLine reply.text

section Texts

def Inline (text : List UInt8) : Prop := 0x0a ∉ text

instance (text : List UInt8) : Decidable (Inline text) := inferInstanceAs (Decidable (¬ _))

theorem inline_append (first second : List UInt8) :
    Inline (first ++ second) ↔ Inline first ∧ Inline second := by
  rw [Inline, List.mem_append, not_or]
  rfl

theorem isLine_append {body tail : List UInt8} (inside : Inline body) (last : IsLine tail) :
    IsLine (body ++ tail) := by
  obtain ⟨rest, same, without⟩ := last
  refine ⟨body ++ rest, ?_, (inline_append _ _).mpr ⟨inside, without⟩⟩
  rw [same, List.append_assoc]

theorem isLine_of_last {text : List UInt8} (last : text.getLast? = some 0x0a)
    (inside : Inline text.dropLast) : IsLine text :=
  ⟨text.dropLast, (List.dropLast_append_getLast? _ last).symm, inside⟩

theorem inline_ascii_digits {text : String} (digits : ∀ c ∈ text.toList, c.isDigit = true) :
    Inline (ascii text) := by
  intro member
  obtain ⟨c, present, newline⟩ := List.mem_map.mp member
  have digit := digits c present
  simp only [Char.isDigit, Bool.and_eq_true, decide_eq_true_eq] at digit
  have low : 48 ≤ c.toNat := UInt32.le_iff_toNat_le.mp digit.1
  have high : c.toNat ≤ 57 := UInt32.le_iff_toNat_le.mp digit.2
  have value : c.toNat % 256 = 10 := by
    rw [← UInt8.toNat_ofNat', newline]
    rfl
  omega

theorem inline_decimal (n : Nat) : Inline (decimal n) := by
  apply inline_ascii_digits
  intro c member
  rw [Nat.repr, String.toList_ofList] at member
  exact Nat.isDigit_of_mem_toDigits (by decide) (by decide) member

theorem inline_signedDecimal (n : Int64) : Inline (signedDecimal n) := by
  rw [signedDecimal]
  split
  · intro member
    rcases List.mem_cons.mp member with sign | digit
    · cases sign
    · exact inline_decimal _ digit
  · exact inline_decimal _

theorem hfBin2hex_ne_newline (digit : Fin 16) : hfBin2hex (UInt8.ofNat digit.val) ≠ 0x0a := by
  revert digit
  decide

theorem inline_bin2hex (bytes : List UInt8) : Inline (bin2hex bytes) := by
  induction bytes with
  | nil => exact List.not_mem_nil
  | cons b rest ih =>
      obtain ⟨high, low, first, second, _⟩ := nibbles b
      rw [bin2hex_cons, first, second]
      intro member
      simp only [List.mem_cons] at member
      rcases member with newline | newline | later
      · exact hfBin2hex_ne_newline high newline.symm
      · exact hfBin2hex_ne_newline low newline.symm
      · exact ih later

theorem inline_powTypeToStr (type : PowType) : Inline (ascii (powTypeToStr type)) := by
  cases type with
  | randomx | progpow | cuckoo => decide

theorem inline_jobMessage (job : JobData) (jobid : UInt32) :
    Inline (Client.jobMessage job jobid).text := by
  simp only [JobMessage.text, Client.jobMessage, inline_append, inline_bin2hex, inline_decimal,
    inline_powTypeToStr, and_true]
  decide

end Texts

section Replies

/-- The errors that a method answers with, and those of process_line itself. -/
def methodErrors : List String :=
  ["You are logged in.", "Malformed submit", "Invalid jobid", "Invalid nonce", "Invalid result",
    "Stale job id", "Server error while checking share.", "Bad share"]

def lineErrors : List String := ["Malformed request", "Slow down", "Unknown method"]

inductive Reply.FromMethod (callId : Int64) : Reply → Prop
  | error (message : String) (known : message ∈ methodErrors) :
      FromMethod callId (.error callId message)
  | login (job : JobData) (jobid : UInt32) :
      FromMethod callId (.login callId (Client.jobMessage job jobid))
  | status : FromMethod callId (.status callId)

theorem answered_error {callId : Int64} {effects : List Effect} {message : String}
    (once : replies effects = [.error callId message]) (inside : Inline (ascii message)) :
    Answered callId effects (.error callId message) := by
  refine ⟨once, rfl, ?_, ?_⟩
  · simp only [Reply.text, HasId, List.append_assoc, List.append_cancel_left_eq]
    exact ⟨_, rfl⟩
  · apply isLine_append
    · simp only [inline_append, inline_signedDecimal, inside, and_true]
      decide
    · exact isLine_of_last (by decide) (by decide)

theorem answered_lineError {callId : Int64} {effects : List Effect} {message : String}
    (once : replies effects = [.error callId message]) (known : message ∈ lineErrors) :
    Answered callId effects (.error callId message) := by
  have inside : ∀ known ∈ lineErrors, Inline (ascii known) := by decide
  exact answered_error once (inside message known)

theorem Reply.FromMethod.answered {callId : Int64} {effects : List Effect} {reply : Reply}
    (own : reply.FromMethod callId) (once : replies effects = [reply]) :
    Answered callId effects reply := by
  cases own with
  | error message known =>
      have inside : ∀ known ∈ methodErrors, Inline (ascii known) := by decide
      exact answered_error once (inside message known)
  | login job jobid =>
      refine ⟨once, rfl, ?_, ?_⟩
      · simp only [Reply.text, HasId, List.append_assoc, List.append_cancel_left_eq]
        exact ⟨_, rfl⟩
      · apply isLine_append
        · simp only [inline_append, inline_signedDecimal, inline_jobMessage, and_true]
          decide
        · exact isLine_of_last (by decide) (by decide)
  | status =>
      refine ⟨once, rfl, ?_, ?_⟩
      · simp only [Reply.text, HasId, List.append_assoc, List.append_cancel_left_eq]
        exact ⟨_, rfl⟩
      · apply isLine_append
        · simp only [inline_append, inline_signedDecimal, and_true]
          decide
        · exact isLine_of_last (by decide) (by decide)

end Replies

namespace Client

section Methods

variable {env : RequestEnv} {c : Client} {callId : Int64} {args : Value}

@[simp] theorem replies_netSend (env : RequestEnv) (c : Client) (reply : Reply) :
    replies (netSend env c reply).2 = [reply] := rfl

theorem replies_hashing {effects : List Effect} (hashing : ∀ e ∈ effects, Hashing e) :
    replies effects = [] := by
  apply List.filterMap_eq_nil_iff.mpr
  intro e member
  rcases hashing e member with ⟨_, rfl⟩ | ⟨_, rfl⟩ | ⟨_, rfl⟩
  all_goals rfl

theorem replies_forwarded (env : RequestEnv) (c : Client) (nonce : UInt32) :
    replies (forwarded env c nonce) = [] := by
  rw [forwarded]
  split
  · rfl
  · rfl

theorem replies_checkShare (env : RequestEnv) (c : Client) (callId : Int64) (nonce : UInt32) :
    replies (checkShare env c callId nonce).2 = [shareReply env c callId nonce] := by
  have hashed := replies_hashing (checkClientWork_effects env c nonce)
  rw [checkShare_eq]
  simp only [List.cons_append]
  change replies ((checkClientWork env c nonce).2.2 ++ _) = _
  rw [replies_append, replies_append, hashed, replies_forwarded]
  rfl

theorem shareReply_fromMethod (env : RequestEnv) (c : Client) (callId : Int64) (nonce : UInt32) :
    (shareReply env c callId nonce).FromMethod callId := by
  rw [shareReply]
  split
  · exact .error _ (by decide)
  · split
    · exact .error _ (by decide)
    · exact .status

theorem refusals_methodErrors : ∀ message ∈ refusals, message ∈ methodErrors := by decide

theorem dispatch_replies {method : Method} {out : Client × List Effect}
    (ran : dispatch env c callId args method = .ok out) :
    ∃ reply, reply.FromMethod callId ∧ replies out.2 = [reply] := by
  cases method with
  | submit =>
      rw [dispatch, processMethodSubmit, bind_eq_ok] at ran
      obtain ⟨outcome, gate, ran⟩ := ran
      cases outcome with
      | error message =>
          cases ran
          have known := refusals_methodErrors message (submitGate_error c args message gate)
          exact ⟨_, .error message known, rfl⟩
      | ok nonce =>
          cases ran
          exact ⟨_, shareReply_fromMethod env c callId nonce, replies_checkShare env c callId nonce⟩
  | login =>
      rcases processMethodLogin_eq_ok ran with ⟨_, rfl⟩ | ⟨_, rfl⟩
      · exact ⟨.error callId "You are logged in.", .error _ (by decide), rfl⟩
      · refine ⟨_, .login (c.view.given env.currentJob).curJob
          (c.view.given env.currentJob).jobid, ?_⟩
        rw [(giveFirstJob_given env c callId).2, replies_append, replies_netSend]
        rfl
  | keepalive =>
      cases ran
      exact ⟨.status callId, .status, rfl⟩

end Methods

def IsRequest (doc : Value) : Prop :=
  ∃ text args, getObjectMember doc "method" = .ok (some (.string text)) ∧
    getObjectMember doc "params" = .ok (some args) ∧ args.isObject = true

inductive Treatment where
  | malformed
  | refused
  | unknown
  | dispatched
  deriving DecidableEq

/-- What process_line does with a JSON object, by what becomes of it. -/
inductive Treated (maxCallsPerMin : Nat) (env : RequestEnv) (c : Client) (doc : Value) :
    Treatment → Client × List Effect → Prop
  | malformed (bad : ¬ IsRequest doc) :
      Treated maxCallsPerMin env c doc .malformed
        (sendErrorResponse env c (answerId doc) "Malformed request")
  | refused (good : IsRequest doc)
      (more : maxCallsPerMin < (countCall env.time c).floodCount.toNat) :
      Treated maxCallsPerMin env c doc .refused
        (sendErrorResponse env (countCall env.time c) (answerId doc) "Slow down")
  | unknown (good : IsRequest doc)
      (within : (countCall env.time c).floodCount.toNat ≤ maxCallsPerMin) :
      Treated maxCallsPerMin env c doc .unknown
        (sendErrorResponse env (countCall env.time c) (answerId doc) "Unknown method")
  | dispatched (good : IsRequest doc)
      (within : (countCall env.time c).floodCount.toNat ≤ maxCallsPerMin) (args : Value)
      (method : Method) (out : Client × List Effect)
      (ran : dispatch env (countCall env.time c) (answerId doc) args method = .ok out) :
      Treated maxCallsPerMin env c doc .dispatched out

section Requests

variable {maxCallsPerMin : Nat} {env : RequestEnv} {c : Client} {doc : Value}
  {out : Client × List Effect}

theorem requestId_eq_answerId {callId : Int64} (read : requestId doc = .ok callId) :
    callId = answerId doc := by
  rw [requestId, bind_eq_ok] at read
  obtain ⟨member, found, read⟩ := read
  rw [answerId, found]
  cases member with
  | none =>
      cases read
      rfl
  | some cid =>
      cases cid with
      | null | bool _ | string _ | array _ | object _ =>
          cases read
          rfl
      | number n =>
          cases n with
          | double =>
              cases read
              rfl
          | integer n inRange =>
              by_cases fits : n < 2 ^ 63
              · simp only [Value.isInt64, fits, decide_true, if_true, Value.getInt64,
                  Value.getInteger, Except.map] at read
                cases read
                simp only [fits, if_true]
              · simp only [Value.isInt64, fits, decide_false] at read
                cases read
                simp only [fits, if_false]

theorem processRequest_treated (ran : processRequest maxCallsPerMin env c doc = .ok out) :
    ∃ treatment, Treated maxCallsPerMin env c doc treatment out := by
  simp only [processRequest, bind_eq_ok] at ran
  obtain ⟨callId, read, method, named, args, given, ran⟩ := ran
  obtain rfl := requestId_eq_answerId read
  split at ran
  · rename_i method args
    split at ran
    · rename_i mistyped
      cases ran
      refine ⟨.malformed, .malformed ?_⟩
      rintro ⟨text, args', named', given', object⟩
      cases named.symm.trans named'
      cases given.symm.trans given'
      simp [Value.isString, object] at mistyped
    · rename_i typed
      simp only [Bool.or_eq_true, Bool.not_eq_true', not_or, Bool.not_eq_false,
        isString_eq_true] at typed
      obtain ⟨⟨text, rfl⟩, object⟩ := typed
      have good : IsRequest doc := ⟨text, args, named, given, object⟩
      split at ran
      · rename_i more
        cases ran
        exact ⟨.refused, .refused good more⟩
      · rename_i within
        rw [bind_eq_ok] at ran
        obtain ⟨text, _, ran⟩ := ran
        split at ran
        · rename_i method _
          exact ⟨.dispatched, .dispatched good (by omega) args method out ran⟩
        · cases ran
          exact ⟨.unknown, .unknown good (by omega)⟩
  · rename_i missing
    cases ran
    refine ⟨.malformed, .malformed ?_⟩
    rintro ⟨text, args', named', given', _⟩
    cases named.symm.trans named'
    cases given.symm.trans given'
    exact missing _ _ rfl rfl

theorem Treated.answered {treatment : Treatment}
    (treated : Treated maxCallsPerMin env c doc treatment out) :
    ∃ reply, Answered (answerId doc) out.2 reply := by
  cases treated with
  | malformed | refused | unknown => exact ⟨_, answered_lineError rfl (by decide)⟩
  | dispatched good within args method out ran =>
      obtain ⟨reply, own, once⟩ := dispatch_replies ran
      exact ⟨reply, own.answered once⟩

end Requests

section Lines

variable {maxCallsPerMin : Nat} {parse : List UInt8 → Option Value} {env : RequestEnv} {c : Client}
  {line : List UInt8}

variable (parse line) in
def requestOf : Option Value :=
  if line = [] then none else (parse (cstr line.dropLast)).filter Value.isObject

theorem requestOf_lineOf {doc : JsonText.Doc} (printable : JsonText.Printable doc)
    (object : (valueOf doc).isObject = true) :
    requestOf parseJson (lineOf doc) = some (valueOf doc) := by
  have nonempty : lineOf doc ≠ [] := List.concat_ne_nil _ _
  rw [requestOf, if_neg nonempty, parse_lineOf printable, Option.filter_some, if_pos object]

theorem processLine_of_none (other : requestOf parse line = none) :
    processLine maxCallsPerMin parse env c line = .ok (false, c, []) := by
  rw [requestOf] at other
  rw [processLine]
  by_cases empty : line = []
  · rw [empty]
    rfl
  · rw [if_neg empty] at other
    rw [if_neg (by simpa using empty)]
    cases parsed : parse (cstr line.dropLast) with
    | none => rfl
    | some doc =>
        rw [parsed] at other
        have scalar : doc.isObject = false := by simpa [Option.filter] using other
        simp only [scalar, Bool.not_false, if_true]
        rfl

theorem processLine_of_some {doc : Value} (request : requestOf parse line = some doc) :
    ∃ treatment out, Treated maxCallsPerMin env c doc treatment out ∧
      processLine maxCallsPerMin parse env c line = .ok (true, out) := by
  rw [requestOf] at request
  split at request
  · cases request
  rename_i nonempty
  obtain ⟨parsed, object⟩ := Option.filter_eq_some_iff.mp request
  obtain ⟨out, ran⟩ := processRequest_total maxCallsPerMin env c doc object
  obtain ⟨treatment, treated⟩ := processRequest_treated ran
  refine ⟨treatment, out, treated, ?_⟩
  rw [processLine, if_neg (by simpa using nonempty), parsed]
  simp only [object, Bool.not_true, Bool.false_eq_true, if_false, ran]
  rfl

theorem answerIds_processLine {accepted : Bool} {after : Client} {effects : List Effect}
    (ran : processLine maxCallsPerMin parse env c line = .ok (accepted, after, effects)) :
    answerIds effects = ((requestOf parse line).map answerId).toList := by
  cases request : requestOf parse line with
  | none =>
      rw [processLine_of_none request] at ran
      cases ran
      rfl
  | some doc =>
      obtain ⟨treatment, out, treated, same⟩ :=
        @processLine_of_some maxCallsPerMin parse env c line doc request
      rw [same] at ran
      cases ran
      obtain ⟨reply, answered⟩ := treated.answered
      rw [answerIds, answered.once, List.filterMap_cons, answered.own]
      rfl

theorem answerIds_onNewBlock {keep : Bool} {after : Client} {effects : List Effect}
    (ran : onNewBlock env c = (keep, after, effects)) : answerIds effects = [] := by
  cases aborting : c.aborting with
  | true =>
      rw [onNewBlock_aborting env c aborting] at ran
      cases ran
      rfl
  | false =>
      cases miner : c.loggedIn with
      | false =>
          rw [onNewBlock_stranger env c aborting miner] at ran
          cases ran
          rfl
      | true =>
          have sent := (onNewBlock_miner env c aborting miner).2.2
          rw [ran] at sent
          simp only at sent
          rw [sent, answerIds_append]
          rfl

end Lines

end Client

namespace SocketRun

open Client

variable {maxCallsPerMin : Nat} {parse : List UInt8 → Option Value} {s t : SocketRun}
  {a : SocketAction}

variable (parse) in
def requestIds (s : SocketRun) : List Int64 :=
  (s.handed.filterMap (requestOf parse)).map answerId

theorem moved_answers (before : answerIds s.trace = s.requestIds parse)
    (moved : Moved maxCallsPerMin parse s a t) : answerIds t.trace = t.requestIds parse := by
  have line {env : RequestEnv} {line : List UInt8} {accepted : Bool} {after : Client}
      {effects : List Effect}
      (ran : processLine maxCallsPerMin parse env s.client line = .ok (accepted, after, effects)) :
      answerIds (s.trace ++ effects) =
        ((s.handed ++ [line]).filterMap (requestOf parse)).map answerId := by
    rw [answerIds_append, before, answerIds_processLine ran, requestIds, List.filterMap_append,
      List.map_append]
    cases request : requestOf parse line with
    | none =>
        rw [List.filterMap_cons_none request]
        rfl
    | some doc =>
        rw [List.filterMap_cons_some request]
        rfl
  cases moved with
  | called | deaf | drained | closed | filled | received | moved => exact before
  | newBlock env keep c effects idle ran =>
      change answerIds (s.trace ++ effects) = _
      rw [answerIds_append, answerIds_onNewBlock ran, List.append_nil]
      exact before
  | rejected env left lnstart i c effects here found own ran => exact line ran
  | accepted env left lnstart i c effects here found own ran => exact line ran

theorem reachable_answers (reached : (system maxCallsPerMin parse).Reachable s) :
    answerIds s.trace = s.requestIds parse := by
  apply reached.invariant (fun s => answerIds s.trace = s.requestIds parse)
  · rintro s ⟨fd, extraNonce, stale, rfl⟩
    rfl
  · intro s a t _ before stepped
    exact moved_answers before (next_moved stepped).2

/-- A line that is no JSON object is not answered and changes nothing; any other gets one
reply line, with its id. Over the life of a client the replies are those to the requests,
in their order. -/
theorem requests_answered (maxCallsPerMin : Nat) (parse : List UInt8 → Option Value) :
    (∀ env c line, requestOf parse line = none →
      processLine maxCallsPerMin parse env c line = .ok (false, c, [])) ∧
    (∀ env c line doc, requestOf parse line = some doc → ∃ after effects reply,
      processLine maxCallsPerMin parse env c line = .ok (true, after, effects) ∧
        Answered (answerId doc) effects reply) ∧
    ∀ s, (system maxCallsPerMin parse).Reachable s → answerIds s.trace = s.requestIds parse := by
  refine ⟨fun _ _ _ => processLine_of_none, ?_, fun _ => reachable_answers⟩
  intro env c line doc request
  obtain ⟨treatment, out, treated, ran⟩ :=
    @processLine_of_some maxCallsPerMin parse env c line doc request
  obtain ⟨reply, answered⟩ := treated.answered
  exact ⟨out.1, out.2, reply, ran, answered⟩

end SocketRun

end EpicPoold
