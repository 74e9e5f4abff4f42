import EpicPoold.Answers
import EpicPoold.Decimal

/-! The lines a miner is sent, as JSON: each is one object, which a reader gets back with
its id, its error or its job as they were put in. -/

namespace EpicPoold

open Foundations Foundations.JsonText

def JobMessage.doc (m : JobMessage) : Doc :=
  .object
    [(ascii "blob", .string m.blob), (ascii "job_id", .string m.jobId),
      (ascii "target", .string m.target), (ascii "pow_algo", .string (ascii m.powAlgo)),
      (ascii "seed_hash", .string m.seedHash), (ascii "height", .number (decimal m.height.toNat))]

def answerDoc (callId : Int64) (members : List (List UInt8 × Doc)) : Doc :=
  .object ((ascii "id", .number (signedDecimal callId)) ::
    (ascii "jsonrpc", .string (ascii "2.0")) :: members)

def Reply.doc : Reply → Doc
  | .error callId message =>
      answerDoc callId
        [(ascii "error", .object
          [(ascii "code", .number (ascii "-1")), (ascii "message", .string (ascii message))])]
  | .login callId message =>
      answerDoc callId
        [(ascii "error", .null),
          (ascii "result", .object
            [(ascii "id", .string (ascii "decafbad0")), (ascii "job", message.doc),
              (ascii "status", .string (ascii "OK"))])]
  | .status callId =>
      answerDoc callId
        [(ascii "error", .null),
          (ascii "result", .object [(ascii "status", .string (ascii "OK"))])]
  | .job message =>
      .object
        [(ascii "jsonrpc", .string (ascii "2.0")), (ascii "method", .string (ascii "job")),
          (ascii "params", message.doc)]

section Texts

theorem JobMessage.text_eq_print (m : JobMessage) : m.text = m.doc.print := by
  have blob : ascii "\x7b\"blob\":\"" =
      0x7b :: quote :: (ascii "blob" ++ [quote, colon, quote]) := by decide
  have jobId : ascii "\",\"job_id\":\"" =
      quote :: comma :: quote :: (ascii "job_id" ++ [quote, colon, quote]) := by decide
  have target : ascii "\",\"target\":\"" =
      quote :: comma :: quote :: (ascii "target" ++ [quote, colon, quote]) := by decide
  have powAlgo : ascii "\",\"pow_algo\":\"" =
      quote :: comma :: quote :: (ascii "pow_algo" ++ [quote, colon, quote]) := by decide
  have seedHash : ascii "\",\"seed_hash\":\"" =
      quote :: comma :: quote :: (ascii "seed_hash" ++ [quote, colon, quote]) := by decide
  have height : ascii "\",\"height\":" =
      quote :: comma :: quote :: (ascii "height" ++ [quote, colon]) := by decide
  have close : ascii "\x7d" = [0x7d] := by decide
  rw [JobMessage.text, blob, jobId, target, powAlgo, seedHash, height, close]
  simp only [JobMessage.doc, Doc.print, printMember, printMembers, field, quoted,
    List.append_assoc, List.cons_append, List.nil_append]

theorem Reply.text_eq_print (reply : Reply) : reply.text = reply.doc.print ++ [0x0a] := by
  have opens : ascii "\x7b\"id\":" = 0x7b :: quote :: (ascii "id" ++ [quote, colon]) := by decide
  have code : ascii ",\"jsonrpc\":\"2.0\",\"error\":\x7b\"code\":-1,\"message\":\"" =
      comma :: (field (ascii "jsonrpc") (quoted (ascii "2.0")
        (comma :: field (ascii "error") (0x7b :: field (ascii "code") (ascii "-1" ++
          comma :: quote :: (ascii "message" ++ [quote, colon, quote])))))) := by decide
  have result :
      ascii ",\"jsonrpc\":\"2.0\",\"error\":null,\"result\":\x7b\"id\":\"decafbad0\",\"job\":" =
      comma :: (field (ascii "jsonrpc") (quoted (ascii "2.0")
        (comma :: field (ascii "error") (Doc.null.print ++ comma :: field (ascii "result")
          (0x7b :: field (ascii "id") (quoted (ascii "decafbad0")
            (comma :: quote :: (ascii "job" ++ [quote, colon])))))))) := by decide
  have status :
      ascii ",\"jsonrpc\":\"2.0\",\"error\":null,\"result\":\x7b\"status\":\"OK\"\x7d\x7d\n" =
      comma :: (field (ascii "jsonrpc") (quoted (ascii "2.0")
        (comma :: field (ascii "error") (Doc.null.print ++ comma :: field (ascii "result")
          (0x7b :: field (ascii "status") (quoted (ascii "OK") [0x7d, 0x7d, 0x0a])))))) := by decide
  have ends : ascii ",\"status\":\"OK\"\x7d\x7d\n" =
      comma :: field (ascii "status") (quoted (ascii "OK") [0x7d, 0x7d, 0x0a]) := by decide
  have job : ascii "\x7b\"jsonrpc\":\"2.0\",\"method\":\"job\",\"params\":" =
      0x7b :: field (ascii "jsonrpc") (quoted (ascii "2.0") (comma :: field (ascii "method")
        (quoted (ascii "job") (comma :: quote :: (ascii "params" ++ [quote, colon]))))) := by decide
  have close : ascii "\x7d\n" = [0x7d, 0x0a] := by decide
  have closeError : ascii "\"\x7d\x7d\n" = [quote, 0x7d, 0x7d, 0x0a] := by decide
  cases reply with
  | error callId message =>
      rw [Reply.text, opens, code, closeError]
      simp only [Reply.doc, answerDoc, Doc.print, printMember, printMembers, field, quoted,
        List.append_assoc, List.cons_append, List.nil_append]
  | login callId message =>
      rw [Reply.text, opens, result, ends, message.text_eq_print]
      simp only [Reply.doc, answerDoc, Doc.print, printMember, printMembers, field, quoted,
        List.append_assoc, List.cons_append, List.nil_append]
  | status callId =>
      rw [Reply.text, opens, status]
      simp only [Reply.doc, answerDoc, Doc.print, printMember, printMembers, field, quoted,
        List.append_assoc, List.cons_append, List.nil_append]
  | job message =>
      rw [Reply.text, job, close, message.text_eq_print]
      simp only [Reply.doc, Doc.print, printMember, printMembers, field, quoted,
        List.append_assoc, List.cons_append, List.nil_append]

theorem plain_powTypeToStr (type : PowType) : ∀ b ∈ ascii (powTypeToStr type), IsPlain b := by
  apply plain_of_allPlain
  cases type with
  | randomx | progpow | cuckoo => rfl

theorem printable_jobMessage (job : JobData) (jobid : UInt32) :
    Printable (Client.jobMessage job jobid).doc :=
  .cons (plain_of_allPlain rfl) (.string (plain_bin2hex _)) <|
  .cons (plain_of_allPlain rfl) (.string (plain_bin2hex _)) <|
  .cons (plain_of_allPlain rfl) (.string (plain_bin2hex _)) <|
  .cons (plain_of_allPlain rfl) (.string (plain_powTypeToStr job.type)) <|
  .cons (plain_of_allPlain rfl) (.string (plain_bin2hex _)) <|
  .cons (plain_of_allPlain rfl) (.number (isInteger_decimal _)) .nil

theorem printable_answer {callId : Int64} {members : List (List UInt8 × Doc)}
    (others : Printable (.object members)) : Printable (answerDoc callId members) :=
  .cons (plain_of_allPlain rfl) (.number (isInteger_signedDecimal callId)) <|
  .cons (plain_of_allPlain rfl) (.string (plain_of_allPlain rfl)) others

end Texts

inductive Reply.Sent : Reply → Prop
  | error (callId : Int64) (message : String) (known : message ∈ methodErrors ++ lineErrors) :
      Sent (.error callId message)
  | login (callId : Int64) (job : JobData) (jobid : UInt32) :
      Sent (.login callId (Client.jobMessage job jobid))
  | status (callId : Int64) : Sent (.status callId)
  | job (job : JobData) (jobid : UInt32) : Sent (.job (Client.jobMessage job jobid))

theorem printable_status : Printable (.object [(ascii "status", .string (ascii "OK"))]) :=
  .cons (plain_of_allPlain rfl) (.string (plain_of_allPlain rfl)) .nil

theorem Reply.Sent.printable {reply : Reply} (sent : reply.Sent) : Printable reply.doc := by
  cases sent with
  | error callId message known =>
      have texts : ∀ text ∈ methodErrors ++ lineErrors, allPlain (ascii text) = true := by decide
      have plain := plain_of_allPlain (texts message known)
      have code : IsInteger (ascii "-1") := .inr ⟨decimal 1, rfl, isNatural_decimal 1⟩
      have inner : Printable (.object
          [(ascii "code", .number (ascii "-1")), (ascii "message", .string (ascii message))]) :=
        .cons (plain_of_allPlain rfl) (.number code) <|
        .cons (plain_of_allPlain rfl) (.string plain) .nil
      exact printable_answer (.cons (plain_of_allPlain rfl) inner .nil)
  | login callId job jobid =>
      have inner : Printable (.object [(ascii "id", .string (ascii "decafbad0")),
          (ascii "job", (Client.jobMessage job jobid).doc),
          (ascii "status", .string (ascii "OK"))]) :=
        .cons (plain_of_allPlain rfl) (.string (plain_of_allPlain rfl)) <|
        .cons (plain_of_allPlain rfl) (printable_jobMessage job jobid) printable_status
      exact printable_answer (.cons (plain_of_allPlain rfl) .null <|
        .cons (plain_of_allPlain rfl) inner .nil)
  | status callId =>
      exact printable_answer (.cons (plain_of_allPlain rfl) .null <|
        .cons (plain_of_allPlain rfl) printable_status .nil)
  | job job jobid =>
      exact .cons (plain_of_allPlain rfl) (.string (plain_of_allPlain rfl)) <|
        .cons (plain_of_allPlain rfl) (.string (plain_of_allPlain rfl)) <|
        .cons (plain_of_allPlain rfl) (printable_jobMessage job jobid) .nil

theorem mem_replies {reply : Reply} {effects : List Effect} :
    reply ∈ replies effects ↔ .send reply ∈ effects := by
  rw [replies, List.mem_filterMap]
  constructor
  · rintro ⟨e, among, same⟩
    cases e with
    | send _ =>
        cases same
        exact among
    | getCurrentJob | access | checkClientWork | rxCheck | ppCheck | submit => cases same
  · intro among
    exact ⟨_, among, rfl⟩

theorem Reply.FromMethod.sent {callId : Int64} {reply : Reply} (own : reply.FromMethod callId) :
    reply.Sent := by
  cases own with
  | error message known => exact .error callId message (List.mem_append_left _ known)
  | login job jobid => exact .login callId job jobid
  | status => exact .status callId

namespace Client

variable {maxCallsPerMin : Nat} {parse : List UInt8 → Option Value} {env : RequestEnv}
  {c : Client}

theorem Treated.sent {doc : Value} {treatment : Treatment} {out : Client × List Effect}
    (treated : Treated maxCallsPerMin env c doc treatment out) :
    ∀ reply ∈ replies out.2, reply.Sent := by
  cases treated with
  | malformed | refused | unknown =>
      intro reply among
      rw [List.mem_singleton.mp among]
      exact .error _ _ (by decide)
  | dispatched good within args method out ran =>
      obtain ⟨reply, own, once⟩ := dispatch_replies ran
      intro other among
      rw [once, List.mem_singleton] at among
      rw [among]
      exact own.sent

theorem processLine_sent {line : List UInt8} {accepted : Bool} {after : Client}
    {effects : List Effect}
    (ran : processLine maxCallsPerMin parse env c line = .ok (accepted, after, effects)) :
    ∀ reply ∈ replies effects, reply.Sent := by
  cases request : requestOf parse line with
  | none =>
      rw [processLine_of_none request] at ran
      cases ran
      intro reply among
      cases among
  | some doc =>
      obtain ⟨treatment, out, treated, same⟩ :=
        @processLine_of_some maxCallsPerMin parse env c line doc request
      rw [same] at ran
      cases ran
      exact treated.sent

theorem onNewBlock_sent {keep : Bool} {after : Client} {effects : List Effect}
    (ran : onNewBlock env c = (keep, after, effects)) : ∀ reply ∈ replies effects, reply.Sent := by
  intro reply among
  cases aborting : c.aborting with
  | true =>
      rw [onNewBlock_aborting env c aborting] at ran
      cases ran
      cases among
  | false =>
      cases miner : c.loggedIn with
      | false =>
          rw [onNewBlock_stranger env c aborting miner] at ran
          cases ran
          cases among
      | true =>
          have sent := (onNewBlock_miner env c aborting miner).2.2
          rw [ran] at sent
          simp only at sent
          have silent : replies (giveEffects env.currentJob c.extraNonce) = [] := rfl
          rw [sent, replies_append, replies_netSend, silent, List.nil_append,
            List.mem_singleton] at among
          rw [among]
          exact .job _ _

end Client

namespace Session

open Client

variable {maxCallsPerMin : Nat} {parse : List UInt8 → Option Value} {s t : Session}

theorem next_sent {a : SessionAction} (before : ∀ reply ∈ replies s.trace, reply.Sent)
    (stepped : next maxCallsPerMin parse s a = some t) : ∀ reply ∈ replies t.trace, reply.Sent := by
  cases a with
  | line env buf =>
      simp only [next] at stepped
      split at stepped
      · rename_i accepted c effects ran
        cases stepped
        rw [replies_append]
        exact List.forall_mem_append.mpr ⟨before, processLine_sent ran⟩
      · cases stepped
  | newBlock env =>
      simp only [next] at stepped
      split at stepped
      · rename_i c effects ran
        cases stepped
        rw [replies_append]
        exact List.forall_mem_append.mpr ⟨before, onNewBlock_sent ran⟩
      · cases stepped
  | recvBuf buffer =>
      cases stepped
      exact before
  | overflow =>
      cases stepped
      exact before

theorem reachable_sent (reached : (system maxCallsPerMin parse).Reachable s) :
    ∀ reply ∈ replies s.trace, reply.Sent := by
  apply reached.invariant (fun s => ∀ reply ∈ replies s.trace, reply.Sent)
  · rintro s ⟨fd, extraNonce, stale, rfl⟩ reply impossible
    cases impossible
  · intro s a t _ before stepped
    exact next_sent before stepped

/-- Whatever a client sends in its life is a line of JSON, and parses to the object it was
printed from. -/
theorem sent_lines_decode (reached : (system maxCallsPerMin parse).Reachable s) {reply : Reply}
    (sent : .send reply ∈ s.trace) :
    ∃ line, reply.text = line ++ [0x0a] ∧ 0x0a ∉ line ∧
      JsonText.parse line = some reply.doc := by
  have printable := (reachable_sent reached reply (mem_replies.mpr sent)).printable
  refine ⟨reply.doc.print, reply.text_eq_print, ?_, parse_print printable⟩
  intro newline
  exact absurd (printable.visible _ newline) (by decide)

theorem login_decodes :
    ∃ message line, (Reply.login 1 message).text = line ++ [0x0a] ∧
      JsonText.parse line = some (Reply.login 1 message).doc := by
  let job := Node.plainJob "randomx" 24
  obtain ⟨s, reached, sent⟩ :=
    System.exists_reachable (S := system 60 parseJson)
      ⟨7, 0, .zero, rfl⟩ [.line (plainEnv job) (loginLine 1)]
      (fun s => decide (replies s.trace = [.login 1 (jobMessage (freshJob job 0) 1)]))
      (by decide +kernel)
  have among : .send (.login 1 (jobMessage (freshJob job 0) 1)) ∈ s.trace := by
    rw [← mem_replies, of_decide_eq_true sent]
    exact List.mem_singleton_self _
  obtain ⟨line, text, _, parsed⟩ := sent_lines_decode reached among
  exact ⟨_, line, text, parsed⟩

end Session

end EpicPoold
