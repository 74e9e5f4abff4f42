import EpicPoold.Replies

/-! The results sent to the node, as JSON: a reader of the line gets back the height, the
job id, the nonce and the hash that the share was checked with. -/

namespace EpicPoold

open Foundations Foundations.JsonText

def readNumber : Doc → Option Nat
  | .number digits => if digits.all isNumeric then some (decimalValue digits) else none
  | _ => none

structure ResultReading where
  height : Nat
  jobId : Nat
  nonce : Nat
  algorithm : List UInt8
  hash : List Nat
  deriving DecidableEq

/-- The parameters of a submit request, as the node finds them in a JSON text. -/
def readResult (doc : Doc) : Option ResultReading := do
  let params ← doc.member (ascii "params")
  let height ← readNumber (← params.member (ascii "height"))
  let jobId ← readNumber (← params.member (ascii "job_id"))
  let nonce ← readNumber (← params.member (ascii "nonce"))
  match ← params.member (ascii "pow") with
  | .object [(algorithm, .array hash)] =>
      let hash ← hash.mapM readNumber
      some ⟨height, jobId, nonce, algorithm, hash⟩
  | _ => none

namespace SubmitMessage

def params (m : SubmitMessage) : Doc :=
  .object
    [(ascii "height", .number (decimal m.height.toNat)),
      (ascii "job_id", .number (decimal m.jobid.toNat)),
      (ascii "nonce", .number (decimal m.nonce.toNat)),
      (ascii "pow", .object
        [(ascii m.pow, .array (m.powhash.data.bytes.map (fun b => .number (decimal b.toNat))))])]

def doc (m : SubmitMessage) : Doc :=
  .object
    [(ascii "id", .string (ascii "0")), (ascii "jsonrpc", .string (ascii "2.0")),
      (ascii "method", .string (ascii "submit")), (ascii "params", m.params)]

def reading (m : SubmitMessage) : ResultReading :=
  ⟨m.height.toNat, m.jobid.toNat, m.nonce.toNat, ascii m.pow,
    m.powhash.data.bytes.map UInt8.toNat⟩

theorem print_numbers (texts : List (List UInt8)) :
    (Doc.array (texts.map .number)).print = 0x5b :: ([comma].intercalate texts ++ [0x5d]) := by
  have later (texts : List (List UInt8)) :
      printItems (texts.map .number) =
        (texts.map (fun text => comma :: text)).flatten ++ [0x5d] := by
    induction texts with
    | nil => rfl
    | cons text more ih =>
        rw [List.map_cons, printItems, ih]
        simp [Doc.print]
  have joined (text : List UInt8) (texts : List (List UInt8)) :
      [comma].intercalate (text :: texts) =
        text ++ (texts.map (fun text => comma :: text)).flatten := by
    induction texts generalizing text with
    | nil => simp [List.intercalate]
    | cons next more ih =>
        rw [List.intercalate_cons_cons, ih]
        simp
  cases texts with
  | nil => rfl
  | cons text more =>
      rw [List.map_cons, Doc.print, later, joined]
      simp [Doc.print]

variable (m : SubmitMessage)

theorem text_eq_print : m.text = m.doc.print ++ [0x0a] := by
  have opens : ascii "\x7b\"id\":\"0\",\"jsonrpc\":\"2.0\",\"method\":\"submit\",\"params\":" =
      0x7b :: field (ascii "id") (quoted (ascii "0") (comma :: field (ascii "jsonrpc")
        (quoted (ascii "2.0") (comma :: field (ascii "method") (quoted (ascii "submit")
          (comma :: quote :: (ascii "params" ++ [quote, colon]))))))) := by decide
  have height : ascii "\x7b\"height\":" = 0x7b :: quote :: (ascii "height" ++ [quote, colon]) := by
    decide
  have jobId : ascii ",\"job_id\":" = comma :: quote :: (ascii "job_id" ++ [quote, colon]) := by
    decide
  have nonce : ascii ",\"nonce\":" = comma :: quote :: (ascii "nonce" ++ [quote, colon]) := by
    decide
  have pow : ascii ",\"pow\":\x7b\"" =
      comma :: quote :: (ascii "pow" ++ [quote, colon, 0x7b, quote]) := by decide
  have array : ascii "\":[" = [quote, colon, 0x5b] := by decide
  have close : ascii "]\x7d\x7d\x7d\n" = [0x5d, 0x7d, 0x7d, 0x7d, 0x0a] := by decide
  have separator : ascii "," = [comma] := by decide
  have hash : (Doc.array (m.powhash.data.bytes.map (fun b => .number (decimal b.toNat)))).print =
      0x5b :: ([comma].intercalate (m.powhash.data.bytes.map (fun b => decimal b.toNat)) ++
        [0x5d]) := by
    rw [← print_numbers, List.map_map]
    rfl
  rw [text, opens, height, jobId, nonce, pow, array, close, separator]
  simp only [doc, params, Doc.print, printMember, printMembers, field, quoted, hash,
    List.append_assoc, List.cons_append, List.nil_append]

theorem printable_doc (plain : ∀ b ∈ ascii m.pow, IsPlain b) : Printable m.doc := by
  have hash :
      Printable (.array (m.powhash.data.bytes.map (fun b => .number (decimal b.toNat)))) := by
    refine .array ?_
    rintro d among
    obtain ⟨b, _, rfl⟩ := List.mem_map.mp among
    exact .number (isInteger_decimal _)
  have pow : Printable (.object
      [(ascii m.pow, .array (m.powhash.data.bytes.map (fun b => .number (decimal b.toNat))))]) :=
    .cons plain hash .nil
  exact .cons (plain_of_allPlain rfl) (.string (plain_of_allPlain rfl)) <|
    .cons (plain_of_allPlain rfl) (.string (plain_of_allPlain rfl)) <|
    .cons (plain_of_allPlain rfl) (.string (plain_of_allPlain rfl)) <|
    .cons (plain_of_allPlain rfl)
      (.cons (plain_of_allPlain rfl) (.number (isInteger_decimal _)) <|
        .cons (plain_of_allPlain rfl) (.number (isInteger_decimal _)) <|
        .cons (plain_of_allPlain rfl) (.number (isInteger_decimal _)) <|
        .cons (plain_of_allPlain rfl) pow .nil) .nil

theorem readNumber_decimal (n : Nat) : readNumber (.number (decimal n)) = some n := by
  have digits : (decimal n).all isNumeric = true := List.all_eq_true.mpr (decimal_numeric n)
  rw [readNumber, if_pos digits, decimalValue_decimal]

theorem readResult_doc : readResult m.doc = some m.reading := by
  have hash : (m.powhash.data.bytes.map (fun b => Doc.number (decimal b.toNat))).mapM readNumber =
      some (m.powhash.data.bytes.map UInt8.toNat) := by
    induction m.powhash.data.bytes with
    | nil => rfl
    | cons byte rest ih =>
        rw [List.map_cons, List.mapM_cons, readNumber_decimal, ih]
        rfl
  have params : m.doc.member (ascii "params") = some m.params := rfl
  have height : m.params.member (ascii "height") = some (.number (decimal m.height.toNat)) := rfl
  have jobId : m.params.member (ascii "job_id") = some (.number (decimal m.jobid.toNat)) := rfl
  have nonce : m.params.member (ascii "nonce") = some (.number (decimal m.nonce.toNat)) := rfl
  have pow : m.params.member (ascii "pow") = some (.object [(ascii m.pow,
      .array (m.powhash.data.bytes.map (fun b => .number (decimal b.toNat))))]) := rfl
  simp only [readResult, params, height, jobId, nonce, pow, readNumber_decimal, hash, bind,
    Option.bind]
  rfl

theorem numbers_length (bytes : List UInt8) :
    ((ascii ",").intercalate (bytes.map (fun b => decimal b.toNat))).length ≤ 4 * bytes.length := by
  induction bytes with
  | nil => simp [List.intercalate]
  | cons byte more ih =>
      have digits : (decimal byte.toNat).length ≤ 3 :=
        decimal_length _ 3 (by decide) (by have := byte.toNat_lt; omega)
      cases more with
      | nil =>
          simp only [List.map_cons, List.map_nil, List.intercalate_singleton, List.length_cons,
            List.length_nil]
          omega
      | cons next later =>
          have comma : ",".length = 1 := rfl
          rw [List.map_cons] at ih
          rw [List.map_cons, List.map_cons, List.intercalate_cons_cons]
          simp only [List.length_append, List.length_cons, ascii_length] at ih ⊢
          omega

theorem text_length (short : m.pow.length ≤ 8) : m.text.length < 1024 := by
  have height : (decimal m.height.toNat).length ≤ 10 :=
    decimal_length _ 10 (by decide) (by have := m.height.toNat_lt; omega)
  have jobId : (decimal m.jobid.toNat).length ≤ 10 :=
    decimal_length _ 10 (by decide) (by have := m.jobid.toNat_lt; omega)
  have nonce : (decimal m.nonce.toNat).length ≤ 20 :=
    decimal_length _ 20 (by decide) (by have := m.nonce.toNat_lt; omega)
  have hash := numbers_length m.powhash.data.bytes
  rw [m.powhash.data.length_eq] at hash
  have constants :
      "\x7b\"id\":\"0\",\"jsonrpc\":\"2.0\",\"method\":\"submit\",\"params\":".length +
      "\x7b\"height\":".length + ",\"job_id\":".length + ",\"nonce\":".length +
      ",\"pow\":\x7b\"".length + "\":[".length + "]\x7d\x7d\x7d\n".length = 99 := rfl
  simp only [text, List.length_append, ascii_length]
  omega

end SubmitMessage

namespace Client

variable {env : RequestEnv} {c : Client}

theorem handled_submit {out : Client × List Effect} (handled : Handled env c out)
    {m : SubmitMessage} (sent : .submit m ∈ out.2) :
    ∃ counted callId nonce, counted.view = c.view ∧ out = checkShare env counted callId nonce := by
  cases handled with
  | answered counted reply same plain => simp [netSend] at sent
  | login counted callId same fresh =>
      have stranger : counted.loggedIn = false := (congrArg View.loggedIn same).trans fresh
      rw [(giveFirstJob_given env counted callId).2] at sent
      simp [giveEffects, hexAccess, netSend] at sent
  | share counted callId args nonce same wellFormed => exact ⟨counted, callId, nonce, same, rfl⟩

theorem handled_names {out : Client × List Effect} (handled : Handled env c out)
    {m : SubmitMessage} (sent : .submit m ∈ out.2) : m.pow = "RandomX" := by
  obtain ⟨counted, callId, nonce, _, rfl⟩ := handled_submit handled sent
  obtain ⟨_, _, rfl⟩ := (submit_mem_checkShare env counted callId nonce m).mp sent
  rfl

theorem onNewBlock_submits_nothing (env : RequestEnv) (c : Client) (m : SubmitMessage) :
    .submit m ∉ (onNewBlock env c).2.2 := by
  intro sent
  cases aborting : c.aborting with
  | true =>
      rw [onNewBlock_aborting env c aborting] at sent
      cases sent
  | false =>
      cases miner : c.loggedIn with
      | false =>
          rw [onNewBlock_stranger env c aborting miner] at sent
          simp at sent
      | true =>
          rw [(onNewBlock_miner env c aborting miner).2.2] at sent
          simp [giveEffects, hexAccess, netSend] at sent

end Client

namespace Session

open Client

variable {maxCallsPerMin : Nat} {parse : List UInt8 → Option Value} {s t : Session}

theorem next_submit {a : SessionAction} (stepped : next maxCallsPerMin parse s a = some t)
    {m : SubmitMessage} (sent : .submit m ∈ t.trace) :
    .submit m ∈ s.trace ∨ m.pow = "RandomX" := by
  cases a with
  | line env buf =>
      simp only [next] at stepped
      split at stepped
      · rename_i accepted c effects ran
        cases stepped
        rcases List.mem_append.mp sent with early | now
        · exact .inl early
        · rcases processLine_handled buf accepted c effects ran with
            ⟨_, _, rfl⟩ | ⟨_, handled⟩
          · cases now
          · exact .inr (handled_names handled now)
      · cases stepped
  | newBlock env =>
      simp only [next] at stepped
      split at stepped
      · rename_i c effects ran
        cases stepped
        rcases List.mem_append.mp sent with early | now
        · exact .inl early
        · have none := onNewBlock_submits_nothing env s.client m
          rw [ran] at none
          exact absurd now none
      · cases stepped
  | recvBuf buffer =>
      cases stepped
      exact .inl sent
  | overflow =>
      cases stepped
      exact .inl sent

theorem reachable_submit (reached : (system maxCallsPerMin parse).Reachable s) :
    ∀ m, .submit m ∈ s.trace → m.pow = "RandomX" := by
  apply reached.invariant (fun s => ∀ m, .submit m ∈ s.trace → m.pow = "RandomX")
  · rintro s ⟨fd, extraNonce, stale, rfl⟩ m impossible
    cases impossible
  · intro s a t _ before stepped m sent
    rcases next_submit stepped sent with early | named
    · exact before m early
    · exact named

/-- Every result a client sends on is one line within the buffer it is formatted into, and
whoever reads it gets the very numbers back. -/
theorem results_decode (reached : (system maxCallsPerMin parse).Reachable s) {m : SubmitMessage}
    (sent : .submit m ∈ s.trace) :
    m.text.length < 1024 ∧ ∃ line, m.text = line ++ [0x0a] ∧ 0x0a ∉ line ∧
      (JsonText.parse line).bind readResult = some m.reading := by
  have pow := reachable_submit reached m sent
  have printable : Printable m.doc := m.printable_doc (by
    rw [pow]
    exact plain_of_allPlain rfl)
  refine ⟨m.text_length (by rw [pow]; decide), m.doc.print, m.text_eq_print, ?_, ?_⟩
  · intro newline
    exact absurd (printable.visible _ newline) (by decide)
  · rw [parse_print printable]
    exact m.readResult_doc

theorem result_decodes :
    ∃ s : Session, ∃ m line, .submit m ∈ s.trace ∧ m.text = line ++ [0x0a] ∧
      (JsonText.parse line).bind readResult = some m.reading := by
  let job := Node.plainJob "randomx" 24
  obtain ⟨s, reached, sent⟩ :=
    System.exists_reachable (S := system 60 parseJson) ⟨7, 0, .zero, rfl⟩
      [.line (plainEnv job) (loginLine 1), .line (plainEnv job) (submitLine 2 1 0 .setAllZero)]
      (fun s => s.trace.any (fun e => match e with | .submit _ => true | _ => false))
      (by decide +kernel)
  obtain ⟨e, among, found⟩ := List.any_eq_true.mp sent
  cases e with
  | submit m =>
      obtain ⟨_, line, text, _, parsed⟩ := results_decode reached among
      exact ⟨s, m, line, among, text, parsed⟩
  | getCurrentJob | access | checkClientWork | rxCheck | ppCheck | send => cases found

end Session

end EpicPoold
