import EpicPoold.JsonAccess
import EpicPoold.JsonParse
import EpicPoold.NodeMessages

/-! Which messages of the node keep its handler from using a JSON value as what it is
not. The checked accessors look before they read; the text and the code of an error, and
the value a job is read from, are used unseen. -/

namespace EpicPoold

open Foundations Foundations.JsonText

section Unchecked

theorem safe_valueGetString_iff (v : Value) : Safe v.getString ↔ v.isString = true := by
  cases v with
  | string text => exact iff_of_true (safe_pure text) rfl
  | null | bool _ | number _ | array _ | object _ =>
      exact iff_of_false (fun safe => safe rfl) (by simp [Value.isString])

theorem safe_valueGetInt_iff (v : Value) : Safe v.getInt ↔ v.isInt = true := by
  constructor
  · intro safe
    by_contra other
    apply safe
    rcases v with _ | _ | (⟨value, inRange⟩ | _) | _ | _ | _
    all_goals try rfl
    exact if_neg other
  · intro int
    obtain ⟨n, read⟩ := getInteger_of_fits number_of_isInt int
    rw [Value.getInt, read]
    exact safe_pure n

theorem safe_findMember_iff (v : Value) (key : String) :
    Safe (v.findMember key) ↔ v.isObject = true := by
  cases v with
  | object members => exact iff_of_true (safe_pure _) rfl
  | null | bool _ | number _ | string _ | array _ =>
      exact iff_of_false (fun safe => safe rfl) (by simp [Value.isObject])

theorem safe_getObjectMemberT_iff (v : Value) (key : String) :
    Safe (getObjectMemberT v key) ↔ v.isObject = true := by
  constructor
  · intro safe
    exact (safe_findMember_iff v key).mp ((safe_bind_iff _ _).mp safe).1
  · intro object
    exact safe_getObjectMemberT object key

theorem getObjectMemberT_eq_ok (obj v : Value) (key : String) :
    getObjectMemberT obj key = .ok v ↔ getObjectMember obj key = .ok (some v) := by
  simp only [getObjectMemberT, getObjectMember, bind_eq_ok]
  constructor
  · rintro ⟨found, read, same⟩
    cases found with
    | none => cases same
    | some w =>
        cases same
        exact read
  · intro read
    exact ⟨some v, read, rfl⟩

end Unchecked

/-- An error that can be logged: its text and its code, if both are there, have the types
that they are read at. -/
structure TypedError (error : Value) : Prop where
  object : error.isObject = true
  members : ∀ message code, getObjectMember error "message" = .ok (some message) →
    getObjectMember error "code" = .ok (some code) → message.isString = true ∧ code.isInt = true

/-- A message whose unchecked values are of the types they are used at. An error is
reported by a member that is not null, a job is read from `params` or `result`. -/
def TypedMessage (doc : Value) : Prop :=
  ∀ callId method result error, getJsonCallId doc = .ok callId →
    getJsonString doc "method" = .ok method →
    Node.messageResult doc callId = .ok (result, error) →
    match error with
    | some error => TypedError error
    | none =>
        cstr method = ascii "job" ∨ cstr method = ascii "getjobtemplate" →
          ∃ res, result = some res ∧ res.isObject = true

namespace Node

section Handler

theorem safe_error_iff {α : Type} (error : Value) (a : α) :
    Safe (do
      let message ← getObjectMemberT error "message"
      let code ← getObjectMemberT error "code"
      let _ ← message.getString
      let _ ← code.getInt
      pure a) ↔ TypedError error := by
  simp only [safe_bind_iff, safe_getObjectMemberT_iff, getObjectMemberT_eq_ok,
    safe_valueGetString_iff, safe_valueGetInt_iff, safe_pure, implies_true, and_true]
  constructor
  · rintro ⟨object, rest⟩
    refine ⟨object, ?_⟩
    intro message code named numbered
    obtain ⟨string, int⟩ := (rest message named).2 code numbered
    obtain ⟨text, read⟩ := getString_of_isString string
    exact ⟨string, int text read⟩
  · intro typed
    refine ⟨typed.object, ?_⟩
    intro message named
    refine ⟨typed.object, ?_⟩
    intro code numbered
    obtain ⟨string, int⟩ := typed.members message code named numbered
    exact ⟨string, fun _ _ => int⟩

/-- json_proc_msg from the test of has_error to the reading of the job. -/
def kindOf (method : List UInt8) (result error : Option Value) : Json MessageKind :=
  match error with
  | some error => do
      let message ← getObjectMemberT error "message"
      let code ← getObjectMemberT error "code"
      let _ ← message.getString
      let _ ← code.getInt
      pure .quiet
  | none =>
      if cstr method = ascii "submit" then pure .quiet
      else if cstr method = ascii "login" then pure .login
      else if cstr method = ascii "job" ∨ cstr method = ascii "getjobtemplate" then
        match result with
        | some res => pure (.job res)
        | none => .error .assertion
      else jsonParseError (ascii "Unkonwn method: " ++ cstr method)

theorem messageKind_eq (doc : Value) :
    messageKind doc = (do
      let callId ← getJsonCallId doc
      let method ← getJsonString doc "method"
      let (result, error) ← messageResult doc callId
      kindOf method result error) := rfl

def KindTyped (kind : Json MessageKind) : Prop :=
  Safe kind ∧ ∀ res, kind = .ok (.job res) → res.isObject = true

theorem kindTyped_pure {kind : MessageKind} (other : ∀ res, kind ≠ .job res) :
    KindTyped (pure kind) := by
  refine ⟨safe_pure kind, ?_⟩
  intro res same
  exact absurd ((pure_eq_ok _ _).mp same) (other res)

theorem kindTyped_bind {α : Type} {x : Json α} (f : α → Json MessageKind) (safe : Safe x) :
    KindTyped (x >>= f) ↔ ∀ a, x = .ok a → KindTyped (f a) := by
  simp only [KindTyped, safe_bind_iff, bind_eq_ok]
  constructor
  · rintro ⟨⟨_, each⟩, jobs⟩ a ok
    exact ⟨each a ok, fun res found => jobs res ⟨a, ok, found⟩⟩
  · intro each
    refine ⟨⟨safe, fun a ok => (each a ok).1⟩, ?_⟩
    rintro res ⟨a, ok, found⟩
    exact (each a ok).2 res found

theorem kindOf_error_iff (method : List UInt8) (result : Option Value) (error : Value) :
    KindTyped (kindOf method result (some error)) ↔ TypedError error := by
  rw [← safe_error_iff error MessageKind.quiet]
  constructor
  · intro typed
    exact typed.1
  · intro safe
    refine ⟨safe, ?_⟩
    intro res found
    simp only [kindOf, bind_eq_ok] at found
    obtain ⟨_, _, _, _, _, _, _, _, same⟩ := found
    cases same

theorem kindOf_none_iff (method : List UInt8) (result : Option Value) :
    KindTyped (kindOf method result none) ↔
      (cstr method = ascii "job" ∨ cstr method = ascii "getjobtemplate" →
        ∃ res, result = some res ∧ res.isObject = true) := by
  simp only [kindOf]
  split
  · rename_i submit
    refine iff_of_true (kindTyped_pure (by simp)) ?_
    rw [submit]
    intro impossible
    exact absurd impossible (by decide)
  · split
    · rename_i login
      refine iff_of_true (kindTyped_pure (by simp)) ?_
      rw [login]
      intro impossible
      exact absurd impossible (by decide)
    · split
      · rename_i job
        cases result with
        | none =>
            refine iff_of_false (fun typed => typed.1 rfl) ?_
            intro typed
            obtain ⟨_, same, _⟩ := typed job
            cases same
        | some res =>
            constructor
            · intro typed _
              exact ⟨res, rfl, typed.2 res rfl⟩
            · intro typed
              obtain ⟨_, same, object⟩ := typed job
              cases same
              refine ⟨safe_pure _, ?_⟩
              intro other found
              cases found
              exact object
      · rename_i other
        refine iff_of_true ⟨safe_parseError _, ?_⟩ (fun job => absurd job other)
        intro res found
        cases found

variable {doc : Value} (object : doc.isObject = true)

include object

theorem safe_messageResult (callId : Int) : Safe (messageResult doc callId) := by
  rw [messageResult]
  split
  · apply safe_bind (safe_getObjectMember object "result")
    intro result _
    apply safe_bind (safe_getObjectMember object "error")
    intro error _
    exact safe_bind (safe_rejectIf _ _) (fun _ _ => safe_pure _)
  · apply safe_bind (safe_getObjectMember object "params")
    intro found _
    cases found with
    | none => exact safe_parseError _
    | some result => exact safe_pure _

theorem kindTyped_iff : KindTyped (messageKind doc) ↔ TypedMessage doc := by
  have read : KindTyped (messageKind doc) ↔
      ∀ callId, getJsonCallId doc = .ok callId →
        ∀ method, getJsonString doc "method" = .ok method →
          ∀ found, messageResult doc callId = .ok found →
            KindTyped (kindOf method found.1 found.2) := by
    rw [messageKind_eq, kindTyped_bind _ (safe_getJsonCallId object)]
    apply forall₂_congr
    intro callId _
    rw [kindTyped_bind _ (safe_getJsonString object "method")]
    apply forall₂_congr
    intro method _
    exact kindTyped_bind _ (safe_messageResult object callId)
  rw [read]
  constructor
  · intro typed callId method result error called named found
    have kind := typed callId called method named (result, error) found
    cases error with
    | none => exact (kindOf_none_iff method result).mp kind
    | some error => exact (kindOf_error_iff method result error).mp kind
  · intro typed callId called method named found
    obtain ⟨result, error⟩ := found
    intro same
    have kind := typed callId method result error called named same
    cases error with
    | none => exact (kindOf_none_iff method result).mpr kind
    | some error => exact (kindOf_error_iff method result error).mpr kind

end Handler

/-! The readers of a job message, on any object. -/

section Job

theorem safe_seedByte (v : Value) : Safe (seedByte v) := by
  apply safe_bind (safe_getUint v)
  intro n _
  exact safe_bind (safe_rejectIf _ _) (fun _ _ => safe_pure _)

theorem safe_intArrayToVector (v : Value) : Safe (intArrayToVector v) := by
  apply safe_bind (safe_getArrayOf v 32)
  intro items _
  exact safe_bind (safe_mapM safe_seedByte items) (fun _ _ => safe_pure _)

theorem safe_blockDifficulty (algo : List UInt8) (items : List Value) :
    ∀ blockDiff, Safe (blockDifficulty algo items blockDiff) := by
  induction items with
  | nil =>
      intro blockDiff
      exact safe_pure blockDiff
  | cons v rest ih =>
      intro blockDiff
      rw [blockDifficulty]
      apply safe_bind (safe_getArrayOf v 2)
      intro members sized
      split
      · apply safe_bind (safe_getString _)
        intro name _
        split
        · exact safe_bind (safe_getUint64 _) (fun found _ => ih found)
        · exact ih blockDiff
      · rename_i other
        obtain ⟨name, diff, pair⟩ := List.length_eq_two.mp ((getArrayOf_eq_ok _ _ _).mp sized).2
        exact absurd pair (other name diff)

theorem safe_readEpoch (height : UInt32) (epoch : Value) : Safe (readEpoch height epoch) := by
  apply safe_bind (safe_getArrayOf epoch 3)
  intro members sized
  split
  · apply safe_bind (safe_getUint _)
    intro realStart _
    apply safe_bind (safe_getUint _)
    intro realEnd _
    apply safe_bind (safe_rejectIf _ _)
    intro _ _
    change Safe (if _ then _ else _)
    split
    · exact safe_bind (safe_intArrayToVector _) (fun _ _ => safe_pure _)
    · split
      · exact safe_bind (safe_intArrayToVector _) (fun _ _ => safe_pure _)
      · exact safe_parseError _
  · rename_i other
    obtain ⟨start, stop, seed, triple⟩ :=
      List.length_eq_three.mp ((getArrayOf_eq_ok _ _ _).mp sized).2
    exact absurd triple (other start stop seed)

theorem safe_jobType (algo : List UInt8) : Safe (jobType algo) := by
  unfold jobType
  split
  · exact safe_pure _
  · split
    · exact safe_pure _
    · split
      · exact safe_pure _
      · exact safe_parseError _

variable {res : Value} (object : res.isObject = true)

include object

theorem safe_jobHeader (env : MessageEnv) : Safe (jobHeader env res) := by
  apply safe_bind (safe_getJsonUInt object "height")
  intro height _
  split
  · exact safe_pure none
  · apply safe_bind (safe_getJsonString object "algorithm")
    intro algo _
    apply safe_bind (safe_jobType algo)
    intro type _
    apply safe_bind (safe_getObjectMemberT object "block_difficulty")
    intro listed _
    apply safe_bind (safe_getArray listed)
    intro difficulties _
    apply safe_bind (safe_blockDifficulty algo difficulties env.blockDiffBytes)
    intro blockDiff _
    split
    · exact safe_pure none
    · exact safe_pure _

theorem safe_jobEpochs (height : UInt32) : Safe (jobEpochs height res) := by
  apply safe_bind (safe_getObjectMemberT object "epochs")
  intro listed _
  apply safe_bind (safe_getArray listed)
  intro epochs _
  apply safe_bind (safe_rejectIf _ _)
  intro _ _
  apply safe_bind (safe_mapM (safe_readEpoch height) epochs)
  intro uses _
  exact safe_bind (safe_rejectIf _ _) (fun _ _ => safe_pure uses)

theorem safe_readPrepowText : Safe (readPrepowText res) := by
  apply safe_bind (safe_getJsonString object "pre_pow")
  intro prepow _
  apply safe_bind (safe_rejectIf _ _)
  intro _ _
  exact safe_bind (safe_rejectIf _ _) (fun _ _ => safe_pure prepow)

theorem safe_readJob (env : MessageEnv) : Safe (readJob env res) := by
  apply safe_bind (safe_jobHeader object env)
  intro header _
  cases header with
  | none => exact safe_pure none
  | some header =>
      apply safe_bind (safe_jobEpochs object header.height)
      intro uses _
      apply safe_bind (safe_getJsonUInt object "job_id")
      intro jobid _
      exact safe_bind (safe_readPrepowText object) (fun prepow _ => safe_pure _)

end Job

section Message

variable {getEpochNumber : UInt64 → Int32} (n : Node) (env : MessageEnv)

theorem fails_jobMessage_assertion_iff (res : Value) :
    (∃ t, Fails (jobMessage getEpochNumber env res) n .assertion t) ↔ res.isObject = false := by
  constructor
  · rintro ⟨t, failed⟩
    apply Bool.eq_false_iff.mpr
    intro object
    rcases fails_jobMessage n t env res _ failed with ⟨bad, _⟩ | ⟨_, _, _, _, _, _, bad, _⟩
    · exact safe_jobHeader object env bad
    · exact safe_readJob object env bad
  · intro other
    refine ⟨n, (fails_lift_bind _ _ _ _ _).mpr (.inl ⟨?_, rfl⟩)⟩
    cases res with
    | object members => cases other
    | null | bool _ | number _ | string _ | array _ => rfl

theorem fails_assertion_iff (doc : Value) :
    (∃ t, Fails (procMessage getEpochNumber env doc) n .assertion t) ↔
      ¬ KindTyped (messageKind doc) := by
  simp only [procMessage_eq, fails_lift_bind]
  constructor
  · rintro ⟨t, failed⟩ typed
    rcases failed with ⟨bad, _⟩ | ⟨kind, named, failed⟩
    · exact typed.1 bad
    · cases kind with
      | quiet => exact not_fails_pure _ _ _ _ failed
      | login =>
          rcases (fails_bind _ _ _ _ _).mp failed with first | ⟨_, _, _, last⟩
          · exact not_fails_pure _ _ _ _ first
          · exact not_fails_pure _ _ _ _ last
      | job res =>
          have other := (fails_jobMessage_assertion_iff n env res).mp ⟨t, failed⟩
          rw [typed.2 res named] at other
          cases other
  · intro untyped
    by_cases safe : Safe (messageKind doc)
    · have job : ∃ res, messageKind doc = .ok (.job res) ∧ res.isObject = false := by
        by_contra none
        apply untyped
        refine ⟨safe, ?_⟩
        intro res found
        by_contra other
        exact none ⟨res, found, Bool.eq_false_iff.mpr other⟩
      obtain ⟨res, found, other⟩ := job
      obtain ⟨t, failed⟩ := (fails_jobMessage_assertion_iff n env res).mpr other
      exact ⟨t, .inr ⟨_, found, failed⟩⟩
    · exact ⟨n, .inl ⟨not_not.mp safe, rfl⟩⟩

variable (parse : List UInt8 → Option Value) (msg : List UInt8)

theorem jsonProcMsg_assertion_iff {newline : Nat} {doc : Value}
    (line : msg.findIdx? (· = 0x0a) = some newline)
    (parsed : parse (cstr (msg.take newline)) = some doc) (object : doc.isObject = true) :
    (jsonProcMsg getEpochNumber parse env n msg).1 = .assertion ↔
      ∃ t, Fails (procMessage getEpochNumber env doc) n .assertion t := by
  unfold Fails
  rcases ended : Id.run ((procMessage getEpochNumber env doc).run.run n) with ⟨result, t⟩
  have same : (procMessage getEpochNumber env doc).run.run n = (result, t) := ended
  simp only [jsonProcMsg, line, parsed, object, Bool.not_true, Bool.false_eq_true, if_false, same]
  rcases result with (what | _) | (_ | _ | _)
  all_goals simp

theorem jsonProcMsg_typed_iff (newline : Nat) (doc : Value)
    (line : msg.findIdx? (· = 0x0a) = some newline)
    (parsed : parse (cstr (msg.take newline)) = some doc) (object : doc.isObject = true) :
    (jsonProcMsg getEpochNumber parse env n msg).1 ≠ .assertion ↔ TypedMessage doc := by
  rw [← kindTyped_iff object, Ne, jsonProcMsg_assertion_iff n env parse msg line parsed object,
    fails_assertion_iff, not_not]

end Message

section Lines

def loginReply : Doc :=
  .object [(ascii "id", .string (ascii "0")), (ascii "method", .string (ascii "login")),
    (ascii "result", .string (ascii "ok")), (ascii "error", .null)]

theorem printable_loginReply : Printable loginReply :=
  .cons (plain_of_allPlain rfl) (.string (plain_of_allPlain rfl)) <|
  .cons (plain_of_allPlain rfl) (.string (plain_of_allPlain rfl)) <|
  .cons (plain_of_allPlain rfl) (.string (plain_of_allPlain rfl)) <|
  .cons (plain_of_allPlain rfl) .null .nil

theorem jsonProcMsg_typed_loginReply :
    (jsonProcMsg (fun _ => 0) parseJson ⟨0, 0⟩ plainNode (lineOf loginReply)).1 ≠ .assertion := by
  refine (jsonProcMsg_typed_iff plainNode ⟨0, 0⟩ parseJson (lineOf loginReply) _ _
    (findIdx_lineOf printable_loginReply) (parse_firstLine printable_loginReply) rfl).mpr ?_
  apply (kindTyped_iff rfl).mp
  have login : messageKind (valueOf loginReply) = pure .login := by rfl
  rw [login]
  exact kindTyped_pure (by simp)

def emptyReply : Doc :=
  .object [(ascii "id", .string (ascii "1")), (ascii "method", .string (ascii "getjobtemplate")),
    (ascii "error", .null)]

/-- The handler reads the height of no result at all. -/
theorem emptyReply_assertion :
    (valueOf emptyReply).isObject = true ∧
      (jsonProcMsg (fun _ => 0) parseJson ⟨0, 0⟩ plainNode (lineOf emptyReply)).1 =
        .assertion := by
  refine ⟨rfl, ?_⟩
  decide +kernel

end Lines

end Node

end EpicPoold
