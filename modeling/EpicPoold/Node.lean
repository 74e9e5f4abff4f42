import EpicPoold.Encdec
import EpicPoold.Json
import EpicPoold.PpHashpool
import EpicPoold.RxHashpool
import EpicPoold.Workstruct

/-! node: the messages of the epic node, the jobs they publish and the results sent
back. rapidjson's parser is a parameter, as is ethash::get_epoch_number. -/

namespace EpicPoold

open Foundations

structure SlotIds where
  loadedId : UInt64
  readyId : UInt64
  deriving DecidableEq

/-- What has_dataset, calculate_dataset and notify_epoch of either pool use. -/
structure DatasetSlots where
  slots : SlotIdx → SlotIds
  dsCtr : UInt64

namespace DatasetSlots

def hasDataset (d : DatasetSlots) (id : UInt64) : Bool :=
  id == (d.slots 0).loadedId || id == (d.slots 1).loadedId

/-- The counter picks the slot; its ready id is retracted and its loaded id set. -/
def calculateDataset (d : DatasetSlots) (id : UInt64) : DatasetSlots :=
  let i : SlotIdx := ⟨d.dsCtr.toNat % 2, Nat.mod_lt _ (by decide)⟩
  { slots := Function.update d.slots i ⟨id, invalidId⟩, dsCtr := d.dsCtr + 1 }

def require (d : DatasetSlots) (id : UInt64) : DatasetSlots :=
  if d.hasDataset id then d else d.calculateDataset id

end DatasetSlots

/-- An element of the list of jobs with its address. -/
structure JobEntry where
  addr : Nat
  job : JobData

inductive NodeEffect where
  | sendTemplateRequest
  | notifyNewBlock
  | access (a : Access)
  deriving DecidableEq

structure Node where
  jobs : List JobEntry
  nextAddr : Nat
  currentJob : Option Nat
  lastJobTs : UInt64
  rx : DatasetSlots
  pp : DatasetSlots
  effects : List NodeEffect

/-- Changes to the node stay when json_parse_error is thrown. -/
abbrev NodeM := ExceptT JsonFail (StateM Node)

inductive Processed where
  | handled
  | reconnect
  | published (job : JobData)
  deriving DecidableEq

/-- What one message finds outside itself: the bytes of the uninitialised `block_diff`
and the clock. -/
structure MessageEnv where
  blockDiffBytes : UInt64
  timestampMs : UInt64

def JobData.zero : JobData where
  type := .randomx
  blockDiff := 0
  height := 0
  jobid := 0
  prepow := .filled prepowSize 0
  prepowLen := 0
  rxSeed := .setAllZero
  rxNextSeed := .setAllZero

namespace Node

def emit (effect : NodeEffect) : NodeM Unit :=
  modify (fun n => { n with effects := n.effects ++ [effect] })

def sendTemplateRequest : NodeM Unit := emit .sendTemplateRequest

def emplaceJob : NodeM Nat := do
  let n : Node ← get
  let entry : JobEntry := ⟨n.nextAddr, .zero⟩
  set ({ n with jobs := n.jobs ++ [entry], nextAddr := n.nextAddr + 1 } : Node)
  pure n.nextAddr

def modifyJob (addr : Nat) (f : JobData → JobData) : NodeM Unit :=
  modify (fun n =>
    { n with jobs := n.jobs.map (fun e => if e.addr = addr then { e with job := f e.job } else e) })

def seedByte (v : Value) : Json UInt8 := do
  let v ← getUint v
  rejectIf (256 ≤ v) (ascii "Invalid Int Array")
  pure v.toUInt8

def intArrayToVector (arr : Value) : Json V32 := do
  let arr ← getArrayOf arr 32
  let bytes ← arr.mapM seedByte
  pure ⟨(Buffer.filled 32 0).write 0 bytes⟩

/-- The loop over block_difficulty; `blockDiff` is assigned for entries of the job's
algorithm only. -/
def blockDifficulty (algo : List UInt8) : List Value → UInt64 → Json UInt64
  | [], blockDiff => pure blockDiff
  | v :: rest, blockDiff => do
      match ← getArrayOf v 2 with
      | [name, diff] =>
          let name ← getString name
          if cstr name = cstr algo then
            let blockDiff ← getUint64 diff
            blockDifficulty algo rest blockDiff
          else blockDifficulty algo rest blockDiff
      | _ => .error .assertion

def jobType (algo : List UInt8) : Json PowType :=
  if cstr algo = ascii "randomx" then pure .randomx
  else if cstr algo = ascii "progpow" then pure .progpow
  else if cstr algo = ascii "cuckoo" then pure .cuckoo
  else jsonParseError (ascii "Unknown algorithm: " ++ cstr algo)

def requireRx (seed : V32) : NodeM Unit :=
  modify (fun n => { n with rx := n.rx.require seed.getId })

/-- The loop over epochs. Seeds are stored and loaded as they are met. -/
def epochLoop (addr : Nat) (height : UInt32) : List Value → Bool → NodeM Bool
  | [], hasOurEpoch => pure hasOurEpoch
  | epoch :: rest, hasOurEpoch => do
      match ← getArrayOf epoch 3 with
      | [start, stop, seed] =>
          let realStart ← getUint start
          let realEnd ← getUint stop
          rejectIf (realEnd = 0 ∨ realEnd ≤ realStart) (ascii "Epoch sanity check failed!")
          let realStart := realStart + 1
          if realStart ≤ height ∧ height ≤ realEnd then
            let seed ← intArrayToVector seed
            modifyJob addr (fun job => { job with rxSeed := seed })
            requireRx seed
            epochLoop addr height rest true
          else if height < realStart then
            let seed ← intArrayToVector seed
            modifyJob addr (fun job => { job with rxNextSeed := seed })
            requireRx seed
            epochLoop addr height rest hasOurEpoch
          else jsonParseError (ascii "Unidentfied epoch")
      | _ => throw .assertion

/-- The blob: a length check, the hex text, then eight zero bytes for the nonce. -/
def readPrepow (addr : Nat) (res : Value) : NodeM JobData := do
  let prepow ← getJsonString res "pre_pow"
  let bytes := prepow.length / 2
  rejectIf (prepowSize - 8 < bytes) (ascii "Too long prepow, size: " ++ decimal bytes)
  let (decoded, written) := hex2bin prepow prepow.length
  emit (.access ⟨.prepow, 0, written.length⟩)
  modifyJob addr (fun job => { job with prepow := job.prepow.write 0 written })
  rejectIf (!decoded) (ascii "Hex-decode on prepow failed")
  emit (.access ⟨.prepow, bytes, 8⟩)
  modifyJob addr (fun job =>
    { job with
      prepow := job.prepow.write bytes (List.replicate 8 0)
      prepowLen := UInt32.ofNat bytes + 8 })
  match (← get).jobs.find? (fun e => e.addr == addr) with
  | some e => pure e.job
  | none => throw .assertion

def publish (env : MessageEnv) (addr : Nat) : NodeM Unit := do
  modify (fun n => { n with lastJobTs := env.timestampMs, currentJob := some addr })
  emit .notifyNewBlock
  modify (fun n => if 5 < n.jobs.length then { n with jobs := n.jobs.tail } else n)

section Messages

variable (getEpochNumber : UInt64 → Int32)

def notifyBlock (blockNumber : UInt64) : NodeM Unit :=
  modify (fun n =>
    { n with
      pp := (PpHashpool.notifyBlock blockNumber).foldl
        (fun pp b => pp.require (PpHashpool.epochId (getEpochNumber b))) n.pp })

def jobMessage (env : MessageEnv) (res : Value) : NodeM Processed := do
  let height ← getJsonUInt res "height"
  if height = 0 then
    sendTemplateRequest
    pure .handled
  else
    let algo ← getJsonString res "algorithm"
    let type ← jobType algo
    let difficulties ← getArray (← getObjectMemberT res "block_difficulty")
    let blockDiff ← blockDifficulty algo difficulties env.blockDiffBytes
    if blockDiff = 0 then pure .reconnect
    else
      let addr ← emplaceJob
      modifyJob addr (fun job => { job with type := type, blockDiff := blockDiff })
      let epochs ← getArray (← getObjectMemberT res "epochs")
      rejectIf (epochs.length ≠ 1 ∧ epochs.length ≠ 2) (ascii "Unexpected epochs size")
      let hasOurEpoch ← epochLoop addr height epochs false
      rejectIf (!hasOurEpoch) (ascii "We don't have our epoch")
      notifyBlock getEpochNumber height.toUInt64
      let jobid ← getJsonUInt res "job_id"
      modifyJob addr (fun job => { job with jobid := jobid, height := height })
      let job ← readPrepow addr res
      publish env addr
      pure (.published job)

/-- Which member a message is answered from, and whether it reports an error. A call
with a null error and no result yields no result value at all. -/
def messageResult (doc : Value) (callId : Int) : Json (Option Value × Option Value) := do
  if callId ≠ -1 then
    let result ← getObjectMember doc "result"
    let error ← getObjectMember doc "error"
    rejectIf (result.isNone && error.isNone) (ascii "call with no result or error")
    pure (result, error.filter (fun e => !e.isNull))
  else
    match ← getObjectMember doc "params" with
    | none => jsonParseError (ascii "invoke with no params")
    | some result => pure (some result, none)

def procMessage (env : MessageEnv) (doc : Value) : NodeM Processed := do
  let callId ← getJsonCallId doc
  let method ← getJsonString doc "method"
  let (result, error) ← messageResult doc callId
  match error with
  | some error =>
      let message ← getObjectMemberT error "message"
      let code ← getObjectMemberT error "code"
      let _ ← message.getString
      let _ ← code.getInt
      pure .handled
  | none =>
      if cstr method = ascii "submit" then pure .handled
      else if cstr method = ascii "login" then
        sendTemplateRequest
        pure .handled
      else if cstr method = ascii "job" ∨ cstr method = ascii "getjobtemplate" then
        match result with
        | some res => jobMessage getEpochNumber env res
        | none => throw .assertion
      else jsonParseError (ascii "Unkonwn method: " ++ cstr method)

/-- What json_proc_msg returns: the length of the line with its newline, 0 when there
is none yet, or -1. -/
inductive MsgReturn where
  | needMore
  | consumed (msglen : Nat)
  | failed
  | assertion
  deriving DecidableEq

variable (parse : List UInt8 → Option Value)

def jsonProcMsg (env : MessageEnv) (n : Node) (msg : List UInt8) : MsgReturn × Node :=
  match msg.findIdx? (· = 0x0a) with
  | none => (.needMore, n)
  | some i =>
      match parse (cstr (msg.take i)) with
      | none => (.failed, n)
      | some doc =>
          if !doc.isObject then (.failed, n)
          else
            match (procMessage getEpochNumber env doc).run.run n with
            | (.ok .handled, after) => (.consumed (i + 1), after)
            | (.ok (.published _), after) => (.consumed (i + 1), after)
            | (.ok .reconnect, after) => (.failed, after)
            | (.error (.parseError _), after) => (.failed, after)
            | (.error .assertion, after) => (.assertion, after)

def Publishes (n : Node) (env : MessageEnv) (doc : Value) (job : JobData) (after : Node) : Prop :=
  Runs (procMessage getEpochNumber env doc) n (.published job) after

end Messages

end Node

/-- The submit message of send_job_result. `pow` is the algorithm its text names. -/
structure SubmitMessage where
  height : UInt32
  jobid : UInt32
  nonce : UInt64
  pow : String
  powhash : V32
  deriving DecidableEq

def SubmitMessage.text (m : SubmitMessage) : List UInt8 :=
  ascii "\x7b\"id\":\"0\",\"jsonrpc\":\"2.0\",\"method\":\"submit\",\"params\":" ++
    ascii "\x7b\"height\":" ++ decimal m.height.toNat ++
    ascii ",\"job_id\":" ++ decimal m.jobid.toNat ++
    ascii ",\"nonce\":" ++ decimal m.nonce.toNat ++
    ascii ",\"pow\":\x7b\"" ++ ascii m.pow ++ ascii "\":[" ++
    (ascii ",").intercalate (m.powhash.data.bytes.map (fun b => decimal b.toNat)) ++
    ascii "]\x7d\x7d\x7d\n"

def sendJobResult (data : JobData) (nonce : UInt64) (powhash : V32) : SubmitMessage :=
  ⟨data.height, data.jobid, nonce, "RandomX", powhash⟩

end EpicPoold
