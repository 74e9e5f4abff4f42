import EpicPoold.Node

/-! client: one connection of a miner. A request finds the clock, the current job, the
verdict of the hash pools and the success of the write in its environment; what it does
to the outside is its list of effects. -/

namespace EpicPoold

open Foundations

def fixDiff : UInt32 := 4096

structure JobMessage where
  blob : List UInt8
  jobId : List UInt8
  target : List UInt8
  powAlgo : String
  seedHash : List UInt8
  height : UInt32
  deriving DecidableEq

inductive Reply where
  | error (callId : Int64) (message : String)
  | login (callId : Int64) (message : JobMessage)
  | status (callId : Int64)
  | job (message : JobMessage)
  deriving DecidableEq

/-- `%lld`. -/
def signedDecimal (n : Int64) : List UInt8 :=
  if n < 0 then 0x2d :: decimal n.toInt.natAbs else decimal n.toInt.natAbs

def JobMessage.text (m : JobMessage) : List UInt8 :=
  ascii "\x7b\"blob\":\"" ++ m.blob ++ ascii "\",\"job_id\":\"" ++ m.jobId ++
    ascii "\",\"target\":\"" ++ m.target ++ ascii "\",\"pow_algo\":\"" ++ ascii m.powAlgo ++
    ascii "\",\"seed_hash\":\"" ++ m.seedHash ++ ascii "\",\"height\":" ++
    decimal m.height.toNat ++ ascii "\x7d"

def Reply.text : Reply → List UInt8
  | .error callId message =>
      ascii "\x7b\"id\":" ++ signedDecimal callId ++
        ascii ",\"jsonrpc\":\"2.0\",\"error\":\x7b\"code\":-1,\"message\":\"" ++ ascii message ++
        ascii "\"\x7d\x7d\n"
  | .login callId message =>
      ascii "\x7b\"id\":" ++ signedDecimal callId ++
        ascii ",\"jsonrpc\":\"2.0\",\"error\":null,\"result\":\x7b\"id\":\"decafbad0\",\"job\":" ++
        message.text ++ ascii ",\"status\":\"OK\"\x7d\x7d\n"
  | .status callId =>
      ascii "\x7b\"id\":" ++ signedDecimal callId ++
        ascii ",\"jsonrpc\":\"2.0\",\"error\":null,\"result\":\x7b\"status\":\"OK\"\x7d\x7d\n"
  | .job message =>
      ascii "\x7b\"jsonrpc\":\"2.0\",\"method\":\"job\",\"params\":" ++ message.text ++
        ascii "\x7d\n"

/-- `checkClientWork` marks a call of check_client_work. -/
inductive Effect where
  | getCurrentJob (job : JobData)
  | access (a : Access)
  | checkClientWork (nonce : UInt32)
  | rxCheck (job : RxCheckJob)
  | ppCheck (job : PpCheckJob)
  | submit (message : SubmitMessage)
  | send (reply : Reply)

structure ClientIdent where
  miner : UInt8
  rid : Int
  uid : Int
  deriving DecidableEq

abbrev sockBufSize : Nat := 4096

structure SockBuffer where
  len : Nat
  buf : Buffer sockBufSize
  deriving DecidableEq

structure Client where
  fd : Int
  aborting : Bool
  recvBuf : SockBuffer
  floodTimestamp : Int
  floodCount : UInt32
  loggedIn : Bool
  myId : ClientIdent
  curJob : JobData
  jobid : UInt32
  extraNonce : UInt32
  deriving DecidableEq

/-- What one request or one new block finds outside the client. -/
structure RequestEnv where
  time : Int
  currentJob : JobData
  rx : RxCheckJob → CheckJob
  pp : PpCheckJob → CheckJob
  writeOk : Bool

namespace Client

/-- A client as its constructor leaves it. `cur_job` is not initialised: it holds the
bytes that were in the slot before. -/
def construct (fd : Int) (extraNonce : UInt32) (stale : JobData) : Client where
  fd := fd
  aborting := false
  recvBuf := ⟨0, .filled sockBufSize 0⟩
  floodTimestamp := 0
  floodCount := 0
  loggedIn := false
  myId := ⟨0, -1, -1⟩
  curJob := stale
  jobid := 0
  extraNonce := extraNonce

def hardAbort (c : Client) : Client := { c with aborting := true }

def diffToTarget (diff : UInt32) : UInt32 := 0xffffffff / diff

def workToDiff (work : UInt64) : UInt64 :=
  if work = 0 then 0xffffffffffffffff else 0xffffffffffffffff / work

/-- A reply is formatted into the send buffer and written in one go. SIGPIPE is taken to be
ignored, as in sock_init, which no code of the repository calls: a failed write returns. -/
def netSend (env : RequestEnv) (c : Client) (reply : Reply) : Client × List Effect :=
  (if env.writeOk then c else c.hardAbort,
    [.access ⟨.sendBuf, 0, reply.text.length + 1⟩, .send reply])

def sendErrorResponse (env : RequestEnv) (c : Client) (callId : Int64) (msg : String) :
    Client × List Effect :=
  netSend env c (.error callId msg)

def getNewJob (env : RequestEnv) (c : Client) : Client × List Effect :=
  ({ c with curJob := env.currentJob, jobid := c.jobid + 1 }, [.getCurrentJob env.currentJob])

/-- memcpy to `prepow + prepow_len - back`. A copy that begins before the array is
recorded and otherwise ignored. -/
def copyBack (job : JobData) (back : Nat) (source : List UInt8) : JobData × Access :=
  ({ job with
      prepow :=
        if back ≤ job.prepowLen.toNat then job.prepow.write (job.prepowLen.toNat - back) source
        else job.prepow },
    ⟨.prepow, (job.prepowLen.toNat : Int) - back, source.length⟩)

/-- The writes of bin2hex to a local array, with the terminator. -/
def hexAccess (buffer : BufferName) (len : Nat) : Effect := .access ⟨buffer, 0, 2 * len + 1⟩

def jobMessage (job : JobData) (jobid : UInt32) : JobMessage where
  blob := bin2hex job.blob
  jobId := bin2hex (store32 jobid)
  target := bin2hex (store32 (diffToTarget fixDiff))
  powAlgo := powTypeToStr job.type
  seedHash := bin2hex job.rxSeed.data.bytes
  height := job.height

/-- The lines login and on_new_block share: the extra nonce is put into the blob and the
texts of the job message are made. -/
def prepareJob (c : Client) : Client × JobMessage × List Effect :=
  let patched := copyBack c.curJob 8 (store32 c.extraNonce)
  let c := { c with curJob := patched.1 }
  (c, jobMessage c.curJob c.jobid,
    [.access patched.2, .access ⟨.prepow, 0, c.curJob.prepowLen.toNat⟩,
      hexAccess .hexBlob c.curJob.prepowLen.toNat, hexAccess .hexJobid 4,
      hexAccess .hexTarget 4, hexAccess .seedHash 32])

/-- process_method_login from my_id on. -/
def giveFirstJob (env : RequestEnv) (c : Client) (callId : Int64) : Client × List Effect :=
  let c := { c with myId := ⟨0, 0, 1⟩ }
  let (c, got) := getNewJob env c
  let (c, message, made) := prepareJob c
  let (c, sent) := netSend env c (.login callId message)
  ({ c with loggedIn := true }, got ++ made ++ sent)

/-- What the two members say is not looked at. -/
def processMethodLogin (env : RequestEnv) (c : Client) (callId : Int64) (args : Value) :
    Json (Client × List Effect) :=
  if c.loggedIn then pure (sendErrorResponse env c callId "You are logged in.")
  else do
    let _ ← getObjectMember args "pass"
    let _ ← getObjectMember args "login"
    pure (giveFirstJob env c callId)

structure SubmitArgs where
  netJobid : UInt32
  nonce : UInt32
  claimWork : UInt64
  deriving DecidableEq

def submitArgs (args : Value) : Json (Except String SubmitArgs) := do
  let sJobid ← getObjectMember args "job_id"
  let sNonce ← getObjectMember args "nonce"
  let sResult ← getObjectMember args "result"
  let _ ← getObjectMember args "hashcount_total"
  match sJobid, sNonce, sResult with
  | some sJobid, some sNonce, some sResult =>
      if !sJobid.isString || !sNonce.isString || !sResult.isString then
        pure (.error "Malformed submit")
      else
        let jobid ← sJobid.getString
        let nonce ← sNonce.getString
        let result ← sResult.getString
        let netJobid := hex2bin jobid 8
        let netNonce := hex2bin nonce 8
        let claimWork := hex2bin (result.drop 48) 16
        if jobid.length ≠ 8 ∨ nonce.length ≠ 8 ∨ result.length ≠ 64 then
          pure (.error "Malformed submit")
        else if !netJobid.1 then pure (.error "Invalid jobid")
        else if !netNonce.1 then pure (.error "Invalid nonce")
        else if !claimWork.1 then pure (.error "Invalid result")
        else pure (.ok ⟨load32 netJobid.2, load32 netNonce.2, load64 claimWork.2⟩)
  | _, _, _ => pure (.error "Malformed submit")

/-- Everything process_method_submit tests before check_client_work: the nonce it is
called with, or the text of the error. -/
def submitGate (c : Client) (args : Value) : Json (Except String UInt32) := do
  match ← submitArgs args with
  | .error msg => pure (.error msg)
  | .ok a => if a.netJobid ≠ c.jobid then pure (.error "Stale job id") else pure (.ok a.nonce)

def hashAccesses (dataLen : Nat) : List Effect :=
  [.access ⟨.prepow, 0, dataLen⟩, hexAccess .poolBlob dataLen]

/-- The rx_check_job for a job with its nonce in place. -/
def rxCheckJob (job : JobData) : RxCheckJob := ⟨job.blob, job.rxSeed.getId, job.rxSeed, rfl⟩

def totalNonce (c : Client) (nonce : UInt32) : UInt64 :=
  (c.extraNonce.toUInt64 <<< 32) ||| nonce.toUInt64

/-- `prepow_len - sizeof(uint64_t)` in size_t. -/
def ppDataLen (job : JobData) : Nat := (job.prepowLen.toNat + 2 ^ 64 - 8) % 2 ^ 64

def ppCheckJob (c : Client) (nonce : UInt32) : PpCheckJob :=
  ⟨c.curJob.prepow.read 0 (ppDataLen c.curJob), c.totalNonce nonce, c.curJob.height.toUInt64⟩

def checkClientWork (env : RequestEnv) (c : Client) (nonce : UInt32) :
    Client × CheckJob × List Effect :=
  match c.curJob.type with
  | .randomx =>
      let patched := copyBack c.curJob 4 (store32 nonce)
      let result := env.rx (rxCheckJob patched.1)
      ({ c with curJob := patched.1 }, result,
        [.access patched.2, .rxCheck (rxCheckJob patched.1)] ++
          if result.error then [] else hashAccesses patched.1.prepowLen.toNat)
  | .progpow =>
      let result := env.pp (c.ppCheckJob nonce)
      (c, result, .ppCheck (c.ppCheckJob nonce) ::
        if result.error then [] else hashAccesses (ppDataLen c.curJob))
  | .cuckoo => (c, ⟨.setAllOnes, true⟩, [])

def fullNonce (c : Client) (nonce : UInt32) : UInt64 :=
  bswap64 ((nonce.toUInt64 <<< 32) ||| c.extraNonce.toUInt64)

/-- process_method_submit from check_client_work on. -/
def checkShare (env : RequestEnv) (c : Client) (callId : Int64) (nonce : UInt32) :
    Client × List Effect :=
  let (c, job, checked) := checkClientWork env c nonce
  let (c, answered) :=
    if job.error then sendErrorResponse env c callId "Server error while checking share."
    else if 0xffffffff / fixDiff < job.hash.getWork32 then
      sendErrorResponse env c callId "Bad share"
    else
      let forwarded :=
        if 4096 < workToDiff job.hash.getWork64 then
          [.submit (sendJobResult c.curJob (c.fullNonce nonce) job.hash)]
        else []
      let (c, sent) := netSend env c (.status callId)
      (c, forwarded ++ sent)
  (c, .checkClientWork nonce :: checked ++ answered)

def processMethodSubmit (env : RequestEnv) (c : Client) (callId : Int64) (args : Value) :
    Json (Client × List Effect) := do
  match ← c.submitGate args with
  | .error msg => pure (sendErrorResponse env c callId msg)
  | .ok nonce => pure (checkShare env c callId nonce)

def processMethodKeepalive (env : RequestEnv) (c : Client) (callId : Int64) :
    Client × List Effect :=
  netSend env c (.status callId)

inductive Method where
  | submit
  | login
  | keepalive
  deriving DecidableEq

def callTab : List (String × Method) :=
  [("submit", .submit), ("login", .login), ("keepalived", .keepalive)]

def toLower (c : UInt8) : UInt8 := if 0x41 ≤ c ∧ c ≤ 0x5a then c + 0x20 else c

/-- The entry of the call table that strcasecmp finds equal to the method. -/
def findMethod (method : List UInt8) : Option Method :=
  (callTab.find? (fun entry => ascii entry.1 == (cstr method).map toLower)).map Prod.snd

section Lines

variable (maxCallsPerMin : Nat) (parse : List UInt8 → Option Value)

/-- The flood counter is updated by every well-formed request, refused ones included. -/
def countCall (time : Int) (c : Client) : Client :=
  if 60 < time - c.floodTimestamp then { c with floodTimestamp := time, floodCount := 1 }
  else { c with floodCount := c.floodCount + 1 }

def dispatch (env : RequestEnv) (c : Client) (callId : Int64) (args : Value) (method : Method) :
    Json (Client × List Effect) :=
  match method with
  | .submit => processMethodSubmit env c callId args
  | .login => processMethodLogin env c callId args
  | .keepalive => pure (processMethodKeepalive env c callId)

/-- `call_id`. -/
def requestId (doc : Value) : Json Int64 := do
  match ← getObjectMember doc "id" with
  | some cid => if cid.isInt64 then cid.getInt64 else pure 0
  | none => pure 0

def processRequest (env : RequestEnv) (c : Client) (doc : Value) :
    Json (Client × List Effect) := do
  let callId ← requestId doc
  let method ← getObjectMember doc "method"
  let args ← getObjectMember doc "params"
  match method, args with
  | some method, some args =>
      if !method.isString || !args.isObject then
        pure (sendErrorResponse env c callId "Malformed request")
      else
        let c := countCall env.time c
        if maxCallsPerMin < c.floodCount.toNat then
          pure (sendErrorResponse env c callId "Slow down")
        else
          match findMethod (← method.getString) with
          | some method => dispatch env c callId args method
          | none => pure (sendErrorResponse env c callId "Unknown method")
  | _, _ => pure (sendErrorResponse env c callId "Malformed request")

def processLine (env : RequestEnv) (c : Client) (buf : List UInt8) :
    Json (Bool × Client × List Effect) := do
  if buf.length = 0 then pure (false, c, [])
  else
    match parse (cstr buf.dropLast) with
    | none => pure (false, c, [])
    | some doc =>
        if !doc.isObject then pure (false, c, [])
        else
          let (c, effects) ← processRequest maxCallsPerMin env c doc
          pure (true, c, effects)

def onNewBlock (env : RequestEnv) (c : Client) : Bool × Client × List Effect :=
  if c.aborting then (false, c, [])
  else
    let (c, got) := getNewJob env c
    if !c.loggedIn then (true, c, got)
    else
      let (c, message, made) := prepareJob c
      let (c, sent) := netSend env c (.job message)
      (true, c, got ++ made ++ sent)

/-- The outcome of one read: bytes (none at the end of the stream), or a failure that
is or is not for lack of data. -/
inductive ReadResult where
  | bytes (data : List UInt8)
  | failed (wouldBlock : Bool)
  deriving DecidableEq

/-- What one call of on_socket_read finds: the outcomes of its reads (then there is no
more data) and the environment of each line it handles. -/
structure SocketEnv where
  reads : List ReadResult
  request : Nat → RequestEnv

/-- net_recv past its test of `aborting`; read gives at most the space offered. -/
def netRecv (c : Client) : ReadResult → Int × Client
  | .failed wouldBlock => (if wouldBlock then -1 else 0, c)
  | .bytes data =>
      let got := data.take (sockBufSize - c.recvBuf.len)
      (got.length,
        { c with
          recvBuf := ⟨c.recvBuf.len + got.length, c.recvBuf.buf.write c.recvBuf.len got⟩ })

/-- The loop over complete lines: `lnstart` is where the unhandled bytes begin, and the
buffer's `len` counts them. Yields whether every line was accepted, where the rest
begins, the client, its effects and the number of lines handled so far. -/
def lineLoop (request : Nat → RequestEnv) :
    Nat → Nat → Nat → Client → Json (Bool × Nat × Client × List Effect × Nat)
  | 0, handled, lnstart, c => pure (true, lnstart, c, [], handled)
  | turns + 1, handled, lnstart, c => do
      match (c.recvBuf.buf.read lnstart c.recvBuf.len).findIdx? (· = 0x0a) with
      | none => pure (true, lnstart, c, [], handled)
      | some i =>
          let lnlen := i + 1
          let line := c.recvBuf.buf.read lnstart lnlen
          let (fine, c, effects) ← processLine maxCallsPerMin parse (request handled) c line
          if !fine then pure (false, lnstart, c, effects, handled + 1)
          else
            let c := { c with recvBuf := { c.recvBuf with len := c.recvBuf.len - lnlen } }
            let (fine, lnstart, c, more, handled) ←
              lineLoop request turns (handled + 1) (lnstart + lnlen) c
            pure (fine, lnstart, c, effects ++ more, handled)

/-- memmove of the leftover bytes to the front. -/
def moveLeftover (c : Client) (lnstart : Nat) : Client :=
  if 0 < c.recvBuf.len ∧ lnstart ≠ 0 then
    { c with
      recvBuf := { c.recvBuf with
        buf := c.recvBuf.buf.write 0 (c.recvBuf.buf.read lnstart c.recvBuf.len) } }
  else c

/-- on_socket_read. A buffer of `n` bytes has at most `n` lines, so that many turns
of the line loop are enough. -/
def socketLoop (request : Nat → RequestEnv) :
    List ReadResult → Nat → Client → Json (Bool × Client × List Effect)
  | reads, handled, c =>
      if c.aborting then pure (true, c, [])
      else
        match reads with
        | [] => pure (true, c, [])
        | result :: rest => do
            let (ret, c) := netRecv c result
            if ret ≤ 0 then pure (ret ≠ 0, c, [])
            else if sockBufSize ≤ c.recvBuf.len then pure (false, c.hardAbort, [])
            else
              let (fine, lnstart, c, effects, handled) ←
                lineLoop maxCallsPerMin parse request c.recvBuf.len handled 0 c
              if !fine then pure (false, c.hardAbort, effects)
              else
                let (keep, c, more) ← socketLoop request rest handled (moveLeftover c lnstart)
                pure (keep, c, effects ++ more)

def onSocketRead (env : SocketEnv) (c : Client) : Json (Bool × Client × List Effect) :=
  socketLoop maxCallsPerMin parse env.request env.reads 0 c

end Lines

end Client

end EpicPoold
