import EpicPoold.ClientRuns
import EpicPoold.MinerRequests
import EpicPoold.ShareDifficulty

/-! Submitted shares: who gets one checked, what it is checked over and what is sent on
to the node. -/

namespace EpicPoold

open Foundations

namespace Session

open Client

section Authorization

variable {maxCallsPerMin : Nat} {parse : List UInt8 → Option Value}
  {getEpochNumber : UInt64 → Int32}

/-- process_method_submit, called by process_line, calls check_client_work. -/
def ChecksWork (env : RequestEnv) (c : Client) (callId : Int64) (args : Value)
    (nonce : UInt32) : Prop :=
  ∃ after effects, processMethodSubmit env (countCall env.time c) callId args =
    .ok (after, effects) ∧ .checkClientWork nonce ∈ effects

theorem checkClientWork_mem_checkShare (env : RequestEnv) (c : Client) (callId : Int64)
    (nonce other : UInt32) :
    .checkClientWork other ∈ (checkShare env c callId nonce).2 ↔ other = nonce := by
  rw [mem_checkShare_of_not_hashing _ _ _ _ _ (by simp [Hashing]), mem_forwarded]
  simp

theorem processMethodSubmit_eq_ok (env : RequestEnv) (c : Client) (callId : Int64)
    (args : Value) (nonce : UInt32) (after : Client) (effects : List Effect) :
    processMethodSubmit env c callId args = .ok (after, effects) ∧
        .checkClientWork nonce ∈ effects ↔
      WellFormed args c.jobid nonce ∧ checkShare env c callId nonce = (after, effects) := by
  constructor
  · rintro ⟨ran, called⟩
    rw [processMethodSubmit, bind_eq_ok] at ran
    obtain ⟨outcome, gate, ran⟩ := ran
    cases outcome with
    | error msg =>
        rw [pure_eq_ok] at ran
        cases ran
        simp at called
    | ok passed =>
        rw [pure_eq_ok] at ran
        have effectsEq : (checkShare env c callId passed).2 = effects := congrArg Prod.snd ran
        rw [← effectsEq, checkClientWork_mem_checkShare] at called
        subst called
        exact ⟨(submitGate_eq_ok c args nonce).mp gate, ran⟩
  · rintro ⟨wellFormed, checked⟩
    have gate := (submitGate_eq_ok c args nonce).mpr wellFormed
    constructor
    · simp [processMethodSubmit, gate, bind, Except.bind, pure, Except.pure, checked]
    · have effectsEq : (checkShare env c callId nonce).2 = effects := congrArg Prod.snd checked
      rw [← effectsEq]
      exact (checkClientWork_mem_checkShare env c callId nonce nonce).mpr rfl

theorem checksWork_iff (env : RequestEnv) (c : Client) (callId : Int64) (args : Value)
    (nonce : UInt32) : ChecksWork env c callId args nonce ↔ WellFormed args c.jobid nonce := by
  have jobid : (countCall env.time c).jobid = c.jobid :=
    congrArg View.jobid (view_countCall env.time c)
  constructor
  · rintro ⟨after, effects, called⟩
    rw [← jobid]
    exact ((processMethodSubmit_eq_ok _ _ _ _ _ _ _).mp called).1
  · intro wellFormed
    rw [← jobid] at wellFormed
    exact ⟨_, _, (processMethodSubmit_eq_ok _ _ callId _ _ _ _).mpr ⟨wellFormed, rfl⟩⟩

/-- A job copied from another, up to the eight bytes where the nonces go. -/
def CopyOf (copy job : JobData) : Prop :=
  { copy with prepow := job.prepow } = job ∧
    Buffer.AgreeOutside (job.prepowLen.toNat - 8) 8 copy.prepow job.prepow

theorem mining_copyOf {v : View} {job : JobData} (room : 8 ≤ job.prepowLen.toNat)
    (mining : Mining v job) : CopyOf v.curJob job := by
  obtain ⟨nonce, size, same⟩ := mining
  rw [same]
  refine ⟨rfl, ?_⟩
  have inside : 4 ≤ job.prepowLen.toNat := by omega
  have nonceWrite := Buffer.write_agreeOutside (freshJob job v.extraNonce).prepow
    (job.prepowLen.toNat - 8) 8 (job.prepowLen.toNat - 4) nonce (by omega) (by omega)
  have extraWrite := Buffer.write_agreeOutside job.prepow (job.prepowLen.toNat - 8) 8
    (job.prepowLen.toNat - 8) (store32 v.extraNonce) le_rfl (by simp)
  simp only [freshJob, copyBack, if_pos room, if_pos inside] at nonceWrite ⊢
  exact Buffer.agreeOutside_trans nonceWrite extraWrite

/-- A share is checked only for a client that has logged in and holds a published job. -/
def ChecksAuthorized (published : JobData → Prop) (s : Session) (args : Value) : Prop :=
  ∀ env callId nonce, ChecksWork env s.client callId args nonce →
    LoggedInBefore s.trace ∧ ∃ job, published job ∧ CopyOf s.client.curJob job

def plainEnv (job : JobData) : RequestEnv where
  time := 0
  currentJob := job
  rx := fun _ => ⟨.setAllZero, false⟩
  pp := fun _ => ⟨.setAllZero, false⟩
  writeOk := true

/-- The gate of process_method_submit keeps out strangers exactly as long as they do not
name their own job counter. -/
theorem checksAuthorized_iff {s : Session}
    (reached : (system maxCallsPerMin parse).ReachableUnder
      (Supplied (Node.Published getEpochNumber)) s) (args : Value) :
    ChecksAuthorized (Node.Published getEpochNumber) s args ↔
      s.client.loggedIn = true ∨ ∀ nonce, ¬ WellFormed args s.client.jobid nonce := by
  have inv := reachable_inv Node.published_prepowLen reached
  constructor
  · intro authorized
    rcases miner : s.client.loggedIn with _ | _
    · right
      intro nonce wellFormed
      have called : ChecksWork (plainEnv .zero) s.client 0 args nonce :=
        (checksWork_iff _ _ _ _ _).mpr wellFormed
      have loggedIn := inv.login.mpr (authorized _ 0 nonce called).1
      rw [miner] at loggedIn
      cases loggedIn
    · exact .inl rfl
  · intro condition env callId nonce called
    rcases condition with miner | refused
    · obtain ⟨job, published, _, mining, _⟩ := inv.told miner
      exact ⟨inv.login.mp miner, job, published,
        mining_copyOf (Node.published_prepowLen job published).1 mining⟩
    · exact absurd ((checksWork_iff _ _ _ _ _).mp called) (refused nonce)

def zeroSubmit (jobid : UInt32) : Value :=
  valueOf (.object (submitParams jobid 0 .setAllZero))

theorem zeroSubmit_wellFormed (jobid : UInt32) : WellFormed (zeroSubmit jobid) jobid 0 :=
  submitParams_wellFormed jobid 0 .setAllZero

def suppliesOnly (job : JobData) (_ : Session) : SessionAction → Bool
  | .line env _ => decide (env.currentJob = job)
  | .newBlock env => decide (env.currentJob = job)
  | _ => true

theorem suppliesOnly_supplied {holds : JobData → Prop} (job : JobData) (good : holds job)
    (s : Session) (a : SessionAction) (only : suppliesOnly job s a = true) :
    Supplied holds s a := by
  cases a with
  | line env buf | newBlock env =>
      have same : env.currentJob = job := by simpa [suppliesOnly] using only
      rw [Supplied, same]
      exact good
  | recvBuf buffer => trivial
  | overflow => trivial

theorem checks_for_miner :
    ∃ s, s.client.loggedIn = true ∧
      ChecksAuthorized (Node.Published (fun _ => 0)) s (zeroSubmit 1) := by
  have published : Node.Published (fun _ => 0) (Node.plainJob "randomx" 24) :=
    Node.plainJob_published "randomx" 24 (by decide +kernel)
  obtain ⟨s, reached, miner⟩ :=
    System.exists_reachableUnder (S := system 60 parseJson)
      (suppliesOnly (Node.plainJob "randomx" 24)) (suppliesOnly_supplied _ published)
      ⟨7, 0, .zero, rfl⟩ [.line (plainEnv (Node.plainJob "randomx" 24)) (loginLine 1)]
      (fun s => s.client.loggedIn) (by decide +kernel)
  exact ⟨s, miner, (checksAuthorized_iff reached (zeroSubmit 1)).mpr (.inl miner)⟩

/-- The first line of a session may be a submit: the slot's old bytes are hashed. -/
theorem check_before_login :
    (system 60 parseJson).ReachableUnder (Supplied (Node.Published (fun _ => 0)))
        ⟨construct 7 0 .zero, []⟩ ∧
      ¬ ChecksAuthorized (Node.Published (fun _ => 0)) ⟨construct 7 0 .zero, []⟩
        (zeroSubmit 0) := by
  refine ⟨.start ⟨7, 0, .zero, rfl⟩, ?_⟩
  intro authorized
  have called : ChecksWork (plainEnv .zero) (construct 7 0 .zero) 0 (zeroSubmit 0) 0 :=
    (checksWork_iff _ _ _ _ _).mpr (zeroSubmit_wellFormed 0)
  obtain ⟨⟨callId, message, member⟩, _⟩ := authorized _ _ _ called
  cases member

end Authorization

section Binding

variable {maxCallsPerMin : Nat} {parse : List UInt8 → Option Value}
  {getEpochNumber : UInt64 → Int32}

theorem fullNonce_bytesBE (c : Client) (nonce : UInt32) :
    bytesBE 8 (c.fullNonce nonce).toNat = store32 c.extraNonce ++ store32 nonce := by
  have low : c.extraNonce.toNat < 256 ^ 4 := by simpa using c.extraNonce.toNat_lt
  calc bytesBE 8 (c.fullNonce nonce).toNat
      = bytesLE 8 (c.extraNonce.toNat + 256 ^ 4 * nonce.toNat) := by
        rw [fullNonce, bswap64_toNat, bytesBE_byteSwap, shifted_or_toNat]
    _ = store32 c.extraNonce ++ store32 nonce := by
        rw [store32, store32, bytesLE_append 4 4 _ _ low]

theorem rxCheck_mem_checkShare (env : RequestEnv) (c : Client) (callId : Int64) (nonce : UInt32)
    (randomx : c.curJob.type = .randomx) (check : RxCheckJob) :
    .rxCheck check ∈ (checkShare env c callId nonce).2 ↔ check = rxCheckJob (minedJob c nonce) := by
  have hashed : ∀ n, Effect.rxCheck check ∉ hashAccesses n := by
    intro n
    simp [hashAccesses, hexAccess]
  have asked : .rxCheck check ∈ (checkClientWork env c nonce).2.2 ↔
      check = rxCheckJob (minedJob c nonce) := by
    simp only [checkClientWork, minedJob, randomx, List.cons_append, List.nil_append,
      List.mem_cons, reduceCtorEq, false_or, Effect.rxCheck.injEq]
    split
    · simp
    · simp [hashed]
  rw [mem_checkShare, asked, mem_forwarded]
  simp [netSend]

/-- The share is hashed over what the client was told last: the blob of the message
with the submitted nonce at its end, and the dataset of the message's seed. What is
forwarded has the nonce that was hashed and names the job the blob came from. -/
def HashedAsTold (s : Session) (args : Value) (effects : List Effect) : Prop :=
  ∃ job message blob, ∃ seed : V32, ∃ nonceText nonceBytes, ∃ check : RxCheckJob,
    lastJob s.trace = some job ∧ lastMessage s.trace = some message ∧
    message = jobMessage (freshJob job s.client.extraNonce) s.client.jobid ∧
    hex2bin message.blob message.blob.length = (true, blob) ∧
    hex2bin message.seedHash message.seedHash.length = (true, seed.data.bytes) ∧
    getObjectMember args "nonce" = .ok (some (.string nonceText)) ∧
    hex2bin nonceText 8 = (true, nonceBytes) ∧
    (∀ c, .rxCheck c ∈ effects ↔ c = check) ∧
    check.data = blob.take (blob.length - 4) ++ nonceBytes ∧
    check.datasetId = seed.getId ∧
    ∀ m, .submit m ∈ effects →
      bytesBE 8 m.nonce.toNat = check.data.drop (check.data.length - 8) ∧
        m.height = job.height ∧ m.jobid = job.jobid

theorem minedJob_randomx {c : Client} {job : JobData} (mining : Mining c.view job)
    (randomx : c.curJob.type = .randomx) (nonce : UInt32) :
    minedJob c nonce = (copyBack (freshJob job c.extraNonce) 4 (store32 nonce)).1 := by
  obtain ⟨earlier, size, same⟩ := mining
  have curJob : c.curJob = (copyBack (freshJob job c.extraNonce) 4 earlier).1 := same
  simp only [minedJob, randomx]
  rw [curJob, copyBack_copyBack _ _ _ _ (by rw [size, store32_length])]

/-- A RandomX share is hashed over the job's blob with the extra nonce and the nonce in its
last eight bytes. -/
theorem blob_minedJob {c : Client} {job : JobData} (mining : Mining c.view job)
    (randomx : c.curJob.type = .randomx) (room : 8 ≤ job.prepowLen.toNat)
    (fits : job.prepowLen.toNat ≤ prepowSize) (nonce : UInt32) :
    (minedJob c nonce).blob =
      job.blob.take (job.blob.length - 8) ++ (store32 c.extraNonce ++ store32 nonce) := by
  have eight : (store32 c.extraNonce ++ store32 nonce).length = 8 := by simp
  have joined := copyBack_append job (store32 c.extraNonce) (store32 nonce)
    (by rw [eight]; exact room) fits
  rw [eight, store32_length] at joined
  calc (minedJob c nonce).blob
      = (copyBack (copyBack job 8 (store32 c.extraNonce)).1 4 (store32 nonce)).1.blob := by
        rw [minedJob_randomx mining randomx, freshJob]
    _ = (copyBack job 8 (store32 c.extraNonce ++ store32 nonce)).1.blob := by
        rw [joined]
    _ = _ := blob_copyBack job 8 _ eight room fits

theorem share_hashedAsTold {s : Session} (inv : Inv (Node.Published getEpochNumber) s)
    (miner : s.client.loggedIn = true) (env : RequestEnv) (c : Client)
    (same : c.view = s.client.view) (callId : Int64) (args : Value) (nonce : UInt32)
    (randomx : s.client.curJob.type = .randomx)
    (wellFormed : WellFormed args s.client.jobid nonce) :
    HashedAsTold s args (checkShare env c callId nonce).2 := by
  obtain ⟨job, published, fetched, mining, sent⟩ := inv.told miner
  obtain ⟨room, fits⟩ := Node.published_prepowLen job published
  obtain ⟨_, nonceText, _, _, _, _, nonceFound, _, nonceDecoded, _⟩ := wellFormed
  have curJob : c.curJob = s.client.curJob := congrArg View.curJob same
  have extraNonce : c.extraNonce = s.client.extraNonce := congrArg View.extraNonce same
  have type : c.curJob.type = .randomx := by rw [curJob, randomx]
  have mined : minedJob c nonce =
      (copyBack (freshJob job s.client.extraNonce) 4 (store32 nonce)).1 := by
    rw [← extraNonce]
    exact minedJob_randomx (same ▸ mining) type nonce
  have hashed : (minedJob c nonce).blob =
      job.blob.take (job.blob.length - 8) ++ (store32 s.client.extraNonce ++ store32 nonce) := by
    rw [← extraNonce]
    exact blob_minedJob (same ▸ mining) type room fits nonce
  refine ⟨job, _, (freshJob job s.client.extraNonce).blob, job.rxSeed, nonceText, store32 nonce,
    rxCheckJob (minedJob c nonce), fetched, sent, rfl, hex2bin_bin2hex_self _,
    hex2bin_bin2hex_self _, nonceFound, nonceDecoded, ?_, ?_, ?_, ?_⟩
  · exact rxCheck_mem_checkShare env c callId nonce type
  · change (minedJob c nonce).blob = _
    rw [mined, blob_copyBack _ 4 _ (store32_length nonce) _ _]
    · exact le_trans (by decide) room
    · exact fits
  · rw [mined]
    rfl
  · intro m submitted
    obtain ⟨_, _, rfl⟩ := (submit_mem_checkShare env c callId nonce m).mp submitted
    refine ⟨?_, ?_, ?_⟩
    · change bytesBE 8 (c.fullNonce nonce).toNat =
        (minedJob c nonce).blob.drop ((minedJob c nonce).blob.length - 8)
      rw [fullNonce_bytesBE, extraNonce, hashed, List.length_append, List.length_append,
        store32_length, store32_length, Nat.add_sub_cancel, List.drop_left']
      rfl
    · rw [mined]
      rfl
    · rw [mined]
      rfl

def OnlyNonceChanged (before after : Client) : Prop :=
  after.jobid = before.jobid ∧
    { after.curJob with prepow := before.curJob.prepow } = before.curJob ∧
    Buffer.AgreeOutside (before.curJob.prepowLen.toNat - 4) 4 after.curJob.prepow
      before.curJob.prepow

theorem onlyNonceChanged_of_view {before after : Client} (same : after.view = before.view) :
    OnlyNonceChanged before after := by
  have jobid : after.jobid = before.jobid := congrArg View.jobid same
  have curJob : after.curJob = before.curJob := congrArg View.curJob same
  rw [OnlyNonceChanged, curJob]
  exact ⟨jobid, rfl, Buffer.agreeOutside_refl _ _ _⟩

theorem handled_onlyNonceChanged {s : Session} (inv : Inv (Node.Published getEpochNumber) s)
    (miner : s.client.loggedIn = true) {env : RequestEnv} {out : Client × List Effect}
    (handled : Handled env s.client out) : OnlyNonceChanged s.client out.1 := by
  cases handled with
  | answered counted reply same plain =>
      refine onlyNonceChanged_of_view ?_
      rw [view_netSend, same]
  | login counted callId same fresh =>
      rw [miner] at fresh
      cases fresh
  | share counted callId args nonce same wellFormed =>
      have view := view_checkShare env counted callId nonce
      have jobid : (checkShare env counted callId nonce).1.jobid = s.client.jobid :=
        (congrArg View.jobid view).trans (congrArg View.jobid same)
      have mined : (checkShare env counted callId nonce).1.curJob = minedJob counted nonce :=
        congrArg View.curJob view
      have curJob : counted.curJob = s.client.curJob := congrArg View.curJob same
      rw [OnlyNonceChanged, jobid, mined, minedJob, curJob]
      refine ⟨rfl, ?_⟩
      split
      · obtain ⟨job, published, _, ⟨earlier, _, told⟩, _⟩ := inv.told miner
        have curJob : s.client.curJob = (copyBack (freshJob job _) 4 earlier).1 := told
        have length : s.client.curJob.prepowLen = job.prepowLen := by
          rw [curJob]
          rfl
        have room := (Node.published_prepowLen job published).1
        refine copyBack_frame s.client.curJob 4 _ (store32_length nonce) ?_
        rw [length]
        omega
      · exact ⟨rfl, Buffer.agreeOutside_refl _ _ _⟩

theorem next_onlyNonceChanged {s t : Session} (inv : Inv (Node.Published getEpochNumber) s)
    (miner : s.client.loggedIn = true) {a : SessionAction}
    (request : ∀ env, a ≠ .newBlock env) (stepped : next maxCallsPerMin parse s a = some t) :
    OnlyNonceChanged s.client t.client := by
  cases a with
  | line env buf =>
      simp only [next] at stepped
      split at stepped
      · rename_i accepted c effects ran
        cases stepped
        rcases processLine_handled buf accepted c effects ran with
          ⟨rfl, rfl, rfl⟩ | ⟨rfl, handled⟩
        · exact onlyNonceChanged_of_view rfl
        · exact handled_onlyNonceChanged inv miner handled
      · cases stepped
  | newBlock env => exact absurd rfl (request env)
  | recvBuf buffer =>
      cases stepped
      exact onlyNonceChanged_of_view rfl
  | overflow =>
      cases stepped
      exact onlyNonceChanged_of_view rfl

/-- A submit that names the job id is checked, whoever calls process_method_submit with it. -/
theorem submit_hashedAsTold {s : Session} (inv : Inv (Node.Published getEpochNumber) s)
    (miner : s.client.loggedIn = true) (env : RequestEnv) (callId : Int64) {args : Value}
    {nonce : UInt32} (randomx : s.client.curJob.type = .randomx)
    (wellFormed : WellFormed args s.client.jobid nonce) :
    ∃ after effects, processMethodSubmit env (countCall env.time s.client) callId args =
      .ok (after, effects) ∧ HashedAsTold s args effects := by
  have same := view_countCall env.time s.client
  have jobid : (countCall env.time s.client).jobid = s.client.jobid := congrArg View.jobid same
  have named := wellFormed
  rw [← jobid] at named
  have ran := ((processMethodSubmit_eq_ok env _ callId args nonce _ _).mpr ⟨named, rfl⟩).1
  exact ⟨_, _, ran, share_hashedAsTold inv miner env _ same callId args nonce randomx wellFormed⟩

/-- In every run, a submit that passes the job-id check on a RandomX job is hashed as the
client was told last, and nothing but a new block changes what a logged-in client works on. -/
theorem randomx_job_binding {s : Session}
    (reached : (system maxCallsPerMin parse).ReachableUnder
      (Supplied (Node.Published getEpochNumber)) s) (miner : s.client.loggedIn = true) :
    (∀ env callId args nonce, s.client.curJob.type = .randomx →
      WellFormed args s.client.jobid nonce →
      ∃ after effects, processMethodSubmit env (countCall env.time s.client) callId args =
        .ok (after, effects) ∧ HashedAsTold s args effects) ∧
    (∀ env buf doc args nonce, s.client.curJob.type = .randomx →
      HandsSubmit maxCallsPerMin parse env s.client buf doc args →
      WellFormed args s.client.jobid nonce →
      ∃ t effects, next maxCallsPerMin parse s (.line env buf) = some t ∧
        t.trace = s.trace ++ effects ∧ HashedAsTold s args effects) ∧
    ∀ a t, (∀ env, a ≠ .newBlock env) → next maxCallsPerMin parse s a = some t →
      OnlyNonceChanged s.client t.client := by
  have inv := reachable_inv Node.published_prepowLen reached
  refine ⟨?_, ?_, ?_⟩
  · intro env callId args nonce randomx wellFormed
    exact submit_hashedAsTold inv miner env callId randomx wellFormed
  · intro env buf doc args nonce randomx hands wellFormed
    obtain ⟨callId, _, line⟩ := processLine_of_handsSubmit hands
    obtain ⟨after, effects, ran, hashed⟩ :=
      submit_hashedAsTold inv miner env callId randomx wellFormed
    rw [ran] at line
    exact ⟨⟨after, s.trace ++ effects⟩, effects, by rw [next, line]; rfl, rfl, hashed⟩
  · intro a t request stepped
    exact next_onlyNonceChanged inv miner request stepped

/-- A miner that has logged in submits a share, which is hashed over the blob it was sent. -/
theorem randomx_binding_after_login :
    ∃ s t effects check, s.client.loggedIn = true ∧
      next 60 parseJson s (.line (plainEnv (Node.plainJob "randomx" 24))
        (submitLine 2 1 0 .setAllZero)) = some t ∧
      t.trace = s.trace ++ effects ∧ .rxCheck check ∈ effects ∧
      HashedAsTold s (zeroSubmit 1) effects := by
  have published : Node.Published (fun _ => 0) (Node.plainJob "randomx" 24) :=
    Node.plainJob_published "randomx" 24 (by decide +kernel)
  obtain ⟨s, reached, checks⟩ :=
    System.exists_reachableUnder (S := system 60 parseJson)
      (suppliesOnly (Node.plainJob "randomx" 24)) (suppliesOnly_supplied _ published)
      ⟨7, 0, .zero, rfl⟩ [.line (plainEnv (Node.plainJob "randomx" 24)) (loginLine 1)]
      (fun s => s.client.loggedIn && s.client.curJob.type == .randomx && s.client.jobid == 1 &&
        decide ((countCall 0 s.client).floodCount.toNat ≤ 60)) (by decide +kernel)
  simp only [Bool.and_eq_true, beq_iff_eq, decide_eq_true_eq] at checks
  obtain ⟨⟨⟨miner, type⟩, jobid⟩, within⟩ := checks
  have wellFormed : WellFormed (zeroSubmit 1) s.client.jobid 0 := by
    rw [jobid]
    exact zeroSubmit_wellFormed 1
  have hands : HandsSubmit 60 parseJson (plainEnv (Node.plainJob "randomx" 24)) s.client _ _ _ :=
    submitLine_handsSubmit within 2 1 0 .setAllZero
  obtain ⟨t, effects, stepped, grown, hashed⟩ :=
    (randomx_job_binding reached miner).2.1 _ _ _ _ 0 type hands wellFormed
  obtain ⟨_, _, _, _, _, _, check, _, _, _, _, _, _, _, only, _⟩ := id hashed
  exact ⟨s, t, effects, check, miner, stepped, grown, (only check).mpr rfl, hashed⟩

end Binding

section Agreement

def NamesAlgorithm (pow : String) (type : PowType) : Prop :=
  (ascii pow).map toLower = ascii (powTypeToStr type)

instance (pow : String) (type : PowType) : Decidable (NamesAlgorithm pow type) :=
  inferInstanceAs (Decidable (_ = _))

theorem ppCheck_mem_checkShare (env : RequestEnv) (c : Client) (callId : Int64) (nonce : UInt32)
    (progpow : c.curJob.type = .progpow) (check : PpCheckJob) :
    .ppCheck check ∈ (checkShare env c callId nonce).2 ↔ check = ppCheckJob c nonce := by
  have hashed : ∀ n, Effect.ppCheck check ∉ hashAccesses n := by
    intro n
    simp [hashAccesses, hexAccess]
  have asked : .ppCheck check ∈ (checkClientWork env c nonce).2.2 ↔ check = ppCheckJob c nonce := by
    simp only [checkClientWork, progpow, List.mem_cons, Effect.ppCheck.injEq]
    split
    · simp
    · simp [hashed]
  rw [mem_checkShare, asked, mem_forwarded]
  simp [netSend]

theorem totalNonce_bytesBE (c : Client) (nonce : UInt32) :
    bytesBE 8 (c.totalNonce nonce).toNat =
      bytesBE 4 c.extraNonce.toNat ++ bytesBE 4 nonce.toNat := by
  have low : nonce.toNat < 256 ^ 4 := by simpa using nonce.toNat_lt
  calc bytesBE 8 (c.totalNonce nonce).toNat
      = (bytesLE 8 (nonce.toNat + 256 ^ 4 * c.extraNonce.toNat)).reverse := by
        rw [totalNonce, shifted_or_toNat, bytesBE]
    _ = (bytesLE 4 nonce.toNat ++ bytesLE 4 c.extraNonce.toNat).reverse := by
        rw [bytesLE_append 4 4 _ _ low]
    _ = bytesBE 4 c.extraNonce.toNat ++ bytesBE 4 nonce.toNat := List.reverse_append

theorem bytesBE_eq_store32_iff (word : UInt32) :
    bytesBE 4 word.toNat = store32 word ↔ bswap32 word = word := by
  rw [← bytesLE_byteSwap, ← bswap32_toNat]
  constructor
  · intro same
    apply UInt32.toNat.inj
    exact bytesLE_injective 4 _ _ (by simpa using (bswap32 word).toNat_lt)
      (by simpa using word.toNat_lt) same
  · intro same
    rw [same]
    rfl

theorem fullNonce_eq_totalNonce_iff (c : Client) (nonce : UInt32) :
    c.fullNonce nonce = c.totalNonce nonce ↔
      bswap32 c.extraNonce = c.extraNonce ∧ bswap32 nonce = nonce := by
  have bytes : c.fullNonce nonce = c.totalNonce nonce ↔
      bytesBE 8 (c.fullNonce nonce).toNat = bytesBE 8 (c.totalNonce nonce).toNat := by
    constructor
    · intro same
      rw [same]
    · intro same
      apply UInt64.toNat.inj
      exact bytesLE_injective 8 _ _ (by simpa using (c.fullNonce nonce).toNat_lt)
        (by simpa using (c.totalNonce nonce).toNat_lt) (List.reverse_injective same)
  rw [bytes, fullNonce_bytesBE, totalNonce_bytesBE, ← bytesBE_eq_store32_iff,
    ← bytesBE_eq_store32_iff]
  constructor
  · intro same
    obtain ⟨first, second⟩ := List.append_inj same (by simp)
    exact ⟨first.symm, second.symm⟩
  · rintro ⟨first, second⟩
    rw [first, second]

def ReportsChecked (check : PpCheckJob) (m : SubmitMessage) : Prop :=
  m.nonce = check.nonce ∧ NamesAlgorithm m.pow .progpow

instance (check : PpCheckJob) (m : SubmitMessage) : Decidable (ReportsChecked check m) :=
  inferInstanceAs (Decidable (_ ∧ _))

/-- Every ProgPoW result that is forwarded was hashed once, and it is forwarded under the
name of another algorithm, with the nonce that was hashed only when both halves of the
nonce are palindromes. -/
theorem progpow_result_never_agrees (env : RequestEnv) (c : Client) (callId : Int64)
    (args : Value) (after : Client) (effects : List Effect)
    (progpow : c.curJob.type = .progpow)
    (ran : processMethodSubmit env c callId args = .ok (after, effects)) (m : SubmitMessage)
    (submitted : .submit m ∈ effects) :
    ∃ check nonce, (∀ other, .ppCheck other ∈ effects ↔ other = check) ∧
      .checkClientWork nonce ∈ effects ∧ ¬ ReportsChecked check m ∧
      (m.nonce = check.nonce ↔
        bswap32 c.extraNonce = c.extraNonce ∧ bswap32 nonce = nonce) := by
  rw [processMethodSubmit, bind_eq_ok] at ran
  obtain ⟨outcome, gate, ran⟩ := ran
  cases outcome with
  | error msg =>
      rw [pure_eq_ok] at ran
      cases ran
      simp at submitted
  | ok nonce =>
      rw [pure_eq_ok] at ran
      have effectsEq : (checkShare env c callId nonce).2 = effects := congrArg Prod.snd ran
      rw [← effectsEq] at submitted ⊢
      obtain ⟨_, _, sent⟩ := (submit_mem_checkShare env c callId nonce m).mp submitted
      refine ⟨ppCheckJob c nonce, nonce, ppCheck_mem_checkShare env c callId nonce progpow,
        (checkClientWork_mem_checkShare _ _ _ _ _).mpr rfl, ?_, ?_⟩
      · rw [sent]
        rintro ⟨_, named⟩
        have misnamed : ¬ NamesAlgorithm "RandomX" .progpow := by decide +kernel
        exact misnamed named
      · rw [sent]
        exact fullNonce_eq_totalNonce_iff c nonce

def plainMiner (job : JobData) : Client :=
  (giveFirstJob (plainEnv job) (construct 7 1 .zero) 0).1

theorem plainMiner_jobid (job : JobData) : (plainMiner job).jobid = 1 :=
  congrArg View.jobid (giveFirstJob_given (plainEnv job) (construct 7 1 .zero) 0).1

theorem plainMiner_submits (env : RequestEnv) (job : JobData) :
    ∃ after, processMethodSubmit env (plainMiner job) 0 (zeroSubmit 1) =
      .ok (after, (checkShare env (plainMiner job) 0 0).2) := by
  have wellFormed := zeroSubmit_wellFormed 1
  rw [← plainMiner_jobid job] at wellFormed
  have ran := (processMethodSubmit_eq_ok env (plainMiner job) 0 _ 0 _ _).mpr ⟨wellFormed, rfl⟩
  rw [plainMiner_jobid job] at ran
  exact ⟨_, ran.1⟩

/-- A ProgPoW share with a zero hash is forwarded. -/
theorem plainMiner_progpow_forwards :
    let c := plainMiner (Node.plainJob "progpow" 24)
    c.curJob.type = .progpow ∧
      .ppCheck (ppCheckJob c 0) ∈ (checkShare (plainEnv .zero) c 0 0).2 ∧
      .submit (sendJobResult (minedJob c 0) (c.fullNonce 0) .setAllZero) ∈
        (checkShare (plainEnv .zero) c 0 0).2 := by
  have progpow : (plainMiner (Node.plainJob "progpow" 24)).curJob.type = .progpow := by
    decide +kernel
  refine ⟨progpow, (ppCheck_mem_checkShare _ _ _ _ progpow _).mpr rfl, ?_⟩
  refine (submit_mem_checkShare _ _ _ _ _).mpr ?_
  decide +kernel

theorem progpow_result_disagrees :
    ∃ (check : PpCheckJob) (m : SubmitMessage), check.nonce = 0x100000000 ∧
      m.nonce = bswap64 1 ∧ ¬ ReportsChecked check m := by
  obtain ⟨after, ran⟩ := plainMiner_submits (plainEnv .zero) (Node.plainJob "progpow" 24)
  obtain ⟨progpow, hashed, forwarded⟩ := plainMiner_progpow_forwards
  obtain ⟨check, _, only, _, disagrees, _⟩ :=
    progpow_result_never_agrees _ _ _ _ _ _ progpow ran _ forwarded
  refine ⟨check, _, ?_, by decide +kernel, disagrees⟩
  rw [← (only _).mp hashed]
  decide +kernel

/-- With extra nonce 1 and nonce 0, one number is hashed and another reported, for
another algorithm. -/
theorem progpow_result_misreported :
    ∃ after effects check m,
      processMethodSubmit (plainEnv .zero) (plainMiner (Node.plainJob "progpow" 24)) 0
        (zeroSubmit 1) = .ok (after, effects) ∧
      .ppCheck check ∈ effects ∧ .submit m ∈ effects ∧ m.nonce ≠ check.nonce ∧
      ¬ NamesAlgorithm m.pow .progpow := by
  obtain ⟨after, ran⟩ := plainMiner_submits (plainEnv .zero) (Node.plainJob "progpow" 24)
  obtain ⟨_, hashed, forwarded⟩ := plainMiner_progpow_forwards
  exact ⟨after, _, _, _, ran, hashed, forwarded, by decide +kernel, by decide +kernel⟩

end Agreement

section Blocks

theorem lt_workToDiff_iff (diff work : UInt64) :
    diff < workToDiff work ↔ (diff.toNat + 1) * max work.toNat 1 ≤ 2 ^ 64 - 1 := by
  rw [UInt64.lt_iff_toNat_lt, workToDiff_toNat,
    ← Nat.le_div_iff_mul_le (Nat.lt_of_lt_of_le Nat.one_pos (le_max_right _ _))]
  exact Nat.lt_iff_add_one_le

def ForwardsBlocks (c : Client) (callId : Int64) (hash : V32) (effects : List Effect) : Prop :=
  (∃ m, .submit m ∈ effects) ↔
    .send (.status callId) ∈ effects ∧ c.curJob.blockDiff < workToDiff hash.getWork64

theorem status_mem_checkShare (env : RequestEnv) (c : Client) (callId : Int64) (nonce : UInt32) :
    .send (.status callId) ∈ (checkShare env c callId nonce).2 ↔
      Accepted (shareResult env c nonce) := by
  rw [mem_checkShare_of_not_hashing _ _ _ _ _ (by simp [Hashing]), mem_forwarded]
  simp only [reduceCtorEq, and_false, false_or, Effect.send.injEq, shareReply, Accepted]
  split
  · rename_i error
    simp [error]
  · rename_i fine
    split
    · rename_i high
      simp [UInt32.not_le.mpr high]
    · rename_i low
      simpa [fine] using UInt32.not_lt.mp low

theorem thresholds_agree_iff (first second work bound : Nat) :
    ((first + 1) * work ≤ bound ↔ (second + 1) * work ≤ bound) ↔
      bound < (min first second + 1) * work ∨ (max first second + 1) * work ≤ bound := by
  rcases le_total first second with order | order
  · have grows : (first + 1) * work ≤ (second + 1) * work := by gcongr
    rw [min_eq_left order, max_eq_right order]
    omega
  · have grows : (second + 1) * work ≤ (first + 1) * work := by gcongr
    rw [min_eq_right order, max_eq_left order]
    omega

/-- The constant 4096 stands for the block difficulty exactly on the shares that both
of them reject or both of them pass. -/
theorem forwardsBlocks_iff (env : RequestEnv) (c : Client) (callId : Int64) (args : Value)
    (nonce : UInt32) (after : Client) (effects : List Effect)
    (ran : processMethodSubmit env c callId args = .ok (after, effects))
    (called : .checkClientWork nonce ∈ effects)
    (computed : (shareResult env c nonce).error = false) :
    let hash := (shareResult env c nonce).hash
    let work := max hash.getWork64.toNat 1
    ForwardsBlocks c callId hash effects ↔
      0xffffffff / fixDiff < hash.getWork32 ∨
        2 ^ 64 - 1 < (min 4096 c.curJob.blockDiff.toNat + 1) * work ∨
        (max 4096 c.curJob.blockDiff.toNat + 1) * work ≤ 2 ^ 64 - 1 := by
  intro hash work
  obtain ⟨_, checked⟩ := (processMethodSubmit_eq_ok _ _ _ _ _ _ _).mp ⟨ran, called⟩
  have effectsEq : (checkShare env c callId nonce).2 = effects := congrArg Prod.snd checked
  have sent : (∃ m, Effect.submit m ∈ effects) ↔
      Accepted (shareResult env c nonce) ∧ 4096 < workToDiff hash.getWork64 := by
    rw [← effectsEq]
    constructor
    · rintro ⟨m, member⟩
      obtain ⟨accepted, diff, _⟩ := (submit_mem_checkShare env c callId nonce m).mp member
      exact ⟨accepted, diff⟩
    · rintro ⟨accepted, diff⟩
      exact ⟨_, (submit_mem_checkShare env c callId nonce _).mpr ⟨accepted, diff, rfl⟩⟩
  have constant : (4096 : UInt64).toNat = 4096 := rfl
  rw [ForwardsBlocks, sent, ← effectsEq, status_mem_checkShare, lt_workToDiff_iff,
    lt_workToDiff_iff, constant, ← thresholds_agree_iff]
  by_cases high : 0xffffffff / fixDiff < hash.getWork32
  · have rejected : ¬ Accepted (shareResult env c nonce) :=
      fun accepted => absurd accepted.2 (UInt32.not_le.mpr high)
    simp [rejected, high]
  · have accepted : Accepted (shareResult env c nonce) := ⟨computed, UInt32.not_lt.mp high⟩
    simp [accepted, high, work]

theorem blocks_of_plainMiner :
    ForwardsBlocks (plainMiner (Node.plainJob "randomx" 24)) 0 .setAllZero
      (checkShare (plainEnv .zero) (plainMiner (Node.plainJob "randomx" 24)) 0 0).2 := by
  obtain ⟨after, ran⟩ := plainMiner_submits (plainEnv .zero) (Node.plainJob "randomx" 24)
  exact (forwardsBlocks_iff (plainEnv .zero) (plainMiner (Node.plainJob "randomx" 24)) 0
    (zeroSubmit 1) 0 after _ ran ((checkClientWork_mem_checkShare _ _ _ _ _).mpr rfl)
    (by decide +kernel)).mpr (by decide +kernel)

/-- A hash of difficulty 2^24 - 1. -/
def middlingHash : V32 := ⟨(Buffer.filled 32 0).write 2 [1]⟩

def middlingEnv : RequestEnv := { plainEnv .zero with rx := fun _ => ⟨middlingHash, false⟩ }

def hardJob : JobData := { Node.plainJob "randomx" 24 with blockDiff := 1000000000 }

/-- A share of that difficulty is forwarded, though it is no block for such a job. -/
theorem share_forwarded_as_block :
    ∃ after effects,
      processMethodSubmit middlingEnv (plainMiner hardJob) 0 (zeroSubmit 1) =
        .ok (after, effects) ∧
      (plainMiner hardJob).loggedIn = true ∧ .checkClientWork 0 ∈ effects ∧
      shareResult middlingEnv (plainMiner hardJob) 0 = ⟨middlingHash, false⟩ ∧
      ¬ ForwardsBlocks (plainMiner hardJob) 0 middlingHash effects := by
  obtain ⟨after, ran⟩ := plainMiner_submits middlingEnv hardJob
  refine ⟨after, _, ran, by decide +kernel, (checkClientWork_mem_checkShare _ _ _ _ _).mpr rfl,
    by decide +kernel, ?_⟩
  intro blocks
  have sent : ∃ m, Effect.submit m ∈ (checkShare middlingEnv (plainMiner hardJob) 0 0).2 :=
    ⟨_, (submit_mem_checkShare _ _ _ _ _).mpr ⟨by decide +kernel, by decide +kernel, rfl⟩⟩
  have block := (blocks.mp sent).2
  revert block
  decide +kernel

end Blocks

end Session

end EpicPoold
