import EpicPoold.JobDelivery

/-! No two miners search the same nonces: the counter value that each client is given at
its construction stands in every input that is hashed for it. -/

namespace EpicPoold

open Foundations

namespace Session

open Client

def SameInput (effects others : List Effect) : Prop :=
  (∃ a b, .rxCheck a ∈ effects ∧ .rxCheck b ∈ others ∧ a.data = b.data) ∨
    ∃ a b, .ppCheck a ∈ effects ∧ .ppCheck b ∈ others ∧ a.nonce = b.nonce

def SameForwarded (effects others : List Effect) : Prop :=
  ∃ a b, .submit a ∈ effects ∧ .submit b ∈ others ∧ a.nonce = b.nonce

section Inputs

variable {b c : Client} {m n : UInt32}

theorem fullNonce_injective (same : b.fullNonce m = c.fullNonce n) :
    b.extraNonce = c.extraNonce ∧ m = n := by
  have bytes : store32 b.extraNonce ++ store32 m = store32 c.extraNonce ++ store32 n := by
    rw [← fullNonce_bytesBE, ← fullNonce_bytesBE, same]
  obtain ⟨first, second⟩ := List.append_inj bytes (by simp)
  exact ⟨store32_injective first, store32_injective second⟩

theorem totalNonce_injective (same : b.totalNonce m = c.totalNonce n) :
    b.extraNonce = c.extraNonce ∧ m = n := by
  have bytes : bytesBE 4 b.extraNonce.toNat ++ bytesBE 4 m.toNat =
      bytesBE 4 c.extraNonce.toNat ++ bytesBE 4 n.toNat := by
    rw [← totalNonce_bytesBE, ← totalNonce_bytesBE, same]
  obtain ⟨first, second⟩ := List.append_inj bytes (by simp)
  exact ⟨store32_injective (List.reverse_injective first),
    store32_injective (List.reverse_injective second)⟩

/-- A miner's blob ends in its extra nonce and its nonce, whatever job it is from. -/
theorem blob_injective {job other : JobData} (first : Mining b.view job)
    (second : Mining c.view other) (randomx : b.curJob.type = .randomx)
    (likewise : c.curJob.type = .randomx)
    (fits : 8 ≤ job.prepowLen.toNat ∧ job.prepowLen.toNat ≤ prepowSize)
    (room : 8 ≤ other.prepowLen.toNat ∧ other.prepowLen.toNat ≤ prepowSize)
    (same : (minedJob b m).blob = (minedJob c n).blob) : b.extraNonce = c.extraNonce ∧ m = n := by
  rw [blob_minedJob first randomx fits.1 fits.2, blob_minedJob second likewise room.1 room.2]
    at same
  have ends := List.append_inj_right' same (by simp)
  obtain ⟨extra, nonce⟩ := List.append_inj ends (by simp)
  exact ⟨store32_injective extra, store32_injective nonce⟩

end Inputs

section Checks

variable {getEpochNumber : UInt64 → Int32} (env : RequestEnv) (c : Client) (callId : Int64)
  (nonce : UInt32)

theorem rxCheck_of_mem {check : RxCheckJob}
    (member : .rxCheck check ∈ (checkShare env c callId nonce).2) :
    c.curJob.type = .randomx ∧ check = rxCheckJob (minedJob c nonce) := by
  cases type : c.curJob.type with
  | randomx => exact ⟨rfl, (rxCheck_mem_checkShare env c callId nonce type check).mp member⟩
  | progpow | cuckoo =>
      rw [mem_checkShare, mem_forwarded] at member
      simp [checkClientWork, type, netSend, hashAccesses, hexAccess] at member

theorem ppCheck_of_mem {check : PpCheckJob}
    (member : .ppCheck check ∈ (checkShare env c callId nonce).2) : check = ppCheckJob c nonce := by
  cases type : c.curJob.type with
  | progpow => exact (ppCheck_mem_checkShare env c callId nonce type check).mp member
  | randomx | cuckoo =>
      rw [mem_checkShare, mem_forwarded] at member
      simp [checkClientWork, type, netSend, hashAccesses, hexAccess] at member

/-- What is hashed for a miner, and what is forwarded, tells its extra nonce and its
nonce. -/
theorem sameInput_injective {b c : Client} {env env' : RequestEnv} {callId callId' : Int64}
    {m n : UInt32} (first : b.Follows (Node.Published getEpochNumber))
    (second : c.Follows (Node.Published getEpochNumber)) (miner : b.loggedIn = true)
    (other : c.loggedIn = true)
    (same : SameInput (checkShare env b callId m).2 (checkShare env' c callId' n).2) :
    b.extraNonce = c.extraNonce ∧ m = n := by
  rcases same with ⟨mine, theirs, one, two, blobs⟩ | ⟨mine, theirs, one, two, nonces⟩
  · obtain ⟨randomx, rfl⟩ := rxCheck_of_mem env b callId m one
    obtain ⟨likewise, rfl⟩ := rxCheck_of_mem env' c callId' n two
    obtain ⟨_, inv⟩ := first
    obtain ⟨_, inv'⟩ := second
    obtain ⟨job, published, _, mining, _⟩ := inv.told miner
    obtain ⟨job', published', _, mining', _⟩ := inv'.told other
    exact blob_injective mining mining' randomx likewise (Node.published_prepowLen job published)
      (Node.published_prepowLen job' published') blobs
  · rw [ppCheck_of_mem env b callId m one, ppCheck_of_mem env' c callId' n two] at nonces
    exact totalNonce_injective nonces

theorem sameForwarded_injective {b c : Client} {env env' : RequestEnv}
    {callId callId' : Int64} {m n : UInt32}
    (same : SameForwarded (checkShare env b callId m).2 (checkShare env' c callId' n).2) :
    b.extraNonce = c.extraNonce ∧ m = n := by
  obtain ⟨mine, theirs, one, two, nonces⟩ := same
  obtain ⟨_, _, rfl⟩ := (submit_mem_checkShare env b callId m mine).mp one
  obtain ⟨_, _, rfl⟩ := (submit_mem_checkShare env' c callId' n theirs).mp two
  exact fullNonce_injective nonces

end Checks

end Session

namespace Client

variable {S : Setting}

/-- The client at some point of a call that the pool makes into it: requests are handled
one after the other. -/
inductive Within (S : Setting) (c : Client) : Client → Prop
  | refl : Within S c c
  | step {b : Client} {a : SessionAction} {t : Session} : Within S c b →
      Session.Supplied (Node.Published S.getEpochNumber) ⟨b, []⟩ a →
      Session.next S.maxCallsPerMin S.parse ⟨b, []⟩ a = some t → Within S c t.client

theorem Within.sameClient {b c : Client} (within : Within S c b) :
    b.extraNonce = c.extraNonce := by
  induction within with
  | refl => rfl
  | step _ _ stepped ih => exact (Session.next_extraNonce_fd stepped).1.trans ih

theorem next_of_trace {maxCallsPerMin : Nat} {parse : List UInt8 → Option Value} {b : Client}
    {a : SessionAction} {t : Session}
    (stepped : Session.next maxCallsPerMin parse ⟨b, []⟩ a = some t) (trace : List Effect) :
    Session.next maxCallsPerMin parse ⟨b, trace⟩ a = some ⟨t.client, trace ++ t.trace⟩ := by
  cases a with
  | line env buf =>
      simp only [Session.next] at stepped ⊢
      split at stepped
      · rename_i accepted c effects ran
        cases stepped
        rfl
      · cases stepped
  | newBlock env =>
      simp only [Session.next] at stepped ⊢
      split at stepped
      · rename_i c effects ran
        cases stepped
        rfl
      · cases stepped
  | recvBuf buffer =>
      cases stepped
      simp [Session.next]
  | overflow =>
      cases stepped
      simp [Session.next]

theorem Follows.of_view {holds : JobData → Prop} {b c : Client} (before : b.Follows holds)
    (same : c.view = b.view) : c.Follows holds := by
  obtain ⟨trace, inv⟩ := before
  have loggedIn : c.loggedIn = b.loggedIn := congrArg View.loggedIn same
  refine ⟨trace, ?_, ?_⟩
  · exact (Bool.eq_iff_iff.mp loggedIn).trans inv.login
  · intro miner
    have told := inv.told (loggedIn.symm.trans miner)
    rwa [← same] at told

theorem Within.follows {b c : Client} (within : Within S c b)
    (before : c.Follows (Node.Published S.getEpochNumber)) :
    b.Follows (Node.Published S.getEpochNumber) := by
  induction within with
  | refl => exact before
  | step _ supplied stepped ih =>
      obtain ⟨trace, inv⟩ := ih
      refine ⟨_, Session.next_inv Node.published_prepowLen _ _ _ inv ?_
        (next_of_trace stepped trace)⟩
      exact supplied

end Client

namespace Daemon

open Client ClientPool

variable {S : Setting} {d e : Daemon S} {act : DaemonAction S}

def Present (d : Daemon S) (x : ClientId) (c : Client) : Prop :=
  ∃ i placed, ((d.server x.port).pool x.pool).clients i = some placed ∧
    placed.serial = x.serial ∧ placed.cli = c

structure Numbered (d : Daemon S) : Prop where
  ctr : d.extraNonceCtr = UInt32.ofNat d.constructed.length
  known : ∀ x c, Present d x c →
    ∃ k, d.constructed[k]? = some x ∧ c.extraNonce = UInt32.ofNat k

theorem moved_constructed (moved : Moved d act e) :
    (e.constructed = d.constructed ∧ e.extraNonceCtr = d.extraNonceCtr) ∨
      ∃ x, e.constructed = d.constructed ++ [x] ∧ e.extraNonceCtr = d.extraNonceCtr + 1 := by
  cases moved with
  | pooled port id a times q present ran =>
      simp only [afterPool]
      split
      · exact .inr ⟨_, rfl, rfl⟩
      · exact .inl ⟨rfl, rfl⟩
  | stored | walked | handedOver | accepted | refused | listened => exact .inl ⟨rfl, rfl⟩

theorem moved_grows (moved : Moved d act e) : d.constructed <+: e.constructed := by
  rcases moved_constructed moved with ⟨same, _⟩ | ⟨x, more, _⟩
  · rw [same]
  · rw [more]
    exact List.prefix_append _ _

theorem getElem?_of_grows {before after : List ClientId} (grows : before <+: after) {k : Nat}
    {x : ClientId} (found : before[k]? = some x) : after[k]? = some x := by
  obtain ⟨rest, rfl⟩ := grows
  rw [List.getElem?_append_left (List.getElem?_eq_some_iff.mp found).1]
  exact found

theorem moved_present (moved : Moved d act e) {x : ClientId} {c : Client}
    (present : Present e x c) :
    (∃ b, Present d x b ∧ c.extraNonce = b.extraNonce) ∨
      e.constructed = d.constructed ++ [x] ∧ c.extraNonce = d.extraNonceCtr := by
  obtain ⟨i, placed, there, serial, rfl⟩ := present
  by_cases own : ∃ a times, act = .pool x.port x.pool a times
  · obtain ⟨a, times, rfl⟩ := own
    cases moved with
    | pooled _ _ _ _ q created ran =>
        rw [afterPool_server, setServer_same, Server.setPool_same] at there
        cases step_comes ran there with
        | stays b earlier same alike =>
            exact .inl ⟨b.cli, ⟨i, b, earlier, same.symm.trans serial, rfl⟩, alike.1⟩
        | made env m todo action here adds free number cli constructs =>
            right
            constructor
            · simp only [afterPool, constructs, if_true]
              rw [← number, serial]
            · rw [cli]
              cases a with
              | make given registers =>
                  cases action
                  rfl
              | interrupted | collected batch | read given | block given | go => cases action
  · left
    obtain ⟨_, outside⟩ := moved_outside moved x.port x.pool
      (fun a times same => own ⟨a, times, same⟩)
    rw [outside.clients] at there
    exact ⟨placed.cli, ⟨i, placed, there, serial, rfl⟩, rfl⟩

theorem moved_numbered (before : Numbered d) (moved : Moved d act e) : Numbered e where
  ctr := by
    rcases moved_constructed moved with ⟨same, ctr⟩ | ⟨x, more, ctr⟩
    · rw [ctr, same, before.ctr]
    · rw [ctr, more, before.ctr, List.length_append, List.length_singleton, UInt32.ofNat_add]
      rfl
  known x c present := by
    rcases moved_present moved present with ⟨b, earlier, same⟩ | ⟨more, last⟩
    · obtain ⟨k, found, number⟩ := before.known x b earlier
      exact ⟨k, getElem?_of_grows (moved_grows moved) found, same.trans number⟩
    · refine ⟨d.constructed.length, ?_, last.trans before.ctr⟩
      rw [more]
      simp

theorem reachable_numbered (reached : (system S).Reachable d) : Numbered d := by
  refine reached.invariant Numbered ?_ ?_
  · intro d started
    obtain ⟨first, rfl⟩ := started
    refine ⟨rfl, ?_⟩
    rintro x c ⟨i, placed, there, _⟩
    cases there
  · intro d act e _ before stepped
    exact moved_numbered before (next_moved stepped)

theorem present_follows (reached : (system S).Reachable d) {x : ClientId} {c : Client}
    (present : Present d x c) : c.Follows (Node.Published S.getEpochNumber) := by
  obtain ⟨i, placed, there, _, rfl⟩ := present
  rcases finished : ((d.server x.port).pool x.pool).thdFinished with _ | _
  · exact ((reachable_served reached x.port x.pool).delivered finished).follows i placed there
  · have empty :=
      Server.finished_empty (n := x.port.poolSize) (reachable_server reached x.port) finished i
    rw [empty] at there
    cases there

/-- During a call into the client of this number, while it is logged in, it submits the
nonce, and these are the effects. -/
inductive Submits (d : Daemon S) (x : ClientId) (nonce : UInt32) (effects : List Effect) : Prop
  | line (c b : Client) (env : RequestEnv) (buf : List UInt8) (after : Client)
      (present : Present d x c) (within : Within S c b) (miner : b.loggedIn = true)
      (ran : processLine S.maxCallsPerMin S.parse env b buf = .ok (true, after, effects))
      (called : .checkClientWork nonce ∈ effects)

/-- Only a share has check_client_work called. -/
theorem share_of_called {env : RequestEnv} {b : Client} {out : Client × List Effect}
    (handled : Handled env b out) {nonce : UInt32} (called : .checkClientWork nonce ∈ out.2) :
    ∃ counted callId, counted.view = b.view ∧ out.2 = (checkShare env counted callId nonce).2 := by
  cases handled with
  | answered counted reply same plain => simp [netSend] at called
  | login counted callId same fresh =>
      have stranger : counted.loggedIn = false := (congrArg View.loggedIn same).trans fresh
      rw [(giveFirstJob_given env counted callId).2] at called
      simp [giveEffects, netSend, hexAccess] at called
  | share counted callId args other same wellFormed =>
      rw [Session.checkClientWork_mem_checkShare] at called
      rw [called]
      exact ⟨counted, callId, same, rfl⟩

/-- A submit of a client is a share of a miner that follows the node and has the number
of the client's construction. -/
theorem Submits.share (reached : (system S).Reachable d) {x : ClientId} {nonce : UInt32}
    {effects : List Effect} (submits : Submits d x nonce effects) :
    ∃ env c callId k, c.Follows (Node.Published S.getEpochNumber) ∧ c.loggedIn = true ∧
      effects = (checkShare env c callId nonce).2 ∧ d.constructed[k]? = some x ∧
      c.extraNonce = UInt32.ofNat k := by
  obtain ⟨c, b, env, buf, after, present, within, miner, ran, called⟩ := submits
  obtain ⟨k, found, number⟩ := (reachable_numbered reached).known x c present
  have follows := within.follows (present_follows reached present)
  rcases processLine_handled buf true after effects ran with ⟨impossible, _⟩ | ⟨_, handled⟩
  · cases impossible
  · obtain ⟨counted, callId, same, done⟩ := share_of_called handled called
    refine ⟨env, counted, callId, k, follows.of_view same, ?_, done, found, ?_⟩
    · exact (congrArg View.loggedIn same).trans miner
    · exact (congrArg View.extraNonce same).trans (within.sameClient.trans number)

theorem leads_grows (leads : (system S).Leads d e) : d.constructed <+: e.constructed := by
  refine leads.relates (fun d e => d.constructed <+: e.constructed) ?_ ?_ ?_
  · exact fun d => List.prefix_refl d.constructed
  · exact fun _ _ _ first second => first.trans second
  · exact fun d act e stepped => moved_grows (next_moved stepped)

theorem ofNat_injective {k l : Nat} (small : k < 2 ^ 32) (fits : l < 2 ^ 32)
    (same : UInt32.ofNat k = UInt32.ofNat l) : k = l := by
  have numbers := congrArg UInt32.toNat same
  rwa [UInt32.toNat_ofNat_of_lt' small, UInt32.toNat_ofNat_of_lt' fits] at numbers

/-- In every run with fewer than 2^32 clients, what is hashed or forwarded for two of them
differs, whenever and whatever they submit, and one client has the same input hashed for
the same nonce only. -/
theorem search_spaces_disjoint (reached : (system S).Reachable d) (leads : (system S).Leads d e)
    (few : e.constructed.length < 2 ^ 32) {x y : ClientId} {m n : UInt32}
    {effects others : List Effect} (first : Submits d x m effects)
    (second : Submits e y n others) :
    (x ≠ y → ¬ Session.SameInput effects others ∧ ¬ Session.SameForwarded effects others) ∧
      (Session.SameInput effects others → m = n) := by
  obtain ⟨env, b, callId, k, follows, miner, rfl, early, number⟩ := first.share reached
  obtain ⟨env', c, callId', l, follows', other, rfl, found, number'⟩ :=
    second.share (reached.leads leads)
  have late := getElem?_of_grows (leads_grows leads) early
  have sameClient : b.extraNonce = c.extraNonce → x = y := by
    intro same
    rw [number, number'] at same
    have small := (List.getElem?_eq_some_iff.mp late).1
    have fits := (List.getElem?_eq_some_iff.mp found).1
    rw [ofNat_injective (small.trans few) (fits.trans few) same, found] at late
    cases late
    rfl
  refine ⟨fun apart => ⟨fun same => apart ?_, fun same => apart ?_⟩, fun same => ?_⟩
  · exact sameClient (Session.sameInput_injective follows follows' miner other same).1
  · exact sameClient (Session.sameForwarded_injective same).1
  · exact (Session.sameInput_injective follows follows' miner other same).2

section Runs

def minerSetting : Setting := ⟨60, parseJson, fun _ => 0⟩

theorem minerJob_published :
    Node.Published minerSetting.getEpochNumber (Node.plainJob "randomx" 24) :=
  Node.plainJob_published "randomx" 24 (by decide +kernel)

def minerJob : PublishedJob minerSetting := ⟨Node.plainJob "randomx" 24, minerJob_published⟩

/-- The submit line of the client in this slot of the first pool has a share checked. -/
def submitsZero (d : Daemon minerSetting) (i : Fin clientPoolSize.size) (serial : Nat) : Bool :=
  (((d.server .plain).pool 0).clients i).any (fun placed =>
    placed.serial == serial && Client.loggedIn placed.cli &&
      match processLine 60 minerSetting.parse (Session.plainEnv .zero) placed.cli
          (Client.submitLine 2 1 0 .setAllZero) with
      | .ok (true, _, effects) =>
          effects.any (fun e => match e with
            | .checkClientWork nonce => nonce == 0
            | _ => false)
      | _ => false)

theorem submits_of_submitsZero {d : Daemon minerSetting} {i : Fin clientPoolSize.size}
    {serial : Nat} (checked : submitsZero d i serial = true) :
    ∃ effects, Submits d ⟨.plain, 0, serial⟩ 0 effects := by
  simp only [submitsZero, Option.any_eq_true, Bool.and_eq_true, beq_iff_eq] at checked
  obtain ⟨placed, there, ⟨serial, miner⟩, ran⟩ := checked
  split at ran
  · rename_i after effects done
    obtain ⟨e, member, calls⟩ := List.any_eq_true.mp ran
    split at calls
    · rename_i nonce
      rw [beq_iff_eq.mp calls] at member
      exact ⟨effects, .line placed.cli placed.cli _ _ after ⟨i, placed, there, serial, rfl⟩ .refl
        miner done member⟩
    · cases calls
  · cases ran

/-- Two miners of one pool submit the same nonce. -/
theorem two_miners_apart :
    ∃ (d : Daemon minerSetting) (effects others : List Effect),
      Submits d ⟨.plain, 0, 0⟩ 0 effects ∧ Submits d ⟨.plain, 0, 1⟩ 0 others ∧
        ¬ Session.SameInput effects others ∧ ¬ Session.SameForwarded effects others := by
  obtain ⟨d, reached, found⟩ := System.exists_reachable (S := system minerSetting)
    (s := start minerJob) ⟨_, rfl⟩
    (connectOne 7 true ++ connectOne 8 true ++ loginOne ⟨0, by decide⟩ ++ loginOne ⟨1, by decide⟩)
    (fun d => submitsZero d ⟨0, by decide⟩ 0 && submitsZero d ⟨1, by decide⟩ 1 &&
      d.constructed.length == 2) (by decide +kernel)
  simp only [Bool.and_eq_true, beq_iff_eq] at found
  obtain ⟨⟨one, two⟩, count⟩ := found
  obtain ⟨effects, first⟩ := submits_of_submitsZero one
  obtain ⟨others, second⟩ := submits_of_submitsZero two
  have few : d.constructed.length < 2 ^ 32 := by
    rw [count]
    decide
  exact ⟨d, effects, others, first, second,
    (search_spaces_disjoint reached .refl few first second).1 (by decide)⟩

end Runs

end Daemon

end EpicPoold
