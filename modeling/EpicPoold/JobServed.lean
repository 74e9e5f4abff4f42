import EpicPoold.NodePools

/-! The shares of the job that get_current_job returns, between the messages of the node and
the threads of both pools: none is refused until the node has gone on. -/

namespace EpicPoold

open Foundations Hashpool DatasetCalls

namespace Node

variable {env : MessageEnv} {doc : Value}

theorem messageAsks_of_not_createsJob (dropped : createsJob env doc = false) :
    messageAsks env doc = .nothing := by
  cases kind : messageKind doc with
  | error e => simp only [messageAsks, kind]
  | ok message =>
      cases message with
      | quiet | login => simp only [messageAsks, kind]
      | job res =>
          cases found : jobHeader env res with
          | error e => simp only [messageAsks, kind, found]
          | ok header =>
              cases header with
              | none => simp only [messageAsks, kind, found]
              | some header => simp [createsJob, kind, found] at dropped

theorem epochsTaken_of_mapM {height : UInt32} {epochs : List Value} :
    ∀ {uses : List EpochUse}, epochs.mapM (readEpoch height) = .ok uses →
      epochsTaken height epochs = uses := by
  induction epochs with
  | nil =>
      intro uses read
      cases read
      rfl
  | cons epoch rest ih =>
      intro uses read
      simp only [List.mapM_cons, bind_eq_ok] at read
      obtain ⟨use, first, others, taken, same⟩ := read
      obtain rfl := (pure_eq_ok _ _).mp same
      simp only [epochsTaken, first, ih taken]

theorem messageAsks_of_messageJob {b : JobBody} (valid : messageJob env doc = .ok (some b)) :
    messageAsks env doc = ⟨b.uses.map EpochUse.seed, some b.header.height⟩ := by
  obtain ⟨res, said⟩ := said_of_messageJob valid
  have read := said.epochs
  simp only [jobEpochs, bind_eq_ok, rejectIf_eq_ok] at read
  obtain ⟨member, listed, epochs, array, _, sized, uses, taken, _, _, same⟩ := read
  have same : uses = b.uses := (pure_eq_ok _ _).mp same
  have both : getObjectMemberT res "epochs" >>= getArray = .ok epochs :=
    (bind_eq_ok _ _ _).mpr ⟨member, listed, array⟩
  simp only [messageAsks, said.kind, said.header, jobAsks, both, said.epochs]
  rw [if_neg (by simpa using sized), epochsTaken_of_mapM taken, same]

theorem rxSeed_mem {b : JobBody} (valid : messageJob env doc = .ok (some b)) :
    b.job.rxSeed ∈ b.uses.map EpochUse.seed := by
  have last := (setFrom_of_messageJob valid).rxSeed
  obtain ⟨use, among, current⟩ := List.mem_filterMap.mp (List.mem_of_getLast? last)
  cases use with
  | following seed => cases current
  | current seed =>
      cases current
      exact List.mem_map_of_mem among

end Node

namespace NodePools

variable {getEpochNumber : UInt64 → Int32} {heights : UInt64 → Prop} {T : Type} {seeds : List V32}

def RxNamed (accepted : List AcceptedJob) (calls : List (RxHashpool.Listing seeds)) : Prop :=
  ∀ a, accepted.head? = some a → ∃ l, calls.getLast? = some l ∧ a.job.rxSeed ∈ l.requests

def PpNamed (accepted : List AcceptedJob) (calls : List (PpHashpool.Notified OfMessages)) : Prop :=
  ∀ a, accepted.head? = some a → calls.getLast? = some (PpHashpool.ofHeight a.job.height)

/-- The message of json_proc_msg. -/
def Handles {C : Type} (s : NodePools getEpochNumber T C) (env : MessageEnv) (doc : Value) : Prop :=
  s.message = .epochs env doc ∨ s.message = .blocks env doc

theorem not_handles {C : Type} {s : NodePools getEpochNumber T C} (here : s.message = .between)
    {env : MessageEnv} {doc : Value} : ¬ s.Handles env doc := by
  rw [Handles, here]
  simp

structure Newest (s : NodePools getEpochNumber T (RxHashpool.Listing seeds)) : Prop where
  valid : ∀ env doc, s.Handles env doc → Node.createsJob env doc = true →
    ∃ b, Node.messageJob env doc = .ok (some b)
  rx : s.message = .between → RxNamed s.run.accepted s.rx.calls
  rxAsked : ∀ env doc, s.Handles env doc →
    ((Node.messageAsks env doc).seeds = [] ∧ RxNamed s.run.accepted s.rx.calls) ∨
      ∃ l, s.rx.calls.getLast? = some l ∧ l.requests = (Node.messageAsks env doc).seeds
  pp : (∀ env doc, s.message ≠ .blocks env doc) → PpNamed s.run.accepted s.pp.calls
  ppAsked : ∀ env doc, s.message = .blocks env doc →
    ((Node.messageAsks env doc).height = none ∧ PpNamed s.run.accepted s.pp.calls) ∨
      ∃ height, (Node.messageAsks env doc).height = some height ∧
        s.pp.calls.getLast? = some (PpHashpool.ofHeight height)

/-- The node's job messages are valid, their heights and the next ones are among those in use,
and neither their seeds nor their heights go back. -/
def Onward (heights : UInt64 → Prop) (s : NodePools getEpochNumber T (RxHashpool.Listing seeds)) :
    NodePoolsAction getEpochNumber T (RxHashpool.Listing seeds) → Prop
  | .begin env doc asked =>
      (Node.createsJob env doc = true → ∃ b, Node.messageJob env doc = .ok (some b)) ∧
        ∀ l, asked = some l → ∀ last, s.rx.calls.getLast? = some last → last.position ≤ l.position
  | .notifyBlock => ∀ env doc height, s.message = .epochs env doc →
      (Node.messageAsks env doc).height = some height →
      (heights height.toUInt64 ∧ heights (height.toUInt64 + 1)) ∧
        ∀ last, s.pp.calls.getLast? = some last → last.1.toNat ≤ height.toNat
  | _ => True

/-- Besides, they have not left the seed and the epoch of the job. -/
def OnwardWith (heights : UInt64 → Prop) (job : JobData)
    (s : NodePools getEpochNumber T (RxHashpool.Listing seeds))
    (a : NodePoolsAction getEpochNumber T (RxHashpool.Listing seeds)) : Prop :=
  Onward heights s a ∧
    match a with
    | .begin _ _ asked =>
        ∀ l, asked = some l → ∀ n, seeds.get n = job.rxSeed → l.position ≤ n.val
    | .notifyBlock => ∀ env doc height, s.message = .epochs env doc →
        (Node.messageAsks env doc).height = some height →
        getEpochNumber height.toUInt64 ≤ getEpochNumber job.height.toUInt64
    | _ => True

section Calls

theorem forward_of_ofPool {K : PoolKind} {C : Type} (position : C → Nat) (s : DatasetCalls K T C)
    (a : CallAction K T C) (own : ofPool a = true) : Forward position s a := by
  cases a with
  | call c => cases own
  | request | share => trivial

theorem forwardIn_of_ofPool {K : PoolKind} {C : Type} (position : C → Nat) (inside : C → Prop)
    (s : DatasetCalls K T C) (a : CallAction K T C) (own : ofPool a = true) :
    ForwardIn position inside s a := by
  cases a with
  | call c => cases own
  | request | share => trivial

variable [DecidableEq T] {K : PoolKind} {C : Type} {requests : C → List K.Request}
  {calls after : DatasetCalls K T C}

theorem callWith_none (called : callWith requests calls none = some after) : after = calls := by
  cases called
  rfl

theorem callWith_some {c : C} (called : callWith requests calls (some c) = some after) :
    DatasetCalls.next requests calls (.call c) = some after ∧ after.calls.getLast? = some c := by
  have stepped : DatasetCalls.next requests calls (.call c) = some after := called
  refine ⟨stepped, ?_⟩
  cases DatasetCalls.next_moved stepped with
  | called _ done idle => exact List.getLast?_concat

end Calls

section Steps

variable [DecidableEq T] {s t : NodePools getEpochNumber T (RxHashpool.Listing seeds)}

theorem betweenMessages_accepted {r run : NodeRun} {a : NodeAction}
    (between : betweenMessages a = true) (ran : NodeRun.next getEpochNumber r a = some run) :
    run.accepted = r.accepted := by
  rcases NodeRun.next_published ran with same | ⟨env, doc, _, _, rfl, _⟩
  · exact same
  · cases between

theorem message_accepted {r run : NodeRun} {env : MessageEnv} {doc : Value}
    (fresh : r.node.Fresh) (ran : NodeRun.next getEpochNumber r (.message env doc) = some run)
    (valid : Node.createsJob env doc = true → ∃ b, Node.messageJob env doc = .ok (some b)) :
    (run.accepted = r.accepted ∧ Node.messageAsks env doc = .nothing) ∨
      ∃ a, run.accepted = a :: r.accepted ∧
        (Node.messageAsks env doc).height = some a.job.height ∧
        a.job.rxSeed ∈ (Node.messageAsks env doc).seeds := by
  simp only [NodeRun.next] at ran
  split at ran
  · cases NodeRun.messageStep_stepped fresh ran with
    | quiet receiving effects none =>
        exact .inl ⟨rfl, Node.messageAsks_of_not_createsJob none⟩
    | rejected e fill rx pp effects created invalid =>
        obtain ⟨b, read⟩ := valid created
        rw [read] at invalid
        cases invalid
    | published b effects read =>
        right
        refine ⟨_, rfl, ?_, ?_⟩
        · rw [Node.messageAsks_of_messageJob read, (Node.setFrom_of_messageJob read).height]
        · rw [Node.messageAsks_of_messageJob read]
          exact Node.rxSeed_mem read
  · cases ran

theorem requests_ne_nil (l : RxHashpool.Listing seeds) : l.requests ≠ [] := by
  rw [RxHashpool.Listing.requests]
  split
  · exact List.cons_ne_nil _ _
  · exact List.cons_ne_nil _ _

theorem next_newest {a : NodePoolsAction getEpochNumber T (RxHashpool.Listing seeds)}
    (sound : Sound RxHashpool.Listing.requests s) (before : Newest s) (onward : Onward heights s a)
    (stepped : next RxHashpool.Listing.requests s a = some t) : Newest t := by
  have fresh := (NodeRun.reachable_publishedAlive sound.run).1.fresh
  cases next_moved stepped with
  | node a run here between ran =>
      have same := betweenMessages_accepted between ran
      refine ⟨before.valid, ?_, ?_, ?_, ?_⟩
      · rw [same]
        exact before.rx
      · rw [same]
        exact before.rxAsked
      · rw [same]
        exact before.pp
      · rw [same]
        exact before.ppAsked
  | begun env doc c rx here lists called =>
      refine ⟨?_, (fun impossible => by cases impossible), ?_, ?_, ?_⟩
      · rintro _ _ (same | same)
        · cases same
          exact onward.1
        · cases same
      · rintro _ _ (same | same)
        · cases same
          cases c with
          | none =>
              rw [callWith_none called]
              exact .inl ⟨lists.symm, before.rx here⟩
          | some l => exact .inr ⟨l, (callWith_some called).2, lists⟩
        · cases same
      · intro _
        exact before.pp (by simp [here])
      · intro _ _ impossible
        cases impossible
  | notified env doc pp here free called =>
      refine ⟨?_, (fun impossible => by cases impossible), ?_, ?_, ?_⟩
      · rintro _ _ (same | same)
        · cases same
        · cases same
          exact before.valid env doc (.inl here)
      · rintro _ _ (same | same)
        · cases same
        · cases same
          exact before.rxAsked env doc (.inl here)
      · intro other
        exact absurd rfl (other env doc)
      · intro _ _ same
        cases same
        cases asked : (Node.messageAsks env doc).height with
        | none =>
            rw [asked] at called
            rw [callWith_none called]
            exact .inl ⟨rfl, before.pp (by simp [here])⟩
        | some height =>
            rw [asked] at called
            exact .inr ⟨height, rfl, (callWith_some called).2⟩
  | finished env doc run here free ran =>
      have handles : s.Handles env doc := .inr here
      have rx := before.rxAsked env doc handles
      have pp := before.ppAsked env doc here
      refine ⟨fun _ _ handled => absurd handled (not_handles rfl), ?_,
        fun _ _ handled => absurd handled (not_handles rfl), ?_,
        (fun _ _ impossible => by cases impossible)⟩
      · intro _
        rcases message_accepted fresh ran (before.valid env doc handles) with
          ⟨same, nothing⟩ | ⟨a, grown, _, seed⟩
        · rw [nothing] at rx
          rw [same]
          rcases rx with ⟨_, named⟩ | ⟨l, _, empty⟩
          · exact named
          · exact absurd empty (requests_ne_nil l)
        · intro newest first
          rw [grown] at first
          cases first
          rcases rx with ⟨empty, _⟩ | ⟨l, last, requests⟩
          · rw [empty] at seed
            cases seed
          · exact ⟨l, last, by rwa [requests]⟩
      · intro _
        rcases message_accepted fresh ran (before.valid env doc handles) with
          ⟨same, nothing⟩ | ⟨a, grown, height, _⟩
        · rw [nothing] at pp
          rw [same]
          rcases pp with ⟨_, named⟩ | ⟨height, impossible, _⟩
          · exact named
          · cases impossible
        · intro newest first
          rw [grown] at first
          cases first
          rcases pp with ⟨none, _⟩ | ⟨asked, same, last⟩
          · rw [none] at height
            cases height
          · rw [height] at same
            cases same
            exact last
  | rx a rx own ran =>
      have same := next_calls own ran
      refine ⟨before.valid, ?_, ?_, before.pp, before.ppAsked⟩
      · rw [same]
        exact before.rx
      · rw [same]
        exact before.rxAsked
  | pp a pp own ran =>
      have same := next_calls own ran
      refine ⟨before.valid, before.rx, before.rxAsked, ?_, ?_⟩
      · rw [same]
        exact before.pp
      · rw [same]
        exact before.ppAsked

theorem start_newest (start : (system RxHashpool.Listing.requests).start s) : Newest s := by
  obtain ⟨run, here, _⟩ := start
  have first : s.run = ⟨Node.plainNode, false, []⟩ := run
  refine ⟨fun _ _ handled => absurd handled (not_handles here), ?_,
    fun _ _ handled => absurd handled (not_handles here), ?_, ?_⟩
  · intro _ a impossible
    rw [first] at impossible
    cases impossible
  · intro _ a impossible
    rw [first] at impossible
    cases impossible
  · intro env doc impossible
    rw [here] at impossible
    cases impossible

theorem reachable_newest
    (reached : (system RxHashpool.Listing.requests).ReachableUnder (Onward heights) s) :
    Newest s :=
  reached.invariant Newest (fun _ => start_newest)
    (fun _ _ _ earlier before fine stepped =>
      next_newest (reachable_sound earlier) before fine stepped)

/-- What a step is for the RandomX pool: none of its own, or one that is allowed if the calls
of the message are. -/
theorem rx_passed {a : NodePoolsAction getEpochNumber T (RxHashpool.Listing seeds)}
    {allowed : CallAction RxHashpool.kind T (RxHashpool.Listing seeds) → Prop}
    (others : ∀ b, ofPool b = true → allowed b)
    (calls : ∀ env doc l, a = .begin env doc (some l) → allowed (.call l))
    (stepped : next RxHashpool.Listing.requests s a = some t) :
    t.rx = s.rx ∨ ∃ b, allowed b ∧
      DatasetCalls.next RxHashpool.Listing.requests s.rx b = some t.rx := by
  cases next_moved stepped with
  | node | notified | finished | pp => exact .inl rfl
  | begun env doc c rx here lists called =>
      cases c with
      | none => exact .inl (callWith_none called)
      | some l => exact .inr ⟨.call l, calls env doc l rfl, (callWith_some called).1⟩
  | rx b rx own ran => exact .inr ⟨b, others b own, ran⟩

theorem pp_passed {a : NodePoolsAction getEpochNumber T (RxHashpool.Listing seeds)}
    {allowed : CallAction (PpHashpool.kind getEpochNumber OfMessages) T
      (PpHashpool.Notified OfMessages) → Prop}
    (others : ∀ b, ofPool b = true → allowed b)
    (calls : ∀ env doc height, a = .notifyBlock → s.message = .epochs env doc →
      (Node.messageAsks env doc).height = some height →
      allowed (.call (PpHashpool.ofHeight height)))
    (stepped : next RxHashpool.Listing.requests s a = some t) :
    t.pp = s.pp ∨ ∃ b, allowed b ∧
      DatasetCalls.next PpHashpool.notified s.pp b = some t.pp := by
  cases next_moved stepped with
  | node | begun | finished | rx => exact .inl rfl
  | notified env doc pp here free called =>
      cases asked : (Node.messageAsks env doc).height with
      | none =>
          rw [asked] at called
          exact .inl (callWith_none called)
      | some height =>
          rw [asked] at called
          exact .inr ⟨_, calls env doc height rfl here asked, (callWith_some called).1⟩
  | pp b pp own ran => exact .inr ⟨b, others b own, ran⟩

theorem rx_forward {a : NodePoolsAction getEpochNumber T (RxHashpool.Listing seeds)}
    (onward : Onward heights s a) (stepped : next RxHashpool.Listing.requests s a = some t) :
    t.rx = s.rx ∨ ∃ b, Forward RxHashpool.Listing.position s.rx b ∧
      DatasetCalls.next RxHashpool.Listing.requests s.rx b = some t.rx := by
  refine rx_passed (forward_of_ofPool _ _) ?_ stepped
  rintro env doc l rfl
  exact onward.2 l rfl

theorem pp_forward {grows : DatasetSlots.EpochsGrow getEpochNumber heights}
    {a : NodePoolsAction getEpochNumber T (RxHashpool.Listing seeds)}
    (onward : Onward heights s a) (stepped : next RxHashpool.Listing.requests s a = some t) :
    t.pp = s.pp ∨ ∃ b, ForwardIn (fun height => height.1.toNat)
        (· ∈ (PpHashpool.chain OfMessages grows).inUse) s.pp b ∧
      DatasetCalls.next PpHashpool.notified s.pp b = some t.pp := by
  refine pp_passed (forwardIn_of_ofPool _ _ _) ?_ stepped
  rintro env doc height rfl here asked
  obtain ⟨inUse, notBack⟩ := onward env doc height here asked
  exact ⟨notBack, inUse⟩

theorem rx_forwardIn {a : NodePoolsAction getEpochNumber T (RxHashpool.Listing seeds)}
    {job : JobData} {n : Fin seeds.length} (seed : seeds.get n = job.rxSeed)
    (onward : OnwardWith heights job s a)
    (stepped : next RxHashpool.Listing.requests s a = some t) :
    t.rx = s.rx ∨ ∃ b, ForwardIn RxHashpool.Listing.position (fun l => l.position ≤ n.val) s.rx b ∧
      DatasetCalls.next RxHashpool.Listing.requests s.rx b = some t.rx := by
  refine rx_passed (forwardIn_of_ofPool _ _ _) ?_ stepped
  rintro env doc l rfl
  exact ⟨onward.1.2 l rfl, onward.2 l rfl n seed⟩

theorem pp_forwardIn {grows : DatasetSlots.EpochsGrow getEpochNumber heights}
    {a : NodePoolsAction getEpochNumber T (RxHashpool.Listing seeds)}
    {job : JobData} (onward : OnwardWith heights job s a)
    (stepped : next RxHashpool.Listing.requests s a = some t) :
    t.pp = s.pp ∨ ∃ b, ForwardIn (fun height => height.1.toNat)
        (fun height => height ∈ (PpHashpool.chain OfMessages grows).inUse ∧
          getEpochNumber height.1.toUInt64 ≤ getEpochNumber job.height.toUInt64)
        s.pp b ∧
      DatasetCalls.next PpHashpool.notified s.pp b = some t.pp := by
  refine pp_passed (forwardIn_of_ofPool _ _ _) ?_ stepped
  rintro env doc height rfl here asked
  obtain ⟨inUse, notBack⟩ := onward.1 env doc height here asked
  exact ⟨notBack, inUse, onward.2 env doc height here asked⟩

end Steps

section Served

variable [DecidableEq T] {s : NodePools getEpochNumber T (RxHashpool.Listing seeds)} {job : JobData}

/-- From here on, no check of a share of this job ends in an error until the messages have
left its epochs. -/
structure Served (heights : UInt64 → Prop)
    (s : NodePools getEpochNumber T (RxHashpool.Listing seeds)) (job : JobData) : Prop where
  rx : ∀ u v t, (system RxHashpool.Listing.requests).LeadsUnder (OnwardWith heights job) s u →
    u.rx.checks.caller t = .outside →
    (system RxHashpool.Listing.requests).LeadsUnder (OnwardWith heights job) u v →
    ∃ later, v.rx.checks.returned = u.rx.checks.returned ++ later ∧
      ∀ share report, (t, share, report) ∈ later →
        RxHashpool.kind.jobId share = job.rxSeed.getId → report.error = false
  pp : ∀ u v t, (system RxHashpool.Listing.requests).LeadsUnder (OnwardWith heights job) s u →
    u.pp.checks.caller t = .outside →
    (system RxHashpool.Listing.requests).LeadsUnder (OnwardWith heights job) u v →
    ∃ later, v.pp.checks.returned = u.pp.checks.returned ++ later ∧
      ∀ share report, (t, share, report) ∈ later →
        (PpHashpool.kind getEpochNumber OfMessages).jobId share =
          DatasetSlots.blockId getEpochNumber job.height.toUInt64 → report.error = false

theorem exists_listed {l : RxHashpool.Listing seeds} {seed : V32} (listed : seed ∈ l.requests) :
    ∃ n : Fin seeds.length, seeds.get n = seed ∧
      (n.val = l.position ∨ (l.withNext = true ∧ n.val = l.position + 1)) := by
  rw [RxHashpool.Listing.requests] at listed
  split at listed
  · rename_i withNext
    rcases List.mem_pair.mp listed with rfl | rfl
    · exact ⟨_, rfl, .inl rfl⟩
    · exact ⟨_, rfl, .inr ⟨withNext, rfl⟩⟩
  · rw [List.mem_singleton.mp listed]
    exact ⟨_, rfl, .inl rfl⟩

theorem served_rx (apart : (seeds.map V32.getId).Nodup)
    (reached : (system RxHashpool.Listing.requests).ReachableUnder (Onward heights) s)
    (rest : DatasetCalls.AtRest s.rx) {l : RxHashpool.Listing seeds}
    (made : s.rx.calls.getLast? = some l) {n : Fin seeds.length}
    (inUse : n.val = l.position ∨ (l.withNext = true ∧ n.val = l.position + 1)) :
    Serves RxHashpool.Listing.requests
      (ForwardIn RxHashpool.Listing.position (fun l => l.position ≤ n.val)) s.rx
      (seeds.get n).getId := by
  have forward : (DatasetCalls.system RxHashpool.Listing.requests).ReachableUnder
      (Forward RxHashpool.Listing.position) s.rx :=
    reached.project NodePools.rx (fun _ (start : (system _).start _) => start.2.2.1)
      (fun _ _ _ onward stepped => rx_forward onward stepped)
  exact (RxHashpool.chain apart).serves_forward_all RxHashpool.settling RxHashpool.sparing
    (fun _ => Set.mem_univ _) (fun last _ l _ => RxHashpool.later_of_le apart last l)
    (fun _ => RxHashpool.chain_notLeft apart) forward rest made
    (RxHashpool.chain_inUse apart inUse)

theorem served_pp (grows : DatasetSlots.EpochsGrow getEpochNumber heights)
    (reached : (system RxHashpool.Listing.requests).ReachableUnder (Onward heights) s)
    (rest : DatasetCalls.AtRest s.pp) {height : UInt32}
    (made : s.pp.calls.getLast? = some (PpHashpool.ofHeight height)) :
    Serves PpHashpool.notified
      (ForwardIn (fun height => height.1.toNat)
        (fun later => later ∈ (PpHashpool.chain OfMessages grows).inUse ∧
          getEpochNumber later.1.toUInt64 ≤ getEpochNumber height.toUInt64)) s.pp
      (DatasetSlots.blockId getEpochNumber height.toUInt64) := by
  have forward : (DatasetCalls.system PpHashpool.notified).ReachableUnder
      (ForwardIn (fun height => height.1.toNat) (· ∈ (PpHashpool.chain OfMessages grows).inUse))
      s.pp :=
    reached.project NodePools.pp (fun _ (start : (system _).start _) => start.2.2.2)
      (fun _ _ _ onward stepped => pp_forward onward stepped)
  exact (PpHashpool.chain OfMessages grows).serves_forward
    (PpHashpool.settling getEpochNumber OfMessages) (PpHashpool.sparing getEpochNumber OfMessages)
    (fun _ begun _ inUse => PpHashpool.later_of_le grows begun inUse)
    (fun _ _ => PpHashpool.chain_notLeft grows) forward rest made (.inl rfl)

/-- With valid messages that go forward along a chain of seeds, and epochs that do not fall at
the heights in use: once the pools are at rest between two messages, no share of the job that
get_current_job returns is refused, with either algorithm, before the messages have left its
epochs. -/
theorem current_job_served (T : Type) [DecidableEq T] (apart : (seeds.map V32.getId).Nodup)
    (grows : DatasetSlots.EpochsGrow getEpochNumber heights)
    (s : NodePools getEpochNumber T (RxHashpool.Listing seeds)) (job : JobData)
    (reached : (system RxHashpool.Listing.requests).ReachableUnder (Onward heights) s)
    (here : s.message = .between) (rxRest : Hashpool.AtRest s.rx.checks.pool)
    (ppRest : Hashpool.AtRest s.pp.checks.pool)
    (current : s.run.node.getCurrentJob = some job) : Served heights s job := by
  have sound := reachable_sound reached
  have newest := reachable_newest reached
  have rxDone := (free_iff.mp (sound.rxFree (by simp [here]))).1
  have ppDone := (free_iff.mp (sound.ppFree (by simp [here]))).1
  obtain ⟨a, first, made⟩ := NodeRun.exists_newest
    (NodeRun.reachable_publishedAlive sound.run).2 current
  subst made
  obtain ⟨l, lastRx, listed⟩ := newest.rx here a first
  have lastPp := newest.pp (by simp [here]) a first
  obtain ⟨n, seed, inUse⟩ := exists_listed listed
  refine ⟨?_, ?_⟩
  · intro u v t toU outside toV
    have serves := served_rx apart reached ⟨rxDone, rxRest⟩ lastRx inUse
    rw [seed] at serves
    exact serves u.rx v.rx t
      (toU.project NodePools.rx (fun _ _ _ onward stepped => rx_forwardIn seed onward stepped))
      outside
      (toV.project NodePools.rx (fun _ _ _ onward stepped => rx_forwardIn seed onward stepped))
  · intro u v t toU outside toV
    exact served_pp grows reached ⟨ppDone, ppRest⟩ lastPp u.pp v.pp t
      (toU.project NodePools.pp (fun _ _ _ onward stepped => pp_forwardIn onward stepped))
      outside
      (toV.project NodePools.pp (fun _ _ _ onward stepped => pp_forwardIn onward stepped))

end Served

section Witness

def firstOnly {C : Type} (s : NodePools getEpochNumber T C) :
    NodePoolsAction getEpochNumber T C → Bool
  | .begin env doc _ =>
      s.rx.calls.isEmpty &&
        match Node.messageJob env doc with
        | .ok (some _) => true
        | _ => false
  | .notifyBlock =>
      s.pp.calls.isEmpty &&
        match s.message with
        | .epochs env doc =>
            match (Node.messageAsks env doc).height with
            | some height => height.toNat + 1 < 2 ^ 31
            | none => true
        | _ => true
  | _ => true

theorem onward_of_firstOnly (s : NodePools getEpochNumber T (RxHashpool.Listing seeds))
    (a : NodePoolsAction getEpochNumber T (RxHashpool.Listing seeds))
    (first : firstOnly s a = true) : Onward DatasetSlots.FitsInt s a := by
  cases a with
  | begin env doc asked =>
      simp only [firstOnly, Bool.and_eq_true, List.isEmpty_iff] at first
      obtain ⟨none, valid⟩ := first
      refine ⟨?_, ?_⟩
      · intro _
        split at valid
        · rename_i b read
          exact ⟨b, read⟩
        · cases valid
      · intro l _ last impossible
        rw [none] at impossible
        cases impossible
  | notifyBlock =>
      intro env doc height here asked
      simp only [firstOnly, here, asked, Bool.and_eq_true, List.isEmpty_iff,
        decide_eq_true_eq] at first
      obtain ⟨none, small⟩ := first
      refine ⟨⟨?_, ?_⟩, ?_⟩
      · rw [DatasetSlots.FitsInt, UInt32.toNat_toUInt64]
        omega
      · rw [DatasetSlots.FitsInt, PpHashpool.toUInt64_succ]
        exact small
      · intro last impossible
        rw [none] at impossible
        cases impossible
  | node | finish | rx | pp => trivial

theorem first_job_served :
    ∃ (s : NodePools PpHashpool.epochOf30000 (Fin 2) (RxHashpool.Listing RxHashpool.twoSeeds))
      (job : JobData), s.run.node.getCurrentJob = some job ∧
        Served DatasetSlots.FitsInt s job := by
  obtain ⟨s, reached, done⟩ := System.exists_reachableUnder firstOnly onward_of_firstOnly
    (first_start RxHashpool.Listing.requests) (firstMessage RxHashpool.bothListed) served
    (by decide +kernel)
  obtain ⟨here, rx, pp, job, current⟩ := served_spec done
  exact ⟨s, job, current, current_job_served (Fin 2) (by decide +kernel)
    DatasetSlots.fitsInt_grows s job reached here rx pp current⟩

end Witness

end NodePools

end EpicPoold
