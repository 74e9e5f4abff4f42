import EpicPoold.Decimal
import EpicPoold.JsonParse
import EpicPoold.NodeMessages
import EpicPoold.Foundations.Transition

/-! The runs of the node thread: connections, messages accepted and rejected, and the
list of jobs they leave behind. -/

namespace EpicPoold

open Foundations Foundations.JsonText

structure AcceptedJob where
  addr : Nat
  env : MessageEnv
  doc : Value
  job : JobData

def AcceptedJob.entry (a : AcceptedJob) : JobEntry := ⟨a.addr, a.job⟩

/-- The node with the messages it has accepted, the latest first. `receiving` is set
while recv_main runs. -/
structure NodeRun where
  node : Node
  receiving : Bool
  accepted : List AcceptedJob

/-- recv_main begins and ends, waits too long for a job, and gets lines that are no JSON
object or hold one. The dataset threads publish ready ids at any time. -/
inductive NodeAction where
  | connected (timestampMs : UInt64)
  | disconnected
  | timeout (timestampMs : UInt64)
  | notJson
  | message (env : MessageEnv) (doc : Value)
  | rxReady (i : SlotIdx) (id : UInt64)
  | ppReady (i : SlotIdx) (id : UInt64)

namespace NodeRun

open Node

def setReady (d : DatasetSlots) (i : SlotIdx) (id : UInt64) : DatasetSlots :=
  { d with slots := Function.update d.slots i { d.slots i with readyId := id } }

section System

variable (getEpochNumber : UInt64 → Int32)

/-- A message that json_proc_msg answers with -1 ends recv_main. -/
def messageStep (s : NodeRun) (env : MessageEnv) (doc : Value) : Option NodeRun :=
  match Id.run ((procMessage getEpochNumber env doc).run.run s.node) with
  | (.ok (.published job), n) =>
      some { s with node := n, accepted := ⟨s.node.nextAddr, env, doc, job⟩ :: s.accepted }
  | (.ok .handled, n) => some { s with node := n }
  | (.ok .reconnect, n) => some { s with node := n, receiving := false }
  | (.error (.parseError _), n) => some { s with node := n, receiving := false }
  | (.error .assertion, _) => none

def next (s : NodeRun) : NodeAction → Option NodeRun
  | .connected timestampMs =>
      if s.receiving then none
      else some { s with node := { s.node with lastJobTs := timestampMs }, receiving := true }
  | .disconnected => if s.receiving then some { s with receiving := false } else none
  | .timeout timestampMs =>
      if s.receiving then
        some { s with
          node := { s.node with
            lastJobTs := timestampMs
            effects := s.node.effects ++ [.sendTemplateRequest] } }
      else none
  | .notJson => if s.receiving then some { s with receiving := false } else none
  | .message env doc => if s.receiving then messageStep getEpochNumber s env doc else none
  | .rxReady i id => some { s with node := { s.node with rx := setReady s.node.rx i id } }
  | .ppReady i id => some { s with node := { s.node with pp := setReady s.node.pp i id } }

/-- The node as its constructor leaves it, and both pools with empty slots. -/
def system : System NodeRun NodeAction where
  start s := s = ⟨plainNode, false, []⟩
  next := next getEpochNumber

end System

variable {getEpochNumber : UInt64 → Int32}

inductive MessageStepped (getEpochNumber : UInt64 → Int32) (s : NodeRun) (env : MessageEnv)
    (doc : Value) : NodeRun → Prop
  | quiet (receiving : Bool) (effects : List NodeEffect) (none : createsJob env doc = false) :
      MessageStepped getEpochNumber s env doc
        { s with node := { s.node with effects := effects }, receiving := receiving }
  | rejected (e : JsonFail) (fill : JobData → JobData) (rx pp : DatasetSlots)
      (effects : List NodeEffect) (created : createsJob env doc = true)
      (invalid : messageJob env doc = .error e) :
      MessageStepped getEpochNumber s env doc
        { s with node := s.node.filling fill rx pp effects, receiving := false }
  | published (b : JobBody) (effects : List NodeEffect)
      (valid : messageJob env doc = .ok (some b)) :
      MessageStepped getEpochNumber s env doc
        { s with
          node := afterJob getEpochNumber s.node env b effects
          accepted := ⟨s.node.nextAddr, env, doc, b.job⟩ :: s.accepted }

theorem messageStep_stepped {s t : NodeRun} {env : MessageEnv} {doc : Value}
    (fresh : s.node.Fresh) (stepped : messageStep getEpochNumber s env doc = some t) :
    MessageStepped getEpochNumber s env doc t := by
  rcases ended : Id.run ((procMessage getEpochNumber env doc).run.run s.node) with ⟨result, n⟩
  simp only [messageStep, ended] at stepped
  cases result with
  | error e =>
      cases e with
      | assertion => cases stepped
      | parseError what =>
          cases stepped
          rcases fails_procMessage s.node n env doc _ ended with
            ⟨early, same⟩ | ⟨created, invalid, fill, rx, pp, effects, left⟩
          · rw [same]
            exact .quiet false s.node.effects early
          · rw [left]
            exact .rejected _ fill rx pp effects created invalid
  | ok outcome =>
      rcases runs_procMessage s.node n env doc outcome ended with
        ⟨none, other, effects, rfl⟩ | ⟨b, job, effects, valid, rfl, rest⟩
      · cases outcome with
        | handled =>
            cases stepped
            exact .quiet s.receiving effects none
        | reconnect =>
            cases stepped
            exact .quiet false effects none
        | published job => exact absurd rfl (other job)
      · obtain ⟨rfl, rfl⟩ := rest fresh
        cases stepped
        exact .published b effects valid

structure Ordered (n : Node) : Prop where
  fresh : n.Fresh
  sorted : (n.jobs.map JobEntry.addr).Pairwise (· < ·)

theorem trimJobs_sublist (jobs : List JobEntry) : (trimJobs jobs).Sublist jobs := by
  rw [trimJobs]
  split
  · exact List.tail_sublist jobs
  · exact List.Sublist.refl jobs

theorem mem_trimJobs_append (jobs : List JobEntry) (e : JobEntry) :
    e ∈ trimJobs (jobs ++ [e]) := by
  rw [trimJobs]
  split
  · rename_i long
    cases jobs with
    | nil => simp at long
    | cons first rest => simp
  · simp

theorem ordered_append (n : Node) (before : Ordered n) (job : JobData) :
    (∀ e ∈ n.jobs ++ [JobEntry.mk n.nextAddr job], e.addr < n.nextAddr + 1) ∧
      ((n.jobs ++ [JobEntry.mk n.nextAddr job]).map JobEntry.addr).Pairwise (· < ·) := by
  constructor
  · intro e member
    rcases List.mem_append.mp member with old | new
    · exact Nat.lt_succ_of_lt (before.fresh e old)
    · rw [List.mem_singleton.mp new]
      exact Nat.lt_succ_self _
  · rw [List.map_append]
    refine List.pairwise_append.mpr ⟨before.sorted, List.pairwise_singleton _ _, ?_⟩
    intro addr old last new
    obtain ⟨e, member, rfl⟩ := List.mem_map.mp old
    rw [List.mem_singleton.mp new]
    exact before.fresh e member

theorem ordered_filling (n : Node) (before : Ordered n) (fill : JobData → JobData)
    (rx pp : DatasetSlots) (effects : List NodeEffect) :
    Ordered (n.filling fill rx pp effects) := by
  have jobs := filling_jobs n fill rx pp effects before.fresh
  obtain ⟨below, sorted⟩ := ordered_append n before (fill .zero)
  constructor
  · intro e member
    rw [jobs] at member
    exact below e member
  · rw [jobs]
    exact sorted

theorem ordered_afterJob (n : Node) (before : Ordered n) (env : MessageEnv) (b : JobBody)
    (effects : List NodeEffect) : Ordered (afterJob getEpochNumber n env b effects) := by
  obtain ⟨below, sorted⟩ := ordered_append n before b.job
  have trimmed := trimJobs_sublist (n.jobs ++ [⟨n.nextAddr, b.job⟩])
  exact ⟨fun e member => below e (trimmed.subset member), sorted.sublist (trimmed.map _)⟩

/-- The element that an accepted message filled is still in the list, and holds the job
that the message describes. -/
structure Filled (n : Node) (a : AcceptedJob) : Prop where
  present : a.entry ∈ n.jobs
  only : ∀ e ∈ n.jobs, e.addr = a.addr → e = a.entry
  fromMessage : ∃ b, messageJob a.env a.doc = .ok (some b) ∧ a.job = b.job ∧ SetFrom b a.job

/-- `current_job` points to the element of the last accepted message. -/
structure PublishedAlive (s : NodeRun) : Prop where
  none_iff : s.node.currentJob = none ↔ s.accepted = []
  last : ∀ a older, s.accepted = a :: older →
    s.node.currentJob = some a.addr ∧ Filled s.node a

theorem filled_of_mem {n : Node} (ordered : Ordered n) (a : AcceptedJob)
    (present : a.entry ∈ n.jobs)
    (fromMessage : ∃ b, messageJob a.env a.doc = .ok (some b) ∧ a.job = b.job ∧ SetFrom b a.job) :
    Filled n a := by
  refine ⟨present, ?_, fromMessage⟩
  intro e member same
  have distinct : (n.jobs.map JobEntry.addr).Nodup := ordered.sorted.imp Nat.ne_of_lt
  exact List.inj_on_of_nodup_map distinct member present same

theorem publishedAlive_same {s t : NodeRun} (before : Ordered s.node ∧ PublishedAlive s)
    (jobs : t.node.jobs = s.node.jobs) (nextAddr : t.node.nextAddr = s.node.nextAddr)
    (currentJob : t.node.currentJob = s.node.currentJob) (accepted : t.accepted = s.accepted) :
    Ordered t.node ∧ PublishedAlive t := by
  obtain ⟨ordered, alive⟩ := before
  have still : Ordered t.node := by
    constructor
    · intro e member
      rw [nextAddr]
      rw [jobs] at member
      exact ordered.fresh e member
    · rw [jobs]
      exact ordered.sorted
  refine ⟨still, ?_, ?_⟩
  · rw [currentJob, accepted]
    exact alive.none_iff
  · intro a older last
    rw [accepted] at last
    obtain ⟨current, filled⟩ := alive.last a older last
    rw [currentJob]
    refine ⟨current, filled_of_mem still a ?_ filled.fromMessage⟩
    rw [jobs]
    exact filled.present

/-- A message that is rejected leaves an element behind the current one, and one that
is accepted replaces it. -/
theorem messageStepped_publishedAlive {s t : NodeRun} {env : MessageEnv} {doc : Value}
    (before : Ordered s.node ∧ PublishedAlive s)
    (stepped : MessageStepped getEpochNumber s env doc t) : Ordered t.node ∧ PublishedAlive t := by
  obtain ⟨ordered, alive⟩ := before
  cases stepped with
  | quiet receiving effects none => exact publishedAlive_same ⟨ordered, alive⟩ rfl rfl rfl rfl
  | rejected e fill rx pp effects created invalid =>
      have still := ordered_filling s.node ordered fill rx pp effects
      refine ⟨still, alive.none_iff, ?_⟩
      intro a older last
      obtain ⟨current, filled⟩ := alive.last a older last
      refine ⟨current, filled_of_mem still a ?_ filled.fromMessage⟩
      rw [filling_jobs _ _ _ _ _ ordered.fresh]
      exact List.mem_append_left _ filled.present
  | published b effects valid =>
      have still : Ordered (afterJob getEpochNumber s.node env b effects) :=
        ordered_afterJob s.node ordered env b effects
      refine ⟨still, by simp [afterJob], ?_⟩
      rintro a older last
      obtain ⟨rfl, rfl⟩ := List.cons.inj last
      refine ⟨rfl, filled_of_mem still _ ?_ ⟨b, valid, rfl, setFrom_of_messageJob valid⟩⟩
      exact mem_trimJobs_append s.node.jobs _

theorem next_publishedAlive {s t : NodeRun} {a : NodeAction}
    (before : Ordered s.node ∧ PublishedAlive s) (stepped : next getEpochNumber s a = some t) :
    Ordered t.node ∧ PublishedAlive t := by
  cases a with
  | message env doc =>
      simp only [next] at stepped
      split at stepped
      · exact messageStepped_publishedAlive before (messageStep_stepped before.1.fresh stepped)
      · cases stepped
  | connected timestampMs =>
      simp only [next] at stepped
      split at stepped
      · cases stepped
      · cases stepped
        exact publishedAlive_same before rfl rfl rfl rfl
  | disconnected | timeout | notJson =>
      simp only [next] at stepped
      split at stepped
      · cases stepped
        exact publishedAlive_same before rfl rfl rfl rfl
      · cases stepped
  | rxReady i id | ppReady i id =>
      cases stepped
      exact publishedAlive_same before rfl rfl rfl rfl

theorem reachable_publishedAlive {s : NodeRun} (reached : (system getEpochNumber).Reachable s) :
    Ordered s.node ∧ PublishedAlive s := by
  refine reached.invariant (fun s => Ordered s.node ∧ PublishedAlive s) ?_ ?_
  · rintro s rfl
    refine ⟨⟨?_, List.Pairwise.nil⟩, ⟨iff_of_true rfl rfl, ?_⟩⟩
    · intro e member
      cases member
    · intro a older impossible
      cases impossible
  · intro s a t _ before stepped
    exact next_publishedAlive before stepped

/-- The published job is alive and was filled by the last accepted message, in every
run. -/
theorem published_alive {s : NodeRun} (reached : (system getEpochNumber).Reachable s) :
    PublishedAlive s :=
  (reachable_publishedAlive reached).2

def acceptThenReject : List NodeAction :=
  [.connected 0, .message ⟨0, 0⟩ (plainMessage "randomx" 8),
    .message ⟨0, 0⟩ (plainMessage "randomx" 800)]

theorem published_alive_after_rejection :
    ∃ s : NodeRun, (s.accepted.length = 1 ∧ s.node.jobs.length = 2) ∧ PublishedAlive s := by
  obtain ⟨s, reached, left⟩ := System.exists_reachable (S := system (fun _ => 0)) rfl
    acceptThenReject (fun s => s.accepted.length == 1 && s.node.jobs.length == 2)
    (by decide +kernel)
  exact ⟨s, by simpa using left, published_alive reached⟩

/-- The list holds the last five accepted jobs, or all of them, and nothing else. -/
structure Retained (s : NodeRun) : Prop where
  jobs : s.node.jobs = ((s.accepted.take 5).map AcceptedJob.entry).reverse
  bounded : s.node.jobs.length ≤ 5
  grace : ∀ newer a older, s.accepted = newer ++ a :: older → newer.length < 5 →
    a.entry ∈ s.node.jobs

theorem retained_of_jobs {s : NodeRun}
    (jobs : s.node.jobs = ((s.accepted.take 5).map AcceptedJob.entry).reverse) : Retained s where
  jobs := jobs
  bounded := by
    rw [jobs]
    simp
  grace := by
    intro newer a older split few
    rw [jobs, split]
    simp only [List.mem_reverse, List.mem_map]
    refine ⟨a, ?_, rfl⟩
    rw [List.take_append, List.take_of_length_le (by omega)]
    apply List.mem_append_right
    obtain ⟨room, some⟩ : ∃ room, 5 - newer.length = room + 1 := ⟨4 - newer.length, by omega⟩
    rw [some, List.take_succ_cons]
    exact List.mem_cons_self

theorem trimJobs_recent (accepted : List AcceptedJob) (a : AcceptedJob) :
    trimJobs (((accepted.take 5).map AcceptedJob.entry).reverse ++ [a.entry]) =
      (((a :: accepted).take 5).map AcceptedJob.entry).reverse := by
  rw [List.take_succ_cons, List.map_cons, List.reverse_cons, trimJobs]
  split
  · rename_i long
    have five : (accepted.take 5).length = 5 := by
      simp only [List.length_append, List.length_reverse, List.length_map, List.length_take,
        List.length_singleton] at long ⊢
      omega
    have nonempty : ((accepted.take 5).map AcceptedJob.entry).reverse ≠ [] := by
      intro empty
      have zero := congrArg List.length empty
      rw [List.length_reverse, List.length_map, five] at zero
      cases zero
    have shorter : (accepted.take 5).dropLast = accepted.take 4 := by
      rw [List.dropLast_eq_take, five, List.take_take]
      rfl
    rw [List.tail_append_of_ne_nil nonempty, List.tail_reverse, ← List.map_dropLast, shorter]
  · rename_i short
    have few : accepted.length ≤ 4 := by
      simp only [List.length_append, List.length_reverse, List.length_map, List.length_take,
        List.length_singleton] at short
      omega
    rw [List.take_of_length_le few, List.take_of_length_le (by omega)]

def wholeMessage : NodeAction → Bool
  | .message env doc =>
      !createsJob env doc ||
        match messageJob env doc with
        | .ok (some _) => true
        | _ => false
  | _ => true

theorem next_retained {s t : NodeRun} {a : NodeAction} (fresh : s.node.Fresh)
    (before : s.node.jobs = ((s.accepted.take 5).map AcceptedJob.entry).reverse)
    (whole : wholeMessage a = true) (stepped : next getEpochNumber s a = some t) :
    t.node.jobs = ((t.accepted.take 5).map AcceptedJob.entry).reverse := by
  cases a with
  | message env doc =>
      simp only [next] at stepped
      split at stepped
      · cases messageStep_stepped fresh stepped with
        | quiet receiving effects none => exact before
        | rejected e fill rx pp effects created invalid =>
            rw [wholeMessage, created, invalid] at whole
            cases whole
        | published b effects valid =>
            change trimJobs (s.node.jobs ++ _) = _
            rw [before]
            exact trimJobs_recent s.accepted ⟨s.node.nextAddr, env, doc, b.job⟩
      · cases stepped
  | connected timestampMs =>
      simp only [next] at stepped
      split at stepped
      · cases stepped
      · cases stepped
        exact before
  | disconnected | timeout | notJson =>
      simp only [next] at stepped
      split at stepped
      · cases stepped
        exact before
      · cases stepped
  | rxReady i id | ppReady i id =>
      cases stepped
      exact before

/-- The list of jobs is exactly that in every run in which no message is rejected once
it has an element. -/
theorem retained_of_wholeMessages {s : NodeRun}
    (reached : (system getEpochNumber).ReachableUnder (fun _ a => wholeMessage a = true) s) :
    Retained s := by
  apply retained_of_jobs
  refine reached.invariant
    (fun s => s.node.jobs = ((s.accepted.take 5).map AcceptedJob.entry).reverse) ?_ ?_
  · rintro s rfl
    rfl
  · intro s a t earlier before whole stepped
    exact next_retained (reachable_publishedAlive earlier.reachable).1.fresh before whole stepped

/-- Seven jobs are accepted, and the list holds five. -/
theorem retained_after_seven_jobs :
    ∃ s : NodeRun, (s.accepted.length = 7 ∧ s.node.jobs.length = 5) ∧ Retained s := by
  obtain ⟨s, reached, left⟩ := System.exists_reachableUnder (S := system (fun _ => 0))
    (fun _ a => wholeMessage a) (fun _ _ whole => whole) rfl
    (.connected 0 :: List.replicate 7 (.message ⟨0, 0⟩ (plainMessage "randomx" 8)))
    (fun s => s.accepted.length == 7 && s.node.jobs.length == 5) (by decide +kernel)
  exact ⟨s, by simpa using left, retained_of_wholeMessages reached⟩

/-- Between two accepted jobs five messages are rejected for their blob, each after a
connection of its own. -/
def leftoversBetween : List NodeAction :=
  [.connected 0, .message ⟨0, 0⟩ (plainMessage "randomx" 8)] ++
    (List.replicate 5 [.message ⟨0, 0⟩ (plainMessage "randomx" 800), .connected 0]).flatten ++
    [.message ⟨0, 0⟩ (plainMessage "randomx" 8)]

/-- The list then has six elements, and the first job is freed when the second is
published. -/
theorem job_freed_early_reachable :
    ∃ s : NodeRun, (system (fun _ => 0)).Reachable s ∧
      (∃ newest first, s.accepted = [newest, first] ∧
        s.node.currentJob = some newest.addr ∧ first.entry ∉ s.node.jobs) ∧
      s.node.jobs.length = 6 ∧ ¬ Retained s := by
  obtain ⟨s, reached, left⟩ := System.exists_reachable (S := system (fun _ => 0)) rfl
    leftoversBetween
    (fun s => s.accepted.map AcceptedJob.addr == [6, 0] && s.node.currentJob == some 6 &&
      s.node.jobs.map JobEntry.addr == [1, 2, 3, 4, 5, 6])
    (by decide +kernel)
  simp only [Bool.and_eq_true, beq_iff_eq] at left
  obtain ⟨⟨accepted, current⟩, jobs⟩ := left
  have six : s.node.jobs.length = 6 := by
    have length := congrArg List.length jobs
    rwa [List.length_map] at length
  refine ⟨s, reached, ?_, six, ?_⟩
  · obtain ⟨newest, older, split, newestAt, accepted⟩ := List.map_eq_cons_iff.mp accepted
    obtain ⟨first, none, rfl, firstAt, accepted⟩ := List.map_eq_cons_iff.mp accepted
    obtain rfl := List.map_eq_nil_iff.mp accepted
    refine ⟨newest, first, split, by rw [newestAt, current], ?_⟩
    intro kept
    have address := List.mem_map_of_mem (f := JobEntry.addr) kept
    rw [jobs] at address
    simp [AcceptedJob.entry, firstAt] at address
  · intro retained
    have bound := retained.bounded
    omega

section Rejections

def Rejects (getEpochNumber : UInt64 → Int32) (n : Node) (env : MessageEnv) (doc : Value)
    (after : Node) : Prop :=
  Runs (procMessage getEpochNumber env doc) n .reconnect after ∨
    ∃ what, Fails (procMessage getEpochNumber env doc) n (.parseError what) after

def lineMessage (parse : List UInt8 → Option Value) (msg : List UInt8) : Option Value :=
  (msg.findIdx? (· = 0x0a)).bind (fun i => parse (cstr (msg.take i)))

theorem lineMessage_lineOf {doc : Doc} (printable : Printable doc) :
    lineMessage parseJson (lineOf doc) = some (valueOf doc) := by
  rw [lineMessage, findIdx_lineOf printable, Option.bind_some, parse_firstLine printable]

/-- A line for which json_proc_msg returns -1 is no JSON object, or is rejected. -/
theorem jsonProcMsg_failed {parse : List UInt8 → Option Value} {env : MessageEnv}
    {n after : Node} {msg : List UInt8}
    (returned : jsonProcMsg getEpochNumber parse env n msg = (.failed, after)) :
    (after = n ∧ ∀ doc, lineMessage parse msg = some doc → doc.isObject = false) ∨
      ∃ doc, lineMessage parse msg = some doc ∧ Rejects getEpochNumber n env doc after := by
  rw [jsonProcMsg] at returned
  split at returned
  · cases returned
  · rename_i i newline
    rw [lineMessage, newline, Option.bind_some]
    split at returned
    · rename_i unparsed
      cases returned
      exact .inl ⟨rfl, by simp [unparsed]⟩
    · rename_i doc parsed
      split at returned
      · rename_i other
        cases returned
        left
        refine ⟨rfl, ?_⟩
        intro d same
        rw [parsed] at same
        cases same
        simpa using other
      · right
        refine ⟨doc, parsed, ?_⟩
        split at returned
        · cases returned
        · cases returned
        · rename_i m ended
          cases returned
          exact .inl ended
        · rename_i what m ended
          cases returned
          exact .inr ⟨what, ended⟩
        · cases returned

structure Unchanged (n t : Node) : Prop where
  jobs : t.jobs = n.jobs
  currentJob : t.currentJob = n.currentJob
  lastJobTs : t.lastJobTs = n.lastJobTs
  rx : t.rx = n.rx
  pp : t.pp = n.pp

theorem rejects_unchanged_iff {n t : Node} {env : MessageEnv} {doc : Value}
    (rejected : Rejects getEpochNumber n env doc t) :
    Unchanged n t ↔ createsJob env doc = false := by
  rcases rejected with again | ⟨what, failed⟩
  · rcases runs_procMessage n t env doc _ again with
      ⟨none, _, effects, rfl⟩ | ⟨b, job, effects, valid, impossible, _⟩
    · exact iff_of_true ⟨rfl, rfl, rfl, rfl, rfl⟩ none
    · cases impossible
  · rcases fails_procMessage n t env doc _ failed with
      ⟨none, rfl⟩ | ⟨created, _, fill, rx, pp, effects, rfl⟩
    · exact iff_of_true ⟨rfl, rfl, rfl, rfl, rfl⟩ none
    · refine iff_of_false ?_ (by simp [created])
      intro unchanged
      have length := congrArg List.length unchanged.jobs
      rw [filling_jobs_length] at length
      omega

theorem isObject_of_createsJob {env : MessageEnv} {doc : Value}
    (created : createsJob env doc = true) : doc.isObject = true := by
  cases doc with
  | object members => rfl
  | null | bool | number | string | array => cases created

/-- json_proc_msg returns -1 and has changed nothing if and only if there was no message that
got an element. -/
theorem unchanged_iff {parse : List UInt8 → Option Value} {env : MessageEnv} {n t : Node}
    {msg : List UInt8}
    (returned : jsonProcMsg getEpochNumber parse env n msg = (.failed, t)) :
    Unchanged n t ↔ ∀ doc, lineMessage parse msg = some doc → createsJob env doc = false := by
  rcases jsonProcMsg_failed returned with ⟨rfl, none⟩ | ⟨doc, found, rejected⟩
  · refine iff_of_true ⟨rfl, rfl, rfl, rfl, rfl⟩ ?_
    intro doc found
    cases created : createsJob env doc with
    | false => rfl
    | true =>
        have object := isObject_of_createsJob created
        rw [none doc found] at object
        cases object
  · rw [rejects_unchanged_iff rejected]
    constructor
    · intro kept other same
      rw [found] at same
      cases same
      exact kept
    · intro kept
      exact kept doc found

def plainDoc (algo : String) (digits : Nat) : Doc :=
  let number (n : UInt8) : Doc := .number (decimal n.toNat)
  .object [(ascii "id", .string (ascii "Stratum")), (ascii "method", .string (ascii "job")),
    (ascii "params", .object [(ascii "height", number 5),
      (ascii "algorithm", .string (ascii algo)),
      (ascii "block_difficulty", .array [.array [.string (ascii algo), number 10]]),
      (ascii "epochs", .array [.array [number 0, number 100,
        .array (List.replicate 32 (number 7))]]),
      (ascii "job_id", number 3),
      (ascii "pre_pow", .string (List.replicate digits 0x30))])]

theorem numberOf_decimal (n : UInt8) :
    Value.number (numberOf (decimal n.toNat)) = plainNumber n := by
  have small := n.toNat_lt
  have digits : (decimal n.toNat).all isNumeric = true :=
    List.all_eq_true.mpr (decimal_numeric n.toNat)
  rw [numberOf, if_pos digits, decimalValue_decimal, integerOf, dif_pos (by omega)]
  rfl

theorem valuesOf_replicate (doc : Doc) (count : Nat) :
    valuesOf (List.replicate count doc) = List.replicate count (valueOf doc) := by
  induction count with
  | zero => rfl
  | succ count ih => rw [List.replicate_succ, valuesOf, ih, List.replicate_succ]

theorem valueOf_plainDoc (algo : String) (digits : Nat) :
    valueOf (plainDoc algo digits) = plainMessage algo digits := by
  simp only [plainDoc, valueOf, valuesOf, membersOf, valuesOf_replicate, numberOf_decimal,
    plainMessage, plainString]

theorem printable_plainDoc {algo : String} (plain : allPlain (ascii algo) = true) (digits : Nat) :
    Printable (plainDoc algo digits) := by
  have number : ∀ n : UInt8, Printable (.number (decimal n.toNat)) :=
    fun n => .number (isInteger_decimal n.toNat)
  have text : Printable (.string (ascii algo)) := .string (plain_of_allPlain plain)
  have zeros : Printable (.string (List.replicate digits 0x30)) := by
    refine .string ?_
    intro b among
    rw [(List.mem_replicate.mp among).2]
    decide
  have seed : Printable (.array (List.replicate 32 (.number (decimal (7 : UInt8).toNat)))) := by
    refine .array ?_
    intro d among
    rw [(List.mem_replicate.mp among).2]
    exact number 7
  have difficulty : Printable (.array [.array [.string (ascii algo),
      .number (decimal (10 : UInt8).toNat)]]) := by
    refine .array (List.forall_mem_singleton.mpr (.array ?_))
    simp only [List.forall_mem_cons]
    exact ⟨text, number 10, by simp⟩
  have epochs : Printable (.array [.array [.number (decimal (0 : UInt8).toNat),
      .number (decimal (100 : UInt8).toNat),
      .array (List.replicate 32 (.number (decimal (7 : UInt8).toNat)))]]) := by
    refine .array (List.forall_mem_singleton.mpr (.array ?_))
    simp only [List.forall_mem_cons]
    exact ⟨number 0, number 100, seed, by simp⟩
  exact
    .cons (plain_of_allPlain rfl) (.string (plain_of_allPlain rfl)) <|
    .cons (plain_of_allPlain rfl) (.string (plain_of_allPlain rfl)) <|
    .cons (plain_of_allPlain rfl)
      (.cons (plain_of_allPlain rfl) (number 5) <|
        .cons (plain_of_allPlain rfl) text <|
        .cons (plain_of_allPlain rfl) difficulty <|
        .cons (plain_of_allPlain rfl) epochs <|
        .cons (plain_of_allPlain rfl) (number 3) <|
        .cons (plain_of_allPlain rfl) zeros .nil) .nil

/-- What json_proc_msg makes of the line is what it makes of the message. -/
theorem jsonProcMsg_plainDoc {algo : String} (plain : allPlain (ascii algo) = true) (digits : Nat)
    {what : List UInt8} {n t : Node}
    (failed : Fails (procMessage getEpochNumber ⟨0, 0⟩ (plainMessage algo digits)) n
      (.parseError what) t) :
    jsonProcMsg getEpochNumber parseJson ⟨0, 0⟩ n (lineOf (plainDoc algo digits)) =
      (.failed, t) := by
  have printable := printable_plainDoc plain digits
  have found := lineMessage_lineOf printable
  rw [lineMessage, findIdx_lineOf printable, Option.bind_some, valueOf_plainDoc] at found
  have ended : (procMessage getEpochNumber ⟨0, 0⟩ (plainMessage algo digits)).run.run n =
      (.error (.parseError what), t) := failed
  have object : (plainMessage algo digits).isObject = true := rfl
  simp only [jsonProcMsg, findIdx_lineOf printable, found, object, ended, Bool.not_true,
    Bool.false_eq_true, if_false]

/-- An unknown algorithm is noticed in time. -/
theorem unchanged_by_unknown_algorithm :
    ∃ t, jsonProcMsg (fun _ => 0) parseJson ⟨0, 0⟩ plainNode (lineOf (plainDoc "cuckaroo" 8)) =
      (.failed, t) ∧ Unchanged plainNode t := by
  have failed : Fails (procMessage (fun _ => 0) ⟨0, 0⟩ (plainMessage "cuckaroo" 8)) plainNode
      (.parseError (ascii "Unknown algorithm: cuckaroo")) plainNode := by rfl
  have returned := jsonProcMsg_plainDoc rfl 8 failed
  refine ⟨_, returned, (unchanged_iff returned).mpr ?_⟩
  intro doc found
  rw [lineMessage_lineOf (printable_plainDoc rfl 8), valueOf_plainDoc] at found
  cases found
  decide +kernel

/-- Too long a blob is noticed when the job is in the list and its dataset is being
loaded. -/
theorem rejected_message_changes_node :
    ∃ t, jsonProcMsg (fun _ => 0) parseJson ⟨0, 0⟩ plainNode (lineOf (plainDoc "randomx" 800)) =
      (.failed, t) ∧
      t.jobs.length = 1 ∧ t.rx.dsCtr = 1 ∧ t.pp.dsCtr = 1 ∧ ¬ Unchanged plainNode t := by
  have left : (match Id.run ((procMessage (fun _ => 0) ⟨0, 0⟩
      (plainMessage "randomx" 800)).run.run plainNode) with
    | (.error (.parseError _), t) => (t.jobs.length, t.rx.dsCtr, t.pp.dsCtr) == (1, 1, 1)
    | _ => false) = true := by
    decide +kernel
  split at left
  · rename_i what t ended
    simp only [beq_iff_eq, Prod.mk.injEq] at left
    refine ⟨t, jsonProcMsg_plainDoc rfl 800 ended, left.1, left.2.1, left.2.2, ?_⟩
    intro unchanged
    have length := congrArg List.length unchanged.jobs
    rw [left.1] at length
    cases length
  · cases left

end Rejections

end NodeRun

end EpicPoold
