import EpicPoold.EpochSelection
import EpicPoold.MessageTypes

/-! Where the difficulty of a published job comes from. It is the last entry for the
job's algorithm, and the bytes of an uninitialised variable where there is none. -/

namespace EpicPoold

open Foundations

namespace Node

def IsPair (v : Value) : Prop := ∃ name diff, v = .array [.string name, diff]

def entryFor (algo : List UInt8) : Value → Option Value
  | .array [.string name, diff] => if cstr name = cstr algo then some diff else none
  | _ => none

def entriesFor (algo : List UInt8) (items : List Value) : List Value :=
  items.filterMap (entryFor algo)

section Loop

variable (algo : List UInt8)

theorem blockDifficulty_cons_eq_ok (v : Value) (rest : List Value) (blockDiff d : UInt64) :
    blockDifficulty algo (v :: rest) blockDiff = .ok d ↔
      ∃ name diff, v = .array [.string name, diff] ∧
        if cstr name = cstr algo then ∃ m, IsWord64 diff m ∧ blockDifficulty algo rest m = .ok d
        else blockDifficulty algo rest blockDiff = .ok d := by
  rw [blockDifficulty, bind_eq_ok]
  constructor
  · rintro ⟨members, sized, read⟩
    split at read
    · rename_i first diff
      obtain ⟨name, named, read⟩ := (bind_eq_ok _ _ _).mp read
      have string := (getString_eq_ok _ _).mp named
      have pair := ((getArrayOf_eq_ok _ _ _).mp sized).1
      refine ⟨name, diff, by rw [pair, string], ?_⟩
      split
      · rename_i mine
        rw [if_pos mine, bind_eq_ok] at read
        obtain ⟨m, word, read⟩ := read
        exact ⟨m, (getUint64_eq_ok _ _).mp word, read⟩
      · rename_i other
        rwa [if_neg other] at read
    · cases read
  · rintro ⟨name, diff, pair, read⟩
    refine ⟨[.string name, diff], (getArrayOf_eq_ok _ _ _).mpr ⟨pair, rfl⟩, ?_⟩
    apply (bind_eq_ok _ _ _).mpr
    refine ⟨name, rfl, ?_⟩
    split
    · rename_i mine
      rw [if_pos mine] at read
      obtain ⟨m, word, read⟩ := read
      exact (bind_eq_ok _ _ _).mpr ⟨m, (getUint64_eq_ok _ _).mpr word, read⟩
    · rename_i other
      rwa [if_neg other] at read

theorem blockDifficulty_last (items : List Value) : ∀ blockDiff d : UInt64,
    blockDifficulty algo items blockDiff = .ok d →
      (∀ item ∈ items, IsPair item) ∧
        ((entriesFor algo items = [] ∧ d = blockDiff) ∨
          ∃ entry, (entriesFor algo items).getLast? = some entry ∧ IsWord64 entry d) := by
  induction items with
  | nil =>
      intro blockDiff d read
      exact ⟨by simp, .inl ⟨rfl, ((pure_eq_ok _ _).mp read).symm⟩⟩
  | cons v rest ih =>
      intro blockDiff d read
      obtain ⟨name, diff, pair, read⟩ := (blockDifficulty_cons_eq_ok _ _ _ _ _).mp read
      split at read
      · rename_i mine
        obtain ⟨m, word, read⟩ := read
        obtain ⟨pairs, last⟩ := ih m d read
        have first : entriesFor algo (v :: rest) = diff :: entriesFor algo rest := by
          simp [entriesFor, entryFor, pair, mine]
        refine ⟨List.forall_mem_cons.mpr ⟨⟨name, diff, pair⟩, pairs⟩, .inr ?_⟩
        rw [first, List.getLast?_cons]
        rcases last with ⟨none, same⟩ | ⟨entry, found, valued⟩
        · rw [none, same]
          exact ⟨diff, rfl, word⟩
        · rw [found]
          exact ⟨entry, rfl, valued⟩
      · rename_i other
        obtain ⟨pairs, last⟩ := ih blockDiff d read
        have first : entriesFor algo (v :: rest) = entriesFor algo rest := by
          simp [entriesFor, entryFor, pair, other]
        rw [first]
        exact ⟨List.forall_mem_cons.mpr ⟨⟨name, diff, pair⟩, pairs⟩, last⟩

theorem blockDifficulty_of_none (items : List Value) (blockDiff : UInt64)
    (pairs : ∀ item ∈ items, IsPair item) (none : entriesFor algo items = []) :
    blockDifficulty algo items blockDiff = .ok blockDiff := by
  induction items with
  | nil => rfl
  | cons v rest ih =>
      obtain ⟨⟨name, diff, pair⟩, others⟩ := List.forall_mem_cons.mp pairs
      have other : cstr name ≠ cstr algo := by
        intro mine
        simp [entriesFor, entryFor, pair, mine] at none
      have left : entriesFor algo rest = [] := by
        simpa [entriesFor, entryFor, pair, other] using none
      apply (blockDifficulty_cons_eq_ok _ _ _ _ _).mpr
      refine ⟨name, diff, pair, ?_⟩
      rw [if_neg other]
      exact ih others left

end Loop

structure Lists (doc res : Value) (algo : List UInt8) (items : List Value) : Prop where
  kind : messageKind doc = .ok (.job res)
  height : ∃ height, getJsonUInt res "height" = .ok height ∧ height ≠ 0
  algo : getJsonString res "algorithm" = .ok algo
  listed : getObjectMember res "block_difficulty" = .ok (some (.array items))

theorem object_of_getJsonUInt {res : Value} {key : String} {n : UInt32}
    (read : getJsonUInt res key = .ok n) : res.isObject = true := by
  cases res with
  | object members => rfl
  | null | bool _ | number _ | string _ | array _ => cases read

def ListsItsAlgorithm (doc : Value) : Prop :=
  ∃ res algo items, Lists doc res algo items ∧ entriesFor algo items ≠ []

structure OtherwiseValid (doc res : Value) (algo : List UInt8) (items : List Value) : Prop where
  lists : Lists doc res algo items
  type : ∃ type, jobType algo = .ok type
  pairs : ∀ item ∈ items, IsPair item
  epochs : ∀ height, getJsonUInt res "height" = .ok height → ∃ uses, jobEpochs height res = .ok uses
  jobid : ∃ jobid, getJsonUInt res "job_id" = .ok jobid
  prepow : ∃ prepow, readPrepowText res = .ok prepow

section Messages

variable {getEpochNumber : UInt64 → Int32} {n : Node} {env : MessageEnv} {doc : Value}

variable (getEpochNumber n env doc) in
/-- json_proc_msg answers the message with -1. -/
def Rejects : Prop :=
  (∃ t, Runs (procMessage getEpochNumber env doc) n .reconnect t) ∨
    ∃ what t, Fails (procMessage getEpochNumber env doc) n (.parseError what) t

variable (getEpochNumber n env doc) in
/-- The published difficulty is the last one listed for the algorithm, and not zero; where
none is listed nothing is published. -/
structure DifficultyFromMessage : Prop where
  published : ∀ job after, Publishes getEpochNumber n env doc job after →
    ∃ res algo items entry, Lists doc res algo items ∧
      (entriesFor algo items).getLast? = some entry ∧ IsWord64 entry job.blockDiff ∧
      job.blockDiff ≠ 0
  rejected : ∀ res algo items, Lists doc res algo items → entriesFor algo items = [] →
    Rejects getEpochNumber n env doc

theorem lists_unique {res res' : Value} {algo algo' : List UInt8} {items items' : List Value}
    (one : Lists doc res algo items) (other : Lists doc res' algo' items') :
    res = res' ∧ algo = algo' ∧ items = items' := by
  cases one.kind.symm.trans other.kind
  cases one.algo.symm.trans other.algo
  cases one.listed.symm.trans other.listed
  exact ⟨rfl, rfl, rfl⟩

theorem jobHeader_lists {res : Value} {header : JobHeader}
    (kind : messageKind doc = .ok (.job res)) (read : jobHeader env res = .ok (some header)) :
    ∃ algo items, Lists doc res algo items ∧ jobType algo = .ok header.type ∧
      getJsonUInt res "height" = .ok header.height ∧
      blockDifficulty algo items env.blockDiffBytes = .ok header.blockDiff ∧
      header.blockDiff ≠ 0 := by
  simp only [jobHeader, bind_eq_ok] at read
  obtain ⟨height, tall, read⟩ := read
  split at read
  · cases read
  rename_i nonzero
  simp only [bind_eq_ok, getObjectMemberT_eq_ok, getArray_eq_ok] at read
  obtain ⟨algo, named, type, typed, member, found, items, listed, blockDiff, summed, read⟩ := read
  subst listed
  split at read
  · cases read
  rename_i hard
  cases read
  exact ⟨algo, items, ⟨kind, ⟨height, tall, nonzero⟩, named, found⟩, typed, tall, summed, hard⟩

/-- A message that lists no difficulty for its algorithm and is valid otherwise passes
for a valid one, with the bytes of the variable. -/
theorem messageJob_of_otherwiseValid {res : Value} {algo : List UInt8} {items : List Value}
    (valid : OtherwiseValid doc res algo items) (none : entriesFor algo items = [])
    (garbage : env.blockDiffBytes ≠ 0) : ∃ b, messageJob env doc = .ok (some b) := by
  obtain ⟨height, tall, nonzero⟩ := valid.lists.height
  obtain ⟨type, typed⟩ := valid.type
  obtain ⟨uses, epochs⟩ := valid.epochs height tall
  obtain ⟨jobid, numbered⟩ := valid.jobid
  obtain ⟨prepow, text⟩ := valid.prepow
  have header : jobHeader env res = .ok (some ⟨height, type, env.blockDiffBytes⟩) := by
    simp only [jobHeader, bind_eq_ok]
    refine ⟨height, tall, ?_⟩
    rw [if_neg nonzero]
    simp only [bind_eq_ok, getObjectMemberT_eq_ok, getArray_eq_ok]
    refine ⟨algo, valid.lists.algo, type, typed, .array items, valid.lists.listed, items, rfl,
      env.blockDiffBytes, blockDifficulty_of_none algo items _ valid.pairs none, ?_⟩
    rw [if_neg garbage]
    rfl
  refine ⟨⟨⟨height, type, env.blockDiffBytes⟩, uses, jobid, prepow⟩, ?_⟩
  simp [messageJob, valid.lists.kind, readJob, header, epochs, numbered, text, bind, Except.bind,
    pure, Except.pure]

theorem publishes_of_messageJob {b : JobBody} (valid : messageJob env doc = .ok (some b)) :
    ∃ job after, Publishes getEpochNumber n env doc job after := by
  have creates := createsJob_of_messageJob valid
  rcases runs_or_fails (procMessage getEpochNumber env doc) n with
    ⟨outcome, t, ran⟩ | ⟨e, t, failed⟩
  · rcases runs_procMessage n t env doc outcome ran with ⟨none, _⟩ | ⟨_, job, _, _, rfl, _⟩
    · rw [creates] at none
      cases none
    · exact ⟨job, t, ran⟩
  · rcases fails_procMessage n t env doc e failed with ⟨none, _⟩ | ⟨_, invalid, _⟩
    · rw [creates] at none
      cases none
    · rw [valid] at invalid
      cases invalid

theorem job_blockDiff (b : JobBody) : b.job.blockDiff = b.header.blockDiff :=
  congrArg JobData.blockDiff (storeAll_frame b.uses
    { JobData.zero with type := b.header.type, blockDiff := b.header.blockDiff })

theorem not_handled {res : Value} {algo : List UInt8} {items : List Value}
    (lists : Lists doc res algo items) (t : Node) :
    ¬ Runs (procMessage getEpochNumber env doc) n .handled t := by
  intro ran
  obtain ⟨height, tall, nonzero⟩ := lists.height
  rw [procMessage_eq, lift_ok_bind lists.kind] at ran
  simp only [jobMessage, lift_ok_bind tall, if_neg nonzero, runs_lift_bind] at ran
  obtain ⟨_, _, _, _, _, _, _, _, _, _, ran⟩ := ran
  split at ran
  · cases ((runs_pure _ _ _ _).mp ran).1
  · -- Whatever the twelve steps to the end do, the last one names a job.
    iterate 12
      obtain ⟨_, _, _, later⟩ := (runs_bind _ _ _ _ _).mp ran
      clear ran
      rename' later => ran
    cases ((runs_pure _ _ _ _).mp ran).1

theorem not_assertion {res : Value} {algo : List UInt8} {items : List Value}
    (lists : Lists doc res algo items) (t : Node) :
    ¬ Fails (procMessage getEpochNumber env doc) n .assertion t := by
  intro failed
  have typed : KindTyped (messageKind doc) := by
    rw [lists.kind]
    refine ⟨safe_pure _, ?_⟩
    intro other same
    cases same
    obtain ⟨height, tall, _⟩ := lists.height
    exact object_of_getJsonUInt tall
  exact (fails_assertion_iff n env doc).mp ⟨t, failed⟩ typed

theorem published_or_rejects {res : Value} {algo : List UInt8} {items : List Value}
    (lists : Lists doc res algo items) :
    (∃ job after, Publishes getEpochNumber n env doc job after) ∨
      Rejects getEpochNumber n env doc := by
  rcases runs_or_fails (procMessage getEpochNumber env doc) n with
    ⟨outcome, t, ran⟩ | ⟨e, t, failed⟩
  · cases outcome with
    | handled => exact absurd ran (not_handled lists t)
    | reconnect => exact .inr (.inl ⟨t, ran⟩)
    | published job => exact .inl ⟨job, t, ran⟩
  · cases e with
    | parseError what => exact .inr (.inr ⟨what, t, failed⟩)
    | assertion => exact absurd failed (not_assertion lists t)

theorem not_difficultyFromMessage {res : Value} {algo : List UInt8} {items : List Value}
    (valid : OtherwiseValid doc res algo items) (none : entriesFor algo items = [])
    (garbage : env.blockDiffBytes ≠ 0) : ¬ DifficultyFromMessage getEpochNumber n env doc := by
  intro fromMessage
  obtain ⟨b, whole⟩ := messageJob_of_otherwiseValid valid none garbage
  obtain ⟨job, after, published⟩ := publishes_of_messageJob whole
  obtain ⟨_, _, _, entry, lists, last, _⟩ := fromMessage.published job after published
  obtain ⟨rfl, rfl, rfl⟩ := lists_unique valid.lists lists
  rw [none] at last
  cases last

end Messages

section Runs

variable {getEpochNumber : UInt64 → Int32} {s : NodeRun}
  (reached : (NodeRun.system getEpochNumber).Reachable s) (env : MessageEnv) (doc : Value)

include reached

theorem published_lists {job : JobData} {after : Node}
    (published : Publishes getEpochNumber s.node env doc job after) :
    ∃ res algo items, OtherwiseValid doc res algo items ∧ job.blockDiff ≠ 0 ∧
      ((entriesFor algo items = [] ∧ job.blockDiff = env.blockDiffBytes) ∨
        ∃ entry, (entriesFor algo items).getLast? = some entry ∧ IsWord64 entry job.blockDiff) := by
  have fresh := (NodeRun.reachable_publishedAlive reached).1.fresh
  rcases runs_procMessage s.node after env doc _ published with
    ⟨_, other, _⟩ | ⟨b, made, _, valid, same, rest⟩
  · exact absurd rfl (other job)
  cases same
  obtain ⟨rfl, _⟩ := rest fresh
  obtain ⟨res, said⟩ := said_of_messageJob valid
  obtain ⟨algo, items, lists, typed, tall, summed, hard⟩ := jobHeader_lists said.kind said.header
  obtain ⟨pairs, last⟩ := blockDifficulty_last algo items _ _ summed
  rw [job_blockDiff]
  refine ⟨res, algo, items, ⟨lists, ⟨_, typed⟩, pairs, ?_, ⟨_, said.jobid⟩, ⟨_, said.prepow⟩⟩,
    hard, last⟩
  intro height read
  cases tall.symm.trans read
  exact ⟨_, said.epochs⟩

theorem published_entry {job : JobData} {after : Node}
    (condition : ListsItsAlgorithm doc ∨ env.blockDiffBytes = 0 ∨
      ¬ ∃ res algo items, OtherwiseValid doc res algo items)
    (published : Publishes getEpochNumber s.node env doc job after) :
    ∃ res algo items entry, Lists doc res algo items ∧
      (entriesFor algo items).getLast? = some entry ∧ IsWord64 entry job.blockDiff ∧
      job.blockDiff ≠ 0 := by
  obtain ⟨res, algo, items, valid, hard, last⟩ := published_lists reached env doc published
  rcases last with ⟨none, same⟩ | ⟨entry, found, valued⟩
  · exfalso
    rcases condition with ⟨res', algo', items', lists, some⟩ | zero | invalid
    · obtain ⟨rfl, rfl, rfl⟩ := lists_unique valid.lists lists
      exact some none
    · exact hard (same.trans zero)
    · exact invalid ⟨res, algo, items, valid⟩
  · exact ⟨res, algo, items, entry, valid.lists, found, valued, hard⟩

/-- The published difficulty comes from the message unless the message has no entry for
its algorithm, is valid otherwise, and finds other than zero in the variable. -/
theorem difficultyFromMessage_iff :
    DifficultyFromMessage getEpochNumber s.node env doc ↔
      ListsItsAlgorithm doc ∨ env.blockDiffBytes = 0 ∨
        ¬ ∃ res algo items, OtherwiseValid doc res algo items := by
  constructor
  · intro fromMessage
    by_contra neither
    simp only [not_or, not_not] at neither
    obtain ⟨unlisted, garbage, res, algo, items, valid⟩ := neither
    have none : entriesFor algo items = [] := by
      by_contra some
      exact unlisted ⟨res, algo, items, valid.lists, some⟩
    exact not_difficultyFromMessage valid none garbage fromMessage
  · intro condition
    constructor
    · intro job after published
      exact published_entry reached env doc condition published
    · intro res algo items lists none
      apply (published_or_rejects lists).resolve_left
      rintro ⟨job, after, published⟩
      obtain ⟨_, _, _, entry, others, last, _⟩ :=
        published_entry reached env doc condition published
      obtain ⟨rfl, rfl, rfl⟩ := lists_unique lists others
      rw [none] at last
      cases last

end Runs

section Listings

def listingResult (items : List Value) : Value :=
  .object [(ascii "height", plainNumber 5), (ascii "algorithm", plainString "randomx"),
    (ascii "block_difficulty", .array items),
    (ascii "epochs", .array [plainEpoch 0 100 7]),
    (ascii "job_id", plainNumber 3), (ascii "pre_pow", .string (List.replicate 8 0x30))]

def listingMessage (items : List Value) : Value :=
  .object [(ascii "id", plainString "Stratum"), (ascii "method", plainString "job"),
    (ascii "params", listingResult items)]

theorem listingMessage_lists (items : List Value) :
    Lists (listingMessage items) (listingResult items) (ascii "randomx") items :=
  ⟨rfl, ⟨5, getJsonUInt_of_isWord rfl (plainNumber_isWord 5), by decide⟩, rfl, rfl⟩

def plainPair (algo : String) (diff : UInt8) : Value := .array [plainString algo, plainNumber diff]

/-- The second of two entries counts, and the entry of another algorithm does not. -/
theorem difficultyFromMessage_listing :
    DifficultyFromMessage (fun _ => 0) plainNode ⟨77, 0⟩
      (listingMessage [plainPair "randomx" 8, plainPair "randomx" 10, plainPair "cuckoo" 9]) := by
  refine (difficultyFromMessage_iff (.start rfl) ⟨77, 0⟩ (listingMessage _)).mpr
    (.inl ⟨_, _, _, listingMessage_lists _, ?_⟩)
  have entries : entriesFor (ascii "randomx") [plainPair "randomx" 8, plainPair "randomx" 10,
      plainPair "cuckoo" 9] = [plainNumber 8, plainNumber 10] := rfl
  rw [entries]
  simp

def publishedDiff (env : MessageEnv) (doc : Value) : Option UInt64 :=
  match Id.run ((procMessage (fun _ => 0) env doc).run.run plainNode) with
  | (.ok (.published job), _) => some job.blockDiff
  | _ => none

theorem publishes_of_publishedDiff {env : MessageEnv} {doc : Value} {d : UInt64}
    (found : publishedDiff env doc = some d) :
    ∃ job after, Publishes (fun _ => 0) plainNode env doc job after ∧ job.blockDiff = d := by
  unfold publishedDiff at found
  split at found
  · rename_i job after ended
    exact ⟨job, after, ended, Option.some.inj found⟩
  · cases found

/-- A message that lists no difficulty for its algorithm is published with the bytes of
the variable. -/
theorem stray_difficulty :
    (∃ job after, Publishes (fun _ => 0) plainNode ⟨77, 0⟩
      (listingMessage [plainPair "cuckoo" 10]) job after ∧ job.blockDiff = 77) ∧
    ¬ DifficultyFromMessage (fun _ => 0) plainNode ⟨77, 0⟩
      (listingMessage [plainPair "cuckoo" 10]) := by
  have published := publishes_of_publishedDiff
    (show publishedDiff ⟨77, 0⟩ (listingMessage [plainPair "cuckoo" 10]) = some 77 by
      decide +kernel)
  refine ⟨published, ?_⟩
  intro fromMessage
  obtain ⟨job, after, posted, _⟩ := published
  obtain ⟨res, algo, items, entry, lists, last, _⟩ := fromMessage.published job after posted
  obtain ⟨rfl, rfl, rfl⟩ := lists_unique (listingMessage_lists _) lists
  have none : entriesFor (ascii "randomx") [plainPair "cuckoo" 10] = [] := rfl
  rw [none] at last
  cases last

end Listings

end Node

end EpicPoold
