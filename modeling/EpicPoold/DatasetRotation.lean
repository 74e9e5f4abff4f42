import EpicPoold.NodeRuns

/-! Which datasets stay when the two slots of a pool are refilled in turn: those of the
last job message, and those of a growing chain. -/

namespace EpicPoold

open Foundations

namespace DatasetSlots

def Loaded (d : DatasetSlots) (id : UInt64) : Prop := ∃ i, (d.slots i).loadedId = id

theorem nextSlot_lt (d : DatasetSlots) : d.dsCtr.toNat % 2 < 2 := Nat.mod_lt _ (by decide)

def nextSlot (d : DatasetSlots) : SlotIdx := ⟨d.dsCtr.toNat % 2, d.nextSlot_lt⟩

theorem hasDataset_iff (d : DatasetSlots) (id : UInt64) : d.hasDataset id = true ↔ d.Loaded id := by
  simp only [hasDataset, Loaded, Bool.or_eq_true, beq_iff_eq, Fin.exists_fin_two]
  exact or_congr eq_comm eq_comm

theorem require_of_loaded {d : DatasetSlots} {id : UInt64} (loaded : d.Loaded id) :
    d.require id = d := by
  rw [require, if_pos ((hasDataset_iff d id).mpr loaded)]

theorem require_of_absent {d : DatasetSlots} {id : UInt64} (absent : ¬ d.Loaded id) :
    d.require id = ⟨Function.update d.slots d.nextSlot ⟨id, invalidId⟩, d.dsCtr + 1⟩ := by
  have missing : ¬ d.hasDataset id = true := fun has => absent ((hasDataset_iff d id).mp has)
  rw [require, if_neg missing]
  rfl

theorem nextSlot_succ (d : DatasetSlots) (slots : SlotIdx → SlotIds) :
    nextSlot ⟨slots, d.dsCtr + 1⟩ ≠ d.nextSlot := by
  intro same
  have parity := congrArg Fin.val same
  have one : (1 : UInt64).toNat = 1 := rfl
  simp only [nextSlot, UInt64.toNat_add, one] at parity
  omega

theorem eq_of_ne_of_ne {i j k : SlotIdx} (first : i ≠ k) (second : j ≠ k) : i = j := by
  decide +revert

structure Replaced (d : DatasetSlots) (id : UInt64) (after : DatasetSlots) : Prop where
  filled : (after.slots d.nextSlot).loadedId = id
  kept : ∀ i, i ≠ d.nextSlot → after.slots i = d.slots i
  turned : after.nextSlot ≠ d.nextSlot

theorem require_replaced {d : DatasetSlots} {id : UInt64} (absent : ¬ d.Loaded id) :
    Replaced d id (d.require id) := by
  rw [require_of_absent absent]
  refine ⟨by simp, ?_, nextSlot_succ d _⟩
  intro i other
  simp [Function.update_of_ne other]

theorem require_loaded (d : DatasetSlots) (id : UInt64) : (d.require id).Loaded id := by
  by_cases loaded : d.Loaded id
  · rw [require_of_loaded loaded]
    exact loaded
  · exact ⟨d.nextSlot, (require_replaced loaded).filled⟩

/-- The first id is in the slot filled next, in no other, and the second is in none. -/
def Evicts (d : DatasetSlots) (first second : UInt64) : Prop :=
  (d.slots d.nextSlot).loadedId = first ∧ (∀ i, i ≠ d.nextSlot → (d.slots i).loadedId ≠ first) ∧
    ¬ d.Loaded second

/-- A second load removes what the first one found exactly when the counter points to
it. -/
theorem require_require_loaded_iff (d : DatasetSlots) (first second : UInt64) :
    ((d.require first).require second).Loaded first ↔ ¬ Evicts d first second := by
  by_cases found : d.Loaded first
  · rw [require_of_loaded found]
    by_cases present : d.Loaded second
    · rw [require_of_loaded present]
      exact iff_of_true found (fun evicts => evicts.2.2 present)
    · obtain ⟨filled, kept, _⟩ := require_replaced present
      constructor
      · rintro ⟨i, holds⟩ ⟨_, elsewhere, _⟩
        by_cases victim : i = d.nextSlot
        · rw [victim, filled] at holds
          exact present (holds ▸ found)
        · rw [kept i victim] at holds
          exact elsewhere i victim holds
      · intro spared
        by_contra gone
        refine spared ⟨?_, ?_, present⟩
        · obtain ⟨i, holds⟩ := found
          by_cases victim : i = d.nextSlot
          · rwa [victim] at holds
          · exact absurd ⟨i, by rw [kept i victim, holds]⟩ gone
        · intro i other holds
          exact gone ⟨i, by rw [kept i other, holds]⟩
  · have spared : ¬ Evicts d first second := fun evicts => found ⟨_, evicts.1⟩
    refine iff_of_true ?_ spared
    obtain ⟨filled, _, turned⟩ := require_replaced found
    by_cases present : (d.require first).Loaded second
    · rw [require_of_loaded present]
      exact ⟨_, filled⟩
    · obtain ⟨_, kept, _⟩ := require_replaced present
      exact ⟨d.nextSlot, by rw [kept _ turned.symm, filled]⟩

end DatasetSlots

namespace NodeRun

open Node DatasetSlots

/-- The datasets of a job are in the slots: that of its seed and, if its message listed
a following epoch, that of its next seed. -/
def DatasetsKept (b : JobBody) (n : Node) : Prop :=
  n.rx.Loaded b.job.rxSeed.getId ∧
    ((∃ seed, .following seed ∈ b.uses) → n.rx.Loaded b.job.rxNextSeed.getId)

/-- The message lists the current and the following epoch, the dataset of the one listed
first is in the slot filled next, and that of the other is not there. -/
def EvictsOwn (d : DatasetSlots) (uses : List EpochUse) : Prop :=
  ∃ first second, uses = [first, second] ∧ first.isCurrent ≠ second.isCurrent ∧
    d.Evicts first.id second.id

theorem kept_iff_of_rx {n : Node} {d : DatasetSlots} {b : JobBody} (rx : n.rx = d) :
    DatasetsKept b n ↔ d.Loaded b.job.rxSeed.getId ∧
      ((∃ seed, .following seed ∈ b.uses) → d.Loaded b.job.rxNextSeed.getId) := by
  rw [DatasetsKept, rx]

theorem evictsOwn_pair (d : DatasetSlots) (first second : EpochUse) :
    EvictsOwn d [first, second] ↔
      first.isCurrent ≠ second.isCurrent ∧ d.Evicts first.id second.id := by
  constructor
  · rintro ⟨one, other, same, evicts⟩
    simp only [List.cons.injEq, and_true] at same
    rw [same.1, same.2]
    exact evicts
  · intro evicts
    exact ⟨first, second, rfl, evicts⟩

section Kept

variable {seed next : V32}

theorem single_kept (d : DatasetSlots) (only : EpochUse)
    (current : ([only].filterMap EpochUse.current?).getLast? = some seed) :
    (d.require only.id).Loaded seed.getId ∧
      ((∃ other, .following other ∈ [only]) → (d.require only.id).Loaded next.getId) := by
  cases only with
  | following _ => cases current
  | current a =>
      have same : some a = some seed := current
      rw [← Option.some.inj same]
      refine ⟨require_loaded d a.getId, ?_⟩
      rintro ⟨other, impossible⟩
      simp at impossible

/-- Of two epochs the one listed last is always kept, so all depends on the first. -/
theorem pair_kept_iff (d : DatasetSlots) (first second : EpochUse)
    (current : ([first, second].filterMap EpochUse.current?).getLast? = some seed)
    (following : next =
      ([first, second].filterMap EpochUse.following?).getLast?.getD .setAllZero) :
    (((d.require first.id).require second.id).Loaded seed.getId ∧
      ((∃ other, .following other ∈ [first, second]) →
        ((d.require first.id).require second.id).Loaded next.getId)) ↔
      ¬ (first.isCurrent ≠ second.isCurrent ∧ d.Evicts first.id second.id) := by
  have last : ((d.require first.id).require second.id).Loaded second.id := require_loaded _ _
  have pair := require_require_loaded_iff d first.id second.id
  cases first with
  | current a =>
      cases second with
      | current c =>
          have same : some c = some seed := current
          rw [← Option.some.inj same]
          refine iff_of_true ⟨last, ?_⟩ (fun evicts => evicts.1 rfl)
          rintro ⟨other, impossible⟩
          simp at impossible
      | following c =>
          have same : some a = some seed := current
          have listed : ∃ other, EpochUse.following other ∈ [.current a, .following c] :=
            ⟨c, by simp⟩
          have differ : (EpochUse.current a).isCurrent ≠ (EpochUse.following c).isCurrent := by
            simp [EpochUse.isCurrent]
          have other : next = c := following
          rw [← Option.some.inj same, other, forall_prop_of_true listed]
          calc
            _ ↔ ((d.require a.getId).require c.getId).Loaded a.getId := and_iff_left last
            _ ↔ ¬ d.Evicts a.getId c.getId := pair
            _ ↔ _ := not_congr (and_iff_right differ).symm
  | following a =>
      cases second with
      | current c =>
          have same : some c = some seed := current
          have listed : ∃ other, EpochUse.following other ∈ [.following a, .current c] :=
            ⟨a, by simp⟩
          have differ : (EpochUse.following a).isCurrent ≠ (EpochUse.current c).isCurrent := by
            simp [EpochUse.isCurrent]
          have other : next = a := following
          rw [← Option.some.inj same, other, forall_prop_of_true listed]
          calc
            _ ↔ ((d.require a.getId).require c.getId).Loaded a.getId := and_iff_right last
            _ ↔ ¬ d.Evicts a.getId c.getId := pair
            _ ↔ _ := not_congr (and_iff_right differ).symm
      | following c => cases current

end Kept

theorem requireAll_kept_iff (d : DatasetSlots) (b : JobBody) (n : Node)
    (rx : n.rx = d.requireAll (b.uses.map EpochUse.id)) (read : SetFrom b b.job)
    (sized : b.uses.length = 1 ∨ b.uses.length = 2) :
    DatasetsKept b n ↔ ¬ EvictsOwn d b.uses := by
  have current := read.rxSeed
  have following := read.rxNextSeed
  rw [kept_iff_of_rx rx]
  generalize b.uses = uses at current following sized ⊢
  rcases uses with _ | ⟨first, _ | ⟨second, _ | ⟨third, rest⟩⟩⟩
  · simp at sized
  · apply iff_of_true (single_kept d first current)
    rintro ⟨_, _, impossible, _⟩
    simp at impossible
  · rw [evictsOwn_pair]
    exact pair_kept_iff d first second current following
  · simp at sized

/-- Both datasets of an accepted message are kept exactly when its second load does not
evict the first, in every run. -/
theorem datasets_kept_iff {getEpochNumber : UInt64 → Int32} {s t : NodeRun} {env : MessageEnv}
    {doc : Value} {b : JobBody} (reached : (system getEpochNumber).Reachable s)
    (valid : messageJob env doc = .ok (some b))
    (stepped : (system getEpochNumber).next s (.message env doc) = some t) :
    DatasetsKept b t.node ↔ ¬ EvictsOwn s.node.rx b.uses := by
  have fresh := (reachable_publishedAlive reached).1.fresh
  change next getEpochNumber s (.message env doc) = some t at stepped
  simp only [next] at stepped
  split at stepped
  · cases messageStep_stepped fresh stepped with
    | quiet receiving effects none =>
        rw [createsJob_of_messageJob valid] at none
        cases none
    | rejected e fill rx pp effects created invalid =>
        rw [valid] at invalid
        cases invalid
    | published other effects said =>
        have same : b = other := by
          rw [valid] at said
          simpa using said
        subst same
        exact requireAll_kept_iff s.node.rx b _ rfl (setFrom_of_messageJob valid)
          (messageJob_uses valid)
  · cases stepped

/-- A job message of height 5 with these epochs: first block, last block, and the byte
that its seed repeats. -/
def seedMessage (epochs : List (UInt8 × UInt8 × UInt8)) : Value :=
  .object [(ascii "id", plainString "Stratum"), (ascii "method", plainString "job"),
    (ascii "params", .object [(ascii "height", plainNumber 5),
      (ascii "algorithm", plainString "randomx"),
      (ascii "block_difficulty", .array [.array [plainString "randomx", plainNumber 10]]),
      (ascii "epochs", .array (epochs.map (fun epoch => .array [plainNumber epoch.1,
        plainNumber epoch.2.1, .array (List.replicate 32 (plainNumber epoch.2.2))]))),
      (ascii "job_id", plainNumber 3),
      (ascii "pre_pow", plainString "00000000")])]

def accepts (doc : Value) (check : JobBody → NodeRun → Bool) (s : NodeRun) : Bool :=
  match messageJob ⟨0, 0⟩ doc, next (fun _ => 0) s (.message ⟨0, 0⟩ doc) with
  | .ok (some b), some t => check b t
  | _, _ => false

theorem accepts_eq_true {doc : Value} {check : JobBody → NodeRun → Bool} {s : NodeRun}
    (passed : accepts doc check s = true) :
    ∃ b t, messageJob ⟨0, 0⟩ doc = .ok (some b) ∧
      (system (fun _ => 0)).next s (.message ⟨0, 0⟩ doc) = some t ∧ check b t = true := by
  rw [accepts] at passed
  split at passed
  · rename_i b t valid stepped
    exact ⟨b, t, valid, stepped, passed⟩
  · cases passed

/-- The first message of all loads both of its seeds. -/
theorem datasets_kept_at_first :
    ∃ s t b, (system (fun _ => 0)).next s
        (.message ⟨0, 0⟩ (seedMessage [(0, 100, 1), (100, 200, 2)])) = some t ∧
      b.uses.length = 2 ∧ DatasetsKept b t.node := by
  obtain ⟨s, reached, passed⟩ := System.exists_reachable (S := system (fun _ => 0)) rfl
    [.connected 0]
    (fun s => (s.node.rx.slots s.node.rx.nextSlot).loadedId == invalidId &&
      accepts (seedMessage [(0, 100, 1), (100, 200, 2)]) (fun b _ => b.uses.length == 2) s)
    (by decide +kernel)
  simp only [Bool.and_eq_true, beq_iff_eq] at passed
  obtain ⟨b, t, valid, stepped, two⟩ := accepts_eq_true passed.2
  refine ⟨s, t, b, stepped, by simpa using two, (datasets_kept_iff reached valid stepped).mpr ?_⟩
  rintro ⟨first, _, _, _, there, _⟩
  rw [passed.1] at there
  exact first.seed.getId_ne_invalid there.symm

/-- The seeds 1 and 2 are in the slots, and the next message lists 1 and then 3. -/
theorem own_dataset_evicted :
    ∃ s t b, (system (fun _ => 0)).Reachable s ∧
      messageJob ⟨0, 0⟩ (seedMessage [(0, 100, 1), (100, 200, 3)]) = .ok (some b) ∧
      (system (fun _ => 0)).next s
        (.message ⟨0, 0⟩ (seedMessage [(0, 100, 1), (100, 200, 3)])) = some t ∧
      ¬ DatasetsKept b t.node := by
  obtain ⟨s, reached, passed⟩ := System.exists_reachable (S := system (fun _ => 0)) rfl
    [.connected 0, .message ⟨0, 0⟩ (seedMessage [(0, 100, 1)]),
      .message ⟨0, 0⟩ (seedMessage [(0, 100, 2)])]
    (accepts (seedMessage [(0, 100, 1), (100, 200, 3)])
      (fun b t => !t.node.rx.hasDataset b.job.rxSeed.getId))
    (by decide +kernel)
  obtain ⟨b, t, valid, stepped, missing⟩ := accepts_eq_true passed
  refine ⟨s, t, b, reached, valid, stepped, ?_⟩
  rintro ⟨kept, _⟩
  rw [(hasDataset_iff _ _).mpr kept] at missing
  cases missing

end NodeRun

namespace DatasetSlots

open PpHashpool

def empty : DatasetSlots := ⟨fun _ => ⟨invalidId, invalidId⟩, 0⟩

section Chain

variable (getEpochNumber : UInt64 → Int32)

def blockId (blockNumber : UInt64) : UInt64 := epochId (getEpochNumber blockNumber)

def notifyBlock (d : DatasetSlots) (blockNumber : UInt64) : DatasetSlots :=
  d.requireAll ((PpHashpool.notifyBlock blockNumber).map (blockId getEpochNumber))

/-- The node's own notify_block is this one on its ProgPoW slots. -/
theorem runs_notifyBlock (n t : Node) (blockNumber : UInt64) (u : Unit) :
    Runs (Node.notifyBlock getEpochNumber blockNumber) n u t ↔
      ({ n with pp := n.pp.notifyBlock getEpochNumber blockNumber } : Node) = t := by
  rw [Node.notifyBlock, runs_modify, notifyBlock, requireAll, List.foldl_map]
  exact Iff.rfl

/-- ethash::get_epoch_number on the heights in use. -/
structure EpochsGrow (heights : UInt64 → Prop) : Prop where
  nonneg : ∀ height, heights height → 0 ≤ getEpochNumber height
  mono : ∀ low high, heights low → heights high → low ≤ high →
    getEpochNumber low ≤ getEpochNumber high

/-- What a call of notify_block finds and leaves: both epochs are loaded, and the slot
that the first one is in after its notify_epoch is as it was after the second. -/
structure Served (before after : DatasetSlots) (height : UInt64) : Prop where
  current : after.Loaded (blockId getEpochNumber height)
  following : after.Loaded (blockId getEpochNumber (height + 1))
  undisturbed : ∃ i, ((before.require (blockId getEpochNumber height)).slots i).loadedId =
      blockId getEpochNumber height ∧
    after.slots i = (before.require (blockId getEpochNumber height)).slots i

/-- Between calls: the slot not filled next holds the later of the two epochs, and no
slot holds one that is later still. -/
structure Settled (d : DatasetSlots) (height : UInt64) : Prop where
  current : d.Loaded (blockId getEpochNumber height)
  following : d.Loaded (blockId getEpochNumber (height + 1))
  newest : height < height + 1 → ∀ i, i ≠ d.nextSlot →
    (d.slots i).loadedId = blockId getEpochNumber (height + 1)
  bound : height < height + 1 → ∀ i,
    toEpoch (d.slots i).loadedId ≤ getEpochNumber (height + 1)

variable {getEpochNumber} {heights : UInt64 → Prop}

theorem toEpoch_blockId (height : UInt64) :
    toEpoch (blockId getEpochNumber height) = getEpochNumber height :=
  toEpoch_epochId _

theorem absent_of_bound {d : DatasetSlots} {bound : Int32} {height : UInt64}
    (below : ∀ i, toEpoch (d.slots i).loadedId ≤ bound) (later : bound < getEpochNumber height) :
    ¬ d.Loaded (blockId getEpochNumber height) := by
  rintro ⟨i, holds⟩
  have known := below i
  rw [holds, toEpoch_blockId] at known
  exact absurd later (Int32.not_lt.mpr known)

theorem require_keeps {d : DatasetSlots} {id : UInt64} {i : SlotIdx} (other : i ≠ d.nextSlot) :
    (d.require id).slots i = d.slots i := by
  by_cases loaded : d.Loaded id
  · rw [require_of_loaded loaded]
  · exact (require_replaced loaded).kept i other

/-- After the first notify_epoch of a call: the epoch of the height is where the second
one does not reach, and no slot holds a later one. -/
structure Fetched (getEpochNumber : UInt64 → Int32) (d : DatasetSlots) (height : UInt64)
    (i : SlotIdx) : Prop where
  holds : (d.slots i).loadedId = blockId getEpochNumber height
  safe : i ≠ d.nextSlot
  bound : ∀ j, toEpoch (d.slots j).loadedId ≤ getEpochNumber height

theorem fetched_of_absent {d : DatasetSlots} {height : UInt64}
    (absent : ¬ d.Loaded (blockId getEpochNumber height))
    (bound : ∀ j, toEpoch (d.slots j).loadedId ≤ getEpochNumber height) :
    Fetched getEpochNumber (d.require (blockId getEpochNumber height)) height d.nextSlot := by
  obtain ⟨filled, kept, turned⟩ := require_replaced absent
  refine ⟨filled, turned.symm, ?_⟩
  intro j
  by_cases same : j = d.nextSlot
  · rw [same, filled, toEpoch_blockId]
    exact Int32.le_refl _
  · rw [kept j same]
    exact bound j

theorem served_of_fetched {d : DatasetSlots} {height : UInt64} {i : SlotIdx}
    (fetched : Fetched getEpochNumber (d.require (blockId getEpochNumber height)) height i) :
    Served getEpochNumber d (d.notifyBlock getEpochNumber height) height where
  current := ⟨i, by
    change (((d.require (blockId getEpochNumber height)).require
      (blockId getEpochNumber (height + 1))).slots i).loadedId = _
    rw [require_keeps fetched.safe, fetched.holds]⟩
  following := require_loaded _ _
  undisturbed := ⟨i, fetched.holds, require_keeps fetched.safe⟩

/-- The second notify_epoch leaves the slots settled. -/
theorem settled_of_fetched (grows : EpochsGrow getEpochNumber heights) {d : DatasetSlots}
    {height : UInt64} {i : SlotIdx} (here : heights height) (next : heights (height + 1))
    (fetched : Fetched getEpochNumber (d.require (blockId getEpochNumber height)) height i) :
    Settled getEpochNumber (d.notifyBlock getEpochNumber height) height := by
  have served := served_of_fetched fetched
  change Settled getEpochNumber ((d.require (blockId getEpochNumber height)).require
    (blockId getEpochNumber (height + 1))) height
  refine ⟨served.current, served.following, ?_, ?_⟩
  · intro below j other
    have later := grows.mono height (height + 1) here next (UInt64.le_of_lt below)
    generalize d.require (blockId getEpochNumber height) = e at fetched other ⊢
    by_cases loaded : e.Loaded (blockId getEpochNumber (height + 1))
    · rw [require_of_loaded loaded] at other ⊢
      obtain ⟨k, holds⟩ := loaded
      have bound := fetched.bound k
      rw [holds, toEpoch_blockId] at bound
      have same : getEpochNumber (height + 1) = getEpochNumber height :=
        Int32.le_antisymm bound later
      rw [eq_of_ne_of_ne other fetched.safe, fetched.holds, blockId, blockId, same]
    · obtain ⟨filled, _, turned⟩ := require_replaced loaded
      rw [eq_of_ne_of_ne other turned.symm, filled]
  · intro below j
    have later := grows.mono height (height + 1) here next (UInt64.le_of_lt below)
    generalize d.require (blockId getEpochNumber height) = e at fetched ⊢
    by_cases loaded : e.Loaded (blockId getEpochNumber (height + 1))
    · rw [require_of_loaded loaded]
      exact Int32.le_trans (fetched.bound j) later
    · obtain ⟨filled, kept, _⟩ := require_replaced loaded
      by_cases same : j = e.nextSlot
      · rw [same, filled, toEpoch_blockId]
        exact Int32.le_refl _
      · rw [kept j same]
        exact Int32.le_trans (fetched.bound j) later

theorem fetched_empty (grows : EpochsGrow getEpochNumber heights) {height : UInt64}
    (here : heights height) :
    ∃ i, Fetched getEpochNumber (empty.require (blockId getEpochNumber height)) height i := by
  refine ⟨_, fetched_of_absent ?_ ?_⟩
  · rintro ⟨i, holds⟩
    exact epochId_ne_invalid _ (grows.nonneg height here) holds.symm
  · intro j
    have below : toEpoch invalidId ≤ 0 := by decide
    exact Int32.le_trans below (grows.nonneg height here)

theorem succ_of_lt {low high : UInt64} (grown : low < high) :
    low < low + 1 ∧ low + 1 ≤ high := by
  have one : (1 : UInt64).toNat = 1 := rfl
  have fits := high.toNat_lt
  simp only [UInt64.lt_iff_toNat_lt, UInt64.le_iff_toNat_le, UInt64.toNat_add, one] at grown ⊢
  omega

theorem fetched_of_settled (grows : EpochsGrow getEpochNumber heights) {d : DatasetSlots}
    {last height : UInt64} (settled : Settled getEpochNumber d last) (before : heights (last + 1))
    (here : heights height) (grown : last < height) :
    ∃ i, Fetched getEpochNumber (d.require (blockId getEpochNumber height)) height i := by
  obtain ⟨room, reaches⟩ := succ_of_lt grown
  have later := grows.mono (last + 1) height before here reaches
  have bound : ∀ j, toEpoch (d.slots j).loadedId ≤ getEpochNumber height :=
    fun j => Int32.le_trans (settled.bound room j) later
  by_cases same : getEpochNumber height = getEpochNumber (last + 1)
  · obtain ⟨i, other⟩ := exists_ne d.nextSlot
    have holds : (d.slots i).loadedId = blockId getEpochNumber height := by
      rw [settled.newest room i other, blockId, blockId, same]
    refine ⟨i, ?_⟩
    rw [require_of_loaded ⟨i, holds⟩]
    exact ⟨holds, other, bound⟩
  · have absent := absent_of_bound (settled.bound room)
      (Int32.lt_of_le_of_ne later (Ne.symm same))
    exact ⟨_, fetched_of_absent absent bound⟩

theorem notifyBlock_of_settled {d : DatasetSlots} {height : UInt64}
    (settled : Settled getEpochNumber d height) : d.notifyBlock getEpochNumber height = d := by
  change (d.require (blockId getEpochNumber height)).require
    (blockId getEpochNumber (height + 1)) = d
  rw [require_of_loaded settled.current, require_of_loaded settled.following]

theorem served_of_settled {d : DatasetSlots} {height : UInt64}
    (settled : Settled getEpochNumber d height) :
    Served getEpochNumber d (d.notifyBlock getEpochNumber height) height := by
  rw [notifyBlock_of_settled settled]
  obtain ⟨i, holds⟩ := settled.current
  refine ⟨settled.current, settled.following, i, ?_, ?_⟩
  · rw [require_of_loaded settled.current, holds]
  · rw [require_of_loaded settled.current]

theorem served_and_settled (grows : EpochsGrow getEpochNumber heights) (earlier : List UInt64) :
    ∀ height : UInt64, (∀ b ∈ earlier ++ [height], heights b ∧ heights (b + 1)) →
      (earlier ++ [height]).Pairwise (· ≤ ·) →
      Served getEpochNumber (earlier.foldl (notifyBlock getEpochNumber) empty)
        ((earlier ++ [height]).foldl (notifyBlock getEpochNumber) empty) height ∧
      Settled getEpochNumber
        ((earlier ++ [height]).foldl (notifyBlock getEpochNumber) empty) height := by
  induction earlier using List.reverseRecOn with
  | nil =>
      intro height inside _
      obtain ⟨here, next⟩ := inside height (by simp)
      obtain ⟨i, fetched⟩ := fetched_empty grows here
      exact ⟨served_of_fetched fetched, settled_of_fetched grows here next fetched⟩
  | append_singleton earlier last ih =>
      intro height inside sorted
      obtain ⟨here, next⟩ := inside height (by simp)
      obtain ⟨_, lastNext⟩ := inside last (by simp)
      obtain ⟨sorted', _, ordered⟩ := List.pairwise_append.mp sorted
      obtain ⟨_, settled⟩ := ih last
        (fun b member => inside b (List.mem_append_left _ member)) sorted'
      rw [List.foldl_append (l := earlier ++ [last])]
      generalize (earlier ++ [last]).foldl (notifyBlock getEpochNumber) empty = d at settled ⊢
      change Served getEpochNumber d (d.notifyBlock getEpochNumber height) height ∧
        Settled getEpochNumber (d.notifyBlock getEpochNumber height) height
      have grown : last ≤ height := ordered last (by simp) height (by simp)
      rcases UInt64.lt_or_eq_of_le grown with later | same
      · obtain ⟨i, fetched⟩ := fetched_of_settled grows settled lastNext here later
        exact ⟨served_of_fetched fetched, settled_of_fetched grows here next fetched⟩
      · subst same
        refine ⟨served_of_settled settled, ?_⟩
        rw [notifyBlock_of_settled settled]
        exact settled

/-- The epoch slots follow a growing chain: in every sequence of non-decreasing heights
each call of notify_block is served. -/
theorem notifyBlock_served (grows : EpochsGrow getEpochNumber heights) (earlier : List UInt64)
    (height : UInt64) (inside : ∀ b ∈ earlier ++ [height], heights b ∧ heights (b + 1))
    (sorted : (earlier ++ [height]).Pairwise (· ≤ ·)) :
    Served getEpochNumber (earlier.foldl (notifyBlock getEpochNumber) empty)
      ((earlier ++ [height]).foldl (notifyBlock getEpochNumber) empty) height :=
  (served_and_settled grows earlier height inside sorted).1

def crossing : List UInt64 := [29999, 30000, 30000]

/-- With a jump to the end of a later epoch, these are the heights whose epochs are used. -/
def crossed : List UInt64 := crossing ++ [30001, 299999, 300000]

theorem crossed_grows : EpochsGrow epochOf30000 (· ∈ crossed) where
  nonneg := by
    have all : crossed.all (fun height => decide (0 ≤ epochOf30000 height)) = true := by decide
    intro height member
    exact of_decide_eq_true (List.all_eq_true.mp all height member)
  mono := by
    have all : crossed.all (fun low => crossed.all (fun high =>
        decide (low ≤ high → epochOf30000 low ≤ epochOf30000 high))) = true := by decide
    intro low high first second
    have row := List.all_eq_true.mp all low first
    exact of_decide_eq_true (List.all_eq_true.mp row high second)

/-- The block numbers that an int holds: get_epoch_number takes no others as they are. -/
def FitsInt (block : UInt64) : Prop := block.toNat < 2 ^ 31

theorem toInt_epochOf30000 {block : UInt64} (fits : FitsInt block) :
    (epochOf30000 block).toInt = block.toNat / 30000 := by
  rw [FitsInt] at fits
  have wide : block.toInt64.toInt = block.toNat := by
    change block.toBitVec.toInt = block.toBitVec.toNat
    apply BitVec.toInt_eq_toNat_of_lt
    rw [UInt64.toNat_toBitVec]
    omega
  have narrowed : (toEpoch block).toInt = block.toNat := by
    rw [toEpoch, Int64.toInt_toInt32, wide]
    exact Int.bmod_eq_of_le (by omega) (by omega)
  rw [epochOf30000, Int32.toInt_div_of_ne_right _ _ (by decide), narrowed]
  exact Int.tdiv_eq_ediv_of_nonneg (Int.natCast_nonneg _)

theorem fitsInt_grows : EpochsGrow epochOf30000 FitsInt where
  nonneg block fits := by
    rw [Int32.le_iff_toInt_le, toInt_epochOf30000 fits]
    exact Int.natCast_nonneg (block.toNat / 30000)
  mono low high lowFits highFits le := by
    rw [Int32.le_iff_toInt_le, toInt_epochOf30000 lowFits, toInt_epochOf30000 highFits]
    have grown := UInt64.le_iff_toNat_le.mp le
    omega

theorem notifyBlock_served_jump :
    Served epochOf30000 (crossing.foldl (notifyBlock epochOf30000) empty)
      ((crossing ++ [299999]).foldl (notifyBlock epochOf30000) empty) 299999 := by
  have inside : (crossing ++ [299999]).all
      (fun height => crossed.contains height && crossed.contains (height + 1)) = true := by decide
  refine notifyBlock_served crossed_grows crossing 299999 ?_ (by decide)
  intro height member
  have both := List.all_eq_true.mp inside height member
  simpa using both

end Chain

end DatasetSlots

end EpicPoold
