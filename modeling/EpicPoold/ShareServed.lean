import EpicPoold.ShareChecks

/-! A share whose dataset is loaded is hashed: whatever is loaded into the other slot in the
meantime, its worker finds the slot and is not refused. -/

namespace EpicPoold

open Foundations Hashpool

namespace Hashpool

variable {K : PoolKind}

/-- Why the dataset threads of a slot never publish an id that nobody has asked the slot
for. -/
structure Sparing (K : PoolKind) where
  clearData : UInt64 → K.Data → Prop
  clearPhase : UInt64 → K.Phase → Prop
  assign_clear : ∀ id request data, K.requestId request ≠ id →
    clearData id (K.assign request data)
  entry_clear : ∀ id, clearPhase id K.entry
  body_data : ∀ id loaded data phase, clearData id data →
    clearData id (K.body loaded data phase).1
  body_next : ∀ id loaded data phase data' next, loaded ≠ id → clearData id data →
    clearPhase id phase → K.body loaded data phase = (data', .inl next) → clearPhase id next
  body_stored : ∀ id loaded data phase data' stored, loaded ≠ id → clearData id data →
    clearPhase id phase → K.body loaded data phase = (data', .inr stored) → stored ≠ id

section Distinct

variable {s t : State K}

/-- The request in progress, and how many slots has_dataset has looked at for it. -/
def sought : NodePc K → Option (K.Request × Nat)
  | .hasDataset request k => some (request, k)
  | .fetchAdd request => some (request, 2)
  | .storeReady request _ => some (request, 2)
  | .assignSeed request _ => some (request, 2)
  | .storeLoaded request _ => some (request, 2)
  | _ => none

/-- A request is for an id that no slot has, and so no two slots are loaded with one id. -/
structure Distinct (s : State K) : Prop where
  missing : ∀ request k, sought s.node = some (request, k) → ∀ i : SlotIdx, i.val < k →
    (s.ds i).loadedId ≠ K.requestId request
  apart : ∀ i j, i ≠ j → (s.ds i).loadedId = (s.ds j).loadedId → (s.ds i).loadedId = invalidId

theorem Distinct.advanced (before : Distinct s)
    (loaded : ∀ i, (t.ds i).loadedId = (s.ds i).loadedId)
    (kept : ∀ request k, sought t.node = some (request, k) → sought s.node = some (request, k)) :
    Distinct t := by
  constructor
  · intro request k asked i inside
    rw [loaded]
    exact before.missing request k (kept request k asked) i inside
  · intro i j other same
    rw [loaded, loaded] at same
    rw [loaded]
    exact before.apart i j other same

theorem Distinct.frame (before : Distinct s) (node : t.node = s.node)
    (loaded : ∀ i, (t.ds i).loadedId = (s.ds i).loadedId) : Distinct t := by
  refine before.advanced loaded ?_
  intro request k asked
  rwa [node] at asked

theorem loaded_setSlot {i : SlotIdx} {slot : Slot K} (same : slot.loadedId = (s.ds i).loadedId)
    (j : SlotIdx) : ((s.setSlot i slot).ds j).loadedId = (s.ds j).loadedId := by
  rcases eq_or_ne j i with rfl | other
  · simp only [State.setSlot, Function.update_self, same]
  · simp only [State.setSlot, Function.update_of_ne other]

theorem nodeStep_distinct (before : Distinct s) (stepped : nodeStep s = some t) : Distinct t := by
  unfold nodeStep at stepped
  cases here : s.node with
  | idle => simp [here] at stepped
  | hasDataset request k =>
      have missing := before.missing request k (by rw [here]; rfl)
      simp only [here] at stepped
      split at stepped
      · rename_i inside
        split at stepped
        · cases stepped
          exact ⟨fun _ _ none => (by cases none), before.apart⟩
        · rename_i differs
          cases stepped
          refine ⟨?_, before.apart⟩
          intro other k' asked i looked
          cases asked
          rcases Nat.lt_succ_iff_lt_or_eq.mp looked with earlier | last
          · exact missing i earlier
          · have this : i = ⟨k, inside⟩ := Fin.ext last
            rwa [this]
      · rename_i outside
        cases stepped
        refine ⟨?_, before.apart⟩
        intro other k' asked i _
        cases asked
        exact missing i (by omega)
  | fetchAdd request =>
      simp only [here] at stepped
      cases stepped
      refine before.advanced (fun _ => rfl) ?_
      intro other k asked
      rw [here]
      exact asked
  | storeReady request i | assignSeed request i =>
      simp only [here] at stepped
      cases stepped
      refine before.advanced (loaded_setSlot rfl) ?_
      intro other k asked
      rw [here]
      exact asked
  | storeLoaded request i =>
      have missing := before.missing request 2 (by rw [here]; rfl)
      simp only [here] at stepped
      cases stepped
      refine ⟨fun _ _ none => (by cases none), ?_⟩
      intro j k other same
      simp only [State.setSlot, Function.update_apply] at same ⊢
      split_ifs at same ⊢ with first second
      · exact absurd (first.trans second.symm) other
      · exact absurd same.symm (missing k k.isLt)
      · exact absurd same (missing j j.isLt)
      · exact before.apart j k other same
  | spawn i =>
      simp only [here] at stepped
      cases stepped
      exact ⟨fun _ _ none => (by cases none), before.apart⟩

theorem datasetStep_frame {k : Nat} (stepped : datasetStep s k = some t) :
    t.node = s.node ∧ ∀ i, (t.ds i).loadedId = (s.ds i).loadedId := by
  unfold datasetStep at stepped
  split at stepped
  · cases stepped
  · rename_i thd present
    cases here : thd.pc with
    | lock =>
        simp only [here] at stepped
        obtain ⟨mtx, _, rfl⟩ := Option.map_eq_some_iff.mp stepped
        exact ⟨rfl, loaded_setSlot rfl⟩
    | inside phase =>
        simp only [here] at stepped
        split at stepped
        · cases stepped
          exact ⟨rfl, loaded_setSlot rfl⟩
        · cases stepped
          exact ⟨rfl, loaded_setSlot rfl⟩
    | unlock =>
        simp only [here] at stepped
        cases stepped
        exact ⟨rfl, loaded_setSlot rfl⟩
    | done => simp [here] at stepped

theorem next_distinct {a : Action K} (before : Distinct s) (stepped : next s a = some t) :
    Distinct t := by
  cases a with
  | request request =>
      simp only [next] at stepped
      split at stepped
      · cases stepped
        refine ⟨?_, before.apart⟩
        intro other k asked i looked
        cases asked
        exact absurd looked (Nat.not_lt_zero _)
      · cases stepped
  | node => exact nodeStep_distinct before stepped
  | dataset k =>
      obtain ⟨node, loaded⟩ := datasetStep_frame stepped
      exact before.frame node loaded
  | pushJob job =>
      cases stepped
      exact before.frame rfl (fun _ => rfl)
  | worker w =>
      have quiet := workerMoved_quiet (workerStep_moved stepped)
      exact before.frame quiet.node quiet.loadedId

theorem reachable_distinct (reached : (system K).Reachable s) : Distinct s := by
  refine reached.invariant Distinct ?_ (fun _ _ _ _ before stepped => next_distinct before stepped)
  intro s start
  constructor
  · intro request k asked
    rw [start.idle] at asked
    cases asked
  · intro i _ _ _
    exact (start.slots i).2.1

end Distinct

section Spared

variable {s t : State K}

def Keeps (i : SlotIdx) (s : State K) (a : Action K) : Prop :=
  a = .node → ∀ request, s.node ≠ .storeReady request i

def Active (s : State K) (j : SlotIdx) : Prop :=
  (∃ thd ∈ s.threads, thd.idx = j ∧ thd.pc ≠ .done) ∨ (∃ request, s.node = .storeLoaded request j) ∨
    s.node = .spawn j

/-- A slot is ready for an id, nobody works on it, and nobody makes the other slot ready for
that id. -/
structure Spared (D : Sparing K) (i : SlotIdx) (id : UInt64) (s : State K) : Prop where
  loaded : (s.ds i).loadedId = id
  ready : (s.ds i).readyId = id
  finished : ∀ thd ∈ s.threads, thd.idx = i → thd.pc = .done
  apart : ¬ Touching s i
  other : ∀ j, j ≠ i → (s.ds j).readyId ≠ id
  clear : ∀ j, j ≠ i → Active s j → D.clearData id (s.ds j).data
  inside : ∀ thd ∈ s.threads, ∀ phase, thd.pc = .inside phase → D.clearPhase id phase

variable {D : Sparing K} {i : SlotIdx} {id : UInt64}

theorem mem_setThread {k : Nat} {thd other : DatasetThd K} {pc : DatasetPc K}
    (present : s.threads[k]? = some thd) (among : other ∈ (s.setThread k pc).threads) :
    other ∈ s.threads ∨ other = { thd with pc := pc } := by
  obtain ⟨u, listed⟩ := List.mem_iff_getElem?.mp among
  rw [setThread_getElem?] at listed
  obtain ⟨old, found, made⟩ := Option.map_eq_some_iff.mp listed
  split at made
  · rename_i same
    subst same
    cases present.symm.trans found
    exact .inr made.symm
  · subst made
    exact .inl (List.mem_of_getElem? found)

theorem Spared.frame (before : Spared D i id s) (quiet : Quiet s t) : Spared D i id t := by
  have active : ∀ j, Active t j → Active s j := by
    intro j
    rw [Active, Active, quiet.node, quiet.threads]
    exact fun reads => reads
  refine ⟨?_, ?_, ?_, ?_, ?_, ?_, ?_⟩
  · rw [quiet.loadedId, before.loaded]
  · rw [quiet.readyId, before.ready]
  · rw [quiet.threads]
    exact before.finished
  · rw [Touching, quiet.node]
    exact before.apart
  · intro j other
    rw [quiet.readyId]
    exact before.other j other
  · intro j other reads
    rw [quiet.data]
    exact before.clear j other (active j reads)
  · rw [quiet.threads]
    exact before.inside

theorem Spared.running (before : Spared D i id s) {k : Nat} {thd : DatasetThd K}
    (present : s.threads[k]? = some thd) (running : thd.pc ≠ .done) :
    thd.idx ≠ i ∧ D.clearData id (s.ds thd.idx).data := by
  have member := List.mem_of_getElem? present
  have elsewhere : thd.idx ≠ i := fun own => running (before.finished thd member own)
  exact ⟨elsewhere, before.clear _ elsewhere (.inl ⟨thd, member, rfl, running⟩)⟩

theorem Spared.threaded (before : Spared D i id s) {k : Nat} {thd : DatasetThd K}
    (present : s.threads[k]? = some thd) (running : thd.pc ≠ .done) (slot : Slot K)
    (pc : DatasetPc K) (ready : slot.readyId ≠ id) (clear : D.clearData id slot.data)
    (inside : ∀ phase, pc = .inside phase → D.clearPhase id phase) :
    Spared D i id ((s.setSlot thd.idx slot).setThread k pc) := by
  have elsewhere := (before.running present running).1
  have here : ((s.setSlot thd.idx slot).setThread k pc).ds i = s.ds i :=
    Function.update_of_ne elsewhere.symm ..
  refine ⟨?_, ?_, ?_, before.apart, ?_, ?_, ?_⟩
  · rw [here, before.loaded]
  · rw [here, before.ready]
  · intro other among own
    rcases mem_setThread (s := s.setSlot thd.idx slot) present among with old | rfl
    · exact before.finished other old own
    · exact absurd own elsewhere
  · intro j other
    simp only [State.setThread, State.setSlot, Function.update_apply]
    split_ifs with own
    · exact ready
    · exact before.other j other
  · intro j other reads
    simp only [State.setThread, State.setSlot, Function.update_apply]
    split_ifs with own
    · exact clear
    · refine before.clear j other ?_
      rcases reads with ⟨mine, among, idx, runs⟩ | loading
      · rcases mem_setThread (s := s.setSlot thd.idx slot) present among with old | rfl
        · exact .inl ⟨mine, old, idx, runs⟩
        · exact absurd idx.symm own
      · exact .inr loading
  · intro other among phase now
    rcases mem_setThread (s := s.setSlot thd.idx slot) present among with old | rfl
    · exact before.inside other old phase now
    · exact inside phase now

theorem Spared.loading (before : Spared D i id s) {j : SlotIdx} (elsewhere : i ≠ j) (slot : Slot K)
    (node : NodePc K) (ready : slot.readyId = (s.ds j).readyId ∨ slot.readyId ≠ id)
    (apart : ∀ k, Touching { s.setSlot j slot with node := node } k → k = j)
    (clear : Active { s.setSlot j slot with node := node } j → D.clearData id slot.data) :
    Spared D i id { s.setSlot j slot with node := node } := by
  have here : (s.setSlot j slot).ds i = s.ds i := Function.update_of_ne elsewhere ..
  refine ⟨?_, ?_, before.finished, fun touched => elsewhere (apart i touched), ?_, ?_,
    before.inside⟩
  · change ((s.setSlot j slot).ds i).loadedId = id
    rw [here, before.loaded]
  · change ((s.setSlot j slot).ds i).readyId = id
    rw [here, before.ready]
  · intro k other
    simp only [State.setSlot, Function.update_apply]
    split_ifs with own
    · rcases ready with same | differs
      · rw [same, ← own]
        exact before.other k other
      · exact differs
    · exact before.other k other
  · intro k other reads
    simp only [State.setSlot, Function.update_apply]
    split_ifs with own
    · exact clear (own ▸ reads)
    · refine before.clear k other ?_
      rcases reads with running | ⟨request, loads⟩ | spawns
      · exact .inl running
      · exact absurd (apart k (.inr (.inl ⟨request, loads⟩))) own
      · exact absurd (apart k (.inr (.inr spawns))) own

theorem Touching.unique {j k : SlotIdx} (one : Touching s j) (other : Touching s k) : j = k := by
  rcases one with ⟨_, node⟩ | ⟨_, node⟩ | node
  all_goals
    rcases other with ⟨_, own⟩ | ⟨_, own⟩ | own
    all_goals
      cases node.symm.trans own
      try rfl

theorem moved_spared {a : Action K} (before : Spared D i id s) (distinct : Distinct s)
    (valid : id ≠ invalidId) (keeps : Keeps i s a) (moved : Moved s a t) : Spared D i id t := by
  have foreign : ∀ j, j ≠ i → (s.ds j).loadedId ≠ id := by
    intro j other same
    have none := distinct.apart i j other.symm (before.loaded.trans same.symm)
    exact valid (before.loaded.symm.trans none)
  have unlike : ∀ request k, sought s.node = some (request, k) → i.val < k →
      K.requestId request ≠ id := by
    intro request k asked looked same
    exact distinct.missing request k asked i looked (before.loaded.trans same.symm)
  cases moved with
  | nodeQuiet _ pc dsCtr quiet =>
      have apart := quiet.apart (s := s) (t := { s with node := pc, dsCtr := dsCtr }) i rfl rfl
      refine ⟨before.loaded, before.ready, before.finished, apart.2, before.other, ?_,
        before.inside⟩
      intro j other reads
      have still := quiet.apart (s := s) (t := { s with node := pc, dsCtr := dsCtr }) j rfl rfl
      refine before.clear j other ?_
      rcases reads with running | ⟨request, loads⟩ | spawns
      · exact .inl running
      · exact absurd (.inr (.inl ⟨request, loads⟩)) still.2
      · exact absurd (.inr (.inr spawns)) still.2
  | retracted request j here =>
      have elsewhere : i ≠ j := by
        rintro rfl
        exact keeps rfl request here
      refine before.loading elsewhere _ _ (.inr valid.symm) ?_ ?_
      · intro k touched
        exact touched.unique (.inl ⟨request, rfl⟩)
      · intro reads
        refine before.clear j elsewhere.symm ?_
        rcases reads with running | ⟨_, loads⟩ | spawns
        · exact .inl running
        · cases loads
        · cases spawns
  | assigned request j here =>
      have elsewhere : i ≠ j := by
        rintro rfl
        exact before.apart (.inl ⟨request, here⟩)
      refine before.loading elsewhere _ _ (.inl rfl) ?_ ?_
      · intro k touched
        exact touched.unique (.inr (.inl ⟨request, rfl⟩))
      · intro _
        exact D.assign_clear id request _ (unlike request 2 (by rw [here]; rfl) i.isLt)
  | loaded request j here =>
      have elsewhere : i ≠ j := by
        rintro rfl
        exact before.apart (.inr (.inl ⟨request, here⟩))
      refine before.loading elsewhere _ _ (.inl rfl) ?_ ?_
      · intro k touched
        exact touched.unique (.inr (.inr rfl))
      · intro _
        exact before.clear j elsewhere.symm (.inr (.inl ⟨request, here⟩))
  | spawned j here =>
      have elsewhere : i ≠ j := by
        rintro rfl
        exact before.apart (.inr (.inr here))
      refine ⟨before.loaded, before.ready, ?_, by simp [Touching], before.other, ?_, ?_⟩
      · intro thd among own
        rcases List.mem_append.mp among with old | new
        · exact before.finished thd old own
        · cases List.mem_singleton.mp new
          exact absurd own.symm elsewhere
      · intro k other reads
        refine before.clear k other ?_
        rcases reads with ⟨thd, among, idx, runs⟩ | ⟨_, loads⟩ | spawns
        · rcases List.mem_append.mp among with old | new
          · exact .inl ⟨thd, old, idx, runs⟩
          · cases List.mem_singleton.mp new
            exact .inr (.inr (idx ▸ here))
        · cases loads
        · cases spawns
      · intro thd among phase now
        rcases List.mem_append.mp among with old | new
        · exact before.inside thd old phase now
        · cases List.mem_singleton.mp new
          cases now
  | locked k thd mtx present here free nobody taken still =>
      obtain ⟨elsewhere, clear⟩ := before.running present (by simp [here])
      refine before.threaded present (by simp [here]) _ _ (before.other _ elsewhere) clear ?_
      intro phase now
      cases now
      exact D.entry_clear id
  | worked k thd phase data next present here ran =>
      obtain ⟨elsewhere, clear⟩ := before.running present (by simp [here])
      have kept := D.body_data id (s.ds thd.idx).loadedId _ phase clear
      rw [ran] at kept
      refine before.threaded present (by simp [here]) _ _ (before.other _ elsewhere) kept ?_
      intro later now
      cases now
      exact D.body_next id _ _ phase data _ (foreign _ elsewhere) clear
        (before.inside thd (List.mem_of_getElem? present) phase here) ran
  | stored k thd phase data stored present here ran =>
      obtain ⟨elsewhere, clear⟩ := before.running present (by simp [here])
      have kept := D.body_data id (s.ds thd.idx).loadedId _ phase clear
      rw [ran] at kept
      refine before.threaded present (by simp [here]) _ _ ?_ kept (fun _ now => by cases now)
      exact D.body_stored id _ _ phase data stored (foreign _ elsewhere) clear
        (before.inside thd (List.mem_of_getElem? present) phase here) ran
  | unlocked k thd present here =>
      obtain ⟨elsewhere, clear⟩ := before.running present (by simp [here])
      exact before.threaded present (by simp [here]) _ _ (before.other _ elsewhere) clear
        (fun _ now => by cases now)
  | pushed job => exact before.frame (quiet_of_ds rfl rfl rfl)
  | worker w _ moved => exact before.frame (workerMoved_quiet moved)

theorem spared_at_rest {S : Settling K} (ok : ∀ j, SlotOk S s j) (rest : AtRest s)
    (distinct : Distinct s) (valid : (s.ds i).loadedId ≠ invalidId) :
    Spared D i (s.ds i).loadedId s := by
  have idle : ∀ thd ∈ s.threads, thd.pc = .done := rest.2
  refine ⟨rfl, (slot_at_rest ok rest i).1, fun thd among _ => idle thd among, ?_, ?_, ?_, ?_⟩
  · simp [Touching, rest.1]
  · intro j other same
    rw [(slot_at_rest ok rest j).1] at same
    exact valid (distinct.apart i j other.symm same.symm)
  · intro j _ reads
    rcases reads with ⟨thd, among, _, runs⟩ | ⟨_, loads⟩ | spawns
    · exact absurd (idle thd among) runs
    · rw [rest.1] at loads
      cases loads
    · rw [rest.1] at spawns
      cases spawns
  · intro thd among phase now
    rw [idle thd among] at now
    cases now

end Spared

end Hashpool

/-- What a pool owes for its slots to settle does not depend on whose jobs are hashed. -/
def Hashpool.Settling.tagged {K : PoolKind} (S : Settling K) (T : Type) :
    Settling (K.tagged T) where
  valid := S.valid
  fits := S.fits
  built := S.built
  good := S.good
  valid_id := S.valid_id
  assign_fits := S.assign_fits
  entry_good := S.entry_good
  body_fits := S.body_fits
  body_good := S.body_good
  body_built := S.body_built

def Hashpool.Sparing.tagged {K : PoolKind} (D : Sparing K) (T : Type) : Sparing (K.tagged T) where
  clearData := D.clearData
  clearPhase := D.clearPhase
  assign_clear := D.assign_clear
  entry_clear := D.entry_clear
  body_data := D.body_data
  body_next := D.body_next
  body_stored := D.body_stored

namespace ShareChecks

variable {K : PoolKind} {T : Type}

section Workers

variable {p q : Hashpool.State (K.tagged T)} {D : Sparing (K.tagged T)} {i : SlotIdx} {id : UInt64}

def Finds (i : SlotIdx) : WorkerPc (K.tagged T) → Prop
  | .scan _ k => k ≤ i.val
  | .lockShared _ j => j = i
  | .recheck _ j => j = i
  | .hash _ j => j = i
  | .finish _ _ used => used.isSome = true
  | _ => True

theorem next_workers {a : Hashpool.Action (K.tagged T)} (stepped : Hashpool.next p a = some q) :
    q.workers = p.workers ∨
      ∃ w pc, a = .worker w ∧ q.workers = Function.update p.workers w pc := by
  cases Hashpool.next_moved stepped with
  | worker w _ moved =>
      right
      cases moved with
      | popped | found | passed | missed | sharedLocked | refused | confirmed | hashed | failed
      | finished | released => exact ⟨w, _, rfl, rfl⟩
  | nodeQuiet | retracted | assigned | loaded | spawned | locked | worked | stored | unlocked
  | pushed => exact .inl rfl

theorem workerStep_finds (spared : Spared D i id p) {w : Fin hashThdCount} (job : T × K.Job)
    (mine : K.jobId job.2 = id)
    (before : jobOf (p.workers w) = some job → Finds i (p.workers w))
    (stepped : workerStep p w = some q) (has : jobOf (q.workers w) = some job) :
    Finds i (q.workers w) := by
  unfold workerStep at stepped
  cases here : p.workers w with
  | pop =>
      simp only [here] at stepped
      split at stepped
      · cases stepped
      · cases stepped
        simp only [State.setWorker, Function.update_self]
        exact Nat.zero_le _
  | scan own k =>
      simp only [here] at stepped before
      split at stepped
      · rename_i inside
        split at stepped
        · rename_i ready
          cases stepped
          simp only [State.setWorker, Function.update_self] at has ⊢
          cases has
          by_contra elsewhere
          exact spared.other _ elsewhere (ready.trans mine)
        · rename_i differs
          cases stepped
          simp only [State.setWorker, Function.update_self] at has ⊢
          cases has
          have reached : k ≤ i.val := before rfl
          have passes : k ≠ i.val := by
            rintro rfl
            exact differs (spared.ready.trans mine.symm)
          exact Nat.lt_of_le_of_ne reached passes
      · rename_i outside
        cases stepped
        simp only [State.setWorker, Function.update_self] at has ⊢
        cases has
        have reached : k ≤ i.val := before rfl
        omega
  | lockShared own j =>
      simp only [here] at stepped before
      obtain ⟨mtx, _, rfl⟩ := Option.map_eq_some_iff.mp stepped
      simp only [State.setWorker, Function.update_self] at has ⊢
      cases has
      exact before rfl
  | recheck own j =>
      simp only [here] at stepped before
      split at stepped
      · rename_i refused
        cases stepped
        simp only [State.setWorker, Function.update_self] at has ⊢
        cases has
        have same : j = i := before rfl
        rw [same] at refused
        exact absurd (spared.ready.trans mine.symm) refused
      · cases stepped
        simp only [State.setWorker, Function.update_self] at has ⊢
        cases has
        exact before rfl
  | hash own j =>
      simp only [here] at stepped
      cases stepped
      simp only [State.setWorker, Function.update_self]
      rfl
  | finish own j used =>
      simp only [here] at stepped
      cases stepped
      simp only [State.setWorker, Function.update_self] at has ⊢
      cases j with
      | none => trivial
      | some j => trivial
  | unlockShared j =>
      simp only [here] at stepped
      cases stepped
      simp only [State.setWorker, Function.update_self]
      trivial

end Workers

section Served

variable [DecidableEq T] {D : Sparing (K.tagged T)} {i : SlotIdx} {id : UInt64} {t : T}
  {base : List (T × K.Job × Finished (K.tagged T))} {s u : ShareChecks K T}

/-- No job of this thread misses the slot, and none of its checks since then has failed. -/
structure Served (i : SlotIdx) (id : UInt64) (t : T)
    (base : List (T × K.Job × Finished (K.tagged T))) (s : ShareChecks K T) : Prop where
  finds : ∀ w job, jobOf (s.pool.workers w) = some (t, job) → K.jobId job = id →
    Finds i (s.pool.workers w)
  answered : ∀ job report, s.caller t = .answered job report → K.jobId job = id →
    report.error = false
  returned : ∃ later, s.returned = base ++ later ∧
    ∀ job report, (t, job, report) ∈ later → K.jobId job = id → report.error = false

omit [DecidableEq T] in
theorem reportOf_error {pc : WorkerPc (K.tagged T)} {report : Finished (K.tagged T)}
    (ready : reportOf pc = some report) (finds : Finds i pc) : report.error = false := by
  cases pc with
  | finish job j used =>
      cases ready
      change used.isSome = true at finds
      change used.isNone = false
      rw [Option.isNone_eq_false_iff, finds]
  | pop | scan _ _ | lockShared _ _ | recheck _ _ | hash _ _ | unlockShared _ => cases ready

theorem Served.pooled (before : Served i id t base s) (owned : Owned s)
    (spared : Spared D i id s.pool) {a : Hashpool.Action (K.tagged T)}
    {q : Hashpool.State (K.tagged T)} (inner : ofPool a = true)
    (stepped : Hashpool.next s.pool a = some q) : Served i id t base (s.afterPool a q) := by
  have finds : ∀ w job, jobOf (q.workers w) = some (t, job) → K.jobId job = id →
      Finds i (q.workers w) := by
    intro w job has mine
    rcases next_workers stepped with same | ⟨v, pc, rfl, changed⟩
    · rw [same] at has ⊢
      exact before.finds w job has mine
    · by_cases own : w = v
      · subst own
        exact workerStep_finds spared (t, job) mine
          (fun had => before.finds w job had mine) stepped has
      · rw [changed, Function.update_of_ne own] at has ⊢
        exact before.finds w job has mine
  cases next_handled inner stepped with
  | still jobs held silent reports =>
      rw [afterPool_silent silent]
      exact ⟨finds, before.answered, before.returned⟩
  | popped w job rest own front jobs free held others silent reports =>
      rw [afterPool_silent (fun v same => by
        rw [own] at same
        cases same
        exact silent)]
      exact ⟨finds, before.answered, before.returned⟩
  | finished w report own jobs ready held free others reports =>
      cases own
      rw [afterPool_delivered ready (owned.held w report.job.1 report.job.2 held)]
      refine ⟨finds, ?_, before.returned⟩
      intro job other told mine
      simp only at told
      by_cases same : t = report.job.1
      · subst same
        rw [Function.update_self] at told
        cases told
        exact reportOf_error ready (before.finds w _ held mine)
      · rw [Function.update_of_ne same] at told
        exact before.answered job other told mine

def Keeps (i : SlotIdx) (s : ShareChecks K T) (a : ShareAction K T) : Prop :=
  ∀ b, a = .pool b → Hashpool.Keeps i s.pool b

theorem next_served {a : ShareAction K T} (before : Served i id t base s) (owned : Owned s)
    (spared : Spared D i id s.pool) (stepped : next s a = some u) : Served i id t base u := by
  cases next_moved stepped with
  | checked v job here =>
      refine ⟨before.finds, ?_, before.returned⟩
      intro work report told mine
      simp only at told
      by_cases own : t = v
      · subst own
        rw [Function.update_self] at told
        cases told
      · rw [Function.update_of_ne own] at told
        exact before.answered work report told mine
  | woken v job report here =>
      refine ⟨before.finds, ?_, ?_⟩
      · intro work other told mine
        simp only at told
        by_cases own : t = v
        · subst own
          rw [Function.update_self] at told
          cases told
        · rw [Function.update_of_ne own] at told
          exact before.answered work other told mine
      · obtain ⟨later, split, fine⟩ := before.returned
        refine ⟨later ++ [(v, job, report)], by rw [split, List.append_assoc], ?_⟩
        intro work other among mine
        rcases List.mem_append.mp among with early | last
        · exact fine work other early mine
        · cases List.mem_singleton.mp last
          exact before.answered job report here mine
  | pooled b q inner ran => exact before.pooled owned spared inner ran

theorem next_spared {a : ShareAction K T} (before : Spared D i id s.pool)
    (distinct : Distinct s.pool) (valid : id ≠ invalidId) (keeps : Keeps i s a)
    (stepped : next s a = some u) : Spared D i id u.pool := by
  cases next_moved stepped with
  | checked v job here => exact before.frame (quiet_of_ds rfl rfl rfl)
  | woken v job report here => exact before
  | pooled b q inner ran =>
      rw [afterPool_pool]
      exact moved_spared before distinct valid (keeps b rfl) (Hashpool.next_moved ran)

/-- From a pool at rest on: as long as a loaded slot is not given away, no check of a share
that belongs there, begun in the meantime, ends in an error. -/
def Serves (s : ShareChecks K T) : Prop :=
  ∀ i u v t, (s.pool.ds i).loadedId ≠ invalidId → (system K T).LeadsUnder (Keeps i) s u →
    u.caller t = .outside → (system K T).LeadsUnder (Keeps i) u v →
    ∃ later, v.returned = u.returned ++ later ∧
      ∀ job report, (t, job, report) ∈ later → K.jobId job = (s.pool.ds i).loadedId →
        report.error = false

theorem serves_of_atRest (S : Settling K) (D : Sparing K) (reached : (system K T).Reachable s)
    (rest : AtRest s.pool) : Serves s := by
  intro i u v t valid toU outside toV
  have pool := pool_reachable reached
  have slots := (reachable_slots (S.tagged T) s.pool pool).2
  have ready : Spared (D.tagged T) i (s.pool.ds i).loadedId s.pool :=
    spared_at_rest slots rest (reachable_distinct pool) valid
  let Sound (w : ShareChecks K T) : Prop :=
    (system K T).Reachable w ∧ Spared (D.tagged T) i (s.pool.ds i).loadedId w.pool
  have keep : ∀ w a x, Sound w → Keeps i w a → (system K T).next w a = some x → Sound x := by
    rintro w a x ⟨known, spared⟩ keeps stepped
    refine ⟨.step known trivial stepped, ?_⟩
    exact next_spared spared (reachable_distinct (pool_reachable known)) valid keeps stepped
  have sound : Sound u := toU.invariant Sound ⟨reached, ready⟩ keep
  have begun : Served i (s.pool.ds i).loadedId t u.returned u := by
    refine ⟨?_, ?_, [], (List.append_nil _).symm, by simp⟩
    · intro w job has
      have waits := (reachable_owned sound.1).held w t job has
      rw [outside] at waits
      cases waits
    · intro job report told
      rw [outside] at told
      cases told
  have last := toV.invariant
    (fun w => Sound w ∧ Served i (s.pool.ds i).loadedId t u.returned w) ⟨sound, begun⟩ (by
      rintro w a x ⟨sound, served⟩ keeps stepped
      exact ⟨keep w a x sound keeps stepped,
        next_served served (reachable_owned sound.1) sound.2 stepped⟩)
  exact last.2.returned

end Served

end ShareChecks

namespace RxHashpool

def sparing : Sparing kind where
  clearData id d := d.dsSeed.getId ≠ id
  clearPhase id
    | .storeReady stored => stored ≠ id
    | _ => True
  assign_clear _ _ _ differs := differs
  entry_clear _ := trivial
  body_data id loaded d phase clear := by
    cases phase with
    | initCache => exact clear
    | getId => exact clear
    | storeReady stored => exact clear
  body_next id loaded d phase d' next _ clear _ ran := by
    cases phase with
    | initCache =>
        cases ran
        trivial
    | getId =>
        cases ran
        exact clear
    | storeReady stored => cases ran
  body_stored id loaded d phase d' stored _ _ held ran := by
    cases phase with
    | initCache => cases ran
    | getId => cases ran
    | storeReady read =>
        cases ran
        exact held

end RxHashpool

namespace PpHashpool

def sparing (getEpochNumber : UInt64 → Int32) (heights : UInt64 → Prop) :
    Sparing (kind getEpochNumber heights) where
  clearData _ _ := True
  clearPhase id
    | .loadEpoch => True
    | .destroy epoch => epoch ≠ id
    | .create epoch => epoch ≠ id
    | .storeReady epoch => epoch ≠ id
  assign_clear _ _ _ _ := trivial
  entry_clear _ := trivial
  body_data _ _ _ _ _ := trivial
  body_next id loaded d phase d' next differs _ held ran := by
    cases phase with
    | loadEpoch =>
        cases ran
        exact differs
    | destroy epoch =>
        simp only [datasetThdMain] at ran
        split at ran
        · cases ran
          exact held
        · cases ran
          exact held
    | create epoch =>
        cases ran
        exact held
    | storeReady epoch => cases ran
  body_stored id loaded d phase d' stored _ _ held ran := by
    cases phase with
    | loadEpoch => cases ran
    | destroy epoch =>
        simp only [datasetThdMain] at ran
        split at ran
        · cases ran
        · cases ran
    | create epoch => cases ran
    | storeReady epoch =>
        cases ran
        exact held

end PpHashpool

namespace ShareChecks

/-- With either pool, no share is refused whose dataset has_dataset reports, now and until the
share is hashed. -/
theorem shares_served (T : Type) [DecidableEq T] (getEpochNumber : UInt64 → Int32)
    (heights : UInt64 → Prop) :
    (∀ s, (system RxHashpool.kind T).Reachable s → AtRest s.pool → Serves s) ∧
      ∀ s, (system (PpHashpool.kind getEpochNumber heights) T).Reachable s → AtRest s.pool →
        Serves s :=
  ⟨fun _ => serves_of_atRest RxHashpool.settling RxHashpool.sparing,
    fun _ => serves_of_atRest (PpHashpool.settling getEpochNumber heights)
      (PpHashpool.sparing getEpochNumber heights)⟩

def onceLoaded (s : ShareChecks K T) : Bool :=
  restedAfter 1 s.pool && (List.finRange 2).any (fun i => (s.pool.ds i).loadedId != invalidId)

theorem onceLoaded_spec (s : ShareChecks K T) (loaded : onceLoaded s = true) :
    AtRest s.pool ∧ ∃ i, (s.pool.ds i).loadedId ≠ invalidId := by
  obtain ⟨rested, valid⟩ := (Bool.and_eq_true _ _).mp loaded
  obtain ⟨i, _, differs⟩ := List.any_eq_true.mp valid
  exact ⟨(atRest_of_restedAfter 1 s.pool rested).1, i, by simpa using differs⟩

theorem shares_served_after_load :
    (∃ s : ShareChecks RxHashpool.kind (Fin 2),
      (∃ i, (s.pool.ds i).loadedId ≠ invalidId) ∧ Serves s) ∧
      ∃ s : ShareChecks ppKind (Fin 2), (∃ i, (s.pool.ds i).loadedId ≠ invalidId) ∧ Serves s := by
  have serves := shares_served (Fin 2) PpHashpool.epochOf30000 (· = 29999)
  constructor
  · obtain ⟨s, reached, loaded⟩ := System.exists_reachable (S := system RxHashpool.kind (Fin 2))
      (fresh_start (⟨V32.setAllZero, none⟩ : RxDataset) rfl)
      (load (RxHashpool.uniformSeed 1) 0 5) onceLoaded (by decide +kernel)
    obtain ⟨rest, valid⟩ := onceLoaded_spec s loaded
    exact ⟨s, valid, serves.1 s reached rest⟩
  · obtain ⟨s, reached, loaded⟩ := System.exists_reachable (S := system ppKind (Fin 2))
      (fresh_start (⟨none, []⟩ : PpDataset) rfl) (load (29999 : UInt64) 0 6) onceLoaded
      (by decide +kernel)
    obtain ⟨rest, valid⟩ := onceLoaded_spec s loaded
    exact ⟨s, valid, serves.2 s reached rest⟩

end ShareChecks

end EpicPoold
