import EpicPoold.DatasetCalls

/-! As the chain grows, the node thread asks for the dataset in use and for the one after it.
The dataset in use is not given away before the chain has left it. -/

namespace EpicPoold

open Foundations Hashpool

namespace DatasetSlots

structure Window where
  current : UInt64
  following : UInt64

section Ranked

variable (rank : UInt64 → Int)

/-- The slot filled last has this id, and the other one an earlier. -/
structure Front (d : DatasetSlots) (id : UInt64) : Prop where
  newest : ∀ i, i ≠ d.nextSlot → (d.slots i).loadedId = id
  earlier : rank (d.slots d.nextSlot).loadedId < rank id

def InWindow (d : DatasetSlots) (w : Window) : Prop :=
  Front rank d w.current ∨
    (Front rank d w.following ∧ (d.slots d.nextSlot).loadedId = w.current)

variable {rank} {d : DatasetSlots} {id next : UInt64} {w : Window}

theorem Front.loaded (front : Front rank d id) : d.Loaded id := by
  obtain ⟨i, other⟩ := exists_ne d.nextSlot
  exact ⟨i, front.newest i other⟩

theorem InWindow.current (within : InWindow rank d w) : d.Loaded w.current := by
  rcases within with front | ⟨_, holds⟩
  · exact front.loaded
  · exact ⟨d.nextSlot, holds⟩

theorem front_of_absent (absent : ¬ d.Loaded id)
    (below : ∀ i, rank (d.slots i).loadedId < rank id) :
    Front rank (d.require id) id := by
  obtain ⟨filled, kept, turned⟩ := require_replaced absent
  constructor
  · intro i other
    rw [eq_of_ne_of_ne other turned.symm]
    exact filled
  · rw [kept _ turned]
    exact below _

theorem Front.require (front : Front rank d id) (notEarlier : rank id ≤ rank next)
    (apart : rank id = rank next → id = next) : Front rank (d.require next) next := by
  by_cases loaded : d.Loaded next
  · obtain ⟨i, holds⟩ := loaded
    rw [require_of_loaded ⟨i, holds⟩]
    by_cases oldest : i = d.nextSlot
    · have earlier := front.earlier
      rw [← oldest, holds] at earlier
      exact absurd earlier (not_lt.mpr notEarlier)
    · have same : id = next := (front.newest i oldest).symm.trans holds
      rwa [← same]
  · refine front_of_absent loaded ?_
    have later : rank id < rank next :=
      lt_of_le_of_ne notEarlier (fun same => loaded (apart same ▸ front.loaded))
    intro i
    by_cases oldest : i = d.nextSlot
    · rw [oldest]
      exact front.earlier.trans later
    · rw [front.newest i oldest]
      exact later

theorem InWindow.following (within : InWindow rank d w)
    (ordered : rank w.current ≤ rank w.following)
    (apart : rank w.current = rank w.following → w.current = w.following) :
    InWindow rank (d.require w.following) w := by
  rcases within with front | ⟨front, holds⟩
  · by_cases loaded : d.Loaded w.following
    · rw [require_of_loaded loaded]
      exact .inl front
    · refine .inr ⟨front.require ordered apart, ?_⟩
      obtain ⟨_, kept, turned⟩ := require_replaced loaded
      rw [kept _ turned, front.newest _ turned]
  · rw [require_of_loaded front.loaded]
    exact .inr ⟨front, holds⟩

theorem Front.safe (front : Front rank d next) {i : SlotIdx} (holds : (d.slots i).loadedId = id)
    (notEarlier : rank next ≤ rank id) : i ≠ d.nextSlot := by
  rintro rfl
  have earlier := front.earlier
  rw [holds] at earlier
  exact absurd earlier (not_lt.mpr notEarlier)

end Ranked

end DatasetSlots

namespace DatasetCalls

open DatasetSlots

structure Chain (K : PoolKind) (C : Type) where
  requests : C → List K.Request
  window : C → Window
  inUse : Set C
  ids : Set UInt64
  rank : UInt64 → Int
  asks : ∀ c, (requests c).map K.requestId = [(window c).current] ∨
    (requests c).map K.requestId = [(window c).current, (window c).following]
  current_mem : ∀ c ∈ inUse, (window c).current ∈ ids
  following_mem : ∀ c ∈ inUse, (window c).following ∈ ids
  ordered : ∀ c ∈ inUse, rank (window c).current ≤ rank (window c).following
  injective : Set.InjOn rank ids
  unset : ∀ id ∈ ids, rank invalidId < rank id

namespace Chain

variable {K : PoolKind} {T C : Type} (R : Chain K C)

/-- The same window again, or one that begins where it has ended or later. -/
def Later (last c : C) : Prop :=
  R.window c = R.window last ∨ R.rank (R.window last).following ≤ R.rank (R.window c).current

def Grows (s : DatasetCalls K T C) : CallAction K T C → Prop
  | .call c => c ∈ R.inUse ∧
      ∀ last ∈ R.inUse, s.calls.getLast? = some last → R.Later last c
  | _ => True

def Within (id : UInt64) (s : DatasetCalls K T C) (a : CallAction K T C) : Prop :=
  R.Grows s a ∧
    match a with
    | .call c => R.rank (R.window c).current ≤ R.rank id
    | _ => True

variable {R} {d : DatasetSlots} {last c : C}

theorem apart {id next : UInt64} (first : id ∈ R.ids) (second : next ∈ R.ids)
    (same : R.rank id = R.rank next) : id = next :=
  R.injective first second same

theorem inWindow_asked (used : c ∈ R.inUse)
    (within : InWindow R.rank (d.require (R.window c).current) (R.window c)) :
    InWindow R.rank (d.requireAll ((R.requests c).map K.requestId)) (R.window c) := by
  rcases R.asks c with one | two
  · rw [one]
    exact within
  · rw [two]
    exact within.following (R.ordered c used)
      (apart (R.current_mem c used) (R.following_mem c used))

theorem inWindow_first (used : c ∈ R.inUse) :
    InWindow R.rank (empty.requireAll ((R.requests c).map K.requestId)) (R.window c) := by
  apply inWindow_asked used
  have below := R.unset _ (R.current_mem c used)
  refine .inl (front_of_absent ?_ (fun _ => below))
  rintro ⟨i, holds⟩
  rw [← holds] at below
  exact absurd below (lt_irrefl _)

theorem front_later (begun : last ∈ R.inUse) (used : c ∈ R.inUse)
    (within : InWindow R.rank d (R.window last))
    (later : R.rank (R.window last).following ≤ R.rank (R.window c).current) :
    ∃ newest, Front R.rank d newest ∧ R.rank newest ≤ R.rank (R.window c).current ∧
      Front R.rank (d.require (R.window c).current) (R.window c).current := by
  rcases within with front | ⟨front, _⟩
  · have notEarlier := (R.ordered last begun).trans later
    exact ⟨_, front, notEarlier,
      front.require notEarlier (apart (R.current_mem last begun) (R.current_mem c used))⟩
  · exact ⟨_, front, later,
      front.require later (apart (R.following_mem last begun) (R.current_mem c used))⟩

theorem inWindow_next (begun : last ∈ R.inUse) (used : c ∈ R.inUse)
    (within : InWindow R.rank d (R.window last)) (later : R.Later last c) :
    InWindow R.rank (d.requireAll ((R.requests c).map K.requestId)) (R.window c) := by
  apply inWindow_asked used
  rcases later with same | later
  · rw [same, require_of_loaded within.current]
    exact within
  · obtain ⟨_, _, _, front⟩ := front_later begun used within later
    exact .inl front

theorem spares_next {i : SlotIdx} {id : UInt64} (begun : last ∈ R.inUse) (used : c ∈ R.inUse)
    (within : InWindow R.rank d (R.window last)) (later : R.Later last c)
    (notLeft : R.rank (R.window c).current ≤ R.rank id) (holds : (d.slots i).loadedId = id) :
    DatasetSlots.Spares i id d ((R.requests c).map K.requestId) := by
  -- the first request does not touch the slot, nor does the second one
  have kept : ((d.require (R.window c).current).slots i).loadedId = id ∧
      (((d.require (R.window c).current).require (R.window c).following).slots i).loadedId =
        id := by
    rcases later with same | later
    · rw [same] at notLeft ⊢
      rw [require_of_loaded within.current]
      refine ⟨holds, ?_⟩
      rcases within with front | ⟨front, _⟩
      · rwa [require_keeps (front.safe holds notLeft)]
      · rwa [require_of_loaded front.loaded]
    · obtain ⟨newest, front, notEarlier, fetched⟩ := front_later begun used within later
      have first : ((d.require (R.window c).current).slots i).loadedId = id := by
        rwa [require_keeps (front.safe holds (notEarlier.trans notLeft))]
      refine ⟨first, ?_⟩
      rwa [require_keeps (fetched.safe first notLeft)]
  rcases R.asks c with one | two
  · rw [one]
    exact ⟨holds, kept.1⟩
  · rw [two]
    exact ⟨holds, kept⟩

section Runs

variable [DecidableEq T] {s t : DatasetCalls K T C}

structure Follows (R : Chain K C) (s : DatasetCalls K T C) : Prop where
  sound : Sound R.requests s
  within : ∀ last, s.calls.getLast? = some last →
    last ∈ R.inUse ∧ InWindow R.rank s.settled (R.window last)

theorem start_follows (start : (system R.requests).start s) : R.Follows s := by
  refine ⟨start_sound start, ?_⟩
  intro last made
  rw [start.2.1] at made
  cases made

theorem next_follows {a : CallAction K T C} (before : R.Follows s) (grows : R.Grows s a)
    (stepped : next R.requests s a = some t) : R.Follows t := by
  have sound := next_sound before.sound stepped
  refine ⟨sound, ?_⟩
  intro last made
  rw [sound.settled]
  cases next_moved stepped with
  | called c done idle =>
      simp only [List.getLast?_concat, Option.some.injEq] at made
      subst made
      obtain ⟨used, later⟩ := grows
      refine ⟨used, ?_⟩
      rw [asked_append, ← before.sound.settled]
      cases earlier : s.calls.getLast? with
      | none =>
          have nothing := List.getLast?_eq_none_iff.mp earlier
          rw [before.sound.settled, asked, nothing]
          exact inWindow_first used
      | some previous =>
          obtain ⟨begun, within⟩ := before.within previous earlier
          exact inWindow_next begun used within (later previous begun earlier)
  | requested request rest checks todo ran =>
      have same := before.within last made
      rw [before.sound.settled] at same
      exact same
  | shared a checks others ran =>
      have same := before.within last made
      rw [before.sound.settled] at same
      exact same

theorem reachable_follows (reached : (system R.requests).ReachableUnder R.Grows s) : R.Follows s :=
  reached.invariant R.Follows (fun _ => start_follows)
    (fun _ _ _ _ before grows stepped => next_follows before grows stepped)

/-- After a call that the chain has not left, with the dataset in this slot. -/
structure Holding (R : Chain K C) (i : SlotIdx) (id : UInt64) (s : DatasetCalls K T C) : Prop where
  follows : R.Follows s
  begun : ∃ last, s.calls.getLast? = some last
  holds : (s.settled.slots i).loadedId = id

variable {i : SlotIdx} {id : UInt64}

theorem Holding.spares (before : Holding R i id s) {a : CallAction K T C}
    (within : R.Within id s a) : DatasetCalls.Spares R.requests i id s a := by
  cases a with
  | call c =>
      obtain ⟨last, made⟩ := before.begun
      obtain ⟨⟨used, later⟩, notLeft⟩ := within
      obtain ⟨begun, window⟩ := before.follows.within last made
      exact spares_next begun used window (later last begun made) notLeft before.holds
  | request | share => trivial

theorem next_holding {a : CallAction K T C} (before : Holding R i id s) (within : R.Within id s a)
    (stepped : next R.requests s a = some t) : Holding R i id t := by
  have spares := before.spares within
  have follows := next_follows before.follows within.1 stepped
  have known := before.holds
  rw [before.follows.sound.settled] at known
  cases next_moved stepped with
  | called c done idle =>
      refine ⟨follows, ⟨c, List.getLast?_concat ..⟩, ?_⟩
      rw [follows.sound.settled, asked_append, ← before.follows.sound.settled]
      exact DatasetSlots.Spares.after spares
  | requested request rest checks todo ran =>
      refine ⟨follows, before.begun, ?_⟩
      rw [follows.sound.settled]
      exact known
  | shared a checks others ran =>
      refine ⟨follows, before.begun, ?_⟩
      rw [follows.sound.settled]
      exact known

/-- From a pool at rest on, a dataset is served until the chain has left it, whatever is
loaded in the meantime. -/
theorem serves (S : Settling K) (D : Sparing K)
    (reached : (system R.requests).ReachableUnder R.Grows s) (rest : AtRest s)
    (made : s.calls.getLast? = some last) (among : id ∈ R.ids) (loaded : s.settled.Loaded id) :
    Serves R.requests (R.Within id) s id := by
  obtain ⟨i, holds⟩ := loaded
  have follows := reachable_follows reached
  have valid : id ≠ invalidId := by
    rintro rfl
    exact lt_irrefl _ (R.unset _ among)
  have begun : Holding R i id s := ⟨follows, ⟨last, made⟩, holds⟩
  have served := serves_of_spares S D follows.sound rest holds valid
  intro u v t toU outside toV
  obtain ⟨toU, atU⟩ := toU.strengthen (Holding R i id) begun
    (fun _ _ _ before within stepped => next_holding before within stepped)
    (fun _ _ before within => before.spares within)
  obtain ⟨toV, _⟩ := toV.strengthen (Holding R i id) atU
    (fun _ _ _ before within stepped => next_holding before within stepped)
    (fun _ _ before within => before.spares within)
  exact served u v t toU outside toV

/-- The dataset in use is in the slots, and so is the one after it if the last call has asked
for it. -/
theorem loaded_after (follows : R.Follows s) (made : s.calls.getLast? = some last) :
    last ∈ R.inUse ∧ s.settled.Loaded (R.window last).current ∧
      ((R.requests last).map K.requestId = [(R.window last).current, (R.window last).following] →
        s.settled.Loaded (R.window last).following) := by
  obtain ⟨used, within⟩ := follows.within last made
  refine ⟨used, within.current, ?_⟩
  intro both
  obtain ⟨calls, split⟩ := List.getLast?_eq_some_iff.mp made
  rw [follows.sound.settled, split, asked_append, both]
  exact require_loaded _ _

end Runs

end Chain

def Forward {K : PoolKind} {T C : Type} (position : C → Nat) (s : DatasetCalls K T C) :
    CallAction K T C → Prop
  | .call c => ∀ last, s.calls.getLast? = some last → position last ≤ position c
  | _ => True

def ForwardIn {K : PoolKind} {T C : Type} (position : C → Nat) (inside : C → Prop)
    (s : DatasetCalls K T C) : CallAction K T C → Prop
  | .call c => (∀ last, s.calls.getLast? = some last → position last ≤ position c) ∧ inside c
  | _ => True

theorem forward_of_firstOnly {K : PoolKind} {T C : Type} (position : C → Nat)
    (s : DatasetCalls K T C) (a : CallAction K T C) (first : firstOnly s a = true) :
    Forward position s a := by
  cases a with
  | call c =>
      intro last made
      rw [List.isEmpty_iff.mp first] at made
      cases made
  | request | share => trivial

section Forward

variable {K : PoolKind} {T C : Type} [DecidableEq T] {R : Chain K C} {position : C → Nat}
  {inside : C → Prop} {s : DatasetCalls K T C} {id : UInt64} {last : C}

/-- With calls in use that go forward, what the last one has asked for is served until a call
asks for something later. -/
theorem Chain.serves_forward (S : Settling K) (D : Sparing K)
    (later : ∀ last ∈ R.inUse, ∀ c ∈ R.inUse, position last ≤ position c → R.Later last c)
    (notLeft : ∀ c ∈ R.inUse, inside c → R.rank (R.window c).current ≤ R.rank id)
    (reached : (system R.requests).ReachableUnder (ForwardIn position (· ∈ R.inUse)) s)
    (rest : AtRest s) (made : s.calls.getLast? = some last)
    (asked : id = (R.window last).current ∨ (id = (R.window last).following ∧
      (R.requests last).map K.requestId = [(R.window last).current, (R.window last).following])) :
    Serves R.requests (ForwardIn position (fun c => c ∈ R.inUse ∧ inside c)) s id := by
  have grows : (system R.requests).ReachableUnder R.Grows s := by
    refine reached.mono ?_
    intro w a forward
    cases a with
    | call c =>
        obtain ⟨notBack, used⟩ := forward
        exact ⟨used, fun last begun made => later last begun c used (notBack last made)⟩
    | request | share => trivial
  obtain ⟨used, current, following⟩ := loaded_after (Chain.reachable_follows grows) made
  have present : id ∈ R.ids ∧ s.settled.Loaded id := by
    rcases asked with rfl | ⟨rfl, both⟩
    · exact ⟨R.current_mem last used, current⟩
    · exact ⟨R.following_mem last used, following both⟩
  refine Serves.mono (Chain.serves S D grows rest made present.1 present.2) ?_
  intro w a forward
  cases a with
  | call c =>
      obtain ⟨notBack, used, here⟩ := forward
      exact ⟨⟨used, fun last begun made => later last begun c used (notBack last made)⟩,
        notLeft c used here⟩
  | request | share => exact ⟨trivial, trivial⟩

theorem Chain.serves_forward_all (S : Settling K) (D : Sparing K) (all : ∀ c, c ∈ R.inUse)
    (later : ∀ last ∈ R.inUse, ∀ c ∈ R.inUse, position last ≤ position c → R.Later last c)
    (notLeft : ∀ c, inside c → R.rank (R.window c).current ≤ R.rank id)
    (reached : (system R.requests).ReachableUnder (Forward position) s) (rest : AtRest s)
    (made : s.calls.getLast? = some last)
    (asked : id = (R.window last).current ∨ (id = (R.window last).following ∧
      (R.requests last).map K.requestId = [(R.window last).current, (R.window last).following])) :
    Serves R.requests (ForwardIn position inside) s id := by
  have forward : (system R.requests).ReachableUnder (ForwardIn position (· ∈ R.inUse)) s := by
    refine reached.mono ?_
    intro w a forward
    cases a with
    | call c => exact ⟨forward, all c⟩
    | request | share => trivial
  refine Serves.mono
    (Chain.serves_forward S D later (fun c _ => notLeft c) forward rest made asked) ?_
  intro w a forward
  cases a with
  | call c => exact ⟨forward.1, all c, forward.2⟩
  | request | share => trivial

end Forward

end DatasetCalls

namespace PpHashpool

open DatasetCalls DatasetSlots

/-- Heights for which notify_block stays among those in use. -/
abbrev Notified (heights : UInt64 → Prop) : Type :=
  {height : UInt32 // heights height.toUInt64 ∧ heights (height.toUInt64 + 1)}

variable {getEpochNumber : UInt64 → Int32} {heights used : UInt64 → Prop}

def notified (height : Notified heights) : List UInt64 := notifyBlock height.1.toUInt64

theorem toUInt64_succ (height : UInt32) :
    (height.toUInt64 + 1).toNat = height.toNat + 1 := by
  have small := height.toNat_lt
  have one : (1 : UInt64).toNat = 1 := rfl
  rw [UInt64.toNat_add, UInt32.toNat_toUInt64, one]
  omega

theorem blockId_injective {low high : UInt64}
    (same : (toEpoch (blockId getEpochNumber low)).toInt =
      (toEpoch (blockId getEpochNumber high)).toInt) :
    blockId getEpochNumber low = blockId getEpochNumber high := by
  rw [toEpoch_blockId, toEpoch_blockId] at same
  rw [blockId, blockId, Int32.toInt_inj.mp same]

def chain (heights : UInt64 → Prop) (grows : EpochsGrow getEpochNumber used) :
    Chain (kind getEpochNumber heights) (Notified heights) where
  requests := notified
  window height := ⟨blockId getEpochNumber height.1.toUInt64,
    blockId getEpochNumber (height.1.toUInt64 + 1)⟩
  inUse := {height | used height.1.toUInt64 ∧ used (height.1.toUInt64 + 1)}
  ids := {id | ∃ height, used height ∧ id = blockId getEpochNumber height}
  rank id := (toEpoch id).toInt
  asks _ := .inr rfl
  current_mem _ inUse := ⟨_, inUse.1, rfl⟩
  following_mem _ inUse := ⟨_, inUse.2, rfl⟩
  ordered height inUse := by
    rw [toEpoch_blockId, toEpoch_blockId]
    refine Int32.le_iff_toInt_le.mp (grows.mono _ _ inUse.1 inUse.2 ?_)
    rw [UInt64.le_iff_toNat_le, toUInt64_succ, UInt32.toNat_toUInt64]
    omega
  injective := by
    rintro _ ⟨low, _, rfl⟩ _ ⟨high, _, rfl⟩ same
    exact blockId_injective same
  unset := by
    rintro _ ⟨height, inside, rfl⟩
    have least : (toEpoch invalidId).toInt = -1 := by decide
    have nonneg := Int32.le_iff_toInt_le.mp (grows.nonneg height inside)
    have zero : (0 : Int32).toInt = 0 := rfl
    rw [toEpoch_blockId, least]
    omega

theorem later_of_le (grows : EpochsGrow getEpochNumber used) {last height : Notified heights}
    (begun : last ∈ (chain heights grows).inUse)
    (inUse : height ∈ (chain heights grows).inUse)
    (forward : last.1.toNat ≤ height.1.toNat) : (chain heights grows).Later last height := by
  rcases Nat.eq_or_lt_of_le forward with same | below
  · have equal : last = height := Subtype.ext (UInt32.toNat_inj.mp same)
    exact .inl (by rw [equal])
  · right
    change (toEpoch (blockId getEpochNumber (last.1.toUInt64 + 1))).toInt ≤
      (toEpoch (blockId getEpochNumber height.1.toUInt64)).toInt
    rw [toEpoch_blockId, toEpoch_blockId]
    refine Int32.le_iff_toInt_le.mp (grows.mono _ _ begun.2 inUse.1 ?_)
    rw [UInt64.le_iff_toNat_le, toUInt64_succ, UInt32.toNat_toUInt64]
    exact below

theorem chain_notLeft (grows : EpochsGrow getEpochNumber used) {height : Notified heights}
    {block : UInt64}
    (notLeft : getEpochNumber height.1.toUInt64 ≤ getEpochNumber block) :
    (chain heights grows).rank ((chain heights grows).window height).current ≤
      (chain heights grows).rank (blockId getEpochNumber block) := by
  change (toEpoch (blockId getEpochNumber height.1.toUInt64)).toInt ≤
    (toEpoch (blockId getEpochNumber block)).toInt
  rw [toEpoch_blockId, toEpoch_blockId]
  exact Int32.le_iff_toInt_le.mp notLeft

/-- With heights that do not fall: once the pool is at rest, no share for the epoch of the
height, or for that of the next one, is refused before the heights have left the epoch. -/
theorem epochs_served (T : Type) [DecidableEq T] (grows : EpochsGrow getEpochNumber heights)
    (s : DatasetCalls (kind getEpochNumber heights) T (Notified heights)) (last : Notified heights)
    (reached : (DatasetCalls.system notified).ReachableUnder
      (Forward (fun height => height.1.toNat)) s)
    (rest : DatasetCalls.AtRest s) (made : s.calls.getLast? = some last) (block : UInt64)
    (inUse : block = last.1.toUInt64 ∨ block = last.1.toUInt64 + 1) :
    Serves notified
      (ForwardIn (fun height => height.1.toNat)
        (fun height => getEpochNumber height.1.toUInt64 ≤ getEpochNumber block))
      s (blockId getEpochNumber block) := by
  refine (chain heights grows).serves_forward_all (settling getEpochNumber heights)
    (sparing getEpochNumber heights) (fun height => height.2)
    (fun _ begun _ inUse => later_of_le grows begun inUse) (fun _ => chain_notLeft grows) reached
    rest made ?_
  rcases inUse with rfl | rfl
  · exact .inl rfl
  · exact .inr ⟨rfl, rfl⟩

def lastOfEpoch : Notified (· ∈ crossed) := ⟨29999, by decide, by decide⟩

theorem epochs_served_at_crossing :
    ∃ s : DatasetCalls (kind epochOf30000 (· ∈ crossed)) (Fin 2) (Notified (· ∈ crossed)),
      s.calls.getLast? = some lastOfEpoch ∧
      Serves notified (ForwardIn (fun height => height.1.toNat)
        (fun height => epochOf30000 height.1.toUInt64 ≤ epochOf30000 30000)) s
        (blockId epochOf30000 30000) := by
  have start := DatasetCalls.fresh_start (K := kind epochOf30000 (· ∈ crossed)) (T := Fin 2)
    (C := Notified (· ∈ crossed)) notified ⟨none, []⟩ rfl
  obtain ⟨s, reached, loaded⟩ := System.exists_reachableUnder firstOnly
    (forward_of_firstOnly (fun height => height.1.toNat)) start (loadBoth lastOfEpoch 6)
    (oneDone lastOfEpoch) (by decide +kernel)
  obtain ⟨rest, made⟩ := oneDone_spec loaded
  exact ⟨s, made,
    epochs_served (Fin 2) crossed_grows s lastOfEpoch reached rest made 30000 (.inr (by decide))⟩

end PpHashpool

namespace RxHashpool

open DatasetCalls DatasetSlots

/-- The epochs of a message along a chain of seeds: the one in use, and perhaps the one after
it. -/
structure Listing (seeds : List V32) where
  position : Nat
  withNext : Bool
  inside : position + 1 < seeds.length
  deriving DecidableEq

namespace Listing

variable {seeds : List V32}

def current (l : Listing seeds) : V32 := seeds.get ⟨l.position, Nat.lt_of_succ_lt l.inside⟩

def following (l : Listing seeds) : V32 := seeds.get ⟨l.position + 1, l.inside⟩

def requests (l : Listing seeds) : List V32 :=
  if l.withNext then [l.current, l.following] else [l.current]

end Listing

def seedRank (seeds : List V32) (id : UInt64) : Int :=
  if id ∈ seeds.map V32.getId then (seeds.map V32.getId).idxOf id else -1

theorem seedRank_get {seeds : List V32} (apart : (seeds.map V32.getId).Nodup)
    (n : Fin seeds.length) :
    seedRank seeds (seeds.get n).getId = n := by
  have bound : n.val < (seeds.map V32.getId).length := by
    rw [List.length_map]
    exact n.isLt
  have found : (seeds.map V32.getId)[n.val] = (seeds.get n).getId := List.getElem_map ..
  have listed : (seeds.get n).getId ∈ seeds.map V32.getId :=
    List.mem_map_of_mem (List.get_mem seeds n)
  rw [seedRank, if_pos listed, ← found, apart.idxOf_getElem]

theorem seedRank_unset (seeds : List V32) : seedRank seeds invalidId = -1 := by
  have none : invalidId ∉ seeds.map V32.getId := by
    intro among
    obtain ⟨seed, _, same⟩ := List.mem_map.mp among
    exact seed.getId_ne_invalid same
  rw [seedRank, if_neg none]

variable {seeds : List V32}

/-- The requests of job messages along a chain of seeds with different ids. -/
def chain (apart : (seeds.map V32.getId).Nodup) : Chain kind (Listing seeds) where
  requests := Listing.requests
  window l := ⟨l.current.getId, l.following.getId⟩
  inUse := Set.univ
  ids := Set.range (fun n => (seeds.get n).getId)
  rank := seedRank seeds
  asks l := by
    unfold Listing.requests
    split
    · exact .inr rfl
    · exact .inl rfl
  current_mem l _ := ⟨⟨l.position, Nat.lt_of_succ_lt l.inside⟩, rfl⟩
  following_mem l _ := ⟨⟨l.position + 1, l.inside⟩, rfl⟩
  ordered l _ := by
    simp only [Listing.current, Listing.following, seedRank_get apart]
    omega
  injective := by
    rintro _ ⟨m, rfl⟩ _ ⟨n, rfl⟩ same
    simp only [seedRank_get apart, Nat.cast_inj] at same
    rw [Fin.ext same]
  unset := by
    rintro _ ⟨n, rfl⟩
    rw [seedRank_unset, seedRank_get apart]
    omega

theorem later_of_le (apart : (seeds.map V32.getId).Nodup) (last l : Listing seeds)
    (forward : last.position ≤ l.position) : (chain apart).Later last l := by
  rcases Nat.eq_or_lt_of_le forward with same | below
  · left
    simp only [chain, Listing.current, Listing.following, same]
  · right
    change seedRank seeds last.following.getId ≤ seedRank seeds l.current.getId
    simp only [Listing.current, Listing.following, seedRank_get apart]
    omega

theorem chain_notLeft (apart : (seeds.map V32.getId).Nodup) {l : Listing seeds}
    {n : Fin seeds.length} (notLeft : l.position ≤ n.val) :
    (chain apart).rank ((chain apart).window l).current ≤
      (chain apart).rank (seeds.get n).getId := by
  change seedRank seeds l.current.getId ≤ seedRank seeds (seeds.get n).getId
  simp only [Listing.current, seedRank_get apart]
  omega

theorem chain_inUse (apart : (seeds.map V32.getId).Nodup) {l : Listing seeds}
    {n : Fin seeds.length}
    (inUse : n.val = l.position ∨ (l.withNext = true ∧ n.val = l.position + 1)) :
    (seeds.get n).getId = ((chain apart).window l).current ∨
      ((seeds.get n).getId = ((chain apart).window l).following ∧
        ((chain apart).requests l).map kind.requestId =
          [((chain apart).window l).current, ((chain apart).window l).following]) := by
  rcases inUse with here | ⟨listed, next⟩
  · left
    have same : n = ⟨l.position, Nat.lt_of_succ_lt l.inside⟩ := Fin.ext here
    rw [same]
    rfl
  · right
    have same : n = ⟨l.position + 1, l.inside⟩ := Fin.ext next
    refine ⟨by rw [same]; rfl, ?_⟩
    change l.requests.map V32.getId = [l.current.getId, l.following.getId]
    rw [Listing.requests, if_pos listed]
    rfl

/-- With messages that list the epoch in use first and go forward along a chain of seeds: once
the pool is at rest, no share for the seed in use, or for a next one that was listed, is refused
before the messages have left it. -/
theorem seeds_served (T : Type) [DecidableEq T] (apart : (seeds.map V32.getId).Nodup)
    (s : DatasetCalls kind T (Listing seeds)) (last : Listing seeds)
    (reached : (DatasetCalls.system Listing.requests).ReachableUnder (Forward Listing.position) s)
    (rest : DatasetCalls.AtRest s) (made : s.calls.getLast? = some last) (n : Fin seeds.length)
    (inUse : n.val = last.position ∨ (last.withNext = true ∧ n.val = last.position + 1)) :
    Serves Listing.requests (ForwardIn Listing.position (fun l => l.position ≤ n.val)) s
      (seeds.get n).getId := by
  exact (chain apart).serves_forward_all settling sparing (fun _ => Set.mem_univ _)
    (fun last _ l _ => later_of_le apart last l) (fun _ => chain_notLeft apart) reached rest made
    (chain_inUse apart inUse)

def twoSeeds : List V32 := [uniformSeed 1, uniformSeed 2]

def bothListed : Listing twoSeeds := ⟨0, true, by decide⟩

theorem seeds_served_after_load :
    ∃ s : DatasetCalls kind (Fin 2) (Listing twoSeeds), s.calls.getLast? = some bothListed ∧
      Serves Listing.requests (ForwardIn Listing.position (fun l => l.position ≤ 1)) s
        (uniformSeed 2).getId := by
  have start := DatasetCalls.fresh_start (K := kind) (T := Fin 2) (C := Listing twoSeeds)
    Listing.requests ⟨V32.setAllZero, none⟩ rfl
  obtain ⟨s, reached, loaded⟩ := System.exists_reachableUnder firstOnly
    (forward_of_firstOnly Listing.position) start (loadBoth bothListed 5) (oneDone bothListed)
    (by decide +kernel)
  obtain ⟨rest, made⟩ := oneDone_spec loaded
  exact ⟨s, made, seeds_served (Fin 2) (by decide +kernel) s bothListed reached rest made
    ⟨1, by decide⟩ (.inr ⟨rfl, rfl⟩)⟩

end RxHashpool

end EpicPoold
