import EpicPoold.Foundations.Census
import EpicPoold.Foundations.Progress

/-! thdq: the queue between the threads that check shares and the hash workers. A
critical section under `mutex_` is one step, the notification after it another. -/

namespace EpicPoold

open Foundations

/-- Where a thread is in push or pop: outside, blocked in wait, out of the wait and about
to take the mutex again, or between the unlock and the notification of push. -/
inductive ThdqPc where
  | outside
  | waiting
  | woken
  | notifying
  deriving DecidableEq

/-- The queue, its threads, all that was pushed, and what pop returned to whom. -/
structure Thdq (T Tid : Type) where
  queue : List T
  pc : Tid → ThdqPc
  pushed : List T
  handedOut : List (Tid × T)

/-- `notify` names the thread that notify_one wakes, if there is one to wake. -/
inductive ThdqAction (T Tid : Type) where
  | push (t : Tid) (item : T)
  | notify (t : Tid) (waiter : Option Tid)
  | pop (t : Tid)
  | recheck (t : Tid)
  | spurious (t : Tid)

namespace Thdq

variable {T Tid : Type}

section Code

variable [DecidableEq Tid] (q : Thdq T Tid)

def push (t : Tid) (item : T) : Thdq T Tid :=
  { q with
    queue := q.queue ++ [item]
    pc := Function.update q.pc t .notifying
    pushed := q.pushed ++ [item] }

/-- One turn of the loop of pop: wait on an empty queue, else take its front and return. -/
def takeOrWait (t : Tid) : Thdq T Tid :=
  match q.queue with
  | [] => { q with pc := Function.update q.pc t .waiting }
  | item :: rest =>
      { q with
        queue := rest
        pc := Function.update q.pc t .outside
        handedOut := q.handedOut ++ [(t, item)] }

end Code

section Code

variable [DecidableEq Tid] [Fintype Tid] (q : Thdq T Tid)

/-- notify_one wakes a thread that waits; where none waits it is lost. -/
def notifyOne (t : Tid) : Option Tid → Option (Thdq T Tid)
  | none =>
      if ∀ w, q.pc w ≠ .waiting then some { q with pc := Function.update q.pc t .outside }
      else none
  | some w =>
      if q.pc w = .waiting then
        some { q with pc := Function.update (Function.update q.pc t .outside) w .woken }
      else none

def next : ThdqAction T Tid → Option (Thdq T Tid)
  | .push t item => if q.pc t = .outside then some (q.push t item) else none
  | .notify t waiter => if q.pc t = .notifying then q.notifyOne t waiter else none
  | .pop t => if q.pc t = .outside then some (q.takeOrWait t) else none
  | .recheck t => if q.pc t = .woken then some (q.takeOrWait t) else none
  | .spurious t =>
      if q.pc t = .waiting then some { q with pc := Function.update q.pc t .woken } else none

end Code

def fresh : Thdq T Tid := ⟨[], fun _ => .outside, [], []⟩

section Runs

variable [DecidableEq Tid] [Fintype Tid]

variable (T Tid) in
def system : System (Thdq T Tid) (ThdqAction T Tid) where
  start q := q = fresh
  next := next

def wokenCount (q : Thdq T Tid) : Nat := census (fun pc => pc == .woken) q.pc

def notifyingCount (q : Thdq T Tid) : Nat := census (fun pc => pc == .notifying) q.pc

end Runs

/-- What was pushed is what was handed out, and behind it what is queued. -/
def Lossless (q : Thdq T Tid) : Prop := q.pushed = q.handedOut.map Prod.snd ++ q.queue

/-- While a thread waits, each queued item has a thread under way to it. -/
def Covered [DecidableEq Tid] [Fintype Tid] (q : Thdq T Tid) : Prop :=
  (∃ t, q.pc t = .waiting) → q.queue.length ≤ q.wokenCount + q.notifyingCount

section Steps

variable [DecidableEq Tid] [Fintype Tid] {q r : Thdq T Tid}

inductive Moved (q : Thdq T Tid) : ThdqAction T Tid → Thdq T Tid → Prop
  | push (t : Tid) (item : T) (here : q.pc t = .outside) : Moved q (.push t item) (q.push t item)
  | lost (t : Tid) (here : q.pc t = .notifying) (nobody : ∀ w, q.pc w ≠ .waiting) :
      Moved q (.notify t none) { q with pc := Function.update q.pc t .outside }
  | wake (t w : Tid) (here : q.pc t = .notifying) (there : q.pc w = .waiting) :
      Moved q (.notify t (some w))
        { q with pc := Function.update (Function.update q.pc t .outside) w .woken }
  | pop (t : Tid) (here : q.pc t = .outside) : Moved q (.pop t) (q.takeOrWait t)
  | recheck (t : Tid) (here : q.pc t = .woken) : Moved q (.recheck t) (q.takeOrWait t)
  | spurious (t : Tid) (here : q.pc t = .waiting) :
      Moved q (.spurious t) { q with pc := Function.update q.pc t .woken }

theorem moved_of_next {a : ThdqAction T Tid} (stepped : q.next a = some r) : Moved q a r := by
  cases a with
  | push t item =>
      simp only [next] at stepped
      split at stepped
      · rename_i here
        cases stepped
        exact .push t item here
      · cases stepped
  | notify t waiter =>
      simp only [next] at stepped
      split at stepped
      · rename_i here
        cases waiter with
        | none =>
            simp only [notifyOne] at stepped
            split at stepped
            · rename_i nobody
              cases stepped
              exact .lost t here nobody
            · cases stepped
        | some w =>
            simp only [notifyOne] at stepped
            split at stepped
            · rename_i there
              cases stepped
              exact .wake t w here there
            · cases stepped
      · cases stepped
  | pop t =>
      simp only [next] at stepped
      split at stepped
      · rename_i here
        cases stepped
        exact .pop t here
      · cases stepped
  | recheck t =>
      simp only [next] at stepped
      split at stepped
      · rename_i here
        cases stepped
        exact .recheck t here
      · cases stepped
  | spurious t =>
      simp only [next] at stepped
      split at stepped
      · rename_i here
        cases stepped
        exact .spurious t here
      · cases stepped

omit [Fintype Tid] in
theorem lossless_takeOrWait (before : Lossless q) (t : Tid) : Lossless (q.takeOrWait t) := by
  unfold Lossless at before ⊢
  unfold takeOrWait
  split
  · exact before
  · rename_i item rest queued
    rw [queued] at before
    simpa using before

omit [Fintype Tid] in
theorem moved_lossless {a : ThdqAction T Tid} (before : Lossless q) (moved : Moved q a r) :
    Lossless r := by
  cases moved with
  | push t item here =>
      change q.pushed ++ [item] = q.handedOut.map Prod.snd ++ (q.queue ++ [item])
      rw [← List.append_assoc, ← before]
  | lost | wake | spurious => exact before
  | pop t here => exact lossless_takeOrWait before t
  | recheck t here => exact lossless_takeOrWait before t

omit [Fintype Tid] in
theorem waiting_of_update {t u : Tid} {pc : ThdqPc} (elsewhere : pc ≠ .waiting)
    (waits : Function.update q.pc t pc u = .waiting) : q.pc u = .waiting := by
  by_cases same : u = t
  · rw [same, Function.update_self] at waits
    exact absurd waits elsewhere
  · rwa [Function.update_of_ne same] at waits

theorem counts_move (pc : Tid → ThdqPc) (t : Tid) (next : ThdqPc) :
    census (fun pc => pc == .woken) (Function.update pc t next) +
        (if pc t = .woken then 1 else 0) =
      census (fun pc => pc == .woken) pc + (if next = .woken then 1 else 0) ∧
    census (fun pc => pc == .notifying) (Function.update pc t next) +
        (if pc t = .notifying then 1 else 0) =
      census (fun pc => pc == .notifying) pc + (if next = .notifying then 1 else 0) := by
  have woken := census_move (fun pc : ThdqPc => pc == .woken) pc t next
  have notifying := census_move (fun pc : ThdqPc => pc == .notifying) pc t next
  simp only [beq_iff_eq] at woken notifying
  exact ⟨woken, notifying⟩

theorem covered_takeOrWait (before : Covered q) (t : Tid)
    (here : q.pc t = .outside ∨ q.pc t = .woken) : Covered (q.takeOrWait t) := by
  unfold takeOrWait
  split
  · rename_i empty
    intro _
    simp only [empty, List.length_nil, Nat.zero_le]
  · rename_i item rest queued
    rintro ⟨u, waits⟩
    have enough := before ⟨u, waiting_of_update (by simp) waits⟩
    obtain ⟨woken, notifying⟩ := counts_move q.pc t .outside
    rw [queued, List.length_cons] at enough
    simp only [wokenCount, notifyingCount] at enough ⊢
    rcases here with here | here
    · simp only [here, reduceCtorEq, if_false] at woken notifying
      omega
    · simp only [here, reduceCtorEq, if_false, if_true] at woken notifying
      omega

/-- A push adds an item and a notifier, a notification turns a notifier into a woken
thread or finds nobody that waits. -/
theorem moved_covered {a : ThdqAction T Tid} (before : Covered q) (moved : Moved q a r) :
    Covered r := by
  cases moved with
  | push t item here =>
      rintro ⟨u, waits⟩
      have enough := before ⟨u, waiting_of_update (by simp) waits⟩
      obtain ⟨woken, notifying⟩ := counts_move q.pc t .notifying
      simp only [here, reduceCtorEq, if_false, if_true] at woken notifying
      simp only [wokenCount, notifyingCount, Thdq.push, List.length_append, List.length_singleton]
        at enough ⊢
      omega
  | lost t here nobody =>
      rintro ⟨u, waits⟩
      exact absurd (waiting_of_update (by simp) waits) (nobody u)
  | wake t w here there =>
      intro _
      have enough := before ⟨w, there⟩
      have other : w ≠ t := by
        intro same
        rw [same, here] at there
        cases there
      obtain ⟨first, released⟩ := counts_move q.pc t .outside
      obtain ⟨woken, notifying⟩ := counts_move (Function.update q.pc t .outside) w .woken
      simp only [here, Function.update_of_ne other, there, reduceCtorEq, if_false, if_true]
        at first released woken notifying
      simp only [wokenCount, notifyingCount] at enough ⊢
      omega
  | pop t here => exact covered_takeOrWait before t (.inl here)
  | recheck t here => exact covered_takeOrWait before t (.inr here)
  | spurious t here =>
      intro _
      have enough := before ⟨t, here⟩
      obtain ⟨woken, notifying⟩ := counts_move q.pc t .woken
      simp only [here, reduceCtorEq, if_false, if_true] at woken notifying
      simp only [wokenCount, notifyingCount] at enough ⊢
      omega

theorem reachable_lossless_covered (reached : (system T Tid).Reachable q) :
    Lossless q ∧ Covered q := by
  refine reached.invariant (fun q => Lossless q ∧ Covered q) ?_ ?_
  · intro q initial
    rw [initial]
    exact ⟨rfl, fun _ => Nat.zero_le _⟩
  · intro q a r _ before stepped
    have moved := moved_of_next stepped
    exact ⟨moved_lossless before.1 moved, moved_covered before.2 moved⟩

omit [Fintype Tid] in
theorem takeOrWait_grows (q : Thdq T Tid) (t : Tid) :
    q.pushed.length ≤ (q.takeOrWait t).pushed.length ∧
      q.handedOut.length ≤ (q.takeOrWait t).handedOut.length := by
  unfold takeOrWait
  split
  · exact ⟨Nat.le_refl _, Nat.le_refl _⟩
  · simp

omit [Fintype Tid] in
theorem moved_grows {a : ThdqAction T Tid} (moved : Moved q a r) :
    q.pushed.length ≤ r.pushed.length ∧ q.handedOut.length ≤ r.handedOut.length := by
  cases moved with
  | push t item here => exact ⟨by simp [Thdq.push], Nat.le_refl _⟩
  | lost | wake | spurious => exact ⟨Nat.le_refl _, Nat.le_refl _⟩
  | pop t here => exact takeOrWait_grows q t
  | recheck t here => exact takeOrWait_grows q t

omit [Fintype Tid] in
theorem takeOrWait_hands (t : Tid) (queued : q.queue ≠ []) :
    (q.takeOrWait t).handedOut.length = q.handedOut.length + 1 := by
  unfold takeOrWait
  split
  · rename_i empty
    exact absurd empty queued
  · simp

end Steps

/-- What a turn of pop does: it takes the front of the queue, or waits beside an empty one. -/
def Takes (q : Thdq T Tid) (t : Tid) (r : Thdq T Tid) : Prop :=
  (q.queue = [] ∧ r.queue = [] ∧ r.handedOut = q.handedOut ∧ r.pc t = .waiting) ∨
    ∃ item, q.queue = item :: r.queue ∧ r.handedOut = q.handedOut ++ [(t, item)] ∧
      r.pc t = .outside

/-- No thread but one that waits is kept from its next step. -/
structure Responds [DecidableEq Tid] [Fintype Tid] (q : Thdq T Tid) : Prop where
  push : ∀ t item, q.pc t = .outside → ∃ r, q.next (.push t item) = some r ∧
    r.queue = q.queue ++ [item] ∧ r.pc t = .notifying
  notify : ∀ t, q.pc t = .notifying → ∃ waiter r, q.next (.notify t waiter) = some r ∧
    r.pc t = .outside
  pop : ∀ t, q.pc t = .outside → ∃ r, q.next (.pop t) = some r ∧ q.Takes t r
  recheck : ∀ t, q.pc t = .woken → ∃ r, q.next (.recheck t) = some r ∧ q.Takes t r

section Turns

variable [DecidableEq Tid]

theorem takes_takeOrWait (q : Thdq T Tid) (t : Tid) : q.Takes t (q.takeOrWait t) := by
  unfold takeOrWait
  split
  · rename_i empty
    exact .inl ⟨empty, empty, rfl, Function.update_self ..⟩
  · rename_i item rest queued
    exact .inr ⟨item, queued, rfl, Function.update_self ..⟩

variable [Fintype Tid]

theorem exists_notify {q : Thdq T Tid} {t : Tid} (here : q.pc t = .notifying) :
    ∃ waiter r, q.next (.notify t waiter) = some r := by
  by_cases some : ∃ w, q.pc w = .waiting
  · obtain ⟨w, there⟩ := some
    refine ⟨w, { q with pc := Function.update (Function.update q.pc t .outside) w .woken }, ?_⟩
    simp only [next, here, if_true, notifyOne, there]
  · refine ⟨none, { q with pc := Function.update q.pc t .outside }, ?_⟩
    simp only [next, here, if_true, notifyOne]
    exact if_pos (not_exists.mp some)

theorem responds (q : Thdq T Tid) : Responds q where
  push t item here := by
    refine ⟨q.push t item, ?_, rfl, Function.update_self ..⟩
    simp only [next, here, if_true]
  notify t here := by
    obtain ⟨waiter, r, stepped⟩ := exists_notify here
    refine ⟨waiter, r, stepped, ?_⟩
    cases moved_of_next stepped with
    | lost => exact Function.update_self ..
    | wake t w here there =>
        have other : t ≠ w := by
          rintro rfl
          rw [here] at there
          cases there
        simp only [Function.update_of_ne other, Function.update_self]
  pop t here := by
    refine ⟨q.takeOrWait t, ?_, takes_takeOrWait q t⟩
    simp only [next, here, if_true]
  recheck t here := by
    refine ⟨q.takeOrWait t, ?_, takes_takeOrWait q t⟩
    simp only [next, here, if_true]

def turnsDue (q : Thdq T Tid) : Nat := 2 * q.notifyingCount + q.wokenCount

theorem counts_takeOrWait {q : Thdq T Tid} {t : Tid} (here : q.pc t = .woken) :
    (q.takeOrWait t).turnsDue + 1 = q.turnsDue := by
  have moved : ∀ pc : ThdqPc, pc ≠ .woken → pc ≠ .notifying →
      census (fun pc => pc == .woken) (Function.update q.pc t pc) + 1 = q.wokenCount ∧
      census (fun pc => pc == .notifying) (Function.update q.pc t pc) = q.notifyingCount := by
    intro pc awake quiet
    obtain ⟨woken, notifying⟩ := counts_move q.pc t pc
    simp only [here, awake, quiet, reduceCtorEq, if_false, if_true] at woken notifying
    exact ⟨woken, notifying⟩
  unfold takeOrWait
  split
  · obtain ⟨woken, notifying⟩ := moved .waiting (by simp) (by simp)
    simp only [turnsDue, wokenCount, notifyingCount] at woken notifying ⊢
    omega
  · obtain ⟨woken, notifying⟩ := moved .outside (by simp) (by simp)
    simp only [turnsDue, wokenCount, notifyingCount] at woken notifying ⊢
    omega

theorem counts_notify {q r : Thdq T Tid} {t : Tid} {waiter : Option Tid}
    (stepped : q.next (.notify t waiter) = some r) : r.turnsDue < q.turnsDue := by
  cases moved_of_next stepped with
  | lost t here nobody =>
      obtain ⟨woken, notifying⟩ := counts_move q.pc t .outside
      simp only [here, reduceCtorEq, if_false, if_true] at woken notifying
      simp only [turnsDue, wokenCount, notifyingCount]
      omega
  | wake t w here there =>
      have other : w ≠ t := by
        rintro rfl
        rw [here] at there
        cases there
      obtain ⟨first, released⟩ := counts_move q.pc t .outside
      obtain ⟨woken, notifying⟩ := counts_move (Function.update q.pc t .outside) w .woken
      simp only [here, Function.update_of_ne other, there, reduceCtorEq, if_false, if_true]
        at first released woken notifying
      simp only [turnsDue, wokenCount, notifyingCount]
      omega

end Turns

/-- A run from `q` in which each woken thread looks at the queue again some time, and each
thread that has pushed notifies. -/
structure FairRun [DecidableEq Tid] [Fintype Tid] (q : Thdq T Tid) extends
    (system T Tid).Run q where
  rechecks : ∀ i t, (state i).pc t = .woken → ∃ k, i ≤ k ∧ action k = some (.recheck t)
  notifies : ∀ i t, (state i).pc t = .notifying →
    ∃ k waiter, i ≤ k ∧ action k = some (.notify t waiter)

section Fairness

variable [DecidableEq Tid] [Fintype Tid]

omit [Fintype Tid] in
theorem pc_takeOrWait {q : Thdq T Tid} {t u : Tid} (other : u ≠ t) :
    (q.takeOrWait t).pc u = q.pc u := by
  unfold takeOrWait
  split
  · exact Function.update_of_ne other ..
  · exact Function.update_of_ne other ..

theorem recheck_of_left {q r : Thdq T Tid} {a : ThdqAction T Tid} {u : Tid}
    (stepped : q.next a = some r) (woken : q.pc u = .woken) (left : r.pc u ≠ .woken) :
    a = .recheck u := by
  have other : ∀ {t : Tid} {pc : ThdqPc}, q.pc t = pc → pc ≠ .woken → u ≠ t := by
    rintro t pc there elsewhere rfl
    exact elsewhere (there.symm.trans woken)
  cases moved_of_next stepped with
  | push t item here =>
      exact absurd ((Function.update_of_ne (other here (by simp)) ..).trans woken) left
  | lost t here nobody =>
      exact absurd ((Function.update_of_ne (other here (by simp)) ..).trans woken) left
  | wake t w here there =>
      refine absurd ?_ left
      simp only [Function.update_of_ne (other there (by simp)),
        Function.update_of_ne (other here (by simp)), woken]
  | pop t here => exact absurd ((pc_takeOrWait (other here (by simp))).trans woken) left
  | recheck t here =>
      by_cases own : u = t
      · rw [own]
      · exact absurd ((pc_takeOrWait own).trans woken) left
  | spurious t here =>
      exact absurd ((Function.update_of_ne (other here (by simp)) ..).trans woken) left

theorem notify_of_left {q r : Thdq T Tid} {a : ThdqAction T Tid} {u : Tid}
    (stepped : q.next a = some r) (notifying : q.pc u = .notifying) (left : r.pc u ≠ .notifying) :
    ∃ waiter, a = .notify u waiter := by
  have other : ∀ {t : Tid} {pc : ThdqPc}, q.pc t = pc → pc ≠ .notifying → u ≠ t := by
    rintro t pc there elsewhere rfl
    exact elsewhere (there.symm.trans notifying)
  cases moved_of_next stepped with
  | push t item here =>
      exact absurd ((Function.update_of_ne (other here (by simp)) ..).trans notifying) left
  | lost t here nobody =>
      by_cases own : u = t
      · exact ⟨none, by rw [own]⟩
      · exact absurd ((Function.update_of_ne own ..).trans notifying) left
  | wake t w here there =>
      by_cases own : u = t
      · exact ⟨w, by rw [own]⟩
      · refine absurd ?_ left
        simp only [Function.update_of_ne (other there (by simp)), Function.update_of_ne own,
          notifying]
  | pop t here => exact absurd ((pc_takeOrWait (other here (by simp))).trans notifying) left
  | recheck t here =>
      exact absurd ((pc_takeOrWait (other here (by simp))).trans notifying) left
  | spurious t here =>
      exact absurd ((Function.update_of_ne (other here (by simp)) ..).trans notifying) left

theorem exists_fairRun (q : Thdq T Tid) : Nonempty (FairRun q) := by
  have goes : ∀ s : Thdq T Tid, 0 < s.turnsDue →
      ∃ a r, (system T Tid).next s a = some r ∧ r.turnsDue < s.turnsDue := by
    intro s some
    by_cases awake : 0 < s.wokenCount
    · obtain ⟨t, woken⟩ := (census_pos _ _).mp awake
      have here : s.pc t = .woken := by simpa using woken
      refine ⟨.recheck t, s.takeOrWait t, ?_, ?_⟩
      · change s.next (.recheck t) = _
        simp only [next, here, if_true]
      · have one := counts_takeOrWait here
        omega
    · have telling : 0 < s.notifyingCount := by
        rw [turnsDue] at some
        omega
      obtain ⟨t, notifying⟩ := (census_pos _ _).mp telling
      obtain ⟨waiter, r, stepped⟩ := exists_notify (by simpa using notifying)
      exact ⟨.notify t waiter, r, stepped, counts_notify stepped⟩
  obtain ⟨run, n, rests⟩ := (system T Tid).exists_resting (fun s => 0 < s.turnsDue) turnsDue goes q
  -- whoever is under way at `i` is so no more when nothing is due
  have nobody : ∀ i t, (run.state (max i n)).pc t ≠ .woken ∧
      (run.state (max i n)).pc t ≠ .notifying := by
    intro i t
    have none := rests (max i n) (le_max_right i n)
    rw [turnsDue] at none
    constructor
    · intro woken
      have some := (census_pos (fun pc => pc == .woken) (run.state (max i n)).pc).mpr
        ⟨t, by simpa using woken⟩
      simp only [wokenCount] at none
      omega
    · intro notifying
      have some := (census_pos (fun pc => pc == .notifying) (run.state (max i n)).pc).mpr
        ⟨t, by simpa using notifying⟩
      simp only [notifyingCount] at none
      omega
  refine ⟨⟨run, ?_, ?_⟩⟩
  · intro i t woken
    obtain ⟨j, a, later, acts, stepped, still, left⟩ :=
      run.exists_ending (fun s => s.pc t = .woken) (le_max_left i n) woken (nobody i t).1
    exact ⟨j, later, by rw [acts, recheck_of_left stepped still left]⟩
  · intro i t notifying
    obtain ⟨j, a, later, acts, stepped, still, left⟩ :=
      run.exists_ending (fun s => s.pc t = .notifying) (le_max_left i n) notifying (nobody i t).2
    obtain ⟨waiter, same⟩ := notify_of_left stepped still left
    exact ⟨j, waiter, later, by rw [acts, same]⟩

end Fairness

namespace FairRun

variable [DecidableEq Tid] [Fintype Tid] {q : Thdq T Tid} (run : FairRun q)

theorem moved_of_action {i : Nat} {a : ThdqAction T Tid} (acts : run.action i = some a) :
    Moved (run.state i) a (run.state (i + 1)) := by
  rcases run.step i with ⟨idle, _⟩ | ⟨b, named, stepped⟩
  · rw [idle] at acts
    cases acts
  · cases acts.symm.trans named
    exact moved_of_next stepped

theorem grows {i k : Nat} (later : i ≤ k) :
    (run.state i).pushed.length ≤ (run.state k).pushed.length ∧
      (run.state i).handedOut.length ≤ (run.state k).handedOut.length := by
  induction later with
  | refl => exact ⟨Nat.le_refl _, Nat.le_refl _⟩
  | step _ ih =>
      rename_i k _
      rcases run.step k with ⟨_, same⟩ | ⟨a, _, stepped⟩
      · rwa [same]
      · have one := moved_grows (moved_of_next stepped)
        exact ⟨ih.1.trans one.1, ih.2.trans one.2⟩

variable (reached : (system T Tid).Reachable q)

include reached

theorem queue_ne_nil {i j : Nat} (pushed : j < (run.state i).pushed.length)
    (kept : (run.state i).handedOut.length ≤ j) : (run.state i).queue ≠ [] := by
  intro empty
  have lossless := (reachable_lossless_covered (run.toRun.reachable reached i)).1
  rw [Lossless, empty, List.append_nil] at lossless
  rw [lossless, List.length_map] at pushed
  omega

theorem hands_of_woken {i j k : Nat} {t : Tid} (pushed : j < (run.state i).pushed.length)
    (later : i ≤ k) (woken : (run.state k).pc t = .woken) :
    ∃ m, i ≤ m ∧ (j < (run.state m).handedOut.length ∨
      (run.state i).handedOut.length < (run.state m).handedOut.length) := by
  obtain ⟨m, after, acts⟩ := run.rechecks k t woken
  have grown := run.grows (later.trans after)
  by_cases handed : j < (run.state m).handedOut.length
  · exact ⟨m, later.trans after, .inl handed⟩
  · refine ⟨m + 1, by omega, .inr ?_⟩
    have queued := run.queue_ne_nil reached (pushed.trans_le grown.1) (Nat.not_lt.mp handed)
    generalize next : run.state (m + 1) = r
    have moved := run.moved_of_action acts
    rw [next] at moved
    cases moved with
    | recheck t here =>
        rw [takeOrWait_hands t queued]
        omega

/-- Beside a queued item, a waiting thread stops waiting or sees an item handed out. -/
theorem progress {i j : Nat} {w : Tid} (pushed : j < (run.state i).pushed.length)
    (kept : (run.state i).handedOut.length ≤ j) :
    ∃ m, i ≤ m ∧ ((run.state m).pc w ≠ .waiting ∨ j < (run.state m).handedOut.length ∨
      (run.state i).handedOut.length < (run.state m).handedOut.length) := by
  by_cases waits : (run.state i).pc w = .waiting
  · have covered := (reachable_lossless_covered (run.toRun.reachable reached i)).2 ⟨w, waits⟩
    have queued := List.length_pos_iff.mpr (run.queue_ne_nil reached pushed kept)
    have underWay : 0 < (run.state i).wokenCount ∨ 0 < (run.state i).notifyingCount := by omega
    rcases underWay with some | some
    · obtain ⟨t, woken⟩ := (census_pos _ _).mp some
      obtain ⟨m, after, ends⟩ :=
        run.hands_of_woken reached pushed (Nat.le_refl i) (by simpa using woken)
      exact ⟨m, after, .inr ends⟩
    · obtain ⟨t, notifying⟩ := (census_pos _ _).mp some
      obtain ⟨k, waiter, after, acts⟩ := run.notifies i t (by simpa using notifying)
      generalize next : run.state (k + 1) = r
      have moved := run.moved_of_action acts
      rw [next] at moved
      cases moved with
      | lost t here nobody => exact ⟨k, after, .inl (nobody w)⟩
      | wake t u here there =>
          have woken : (run.state (k + 1)).pc u = .woken := by
            rw [next]
            exact Function.update_self ..
          obtain ⟨m, ends⟩ := run.hands_of_woken reached pushed (by omega) woken
          exact ⟨m, ends.1, .inr ends.2⟩
  · exact ⟨i, Nat.le_refl i, .inl waits⟩

/-- The induction is on the items still to be handed out before the one in question. -/
theorem eventually {j : Nat} {w : Tid} (n : Nat) : ∀ i, j < (run.state i).pushed.length →
    j < (run.state i).handedOut.length + n →
    ∃ m, (run.state m).pc w ≠ .waiting ∨ j < (run.state m).handedOut.length := by
  induction n with
  | zero =>
      intro i _ near
      exact ⟨i, .inr near⟩
  | succ n ih =>
      intro i pushed near
      by_cases handed : j < (run.state i).handedOut.length
      · exact ⟨i, .inr handed⟩
      · obtain ⟨m, after, ends⟩ := run.progress reached pushed (Nat.not_lt.mp handed)
        rcases ends with awake | handed | more
        · exact ⟨m, .inl awake⟩
        · exact ⟨m, .inr handed⟩
        · exact ih m (pushed.trans_le (run.grows after).1) (by omega)

end FairRun

section Queue

variable [DecidableEq Tid] [Fintype Tid] {q : Thdq T Tid}

/-- Items are handed out in the order of the pushes, each once, and a thread whose turn it is
gets the front of the queue; while a thread waits, each queued item has a thread on its way to
it; these can always take their turns, and where they do, no thread waits for good beside an
item. -/
theorem queue_loses_nothing (reached : (system T Tid).Reachable q) :
    q.pushed = q.handedOut.map Prod.snd ++ q.queue ∧ Responds q ∧
    ((∃ t, q.pc t = .waiting) → q.queue.length ≤ q.wokenCount + q.notifyingCount) ∧
    Nonempty (FairRun q) ∧
    ∀ (run : FairRun q) (w : Tid) (j : Nat), j < q.pushed.length →
      ∃ i, (run.state i).pc w ≠ .waiting ∨ j < (run.state i).handedOut.length := by
  obtain ⟨lossless, covered⟩ := reachable_lossless_covered reached
  refine ⟨lossless, responds q, covered, exists_fairRun q, ?_⟩
  intro run w j pushed
  rw [← run.start] at pushed
  exact run.eventually reached (j + 1) 0 pushed (by omega)

/-- Two threads wait and one pushes twice: when one of the two has been woken and the
second push has not notified, the other sleeps beside two items. -/
def pushTwice : List (ThdqAction Nat (Fin 3)) :=
  [.pop 0, .pop 1, .push 2 7, .notify 2 (some 0), .push 2 8]

theorem queue_loses_nothing_pushTwice :
    ∃ q : Thdq Nat (Fin 3), (q.queue = [7, 8] ∧ q.pc 1 = .waiting) ∧
      q.queue.length ≤ q.wokenCount + q.notifyingCount ∧
      ∃ (run : FairRun q) (i : Nat),
        (run.state i).pc 1 ≠ .waiting ∨ 1 < (run.state i).handedOut.length := by
  obtain ⟨q, reached, left⟩ := System.exists_reachable (S := system Nat (Fin 3)) rfl pushTwice
    (fun q => q.queue == [7, 8] && decide (q.pc 1 = .waiting)) (by decide)
  have here : q.queue = [7, 8] ∧ q.pc 1 = .waiting := by simpa using left
  obtain ⟨lossless, _, covered, ⟨run⟩, awake⟩ := queue_loses_nothing reached
  have pushed : 1 < q.pushed.length := by
    rw [lossless, here.1, List.length_append]
    exact Nat.lt_add_left _ Nat.one_lt_two
  exact ⟨q, here, covered ⟨1, here.2⟩, run, awake run 1 1 pushed⟩

end Queue

end Thdq

end EpicPoold
