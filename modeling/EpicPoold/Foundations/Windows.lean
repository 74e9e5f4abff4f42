import Mathlib.Tactic

/-! Events in time that are grouped into numbered windows: a bound for each window gives
one for any interval that is too short to meet three of them. -/

namespace Foundations

variable {α : Type*}

theorem countP_le_add (p q r : α → Bool) (l : List α)
    (covers : ∀ e ∈ l, p e = true → q e = true ∨ r e = true) :
    l.countP p ≤ l.countP q + l.countP r := by
  induction l with
  | nil => simp
  | cons e rest ih =>
      obtain ⟨this, others⟩ := List.forall_mem_cons.mp covers
      have tail := ih others
      simp only [List.countP_cons]
      cases marked : p e with
      | false =>
          simp only [Bool.false_eq_true, if_false]
          omega
      | true =>
          rcases this marked with first | second
          · simp only [first, if_true]
            omega
          · simp only [second, if_true]
            omega

section Intervals

variable (time : α → Int) (window : α → Nat) (span : Int)

def Apart (l : List α) : Prop :=
  ∀ e ∈ l, ∀ later ∈ l, window e + 2 ≤ window later → time e + span < time later

/-- At most `limit` marked events in each window. -/
def Limited (marked : α → Bool) (limit : Nat) (l : List α) : Prop :=
  ∀ w, l.countP (fun e => marked e && decide (window e = w)) ≤ limit

def during (t : Int) (e : α) : Bool := decide (t ≤ time e ∧ time e ≤ t + span)

variable {time window span}

theorem exists_windows {l : List α} (apart : Apart time window span l) (t : Int) :
    ∃ w, ∀ e ∈ l, during time span t e = true → window e = w ∨ window e = w + 1 := by
  classical
  by_cases some : ∃ w, ∃ e ∈ l, during time span t e = true ∧ window e = w
  · obtain ⟨first, present, inside, lowest⟩ := Nat.find_spec some
    refine ⟨Nat.find some, ?_⟩
    intro e member within
    have above : Nat.find some ≤ window e := Nat.find_min' some ⟨e, member, within, rfl⟩
    have below : window e < Nat.find some + 2 := by
      by_contra far
      have gap := apart first present e member (by omega)
      simp only [during, decide_eq_true_eq] at inside within
      omega
    omega
  · refine ⟨0, ?_⟩
    intro e member within
    exact absurd ⟨window e, e, member, within, rfl⟩ some

theorem countP_during_le {marked : α → Bool} {limit : Nat} {l : List α}
    (limited : Limited window marked limit l) (apart : Apart time window span l) (t : Int) :
    l.countP (fun e => marked e && during time span t e) ≤ 2 * limit := by
  obtain ⟨w, two⟩ := exists_windows apart t
  calc
    _ ≤ l.countP (fun e => marked e && decide (window e = w)) +
          l.countP (fun e => marked e && decide (window e = w + 1)) := by
      apply countP_le_add
      intro e member both
      simp only [Bool.and_eq_true] at both
      simp only [both.1, Bool.true_and, decide_eq_true_eq]
      exact two e member both.2
    _ ≤ limit + limit := Nat.add_le_add (limited w) (limited (w + 1))
    _ = 2 * limit := (Nat.two_mul limit).symm

end Intervals

end Foundations
