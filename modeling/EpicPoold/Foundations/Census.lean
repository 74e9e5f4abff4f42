import Mathlib.Tactic
import Mathlib.Algebra.BigOperators.Group.Finset.Basic

/-! The number of threads at a place, when one thread moves at a time. -/

namespace Foundations

section Census

variable {τ π : Type} [Fintype τ] [DecidableEq τ] (place : π → Bool) (pc : τ → π)

omit [DecidableEq τ] in
def census : Nat := ∑ t, if place (pc t) then 1 else 0

omit [DecidableEq τ] in
theorem census_pos : 0 < census place pc ↔ ∃ t, place (pc t) = true := by
  rw [census, Finset.sum_pos_iff]
  constructor
  · rintro ⟨t, _, counted⟩
    refine ⟨t, ?_⟩
    by_contra elsewhere
    rw [if_neg elsewhere] at counted
    exact Nat.lt_irrefl 0 counted
  · rintro ⟨t, here⟩
    refine ⟨t, Finset.mem_univ t, ?_⟩
    rw [if_pos here]
    exact Nat.one_pos

variable (t : τ) (next : π)

/-- A thread that moves is counted where it is, and no other is counted anew. -/
theorem census_move :
    census place (Function.update pc t next) + (if place (pc t) then 1 else 0) =
      census place pc + (if place next then 1 else 0) := by
  have others : ∑ u ∈ Finset.univ.erase t, (if place (Function.update pc t next u) then 1 else 0) =
      ∑ u ∈ Finset.univ.erase t, (if place (pc u) then 1 else 0) := by
    apply Finset.sum_congr rfl
    intro u member
    rw [Function.update_of_ne (Finset.ne_of_mem_erase member)]
  have moved := Finset.add_sum_erase Finset.univ
    (fun u => if place (Function.update pc t next u) then 1 else 0) (Finset.mem_univ t)
  have stood := Finset.add_sum_erase Finset.univ
    (fun u => if place (pc u) then 1 else 0) (Finset.mem_univ t)
  simp only [Function.update_self] at moved
  rw [census, census, ← moved, ← stood, others]
  omega

end Census

end Foundations
