import Mathlib.Tactic
import Mathlib.Data.Fintype.Card
import Mathlib.Data.Fin.Basic

/-! A fixed array of places, each empty or taken. -/

namespace Foundations

abbrev Slots (n : Nat) (α : Type) := Fin n → Option α

namespace Slots

variable {n : Nat} {α : Type}

def empty : Slots n α := fun _ => none

def put (slots : Slots n α) (i : Fin n) (a : α) : Slots n α := Function.update slots i (some a)

def clear (slots : Slots n α) (i : Fin n) : Slots n α := Function.update slots i none

def taken (slots : Slots n α) : Finset (Fin n) := Finset.univ.filter (fun i => (slots i).isSome)

def occupied (slots : Slots n α) : Nat := slots.taken.card

def firstFree (slots : Slots n α) : Option (Fin n) :=
  (List.finRange n).find? (fun i => (slots i).isNone)

/-- The first taken place from `start` on. -/
def nextTaken (slots : Slots n α) (start : Nat) : Option (Fin n) :=
  (List.finRange n).find? (fun i => decide (start ≤ i.val) && (slots i).isSome)

@[simp] theorem put_same (slots : Slots n α) (i : Fin n) (a : α) : slots.put i a i = some a := by
  simp [put]

@[simp] theorem clear_same (slots : Slots n α) (i : Fin n) : slots.clear i i = none := by
  simp [clear]

theorem put_other (slots : Slots n α) {i j : Fin n} (a : α) (other : j ≠ i) :
    slots.put i a j = slots j := by
  simp [put, Function.update_of_ne other]

theorem clear_other (slots : Slots n α) {i j : Fin n} (other : j ≠ i) :
    slots.clear i j = slots j := by
  simp [clear, Function.update_of_ne other]

theorem mem_taken (slots : Slots n α) (i : Fin n) : i ∈ slots.taken ↔ (slots i).isSome = true := by
  simp [taken]

@[simp] theorem occupied_empty : (empty : Slots n α).occupied = 0 := by
  simp [occupied, taken, empty]

theorem taken_put (slots : Slots n α) (i : Fin n) (a : α) :
    (slots.put i a).taken = insert i slots.taken := by
  ext j
  rw [Finset.mem_insert, mem_taken, mem_taken]
  by_cases same : j = i
  · subst same
    simp
  · rw [put_other slots a same]
    simp [same]

theorem taken_clear (slots : Slots n α) (i : Fin n) :
    (slots.clear i).taken = slots.taken.erase i := by
  ext j
  rw [Finset.mem_erase, mem_taken, mem_taken]
  by_cases same : j = i
  · subst same
    simp
  · rw [clear_other slots same]
    simp [same]

theorem occupied_put_free (slots : Slots n α) (i : Fin n) (a : α) (free : slots i = none) :
    (slots.put i a).occupied = slots.occupied + 1 := by
  rw [occupied, taken_put, Finset.card_insert_of_notMem, occupied]
  simp [mem_taken, free]

theorem occupied_put_taken (slots : Slots n α) (i : Fin n) (a b : α) (there : slots i = some b) :
    (slots.put i a).occupied = slots.occupied := by
  rw [occupied, taken_put, Finset.insert_eq_of_mem, occupied]
  simp [mem_taken, there]

theorem occupied_clear (slots : Slots n α) (i : Fin n) (b : α) (there : slots i = some b) :
    (slots.clear i).occupied + 1 = slots.occupied := by
  rw [occupied, taken_clear, occupied]
  exact Finset.card_erase_add_one (by simp [mem_taken, there])

theorem firstFree_eq_some {slots : Slots n α} {i : Fin n} (found : slots.firstFree = some i) :
    slots i = none := by
  have free := List.find?_some found
  simpa using free

theorem nextTaken_eq_none {slots : Slots n α} {start : Nat} (last : slots.nextTaken start = none)
    {i : Fin n} (later : start ≤ i.val) : slots i = none := by
  have absent := List.find?_eq_none.mp last i (List.mem_finRange i)
  simpa [later] using absent

theorem nextTaken_le {slots : Slots n α} {start : Nat} {i j : Fin n}
    (found : slots.nextTaken start = some i) (later : start ≤ j.val) (there : slots j ≠ none) :
    i.val ≤ j.val := by
  obtain ⟨_, before, after, split, skipped⟩ := List.find?_eq_some_iff_append.mp found
  have sorted : (before ++ i :: after).Pairwise (· < ·) := by
    rw [← split]
    exact List.pairwise_lt_finRange n
  have member : j ∈ before ++ i :: after := by
    rw [← split]
    exact List.mem_finRange j
  rcases List.mem_append.mp member with early | late
  · have missed := skipped j early
    simp [later, there] at missed
  · rcases List.mem_cons.mp late with rfl | late
    · exact le_rfl
    · exact le_of_lt ((List.pairwise_cons.mp (List.pairwise_append.mp sorted).2.1).1 j late)

theorem occupied_of_full {slots : Slots n α} (full : slots.firstFree = none) :
    slots.occupied = n := by
  have all : slots.taken = Finset.univ := by
    ext i
    rw [mem_taken]
    have none := List.find?_eq_none.mp full i (List.mem_finRange i)
    simpa [Option.isNone_iff_eq_none, Option.isSome_iff_ne_none] using none
  rw [occupied, all, Finset.card_univ, Fintype.card_fin]

def total (slots : Slots n α) (weight : Option α → Nat) : Nat := ∑ i, weight (slots i)

theorem total_update (slots : Slots n α) (weight : Option α → Nat) (i : Fin n) (a : Option α) :
    total (Function.update slots i a) weight + weight (slots i) =
      slots.total weight + weight a := by
  have others : ∑ j ∈ Finset.univ \ {i}, weight (Function.update slots i a j) =
      ∑ j ∈ Finset.univ \ {i}, weight (slots j) := by
    refine Finset.sum_congr rfl ?_
    intro j member
    have apart : j ≠ i := by simpa using member
    rw [Function.update_of_ne apart]
  rw [total, total, Finset.sum_eq_add_sum_sdiff_singleton_of_mem (Finset.mem_univ i), others,
    Finset.sum_eq_add_sum_sdiff_singleton_of_mem (Finset.mem_univ i)
      (fun j => weight (slots j)), Function.update_self]
  omega

theorem eq_none_of_occupied {slots : Slots n α} (empty : slots.occupied = 0) (i : Fin n) :
    slots i = none := by
  have absent : i ∉ slots.taken := by
    rw [Finset.card_eq_zero.mp empty]
    exact Finset.notMem_empty i
  simpa [mem_taken] using absent

end Slots

end Foundations
