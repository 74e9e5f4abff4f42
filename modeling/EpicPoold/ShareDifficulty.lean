import EpicPoold.Client

/-! The two readings of a share's hash: the 32-bit test against the target that the
miner was sent, and the difficulty that decides about a block. -/

namespace EpicPoold

open Foundations

namespace V32

theorem getWork32_toNat (hash : V32) : hash.getWork32.toNat = valueBE (hash.data.read 0 4) := by
  have size : (hash.data.read 0 4).length = 4 := Buffer.read_length _ _ _ (by decide)
  rw [getWork32, bswap32_toNat, load32_toNat _ size]
  rw [← byteSwap_valueLE, size]

theorem getWork64_toNat (hash : V32) : hash.getWork64.toNat = valueBE (hash.data.read 0 8) := by
  have size : (hash.data.read 0 8).length = 8 := Buffer.read_length _ _ _ (by decide)
  rw [getWork64, bswap64_toNat, load64_toNat _ size]
  rw [← byteSwap_valueLE, size]

/-- The 32-bit reading is the upper half of the 64-bit one. -/
theorem getWork32_eq_div (hash : V32) :
    hash.getWork32.toNat = hash.getWork64.toNat / 2 ^ 32 := by
  have halves : hash.data.read 0 8 = hash.data.read 0 4 ++ hash.data.read 4 4 := by
    simp only [Buffer.read, List.drop_zero]
    rw [← List.take_add]
  have size : (hash.data.read 4 4).length = 4 := Buffer.read_length _ _ _ (by decide)
  have low := valueBE_lt (hash.data.read 4 4)
  rw [getWork32_toNat, getWork64_toNat, halves, valueBE_append, size]
  rw [size] at low
  omega

end V32

namespace Client

/-- Division of unsigned words in C++, which is undefined for a zero divisor. -/
def divide (n d : UInt64) : Option UInt64 := if d = 0 then none else some (n / d)

def checkedWorkToDiff (work : UInt64) : Option UInt64 :=
  if work = 0 then some 0xffffffffffffffff else divide 0xffffffffffffffff work

theorem checkedWorkToDiff_eq (work : UInt64) : checkedWorkToDiff work = some (workToDiff work) := by
  rw [checkedWorkToDiff, workToDiff]
  split
  · rfl
  · rename_i nonzero
    rw [divide, if_neg nonzero]

theorem workToDiff_toNat (work : UInt64) :
    (workToDiff work).toNat = (2 ^ 64 - 1) / max work.toNat 1 := by
  rw [workToDiff]
  split
  · rename_i zero
    rw [zero]
    rfl
  · rename_i nonzero
    have positive : 1 ≤ work.toNat := by
      by_contra small
      apply nonzero
      apply UInt64.toNat.inj
      have none : work.toNat = 0 := by omega
      rw [none]
      rfl
    rw [Nat.max_eq_left positive, UInt64.toNat_div]
    rfl

theorem workToDiff_antitone {less more : UInt64} (le : less ≤ more) :
    workToDiff more ≤ workToDiff less := by
  rw [UInt64.le_iff_toNat_le, workToDiff_toNat, workToDiff_toNat]
  have works : less.toNat ≤ more.toNat := UInt64.le_iff_toNat_le.mp le
  apply Nat.div_le_div_left
  · exact max_le_max_right 1 works
  · exact Nat.lt_of_lt_of_le Nat.one_pos (le_max_right _ _)

/-- Both divisions round down, and 2^52 is where either of them turns. -/
theorem diff_le_workToDiff (work : UInt64) :
    4096 ≤ workToDiff work ↔ work.toNat / 2 ^ 32 ≤ (2 ^ 32 - 1) / 4096 := by
  have constant : UInt64.toNat 4096 = 4096 := rfl
  rw [UInt64.le_iff_toNat_le, workToDiff_toNat, constant]
  rw [Nat.le_div_iff_mul_le (Nat.lt_of_lt_of_le Nat.one_pos (le_max_right _ _))]
  omega

/-- The accept test of process_method_submit agrees with the exact difficulty. -/
theorem share_test_agrees (hash : V32) :
    (hash.getWork32.toNat = valueBE (hash.data.read 0 4) ∧
      hash.getWork64.toNat = valueBE (hash.data.read 0 8)) ∧
    (hash.getWork32 ≤ 0xffffffff / fixDiff ↔ 4096 ≤ workToDiff hash.getWork64) ∧
    diffToTarget fixDiff = 0xffffffff / fixDiff ∧
    (∀ work, checkedWorkToDiff work = some (workToDiff work)) ∧
    ∀ less more : UInt64, less ≤ more → workToDiff more ≤ workToDiff less := by
  refine ⟨⟨hash.getWork32_toNat, hash.getWork64_toNat⟩, ?_, rfl, checkedWorkToDiff_eq,
    fun _ _ => workToDiff_antitone⟩
  have target : (0xffffffff / fixDiff : UInt32).toNat = (2 ^ 32 - 1) / 4096 := rfl
  rw [UInt32.le_iff_toNat_le, target, hash.getWork32_eq_div, diff_le_workToDiff]

end Client

end EpicPoold
