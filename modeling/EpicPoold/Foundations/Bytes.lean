import Mathlib.Tactic
import Mathlib.Data.Nat.Digits.Lemmas

/-! Fixed-width words as byte lists, least significant byte first. -/

namespace Foundations

theorem forall_uint8 {holds : UInt8 → Prop} (every : ∀ n : Fin 256, holds (UInt8.ofNat n.val))
    (c : UInt8) : holds c := by
  simpa using every ⟨c.toNat, c.toNat_lt⟩

def valueLE (bytes : List UInt8) : Nat := Nat.ofDigits 256 (bytes.map UInt8.toNat)

def bytesLE : Nat → Nat → List UInt8
  | 0, _ => []
  | width + 1, n => UInt8.ofNat n :: bytesLE width (n / 256)

def bytesBE (width n : Nat) : List UInt8 := (bytesLE width n).reverse

def byteSwap (width n : Nat) : Nat := valueLE (bytesBE width n)

@[simp] theorem valueLE_nil : valueLE [] = 0 := rfl

@[simp] theorem valueLE_cons (byte : UInt8) (rest : List UInt8) :
    valueLE (byte :: rest) = byte.toNat + 256 * valueLE rest := by
  simp [valueLE, Nat.ofDigits_cons]

@[simp] theorem bytesLE_length (width n : Nat) : (bytesLE width n).length = width := by
  induction width generalizing n with
  | zero => rfl
  | succ width ih => simp [bytesLE, ih]

@[simp] theorem bytesBE_length (width n : Nat) : (bytesBE width n).length = width := by
  simp [bytesBE]

theorem valueLE_bytesLE (width n : Nat) : valueLE (bytesLE width n) = n % 256 ^ width := by
  induction width generalizing n with
  | zero => simp [bytesLE, Nat.mod_one]
  | succ width ih =>
      rw [bytesLE, valueLE_cons, ih, pow_succ', Nat.mod_mul]
      simp

theorem valueLE_bytesLE_of_lt (width n : Nat) (bound : n < 256 ^ width) :
    valueLE (bytesLE width n) = n := by
  rw [valueLE_bytesLE, Nat.mod_eq_of_lt bound]

theorem valueLE_lt (bytes : List UInt8) : valueLE bytes < 256 ^ bytes.length := by
  have digits : ∀ digit ∈ bytes.map UInt8.toNat, digit < 256 := by
    intro digit member
    obtain ⟨byte, _, rfl⟩ := List.mem_map.mp member
    exact byte.toNat_lt
  simpa [valueLE] using Nat.ofDigits_lt_base_pow_length (by decide : 1 < 256) digits

theorem bytesLE_valueLE (bytes : List UInt8) :
    bytesLE bytes.length (valueLE bytes) = bytes := by
  induction bytes with
  | nil => rfl
  | cons byte rest ih =>
      have low : byte.toNat < 256 := byte.toNat_lt
      have shifted : (byte.toNat + 256 * valueLE rest) / 256 = valueLE rest := by omega
      have kept : UInt8.ofNat (byte.toNat + 256 * valueLE rest) = byte := by
        apply UInt8.toNat_inj.mp
        simp only [UInt8.toNat_ofNat']
        omega
      rw [valueLE_cons, List.length_cons, bytesLE, shifted, ih, kept]

theorem bytesLE_eq_iff (width n : Nat) (bytes : List UInt8) (size : bytes.length = width)
    (bound : n < 256 ^ width) : bytesLE width n = bytes ↔ n = valueLE bytes := by
  constructor
  · rintro rfl
    exact (valueLE_bytesLE_of_lt width n bound).symm
  · rintro rfl
    rw [← size]
    exact bytesLE_valueLE bytes

theorem bytesLE_append (low high first second : Nat) (bound : first < 256 ^ low) :
    bytesLE low first ++ bytesLE high second =
      bytesLE (low + high) (first + 256 ^ low * second) := by
  induction low generalizing first with
  | zero =>
      have zero : first = 0 := by simpa using bound
      simp [bytesLE, zero]
  | succ low ih =>
      have half : first / 256 < 256 ^ low := by
        rw [pow_succ] at bound
        omega
      have shifted : (first + 256 ^ (low + 1) * second) / 256 =
          first / 256 + 256 ^ low * second := by
        rw [pow_succ', mul_assoc]
        omega
      have lowByte : UInt8.ofNat (first + 256 ^ (low + 1) * second) = UInt8.ofNat first := by
        apply UInt8.toNat_inj.mp
        rw [pow_succ', mul_assoc]
        simp
      rw [Nat.add_right_comm, bytesLE, bytesLE, List.cons_append, ih (first / 256) half,
        shifted, lowByte]

theorem byteSwap_lt (width n : Nat) : byteSwap width n < 256 ^ width := by
  simpa [byteSwap] using valueLE_lt (bytesBE width n)

theorem bytesLE_byteSwap (width n : Nat) : bytesLE width (byteSwap width n) = bytesBE width n := by
  exact (bytesLE_eq_iff width (byteSwap width n) (bytesBE width n) (by simp)
    (byteSwap_lt width n)).mpr rfl

theorem bytesBE_byteSwap (width n : Nat) : bytesBE width (byteSwap width n) = bytesLE width n := by
  rw [bytesBE, bytesLE_byteSwap, bytesBE, List.reverse_reverse]

theorem bytesLE_injective (width first second : Nat) (firstBound : first < 256 ^ width)
    (secondBound : second < 256 ^ width) (same : bytesLE width first = bytesLE width second) :
    first = second := by
  rw [← valueLE_bytesLE_of_lt width first firstBound, same,
    valueLE_bytesLE_of_lt width second secondBound]

def valueBE (bytes : List UInt8) : Nat := valueLE bytes.reverse

theorem valueBE_append (high low : List UInt8) :
    valueBE (high ++ low) = valueBE low + 256 ^ low.length * valueBE high := by
  simp [valueBE, valueLE, Nat.ofDigits_append]

theorem valueBE_lt (bytes : List UInt8) : valueBE bytes < 256 ^ bytes.length := by
  simpa [valueBE] using valueLE_lt bytes.reverse

theorem byteSwap_valueLE (bytes : List UInt8) :
    byteSwap bytes.length (valueLE bytes) = valueBE bytes := by
  rw [byteSwap, bytesBE, bytesLE_valueLE, valueBE]

/-! Loads and stores of 32- and 64-bit words on a little-endian machine. -/

def load32 (bytes : List UInt8) : UInt32 := UInt32.ofNat (valueLE bytes)

def load64 (bytes : List UInt8) : UInt64 := UInt64.ofNat (valueLE bytes)

def store32 (word : UInt32) : List UInt8 := bytesLE 4 word.toNat

def bswap32 (word : UInt32) : UInt32 := UInt32.ofNat (byteSwap 4 word.toNat)

def bswap64 (word : UInt64) : UInt64 := UInt64.ofNat (byteSwap 8 word.toNat)

@[simp] theorem store32_length (word : UInt32) : (store32 word).length = 4 := by
  simp [store32]

theorem load32_toNat (bytes : List UInt8) (size : bytes.length = 4) :
    (load32 bytes).toNat = valueLE bytes := by
  have bound := valueLE_lt bytes
  rw [size] at bound
  rw [load32, UInt32.toNat_ofNat']
  exact Nat.mod_eq_of_lt (by simpa using bound)

theorem load64_toNat (bytes : List UInt8) (size : bytes.length = 8) :
    (load64 bytes).toNat = valueLE bytes := by
  have bound := valueLE_lt bytes
  rw [size] at bound
  rw [load64, UInt64.toNat_ofNat']
  exact Nat.mod_eq_of_lt (by simpa using bound)

theorem store32_load32 (bytes : List UInt8) (size : bytes.length = 4) :
    store32 (load32 bytes) = bytes := by
  rw [store32, load32_toNat bytes size, ← size, bytesLE_valueLE]

theorem load32_store32 (word : UInt32) : load32 (store32 word) = word := by
  apply UInt32.toNat.inj
  rw [load32_toNat _ (store32_length word), store32]
  exact valueLE_bytesLE_of_lt 4 word.toNat (by simpa using word.toNat_lt)

theorem store32_injective {first second : UInt32} (same : store32 first = store32 second) :
    first = second := by
  rw [← load32_store32 first, same, load32_store32]

theorem bswap32_toNat (word : UInt32) : (bswap32 word).toNat = byteSwap 4 word.toNat := by
  have bound := byteSwap_lt 4 word.toNat
  rw [bswap32, UInt32.toNat_ofNat']
  exact Nat.mod_eq_of_lt (by simpa using bound)

theorem bswap64_toNat (word : UInt64) : (bswap64 word).toNat = byteSwap 8 word.toNat := by
  have bound := byteSwap_lt 8 word.toNat
  rw [bswap64, UInt64.toNat_ofNat']
  exact Nat.mod_eq_of_lt (by simpa using bound)

theorem shifted_or_toNat (high low : UInt32) :
    ((high.toUInt64 <<< 32) ||| low.toUInt64).toNat = low.toNat + 256 ^ 4 * high.toNat := by
  have lowBound : low.toNat < 2 ^ 32 := low.toNat_lt
  have highBound : high.toNat < 2 ^ 32 := high.toNat_lt
  have fits : high.toNat * 2 ^ 32 < 2 ^ 64 := by omega
  have shifted : (high.toUInt64 <<< 32).toNat = high.toNat <<< 32 := by
    simp only [UInt64.toNat_shiftLeft, UInt32.toNat_toUInt64, Nat.shiftLeft_eq]
    exact Nat.mod_eq_of_lt fits
  calc ((high.toUInt64 <<< 32) ||| low.toUInt64).toNat
      = high.toNat <<< 32 ||| low.toNat := by
        rw [UInt64.toNat_or, shifted, UInt32.toNat_toUInt64]
    _ = high.toNat <<< 32 + low.toNat := (Nat.shiftLeft_add_eq_or_of_lt lowBound _).symm
    _ = low.toNat + 256 ^ 4 * high.toNat := by
        rw [Nat.shiftLeft_eq]
        omega

end Foundations
