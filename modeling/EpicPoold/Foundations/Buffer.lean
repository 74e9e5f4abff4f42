import Mathlib.Tactic
import Mathlib.Data.Finset.Basic

/-! Byte arrays of a fixed size, with writes at an offset. -/

namespace Foundations

structure Buffer (size : Nat) where
  bytes : List UInt8
  length_eq : bytes.length = size
  deriving DecidableEq

namespace Buffer

variable {size : Nat}

def filled (size : Nat) (byte : UInt8) : Buffer size := ⟨List.replicate size byte, by simp⟩

/-- A write that does not fit leaves the array alone; that it fits is for the
writer to show. -/
def write (buffer : Buffer size) (offset : Nat) (source : List UInt8) : Buffer size :=
  if fits : offset + source.length ≤ size then
    ⟨buffer.bytes.take offset ++ source ++ buffer.bytes.drop (offset + source.length), by
      simp only [List.length_append, List.length_take, List.length_drop, buffer.length_eq]
      omega⟩
  else buffer

def read (buffer : Buffer size) (offset count : Nat) : List UInt8 :=
  (buffer.bytes.drop offset).take count

/-- Equal everywhere but in `count` bytes from `offset`. -/
def AgreeOutside (offset count : Nat) (left right : Buffer size) : Prop :=
  left.bytes.take offset = right.bytes.take offset ∧
    left.bytes.drop (offset + count) = right.bytes.drop (offset + count)

@[ext] theorem ext_bytes {left right : Buffer size} (same : left.bytes = right.bytes) :
    left = right := by
  cases left
  cases right
  simpa using same

theorem write_bytes (buffer : Buffer size) (offset : Nat) (source : List UInt8)
    (fits : offset + source.length ≤ size) :
    (buffer.write offset source).bytes =
      buffer.bytes.take offset ++ source ++ buffer.bytes.drop (offset + source.length) := by
  simp [write, fits]

theorem write_whole (buffer : Buffer size) (source : List UInt8) (whole : source.length = size) :
    (buffer.write 0 source).bytes = source := by
  have covered : buffer.bytes.length ≤ 0 + source.length := by
    rw [buffer.length_eq, whole]
    omega
  rw [write_bytes _ _ _ (by omega), List.drop_of_length_le covered]
  simp

@[simp] theorem read_length (buffer : Buffer size) (offset count : Nat)
    (fits : offset + count ≤ size) : (buffer.read offset count).length = count := by
  simp only [read, List.length_take, List.length_drop, buffer.length_eq]
  omega

theorem read_prefix_write (buffer : Buffer size) (offset count : Nat) (source : List UInt8)
    (inside : offset + source.length ≤ count) (fits : count ≤ size) :
    (buffer.write offset source).read 0 count =
      buffer.read 0 offset ++ source ++
        buffer.read (offset + source.length) (count - (offset + source.length)) := by
  have within : offset + source.length ≤ size := by omega
  have joint : (buffer.bytes.take offset ++ source).length = offset + source.length := by
    rw [List.length_append, List.length_take, buffer.length_eq]
    omega
  simp only [read, List.drop_zero, write_bytes buffer offset source within]
  rw [List.take_append, joint, List.take_of_length_le (by omega)]

theorem write_write (buffer : Buffer size) (offset : Nat) (first second : List UInt8)
    (same : first.length = second.length) :
    (buffer.write offset first).write offset second = buffer.write offset second := by
  by_cases fits : offset + second.length ≤ size
  · have fitsFirst : offset + first.length ≤ size := by omega
    apply ext_bytes
    rw [write_bytes _ offset second fits, write_bytes buffer offset first fitsFirst,
      write_bytes buffer offset second fits]
    have front : (buffer.bytes.take offset).length = offset := by
      rw [List.length_take, buffer.length_eq]
      omega
    have kept : (buffer.bytes.take offset ++ first ++
        buffer.bytes.drop (offset + first.length)).take offset = buffer.bytes.take offset := by
      rw [List.append_assoc, List.take_append, front]
      simp
    have tail : (buffer.bytes.take offset ++ first ++
        buffer.bytes.drop (offset + first.length)).drop (offset + second.length) =
        buffer.bytes.drop (offset + second.length) := by
      have joint : (buffer.bytes.take offset ++ first).length = offset + second.length := by
        rw [List.length_append, front, same]
      rw [List.drop_append, List.drop_of_length_le (by omega), joint, Nat.sub_self,
        List.drop_zero, List.nil_append, same]
    rw [kept, tail]
  · have misfits : ¬ offset + first.length ≤ size := by omega
    simp [write, fits, misfits]

theorem write_append (buffer : Buffer size) (offset : Nat) (first second : List UInt8)
    (fits : offset + (first ++ second).length ≤ size) :
    (buffer.write offset first).write (offset + first.length) second =
      buffer.write offset (first ++ second) := by
  rw [List.length_append] at fits
  have fitsFirst : offset + first.length ≤ size := by omega
  have fitsSecond : offset + first.length + second.length ≤ size := by omega
  have front : (buffer.bytes.take offset ++ first).length = offset + first.length := by
    rw [List.length_append, List.length_take, buffer.length_eq]
    omega
  have tail : (buffer.bytes.take offset ++ first ++
      buffer.bytes.drop (offset + first.length)).drop (offset + first.length + second.length) =
      buffer.bytes.drop (offset + first.length + second.length) := by
    have beyond : offset + first.length + second.length - (offset + first.length) =
        second.length := by omega
    rw [List.drop_append, List.drop_of_length_le (by omega), front, beyond, List.nil_append,
      List.drop_drop]
  apply ext_bytes
  calc ((buffer.write offset first).write (offset + first.length) second).bytes
      = buffer.bytes.take offset ++ first ++ second ++
          buffer.bytes.drop (offset + first.length + second.length) := by
        rw [write_bytes _ _ _ fitsSecond, write_bytes buffer offset first fitsFirst, tail,
          ← front, List.take_left]
    _ = (buffer.write offset (first ++ second)).bytes := by
        rw [write_bytes _ _ _ (by rw [List.length_append]; omega), List.length_append,
          ← Nat.add_assoc, List.append_assoc _ first second]

theorem write_read (buffer : Buffer size) (offset count : Nat) (fits : offset + count ≤ size) :
    buffer.write offset (buffer.read offset count) = buffer := by
  have length := read_length buffer offset count fits
  apply ext_bytes
  calc (buffer.write offset (buffer.read offset count)).bytes
      = buffer.bytes.take offset ++ buffer.read offset count ++
          buffer.bytes.drop (offset + count) := by
        rw [write_bytes _ _ _ (by omega), length]
    _ = buffer.bytes.take offset ++ buffer.bytes.drop offset := by
        rw [read, ← List.drop_drop, List.append_assoc, List.take_append_drop]
    _ = buffer.bytes := List.take_append_drop _ _

theorem read_take (buffer : Buffer size) (offset count first : Nat) (short : first ≤ count) :
    (buffer.read offset count).take first = buffer.read offset first := by
  rw [read, read, List.take_take, Nat.min_eq_left short]

theorem read_drop (buffer : Buffer size) (offset count first : Nat) :
    (buffer.read offset count).drop first = buffer.read (offset + first) (count - first) := by
  rw [read, read, List.drop_take, List.drop_drop]

theorem read_write (buffer : Buffer size) (offset : Nat) (source : List UInt8)
    (fits : offset + source.length ≤ size) :
    (buffer.write offset source).read offset source.length = source := by
  have front : (buffer.bytes.take offset).length = offset := by
    rw [List.length_take, buffer.length_eq]
    omega
  rw [read, write_bytes _ _ _ fits, List.append_assoc, List.drop_append_of_le_length (by omega),
    List.drop_of_length_le (by omega), List.nil_append, List.take_left]

theorem agreeOutside_refl (offset count : Nat) (buffer : Buffer size) :
    AgreeOutside offset count buffer buffer := ⟨rfl, rfl⟩

theorem agreeOutside_trans {offset count : Nat} {first second third : Buffer size}
    (left : AgreeOutside offset count first second)
    (right : AgreeOutside offset count second third) :
    AgreeOutside offset count first third :=
  ⟨left.1.trans right.1, left.2.trans right.2⟩

theorem write_agreeOutside (buffer : Buffer size) (offset count start : Nat)
    (source : List UInt8) (low : offset ≤ start) (high : start + source.length ≤ offset + count) :
    AgreeOutside offset count (buffer.write start source) buffer := by
  by_cases fits : start + source.length ≤ size
  · have front : (buffer.bytes.take start).length = start := by
      rw [List.length_take, buffer.length_eq]
      omega
    constructor
    · rw [write_bytes buffer start source fits, List.append_assoc,
        List.take_append_of_le_length (by omega), List.take_take, Nat.min_eq_left low]
    · have joint : (buffer.bytes.take start ++ source).length = start + source.length := by
        rw [List.length_append, front]
      have beyond : start + source.length + (offset + count - (start + source.length)) =
          offset + count := by omega
      rw [write_bytes buffer start source fits, List.drop_append,
        List.drop_of_length_le (by omega), joint, List.drop_drop, List.nil_append, beyond]
  · simp only [write, fits, dite_false]
    exact agreeOutside_refl offset count buffer

theorem read_past_write (buffer : Buffer size) (offset start count : Nat) (source : List UInt8)
    (behind : offset + source.length ≤ start) :
    (buffer.write offset source).read start count = buffer.read start count := by
  obtain ⟨_, same⟩ := write_agreeOutside buffer offset source.length offset source le_rfl le_rfl
  obtain ⟨more, rfl⟩ := Nat.exists_eq_add_of_le behind
  rw [read, read, ← List.drop_drop, same, List.drop_drop]

end Buffer

end Foundations
