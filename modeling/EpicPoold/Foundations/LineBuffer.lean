import EpicPoold.Foundations.Buffer
import EpicPoold.Foundations.Lines

/-! A stream received into an array and taken out of it piece by piece: what the part of
the array from `start` on, `len` bytes long, has to do with the stream. -/

namespace Foundations

variable {size : Nat} {sep : UInt8}

/-- The bytes in the array are what comes after the pieces done, and one more fits. -/
structure Holding (sep : UInt8) (buf : Buffer size) (start len : Nat) (stream : List UInt8)
    (done : List (List UInt8)) : Prop where
  cut : Cut sep stream done (buf.read start len)
  room : start + len < size

theorem holding_empty (buf : Buffer size) (positive : 0 < size) : Holding sep buf 0 0 [] [] := by
  refine ⟨?_, positive⟩
  rw [Buffer.read, List.take_zero]
  exact cut_nil

variable {buf : Buffer size} {start len : Nat} {stream : List UInt8} {done : List (List UInt8)}

theorem read_received (buf : Buffer size) (len : Nat) (data : List UInt8)
    (fits : len + data.length ≤ size) :
    (buf.write len data).read 0 (len + data.length) = buf.read 0 len ++ data := by
  rw [Buffer.read_prefix_write _ _ _ _ le_rfl fits, Nat.sub_self]
  exact List.append_nil _

theorem holding_receive (before : Holding sep buf 0 len stream done) (data : List UInt8)
    (fits : len + data.length < size) :
    Holding sep (buf.write len data) 0 (len + data.length) (stream ++ data) done := by
  refine ⟨?_, by omega⟩
  rw [read_received _ _ _ (by omega)]
  exact cut_receive before.cut data

theorem holding_take (before : Holding sep buf start len stream done) {i : Nat}
    (found : (buf.read start len).findIdx? (· = sep) = some i) (left : List UInt8)
    (own : left.length = i + 1) :
    Holding sep (buf.write start left) (start + (i + 1)) (len - (i + 1)) stream
      (done ++ [buf.read start (i + 1)]) := by
  have inside := (ended_of_findIdx found).1
  rw [Buffer.read_length _ _ _ (by have room := before.room; omega)] at inside
  have room := before.room
  refine ⟨?_, by omega⟩
  rw [Buffer.read_past_write _ _ _ _ _ (by omega)]
  have next := cut_take before.cut found
  rwa [Buffer.read_take _ _ _ _ (by omega), Buffer.read_drop] at next

theorem read_moved (buf : Buffer size) (start len : Nat) (inside : start + len ≤ size) :
    (if 0 < len ∧ start ≠ 0 then buf.write 0 (buf.read start len) else buf).read 0 len =
      buf.read start len := by
  have length := Buffer.read_length buf start len inside
  split
  · have moved := Buffer.read_write buf 0 (buf.read start len) (by omega)
    rwa [length] at moved
  · rename_i still
    by_cases front : start = 0
    · rw [front]
    · have empty : len = 0 := by omega
      rw [empty, Buffer.read, Buffer.read, List.take_zero, List.take_zero]

theorem holding_move (before : Holding sep buf start len stream done) :
    Holding sep (if 0 < len ∧ start ≠ 0 then buf.write 0 (buf.read start len) else buf) 0 len
      stream done := by
  have room := before.room
  refine ⟨?_, by omega⟩
  rw [read_moved buf start len (by omega)]
  exact before.cut

theorem holding_whole (holding : Holding sep buf start len stream done)
    (none : (buf.read start len).findIdx? (· = sep) = none) :
    done = pieces sep stream ∧ buf.read start len = remainder sep stream := by
  obtain ⟨all, rest⟩ := frame_of_whole_cut holding.cut (notMem_of_findIdx none)
  exact ⟨all.symm, rest.symm⟩

/-- The bytes in the array come after the pieces done, and while more are read no
separator is left in it. -/
structure Framed (sep : UInt8) (buf : Buffer size) (start len : Nat) (stream : List UInt8)
    (done : List (List UInt8)) (reading : Prop) : Prop where
  holding : Holding sep buf start len stream done
  whole : reading → (buf.read 0 len).findIdx? (· = sep) = none

/-- The finished pieces of the stream are done, the array holds exactly the rest, and one
more byte fits. -/
structure Exact (sep : UInt8) (buf : Buffer size) (len : Nat) (stream : List UInt8)
    (done : List (List UInt8)) : Prop where
  done : done = pieces sep stream
  held : buf.read 0 len = remainder sep stream
  room : len < size

theorem Framed.exact {reading : Prop} (framed : Framed sep buf start len stream done reading)
    (here : reading) (front : start = 0) : Exact sep buf len stream done := by
  have holding := framed.holding
  rw [front] at holding
  have room := holding.room
  obtain ⟨all, rest⟩ := holding_whole holding (framed.whole here)
  exact ⟨all, rest, by omega⟩

theorem framed_empty (buf : Buffer size) (positive : 0 < size) (reading : Prop) :
    Framed sep buf 0 0 [] [] reading := by
  refine ⟨holding_empty buf positive, ?_⟩
  intro _
  rw [Buffer.read, List.take_zero]
  rfl

theorem framed_move (before : Holding sep buf start len stream done)
    (none : (buf.read start len).findIdx? (· = sep) = none) (reading : Prop) :
    Framed sep (if 0 < len ∧ start ≠ 0 then buf.write 0 (buf.read start len) else buf) 0 len
      stream done reading := by
  refine ⟨holding_move before, ?_⟩
  intro _
  rw [read_moved buf start len (Nat.le_of_lt before.room)]
  exact none

theorem holding_initial (holding : Holding sep buf start len stream done) {i : Nat}
    (found : (buf.read start len).findIdx? (· = sep) = some i) :
    done ++ [buf.read start (i + 1)] <+: pieces sep stream := by
  have inside := (ended_of_findIdx found).1
  have room := holding.room
  rw [Buffer.read_length _ _ _ (by omega)] at inside
  have next := cut_take holding.cut found
  rw [Buffer.read_take _ _ _ _ (by omega)] at next
  exact cut_initial next (List.prefix_refl _)

end Foundations
