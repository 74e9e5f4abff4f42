import Mathlib.Tactic
import Mathlib.Data.Finset.Basic

/-! A reader/writer lock, with the identities of those who hold it. -/

namespace Foundations

/-- A writer and a reader never hold the lock together: no value of this type
shows both. -/
structure SharedMutex (τ ρ : Type) where
  writer : Option τ
  readers : Finset ρ
  exclusive : writer.isSome → readers = ∅

namespace SharedMutex

variable {τ ρ : Type} [DecidableEq ρ]

def free : SharedMutex τ ρ := ⟨none, ∅, by simp⟩

def lock (m : SharedMutex τ ρ) (thread : τ) : Option (SharedMutex τ ρ) :=
  if available : m.writer = none ∧ m.readers = ∅ then
    some ⟨some thread, m.readers, fun _ => available.2⟩
  else none

def unlock (m : SharedMutex τ ρ) : SharedMutex τ ρ := ⟨none, m.readers, by simp⟩

def lockShared (m : SharedMutex τ ρ) (reader : ρ) : Option (SharedMutex τ ρ) :=
  if available : m.writer = none then
    some ⟨none, insert reader m.readers, by simp⟩
  else none

def unlockShared (m : SharedMutex τ ρ) (reader : ρ) : SharedMutex τ ρ :=
  ⟨m.writer, m.readers.erase reader, fun held => by simp [m.exclusive held]⟩

omit [DecidableEq ρ] in
theorem no_writer_of_reader (m : SharedMutex τ ρ) (reader : ρ) (reads : reader ∈ m.readers) :
    m.writer = none := by
  by_contra held
  have none := m.exclusive (Option.isSome_iff_ne_none.mpr held)
  simp [none] at reads

theorem lock_eq_some (m m' : SharedMutex τ ρ) (thread : τ) (locked : m.lock thread = some m') :
    m.writer = none ∧ m.readers = ∅ ∧ m'.writer = some thread ∧ m'.readers = ∅ := by
  unfold lock at locked
  split at locked
  · rename_i available
    cases locked
    exact ⟨available.1, available.2, rfl, available.2⟩
  · cases locked

theorem lockShared_eq_some (m m' : SharedMutex τ ρ) (reader : ρ)
    (locked : m.lockShared reader = some m') :
    m.writer = none ∧ m'.writer = none ∧ m'.readers = insert reader m.readers := by
  unfold lockShared at locked
  split at locked
  · rename_i available
    cases locked
    exact ⟨available, rfl, rfl⟩
  · cases locked

omit [DecidableEq ρ] in
@[simp] theorem unlock_writer (m : SharedMutex τ ρ) : m.unlock.writer = none := rfl

omit [DecidableEq ρ] in
@[simp] theorem unlock_readers (m : SharedMutex τ ρ) : m.unlock.readers = m.readers := rfl

@[simp] theorem unlockShared_writer (m : SharedMutex τ ρ) (reader : ρ) :
    (m.unlockShared reader).writer = m.writer := rfl

@[simp] theorem unlockShared_readers (m : SharedMutex τ ρ) (reader : ρ) :
    (m.unlockShared reader).readers = m.readers.erase reader := rfl

end SharedMutex

end Foundations
