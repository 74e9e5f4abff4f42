import Mathlib.Tactic

/-! Resources that are opened and closed over and over, and the owners that hold them: why
no resource is closed twice. `closes` counts the closes of a resource since it was opened
last, and is `none` for one that was never opened. -/

namespace Foundations

variable {Owner R : Type*}

def opened [DecidableEq R] (closes : R → Option Nat) (r : R) : R → Option Nat :=
  Function.update closes r (some 0)

def close [DecidableEq R] (closes : R → Option Nat) (r : R) : R → Option Nat :=
  Function.update closes r ((closes r).map (· + 1))

/-- Whatever is held is open and has one owner, who holds it once. -/
structure Owned (held : Owner → R → Nat) (closes : R → Option Nat) : Prop where
  once : ∀ x r, held x r ≤ 1
  apart : ∀ x y r, 0 < held x r → 0 < held y r → x = y
  live : ∀ x r, 0 < held x r → closes r = some 0
  atMostOnce : ∀ r k, closes r = some k → k ≤ 1

namespace Owned

variable {held after : Owner → R → Nat} {closes : R → Option Nat} (owned : Owned held closes)

include owned

theorem not_held {r : R} (free : closes r ≠ some 0) (x : Owner) : held x r = 0 :=
  Nat.eq_zero_of_not_pos (fun held => free (owned.live x r held))

theorem fewer (rest : ∀ x r, after x r ≤ held x r) : Owned after closes where
  once x r := (rest x r).trans (owned.once x r)
  apart x y r first second :=
    owned.apart x y r (first.trans_le (rest x r)) (second.trans_le (rest y r))
  live x r held := owned.live x r (held.trans_le (rest x r))
  atMostOnce := owned.atMostOnce

variable [DecidableEq R]

theorem updated {r : R} {count : Option Nat} (same : ∀ x q, q ≠ r → after x q ≤ held x q)
    (once : ∀ x, after x r ≤ 1) (apart : ∀ x y, 0 < after x r → 0 < after y r → x = y)
    (live : ∀ x, 0 < after x r → count = some 0) (atMostOnce : ∀ k, count = some k → k ≤ 1) :
    Owned after (Function.update closes r count) where
  once x q := by
    by_cases here : q = r
    · rw [here]
      exact once x
    · exact (same x q here).trans (owned.once x q)
  apart x y q first second := by
    by_cases here : q = r
    · rw [here] at first second
      exact apart x y first second
    · exact owned.apart x y q (first.trans_le (same x q here)) (second.trans_le (same y q here))
  live x q holds := by
    by_cases here : q = r
    · rw [here] at holds ⊢
      rw [Function.update_self]
      exact live x holds
    · rw [Function.update_of_ne here]
      exact owned.live x q (holds.trans_le (same x q here))
  atMostOnce q k counted := by
    by_cases here : q = r
    · rw [here, Function.update_self] at counted
      exact atMostOnce k counted
    · rw [Function.update_of_ne here] at counted
      exact owned.atMostOnce q k counted

theorem taken {x : Owner} {r : R} (free : closes r ≠ some 0) (there : after x r ≤ held x r + 1)
    (rest : ∀ y q, y ≠ x ∨ q ≠ r → after y q ≤ held y q) : Owned after (opened closes r) := by
  have nobody : ∀ y, 0 < after y r → y = x := by
    intro y holds
    by_contra other
    have less := rest y r (.inl other)
    rw [owned.not_held free y] at less
    omega
  refine owned.updated (fun y q apart => rest y q (.inr apart)) ?_ ?_ (fun _ _ => rfl) ?_
  · intro y
    by_cases here : y = x
    · rw [here]
      rwa [owned.not_held free x] at there
    · exact (rest y r (.inl here)).trans (owned.once y r)
  · intro y z first second
    rw [nobody y first, nobody z second]
  · intro k counted
    cases counted
    exact Nat.zero_le 1

theorem closed {x : Owner} {r : R} (gone : after x r < held x r)
    (rest : ∀ y q, after y q ≤ held y q) : Owned after (close closes r) := by
  have holds : 0 < held x r := Nat.zero_lt_of_lt gone
  have nobody : ∀ y, after y r = 0 := by
    intro y
    by_contra still
    have own := owned.apart y x r ((Nat.pos_of_ne_zero still).trans_le (rest y r)) holds
    rw [own] at still
    have once := owned.once x r
    omega
  refine owned.updated (fun y q _ => rest y q) ?_ ?_ ?_ ?_
  · intro y
    rw [nobody y]
    exact Nat.zero_le 1
  · intro y z first
    rw [nobody y] at first
    cases first
  · intro y first
    rw [nobody y] at first
    cases first
  · intro k counted
    rw [owned.live x r holds] at counted
    cases counted
    exact le_rfl

theorem closedAll {x : Owner} (rs : List R) (gone : ∀ r, after x r + rs.count r ≤ held x r)
    (rest : ∀ y r, after y r ≤ held y r) : Owned after (rs.foldl close closes) := by
  classical
  induction rs generalizing held closes with
  | nil => exact owned.fewer rest
  | cons r rs ih =>
      -- what is left once the first of them is closed
      let middle := Function.update held x (fun q => after x q + rs.count q)
      have own : ∀ q, middle x q = after x q + rs.count q := by simp [middle]
      have others : ∀ y, y ≠ x → middle y = held y := by
        intro y apart
        simp [middle, apart]
      have first : Owned middle (close closes r) := by
        refine owned.closed (x := x) ?_ ?_
        · have here := gone r
          rw [List.count_cons_self] at here
          rw [own]
          omega
        · intro y q
          by_cases mine : y = x
          · have here := gone q
            rw [List.count_cons] at here
            rw [mine, own]
            omega
          · rw [others y mine]
      refine ih first (fun q => (own q).ge) ?_
      intro y q
      by_cases mine : y = x
      · rw [mine, own]
        exact Nat.le_add_right _ _
      · rw [others y mine]
        exact rest y q

theorem passed {x y : Owner} {r : R} (gone : after x r < held x r) (came : after y r ≤ held y r + 1)
    (rest : ∀ z q, z ≠ y ∨ q ≠ r → after z q ≤ held z q) : Owned after closes := by
  have holds : 0 < held x r := Nat.zero_lt_of_lt gone
  have left : after x r = 0 := by
    have once := owned.once x r
    omega
  have nobody : ∀ z, z ≠ x → held z r = 0 := by
    intro z other
    by_contra still
    exact other (owned.apart z x r (Nat.pos_of_ne_zero still) holds)
  have receiver : ∀ z, 0 < after z r → z = y := by
    intro z has
    by_contra other
    have less := rest z r (.inl other)
    have own : z = x := by
      by_contra apart
      rw [nobody z apart] at less
      omega
    rw [own, left] at has
    cases has
  have same : Function.update closes r (closes r) = closes := Function.update_eq_self r closes
  rw [← same]
  refine owned.updated (fun z q apart => rest z q (.inr apart)) ?_ ?_ ?_ (owned.atMostOnce r)
  · intro z
    by_cases own : z = y
    · rw [own]
      by_cases back : y = x
      · rw [back, left]
        exact Nat.zero_le 1
      · rwa [nobody y back] at came
    · exact (rest z r (.inl own)).trans (owned.once z r)
  · intro z w first second
    rw [receiver z first, receiver w second]
  · exact fun _ _ => owned.live x r holds

theorem refused {r : R} (free : closes r ≠ some 0) : Owned held (close (opened closes r) r) := by
  have once : close (opened closes r) r = Function.update closes r (some 1) := by
    simp [close, opened]
  rw [once]
  refine owned.updated (fun _ _ _ => le_rfl) (fun x => owned.once x r)
    (fun x y => owned.apart x y r) ?_ ?_
  · intro x holds
    exact absurd (owned.live x r holds) free
  · intro k counted
    cases counted
    exact le_rfl

end Owned

end Foundations
