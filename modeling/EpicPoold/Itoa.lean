import EpicPoold.Decimal

/-! itoa_ljust: integers as decimal texts, two digits at a time from a table. What the
compiled code does where a product of two ints overflows is a parameter. -/

namespace EpicPoold

open Foundations Foundations.JsonText

namespace Itoa

def lut : List UInt8 :=
  ascii ("0001020304050607080910111213141516171819" ++
    "2021222324252627282930313233343536373839" ++
    "4041424344454647484950515253545556575859" ++
    "6061626364656667686970717273747576777879" ++
    "8081828384858687888990919293949596979899")

/-- The two characters of the table that `out` copies. -/
def dd (u : Nat) : List UInt8 := (lut.drop (2 * u)).take 2

/-- The locals of itoa: the rest of the number, the digits taken off it last and what was
written. -/
structure Cursor where
  u : UInt32
  d : Int
  p : List UInt8

/-- A first digit that stands alone is written here, and one digit less is left. -/
def digits (u k : UInt32) (d : Int) (p : List UInt8) (n : Nat) : Int × List UInt8 × Nat :=
  if u < k * 10 then ((u / k).toNat, p ++ [digitByte (u / k).toNat], n - 1) else (d, p, n)

/-- Each case falls through to the next. -/
def runCases : List (Nat × (Cursor → Option Cursor)) → Cursor → Option Cursor
  | [], c => some c
  | entry :: rest, c => (entry.2 c).bind (runCases rest)

section Arithmetic

variable (overflow : Int → Int → Option UInt32)

/-- The product of two ints, as it is converted for the subtraction. -/
def intProduct (d k : Int) : Option UInt32 :=
  if -2 ^ 31 ≤ d * k ∧ d * k < 2 ^ 31 then some (UInt32.ofInt (d * k)) else overflow d k

def put (k : UInt32) (c : Cursor) : Option Cursor :=
  some { c with d := (c.u / k).toNat, p := c.p ++ dd (c.u / k).toNat }

def less (k : UInt32) (c : Cursor) : Option Cursor :=
  (intProduct overflow c.d k.toNat).map (fun product => { c with u := c.u - product })

def switchCases : List (Nat × (Cursor → Option Cursor)) :=
  [(10, put 100000000), (9, less overflow 100000000), (8, put 1000000),
    (7, less overflow 1000000), (6, put 10000), (5, less overflow 10000), (4, put 100),
    (3, less overflow 100), (2, put 1), (1, some)]

def itoaFrom (u : UInt32) (p : List UInt8) (d : Int) (n : Nat) : Option (List UInt8) :=
  (runCases ((switchCases overflow).dropWhile (fun entry => entry.1 != n)) ⟨u, d, p⟩).map Cursor.p

/-- itoa for uint32_t. `garbage` is what `d` holds before it is assigned. -/
def itoa32 (garbage : Int) (u : UInt32) (p : List UInt8) : Option (List UInt8) :=
  let entered :=
    if 100000000 ≤ u then digits u 100000000 garbage p 10
    else if u < 100 then digits u 1 garbage p 2
    else if u < 10000 then digits u 100 garbage p 4
    else if u < 1000000 then digits u 10000 garbage p 6
    else digits u 1000000 garbage p 8
  itoaFrom overflow u entered.2.1 entered.1 entered.2.2

def itoaInt32 (garbage : Int) (i : Int32) (p : List UInt8) : Option (List UInt8) :=
  if i < 0 then itoa32 overflow garbage (-i.toUInt32) (p ++ [0x2d])
  else itoa32 overflow garbage i.toUInt32 p

def itoa64 (garbage : Int) (u : UInt64) (p : List UInt8) : Option (List UInt8) :=
  let lower := u.toUInt32
  if lower.toUInt64 = u then itoa32 overflow garbage lower p
  else do
    let upper := u / 1000000000
    let p ← itoa64 garbage upper p
    let lower := (u - upper * 1000000000).toUInt32
    let d := lower / 100000000
    itoaFrom overflow lower (p ++ [digitByte d.toNat]) d.toNat 9
termination_by u.toNat
decreasing_by
  rename_i large
  have positive : u.toNat ≠ 0 := by
    intro zero
    have same : u = 0 := UInt64.toNat_inj.mp zero
    subst same
    exact large rfl
  rw [UInt64.toNat_div]
  exact Nat.div_lt_self (Nat.pos_of_ne_zero positive) (by decide)

def itoaInt64 (garbage : Int) (i : Int64) (p : List UInt8) : Option (List UInt8) :=
  if i < 0 then itoa64 overflow garbage (-i.toUInt64) (p ++ [0x2d])
  else itoa64 overflow garbage i.toUInt64 p

end Arithmetic

section Digits

theorem dd_eq {u : Nat} (small : u < 100) : dd u = [digitByte (u / 10), digitByte (u % 10)] := by
  have all : ∀ u : Fin 100, dd u.val = [digitByte (u.val / 10), digitByte (u.val % 10)] := by
    decide +kernel
  exact all ⟨u, small⟩

theorem dd_decimal {u : Nat} (two : 10 ≤ u) (small : u < 100) : dd u = decimal u := by
  rw [dd_eq small, decimal_of_le two, decimal_of_lt (by omega)]
  rfl

theorem decimal_append_dd {m r : Nat} (positive : 0 < m) (small : r < 100) :
    decimal (100 * m + r) = decimal m ++ dd r := by
  have tens : (100 * m + r) / 10 = 10 * m + r / 10 := by omega
  have hundreds : (10 * m + r / 10) / 10 = m := by omega
  have last : (100 * m + r) % 10 = r % 10 := by omega
  have middle : (10 * m + r / 10) % 10 = r / 10 := by omega
  rw [decimal_of_le (by omega), tens, last, decimal_of_le (by omega), hundreds, middle, dd_eq small]
  simp

end Digits

section Switch

variable {overflow : Int → Int → Option UInt32}

theorem runCases_cons (n : Nat) (stage : Cursor → Option Cursor)
    (rest : List (Nat × (Cursor → Option Cursor))) (c : Cursor) :
    runCases ((n, stage) :: rest) c = (stage c).bind (runCases rest) := rfl

/-- The cases from `2 * j + 1` on. -/
def fallThrough (overflow : Int → Int → Option UInt32) :
    Nat → List (Nat × (Cursor → Option Cursor))
  | 0 => [(1, some)]
  | j + 1 =>
      (2 * j + 3, less overflow (UInt32.ofNat (100 ^ (j + 1)))) ::
        (2 * j + 2, put (UInt32.ofNat (100 ^ j))) :: fallThrough overflow j

theorem itoaFrom_odd {j : Nat} (few : j ≤ 4) (u : UInt32) (p : List UInt8) (d : Int) :
    itoaFrom overflow u p d (2 * j + 1) =
      (runCases (fallThrough overflow j) ⟨u, d, p⟩).map Cursor.p := by
  interval_cases j
  all_goals rfl

theorem hundreds_toNat {j : Nat} (few : j ≤ 4) : (UInt32.ofNat (100 ^ j)).toNat = 100 ^ j := by
  have small : 100 ^ j ≤ 100 ^ 4 := Nat.pow_le_pow_right (by decide) few
  exact UInt32.toNat_ofNat_of_lt' (Nat.lt_of_le_of_lt small (by decide))

theorem itoaFrom_even {j : Nat} (few : j ≤ 4) (u : UInt32) (p : List UInt8) (d : Int) :
    itoaFrom overflow u p d (2 * j + 2) =
      (runCases (fallThrough overflow j)
        ⟨u, (u.toNat / 100 ^ j : Nat), p ++ dd (u.toNat / 100 ^ j)⟩).map Cursor.p := by
  have unfolded : itoaFrom overflow u p d (2 * j + 2) =
      (runCases ((2 * j + 2, put (UInt32.ofNat (100 ^ j))) :: fallThrough overflow j)
        ⟨u, d, p⟩).map Cursor.p := by
    interval_cases j
    all_goals rfl
  rw [unfolded, runCases_cons, put, Option.bind_some, UInt32.toNat_div, hundreds_toNat few]

/-- A number of which all digits but the last `2 * j` are written. -/
structure Written (j n : Nat) (pre : List UInt8) (c : Cursor) : Prop where
  digit : c.d = (c.u.toNat / 100 ^ j : Nat)
  rest : c.u.toNat % 100 ^ j = n % 100 ^ j
  text : c.p = pre ++ decimal (n / 100 ^ j)
  some : j = 0 ∨ 0 < n / 100 ^ j

theorem ofInt_cast (n : Nat) : UInt32.ofInt (n : Int) = UInt32.ofNat n := by
  rw [UInt32.ofInt, ← UInt32.toNat_inj, UInt32.toNat_ofNat', UInt32.toNat_ofNat']
  omega

def Fits (overflow : Int → Int → Option UInt32) (j : Nat) (c : Cursor) : Prop :=
  intProduct overflow c.d (100 ^ j : Nat) = some (UInt32.ofNat (c.u.toNat / 100 ^ j * 100 ^ j))

theorem fits_of_lt {j : Nat} {c : Cursor} (digit : c.d = (c.u.toNat / 100 ^ j : Nat))
    (small : c.u.toNat / 100 ^ j * 100 ^ j < 2 ^ 31) : Fits overflow j c := by
  have product : c.d * (100 ^ j : Nat) = ((c.u.toNat / 100 ^ j * 100 ^ j : Nat) : Int) := by
    rw [digit, Int.natCast_mul]
  rw [Fits, intProduct, product, if_pos (by omega), ofInt_cast]

theorem runCases_decimal {j : Nat} (few : j ≤ 4) {n : Nat} {pre : List UInt8} {c : Cursor}
    (written : Written j n pre c) (fits : j = 0 ∨ Fits overflow j c) :
    (runCases (fallThrough overflow j) c).map Cursor.p = some (pre ++ decimal n) := by
  induction j generalizing c with
  | zero =>
      have text := written.text
      rw [Nat.pow_zero, Nat.div_one] at text
      rw [← text]
      rfl
  | succ j ih =>
      obtain impossible | fits := fits
      · cases impossible
      have small : c.u.toNat < 2 ^ 32 := c.u.toNat_lt
      have product : c.u.toNat / 100 ^ (j + 1) * 100 ^ (j + 1) ≤ c.u.toNat :=
        Nat.div_mul_le_self _ _
      have left : (c.u - UInt32.ofNat (c.u.toNat / 100 ^ (j + 1) * 100 ^ (j + 1))).toNat =
          n % 100 ^ (j + 1) := by
        have word : (UInt32.ofNat (c.u.toNat / 100 ^ (j + 1) * 100 ^ (j + 1))).toNat =
            c.u.toNat / 100 ^ (j + 1) * 100 ^ (j + 1) :=
          UInt32.toNat_ofNat_of_lt' (Nat.lt_of_le_of_lt product small)
        have whole := Nat.div_add_mod' c.u.toNat (100 ^ (j + 1))
        rw [UInt32.toNat_sub_of_le _ _ (by rw [UInt32.le_iff_toNat_le, word]; exact product), word,
          ← written.rest]
        omega
      have scale : (100 : Nat) ^ (j + 1) = 100 ^ j * 100 := Nat.pow_succ ..
      have digit : n % 100 ^ (j + 1) / 100 ^ j = n / 100 ^ j % 100 := by
        rw [scale, Nat.mod_mul_right_div_self]
      have whole : n / 100 ^ j = 100 * (n / 100 ^ (j + 1)) + n / 100 ^ j % 100 := by
        rw [scale, ← Nat.div_div_eq_div_mul]
        omega
      have positive : 0 < n / 100 ^ (j + 1) := by
        rcases written.some with impossible | positive
        · cases impossible
        · exact positive
      have two : n / 100 ^ j % 100 < 100 := Nat.mod_lt _ (by decide)
      rw [fallThrough, runCases_cons, less, hundreds_toNat few, fits, Option.map_some,
        Option.bind_some, runCases_cons, put, Option.bind_some, UInt32.toNat_div,
        hundreds_toNat (by omega), left]
      refine ih (by omega) ⟨?_, ?_, ?_, ?_⟩ ?_
      · simp only [left]
      · simp only [left]
        rw [scale, Nat.mod_mul_right_mod]
      · simp only [written.text, List.append_assoc]
        rw [whole, decimal_append_dd positive two, ← digit]
      · right
        omega
      · right
        apply fits_of_lt
        · simp only [left]
        · simp only [left, digit]
          have scaled : n / 100 ^ j % 100 * 100 ^ j < 100 * 100 ^ j :=
            Nat.mul_lt_mul_of_pos_right two (by positivity)
          have bound : 100 ^ j ≤ 100 ^ 3 := Nat.pow_le_pow_right (by decide) (by omega)
          omega

end Switch

section Overloads

variable {overflow : Int → Int → Option UInt32}

/-- What an overflowing product is on machines whose int arithmetic wraps. -/
def wraps (d k : Int) : Option UInt32 := some (UInt32.ofInt (d * k))

/-- An overflowing product that stops the program. -/
def traps (_ _ : Int) : Option UInt32 := none

def Overflows (n : Nat) : Prop :=
  2200000000 ≤ n ∧ n < 2 ^ 32 ∨ 2200000000 ≤ n / 10 ^ 9 ∧ n / 10 ^ 9 < 2 ^ 32

instance (n : Nat) : Decidable (Overflows n) := inferInstanceAs (Decidable (_ ∨ _))

def Exact (overflow : Int → Int → Option UInt32) (n : Nat) : Prop :=
  overflow = wraps ∨ ¬ Overflows n

/-- A number is entered into the switch with its first digit written, or with none and
two to come. -/
theorem digits_written {j : Nat} (few : j ≤ 4) (garbage : Int) (u : UInt32) (p : List UInt8)
    (high : u.toNat < 100 ^ (j + 1)) :
    let entered := digits u (UInt32.ofNat (100 ^ j)) garbage p (2 * j + 2)
    itoaFrom overflow u entered.2.1 entered.1 entered.2.2 =
      (runCases (fallThrough overflow j)
        ⟨u, (u.toNat / 100 ^ j : Nat), p ++ decimal (u.toNat / 100 ^ j)⟩).map Cursor.p := by
  have scale : (100 : Nat) ^ (j + 1) = 100 ^ j * 100 := Nat.pow_succ ..
  have bound : 100 ^ j ≤ 100 ^ 4 := Nat.pow_le_pow_right (by decide) few
  have ten : (UInt32.ofNat (100 ^ j) * 10).toNat = 100 ^ j * 10 := by
    have literal : (10 : UInt32).toNat = 10 := rfl
    rw [UInt32.toNat_mul, hundreds_toNat few, literal]
    exact Nat.mod_eq_of_lt (by omega)
  have less_iff : u < UInt32.ofNat (100 ^ j) * 10 ↔ u.toNat / 100 ^ j < 10 := by
    rw [UInt32.lt_iff_toNat_lt, ten, Nat.div_lt_iff_lt_mul (by positivity), Nat.mul_comm]
  simp only [digits]
  by_cases one : u.toNat / 100 ^ j < 10
  · rw [if_pos (less_iff.mpr one), UInt32.toNat_div, hundreds_toNat few, decimal_of_lt one]
    exact itoaFrom_odd few u _ _
  · have two : u.toNat / 100 ^ j < 100 := by
      rw [Nat.div_lt_iff_lt_mul (by positivity), Nat.mul_comm, ← scale]
      exact high
    rw [if_neg (fun below => one (less_iff.mp below)), ← dd_decimal (by omega) two]
    exact itoaFrom_even few u p garbage

theorem digits_decimal {j : Nat} (few : j ≤ 4) (garbage : Int) (u : UInt32) (p : List UInt8)
    (some : 0 < u.toNat / 100 ^ j ∨ j = 0) (high : u.toNat < 100 ^ (j + 1))
    (fits : Fits overflow j ⟨u, (u.toNat / 100 ^ j : Nat), p ++ decimal (u.toNat / 100 ^ j)⟩) :
    let entered := digits u (UInt32.ofNat (100 ^ j)) garbage p (2 * j + 2)
    itoaFrom overflow u entered.2.1 entered.1 entered.2.2 =
      Option.some (p ++ decimal u.toNat) := by
  simp only [digits_written few garbage u p high]
  exact runCases_decimal few ⟨rfl, rfl, rfl, some.symm⟩ (.inr fits)

theorem itoa32_enters (overflow : Int → Int → Option UInt32) (garbage : Int) (u : UInt32)
    (p : List UInt8) :
    ∃ j ≤ 4, (0 < u.toNat / 100 ^ j ∨ j = 0) ∧ u.toNat < 100 ^ (j + 1) ∧
      (j = 4 ↔ 100000000 ≤ u.toNat) ∧
      let entered := digits u (UInt32.ofNat (100 ^ j)) garbage p (2 * j + 2)
      itoa32 overflow garbage u p = itoaFrom overflow u entered.2.1 entered.1 entered.2.2 := by
  have word := u.toNat_lt
  have eight : (100000000 : UInt32).toNat = 100000000 := rfl
  have two : (100 : UInt32).toNat = 100 := rfl
  have four : (10000 : UInt32).toNat = 10000 := rfl
  have six : (1000000 : UInt32).toNat = 1000000 := rfl
  simp only [itoa32, UInt32.le_iff_toNat_le, UInt32.lt_iff_toNat_lt, eight, two, four, six]
  split
  · exact ⟨4, le_rfl, by omega, by omega, by omega, rfl⟩
  · split
    · exact ⟨0, by omega, by omega, by omega, by omega, rfl⟩
    · split
      · exact ⟨1, by omega, by omega, by omega, by omega, rfl⟩
      · split
        · exact ⟨2, by omega, by omega, by omega, by omega, rfl⟩
        · exact ⟨3, by omega, by omega, by omega, by omega, rfl⟩

theorem itoa32_eq (garbage : Int) (u : UInt32) (p : List UInt8)
    (exact : overflow = wraps ∨ u.toNat < 2200000000) :
    itoa32 overflow garbage u p = some (p ++ decimal u.toNat) := by
  obtain ⟨j, few, first, high, large, same⟩ := itoa32_enters overflow garbage u p
  have product : u.toNat / 100 ^ j * 100 ^ j ≤ u.toNat := Nat.div_mul_le_self _ _
  rw [same]
  apply digits_decimal few garbage u p first high
  rcases exact with rfl | small
  · simp only [Fits, intProduct, wraps, ite_self, ← Int.natCast_mul, ofInt_cast]
  · apply fits_of_lt rfl
    by_cases most : j = 4
    · subst most
      simp only
      omega
    · have below : u.toNat < 100000000 := by omega
      simp only
      omega

theorem itoa32_traps (garbage : Int) (u : UInt32) (p : List UInt8)
    (large : 2200000000 ≤ u.toNat) : itoa32 traps garbage u p = none := by
  obtain ⟨j, few, first, high, most, same⟩ := itoa32_enters traps garbage u p
  have four : j = 4 := most.mpr (by omega)
  subst four
  have product : ¬ ((u.toNat / 100 ^ 4 : Nat) : Int) * (100 ^ 4 : Nat) < 2 ^ 31 := by omega
  rw [same, digits_written few garbage u p high, fallThrough, runCases_cons, less,
    hundreds_toNat le_rfl, intProduct, if_neg (fun fits => product fits.2)]
  rfl

theorem itoaFrom_nine {n : Nat} (large : 10 ^ 9 ≤ n) {lower : UInt32}
    (rest : lower.toNat = n % 10 ^ 9) (p : List UInt8) :
    itoaFrom overflow lower (p ++ decimal (n / 10 ^ 9) ++ [digitByte (lower / 100000000).toNat])
      (lower / 100000000).toNat 9 = some (p ++ decimal n) := by
  have eight : (lower / 100000000).toNat = lower.toNat / 100 ^ 4 := by
    rw [UInt32.toNat_div]
    rfl
  have product : lower.toNat / 100 ^ 4 * 100 ^ 4 ≤ lower.toNat := Nat.div_mul_le_self _ _
  have upper : n / 100 ^ 4 / 10 = n / 10 ^ 9 := by omega
  have ninth : n / 100 ^ 4 % 10 = lower.toNat / 100 ^ 4 := by omega
  rw [itoaFrom_odd le_rfl, eight]
  refine runCases_decimal le_rfl ⟨rfl, ?_, ?_, ?_⟩ (.inr (fits_of_lt rfl ?_))
  · simp only
    omega
  · simp only
    rw [decimal_of_le (by omega : 10 ≤ n / 100 ^ 4), upper, ninth, List.append_assoc]
  · right
    omega
  · simp only
    omega

theorem itoa64_small (garbage : Int) {u : UInt64} (small : u.toNat < 2 ^ 32) (p : List UInt8) :
    itoa64 overflow garbage u p = itoa32 overflow garbage u.toUInt32 p := by
  have same : u.toUInt32.toUInt64 = u := by
    rw [← UInt64.toNat_inj, UInt32.toNat_toUInt64, UInt64.toNat_toUInt32]
    exact Nat.mod_eq_of_lt small
  rw [itoa64]
  exact if_pos same

theorem itoa64_large (garbage : Int) {u : UInt64} (large : 2 ^ 32 ≤ u.toNat) (p : List UInt8) :
    itoa64 overflow garbage u p =
      (itoa64 overflow garbage (u / 1000000000) p).bind (fun p =>
        let lower := (u - u / 1000000000 * 1000000000).toUInt32
        itoaFrom overflow lower (p ++ [digitByte (lower / 100000000).toNat])
          (lower / 100000000).toNat 9) := by
  have other : u.toUInt32.toUInt64 ≠ u := by
    intro same
    have value := congrArg UInt64.toNat same
    rw [UInt32.toNat_toUInt64] at value
    have word := u.toUInt32.toNat_lt
    omega
  rw [itoa64]
  exact if_neg other

theorem parts (u : UInt64) :
    (u / 1000000000).toNat = u.toNat / 10 ^ 9 ∧
      (u - u / 1000000000 * 1000000000).toUInt32.toNat = u.toNat % 10 ^ 9 := by
  have word := u.toNat_lt
  have billion : (1000000000 : UInt64).toNat = 10 ^ 9 := rfl
  have quotient : (u / 1000000000).toNat = u.toNat / 10 ^ 9 := by
    rw [UInt64.toNat_div, billion]
  have product : (u / 1000000000 * 1000000000).toNat = u.toNat / 10 ^ 9 * 10 ^ 9 := by
    rw [UInt64.toNat_mul, quotient, billion]
    exact Nat.mod_eq_of_lt (by omega)
  refine ⟨quotient, ?_⟩
  rw [UInt64.toNat_toUInt32, UInt64.toNat_sub_of_le _ _ (by
    rw [UInt64.le_iff_toNat_le, product]
    omega), product]
  omega

theorem overflows_large {n : Nat} (large : 2 ^ 32 ≤ n) (word : n < 2 ^ 64) :
    Overflows n ↔ Overflows (n / 10 ^ 9) := by
  unfold Overflows
  omega

theorem itoa64_eq (garbage : Int) (u : UInt64) (p : List UInt8) (exact : Exact overflow u.toNat) :
    itoa64 overflow garbage u p = some (p ++ decimal u.toNat) := by
  induction bound : u.toNat using Nat.strongRecOn generalizing u with
  | _ n ih =>
      have word := u.toNat_lt
      by_cases small : u.toNat < 2 ^ 32
      · have value : u.toUInt32.toNat = n := by
          rw [UInt64.toNat_toUInt32, bound]
          omega
        rw [itoa64_small garbage small, itoa32_eq, value]
        rcases exact with wrapping | fits
        · exact .inl wrapping
        · rw [Overflows] at fits
          exact .inr (by omega)
      · obtain ⟨quotient, rest⟩ := parts u
        have upper : Exact overflow (u / 1000000000).toNat := by
          rw [quotient]
          rcases exact with wrapping | fits
          · exact .inl wrapping
          · exact .inr (fun beyond => fits ((overflows_large (by omega) word).mpr beyond))
        rw [itoa64_large garbage (by omega), ih _ (by omega) _ upper quotient, Option.bind_some]
        simp only
        rw [bound] at rest
        rw [bound]
        exact itoaFrom_nine (by omega) rest p

theorem itoa64_traps (garbage : Int) (u : UInt64) (p : List UInt8) (beyond : Overflows u.toNat) :
    itoa64 traps garbage u p = none := by
  have word := u.toNat_lt
  by_cases small : u.toNat < 2 ^ 32
  · rw [itoa64_small garbage small]
    apply itoa32_traps
    rw [UInt64.toNat_toUInt32]
    unfold Overflows at beyond
    omega
  · obtain ⟨quotient, _⟩ := parts u
    have upper : 2200000000 ≤ (u / 1000000000).toNat ∧ (u / 1000000000).toNat < 2 ^ 32 := by
      rw [quotient]
      unfold Overflows at beyond
      omega
    have lower : (u / 1000000000).toUInt32.toNat = (u / 1000000000).toNat := by
      rw [UInt64.toNat_toUInt32]
      exact Nat.mod_eq_of_lt upper.2
    rw [itoa64_large garbage (by omega), itoa64_small garbage upper.2, itoa32_traps _ _ _ (by
      rw [lower]
      exact upper.1)]
    rfl

def signedText (n : Int) : List UInt8 :=
  if n < 0 then 0x2d :: decimal n.natAbs else decimal n.natAbs

theorem signedDecimal_eq (i : Int64) : signedDecimal i = signedText i.toInt := by
  rw [signedDecimal, signedText]
  exact if_congr Int64.lt_iff_toInt_lt rfl rfl

theorem negative32 (i : Int32) :
    if i < 0 then i.toInt < 0 ∧ (-i.toUInt32).toNat = i.toInt.natAbs
    else 0 ≤ i.toInt ∧ i.toUInt32.toNat = i.toInt.natAbs := by
  have cond : i.toInt = if 2 * i.toUInt32.toNat < 2 ^ 32 then (i.toUInt32.toNat : Int)
      else (i.toUInt32.toNat : Int) - (2 ^ 32 : Nat) := BitVec.toInt_eq_toNat_cond _
  have word := i.toUInt32.toNat_lt
  have sign : i < 0 ↔ i.toInt < 0 := Int32.lt_iff_toInt_lt
  have negated : (-i.toUInt32).toNat = (2 ^ 32 - i.toUInt32.toNat) % 2 ^ 32 := UInt32.toNat_neg _
  by_cases negative : i < 0
  · have below := sign.mp negative
    rw [if_pos negative]
    split_ifs at cond
    all_goals omega
  · have above := Int.not_lt.mp (fun below => negative (sign.mpr below))
    rw [if_neg negative]
    split_ifs at cond
    all_goals omega

theorem negative64 (i : Int64) :
    if i < 0 then i.toInt < 0 ∧ (-i.toUInt64).toNat = i.toInt.natAbs
    else 0 ≤ i.toInt ∧ i.toUInt64.toNat = i.toInt.natAbs := by
  have cond : i.toInt = if 2 * i.toUInt64.toNat < 2 ^ 64 then (i.toUInt64.toNat : Int)
      else (i.toUInt64.toNat : Int) - (2 ^ 64 : Nat) := BitVec.toInt_eq_toNat_cond _
  have word := i.toUInt64.toNat_lt
  have sign : i < 0 ↔ i.toInt < 0 := Int64.lt_iff_toInt_lt
  have negated : (-i.toUInt64).toNat = (2 ^ 64 - i.toUInt64.toNat) % 2 ^ 64 := UInt64.toNat_neg _
  by_cases negative : i < 0
  · have below := sign.mp negative
    rw [if_pos negative]
    split_ifs at cond
    all_goals omega
  · have above := Int.not_lt.mp (fun below => negative (sign.mpr below))
    rw [if_neg negative]
    split_ifs at cond
    all_goals omega

/-- No value of an int comes near the overflow. -/
theorem itoaInt32_eq (garbage : Int) (i : Int32) (p : List UInt8) :
    itoaInt32 overflow garbage i p = some (p ++ signedText i.toInt) := by
  have low := i.le_toInt
  have high := i.toInt_lt
  have sign := negative32 i
  rw [itoaInt32]
  split_ifs at sign ⊢
  · rw [itoa32_eq garbage _ _ (.inr (by omega)), sign.2, signedText, if_pos sign.1]
    simp
  · rw [itoa32_eq garbage _ _ (.inr (by omega)), sign.2, signedText,
      if_neg (Int.not_lt.mpr sign.1)]

theorem itoaInt64_eq (garbage : Int) (i : Int64) (p : List UInt8)
    (exact : Exact overflow i.toInt.natAbs) :
    itoaInt64 overflow garbage i p = some (p ++ signedDecimal i) := by
  have sign := negative64 i
  rw [itoaInt64, signedDecimal_eq, signedText]
  split_ifs at sign ⊢ with negative minus minus
  · rw [itoa64_eq garbage _ _ (by rw [sign.2]; exact exact), sign.2]
    simp
  · exact absurd sign.1 minus
  · exact absurd minus (Int.not_lt.mpr sign.1)
  · rw [itoa64_eq garbage _ _ (by rw [sign.2]; exact exact), sign.2]

theorem itoaInt64_traps (garbage : Int) (i : Int64) (p : List UInt8)
    (beyond : Overflows i.toInt.natAbs) : itoaInt64 traps garbage i p = none := by
  have sign := negative64 i
  rw [itoaInt64]
  split_ifs at sign ⊢
  · exact itoa64_traps garbage _ _ (by rw [sign.2]; exact beyond)
  · exact itoa64_traps garbage _ _ (by rw [sign.2]; exact beyond)

end Overloads

end Itoa

end EpicPoold
