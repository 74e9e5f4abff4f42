import EpicPoold.Client

/-! hex2bin and bin2hex with the unsigned indices of the source, over memory, and what
they accept and write. -/

namespace EpicPoold

open Foundations

/-- The bytes behind a pointer, by the indices an unsigned int can take. -/
abbrev Memory := UInt32 → UInt8

abbrev Writes := List (UInt32 × UInt8)

def Memory.store (mem : Memory) (writes : Writes) : Memory :=
  writes.foldl (fun mem w => Function.update mem w.1 w.2) mem

/-- The bytes of a C string and its terminator. -/
structure Memory.Holds (mem : Memory) (text : List UInt8) : Prop where
  fits : text.length < 2 ^ 32
  bytes : ∀ k : Nat, k ≤ text.length → mem (UInt32.ofNat k) = text.getD k 0

/-- The loop of hex2bin from index `i` on, for as many turns as there is fuel: its return
value and its writes. -/
def hex2binFrom (mem : Memory) (len : UInt32) : Nat → UInt32 → Option (Bool × Writes)
  | 0, _ => none
  | fuel + 1, i =>
      if i < len then
        let high := hfHex2bin (mem i) false
        let low := hfHex2bin (mem (i + 1)) high.2
        let write := (i / 2, (high.1 <<< 4) ||| low.1)
        if low.2 then some (false, [write])
        else (hex2binFrom mem len fuel (i + 2)).map (fun rest => (rest.1, write :: rest.2))
      else some (true, [])

/-- A call of hex2bin returns, with this value and these writes. -/
def Hex2binReturns (mem : Memory) (len : UInt32) (result : Bool × Writes) : Prop :=
  ∃ fuel, hex2binFrom mem len fuel 0 = some result

/-- The writes of bin2hex from index `i` on, the terminator's included. -/
def bin2hexFrom : List UInt8 → UInt32 → Writes
  | [], i => [(i * 2, 0)]
  | b :: rest, i =>
      (i * 2, hfBin2hex ((b &&& 0xf0) >>> 4)) :: (i * 2 + 1, hfBin2hex (b &&& 0x0f)) ::
        bin2hexFrom rest (i + 1)

def bin2hexInto (bytes : List UInt8) (out : Memory) : Memory := out.store (bin2hexFrom bytes 0)

def IsHexDigit (c : UInt8) : Prop :=
  (0x30 ≤ c ∧ c ≤ 0x39) ∨ (0x61 ≤ c ∧ c ≤ 0x66) ∨ (0x41 ≤ c ∧ c ≤ 0x46)

instance (c : UInt8) : Decidable (IsHexDigit c) := inferInstanceAs (Decidable (_ ∨ _))

section Digits

theorem hfHex2bin_of_digit (c : UInt8) (digit : IsHexDigit c) :
    ∃ digit : Fin 16, (∀ err, hfHex2bin c err = (UInt8.ofNat digit.val, err)) ∧
      hfBin2hex (UInt8.ofNat digit.val) = Client.toLower c := by
  revert c
  apply forall_uint8
  decide +kernel

theorem hfHex2bin_of_other {c : UInt8} (other : ¬ IsHexDigit c) (err : Bool) :
    hfHex2bin c err = (0, true) := by
  simp only [IsHexDigit, not_or] at other
  rw [hfHex2bin, if_neg other.1, if_neg other.2.1, if_neg other.2.2]

theorem nibbles_of_byte (high low : Fin 16) :
    ((UInt8.ofNat high.val <<< 4 ||| UInt8.ofNat low.val) &&& 0xf0) >>> 4 =
        UInt8.ofNat high.val ∧
      (UInt8.ofNat high.val <<< 4 ||| UInt8.ofNat low.val) &&& 0x0f = UInt8.ofNat low.val := by
  revert high low
  decide

theorem not_isHexDigit_zero : ¬ IsHexDigit 0 := by decide

end Digits

section Turns

def turn (a b : UInt8) : UInt8 × Bool :=
  let high := hfHex2bin a false
  let low := hfHex2bin b high.2
  ((high.1 <<< 4) ||| low.1, low.2)

theorem turn_of_digits {a b : UInt8} (first : IsHexDigit a) (second : IsHexDigit b) :
    (turn a b).2 = false ∧
      bin2hex [(turn a b).1] = [Client.toLower a, Client.toLower b] := by
  obtain ⟨high, readHigh, writtenHigh⟩ := hfHex2bin_of_digit a first
  obtain ⟨low, readLow, writtenLow⟩ := hfHex2bin_of_digit b second
  have halves := nibbles_of_byte high low
  simp only [turn, readHigh, readLow, bin2hex_cons, halves.1, halves.2, writtenHigh, writtenLow]
  exact ⟨trivial, rfl⟩

theorem turn_of_other {a b : UInt8} (other : ¬ (IsHexDigit a ∧ IsHexDigit b)) :
    (turn a b).2 = true := by
  by_cases second : IsHexDigit b
  · obtain ⟨low, readLow, _⟩ := hfHex2bin_of_digit b second
    have first : ¬ IsHexDigit a := fun digit => other ⟨digit, second⟩
    simp only [turn, readLow, hfHex2bin_of_other first]
  · simp only [turn, hfHex2bin_of_other second]

theorem hex2binLoop_succ (turns : Nat) (text : List UInt8) :
    hex2binLoop (turns + 1) text =
      if (turn (text.headD 0) (text.tail.headD 0)).2 then
        (false, [(turn (text.headD 0) (text.tail.headD 0)).1])
      else
        ((hex2binLoop turns text.tail.tail).1,
          (turn (text.headD 0) (text.tail.headD 0)).1 :: (hex2binLoop turns text.tail.tail).2) :=
  rfl

end Turns

section Decoding

/-- What hex2bin makes of a text: all of it, in pairs of digits, or an error. -/
structure Decoded (text : List UInt8) (result : Bool × List UInt8) : Prop where
  accepted : result.1 = true ↔ text.length % 2 = 0 ∧ ∀ c ∈ text, IsHexDigit c
  lower : result.1 = true → bin2hex result.2 = text.map Client.toLower
  short : result.2.length ≤ (text.length + 1) / 2
  whole : result.1 = true → result.2.length = text.length / 2

theorem decoded_refused {text : List UInt8} {byte : UInt8} (some : text ≠ [])
    (bad : ¬ (text.length % 2 = 0 ∧ ∀ c ∈ text, IsHexDigit c)) : Decoded text (false, [byte]) := by
  have positive := List.length_pos_iff.mpr some
  refine ⟨iff_of_false Bool.false_ne_true bad, by simp, ?_, by simp⟩
  rw [List.length_singleton]
  omega

theorem decoded_pair {a b : UInt8} {rest : List UInt8} {result : Bool × List UInt8}
    (first : IsHexDigit a) (second : IsHexDigit b) (later : Decoded rest result) :
    Decoded (a :: b :: rest) (result.1, (turn a b).1 :: result.2) := by
  constructor
  · simp only [later.accepted, List.length_cons, List.forall_mem_cons, first, second, true_and]
    apply and_congr_left
    intro _
    omega
  · intro ok
    have pair := (turn_of_digits first second).2
    calc
      _ = bin2hex [(turn a b).1] ++ bin2hex result.2 := rfl
      _ = [Client.toLower a, Client.toLower b] ++ rest.map Client.toLower := by
        rw [pair, later.lower ok]
  · have short := later.short
    simp only [List.length_cons]
    omega
  · intro ok
    have whole := later.whole ok
    simp only [List.length_cons]
    omega

theorem hex2bin_decoded (text : List UInt8) : Decoded text (hex2bin text text.length) := by
  rw [hex2bin]
  induction text using List.twoStepInduction with
  | nil => exact ⟨by simp [hex2binLoop], by simp [hex2binLoop, bin2hex], by simp [hex2binLoop],
      by simp [hex2binLoop]⟩
  | singleton c =>
      have raised : (turn c 0).2 = true := turn_of_other (fun both => not_isHexDigit_zero both.2)
      have refused : hex2binLoop 1 [c] = (false, [(turn c 0).1]) := by
        rw [hex2binLoop_succ]
        exact if_pos raised
      have turns : ([c].length + 1) / 2 = 1 := by simp
      rw [turns, refused]
      exact decoded_refused (by simp) (by simp)
  | cons_cons a b rest ih =>
      have turns : ((a :: b :: rest).length + 1) / 2 = (rest.length + 1) / 2 + 1 := by
        simp only [List.length_cons]
        omega
      rw [turns, hex2binLoop_succ]
      by_cases both : IsHexDigit a ∧ IsHexDigit b
      · have fine : (turn a b).2 = false := (turn_of_digits both.1 both.2).1
        have pair := decoded_pair both.1 both.2 ih
        simpa only [List.headD_cons, List.tail_cons, fine, Bool.false_eq_true, if_false] using pair
      · have raised : (turn a b).2 = true := turn_of_other both
        simp only [List.headD_cons, List.tail_cons, raised, if_true]
        apply decoded_refused (by simp)
        intro good
        exact both ⟨good.2 a (by simp), good.2 b (by simp)⟩

end Decoding

section Indices

variable {mem : Memory} {text : List UInt8}

def written : Nat → List UInt8 → Writes
  | _, [] => []
  | k, b :: rest => (UInt32.ofNat k, b) :: written (k + 1) rest

theorem index_lt {i n : Nat} (small : i < 2 ^ 32) (fits : n < 2 ^ 32) :
    UInt32.ofNat i < UInt32.ofNat n ↔ i < n := by
  rw [UInt32.lt_iff_toNat_lt, UInt32.toNat_ofNat_of_lt' small, UInt32.toNat_ofNat_of_lt' fits]

theorem index_half (k : Nat) (small : 2 * k < 2 ^ 32) :
    UInt32.ofNat (2 * k) / 2 = UInt32.ofNat k := by
  apply UInt32.toNat_inj.mp
  have half : k < 2 ^ 32 := by omega
  rw [UInt32.toNat_div, UInt32.toNat_ofNat_of_lt' small, UInt32.toNat_ofNat_of_lt' half]
  exact Nat.mul_div_cancel_left k (by decide)

theorem Memory.Holds.headD_drop (holds : mem.Holds text) {i : Nat} (inside : i ≤ text.length) :
    mem (UInt32.ofNat i) = (text.drop i).headD 0 := by
  rw [holds.bytes i inside, List.headD_eq_head?_getD, List.head?_drop, List.getD_eq_getElem?_getD]

theorem hex2binFrom_succ (mem : Memory) (len : UInt32) (fuel : Nat) (i : UInt32) :
    hex2binFrom mem len (fuel + 1) i =
      if i < len then
        if (turn (mem i) (mem (i + 1))).2 then
          some (false, [(i / 2, (turn (mem i) (mem (i + 1))).1)])
        else
          (hex2binFrom mem len fuel (i + 2)).map (fun rest =>
            (rest.1, (i / 2, (turn (mem i) (mem (i + 1))).1) :: rest.2))
      else some (true, []) := rfl

theorem hex2binFrom_suffix (holds : mem.Holds text) (turns : Nat) :
    ∀ k suffix, text.drop (2 * k) = suffix → 2 * k ≤ text.length →
      turns = (suffix.length + 1) / 2 →
      hex2binFrom mem (UInt32.ofNat text.length) (turns + 1) (UInt32.ofNat (2 * k)) =
        some ((hex2binLoop turns suffix).1, written k (hex2binLoop turns suffix).2) := by
  have fits := holds.fits
  induction turns with
  | zero =>
      intro k suffix same inside few
      have size := congrArg List.length same
      rw [List.length_drop] at size
      have past : ¬ UInt32.ofNat (2 * k) < UInt32.ofNat text.length := by
        rw [index_lt (by omega) fits]
        omega
      rw [hex2binFrom_succ, if_neg past]
      rfl
  | succ turns ih =>
      intro k suffix same inside few
      have size := congrArg List.length same
      rw [List.length_drop] at size
      have more : UInt32.ofNat (2 * k) < UInt32.ofNat text.length := by
        rw [index_lt (by omega) fits]
        omega
      have first : mem (UInt32.ofNat (2 * k)) = suffix.headD 0 := by
        rw [holds.headD_drop inside, same]
      have second : mem (UInt32.ofNat (2 * k) + 1) = suffix.tail.headD 0 := by
        have next : UInt32.ofNat (2 * k) + 1 = UInt32.ofNat (2 * k + 1) :=
          (UInt32.ofNat_add _ _).symm
        rw [next, holds.headD_drop (by omega), ← same, List.tail_drop]
      rw [hex2binFrom_succ, if_pos more, first, second, index_half k (by omega), hex2binLoop_succ]
      cases raised : (turn (suffix.headD 0) (suffix.tail.headD 0)).2 with
      | true =>
          simp only [if_true]
          rfl
      | false =>
          -- An odd text ends in this turn, for its terminator is no digit.
          have pair : 2 * k + 2 ≤ text.length := by
            by_contra odd
            have last : suffix.tail = [] := by
              apply List.eq_nil_of_length_eq_zero
              rw [List.length_tail]
              omega
            rw [last, List.headD_nil] at raised
            rw [turn_of_other (fun both => not_isHexDigit_zero both.2)] at raised
            cases raised
          have next : UInt32.ofNat (2 * k) + 2 = UInt32.ofNat (2 * (k + 1)) :=
            (UInt32.ofNat_add _ _).symm
          have dropped : text.drop (2 * (k + 1)) = suffix.tail.tail := by
            rw [← same, List.tail_drop, List.tail_drop]
            rfl
          have fewer : turns = (suffix.tail.tail.length + 1) / 2 := by
            rw [List.length_tail, List.length_tail]
            omega
          simp only [Bool.false_eq_true, if_false]
          rw [next, ih (k + 1) _ dropped pair fewer]
          rfl

theorem hex2binFrom_more (mem : Memory) (len : UInt32) (fuel : Nat) :
    ∀ i result, hex2binFrom mem len fuel i = some result →
      ∀ extra, hex2binFrom mem len (fuel + extra) i = some result := by
  induction fuel with
  | zero =>
      intro i result ran
      cases ran
  | succ fuel ih =>
      intro i result ran extra
      rw [Nat.add_right_comm, hex2binFrom_succ]
      rw [hex2binFrom_succ] at ran
      split at ran
      · rename_i more
        rw [if_pos more]
        split at ran
        · rename_i raised
          rw [if_pos raised]
          exact ran
        · rename_i fine
          rw [if_neg fine]
          obtain ⟨rest, later, same⟩ := Option.map_eq_some_iff.mp ran
          rw [ih _ _ later extra, ← same]
          rfl
      · rename_i past
        rw [if_neg past]
        exact ran

theorem hex2binReturns_unique {mem : Memory} {len : UInt32} {one other : Bool × Writes}
    (first : Hex2binReturns mem len one) (second : Hex2binReturns mem len other) : one = other := by
  obtain ⟨fuel, ran⟩ := first
  obtain ⟨fuel', ran'⟩ := second
  have long := hex2binFrom_more mem len fuel 0 one ran fuel'
  have long' := hex2binFrom_more mem len fuel' 0 other ran' fuel
  rw [Nat.add_comm] at long'
  exact Option.some.inj (long.symm.trans long')

theorem hex2binReturns_iff (holds : mem.Holds text) (result : Bool × Writes) :
    Hex2binReturns mem (UInt32.ofNat text.length) result ↔
      result = ((hex2bin text text.length).1, written 0 (hex2bin text text.length).2) := by
  have returns : Hex2binReturns mem (UInt32.ofNat text.length)
      ((hex2bin text text.length).1, written 0 (hex2bin text text.length).2) :=
    ⟨_, hex2binFrom_suffix holds _ 0 text rfl (Nat.zero_le _) rfl⟩
  constructor
  · intro returned
    exact hex2binReturns_unique returned returns
  · rintro rfl
    exact returns

theorem index_ne {i j : Nat} (small : i < 2 ^ 32) (fits : j < 2 ^ 32) (ne : i ≠ j) :
    UInt32.ofNat i ≠ UInt32.ofNat j := by
  intro same
  have values := congrArg UInt32.toNat same
  rw [UInt32.toNat_ofNat_of_lt' small, UInt32.toNat_ofNat_of_lt' fits] at values
  exact ne values

theorem index_double (k : Nat) : UInt32.ofNat k * 2 = UInt32.ofNat (2 * k) := by
  rw [Nat.mul_comm, UInt32.ofNat_mul]
  rfl

/-- While no index wraps around, bin2hex writes its text at the place it has reached. -/
theorem store_bin2hexFrom (bytes : List UInt8) :
    ∀ (k : Nat) (mem : Memory), 2 * (k + bytes.length) < 2 ^ 32 →
      ∀ j, j ≤ 2 * (k + bytes.length) →
      mem.store (bin2hexFrom bytes (UInt32.ofNat k)) (UInt32.ofNat j) =
        if j < 2 * k then mem (UInt32.ofNat j) else (bin2hex bytes).getD (j - 2 * k) 0 := by
  induction bytes with
  | nil =>
      intro k mem fits j inside
      rw [bin2hexFrom, index_double]
      simp only [Memory.store, List.foldl_cons, List.foldl_nil]
      simp only [List.length_nil, Nat.add_zero] at fits inside
      by_cases before : j < 2 * k
      · rw [if_pos before, Function.update_of_ne (index_ne (by omega) fits (by omega))]
      · have last : j = 2 * k := by omega
        rw [if_neg before, last, Function.update_self, Nat.sub_self]
        rfl
  | cons b rest ih =>
      intro k mem fits j inside
      simp only [List.length_cons] at fits inside
      have next : UInt32.ofNat k + 1 = UInt32.ofNat (k + 1) := (UInt32.ofNat_add _ _).symm
      have second : UInt32.ofNat (2 * k) + 1 = UInt32.ofNat (2 * k + 1) :=
        (UInt32.ofNat_add _ _).symm
      rw [bin2hexFrom, index_double, next, second, Memory.store, List.foldl_cons, List.foldl_cons]
      change Memory.store _ (bin2hexFrom rest (UInt32.ofNat (k + 1))) _ = _
      rw [ih (k + 1) _ (by omega) j (by omega), bin2hex_cons]
      by_cases before : j < 2 * k
      · rw [if_pos before, if_pos (by omega),
          Function.update_of_ne (index_ne (by omega) (by omega) (by omega)),
          Function.update_of_ne (index_ne (by omega) (by omega) (by omega))]
      · rw [if_neg before]
        by_cases high : j = 2 * k
        · rw [high, if_pos (by omega),
            Function.update_of_ne (index_ne (by omega) (by omega) (by omega)),
            Function.update_self, Nat.sub_self]
          rfl
        · by_cases low : j = 2 * k + 1
          · rw [low, if_pos (by omega), Function.update_self, Nat.add_sub_cancel_left]
            rfl
          · have later : j - 2 * k = j - 2 * (k + 1) + 2 := by omega
            rw [if_neg (by omega), later]
            rfl

theorem bin2hexInto_holds (bytes : List UInt8) (out : Memory) (fits : 2 * bytes.length < 2 ^ 32) :
    (bin2hexInto bytes out).Holds (bin2hex bytes) := by
  constructor
  · rw [bin2hex_length]
    exact fits
  · intro j inside
    rw [bin2hex_length] at inside
    have stored := store_bin2hexFrom bytes 0 out (by omega) j (by omega)
    rwa [if_neg (by omega), Nat.mul_zero, Nat.sub_zero] at stored

/-- The terminator is written last, at twice the length. -/
theorem bin2hexFrom_last (bytes : List UInt8) :
    ∀ i, ∃ before, bin2hexFrom bytes i =
      before ++ [((i + UInt32.ofNat bytes.length) * 2, 0)] := by
  induction bytes with
  | nil =>
      intro i
      refine ⟨[], ?_⟩
      rw [bin2hexFrom, List.length_nil]
      simp
  | cons b rest ih =>
      intro i
      obtain ⟨before, same⟩ := ih (i + 1)
      refine ⟨(i * 2, hfBin2hex ((b &&& 0xf0) >>> 4)) :: (i * 2 + 1, hfBin2hex (b &&& 0x0f)) ::
        before, ?_⟩
      have next : i + UInt32.ofNat (rest.length + 1) = i + 1 + UInt32.ofNat rest.length := by
        rw [Nat.add_comm, UInt32.ofNat_add, UInt32.add_assoc]
        rfl
      rw [bin2hexFrom, same, List.length_cons, next]
      rfl

end Indices

section Wrapping

theorem store_concat (out : Memory) (before : Writes) (write : UInt32 × UInt8) :
    out.store (before ++ [write]) = Function.update (out.store before) write.1 write.2 := by
  rw [Memory.store, List.foldl_append]
  rfl

/-- From 2^31 bytes on the index of the terminator wraps around; at 2^31 it falls on the
first character. -/
theorem bin2hexInto_wrapped (bytes : List UInt8) (out : Memory) (size : bytes.length = 2 ^ 31) :
    bin2hexInto bytes out 0 = 0 := by
  obtain ⟨before, same⟩ := bin2hexFrom_last bytes 0
  have index : (0 + UInt32.ofNat bytes.length) * 2 = 0 := by
    rw [size]
    rfl
  rw [bin2hexInto, same, store_concat, index, Function.update_self]

/-- A decoder that meets the terminator first has nothing to give. -/
theorem hex2binReturns_of_terminator {mem : Memory} (empty : mem 0 = 0) {len : UInt32}
    {writes : Writes} (returned : Hex2binReturns mem len (true, writes)) : writes = [] := by
  obtain ⟨fuel, ran⟩ := returned
  cases fuel with
  | zero => cases ran
  | succ fuel =>
      rw [hex2binFrom_succ] at ran
      split at ran
      · have raised : (turn (mem 0) (mem (0 + 1))).2 = true := by
          rw [empty]
          exact turn_of_other (fun both => not_isHexDigit_zero both.1)
        rw [if_pos raised] at ran
        cases ran
      · injection ran with same
        injection same with _ same
        exact same.symm

end Wrapping

/-- Encoding and then decoding gives back what was encoded, as long as the text has a
length; a text is decoded exactly if it consists of pairs of hex digits, and encoding that
gives it back in lower case. -/
theorem hex_codec :
    (∀ (x : List UInt8) (out : Memory), 2 * x.length < 2 ^ 32 →
      Hex2binReturns (bin2hexInto x out) (UInt32.ofNat (2 * x.length)) (true, written 0 x)) ∧
    (∀ (mem : Memory) (s : List UInt8), mem.Holds s →
      ∃ (ok : Bool) (bytes : List UInt8),
        (∀ result, Hex2binReturns mem (UInt32.ofNat s.length) result ↔
          result = (ok, written 0 bytes)) ∧
        (ok = true ↔ s.length % 2 = 0 ∧ ∀ c ∈ s, IsHexDigit c) ∧
        (ok = true → bytes.length = s.length / 2 ∧
          ∀ out, (bin2hexInto bytes out).Holds (s.map Client.toLower)) ∧
        bytes.length ≤ (s.length + 1) / 2) := by
  constructor
  · intro x out fits
    have holds := bin2hexInto_holds x out fits
    have back := hex2bin_bin2hex x []
    rw [List.append_nil] at back
    have returns := (hex2binReturns_iff holds (true, written 0 x)).mpr
    rw [bin2hex_length, back] at returns
    exact returns rfl
  · intro mem s holds
    have decoded := hex2bin_decoded s
    have fits := holds.fits
    refine ⟨_, _, hex2binReturns_iff holds, decoded.accepted, ?_, decoded.short⟩
    intro ok
    have whole := decoded.whole ok
    refine ⟨whole, ?_⟩
    intro out
    rw [← decoded.lower ok]
    apply bin2hexInto_holds
    omega

/-- Two bytes and the writes that bring them back. -/
theorem hex_codec_bytes :
    Hex2binReturns (bin2hexInto [0xde, 0xad] (fun _ => 0)) (UInt32.ofNat 4)
      (true, [(0, 0xde), (1, 0xad)]) :=
  hex_codec.1 [0xde, 0xad] (fun _ => 0) (by decide)

/-- A text of 2^32 characters is lost, whatever length it is decoded with: its terminator
overwrites its first character. -/
theorem hex_codec_wrapped :
    ¬ ∀ (x : List UInt8) (out : Memory), ∃ len writes,
      Hex2binReturns (bin2hexInto x out) len (true, writes) ∧ writes.map Prod.snd = x := by
  intro back
  obtain ⟨len, writes, returned, bytes⟩ := back (List.replicate (2 ^ 31) 0) (fun _ => 0)
  have size : (List.replicate (2 ^ 31) (0 : UInt8)).length = 2 ^ 31 := List.length_replicate
  have empty := bin2hexInto_wrapped _ (fun _ => 0) size
  rw [hex2binReturns_of_terminator empty returned] at bytes
  have lengths := congrArg List.length bytes
  rw [size] at lengths
  cases lengths

end EpicPoold
