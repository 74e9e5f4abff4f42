import EpicPoold.Foundations.Bytes
import EpicPoold.JsonAccess
import Mathlib.Data.List.TakeWhile

/-! Numbers that come as strings: which strings the accessors read as the number they
denote. -/

namespace EpicPoold

open Foundations

structure IsNumeral (text : List UInt8) : Prop where
  nonempty : text ≠ []
  digits : ∀ c ∈ text, isDigit c = true

def Denotes (text : List UInt8) (range n : Nat) : Prop :=
  IsNumeral text ∧ decimalValue text = n ∧ n < range

/-- A read that gives the number a text denotes and refuses every other text. -/
structure ReadsExactly (text : List UInt8) (range : Nat) (read : Json Nat) : Prop where
  value : ∀ n, read = .ok n ↔ Denotes text range n
  refused : (∀ n, ¬ Denotes text range n) → ∃ what, read = jsonParseError what

structure ReadsCallId (text : List UInt8) (read : Json Int) : Prop where
  value : ∀ n : Nat, read = .ok (n : Int) ↔ Denotes text (2 ^ 32) n
  stratum : read = .ok (-1) ↔ text = ascii "Stratum"
  refused : (∀ n, ¬ Denotes text (2 ^ 32) n) → text ≠ ascii "Stratum" →
    ∃ what, read = jsonParseError what

section Numerals

variable {text : List UInt8}

theorem digit_facts (c : UInt8) :
    isDigit c = true → c ≠ 0 ∧ isSpace c = false ∧ c ≠ 0x2d ∧ c ≠ 0x2b ∧ c ≠ 0x53 := by
  revert c
  apply forall_uint8
  decide +kernel

theorem IsNumeral.cstr_eq (numeral : IsNumeral text) : cstr text = text := by
  apply cstr_of_nonzero
  intro c among
  exact (digit_facts c (numeral.digits c among)).1

theorem strtoull_of_isNumeral (numeral : IsNumeral text) (fits : decimalValue text < 2 ^ 64) :
    (strtoull text).1 = UInt64.ofNat (decimalValue text) := by
  obtain ⟨c, rest, same⟩ := List.exists_cons_of_ne_nil numeral.nonempty
  have first := digit_facts c (numeral.digits c (same ▸ List.mem_cons_self))
  have skipped : text.dropWhile isSpace = text := by
    rw [same, List.dropWhile_cons_of_neg]
    rw [first.2.1]
    exact Bool.false_ne_true
  have minus : (text.head? == some 0x2d) = false := by
    rw [same, List.head?_cons, beq_eq_false_iff_ne]
    exact fun signed => first.2.2.1 (Option.some.inj signed)
  have plus : (text.head? == some 0x2b) = false := by
    rw [same, List.head?_cons, beq_eq_false_iff_ne]
    exact fun signed => first.2.2.2.1 (Option.some.inj signed)
  have digits : text.takeWhile isDigit = text := List.takeWhile_eq_self_iff.mpr numeral.digits
  have small : ¬ 2 ^ 64 ≤ decimalValue text := Nat.not_le.mpr fits
  simp only [strtoull, skipped, minus, plus, Bool.or_self, Bool.false_eq_true, if_false, digits,
    if_neg numeral.nonempty, if_neg small]

theorem strtoull_end (text : List UInt8) :
    ∃ stop, strtoull text = ((strtoull text).1, some stop) := by
  simp only [strtoull]
  split
  all_goals
    split
    · exact ⟨_, rfl⟩
    · exact ⟨_, rfl⟩

theorem jsonStrtoull_eq (text : List UInt8) : jsonStrtoull text = .ok (strtoull (cstr text)).1 := by
  obtain ⟨stop, set⟩ := strtoull_end (cstr text)
  rw [jsonStrtoull, set]

theorem jsonStrtoul_eq (text : List UInt8) :
    jsonStrtoul text = .ok (strtoull (cstr text)).1.toUInt32 := by
  obtain ⟨stop, set⟩ := strtoull_end (cstr text)
  rw [jsonStrtoul, set]

end Numerals

section Reads

variable {text : List UInt8} {range : Nat}

theorem Denotes.unique {n m : Nat} (one : Denotes text range n) (other : Denotes text range m) :
    n = m := one.2.1.symm.trans other.2.1

theorem readsExactly_ok_iff (n : Nat) :
    ReadsExactly text range (.ok n) ↔ Denotes text range n := by
  constructor
  · intro reads
    exact (reads.value n).mp rfl
  · intro denotes
    constructor
    · intro m
      constructor
      · intro same
        injection same with same
        exact same ▸ denotes
      · intro other
        rw [denotes.unique other]
    · intro none
      exact absurd denotes (none n)

theorem denotes_of_inRange {value : Nat}
    (read : IsNumeral text → decimalValue text < range → value = decimalValue text) :
    Denotes text range value ↔ IsNumeral text ∧ decimalValue text < range := by
  constructor
  · rintro ⟨numeral, same, fits⟩
    exact ⟨numeral, same ▸ fits⟩
  · rintro ⟨numeral, fits⟩
    have same := read numeral fits
    exact ⟨numeral, same.symm, same ▸ fits⟩

theorem strtoull_cstr_toNat (numeral : IsNumeral text) (fits : decimalValue text < 2 ^ 64) :
    (strtoull (cstr text)).1.toNat = decimalValue text := by
  rw [numeral.cstr_eq, strtoull_of_isNumeral numeral fits]
  exact UInt64.toNat_ofNat_of_lt' fits

theorem strtoull_cstr_narrow (numeral : IsNumeral text) (fits : decimalValue text < 2 ^ 32) :
    (strtoull (cstr text)).1.toUInt32.toNat = decimalValue text := by
  rw [UInt64.toNat_toUInt32, strtoull_cstr_toNat numeral (by omega)]
  exact Nat.mod_eq_of_lt fits

theorem isNumeral_ne_stratum (numeral : IsNumeral text) : text ≠ ascii "Stratum" := by
  intro same
  have among : (0x53 : UInt8) ∈ text := by
    rw [same]
    decide
  exact (digit_facts _ (numeral.digits _ among)).2.2.2.2 rfl

end Reads

section Accessors

variable {obj : Value} {key : String} {text : List UInt8}

theorem getJsonUInt_of_string (found : getObjectMember obj key = .ok (some (.string text))) :
    getJsonUInt obj key = .ok (strtoull (cstr text)).1.toUInt32 := by
  rw [getJsonUInt, found]
  exact jsonStrtoul_eq text

theorem getJsonUInt64_of_string (found : getObjectMember obj key = .ok (some (.string text))) :
    getJsonUInt64 obj key = .ok (strtoull (cstr text)).1 := by
  rw [getJsonUInt64, found]
  exact jsonStrtoull_eq text

theorem getJsonCallId_of_string (found : getObjectMember obj "id" = .ok (some (.string text))) :
    getJsonCallId obj = .ok (if cstr text = ascii "Stratum" then -1
      else ((strtoull (cstr text)).1.toUInt32.toNat : Int)) := by
  have read := jsonStrtoul_eq text
  rw [getJsonCallId, found]
  change (if cstr text = ascii "Stratum" then _ else _) = _
  split
  · rfl
  · rw [read]
    rfl

end Accessors

section CallIds

variable {text : List UInt8}

theorem readsCallId_number_iff (n : Nat) :
    ReadsCallId text (.ok (n : Int)) ↔ Denotes text (2 ^ 32) n := by
  constructor
  · intro reads
    exact (reads.value n).mp rfl
  · intro denotes
    constructor
    · intro m
      constructor
      · intro same
        injection same with same
        exact Int.ofNat_inj.mp same ▸ denotes
      · intro other
        rw [denotes.unique other]
    · constructor
      · intro same
        injection same with same
        omega
      · intro same
        exact absurd same (isNumeral_ne_stratum denotes.1)
    · intro none _
      exact absurd denotes (none n)

theorem readsCallId_stratum_iff : ReadsCallId text (.ok (-1)) ↔ text = ascii "Stratum" := by
  constructor
  · intro reads
    exact reads.stratum.mp rfl
  · intro stratum
    constructor
    · intro n
      constructor
      · intro same
        injection same with same
        omega
      · intro denotes
        exact absurd stratum (isNumeral_ne_stratum denotes.1)
    · exact iff_of_true rfl stratum
    · intro _ other
      exact absurd stratum other

theorem cstr_stratum : cstr (ascii "Stratum") = ascii "Stratum" := by decide

end CallIds

/-- The accessors read a string exactly only if it is a numeral in range, or the one other
text of a call id: they refuse no string. -/
theorem string_numbers (obj : Value) (text : List UInt8) :
    (∀ key, getObjectMember obj key = .ok (some (.string text)) →
      (ReadsExactly text (2 ^ 32) ((getJsonUInt obj key).map UInt32.toNat) ↔
        IsNumeral text ∧ decimalValue text < 2 ^ 32) ∧
      (ReadsExactly text (2 ^ 64) ((getJsonUInt64 obj key).map UInt64.toNat) ↔
        IsNumeral text ∧ decimalValue text < 2 ^ 64)) ∧
    (getObjectMember obj "id" = .ok (some (.string text)) →
      (ReadsCallId text (getJsonCallId obj) ↔
        (IsNumeral text ∧ decimalValue text < 2 ^ 32) ∨ text = ascii "Stratum")) := by
  constructor
  · intro key found
    rw [getJsonUInt_of_string found, getJsonUInt64_of_string found]
    constructor
    · calc
        _ ↔ Denotes text (2 ^ 32) _ := readsExactly_ok_iff _
        _ ↔ _ := denotes_of_inRange strtoull_cstr_narrow
    · calc
        _ ↔ Denotes text (2 ^ 64) _ := readsExactly_ok_iff _
        _ ↔ _ := denotes_of_inRange strtoull_cstr_toNat
  · intro found
    rw [getJsonCallId_of_string found]
    by_cases stratum : cstr text = ascii "Stratum"
    · have word : ¬ IsNumeral text := by
        intro numeral
        rw [numeral.cstr_eq] at stratum
        exact isNumeral_ne_stratum numeral stratum
      rw [if_pos stratum, readsCallId_stratum_iff]
      exact (or_iff_right (fun inRange => word inRange.1)).symm
    · have other : text ≠ ascii "Stratum" := by
        intro same
        rw [same] at stratum
        exact stratum cstr_stratum
      rw [if_neg stratum, readsCallId_number_iff, denotes_of_inRange strtoull_cstr_narrow]
      exact (or_iff_left other).symm

/-- A height of 1000 is read as such. -/
theorem string_numbers_height :
    ReadsExactly (ascii "1000") (2 ^ 32)
      ((getJsonUInt (.object [(ascii "height", .string (ascii "1000"))]) "height").map
        UInt32.toNat) :=
  ((string_numbers _ (ascii "1000")).1 "height" rfl).1.mpr
    ⟨⟨by decide, List.all_eq_true.mp (by decide)⟩, by decide⟩

/-- The empty text is read as height 0. -/
theorem string_numbers_misread :
    ¬ ∀ obj key text, getObjectMember obj key = .ok (some (.string text)) →
      ReadsExactly text (2 ^ 32) ((getJsonUInt obj key).map UInt32.toNat) := by
  intro every
  have reads := every (.object [(ascii "height", .string (ascii ""))]) "height" (ascii "") rfl
  have read := (reads.value 0).mp rfl
  exact read.1.nonempty rfl

end EpicPoold
