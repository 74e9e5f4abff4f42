import EpicPoold.Client
import EpicPoold.Foundations.JsonPrint

/-! Numbers in base 10 as printf writes them, digit by digit. -/

namespace EpicPoold

open Foundations Foundations.JsonText

def digitByte (d : Nat) : UInt8 := UInt8.ofNat (0x30 + d)

theorem ascii_append (first second : String) :
    ascii (first ++ second) = ascii first ++ ascii second := by
  rw [ascii, String.toList_append, List.map_append]
  rfl

theorem decimal_of_lt {n : Nat} (small : n < 10) : decimal n = [digitByte n] := by
  interval_cases n
  all_goals rfl

theorem decimal_of_le {n : Nat} (large : 10 ≤ n) :
    decimal n = decimal (n / 10) ++ [digitByte (n % 10)] := by
  rw [decimal, Nat.repr_eq_repr_append_repr large, ascii_append]
  exact congrArg _ (decimal_of_lt (Nat.mod_lt n (by decide)))

theorem digitByte_toNat {d : Nat} (small : d < 10) : (digitByte d).toNat = 0x30 + d := by
  rw [digitByte, UInt8.toNat_ofNat']
  omega

theorem isNumeric_digitByte {d : Nat} (small : d < 10) : isNumeric (digitByte d) = true := by
  interval_cases d
  all_goals rfl

/-- A property of numbers that goes from the rest to the number with one digit more. -/
theorem decimal_induction {holds : Nat → Prop} (digit : ∀ n, n < 10 → holds n)
    (more : ∀ n, 10 ≤ n → holds (n / 10) → holds n) (n : Nat) : holds n := by
  induction n using Nat.strongRecOn with
  | _ n ih =>
      by_cases small : n < 10
      · exact digit n small
      · exact more n (by omega) (ih (n / 10) (by omega))

theorem decimal_ne_nil (n : Nat) : decimal n ≠ [] := by
  induction n using decimal_induction with
  | digit n small =>
      rw [decimal_of_lt small]
      exact List.cons_ne_nil _ _
  | more n large ih =>
      rw [decimal_of_le large]
      exact List.append_ne_nil_of_left_ne_nil ih _

theorem decimal_numeric (n : Nat) : ∀ b ∈ decimal n, isNumeric b = true := by
  induction n using decimal_induction with
  | digit n small =>
      rw [decimal_of_lt small]
      intro b among
      rw [List.mem_singleton.mp among]
      exact isNumeric_digitByte small
  | more n large ih =>
      rw [decimal_of_le large]
      intro b among
      rcases List.mem_append.mp among with early | last
      · exact ih b early
      · rw [List.mem_singleton.mp last]
        exact isNumeric_digitByte (Nat.mod_lt n (by decide))

theorem decimal_first (n : Nat) : (decimal n).headD 0 = 0x30 → n = 0 := by
  induction n using decimal_induction with
  | digit n small =>
      rw [decimal_of_lt small]
      intro zero
      have value := congrArg UInt8.toNat zero
      rw [List.headD_cons, digitByte_toNat small] at value
      change 0x30 + n = 0x30 at value
      omega
  | more n large ih =>
      obtain ⟨c, rest, same⟩ := List.exists_cons_of_ne_nil (decimal_ne_nil (n / 10))
      rw [decimal_of_le large]
      intro zero
      rw [same] at ih zero
      have none := ih zero
      omega

theorem isNatural_decimal (n : Nat) : IsNatural (decimal n) where
  some := decimal_ne_nil n
  numeric := decimal_numeric n
  canonical := by
    intro zero
    rw [decimal_first n zero]
    rfl

theorem isInteger_decimal (n : Nat) : IsInteger (decimal n) := .inl (isNatural_decimal n)

theorem isInteger_signedDecimal (n : Int64) : IsInteger (signedDecimal n) := by
  rw [signedDecimal]
  split
  · exact .inr ⟨_, rfl, isNatural_decimal _⟩
  · exact isInteger_decimal _

theorem decimalValue_decimal (n : Nat) : decimalValue (decimal n) = n := by
  induction n using decimal_induction with
  | digit n small =>
      rw [decimal_of_lt small, decimalValue, List.foldl_cons, List.foldl_nil,
        digitByte_toNat small]
      omega
  | more n large ih =>
      have last : n % 10 < 10 := Nat.mod_lt n (by decide)
      rw [decimalValue] at ih
      rw [decimal_of_le large, decimalValue, List.foldl_append, ih, List.foldl_cons,
        List.foldl_nil, digitByte_toNat last]
      omega

end EpicPoold
