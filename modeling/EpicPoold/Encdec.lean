import EpicPoold.Foundations.Bytes

/-! encdec: the hex codec. Text is bytes; a C string is followed by a zero byte. -/

namespace EpicPoold

open Foundations

def hfHex2bin (c : UInt8) (err : Bool) : UInt8 × Bool :=
  if 0x30 ≤ c ∧ c ≤ 0x39 then (c - 0x30, err)
  else if 0x61 ≤ c ∧ c ≤ 0x66 then (c - 0x61 + 0xa, err)
  else if 0x41 ≤ c ∧ c ≤ 0x46 then (c - 0x41 + 0xa, err)
  else (0, true)

/-- The loop of hex2bin, one byte a turn; past the end of the text stands its
terminator. Yields the return value and the bytes written to `out`. -/
def hex2binLoop : Nat → List UInt8 → Bool × List UInt8
  | 0, _ => (true, [])
  | turns + 1, text =>
      let high := hfHex2bin (text.headD 0) false
      let low := hfHex2bin (text.tail.headD 0) high.2
      let byte := (high.1 <<< 4) ||| low.1
      if low.2 then (false, [byte])
      else
        let rest := hex2binLoop turns text.tail.tail
        (rest.1, byte :: rest.2)

/-- Two characters a turn while the index is below `len`. -/
def hex2bin (text : List UInt8) (len : Nat) : Bool × List UInt8 :=
  hex2binLoop ((len + 1) / 2) text

def hfBin2hex (c : UInt8) : UInt8 := if c ≤ 0x9 then 0x30 + c else 0x61 - 0xa + c

def bin2hex (bytes : List UInt8) : List UInt8 :=
  bytes.flatMap (fun (b : UInt8) => [hfBin2hex ((b &&& 0xf0) >>> 4), hfBin2hex (b &&& 0x0f)])

@[simp] theorem bin2hex_cons (b : UInt8) (rest : List UInt8) :
    bin2hex (b :: rest) =
      hfBin2hex ((b &&& 0xf0) >>> 4) :: hfBin2hex (b &&& 0x0f) :: bin2hex rest := by
  simp [bin2hex]

@[simp] theorem bin2hex_length (bytes : List UInt8) :
    (bin2hex bytes).length = 2 * bytes.length := by
  induction bytes with
  | nil => rfl
  | cons b rest ih =>
      simp only [bin2hex_cons, List.length_cons, ih]
      omega

/-- hex2bin writes one byte a turn, also in the turn that fails. -/
theorem hex2binLoop_length (turns : Nat) (text : List UInt8) :
    (hex2binLoop turns text).2.length ≤ turns ∧
      ((hex2binLoop turns text).1 = true → (hex2binLoop turns text).2.length = turns) := by
  induction turns generalizing text with
  | zero => simp [hex2binLoop]
  | succ turns ih =>
      obtain ⟨short, full⟩ := ih text.tail.tail
      simp only [hex2binLoop]
      split
      · simp
      · simp only [List.length_cons]
        exact ⟨by omega, fun ok => by rw [full ok]⟩

theorem hfHex2bin_hfBin2hex (digit : Fin 16) (err : Bool) :
    hfHex2bin (hfBin2hex (UInt8.ofNat digit.val)) err = (UInt8.ofNat digit.val, err) := by
  revert digit err
  decide

/-- A byte is put together from the nibbles bin2hex takes out of it. -/
theorem nibbles (b : UInt8) :
    ∃ high low : Fin 16, (b &&& 0xf0) >>> 4 = UInt8.ofNat high.val ∧
      b &&& 0x0f = UInt8.ofNat low.val ∧
      (UInt8.ofNat high.val <<< 4) ||| UInt8.ofNat low.val = b := by
  revert b
  apply forall_uint8
  intro n
  refine ⟨⟨n.val / 16, by omega⟩, ⟨n.val % 16, by omega⟩, ?_⟩
  revert n
  decide +kernel

/-- Decoding what bin2hex wrote gives the bytes back, whatever follows the text. -/
theorem hex2bin_bin2hex (bytes after : List UInt8) :
    hex2bin (bin2hex bytes ++ after) (2 * bytes.length) = (true, bytes) := by
  have turns : (2 * bytes.length + 1) / 2 = bytes.length := by omega
  rw [hex2bin, turns]
  clear turns
  induction bytes with
  | nil => rfl
  | cons b rest ih =>
      obtain ⟨high, low, highEq, lowEq, whole⟩ := nibbles b
      simp only [bin2hex_cons, List.length_cons, hex2binLoop, List.cons_append,
        List.headD_cons, List.tail_cons, highEq, lowEq, hfHex2bin_hfBin2hex, ih, whole]
      simp

end EpicPoold
