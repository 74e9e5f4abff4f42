import EpicPoold.Foundations.Fallible
import Mathlib.Data.List.TakeWhile

/-! json.h: the checked accessors over rapidjson values. The library's own accessors
are defined only on values of their own type; using one elsewhere is an assertion
failure, kept apart from json_parse_error. Text is bytes. -/

namespace EpicPoold

def ascii (text : String) : List UInt8 := text.toList.map (fun c => UInt8.ofNat c.toNat)

/-- What a C string function sees of a string: the bytes before the first zero. -/
def cstr (text : List UInt8) : List UInt8 := text.takeWhile (· ≠ 0)

theorem cstr_of_nonzero {text : List UInt8} (nonzero : ∀ c ∈ text, c ≠ 0) : cstr text = text := by
  apply List.takeWhile_eq_self_iff.mpr
  intro c among
  exact decide_eq_true (nonzero c among)

/-- The parser keeps an integer exactly when it fits 64 bits, signed or unsigned. -/
inductive Number where
  | integer (value : Int) (inRange : -2 ^ 63 ≤ value ∧ value < 2 ^ 64)
  | double

inductive Value where
  | null
  | bool (b : Bool)
  | number (n : Number)
  | string (text : List UInt8)
  | array (items : List Value)
  | object (members : List (List UInt8 × Value))

inductive JsonFail where
  | parseError (what : List UInt8)
  | assertion
  deriving DecidableEq

abbrev Json := Except JsonFail

def jsonParseError {α : Type} (what : List UInt8) : Json α := .error (.parseError what)

/-- `if(bad) throw json_parse_error(what)`. -/
def rejectIf (bad : Bool) (what : List UInt8) : Json Unit :=
  if bad then jsonParseError what else pure ()

theorem rejectIf_eq_ok (bad : Bool) (what : List UInt8) (u : Unit) :
    rejectIf bad what = .ok u ↔ bad = false := by
  cases bad with
  | false => simp [rejectIf, pure, Except.pure]
  | true => simp [rejectIf, jsonParseError]

namespace Value

def isNull : Value → Bool
  | .null => true
  | _ => false

def isString : Value → Bool
  | .string _ => true
  | _ => false

def isObject : Value → Bool
  | .object _ => true
  | _ => false

def isArray : Value → Bool
  | .array _ => true
  | _ => false

def isInt64 : Value → Bool
  | .number (.integer n _) => decide (n < 2 ^ 63)
  | _ => false

def isInt : Value → Bool
  | .number (.integer n _) => decide (-2 ^ 31 ≤ n ∧ n < 2 ^ 31)
  | _ => false

def isUint : Value → Bool
  | .number (.integer n _) => decide (0 ≤ n ∧ n < 2 ^ 32)
  | _ => false

def isUint64 : Value → Bool
  | .number (.integer n _) => decide (0 ≤ n)
  | _ => false

/-- `GetString` and `GetStringLength` together. -/
def getString : Value → Json (List UInt8)
  | .string text => .ok text
  | _ => .error .assertion

def getArray : Value → Json (List Value)
  | .array items => .ok items
  | _ => .error .assertion

def getInteger (fits : Value → Bool) (v : Value) : Json Int :=
  match v with
  | .number (.integer n _) => if fits v then .ok n else .error .assertion
  | _ => .error .assertion

def getInt64 (v : Value) : Json Int64 := (v.getInteger isInt64).map Int64.ofInt

def getInt (v : Value) : Json Int := v.getInteger isInt

def getUint (v : Value) : Json UInt32 := (v.getInteger isUint).map (fun n => UInt32.ofNat n.toNat)

def getUint64 (v : Value) : Json UInt64 :=
  (v.getInteger isUint64).map (fun n => UInt64.ofNat n.toNat)

def findMember (key : String) : Value → Json (Option Value)
  | .object members => .ok ((members.find? (fun m => m.1 == ascii key)).map Prod.snd)
  | _ => .error .assertion

end Value

def getObjectMember (obj : Value) (key : String) : Json (Option Value) := obj.findMember key

def keyError (key rest : String) : List UInt8 := ascii "Key " ++ ascii key ++ ascii rest

def getObjectMemberT (obj : Value) (key : String) : Json Value := do
  match ← obj.findMember key with
  | some v => pure v
  | none => jsonParseError (keyError key " does not exist")

def decimal (n : Nat) : List UInt8 := ascii (Nat.repr n)

def getArray (obj : Value) : Json (List Value) :=
  if obj.isArray then obj.getArray else jsonParseError (ascii "Expected array type")

def getArrayOf (obj : Value) (expLen : Nat) : Json (List Value) := do
  let ret ← getArray obj
  rejectIf (ret.length ≠ expLen)
    (ascii "Expected array size " ++ decimal expLen ++ ascii " got " ++ decimal ret.length)
  pure ret

def getString (obj : Value) : Json (List UInt8) :=
  if obj.isString then obj.getString else jsonParseError (ascii "Expected string type")

def getUint64 (obj : Value) : Json UInt64 :=
  if obj.isUint64 then obj.getUint64 else jsonParseError (ascii "Expected integer type")

def getUint (obj : Value) : Json UInt32 :=
  if obj.isUint then obj.getUint else jsonParseError (ascii "Expected integer type")

def isSpace (c : UInt8) : Bool := c == 0x20 || (0x09 ≤ c && c ≤ 0x0d)

def isDigit (c : UInt8) : Bool := 0x30 ≤ c && c ≤ 0x39

def decimalValue (digits : List UInt8) : Nat :=
  digits.foldl (fun n digit => n * 10 + (digit.toNat - 0x30)) 0

/-- strtoull in base 10 on a C string: blanks and a sign are skipped, a numeral out of
range saturates, a minus sign negates modulo 2^64, and the end pointer is set in any
case, to the start when there is no digit. -/
def strtoull (text : List UInt8) : UInt64 × Option Nat :=
  let unsigned := text.dropWhile isSpace
  let negative := unsigned.head? == some 0x2d
  let signed := negative || unsigned.head? == some 0x2b
  let digits := (if signed then unsigned.tail else unsigned).takeWhile isDigit
  if digits = [] then (0, some 0)
  else
    let blanks := text.length - unsigned.length + (if signed then 1 else 0)
    let n := decimalValue digits
    let value :=
      if 2 ^ 64 ≤ n then 0xffffffffffffffff
      else if negative then 0 - UInt64.ofNat n
      else UInt64.ofNat n
    (value, some (blanks + digits.length))

def conversionError (text : List UInt8) : List UInt8 :=
  ascii "Counld not convert to integer: " ++ text

def jsonStrtoull (text : List UInt8) : Json UInt64 :=
  match strtoull (cstr text) with
  | (_, none) => jsonParseError (conversionError (cstr text))
  | (value, some _) => .ok value

/-- The result of strtoull is narrowed to 32 bits. -/
def jsonStrtoul (text : List UInt8) : Json UInt32 :=
  match strtoull (cstr text) with
  | (_, none) => jsonParseError (conversionError (cstr text))
  | (value, some _) => .ok value.toUInt32

def getJsonCallId (obj : Value) : Json Int := do
  match ← getObjectMember obj "id" with
  | none => jsonParseError (ascii "Key id does not exist")
  | some v =>
      if v.isString then
        let text ← v.getString
        if cstr text = ascii "Stratum" then pure (-1)
        else
          let id ← jsonStrtoul text
          pure id.toNat
      else if v.isUint then
        let id ← v.getUint
        pure id.toNat
      else jsonParseError (ascii "Key id has wrong type, expected a number")

def getJsonUInt64 (obj : Value) (key : String) : Json UInt64 := do
  match ← getObjectMember obj key with
  | none => jsonParseError (keyError key " does not exist")
  | some v =>
      if v.isUint64 then v.getUint64
      else if v.isString then
        let text ← v.getString
        jsonStrtoull text
      else jsonParseError (keyError key " has wrong type, expected a number")

def getJsonUInt (obj : Value) (key : String) : Json UInt32 := do
  match ← getObjectMember obj key with
  | none => jsonParseError (keyError key " does not exist")
  | some v =>
      if v.isUint then v.getUint
      else if v.isString then
        let text ← v.getString
        jsonStrtoul text
      else jsonParseError (keyError key " has wrong type, expected a number")

def getJsonString (obj : Value) (key : String) : Json (List UInt8) := do
  match ← getObjectMember obj key with
  | none => jsonParseError (keyError key " does not exist")
  | some v =>
      if v.isString then v.getString
      else jsonParseError (keyError key " has wrong type, expected a string")

end EpicPoold
