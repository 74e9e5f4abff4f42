import EpicPoold.Json

/-! What the checked accessors accept, and that they trip no assertion of the JSON
library. -/

namespace EpicPoold

open Foundations

section Accepts

def IsWord (v : Value) (n : UInt32) : Prop :=
  ∃ inRange, v = .number (.integer n.toNat inRange)

def IsWord64 (v : Value) (n : UInt64) : Prop :=
  ∃ inRange, v = .number (.integer n.toNat inRange)

theorem isUint_iff (value : Int) (inRange : -2 ^ 63 ≤ value ∧ value < 2 ^ 64) :
    (Value.number (.integer value inRange)).isUint = true ↔ 0 ≤ value ∧ value < 2 ^ 32 := by
  unfold Value.isUint
  exact decide_eq_true_iff

theorem isUint64_iff (value : Int) (inRange : -2 ^ 63 ≤ value ∧ value < 2 ^ 64) :
    (Value.number (.integer value inRange)).isUint64 = true ↔ 0 ≤ value := by
  unfold Value.isUint64
  exact decide_eq_true_iff

theorem getInteger_integer {fits : Value → Bool} {value : Int}
    {inRange : -2 ^ 63 ≤ value ∧ value < 2 ^ 64}
    (fit : fits (.number (.integer value inRange)) = true) :
    (Value.number (.integer value inRange)).getInteger fits = .ok value := if_pos fit

theorem getUint_eq_ok (v : Value) (n : UInt32) : getUint v = .ok n ↔ IsWord v n := by
  constructor
  · intro read
    rw [getUint] at read
    split at read
    · rename_i uint
      rcases v with _ | _ | (⟨value, inRange⟩ | _) | _ | _ | _
      all_goals try cases uint
      rw [Value.getUint, getInteger_integer uint, Except.map, Except.ok.injEq] at read
      subst read
      have fits := (isUint_iff value inRange).mp uint
      have same : ((UInt32.ofNat value.toNat).toNat : Int) = value := by
        rw [UInt32.toNat_ofNat']
        omega
      exact ⟨by rwa [same], by simp only [same]⟩
    · cases read
  · rintro ⟨bounds, same⟩
    have bound := n.toNat_lt
    have uint : v.isUint = true := by
      rw [same, isUint_iff]
      omega
    rw [getUint, if_pos uint]
    subst same
    rw [Value.getUint, getInteger_integer uint, Except.map, Int.toNat_natCast, UInt32.ofNat_toNat]

theorem getJsonUInt_of_isWord {obj v : Value} {key : String} {n : UInt32}
    (found : getObjectMember obj key = .ok (some v)) (word : IsWord v n) :
    getJsonUInt obj key = .ok n := by
  have read := (getUint_eq_ok v n).mpr word
  rw [getUint] at read
  split at read
  · rename_i uint
    rw [getJsonUInt, found]
    exact (if_pos uint).trans read
  · cases read

theorem getUint64_eq_ok (v : Value) (n : UInt64) : getUint64 v = .ok n ↔ IsWord64 v n := by
  constructor
  · intro read
    rw [getUint64] at read
    split at read
    · rename_i uint
      rcases v with _ | _ | (⟨value, inRange⟩ | _) | _ | _ | _
      all_goals try cases uint
      rw [Value.getUint64, getInteger_integer uint, Except.map, Except.ok.injEq] at read
      subst read
      have fits := (isUint64_iff value inRange).mp uint
      have same : ((UInt64.ofNat value.toNat).toNat : Int) = value := by
        rw [UInt64.toNat_ofNat']
        omega
      exact ⟨by rwa [same], by simp only [same]⟩
    · cases read
  · rintro ⟨bounds, same⟩
    have uint : v.isUint64 = true := by
      rw [same, isUint64_iff]
      omega
    rw [getUint64, if_pos uint]
    subst same
    rw [Value.getUint64, getInteger_integer uint, Except.map, Int.toNat_natCast, UInt64.ofNat_toNat]

theorem getArray_eq_ok (v : Value) (items : List Value) :
    getArray v = .ok items ↔ v = .array items := by
  cases v with
  | array found => simp [getArray, Value.isArray, Value.getArray]
  | null | bool _ | number _ | string _ | object _ =>
      simp [getArray, Value.isArray, jsonParseError]

theorem getArrayOf_eq_ok (v : Value) (len : Nat) (items : List Value) :
    getArrayOf v len = .ok items ↔ v = .array items ∧ items.length = len := by
  simp only [getArrayOf, bind_eq_ok, pure_eq_ok, getArray_eq_ok, rejectIf_eq_ok]
  constructor
  · rintro ⟨found, array, _, sized, same⟩
    cases same
    exact ⟨array, by simpa using sized⟩
  · rintro ⟨array, sized⟩
    exact ⟨items, array, (), by simpa using sized, rfl⟩

theorem getString_eq_ok (v : Value) (text : List UInt8) :
    getString v = .ok text ↔ v = .string text := by
  cases v with
  | string found => simp [getString, Value.isString, Value.getString]
  | null | bool _ | number _ | array _ | object _ =>
      simp [getString, Value.isString, jsonParseError]

end Accepts

/-- No accessor of the library is used on a value of another type. -/
def Safe {α : Type} (x : Json α) : Prop := x ≠ .error .assertion

section Types

variable {α β : Type}

theorem safe_pure (a : α) : Safe (pure a : Json α) := by
  intro failed
  cases failed

theorem safe_parseError (what : List UInt8) : Safe (jsonParseError what : Json α) := by
  intro failed
  cases failed

theorem safe_bind_iff (x : Json α) (f : α → Json β) :
    Safe (x >>= f) ↔ Safe x ∧ ∀ a, x = .ok a → Safe (f a) := by
  cases x with
  | error e =>
      constructor
      · intro safe
        refine ⟨?_, by simp⟩
        intro failed
        injection failed with same
        exact safe (congrArg Except.error same)
      · rintro ⟨safe, _⟩ failed
        injection failed with same
        exact safe (congrArg Except.error same)
  | ok a =>
      constructor
      · intro safe
        refine ⟨safe_pure a, ?_⟩
        intro b same
        cases same
        exact safe
      · rintro ⟨_, rest⟩
        exact rest a rfl

theorem safe_bind {x : Json α} {f : α → Json β} (first : Safe x)
    (rest : ∀ a, x = .ok a → Safe (f a)) : Safe (x >>= f) := (safe_bind_iff x f).mpr ⟨first, rest⟩

theorem safe_rejectIf (bad : Bool) (what : List UInt8) : Safe (rejectIf bad what) := by
  cases bad with
  | true => exact safe_parseError what
  | false => exact safe_pure ()

theorem safe_mapM {f : α → Json β} (each : ∀ a, Safe (f a)) (xs : List α) : Safe (xs.mapM f) := by
  induction xs with
  | nil => exact safe_pure []
  | cons x rest ih =>
      rw [List.mapM_cons]
      apply safe_bind (each x)
      intro y _
      exact safe_bind ih (fun ys _ => safe_pure _)

/-! Values that were looked at first. -/

theorem getString_of_isString {v : Value} (string : v.isString = true) :
    ∃ text, v.getString = .ok text := by
  cases v with
  | string text => exact ⟨text, rfl⟩
  | null | bool _ | number _ | array _ | object _ => cases string

theorem getInteger_of_fits {fits : Value → Bool} {v : Value}
    (number : fits v = true → ∃ n inRange, v = .number (.integer n inRange)) (fit : fits v = true) :
    ∃ n, v.getInteger fits = .ok n := by
  obtain ⟨n, inRange, same⟩ := number fit
  subst same
  exact ⟨n, getInteger_integer fit⟩

theorem number_of_isUint {v : Value} (uint : v.isUint = true) :
    ∃ n inRange, v = .number (.integer n inRange) := by
  rcases v with _ | _ | (⟨value, inRange⟩ | _) | _ | _ | _
  all_goals try cases uint
  exact ⟨value, inRange, rfl⟩

theorem number_of_isUint64 {v : Value} (uint : v.isUint64 = true) :
    ∃ n inRange, v = .number (.integer n inRange) := by
  rcases v with _ | _ | (⟨value, inRange⟩ | _) | _ | _ | _
  all_goals try cases uint
  exact ⟨value, inRange, rfl⟩

theorem number_of_isInt {v : Value} (int : v.isInt = true) :
    ∃ n inRange, v = .number (.integer n inRange) := by
  rcases v with _ | _ | (⟨value, inRange⟩ | _) | _ | _ | _
  all_goals try cases int
  exact ⟨value, inRange, rfl⟩

theorem safe_valueGetString {v : Value} (string : v.isString = true) : Safe v.getString := by
  obtain ⟨text, read⟩ := getString_of_isString string
  rw [read]
  exact safe_pure text

theorem safe_valueGetUint {v : Value} (uint : v.isUint = true) : Safe v.getUint := by
  obtain ⟨n, read⟩ := getInteger_of_fits number_of_isUint uint
  rw [Value.getUint, read]
  exact safe_pure _

theorem safe_valueGetUint64 {v : Value} (uint : v.isUint64 = true) : Safe v.getUint64 := by
  obtain ⟨n, read⟩ := getInteger_of_fits number_of_isUint64 uint
  rw [Value.getUint64, read]
  exact safe_pure _

/-! The accessors that look before they read. -/

variable (v : Value)

theorem safe_getString : Safe (getString v) := by
  rw [getString]
  split
  · rename_i string
    exact safe_valueGetString string
  · exact safe_parseError _

theorem safe_getUint : Safe (getUint v) := by
  rw [getUint]
  split
  · rename_i uint
    exact safe_valueGetUint uint
  · exact safe_parseError _

theorem safe_getUint64 : Safe (getUint64 v) := by
  rw [getUint64]
  split
  · rename_i uint
    exact safe_valueGetUint64 uint
  · exact safe_parseError _

theorem safe_getArray : Safe (getArray v) := by
  cases v with
  | array items => exact safe_pure items
  | null | bool _ | number _ | string _ | object _ => exact safe_parseError _

theorem safe_getArrayOf (len : Nat) : Safe (getArrayOf v len) := by
  apply safe_bind (safe_getArray v)
  intro items _
  apply safe_bind (safe_rejectIf _ _)
  intro _ _
  exact safe_pure items

theorem safe_jsonStrtoul (text : List UInt8) : Safe (jsonStrtoul text) := by
  rw [jsonStrtoul]
  split
  · exact safe_parseError _
  · exact safe_pure _

end Types

/-! Members of an object. -/

section Members

variable {obj : Value} (object : obj.isObject = true)

include object

theorem findMember_object (key : String) : ∃ found, obj.findMember key = .ok found := by
  cases obj with
  | object members => exact ⟨_, rfl⟩
  | null | bool _ | number _ | string _ | array _ => cases object

theorem safe_getObjectMember (key : String) : Safe (getObjectMember obj key) := by
  obtain ⟨found, read⟩ := findMember_object object key
  rw [getObjectMember, read]
  exact safe_pure found

theorem safe_getObjectMemberT (key : String) : Safe (getObjectMemberT obj key) := by
  apply safe_bind (safe_getObjectMember object key)
  intro found _
  cases found with
  | none => exact safe_parseError _
  | some v => exact safe_pure v

theorem safe_getJsonString (key : String) : Safe (getJsonString obj key) := by
  apply safe_bind (safe_getObjectMember object key)
  intro found _
  cases found with
  | none => exact safe_parseError _
  | some v =>
      change Safe (if _ then _ else _)
      split
      · rename_i string
        exact safe_valueGetString string
      · exact safe_parseError _

theorem safe_getJsonUInt (key : String) : Safe (getJsonUInt obj key) := by
  apply safe_bind (safe_getObjectMember object key)
  intro found _
  cases found with
  | none => exact safe_parseError _
  | some v =>
      change Safe (if _ then _ else _)
      split
      · rename_i uint
        exact safe_valueGetUint uint
      · split
        · rename_i string
          exact safe_bind (safe_valueGetString string) (fun text _ => safe_jsonStrtoul text)
        · exact safe_parseError _

theorem safe_getJsonCallId : Safe (getJsonCallId obj) := by
  apply safe_bind (safe_getObjectMember object "id")
  intro found _
  cases found with
  | none => exact safe_parseError _
  | some v =>
      change Safe (if _ then _ else _)
      split
      · rename_i string
        apply safe_bind (safe_valueGetString string)
        intro text _
        split
        · exact safe_pure _
        · exact safe_bind (safe_jsonStrtoul text) (fun id _ => safe_pure _)
      · split
        · rename_i uint
          exact safe_bind (safe_valueGetUint uint) (fun id _ => safe_pure _)
        · exact safe_parseError _

end Members

end EpicPoold
