import EpicPoold.ClientSteps
import EpicPoold.Decimal
import EpicPoold.JsonParse

/-! The lines that a miner sends: what process_line makes of their texts. -/

namespace EpicPoold

open Foundations Foundations.JsonText

section Texts

theorem hex2bin_bin2hex_self (bytes : List UInt8) :
    hex2bin (bin2hex bytes) (bin2hex bytes).length = (true, bytes) := by
  simpa using hex2bin_bin2hex bytes []

theorem plain_bin2hex (bytes : List UInt8) : ∀ b ∈ bin2hex bytes, IsPlain b := by
  have digit : ∀ d : Fin 16, IsPlain (hfBin2hex (UInt8.ofNat d.val)) := by decide
  induction bytes with
  | nil =>
      intro b among
      cases among
  | cons byte rest ih =>
      obtain ⟨high, low, first, second, _⟩ := nibbles byte
      rw [bin2hex_cons, first, second]
      simp only [List.forall_mem_cons]
      exact ⟨digit high, digit low, ih⟩

theorem drop_bin2hex (bytes : List UInt8) (count : Nat) (inside : count ≤ bytes.length) :
    (bin2hex bytes).drop (2 * count) = bin2hex (bytes.drop count) := by
  have length : (bin2hex (bytes.take count)).length = 2 * count := by
    rw [bin2hex_length, List.length_take, Nat.min_eq_left inside]
  calc (bin2hex bytes).drop (2 * count)
      = (bin2hex (bytes.take count) ++ bin2hex (bytes.drop count)).drop (2 * count) := by
        rw [bin2hex, bin2hex, bin2hex, ← List.flatMap_append, List.take_append_drop]
    _ = bin2hex (bytes.drop count) := List.drop_left' length

end Texts

namespace Client

def requestDoc (id : Nat) (method : String) (params : List (List UInt8 × Doc)) : Doc :=
  .object [(ascii "id", .number (decimal id)), (ascii "method", .string (ascii method)),
    (ascii "params", .object params)]

def loginLine (id : Nat) : List UInt8 := lineOf (requestDoc id "login" [])

def submitParams (jobid nonce : UInt32) (hash : V32) : List (List UInt8 × Doc) :=
  [(ascii "job_id", .string (bin2hex (store32 jobid))),
    (ascii "nonce", .string (bin2hex (store32 nonce))),
    (ascii "result", .string (bin2hex hash.data.bytes))]

def submitDoc (id : Nat) (jobid nonce : UInt32) (hash : V32) : Doc :=
  requestDoc id "submit" (submitParams jobid nonce hash)

def submitLine (id : Nat) (jobid nonce : UInt32) (hash : V32) : List UInt8 :=
  lineOf (submitDoc id jobid nonce hash)

theorem printable_requestDoc (id : Nat) {method : String} {params : List (List UInt8 × Doc)}
    (plain : allPlain (ascii method) = true) (others : Printable (.object params)) :
    Printable (requestDoc id method params) :=
  .cons (plain_of_allPlain rfl) (.number (isInteger_decimal id)) <|
  .cons (plain_of_allPlain rfl) (.string (plain_of_allPlain plain)) <|
  .cons (plain_of_allPlain rfl) others .nil

theorem printable_submitDoc (id : Nat) (jobid nonce : UInt32) (hash : V32) :
    Printable (submitDoc id jobid nonce hash) :=
  printable_requestDoc id rfl <|
  .cons (plain_of_allPlain rfl) (.string (plain_bin2hex _)) <|
  .cons (plain_of_allPlain rfl) (.string (plain_bin2hex _)) <|
  .cons (plain_of_allPlain rfl) (.string (plain_bin2hex _)) .nil

theorem submits_wellFormed {args : Value} {nonce : List UInt8} {hash : V32} {jobid : UInt32}
    (size : nonce.length = 4)
    (named : getObjectMember args "job_id" = .ok (some (.string (bin2hex (store32 jobid)))))
    (given : getObjectMember args "nonce" = .ok (some (.string (bin2hex nonce))))
    (result : getObjectMember args "result" = .ok (some (.string (bin2hex hash.data.bytes)))) :
    WellFormed args jobid (load32 nonce) := by
  refine ⟨_, _, _, named, ?_, ?_, given, ?_, ?_, result, ?_, ?_⟩
  · rw [bin2hex_length, store32_length]
  · have decoded := hex2bin_bin2hex_self (store32 jobid)
    rwa [bin2hex_length, store32_length] at decoded
  · rw [bin2hex_length, size]
  · have decoded := hex2bin_bin2hex_self nonce
    rw [store32_load32 nonce size]
    rwa [bin2hex_length, size] at decoded
  · rw [bin2hex_length, hash.data.length_eq]
  · have whole := hash.data.length_eq
    have last := drop_bin2hex hash.data.bytes 24 (by omega)
    have decoded := hex2bin_bin2hex_self (hash.data.bytes.drop 24)
    rw [bin2hex_length, List.length_drop, whole] at decoded
    rw [last, decoded]

theorem submitParams_wellFormed (jobid nonce : UInt32) (hash : V32) :
    WellFormed (valueOf (.object (submitParams jobid nonce hash))) jobid nonce := by
  have result : getObjectMember (valueOf (.object (submitParams jobid nonce hash))) "result" =
      .ok (some (.string (bin2hex hash.data.bytes))) := rfl
  have formed := submits_wellFormed (store32_length nonce) rfl rfl result
  rwa [load32_store32] at formed

theorem submitLine_handsSubmit {maxCallsPerMin : Nat} {env : RequestEnv} {c : Client}
    (within : (countCall env.time c).floodCount.toNat ≤ maxCallsPerMin) (id : Nat)
    (jobid nonce : UInt32) (hash : V32) :
    HandsSubmit maxCallsPerMin parseJson env c (submitLine id jobid nonce hash)
      (valueOf (submitDoc id jobid nonce hash))
      (valueOf (.object (submitParams jobid nonce hash))) where
  nonempty := List.concat_ne_nil _ _
  parsed := parse_lineOf (printable_submitDoc id jobid nonce hash)
  method := ⟨ascii "submit", rfl, by decide⟩
  params := ⟨rfl, rfl⟩
  within := within

end Client

end EpicPoold
