import Mathlib.Tactic

/-! JSON texts: a parser over bytes, and which characters stand for themselves in a string.
Bytes from 0x80 on are taken as they are, and of two members with one key the first one
counts. -/

namespace Foundations.JsonText

inductive Doc where
  | null
  | bool (b : Bool)
  | number (text : List UInt8)
  | string (text : List UInt8)
  | array (items : List Doc)
  | object (members : List (List UInt8 × Doc))

def Doc.member (key : List UInt8) : Doc → Option Doc
  | .object members => (members.find? (fun m => m.1 == key)).map Prod.snd
  | _ => none

abbrev quote : UInt8 := 0x22

abbrev backslash : UInt8 := 0x5c

abbrev colon : UInt8 := 0x3a

abbrev comma : UInt8 := 0x2c

section Strings

def IsPlain (b : UInt8) : Prop := b ≠ quote ∧ b ≠ backslash ∧ 0x20 ≤ b

instance (b : UInt8) : Decidable (IsPlain b) := inferInstanceAs (Decidable (_ ∧ _))

def allPlain (text : List UInt8) : Bool := text.all (fun b => decide (IsPlain b))

theorem plain_of_allPlain {text : List UInt8} (all : allPlain text = true) :
    ∀ b ∈ text, IsPlain b := by
  intro b among
  exact of_decide_eq_true (List.all_eq_true.mp all b among)

def escapes : List (UInt8 × UInt8) :=
  [(quote, quote), (backslash, backslash), (0x2f, 0x2f), (0x62, 0x08), (0x66, 0x0c),
    (0x6e, 0x0a), (0x72, 0x0d), (0x74, 0x09)]

def hexValue (c : UInt8) : Option Nat :=
  if 0x30 ≤ c ∧ c ≤ 0x39 then some (c.toNat - 0x30)
  else if 0x61 ≤ c ∧ c ≤ 0x66 then some (c.toNat - 0x61 + 10)
  else if 0x41 ≤ c ∧ c ≤ 0x46 then some (c.toNat - 0x41 + 10)
  else none

def codeUnit : List UInt8 → Option (Nat × List UInt8)
  | a :: b :: c :: d :: rest => do
      let a ← hexValue a
      let b ← hexValue b
      let c ← hexValue c
      let d ← hexValue d
      some (((a * 16 + b) * 16 + c) * 16 + d, rest)
  | _ => none

def utf8 (n : Nat) : List UInt8 :=
  if n < 0x80 then [UInt8.ofNat n]
  else if n < 0x800 then [UInt8.ofNat (0xc0 + n / 64), UInt8.ofNat (0x80 + n % 64)]
  else if n < 0x10000 then
    [UInt8.ofNat (0xe0 + n / 4096), UInt8.ofNat (0x80 + n / 64 % 64), UInt8.ofNat (0x80 + n % 64)]
  else
    [UInt8.ofNat (0xf0 + n / 262144), UInt8.ofNat (0x80 + n / 4096 % 64),
      UInt8.ofNat (0x80 + n / 64 % 64), UInt8.ofNat (0x80 + n % 64)]

def unicode (text : List UInt8) : Option (List UInt8 × List UInt8) := do
  let (n, rest) ← codeUnit text
  if n < 0xd800 ∨ 0xe000 ≤ n then some (utf8 n, rest)
  else
    match rest with
    | a :: b :: rest =>
        if n < 0xdc00 ∧ a = backslash ∧ b = 0x75 then do
          let (m, rest) ← codeUnit rest
          if 0xdc00 ≤ m ∧ m < 0xe000 then
            some (utf8 (0x10000 + (n - 0xd800) * 1024 + (m - 0xdc00)), rest)
          else none
        else none
    | _ => none

def chunk : List UInt8 → Option (List UInt8 × List UInt8)
  | [] => none
  | b :: rest =>
      if b = backslash then
        match rest with
        | [] => none
        | e :: rest =>
            if e = 0x75 then unicode rest
            else (escapes.lookup e).map (fun c => ([c], rest))
      else if IsPlain b then some ([b], rest)
      else none

def stringFrom : Nat → List UInt8 → Option (List UInt8 × List UInt8)
  | 0, _ => none
  | fuel + 1, text =>
      if text.head? = some quote then some ([], text.tail)
      else do
        let (c, rest) ← chunk text
        let (more, rest) ← stringFrom fuel rest
        some (c ++ more, rest)

def stringBody (text : List UInt8) : Option (List UInt8 × List UInt8) :=
  stringFrom text.length text

end Strings

section Values

def isBlank (b : UInt8) : Bool := b == 0x20 || b == 0x09 || b == 0x0a || b == 0x0d

def skipBlanks (text : List UInt8) : List UInt8 := text.dropWhile isBlank

def expect (b : UInt8) (text : List UInt8) : Option (List UInt8) :=
  match skipBlanks text with
  | [] => none
  | c :: rest => if c = b then some rest else none

def isNumeric (b : UInt8) : Bool := 0x30 ≤ b && b ≤ 0x39

def someDigits (text : List UInt8) : Option (List UInt8 × List UInt8) :=
  if text.takeWhile isNumeric = [] then none
  else some (text.takeWhile isNumeric, text.dropWhile isNumeric)

def optionalPart (marks signs text : List UInt8) : Option (List UInt8 × List UInt8) :=
  match text with
  | [] => some ([], [])
  | mark :: rest =>
      if mark ∈ marks then do
        let sign := if rest.headD 0 ∈ signs then rest.take 1 else []
        let (digits, rest) ← someDigits (rest.drop sign.length)
        some (mark :: sign ++ digits, rest)
      else some ([], text)

def number (text : List UInt8) : Option (Doc × List UInt8) := do
  let sign := if text.headD 0 = 0x2d then [0x2d] else []
  let (digits, rest) ← someDigits (text.drop sign.length)
  if digits.headD 0 = 0x30 ∧ digits ≠ [0x30] then none
  else do
    let (fraction, rest) ← optionalPart [0x2e] [] rest
    let (exponent, rest) ← optionalPart [0x65, 0x45] [0x2b, 0x2d] rest
    some (.number (sign ++ digits ++ fraction ++ exponent), rest)

def literals : List (List UInt8 × Doc) :=
  [([0x6e, 0x75, 0x6c, 0x6c], .null), ([0x74, 0x72, 0x75, 0x65], .bool true),
    ([0x66, 0x61, 0x6c, 0x73, 0x65], .bool false)]

def scalar (text : List UInt8) : Option (Doc × List UInt8) :=
  match literals.find? (fun l => l.1.isPrefixOf text) with
  | some (word, doc) => some (doc, text.drop word.length)
  | none => number text

def afterItem {α : Type} (close : UInt8) (more : List UInt8 → Option (List α × List UInt8))
    (item : α) (text : List UInt8) : Option (List α × List UInt8) :=
  match skipBlanks text with
  | [] => none
  | c :: rest =>
      if c = comma then (more rest).map (fun m => (item :: m.1, m.2))
      else if c = close then some ([item], rest)
      else none

mutual

/-- A value; the fuel bounds the depth and the number of the members. -/
def value : Nat → List UInt8 → Option (Doc × List UInt8)
  | 0, _ => none
  | fuel + 1, text =>
      match skipBlanks text with
      | [] => none
      | c :: rest =>
          if c = quote then (stringBody rest).map (fun s => (.string s.1, s.2))
          else if c = 0x7b then
            match expect 0x7d rest with
            | some rest => some (.object [], rest)
            | none => (members fuel rest).map (fun m => (.object m.1, m.2))
          else if c = 0x5b then
            match expect 0x5d rest with
            | some rest => some (.array [], rest)
            | none => (elements fuel rest).map (fun e => (.array e.1, e.2))
          else scalar (c :: rest)

def members : Nat → List UInt8 → Option (List (List UInt8 × Doc) × List UInt8)
  | 0, _ => none
  | fuel + 1, text => do
      let rest ← expect quote text
      let (key, rest) ← stringBody rest
      let rest ← expect colon rest
      let (v, rest) ← value fuel rest
      afterItem 0x7d (members fuel) (key, v) rest

def elements : Nat → List UInt8 → Option (List Doc × List UInt8)
  | 0, _ => none
  | fuel + 1, text => do
      let (v, rest) ← value fuel text
      afterItem 0x5d (elements fuel) v rest

end

def parse (text : List UInt8) : Option Doc := do
  let (doc, rest) ← value (text.length + 1) text
  if skipBlanks rest = [] then some doc else none

end Values

section Bodies

inductive Body : List UInt8 → List UInt8 → Prop
  | nil : Body [] []
  | plain {b : UInt8} {source decoded : List UInt8} :
      IsPlain b → Body source decoded → Body (b :: source) (b :: decoded)
  | escape {e c : UInt8} {source decoded : List UInt8} :
      escapes.lookup e = some c → Body source decoded →
        Body (backslash :: e :: source) (c :: decoded)
  | unicode {digits bytes source decoded : List UInt8} :
      quote ∉ digits → bytes.length ≤ digits.length → Body source decoded →
        Body (backslash :: 0x75 :: digits ++ source) (bytes ++ decoded)

theorem utf8_length_le (n : Nat) : (utf8 n).length ≤ 4 := by
  unfold utf8
  split_ifs
  all_goals simp

theorem not_quote_of_hexValue {c : UInt8} {n : Nat} (digit : hexValue c = some n) : quote ≠ c := by
  rintro rfl
  cases digit

theorem codeUnit_some {text rest : List UInt8} {n : Nat} (read : codeUnit text = some (n, rest)) :
    ∃ digits, text = digits ++ rest ∧ quote ∉ digits ∧ digits.length = 4 := by
  rcases text with _ | ⟨a, _ | ⟨b, _ | ⟨c, _ | ⟨d, after⟩⟩⟩⟩
  all_goals try cases read
  simp only [codeUnit, Option.bind_eq_bind, Option.bind_eq_some_iff, Option.some.injEq,
    Prod.mk.injEq] at read
  obtain ⟨_, first, _, second, _, third, _, fourth, _, same⟩ := read
  refine ⟨[a, b, c, d], by rw [same]; rfl, ?_, rfl⟩
  simp only [List.mem_cons, List.not_mem_nil, or_false, not_or]
  exact ⟨not_quote_of_hexValue first, not_quote_of_hexValue second, not_quote_of_hexValue third,
    not_quote_of_hexValue fourth⟩

theorem unicode_some {text rest bytes : List UInt8} (read : unicode text = some (bytes, rest)) :
    ∃ digits, text = digits ++ rest ∧ quote ∉ digits ∧ bytes.length ≤ digits.length := by
  simp only [unicode, Option.bind_eq_bind, Option.bind_eq_some_iff] at read
  obtain ⟨⟨n, after⟩, unit, read⟩ := read
  obtain ⟨digits, same, unquoted, four⟩ := codeUnit_some unit
  simp only at read
  split at read
  · injection read with read
    injection read with first second
    refine ⟨digits, second ▸ same, unquoted, ?_⟩
    rw [← first, four]
    exact utf8_length_le n
  · split at read
    · rename_i a b after
      split at read
      · rename_i low
        simp only [Option.bind_eq_some_iff] at read
        obtain ⟨⟨m, last⟩, unit, read⟩ := read
        obtain ⟨more, same', unquoted', four'⟩ := codeUnit_some unit
        simp only at read
        split at read
        · injection read with read
          injection read with first second
          refine ⟨digits ++ backslash :: 0x75 :: more, ?_, ?_, ?_⟩
          · rw [same, same', low.2.1, low.2.2, second]
            simp
          · have first : quote ≠ backslash := by decide
            have second : quote ≠ 0x75 := by decide
            simp only [List.mem_append, List.mem_cons, not_or]
            exact ⟨unquoted, first, second, unquoted'⟩
          · have short := utf8_length_le (0x10000 + (n - 0xd800) * 1024 + (m - 0xdc00))
            rw [← first, List.length_append]
            omega
        · cases read
      · cases read
    · cases read

theorem body_of_chunk {text rest decoded source more : List UInt8}
    (read : chunk text = some (decoded, source ++ quote :: rest)) (later : Body source more) :
    ∃ whole, text = whole ++ quote :: rest ∧ Body whole (decoded ++ more) := by
  rcases text with _ | ⟨b, text⟩
  · cases read
  · simp only [chunk] at read
    split at read
    · rename_i escaped
      rcases text with _ | ⟨e, text⟩
      · cases read
      · simp only at read
        split at read
        · rename_i mark
          obtain ⟨digits, same, unquoted, short⟩ := unicode_some read
          refine ⟨_, ?_, .unicode unquoted short later⟩
          rw [escaped, mark, same]
          simp
        · obtain ⟨c, found, same⟩ := Option.map_eq_some_iff.mp read
          injection same with first second
          subst first
          refine ⟨_, ?_, .escape found later⟩
          rw [escaped, second]
          rfl
    · split at read
      · rename_i plain
        injection read with same
        injection same with first second
        subst first
        refine ⟨_, ?_, .plain plain later⟩
        rw [second]
        rfl
      · cases read

theorem body_of_stringFrom (fuel : Nat) :
    ∀ text decoded rest, stringFrom fuel text = some (decoded, rest) →
      ∃ source, text = source ++ quote :: rest ∧ Body source decoded := by
  induction fuel with
  | zero =>
      intro text decoded rest read
      cases read
  | succ fuel ih =>
      intro text decoded rest read
      rw [stringFrom] at read
      split at read
      · rename_i closed
        obtain ⟨after, same⟩ := List.head?_eq_some_iff.mp closed
        injection read with read
        injection read with first second
        refine ⟨[], ?_, first ▸ .nil⟩
        rw [← second, same]
        rfl
      · simp only [Option.bind_eq_bind, Option.bind_eq_some_iff] at read
        obtain ⟨⟨c, after⟩, first, ⟨more, last⟩, others, same⟩ := read
        injection same with same
        injection same with whole ends
        subst whole ends
        obtain ⟨source, shape, later⟩ := ih _ _ _ others
        simp only at shape
        rw [shape] at first
        exact body_of_chunk first later

namespace Body

variable {source decoded : List UInt8}

theorem length_le (body : Body source decoded) : decoded.length ≤ source.length := by
  induction body with
  | nil => exact Nat.le_refl 0
  | plain _ _ ih =>
      simp only [List.length_cons]
      omega
  | escape _ _ ih =>
      simp only [List.length_cons]
      omega
  | unicode _ short _ ih =>
      simp only [List.length_append, List.length_cons]
      omega

theorem plain_of_length (body : Body source decoded) (full : decoded.length = source.length) :
    decoded = source ∧ ∀ b ∈ source, IsPlain b := by
  induction body with
  | nil => exact ⟨rfl, by simp⟩
  | plain plain _ ih =>
      simp only [List.length_cons, Nat.add_right_cancel_iff] at full
      obtain ⟨same, others⟩ := ih full
      exact ⟨by rw [same], List.forall_mem_cons.mpr ⟨plain, others⟩⟩
  | escape _ later _ =>
      have short := later.length_le
      simp only [List.length_cons] at full
      omega
  | unicode _ short later _ =>
      have rest := later.length_le
      simp only [List.length_append, List.length_cons] at full
      omega

theorem split_quote (body : Body source decoded) :
    ∀ before after, source = before ++ quote :: after →
      ∃ start first last, before = start ++ [backslash] ∧ Body start first ∧ Body after last ∧
        decoded = first ++ quote :: last := by
  induction body with
  | nil =>
      intro before after same
      exact absurd same.symm (List.append_ne_nil_of_right_ne_nil _ (List.cons_ne_nil _ _))
  | @plain b _ _ plain later ih =>
      intro before after same
      rcases before with _ | ⟨_, before⟩
      · injection same with head _
        exact absurd head plain.1
      · injection same with head tail
        subst head
        obtain ⟨start, first, last, shape, whole, rest, decodes⟩ := ih before after tail
        exact ⟨b :: start, b :: first, last, by rw [shape]; rfl, .plain plain whole, rest,
          by rw [decodes]; rfl⟩
  | @escape e c _ _ found later ih =>
      intro before after same
      rcases before with _ | ⟨_, _ | ⟨_, before⟩⟩
      · injection same with head _
        exact absurd head (by decide)
      · injection same with head tail
        injection tail with mark tail
        subst head mark tail
        injection found with quoted
        exact ⟨[], [], _, rfl, .nil, later, by rw [← quoted]; rfl⟩
      · injection same with head tail
        injection tail with mark tail
        subst head mark
        obtain ⟨start, first, last, shape, whole, rest, decodes⟩ := ih before after tail
        exact ⟨backslash :: e :: start, c :: first, last, by rw [shape]; rfl, .escape found whole,
          rest, by rw [decodes]; rfl⟩
  | @unicode digits bytes _ _ unquoted short later ih =>
      intro before after same
      rcases before with _ | ⟨_, _ | ⟨_, before⟩⟩
      · injection same with head _
        exact absurd head (by decide)
      · injection same with _ tail
        injection tail with mark _
        exact absurd mark (by decide)
      · injection same with head tail
        injection tail with mark tail
        subst head mark
        obtain ⟨middle, shape, tail⟩ | ⟨middle, shape, tail⟩ := List.append_eq_append_iff.mp tail
        · obtain ⟨start, first, last, shape', whole, rest, decodes⟩ := ih middle after tail
          refine ⟨backslash :: 0x75 :: digits ++ start, bytes ++ first, last, ?_,
            .unicode unquoted short whole, rest, ?_⟩
          · rw [shape, shape']
            simp
          · rw [decodes]
            simp
        · rcases middle with _ | ⟨_, middle⟩
          · obtain ⟨start, _, _, nothing, _⟩ := ih [] after tail.symm
            exact absurd nothing.symm
              (List.append_ne_nil_of_right_ne_nil _ (List.cons_ne_nil _ _))
          · injection tail with head _
            rw [shape, head] at unquoted
            exact absurd (List.mem_append_right before List.mem_cons_self) unquoted

end Body

end Bodies

section Reading

theorem stringFrom_plain {source : List UInt8} (plain : ∀ b ∈ source, IsPlain b) (fuel : Nat)
    (rest : List UInt8) :
    stringFrom (source.length + 1 + fuel) (source ++ quote :: rest) = some (source, rest) := by
  induction source with
  | nil =>
      rw [List.length_nil, Nat.zero_add, Nat.add_comm, stringFrom]
      exact if_pos rfl
  | cons b source ih =>
      obtain ⟨head, others⟩ := List.forall_mem_cons.mp plain
      have more : (b :: source).length + 1 + fuel = source.length + 1 + fuel + 1 := by
        rw [List.length_cons]
        omega
      have unquoted : ¬ (b :: source ++ quote :: rest).head? = some quote :=
        fun same => head.1 (Option.some.inj same)
      have first : chunk (b :: source ++ quote :: rest) = some ([b], source ++ quote :: rest) := by
        rw [List.cons_append]
        simp only [chunk]
        rw [if_neg head.2.1, if_pos head]
      rw [more, stringFrom, if_neg unquoted, first]
      change (stringFrom _ _ >>= fun r => some (b :: r.1, r.2)) = _
      rw [ih others]
      rfl

theorem stringBody_plain {source : List UInt8} (plain : ∀ b ∈ source, IsPlain b)
    (rest : List UInt8) : stringBody (source ++ quote :: rest) = some (source, rest) := by
  have length : (source ++ quote :: rest).length = source.length + 1 + rest.length := by
    rw [List.length_append, List.length_cons]
    omega
  rw [stringBody, length]
  exact stringFrom_plain plain rest.length rest

/-- A C string that was put between quotes and is read back as the whole string it comes
from is that string, and plain. The comma tells a closing quote that was escaped. -/
theorem plain_of_stringBody {source text after rest : List UInt8}
    (cut : text = source ∨ ∃ more, text = source ++ 0 :: more)
    (read : stringBody (source ++ quote :: comma :: quote :: after) = some (text, rest)) :
    text = source ∧ (∀ b ∈ source, IsPlain b) ∧ rest = comma :: quote :: after := by
  obtain ⟨whole, shape, body⟩ := body_of_stringFrom _ _ _ _ read
  have long : source.length ≤ text.length := by
    rcases cut with same | ⟨more, same⟩
    · rw [same]
    · rw [same, List.length_append]
      omega
  have short := body.length_le
  obtain ⟨middle, split, tail⟩ | ⟨middle, split, tail⟩ := List.append_eq_append_iff.mp shape
  · rcases middle with _ | ⟨_, middle⟩
    · -- The string ends where it was meant to.
      rw [List.append_nil] at split
      injection tail with _ tail
      subst split
      obtain ⟨same, plain⟩ := body.plain_of_length (by omega)
      exact ⟨same, plain, tail.symm⟩
    · -- The closing quote was escaped, so that the string ends at the next one.
      injection tail with head tail
      subst head
      obtain ⟨start, first, last, ends, front, back, decodes⟩ :=
        body.split_quote source middle split
      have next : middle = [comma] := by
        rcases middle with _ | ⟨_, _ | ⟨_, middle⟩⟩
        · injection tail with head _
          exact absurd head (by decide)
        · injection tail with head _
          rw [← head]
        · injection tail with head tail
          injection tail with quoted tail
          subst head quoted
          obtain ⟨start, _, _, nothing, _⟩ := back.split_quote [comma] middle rfl
          have same := (List.append_eq_cons_iff.mp nothing.symm)
          rcases same with ⟨_, same⟩ | ⟨_, _, same⟩
          · injection same with same _
            exact absurd same (by decide)
          · exact absurd same.symm (List.append_ne_nil_of_right_ne_nil _ (List.cons_ne_nil _ _))
      subst next
      have fewer := front.length_le
      have one := back.length_le
      have size := congrArg List.length ends
      have length := congrArg List.length decodes
      simp only [List.length_append, List.length_cons, List.length_nil] at one size length
      have final : text.getLast? = some quote ∧ last = [] ∨ text.getLast? = some comma := by
        rcases last with _ | ⟨x, others⟩
        · refine .inl ⟨?_, rfl⟩
          rw [decodes]
          simp
        · have whole : (x :: others).length = [comma].length := by
            simp only [List.length_cons, List.length_nil] at one ⊢
            omega
          obtain ⟨same, _⟩ := back.plain_of_length whole
          rw [decodes, same]
          refine .inr ?_
          simp
      rcases cut with same | ⟨more, same⟩
      · have backslashed : text.getLast? = some backslash := by
          rw [same, ends]
          simp
        rw [backslashed] at final
        rcases final with ⟨final, _⟩ | final
        · exact absurd (Option.some.inj final) (by decide)
        · exact absurd (Option.some.inj final) (by decide)
      · have longer := congrArg List.length same
        simp only [List.length_append, List.length_cons] at longer
        have none : more = [] := List.eq_nil_of_length_eq_zero (by omega)
        have zero : text.getLast? = some 0 := by
          rw [same, none]
          simp
        rw [zero] at final
        rcases final with ⟨_, nothing⟩ | final
        · rw [nothing, List.length_nil] at length
          omega
        · exact absurd (Option.some.inj final) (by decide)
  · -- A quote of the string itself ended it too early.
    rcases middle with _ | ⟨_, middle⟩
    · rw [List.append_nil] at split
      injection tail with _ tail
      subst split
      obtain ⟨same, plain⟩ := body.plain_of_length (by omega)
      exact ⟨same, plain, tail⟩
    · have lengths := congrArg List.length split
      simp only [List.length_append, List.length_cons] at lengths
      omega

end Reading

section Evaluation

def quoted (text rest : List UInt8) : List UInt8 := quote :: (text ++ quote :: rest)

def field (key rest : List UInt8) : List UInt8 := quoted key (colon :: rest)

variable {key : List UInt8} (plain : ∀ b ∈ key, IsPlain b) (fuel : Nat)

theorem skipBlanks_cons {c : UInt8} (visible : isBlank c = false) (rest : List UInt8) :
    skipBlanks (c :: rest) = c :: rest := by
  rw [skipBlanks, List.dropWhile_cons_of_neg]
  rw [visible]
  exact Bool.false_ne_true

theorem expect_self {c : UInt8} (visible : isBlank c = false) (rest : List UInt8) :
    expect c (c :: rest) = some rest := by
  rw [expect, skipBlanks_cons visible]
  exact if_pos rfl

theorem value_quote (text : List UInt8) :
    value (fuel + 1) (quote :: text) =
      (stringBody text).map (fun s => (.string s.1, s.2)) := by
  rw [value, skipBlanks_cons (by decide)]
  exact if_pos rfl

theorem value_object (key text : List UInt8) :
    value (fuel + 1) (0x7b :: field key text) =
      (members fuel (field key text)).map (fun m => (.object m.1, m.2)) := by
  have more : expect 0x7d (field key text) = none := by
    rw [expect, field, quoted, skipBlanks_cons (by decide)]
    exact if_neg (by decide)
  rw [value, skipBlanks_cons (by decide)]
  simp only [more]
  rfl

theorem members_blank (text : List UInt8) :
    members (fuel + 1) (0x20 :: text) = members (fuel + 1) text := rfl

section Items

variable {α : Type} (close : UInt8) (more : List UInt8 → Option (List α × List UInt8)) (item : α)
  (rest : List UInt8)

theorem afterItem_comma :
    afterItem close more item (comma :: rest) =
      (more rest).map (fun m => (item :: m.1, m.2)) := by
  rw [afterItem, skipBlanks_cons (by decide)]
  exact if_pos rfl

theorem afterItem_brace : afterItem 0x7d more item (0x7d :: rest) = some ([item], rest) := by
  rw [afterItem, skipBlanks_cons (by decide)]
  exact if_neg (by decide)

theorem afterItem_some {text last : List UInt8} {items : List α}
    (read : afterItem close more item text = some (items, last)) :
    ∃ others, items = item :: others := by
  rw [afterItem] at read
  split at read
  · cases read
  · split at read
    · obtain ⟨m, _, same⟩ := Option.map_eq_some_iff.mp read
      injection same with same
      exact ⟨m.1, same.symm⟩
    · split at read
      · injection read with same
        injection same with same
        exact ⟨[], same.symm⟩
      · cases read

end Items

include plain

theorem members_field (text : List UInt8) :
    members (fuel + 1) (field key text) =
      (value fuel text).bind
        (fun v => afterItem 0x7d (members fuel) (key, v.1) v.2) := by
  rw [members, field, quoted, expect_self (by decide)]
  simp only [Option.bind_eq_bind, Option.bind_some, stringBody_plain plain,
    expect_self (show isBlank colon = false by decide)]

theorem members_string (text : List UInt8) :
    members (fuel + 2) (field key (quote :: text)) =
      (stringBody text).bind
        (fun s => afterItem 0x7d (members (fuel + 1)) (key, .string s.1) s.2) := by
  rw [members_field plain, value_quote, Option.bind_map]
  rfl

theorem members_quoted {text : List UInt8} (simple : ∀ b ∈ text, IsPlain b) (rest : List UInt8) :
    members (fuel + 2) (field key (quoted text rest)) =
      afterItem 0x7d (members (fuel + 1)) (key, .string text) rest := by
  rw [quoted, members_string plain, stringBody_plain simple, Option.bind_some]

theorem members_string_some {text last : List UInt8} {items : List (List UInt8 × Doc)}
    (read : members (fuel + 2) (field key (quote :: text)) = some (items, last)) :
    ∃ s rest others, stringBody text = some (s, rest) ∧ items = (key, .string s) :: others ∧
      afterItem 0x7d (members (fuel + 1)) (key, .string s) rest = some (items, last) := by
  rw [members_string plain, Option.bind_eq_some_iff] at read
  obtain ⟨⟨s, rest⟩, body, after⟩ := read
  obtain ⟨others, same⟩ := afterItem_some _ _ _ after
  exact ⟨s, rest, others, body, same, after⟩

end Evaluation

end Foundations.JsonText
