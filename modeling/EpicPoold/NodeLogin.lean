import EpicPoold.Foundations.Buffer
import EpicPoold.Foundations.JsonText
import EpicPoold.JconfSafety
import EpicPoold.NumberStrings

/-! The beginning of recv_main: the login request, as it is printed into send_buffer and
sent from it. -/

namespace EpicPoold

open Foundations JsonText

/-- What the format of the login prints; `%s` stops at a zero byte. -/
def loginText (username password : List UInt8) : List UInt8 :=
  ascii "\x7b\"id\":\"0\",\"jsonrpc\":\"2.0\",\"method\":\"login\", \"params\":" ++
    ascii "\x7b\"login\":\"" ++ cstr username ++ ascii "\",\"pass\":\"" ++ cstr password ++
    ascii "\",\"agent\":\"epic_poold\"\x7d\x7d\n"

/-- snprintf of a text: what fits is written, with a terminator, and the length of the whole
text is returned. A length that is no int is an error. -/
def snprintf {size : Nat} (buffer : Buffer size) (text : List UInt8) : Buffer size × Int :=
  if 2 ^ 31 ≤ text.length then (buffer, -1)
  else (buffer.write 0 (text.take (size - 1) ++ [0]), text.length)

structure Sent where
  count : Nat
  bytes : List UInt8

/-- The login of recv_main; `beyond` is what stands in memory behind send_buffer. -/
def sendLogin (sendBuffer : Buffer dataBufferLen) (beyond username password : List UInt8) :
    Option Sent :=
  let printed := snprintf sendBuffer (loginText username password)
  if printed.2 ≤ 0 then none
  else some ⟨printed.2.toNat, (printed.1.bytes ++ beyond).take printed.2.toNat⟩

def Jconf.login (d : Jconf) (sendBuffer : Buffer dataBufferLen) (beyond : List UInt8) :
    Json (Option Sent) := do
  let username ← d.getNodeUsername
  let password ← d.getNodePassword
  pure (sendLogin sendBuffer beyond username password)

def EncodesLogin (username password bytes : List UInt8) : Prop :=
  ∃ line doc params, bytes = line ++ [0x0a] ∧ 0x0a ∉ line ∧ parse line = some doc ∧
    doc.member (ascii "params") = some params ∧
    params.member (ascii "login") = some (.string username) ∧
    params.member (ascii "pass") = some (.string password)

def LoginFits (username password : List UInt8) : Prop :=
  (loginText username password).length < dataBufferLen

/-- A login that fits is sent from inside the buffer and encodes the credentials; one that
does not is not sent. -/
structure SendsLogin (username password : List UInt8) (sent : Option Sent) : Prop where
  fits : LoginFits username password → ∃ s, sent = some s ∧ s.count ≤ dataBufferLen ∧
    EncodesLogin username password s.bytes
  tooLong : ¬ LoginFits username password → sent = none

section Line

def loginHead (params : List UInt8) : List UInt8 :=
  0x7b :: field (ascii "id") (quoted (ascii "0") (comma ::
    field (ascii "jsonrpc") (quoted (ascii "2.0") (comma ::
      field (ascii "method") (quoted (ascii "login") (comma :: 0x20 ::
        field (ascii "params") (0x7b :: params)))))))

def loginParams (username password rest : List UInt8) : List UInt8 :=
  field (ascii "login") (quoted username (comma ::
    field (ascii "pass") (quoted password (comma ::
      field (ascii "agent") (quoted (ascii "epic_poold") (0x7d :: rest))))))

def loginMembers : List (List UInt8 × Doc) :=
  [(ascii "id", .string (ascii "0")), (ascii "jsonrpc", .string (ascii "2.0")),
    (ascii "method", .string (ascii "login"))]

variable (username password : List UInt8)

theorem loginText_eq :
    loginText username password =
      loginHead (loginParams (cstr username) (cstr password) [0x7d]) ++ [0x0a] := by
  have head : ascii "\x7b\"id\":\"0\",\"jsonrpc\":\"2.0\",\"method\":\"login\", \"params\":" ++
      ascii "\x7b\"login\":\"" =
      loginHead (quote :: (ascii "login" ++ [quote, colon, quote])) := by decide
  have tail : ascii "\",\"agent\":\"epic_poold\"\x7d\x7d\n" =
      quote :: comma :: field (ascii "agent") (quoted (ascii "epic_poold") [0x7d, 0x7d]) ++
        [0x0a] := by decide
  have middle : ascii "\",\"pass\":\"" =
      quote :: comma :: quote :: (ascii "pass" ++ [quote, colon, quote]) := by decide
  rw [loginText, head, tail, middle]
  simp only [loginHead, loginParams, field, quoted, List.append_assoc, List.cons_append,
    List.nil_append]

theorem loginText_length :
    (loginText username password).length =
      98 + (cstr username).length + (cstr password).length := by
  have fixed :
      (ascii "\x7b\"id\":\"0\",\"jsonrpc\":\"2.0\",\"method\":\"login\", \"params\":").length +
        (ascii "\x7b\"login\":\"").length + (ascii "\",\"pass\":\"").length +
        (ascii "\",\"agent\":\"epic_poold\"\x7d\x7d\n").length = 98 := by decide
  simp only [loginText, List.length_append]
  omega

theorem value_loginHead (fuel : Nat) (key text : List UInt8) :
    value (fuel + 6) (loginHead (field key text)) =
      (members fuel (field key text)).bind (fun p =>
        (afterItem 0x7d (members (fuel + 1)) (ascii "params", .object p.1) p.2).map (fun m =>
          (.object (loginMembers ++ m.1), m.2))) := by
  rw [loginHead, value_object,
    members_quoted (plain_of_allPlain rfl) _ (plain_of_allPlain rfl), afterItem_comma,
    members_quoted (plain_of_allPlain rfl) _ (plain_of_allPlain rfl), afterItem_comma,
    members_quoted (plain_of_allPlain rfl) _ (plain_of_allPlain rfl), afterItem_comma,
    members_blank, members_field (plain_of_allPlain rfl), value_object, Option.bind_map]
  simp only [Option.map_bind]
  apply congrArg
  funext p
  simp only [Function.comp, Option.map_map]
  rfl

theorem member_params (params : Doc) (others : List (List UInt8 × Doc)) :
    (Doc.object (loginMembers ++ (ascii "params", params) :: others)).member (ascii "params") =
      some params := rfl

theorem value_login (fuel : Nat) (rest : List UInt8) :
    value (fuel + 6) (loginHead (loginParams username password rest)) =
      (members fuel (loginParams username password rest)).bind (fun p =>
        (afterItem 0x7d (members (fuel + 1)) (ascii "params", .object p.1) p.2).map (fun m =>
          (.object (loginMembers ++ m.1), m.2))) := value_loginHead fuel _ _

theorem login_fuel :
    ∃ fuel, (loginHead (loginParams username password [0x7d])).length + 1 = fuel + 4 + 6 := by
  have long : 10 ≤ (loginHead (loginParams username password [0x7d])).length + 1 := by
    simp only [loginHead, field, quoted, List.length_cons, List.length_append]
    omega
  exact Nat.exists_eq_add_of_le' long

variable {username password}

theorem members_loginParams (plainName : ∀ b ∈ username, IsPlain b)
    (plainPassword : ∀ b ∈ password, IsPlain b) (fuel : Nat) (rest : List UInt8) :
    members (fuel + 4) (loginParams username password rest) =
      some ([(ascii "login", .string username), (ascii "pass", .string password),
        (ascii "agent", .string (ascii "epic_poold"))], rest) := by
  rw [loginParams, members_quoted (plain_of_allPlain rfl) _ plainName, afterItem_comma,
    members_quoted (plain_of_allPlain rfl) _ plainPassword, afterItem_comma,
    members_quoted (plain_of_allPlain rfl) _ (plain_of_allPlain rfl), afterItem_brace]
  rfl

theorem parse_login (plainName : ∀ b ∈ username, IsPlain b)
    (plainPassword : ∀ b ∈ password, IsPlain b) :
    parse (loginHead (loginParams username password [0x7d])) =
      some (.object (loginMembers ++ [(ascii "params",
        .object [(ascii "login", .string username), (ascii "pass", .string password),
          (ascii "agent", .string (ascii "epic_poold"))])])) := by
  obtain ⟨fuel, enough⟩ := login_fuel username password
  rw [parse, enough, value_login, members_loginParams plainName plainPassword, Option.bind_some,
    afterItem_brace]
  rfl

theorem cut_cstr (text : List UInt8) :
    text = cstr text ∨ ∃ more, text = cstr text ++ 0 :: more := by
  have parts : cstr text ++ text.dropWhile (· ≠ 0) = text := List.takeWhile_append_dropWhile
  cases rest : text.dropWhile (· ≠ 0) with
  | nil =>
      rw [rest, List.append_nil] at parts
      exact .inl parts.symm
  | cons b more =>
      have zero : b = 0 := by
        have stopped := List.head?_dropWhile_not (fun (b : UInt8) => decide (b ≠ 0)) text
        rw [rest] at stopped
        simpa using stopped
      rw [rest, zero] at parts
      exact .inr ⟨more, parts.symm⟩

theorem plain_of_parse {doc params : Doc}
    (parsed : parse (loginHead (loginParams (cstr username) (cstr password) [0x7d])) = some doc)
    (inside : doc.member (ascii "params") = some params)
    (name : params.member (ascii "login") = some (.string username))
    (pass : params.member (ascii "pass") = some (.string password)) :
    (∀ b ∈ username, IsPlain b) ∧ ∀ b ∈ password, IsPlain b := by
  obtain ⟨fuel, enough⟩ := login_fuel (cstr username) (cstr password)
  rw [parse, enough, value_login] at parsed
  simp only [Option.bind_eq_bind, Option.bind_eq_some_iff, Option.map_eq_some_iff] at parsed
  obtain ⟨whole, ⟨⟨first, rest⟩, read, ⟨found, last⟩, tail, same⟩, ends⟩ := parsed
  obtain ⟨others, after⟩ := afterItem_some _ _ _ tail
  have object : params = .object first := by
    split at ends
    · injection ends with ends
      rw [← ends, ← same, after, member_params] at inside
      injection inside with inside
      exact inside.symm
    · cases ends
  subst object
  obtain ⟨login, rest, others, body, shape, more⟩ :=
    members_string_some (plain_of_allPlain rfl) _ read
  have sameName : login = username := by
    rw [shape] at name
    injection name with name
    injection name
  subst sameName
  obtain ⟨wholeName, plainName, next⟩ := plain_of_stringBody (cut_cstr login) body
  rw [next, afterItem_comma] at more
  obtain ⟨⟨fields, last⟩, read, same⟩ := Option.map_eq_some_iff.mp more
  obtain ⟨pass', rest, others, body, shape', _⟩ :=
    members_string_some (plain_of_allPlain rfl) _ read
  injection same with same _
  have samePass : pass' = password := by
    rw [← same, shape'] at pass
    injection pass with pass
    injection pass
  subst samePass
  obtain ⟨wholePass, plainPass, _⟩ := plain_of_stringBody (cut_cstr pass') body
  exact ⟨wholeName ▸ plainName, wholePass ▸ plainPass⟩

end Line

section Request

variable (sendBuffer : Buffer dataBufferLen) (beyond : List UInt8) {username password : List UInt8}

theorem not_newline_of_plain {text : List UInt8} (plain : ∀ b ∈ text, IsPlain b) :
    text.all (· != 0x0a) = true := by
  apply List.all_eq_true.mpr
  intro b among
  have visible := (plain b among).2.2
  rw [bne_iff_ne]
  rintro rfl
  exact absurd visible (by decide)

theorem newline_login (plainName : ∀ b ∈ username, IsPlain b)
    (plainPassword : ∀ b ∈ password, IsPlain b) :
    0x0a ∉ loginHead (loginParams username password [0x7d]) := by
  have name := not_newline_of_plain plainName
  have pass := not_newline_of_plain plainPassword
  have all : (loginHead (loginParams username password [0x7d])).all (· != 0x0a) = true := by
    simp only [loginHead, loginParams, field, quoted, List.all_cons, List.all_append, name, pass]
    decide
  intro among
  exact absurd (List.all_eq_true.mp all 0x0a among) (by decide)

theorem cstr_of_plain {text : List UInt8} (plain : ∀ b ∈ text, IsPlain b) : cstr text = text := by
  apply cstr_of_nonzero
  intro b among
  have visible := (plain b among).2.2
  rintro rfl
  exact absurd visible (by decide)

theorem encodesLogin_iff :
    EncodesLogin username password (loginText username password) ↔
      (∀ b ∈ username, IsPlain b) ∧ ∀ b ∈ password, IsPlain b := by
  constructor
  · rintro ⟨line, doc, params, same, _, parsed, inside, name, pass⟩
    rw [loginText_eq] at same
    have lines := (List.append_inj' same rfl).1
    rw [← lines] at parsed
    exact plain_of_parse parsed inside name pass
  · rintro ⟨plainName, plainPassword⟩
    refine ⟨loginHead (loginParams username password [0x7d]), _, _, ?_,
      newline_login plainName plainPassword, parse_login plainName plainPassword, rfl, rfl, rfl⟩
    rw [loginText_eq, cstr_of_plain plainName, cstr_of_plain plainPassword]

theorem sendLogin_of_long (long : 2 ^ 31 ≤ (loginText username password).length) :
    sendLogin sendBuffer beyond username password = none := by
  rw [sendLogin, snprintf, if_pos long]
  exact if_pos (show (-1 : Int) ≤ 0 by decide)

theorem sendLogin_of_int (short : (loginText username password).length < 2 ^ 31) :
    ∃ bytes, sendLogin sendBuffer beyond username password =
      some ⟨(loginText username password).length, bytes⟩ := by
  have positive : ¬ ((loginText username password).length : Int) ≤ 0 := by
    rw [loginText_length]
    omega
  rw [sendLogin, snprintf, if_neg (Nat.not_le.mpr short)]
  simp only [if_neg positive, Int.toNat_natCast]
  exact ⟨_, rfl⟩

theorem sendLogin_of_fits (fits : LoginFits username password) :
    sendLogin sendBuffer beyond username password =
      some ⟨(loginText username password).length, loginText username password⟩ := by
  have size : dataBufferLen = 16384 := rfl
  have bound : (loginText username password).length < dataBufferLen := fits
  have positive : ¬ ((loginText username password).length : Int) ≤ 0 := by
    rw [loginText_length]
    omega
  have whole : (loginText username password).take (dataBufferLen - 1) =
      loginText username password := List.take_of_length_le (by omega)
  have room : 0 + (loginText username password ++ [0]).length ≤ dataBufferLen := by
    rw [List.length_append, List.length_singleton]
    omega
  have written := Buffer.write_bytes sendBuffer 0 _ room
  have int : ¬ 2 ^ 31 ≤ (loginText username password).length := by omega
  rw [sendLogin, snprintf, if_neg int]
  simp only [if_neg positive, Int.toNat_natCast, whole, written, List.take_zero, List.nil_append,
    List.append_assoc, List.take_left]

theorem plain_of_sendsLogin (fits : LoginFits username password)
    (sends : SendsLogin username password (sendLogin sendBuffer beyond username password)) :
    (∀ b ∈ username, IsPlain b) ∧ ∀ b ∈ password, IsPlain b := by
  obtain ⟨s, sent, _, encodes⟩ := sends.fits fits
  rw [sendLogin_of_fits sendBuffer beyond fits] at sent
  injection sent with same
  rw [← same] at encodes
  exact encodesLogin_iff.mp encodes

theorem Jconf.login_validated {d : Jconf} {jsonDoc : Value} (valid : d.Validated jsonDoc) :
    ∃ username password,
      getObjectMember jsonDoc "node_username" = .ok (some (.string username)) ∧
      getObjectMember jsonDoc "node_password" = .ok (some (.string password)) ∧
      d.login sendBuffer beyond = .ok (sendLogin sendBuffer beyond username password) := by
  obtain ⟨username, name, readName⟩ := getStringOf_validated valid .sNodeUsername rfl
  obtain ⟨password, pass, readPass⟩ := getStringOf_validated valid .sNodePassword rfl
  refine ⟨username, password, name, pass, ?_⟩
  rw [Jconf.login, getNodeUsername, readName, getNodePassword, readPass]
  rfl

end Request

/-- The login is right exactly for credentials that need no escapes and fit the buffer; only
a text too long for an int is left unsent. -/
theorem sends_login_iff (sendBuffer : Buffer dataBufferLen)
    (beyond username password : List UInt8) :
    SendsLogin username password (sendLogin sendBuffer beyond username password) ↔
      (LoginFits username password ∧ (∀ b ∈ username, IsPlain b) ∧ ∀ b ∈ password, IsPlain b) ∨
        2 ^ 31 ≤ (loginText username password).length := by
  constructor
  · intro sends
    by_cases fits : LoginFits username password
    · exact .inl ⟨fits, plain_of_sendsLogin sendBuffer beyond fits sends⟩
    · refine .inr ?_
      by_contra short
      obtain ⟨bytes, sent⟩ := sendLogin_of_int sendBuffer beyond (Nat.not_le.mp short)
      rw [sends.tooLong fits] at sent
      cases sent
  · rintro (⟨fits, plain⟩ | long)
    · constructor
      · intro _
        exact ⟨_, sendLogin_of_fits sendBuffer beyond fits, Nat.le_of_lt fits,
          encodesLogin_iff.mpr plain⟩
      · intro other
        exact absurd fits other
    · constructor
      · intro fits
        have bound : (loginText username password).length < 16 * 1024 := fits
        omega
      · intro _
        exact sendLogin_of_long sendBuffer beyond long

/-- A password with a quote in it. -/
theorem sends_login_quoted :
    ¬ ∀ sendBuffer beyond username password,
      SendsLogin username password (sendLogin sendBuffer beyond username password) := by
  intro sends
  have fits : LoginFits (ascii "pool") (ascii "a\"b") := by
    rw [LoginFits, loginText_length]
    decide
  have plain := plain_of_sendsLogin (.filled _ 0) [] fits (sends _ _ _ _)
  exact absurd (plain.2 quote (by decide)) (by decide)

end EpicPoold
