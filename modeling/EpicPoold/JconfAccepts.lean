import EpicPoold.JconfSafety

/-! The files parse_config takes, and the flag that decides over them. -/

namespace EpicPoold

def Member (jsonDoc : Value) (key : String) (v : Value) : Prop :=
  getObjectMember jsonDoc key = .ok (some v)

def stringKeys : List String :=
  ["pid_file", "log_file", "log_level", "db_hostname", "db_port", "db_name", "db_username",
    "db_password", "node_hostname", "node_port", "node_username", "node_password",
    "tls_certificate", "tls_ciper_list"]

def portKeys : List String := ["plain_port", "tls_port"]

def timeoutKeys : List String := ["template_timeout", "fatal_node_timeout"]

/-- A document with every member of the configuration, of its type and in its range. -/
structure ValidConfig (jsonDoc : Value) : Prop where
  object : jsonDoc.isObject = true
  strings : ∀ key ∈ stringKeys, ∃ text, Member jsonDoc key (.string text)
  logLevel : ∃ level ∈ logLevels, Member jsonDoc "log_level" (.string level)
  daemonize : ∃ flag, Member jsonDoc "daemonize" (.bool flag)
  ports : ∀ key ∈ portKeys, ∃ v n, Member jsonDoc key v ∧ IsWord v n ∧ n ≤ 0xffff
  timeouts : ∀ key ∈ timeoutKeys, ∃ v n, Member jsonDoc key v ∧ IsWord v n

/-- A file that is there, can be read completely and holds a valid configuration. -/
def ValidFile (parse : List UInt8 → Except ParseFailure Value) (answers : FileAnswers) : Prop :=
  ∃ file jsonDoc, answers.Delivers file ∧ parse file = .ok jsonDoc ∧ ValidConfig jsonDoc

section Rows

variable {jsonDoc : Value}

theorem checkType_self (type : JsonType) : checkType type type = true := if_pos rfl

theorem oConfigValues_kinds :
    ∀ row ∈ oConfigValues,
      row.iType = .kStringType ∧ row.flagConstraints = flagNone ∧ row.sName ∈ stringKeys ∨
      row.iType = .kTrueType ∧ row.flagConstraints = flagNone ∧ row.sName = "daemonize" ∨
      row.iType = .kNumberType ∧ row.flagConstraints = flagU16bit ∧ row.sName ∈ portKeys ∨
      row.iType = .kNumberType ∧ row.flagConstraints = flagUnsigned ∧ row.sName ∈ timeoutKeys := by
  decide

theorem rowAccepts_of_flagNone {row : ConfigVal} {val : Value}
    (type : checkType val.getType row.iType = true) (free : row.flagConstraints = flagNone) :
    RowAccepts row val := by
  refine ⟨type, ?_, ?_⟩
  · intro flagged
    rw [free] at flagged
    exact absurd rfl flagged
  · intro flagged
    rw [free] at flagged
    exact absurd rfl flagged

theorem isUint_of_isWord {v : Value} {n : UInt32} (word : IsWord v n) : v.isUint = true := by
  obtain ⟨inRange, same⟩ := word
  have bound := n.toNat_lt
  rw [same, isUint_iff]
  omega

theorem getType_of_isWord {v : Value} {n : UInt32} (word : IsWord v n) :
    v.getType = .kNumberType := by
  obtain ⟨inRange, same⟩ := word
  rw [same]
  rfl

theorem checkConstraintU16bit_of_isWord {v : Value} {n : UInt32} (word : IsWord v n)
    (small : n ≤ 0xffff) : checkConstraintU16bit v = .ok true := by
  have uint := isUint_of_isWord word
  have read := (getUint_eq_ok v n).mpr word
  rw [getUint, if_pos uint] at read
  rw [checkConstraintU16bit, if_pos uint, read]
  exact congrArg Except.ok (decide_eq_true small)

theorem rowAccepts_port {row : ConfigVal} {v : Value} {n : UInt32}
    (type : row.iType = .kNumberType) (word : IsWord v n) (small : n ≤ 0xffff) :
    RowAccepts row v := by
  refine ⟨?_, fun _ => isUint_of_isWord word, fun _ => checkConstraintU16bit_of_isWord word small⟩
  rw [type, getType_of_isWord word]
  exact checkType_self _

theorem rowAccepts_timeout {row : ConfigVal} {v : Value} {n : UInt32}
    (type : row.iType = .kNumberType) (flag : row.flagConstraints = flagUnsigned)
    (word : IsWord v n) : RowAccepts row v := by
  refine ⟨?_, fun _ => isUint_of_isWord word, ?_⟩
  · rw [type, getType_of_isWord word]
    exact checkType_self _
  · intro flagged
    rw [flag] at flagged
    exact absurd rfl flagged

theorem rowHolds_of_validConfig (valid : ValidConfig jsonDoc) :
    ∀ row ∈ oConfigValues, RowHolds jsonDoc row := by
  intro row among
  obtain ⟨type, free, key⟩ | ⟨type, free, key⟩ | ⟨type, _, key⟩ | ⟨type, flag, key⟩ :=
    oConfigValues_kinds row among
  · obtain ⟨text, member⟩ := valid.strings row.sName key
    refine ⟨.string text, member, rowAccepts_of_flagNone ?_ free⟩
    rw [type]
    exact checkType_self _
  · obtain ⟨flag, member⟩ := valid.daemonize
    rw [← key] at member
    refine ⟨.bool flag, member, rowAccepts_of_flagNone ?_ free⟩
    rw [type]
    cases flag <;> rfl
  · obtain ⟨v, n, member, word, small⟩ := valid.ports row.sName key
    exact ⟨v, member, rowAccepts_port type word small⟩
  · obtain ⟨v, n, member, word⟩ := valid.timeouts row.sName key
    exact ⟨v, member, rowAccepts_timeout type flag word⟩

theorem cstr_logLevel : ∀ level ∈ logLevels, cstr level = level := by decide

theorem accepted_of_validConfig (valid : ValidConfig jsonDoc) (d : Jconf) :
    ConfigTaken d jsonDoc := by
  refine ⟨valid.object, rowHolds_of_validConfig valid, ?_⟩
  intro _ text member
  obtain ⟨level, known, named⟩ := valid.logLevel
  have same := named.symm.trans member
  injection same with same
  injection same with same
  injection same with same
  rw [← same, cstr_logLevel level known]
  exact known

end Rows

def defaultConfig : Value :=
  .object
    [(ascii "pid_file", .string []), (ascii "log_file", .string []),
      (ascii "log_level", .string (ascii "debug_lo")), (ascii "db_hostname", .string []),
      (ascii "db_port", .string []), (ascii "db_name", .string []),
      (ascii "db_username", .string []), (ascii "db_password", .string []),
      (ascii "node_hostname", .string (ascii "127.0.0.1")),
      (ascii "node_port", .string (ascii "3416")), (ascii "node_username", .string []),
      (ascii "node_password", .string []), (ascii "daemonize", .bool false),
      (ascii "plain_port", .number (.integer 3333 (by decide))),
      (ascii "tls_port", .number (.integer 4444 (by decide))),
      (ascii "tls_certificate", .string (ascii "crt.pem")),
      (ascii "tls_ciper_list", .string (ascii "HIGH")),
      (ascii "fatal_node_timeout", .number (.integer 300 (by decide))),
      (ascii "template_timeout", .number (.integer 60 (by decide)))]

theorem validConfig_default : ValidConfig defaultConfig := by
  constructor
  · rfl
  · simp only [stringKeys, List.forall_mem_cons]
    exact ⟨⟨_, rfl⟩, ⟨_, rfl⟩, ⟨_, rfl⟩, ⟨_, rfl⟩, ⟨_, rfl⟩, ⟨_, rfl⟩, ⟨_, rfl⟩, ⟨_, rfl⟩,
      ⟨_, rfl⟩, ⟨_, rfl⟩, ⟨_, rfl⟩, ⟨_, rfl⟩, ⟨_, rfl⟩, ⟨_, rfl⟩, by simp⟩
  · exact ⟨ascii "debug_lo", by decide, rfl⟩
  · exact ⟨false, rfl⟩
  · simp only [portKeys, List.forall_mem_cons]
    exact ⟨⟨_, 3333, rfl, ⟨by decide, rfl⟩, by decide⟩, ⟨_, 4444, rfl, ⟨by decide, rfl⟩, by decide⟩,
      by simp⟩
  · simp only [timeoutKeys, List.forall_mem_cons]
    exact ⟨⟨_, 60, rfl, ⟨by decide, rfl⟩⟩, ⟨_, 300, rfl, ⟨by decide, rfl⟩⟩, by simp⟩

section Flag

variable (parse : List UInt8 → Except ParseFailure Value) (d : Jconf) (filename : List UInt8)
  (answers : FileAnswers) (rdError : Bool)

def Jconf.Returns (verdict : Bool) : Prop :=
  ∃ result, d.parseConfig parse filename answers rdError = .ok result ∧ result.returned = verdict

structure JudgesRightly : Prop where
  valid : ValidFile parse answers → d.Returns parse filename answers rdError true
  missing : (∀ file, ¬ answers.Delivers file) → d.Returns parse filename answers rdError false

theorem returned_of_validFile (valid : ValidFile parse answers) {result : ParsedConfig}
    (ran : d.parseConfig parse filename answers rdError = .ok result) :
    result.returned = true ↔ rdError = false := by
  obtain ⟨file, jsonDoc, delivered, parsed, config⟩ := valid
  obtain ⟨other, also, returned, _⟩ := parseConfig_returns filename answers rdError parse d
  rw [ran] at also
  injection also with same
  rw [same, returned]
  exact and_iff_left ⟨file, jsonDoc, delivered, parsed, accepted_of_validConfig config d⟩

end Flag

/-- The verdict over a valid file is right only if the local variable, which read_file sets
where it fails and nowhere else, happened to be false. -/
theorem Jconf.judges_rightly_iff (parse : List UInt8 → Except ParseFailure Value) (d : Jconf)
    (filename : List UInt8) (answers : FileAnswers) (rdError : Bool) :
    JudgesRightly parse d filename answers rdError ↔
      (rdError = false ∨ ¬ ValidFile parse answers) := by
  obtain ⟨result, ran, returned, _⟩ := parseConfig_returns filename answers rdError parse d
  constructor
  · intro judges
    by_cases valid : ValidFile parse answers
    · obtain ⟨taken, also, verdict⟩ := judges.valid valid
      exact .inl ((returned_of_validFile parse d filename answers rdError valid also).mp verdict)
    · exact .inr valid
  · intro holds
    constructor
    · intro valid
      have unset := holds.resolve_right (not_not_intro valid)
      have verdict := (returned_of_validFile parse d filename answers rdError valid ran).mpr unset
      exact ⟨result, ran, verdict⟩
    · intro missing
      refine ⟨result, ran, Bool.eq_false_of_not_eq_true ?_⟩
      intro taken
      obtain ⟨_, file, _, delivered, _⟩ := returned.mp taken
      exact missing file delivered

/-- The default file is refused when the variable starts out true. -/
theorem Jconf.default_refused :
    ¬ ∀ parse d filename answers rdError, JudgesRightly parse d filename answers rdError := by
  intro judges
  let answers : FileAnswers :=
    ⟨some defaultConfigFile.length, true, none, true, some defaultConfigFile⟩
  have valid : ValidFile (fun _ => .ok defaultConfig) answers :=
    ⟨defaultConfigFile, defaultConfig, ⟨rfl, rfl, rfl⟩, rfl, validConfig_default⟩
  have right := judges (fun _ => .ok defaultConfig) ⟨.null, fun _ => none, .invalid⟩
    (ascii "config.json") answers true
  obtain ⟨result, ran, verdict⟩ := right.valid valid
  have refused := (returned_of_validFile _ _ _ _ _ valid ran).mp verdict
  cases refused

end EpicPoold
