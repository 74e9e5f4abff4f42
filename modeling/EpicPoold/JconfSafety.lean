import EpicPoold.Jconf
import EpicPoold.JsonAccess
import EpicPoold.NodeTimeout

/-! What parse_config checks, and that the getters may read what passed. -/

namespace EpicPoold

open Foundations

def ConfigEnum.row (name : ConfigEnum) : ConfigVal := oConfigValues.get name.index

structure RowAccepts (row : ConfigVal) (val : Value) : Prop where
  type : checkType val.getType row.iType = true
  unsigned : row.flagConstraints &&& flagUnsigned ≠ 0 → checkConstraintUnsigned val = true
  u16bit : row.flagConstraints &&& flagU16bit ≠ 0 → checkConstraintU16bit val = .ok true

def RowHolds (jsonDoc : Value) (row : ConfigVal) : Prop :=
  ∃ val, getObjectMember jsonDoc row.sName = .ok (some val) ∧ RowAccepts row val

section Rows

theorem oConfigValues_ordered :
    ∀ i : Fin iConfigCnt, (oConfigValues.get i).iName.ctorIdx = i.val := by decide

theorem checkConstraintU16bit_returns (val : Value) :
    ∃ fits, checkConstraintU16bit val = .ok fits := by
  rw [checkConstraintU16bit]
  split
  · rename_i uint
    obtain ⟨n, read⟩ := getInteger_of_fits number_of_isUint uint
    rw [Value.getUint, read]
    exact ⟨_, rfl⟩
  · exact ⟨false, rfl⟩

theorem checkMember_returns (row : ConfigVal) (val : Value) :
    ∃ text, Jconf.checkMember row val = .ok text ∧ (text = none ↔ RowAccepts row val) := by
  obtain ⟨fits, u16bit⟩ := checkConstraintU16bit_returns val
  rw [Jconf.checkMember]
  split
  · rename_i wrong
    refine ⟨_, rfl, iff_of_false (Option.some_ne_none _) ?_⟩
    intro accepts
    rw [accepts.type] at wrong
    cases wrong
  · rename_i type
    have type : checkType val.getType row.iType = true := by simpa using type
    split
    · rename_i signed
      refine ⟨_, rfl, iff_of_false (Option.some_ne_none _) ?_⟩
      intro accepts
      rw [accepts.unsigned signed.1] at signed
      cases signed.2
    · rename_i signed
      have unsigned : row.flagConstraints &&& flagUnsigned ≠ 0 →
          checkConstraintUnsigned val = true := by
        intro flagged
        simpa [flagged] using signed
      by_cases flagged : row.flagConstraints &&& flagU16bit ≠ 0
      · rw [if_pos flagged, u16bit]
        cases fits with
        | false =>
            refine ⟨_, rfl, iff_of_false (Option.some_ne_none _) ?_⟩
            intro accepts
            have same := (accepts.u16bit flagged).symm.trans u16bit
            cases same
        | true => exact ⟨none, rfl, iff_of_true rfl ⟨type, unsigned, fun _ => u16bit⟩⟩
      · rw [if_neg flagged]
        exact ⟨none, rfl, iff_of_true rfl ⟨type, unsigned, fun flag => absurd flag flagged⟩⟩

end Rows

section Loop

variable {jsonDoc : Value} (object : jsonDoc.isObject = true)

include object

theorem configTurn_returns (i : Fin iConfigCnt) (values : ConfigValues) :
    ∃ text found, getObjectMember jsonDoc (oConfigValues.get i).sName = .ok found ∧
      Jconf.configTurn jsonDoc i values = .ok (text, Function.update values i found) ∧
      (text = none ↔ ∃ val, found = some val ∧ RowAccepts (oConfigValues.get i) val) := by
  obtain ⟨found, member⟩ := findMember_object object (oConfigValues.get i).sName
  have ordered := oConfigValues_ordered i
  rw [Jconf.configTurn, if_neg (not_not_intro ordered), getObjectMember, member]
  cases found with
  | none =>
      refine ⟨_, none, rfl, rfl, iff_of_false (Option.some_ne_none _) ?_⟩
      rintro ⟨val, same, _⟩
      cases same
  | some val =>
      obtain ⟨text, checked, passed⟩ := checkMember_returns (oConfigValues.get i) val
      refine ⟨text, some val, rfl, ?_, ?_⟩
      · change (Jconf.checkMember (oConfigValues.get i) val >>= _) = _
        rw [checked]
        rfl
      · rw [passed]
        constructor
        · intro accepts
          exact ⟨val, rfl, accepts⟩
        · rintro ⟨other, same, accepts⟩
          cases same
          exact accepts

theorem configLoop_returns (rows : List (Fin iConfigCnt)) :
    ∀ values, ∃ text after, Jconf.configLoop jsonDoc rows values = .ok (text, after) ∧
      (text = none ↔ ∀ i ∈ rows, RowHolds jsonDoc (oConfigValues.get i)) ∧
      (text = none → (∀ i ∈ rows, ∃ val, after i = some val ∧
          getObjectMember jsonDoc (oConfigValues.get i).sName = .ok (some val) ∧
          RowAccepts (oConfigValues.get i) val) ∧
        ∀ i, i ∉ rows → after i = values i) := by
  induction rows with
  | nil =>
      intro values
      exact ⟨none, values, rfl, by simp, by simp⟩
  | cons i rest ih =>
      intro values
      obtain ⟨text, found, member, turned, passed⟩ := configTurn_returns object i values
      rw [Jconf.configLoop, turned]
      cases text with
      | some text =>
          refine ⟨some text, _, rfl, iff_of_false (Option.some_ne_none _) ?_, ?_⟩
          · intro all
            obtain ⟨val, same, accepts⟩ := all i List.mem_cons_self
            rw [member] at same
            injection same with same
            exact absurd (passed.mpr ⟨val, same, accepts⟩) (Option.some_ne_none _)
          · intro none
            cases none
      | none =>
          obtain ⟨val, same, accepts⟩ := passed.mp rfl
          subst same
          obtain ⟨text, after, looped, whole, set⟩ := ih (Function.update values i (some val))
          refine ⟨text, after, looped, ?_, ?_⟩
          · rw [whole, List.forall_mem_cons]
            exact (and_iff_right ⟨val, member, accepts⟩).symm
          · intro none
            obtain ⟨entries, frame⟩ := set none
            constructor
            · intro j among
              by_cases later : j ∈ rest
              · exact entries j later
              · have same : j = i := (List.mem_cons.mp among).resolve_right later
                subst same
                refine ⟨val, ?_, member, accepts⟩
                rw [frame j later, Function.update_self]
            · intro j outside
              have ne := List.ne_of_not_mem_cons outside
              rw [frame j (List.not_mem_of_not_mem_cons outside), Function.update_of_ne ne]

end Loop

/-- The entry of every member is set, to the value of the document that passed its tests. -/
def Jconf.Validated (d : Jconf) (jsonDoc : Value) : Prop :=
  ∀ name : ConfigEnum, ∃ val, d.configValues name.index = some val ∧
    getObjectMember jsonDoc name.row.sName = .ok (some val) ∧ RowAccepts name.row val

section LogLevels

def logLevels : List (List UInt8) :=
  [ascii "error", ascii "warn", ascii "info", ascii "debug_hi", ascii "debug_lo"]

theorem string_of_checkType {val : Value} (type : checkType val.getType .kStringType = true) :
    ∃ text, val = .string text := by
  rcases val with _ | (_ | _) | _ | text | _ | _
  all_goals try cases type
  exact ⟨text, rfl⟩

variable {d : Jconf} {jsonDoc : Value}

theorem getStringOf_validated (valid : d.Validated jsonDoc) (name : ConfigEnum)
    (string : name.row.iType = .kStringType) :
    ∃ text, getObjectMember jsonDoc name.row.sName = .ok (some (.string text)) ∧
      d.getStringOf name = .ok text := by
  obtain ⟨val, set, member, accepts⟩ := valid name
  have type := accepts.type
  rw [string] at type
  obtain ⟨text, same⟩ := string_of_checkType type
  subst same
  refine ⟨text, member, ?_⟩
  rw [Jconf.getStringOf, Jconf.entry, set]
  rfl

/-- get_log_level keeps the entries; its level is invalid only if none was known before and
the configured name is none of the five. -/
theorem getLogLevel_returns (valid : d.Validated jsonDoc) :
    ∃ text level, getObjectMember jsonDoc "log_level" = .ok (some (.string text)) ∧
      d.getLogLevel = .ok (level, { d with val := level }) ∧
      (level = .invalid ↔ d.val = .invalid ∧ cstr text ∉ logLevels) := by
  obtain ⟨text, member, read⟩ := getStringOf_validated valid .sLogLevel rfl
  rw [Jconf.getLogLevel]
  split
  · rename_i known
    exact ⟨text, d.val, member, rfl, iff_of_false known (fun unknown => known unknown.1)⟩
  · rename_i unknown
    rw [read]
    refine ⟨text, _, member, rfl, ?_⟩
    rw [and_iff_right (not_not.mp unknown)]
    simp only [logLevels, List.mem_cons, List.not_mem_nil, or_false]
    split_ifs with error warn info debugHi debugLo
    · simp [error]
    · simp [warn]
    · simp [info]
    · simp [debugHi]
    · simp [debugLo]
    · simp [error, warn, info, debugHi, debugLo]

end LogLevels

section Parsing

variable (parse : List UInt8 → Except ParseFailure Value) (d : Jconf)

/-- A document that parse_config takes. -/
structure ConfigTaken (jsonDoc : Value) : Prop where
  object : jsonDoc.isObject = true
  rows : ∀ row ∈ oConfigValues, RowHolds jsonDoc row
  level : d.val = .invalid → ∀ text,
    getObjectMember jsonDoc "log_level" = .ok (some (.string text)) → cstr text ∈ logLevels

theorem rows_iff (jsonDoc : Value) :
    (∀ row ∈ oConfigValues, RowHolds jsonDoc row) ↔
      ∀ i ∈ List.finRange iConfigCnt, RowHolds jsonDoc (oConfigValues.get i) := by
  constructor
  · intro rows i _
    exact rows _ (List.get_mem _ i)
  · intro rows row among
    obtain ⟨i, same⟩ := List.get_of_mem among
    exact same ▸ rows i (List.mem_finRange i)

/-- Once a file was read, parse_config trips no assertion, returns true exactly for the
documents it takes, and has then set all entries. -/
theorem parseText_returns (file : List UInt8) :
    ∃ text after, d.parseText parse file = .ok (text, after) ∧
      (text = none ↔ ∃ jsonDoc, parse file = .ok jsonDoc ∧ ConfigTaken d jsonDoc) ∧
      (text = none → ∃ jsonDoc, parse file = .ok jsonDoc ∧ after.Validated jsonDoc) := by
  rw [Jconf.parseText]
  cases parsed : parse file with
  | error failure =>
      refine ⟨_, d, rfl, iff_of_false (Option.some_ne_none _) ?_, ?_⟩
      · rintro ⟨jsonDoc, same, _⟩
        cases same
      · intro none
        cases none
  | ok jsonDoc =>
      simp only
      by_cases object : jsonDoc.isObject = true
      · obtain ⟨text, values, looped, whole, entries⟩ :=
          configLoop_returns object (List.finRange iConfigCnt) d.configValues
        rw [object, looped]
        cases text with
        | some text =>
            refine ⟨some text, _, rfl, iff_of_false (Option.some_ne_none _) ?_, ?_⟩
            · rintro ⟨other, same, accepted⟩
              cases same
              exact absurd (whole.mpr ((rows_iff jsonDoc).mp accepted.rows)) (Option.some_ne_none _)
            · intro none
              cases none
        | none =>
            have valid : Jconf.Validated ⟨jsonDoc, values, d.val⟩ jsonDoc := by
              intro name
              exact (entries rfl).1 name.index (List.mem_finRange _)
            obtain ⟨text, level, member, leveled, unknown⟩ := getLogLevel_returns valid
            have rows := (rows_iff jsonDoc).mpr (whole.mp rfl)
            change ∃ text after, ((Jconf.getLogLevel ⟨jsonDoc, values, d.val⟩ >>= _) = _) ∧ _
            rw [leveled]
            by_cases invalid : level = .invalid
            · refine ⟨_, ⟨jsonDoc, values, level⟩, if_pos invalid,
                iff_of_false (Option.some_ne_none _) ?_, ?_⟩
              · rintro ⟨other, same, accepted⟩
                cases same
                have unknown := unknown.mp invalid
                exact unknown.2 (accepted.level unknown.1 text member)
              · intro none
                cases none
            · refine ⟨none, ⟨jsonDoc, values, level⟩, if_neg invalid, ?_, ?_⟩
              · refine iff_of_true rfl ⟨jsonDoc, rfl, object, rows, ?_⟩
                intro fresh other same
                rw [member] at same
                cases same
                by_contra missing
                exact invalid (unknown.mpr ⟨fresh, missing⟩)
              · intro _
                exact ⟨jsonDoc, rfl, valid⟩
      · have other : jsonDoc.isObject = false := Bool.not_eq_true _ ▸ object
        rw [other]
        refine ⟨_, _, rfl, iff_of_false (Option.some_ne_none _) ?_, ?_⟩
        · rintro ⟨same, parsed, accepted⟩
          cases parsed
          exact object accepted.object
        · intro none
          cases none

end Parsing

section Files

variable (filename : List UInt8) (answers : FileAnswers) (rdError : Bool)

def FileAnswers.Delivers (file : List UInt8) : Prop :=
  answers.stat = some file.length ∧ answers.openForReading = true ∧ answers.read = some file

/-- read_file delivers the text of a file and leaves the flag alone, or sets the flag. -/
theorem readFile_cases :
    (∃ file, answers.Delivers file ∧ readFile filename answers rdError = ⟨file, rdError, []⟩) ∨
      (∀ file, ¬ answers.Delivers file) ∧ (readFile filename answers rdError).error = true := by
  rw [readFile]
  cases size : answers.stat with
  | none =>
      refine .inr ⟨?_, ?_⟩
      · rintro file ⟨there, _⟩
        rw [size] at there
        cases there
      · simp only
        split_ifs
        all_goals rfl
  | some length =>
      simp only
      split
      · rename_i closed
        refine .inr ⟨?_, rfl⟩
        rintro file ⟨_, opened, _⟩
        rw [opened] at closed
        cases closed
      · rename_i opened
        split
        · rename_i short
          refine .inr ⟨?_, rfl⟩
          rintro file ⟨there, _, read⟩
          rw [read] at short
          exact short (there.symm.trans size)
        · rename_i whole
          obtain ⟨file, read, same⟩ := Option.map_eq_some_iff.mp (not_not.mp whole)
          refine .inl ⟨file, ⟨?_, by simpa using opened, read⟩, ?_⟩
          · rw [size, same]
          · rw [read]
            rfl

variable (parse : List UInt8 → Except ParseFailure Value) (d : Jconf)

/-- parse_config trips no assertion; it returns true exactly if the flag was not set, before
or by read_file, and the file holds a document that is taken. -/
theorem parseConfig_returns :
    ∃ result, d.parseConfig parse filename answers rdError = .ok result ∧
      (result.returned = true ↔ rdError = false ∧ ∃ file jsonDoc, answers.Delivers file ∧
        parse file = .ok jsonDoc ∧ ConfigTaken d jsonDoc) ∧
      (result.returned = true → ∃ file jsonDoc, answers.Delivers file ∧
        parse file = .ok jsonDoc ∧ result.after.Validated jsonDoc) := by
  rw [Jconf.parseConfig]
  obtain ⟨file, delivered, read⟩ | ⟨missing, failed⟩ := readFile_cases filename answers rdError
  · rw [read]
    cases rdError with
    | true => exact ⟨_, rfl, by simp, by simp⟩
    | false =>
        obtain ⟨text, after, parsed, taken, valid⟩ := parseText_returns parse d file
        have same : ∀ other, answers.Delivers other → other = file := by
          intro other also
          exact Option.some.inj (also.2.2.symm.trans delivered.2.2)
        simp only [Bool.false_eq_true, if_false, parsed]
        refine ⟨_, rfl, ?_, ?_⟩
        · simp only [Option.isNone_iff_eq_none, taken, true_and]
          constructor
          · rintro ⟨jsonDoc, parsed, accepted⟩
            exact ⟨file, jsonDoc, delivered, parsed, accepted⟩
          · rintro ⟨other, jsonDoc, also, parsed, accepted⟩
            exact ⟨jsonDoc, same other also ▸ parsed, accepted⟩
        · intro returned
          obtain ⟨jsonDoc, parsed, valid⟩ := valid (Option.isNone_iff_eq_none.mp returned)
          exact ⟨file, jsonDoc, delivered, parsed, valid⟩
  · simp only [failed, if_true]
    refine ⟨_, rfl, ?_, ?_⟩
    · refine iff_of_false Bool.false_ne_true ?_
      rintro ⟨_, file, _, delivered, _⟩
      exact missing file delivered
    · intro returned
      cases returned

end Files

namespace Jconf

def stringGetters : List (Jconf → Json (List UInt8)) :=
  [getPidFile, getLogFile, getDbHostname, getDbPort, getDbName, getDbUsername, getDbPassword,
    getNodeHostname, getNodePort, getNodeUsername, getNodePassword, getTlsCertFilename,
    getTlsCipherList]

def stringMembers : List ConfigEnum :=
  [.sPidFile, .sLogFile, .sDbHostname, .sDbPort, .sDbName, .sDbUsername, .sDbPassword,
    .sNodeHostname, .sNodePort, .sNodeUsername, .sNodePassword, .sTlsCert, .sTlsCipers]

theorem stringGetters_eq :
    stringGetters = stringMembers.map (fun name d => d.getStringOf name) := rfl

theorem stringMembers_type : ∀ name ∈ stringMembers, name.row.iType = .kStringType := by decide

/-- Every entry is set, and every getter finds a value of the type its accessor is for. -/
structure Readable (d : Jconf) : Prop where
  entries : ∀ i, (d.configValues i).isSome = true
  strings : ∀ getter ∈ stringGetters, ∃ text, getter d = .ok text
  logLevel : ∃ text level after, d.getStringOf .sLogLevel = .ok text ∧
    d.getLogLevel = .ok (level, after)
  daemonize : ∃ flag, d.daemonize = .ok flag
  serverPort : ∃ port : UInt32, d.getUintOf .iPlainPort = .ok port ∧
    d.getServerPort = .ok port.toUInt16 ∧ port.toUInt16.toNat = port.toNat
  serverTlsPort : ∃ port : UInt32, d.getUintOf .iTlsPort = .ok port ∧
    d.getServerTlsPort = .ok port.toUInt16 ∧ port.toUInt16.toNat = port.toNat
  timeouts : ∃ timeouts : NodeTimeouts,
    d.getTemplateTimeout = .ok timeouts.template.toUInt64 ∧
    d.getFatalNodeTimeout = .ok timeouts.fatal.toUInt64 ∧
    timeouts.templateMs.toNat = 1000 * timeouts.template.toNat ∧
    timeouts.fatalMs.toNat = 1000 * timeouts.fatal.toNat

variable {d : Jconf}

theorem getUintOf_of_isUint {name : ConfigEnum} {val : Value}
    (set : d.configValues name.index = some val) (uint : val.isUint = true) :
    ∃ n, val.getUint = .ok n ∧ d.getUintOf name = .ok n := by
  obtain ⟨n, read⟩ := getInteger_of_fits number_of_isUint uint
  have got : val.getUint = .ok (UInt32.ofNat n.toNat) := by
    rw [Value.getUint, read]
    rfl
  refine ⟨_, got, ?_⟩
  rw [getUintOf, entry, set]
  exact got

variable {jsonDoc : Value} (valid : d.Validated jsonDoc)

include valid

theorem entries_validated (i : Fin iConfigCnt) : (d.configValues i).isSome = true := by
  have place : (oConfigValues.get i).iName.index = i := Fin.ext (oConfigValues_ordered i)
  obtain ⟨val, set, _⟩ := valid (oConfigValues.get i).iName
  rw [place] at set
  exact Option.isSome_of_mem set

theorem strings_validated (getter : Jconf → Json (List UInt8)) (among : getter ∈ stringGetters) :
    ∃ text, getter d = .ok text := by
  rw [stringGetters_eq] at among
  obtain ⟨name, member, same⟩ := List.mem_map.mp among
  obtain ⟨text, _, read⟩ := getStringOf_validated valid name (stringMembers_type name member)
  exact ⟨text, same ▸ read⟩

theorem daemonize_validated : ∃ flag, d.daemonize = .ok flag := by
  obtain ⟨val, set, _, accepts⟩ := valid .bDaemonize
  have type : checkType val.getType .kTrueType = true := accepts.type
  rw [Jconf.daemonize, entry, set]
  rcases val with _ | flag | _ | _ | _ | _
  all_goals try cases type
  exact ⟨flag, rfl⟩

theorem unsigned_validated (name : ConfigEnum)
    (flagged : name.row.flagConstraints &&& flagUnsigned ≠ 0) :
    ∃ n, d.getUintOf name = .ok n := by
  obtain ⟨val, set, _, accepts⟩ := valid name
  obtain ⟨n, _, read⟩ := getUintOf_of_isUint set (accepts.unsigned flagged)
  exact ⟨n, read⟩

theorem u16bit_validated (name : ConfigEnum)
    (flagged : name.row.flagConstraints &&& flagU16bit ≠ 0) :
    ∃ n, d.getUintOf name = .ok n ∧ n.toUInt16.toNat = n.toNat := by
  obtain ⟨val, set, _, accepts⟩ := valid name
  have tested := accepts.u16bit flagged
  rw [checkConstraintU16bit] at tested
  split at tested
  · rename_i uint
    obtain ⟨n, got, read⟩ := getUintOf_of_isUint set uint
    rw [got] at tested
    injection tested with small
    have bound : n.toNat ≤ 0xffff := UInt32.le_iff_toNat_le.mp (of_decide_eq_true small)
    refine ⟨n, read, ?_⟩
    rw [UInt32.toNat_toUInt16]
    omega
  · cases tested

theorem readable_of_validated : d.Readable := by
  obtain ⟨plain, plainRead, plainFits⟩ := u16bit_validated valid .iPlainPort (by decide)
  obtain ⟨tls, tlsRead, tlsFits⟩ := u16bit_validated valid .iTlsPort (by decide)
  obtain ⟨template, templateRead⟩ := unsigned_validated valid .iTemplateTimeout (by decide)
  obtain ⟨fatal, fatalRead⟩ := unsigned_validated valid .iFatalNodeTimeout (by decide)
  obtain ⟨text, _, levelRead⟩ := getStringOf_validated valid .sLogLevel rfl
  obtain ⟨_, level, _, leveled, _⟩ := getLogLevel_returns valid
  refine ⟨entries_validated valid, strings_validated valid, ⟨text, level, _, levelRead, leveled⟩,
    daemonize_validated valid, ⟨plain, plainRead, ?_, plainFits⟩, ⟨tls, tlsRead, ?_, tlsFits⟩,
    ⟨⟨template, fatal⟩, ?_, ?_, ReceiveRun.templateMs_toNat, ReceiveRun.fatalMs_toNat⟩⟩
  · rw [getServerPort, plainRead]
    rfl
  · rw [getServerTlsPort, tlsRead]
    rfl
  · rw [getTemplateTimeout, templateRead]
    rfl
  · rw [getFatalNodeTimeout, fatalRead]
    rfl

end Jconf

/-- Whatever the file holds, after parse_config returned true every getter may be used. -/
theorem Jconf.validated_readable (parse : List UInt8 → Except ParseFailure Value) (d : Jconf)
    (filename : List UInt8) (answers : FileAnswers) (rdError : Bool) :
    ∃ result, d.parseConfig parse filename answers rdError = .ok result ∧
      (result.returned = true → result.after.Readable) := by
  obtain ⟨result, ran, _, valid⟩ := parseConfig_returns filename answers rdError parse d
  refine ⟨result, ran, ?_⟩
  intro returned
  obtain ⟨_, _, _, _, valid⟩ := valid returned
  exact readable_of_validated valid

end EpicPoold
