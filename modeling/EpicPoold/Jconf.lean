import EpicPoold.NodeReceive

/-! jconf: reading the configuration file, the table its members are checked by, and the
getters. The JSON parser, which allows comments and trailing commas, is a parameter. -/

namespace EpicPoold

inductive LogLevel where
  | error
  | warn
  | info
  | debugHi
  | debugLo
  | invalid
  deriving DecidableEq

inductive ConfigEnum where
  | sPidFile
  | sLogFile
  | sLogLevel
  | sDbHostname
  | sDbPort
  | sDbName
  | sDbUsername
  | sDbPassword
  | sNodeHostname
  | sNodePort
  | sNodeUsername
  | sNodePassword
  | bDaemonize
  | iPlainPort
  | iTlsPort
  | sTlsCert
  | sTlsCipers
  | iTemplateTimeout
  | iFatalNodeTimeout
  deriving DecidableEq

inductive JsonType where
  | kNullType
  | kFalseType
  | kTrueType
  | kObjectType
  | kArrayType
  | kStringType
  | kNumberType
  deriving DecidableEq

def Value.getType : Value → JsonType
  | .null => .kNullType
  | .bool false => .kFalseType
  | .bool true => .kTrueType
  | .object _ => .kObjectType
  | .array _ => .kArrayType
  | .string _ => .kStringType
  | .number _ => .kNumberType

def Value.getBool : Value → Json Bool
  | .bool b => .ok b
  | _ => .error .assertion

structure ConfigVal where
  iName : ConfigEnum
  sName : String
  iType : JsonType
  flagConstraints : Nat

def flagNone : Nat := 0

def flagUnsigned : Nat := 1 <<< 0

def flagU16bit : Nat := 1 <<< 1

def checkConstraintUnsigned (val : Value) : Bool := val.isUint

def checkConstraintU16bit (val : Value) : Json Bool :=
  if val.isUint then do
    let n ← val.getUint
    pure (n ≤ 0xffff)
  else pure false

def oConfigValues : List ConfigVal :=
  [⟨.sPidFile, "pid_file", .kStringType, flagNone⟩,
    ⟨.sLogFile, "log_file", .kStringType, flagNone⟩,
    ⟨.sLogLevel, "log_level", .kStringType, flagNone⟩,
    ⟨.sDbHostname, "db_hostname", .kStringType, flagNone⟩,
    ⟨.sDbPort, "db_port", .kStringType, flagNone⟩,
    ⟨.sDbName, "db_name", .kStringType, flagNone⟩,
    ⟨.sDbUsername, "db_username", .kStringType, flagNone⟩,
    ⟨.sDbPassword, "db_password", .kStringType, flagNone⟩,
    ⟨.sNodeHostname, "node_hostname", .kStringType, flagNone⟩,
    ⟨.sNodePort, "node_port", .kStringType, flagNone⟩,
    ⟨.sNodeUsername, "node_username", .kStringType, flagNone⟩,
    ⟨.sNodePassword, "node_password", .kStringType, flagNone⟩,
    ⟨.bDaemonize, "daemonize", .kTrueType, flagNone⟩,
    ⟨.iPlainPort, "plain_port", .kNumberType, flagU16bit⟩,
    ⟨.iTlsPort, "tls_port", .kNumberType, flagU16bit⟩,
    ⟨.sTlsCert, "tls_certificate", .kStringType, flagNone⟩,
    ⟨.sTlsCipers, "tls_ciper_list", .kStringType, flagNone⟩,
    ⟨.iTemplateTimeout, "template_timeout", .kNumberType, flagUnsigned⟩,
    ⟨.iFatalNodeTimeout, "fatal_node_timeout", .kNumberType, flagUnsigned⟩]

def iConfigCnt : Nat := oConfigValues.length

def checkType (have_ want : JsonType) : Bool :=
  if want = have_ then true
  else if want = .kNullType then true
  else if want = .kTrueType ∧ have_ = .kFalseType then true
  else if want = .kFalseType ∧ have_ = .kTrueType then true
  else false

/-- The array of pointers into the document, null or not yet written where there is none. -/
abbrev ConfigValues := Fin iConfigCnt → Option Value

theorem ConfigEnum.ctorIdx_lt (name : ConfigEnum) : name.ctorIdx < iConfigCnt := by
  cases name <;> decide

def ConfigEnum.index (name : ConfigEnum) : Fin iConfigCnt := ⟨name.ctorIdx, name.ctorIdx_lt⟩

/-- The private part, with the static variable of get_log_level. -/
structure Jconf where
  jsonDoc : Value
  configValues : ConfigValues
  val : LogLevel

namespace Jconf

variable (d : Jconf)

/-- `d.configValues[name]->`: a null pointer must not be followed. -/
def entry (name : ConfigEnum) : Json Value :=
  match d.configValues name.index with
  | some v => .ok v
  | none => .error .assertion

def getStringOf (name : ConfigEnum) : Json (List UInt8) := do
  let v ← d.entry name
  v.getString

def getUintOf (name : ConfigEnum) : Json UInt32 := do
  let v ← d.entry name
  v.getUint

def getPidFile : Json (List UInt8) := d.getStringOf .sPidFile

def getLogFile : Json (List UInt8) := d.getStringOf .sLogFile

def getLogLevel : Json (LogLevel × Jconf) :=
  if d.val ≠ .invalid then pure (d.val, d)
  else do
    let valstr ← d.getStringOf .sLogLevel
    let val :=
      if cstr valstr = ascii "error" then .error
      else if cstr valstr = ascii "warn" then .warn
      else if cstr valstr = ascii "info" then .info
      else if cstr valstr = ascii "debug_hi" then .debugHi
      else if cstr valstr = ascii "debug_lo" then .debugLo
      else LogLevel.invalid
    pure (val, { d with val := val })

def getDbHostname : Json (List UInt8) := d.getStringOf .sDbHostname

def getDbPort : Json (List UInt8) := d.getStringOf .sDbPort

def getDbName : Json (List UInt8) := d.getStringOf .sDbName

def getDbUsername : Json (List UInt8) := d.getStringOf .sDbUsername

def getDbPassword : Json (List UInt8) := d.getStringOf .sDbPassword

def getNodeHostname : Json (List UInt8) := d.getStringOf .sNodeHostname

def getNodePort : Json (List UInt8) := d.getStringOf .sNodePort

def getNodeUsername : Json (List UInt8) := d.getStringOf .sNodeUsername

def getNodePassword : Json (List UInt8) := d.getStringOf .sNodePassword

def daemonize : Json Bool := do
  let v ← d.entry .bDaemonize
  v.getBool

def getServerPort : Json UInt16 := (d.getUintOf .iPlainPort).map UInt32.toUInt16

def getServerTlsPort : Json UInt16 := (d.getUintOf .iTlsPort).map UInt32.toUInt16

def getTlsCertFilename : Json (List UInt8) := d.getStringOf .sTlsCert

def getTlsCipherList : Json (List UInt8) := d.getStringOf .sTlsCipers

def getTemplateTimeout : Json UInt64 := (d.getUintOf .iTemplateTimeout).map UInt32.toUInt64

def getFatalNodeTimeout : Json UInt64 := (d.getUintOf .iFatalNodeTimeout).map UInt32.toUInt64

end Jconf

def defaultConfigFile : List UInt8 :=
  ascii "\x7b\n\t\"pid_file\": \"\",\n\t\"log_file\" : \"\",\n" ++
  ascii "\t\"log_level\" : \"debug_lo\",\n\n\t\"db_hostname\" : \"\",\n" ++
  ascii "\t\"db_port\" : \"\",\n\t\"db_name\" : \"\",\n\t\"db_username\" : \"\",\n" ++
  ascii "\t\"db_password\" : \"\",\n\n\t\"node_hostname\" : \"127.0.0.1\",\n" ++
  ascii "\t\"node_port\" : \"3416\",\n\t\"node_username\" : \"\",\n" ++
  ascii "\t\"node_password\" : \"\",\n\n\t\"daemonize\" : false,\n\n" ++
  ascii "\t\"plain_port\" : 3333,\n\t\"tls_port\" : 4444,\n" ++
  ascii "\t\"tls_certificate\" : \"crt.pem\",\n\t\"tls_ciper_list\" : \"HIGH\",\n\n" ++
  ascii "\t\"fatal_node_timeout\" : 300,\n\t\"template_timeout\" : 60\n\x7d"

/-- What the calls of read_file answer: the size of the file, whether it could be opened,
how many bytes were written and which bytes were read. -/
structure FileAnswers where
  stat : Option Nat
  openForWriting : Bool
  write : Option Nat
  openForReading : Bool
  read : Option (List UInt8)

/-- The text of read_file, its error flag and what it printed. -/
structure FileRead where
  conf : List UInt8
  error : Bool
  stderr : List UInt8

/-- `read_file`, which sets the flag of its caller where it fails. -/
def readFile (filename : List UInt8) (answers : FileAnswers) (error : Bool) : FileRead :=
  match answers.stat with
  | none =>
      let notFound := ascii "Config file " ++ filename ++
        ascii " not found. Will create it and exit. Adjust the settings and run again.\n"
      if !answers.openForWriting then
        ⟨[], true, notFound ++ ascii "Panic! Could not open config file for writing!\n"⟩
      else if answers.write ≠ some defaultConfigFile.length then
        ⟨[], true, notFound ++ ascii "Panic! Writing to config file failed!\n"⟩
      else ⟨[], true, notFound⟩
  | some size =>
      if !answers.openForReading then
        ⟨[], true, ascii "Panic! Could not open config file for reading!\n"⟩
      else if answers.read.map List.length ≠ some size then
        ⟨[], true, ascii "Panic! Reading config file failed!\n"⟩
      else ⟨answers.read.getD [], error, []⟩

structure ParseFailure where
  offset : Nat
  message : List UInt8

namespace Jconf

def configError (start : String) (row : ConfigVal) (rest : String) : List UInt8 :=
  ascii start ++ ascii row.sName ++ ascii rest

def checkMember (row : ConfigVal) (val : Value) : Json (Option (List UInt8)) :=
  if !checkType val.getType row.iType then
    pure (configError "Invalid config file. Value \"" row "\" has unexpected type.\n")
  else if row.flagConstraints &&& flagUnsigned ≠ 0 ∧ !checkConstraintUnsigned val then
    pure (configError "Invalid config file. Value \"" row "\" needs to be unsigned.\n")
  else do
    let fits ← if row.flagConstraints &&& flagU16bit ≠ 0 then checkConstraintU16bit val
      else pure true
    if fits then pure none
    else pure (configError "Invalid config file. Value \"" row "\" needs to be lower than 65535.\n")

def checkFound (row : ConfigVal) (found : Option Value) : Json (Option (List UInt8)) :=
  match found with
  | none => pure (some (configError "Invalid config file. Missing value \"" row "\".\n"))
  | some val => checkMember row val

def configTurn (jsonDoc : Value) (i : Fin iConfigCnt) (values : ConfigValues) :
    Json (Option (List UInt8) × ConfigValues) :=
  let row := oConfigValues.get i
  if row.iName.ctorIdx ≠ i.val then
    pure (ascii "Code error. oConfigValues are not in order.\n", values)
  else do
    let found ← getObjectMember jsonDoc row.sName
    let text ← checkFound row found
    pure (text, Function.update values i found)

def configLoop (jsonDoc : Value) :
    List (Fin iConfigCnt) → ConfigValues → Json (Option (List UInt8) × ConfigValues)
  | [], values => pure (none, values)
  | i :: rest, values => do
      let turn ← configTurn jsonDoc i values
      match turn.1 with
      | some text => pure (text, turn.2)
      | none => configLoop jsonDoc rest turn.2

variable (parse : List UInt8 → Except ParseFailure Value) (d : Jconf)

/-- The part of parse_config after the file was read, with the text it prints where it
returns false. -/
def parseText (file : List UInt8) : Json (Option (List UInt8) × Jconf) :=
  match parse file with
  | .error failure =>
      pure (some (ascii "JSON config parse error(offset " ++ decimal failure.offset ++
        ascii "): " ++ failure.message ++ ascii "\n"), d)
  | .ok jsonDoc =>
      let d := { d with jsonDoc := jsonDoc }
      if !jsonDoc.isObject then pure (ascii "JSON root is not an object.\n", d)
      else do
        let checked ← configLoop jsonDoc (List.finRange iConfigCnt) d.configValues
        let d := { d with configValues := checked.2 }
        match checked.1 with
        | some text => pure (text, d)
        | none => do
            let level ← d.getLogLevel
            if level.1 = .invalid then
              pure (some (ascii "Invalid log_level, allowed values are \"error\", \"warn\", " ++
                ascii "\"info\", \"debug_hi\", \"debug_lo\"\n"), level.2)
            else pure (none, level.2)

end Jconf

/-- The result of parse_config, what it printed and the state it left. -/
structure ParsedConfig where
  returned : Bool
  stderr : List UInt8
  after : Jconf

/-- `parse_config`; `rdError` is what its local variable holds before read_file is called. -/
def Jconf.parseConfig (parse : List UInt8 → Except ParseFailure Value) (d : Jconf)
    (filename : List UInt8) (answers : FileAnswers) (rdError : Bool) : Json ParsedConfig :=
  let file := readFile filename answers rdError
  if file.error then pure ⟨false, file.stderr, d⟩
  else do
    let parsed ← d.parseText parse file.conf
    pure ⟨parsed.1.isNone, file.stderr ++ parsed.1.getD [], parsed.2⟩

end EpicPoold
