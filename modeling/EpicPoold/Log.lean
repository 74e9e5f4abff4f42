import EpicPoold.Itoa
import EpicPoold.Jconf
import EpicPoold.JobBounds

/-! The logger: what its threads write under `log_lock`, to the console or to a file that is
opened anew after a SIGHUP. -/

namespace EpicPoold

open Foundations Foundations.JsonText

def LogLevel.value : LogLevel → UInt32
  | .error => 5
  | .warn => 4
  | .info => 3
  | .debugHi => 2
  | .debugLo => 1
  | .invalid => 0

inductive OutColours where
  | red
  | green
  | blue
  | yellow
  | cyan
  | magenta
  | white
  | none
  deriving DecidableEq

/-- `struct tm` as far as "[%F %T]: " prints it. -/
structure Tm where
  year : Nat
  mon : Nat
  mday : Nat
  hour : Nat
  min : Nat
  sec : Nat

/-- What print_element takes. A text ends before its NUL. -/
inductive LogElement where
  | str (text : List UInt8)
  | char (c : UInt8)
  | sizeT (arg : UInt64)
  | int64 (arg : Int64)
  | uint32 (arg : UInt32)
  | int32 (arg : Int32)
  | v32 (arg : V32)

structure LogCall where
  lvl : LogLevel
  clr : OutColours
  args : List LogElement

/-- An open stream: the console, or a file by the number of the fopen that gave it. -/
inductive Stream where
  | stdout
  | file (k : Nat)
  deriving DecidableEq

/-- `log_file` and `daemonize` of the configuration, and how the machine computes: the
product of two ints that overflows, and what an uninitialised int holds. -/
structure LogSetting where
  logFile : List UInt8
  daemonize : Bool
  overflow : Int → Int → Option UInt32
  garbage : Int

/-- A record that has been begun: the call, where it goes, whether a SIGHUP was reported
before it, and its time. -/
structure Record where
  call : LogCall
  stream : Stream
  noted : Bool
  time : Tm

/-- A thread in log: at the lock, at the level, in check_sighup, or at what it writes next.
`rest` are the elements still to print. A thread that ends the process does so at some point. -/
inductive LogPc where
  | outside
  | lock (call : LogCall)
  | level (call : LogCall)
  | checkSighup (call : LogCall)
  | clearSighup (call : LogCall)
  | close (call : LogCall)
  | fopen (call : LogCall)
  | console (call : LogCall)
  | setColour (call : LogCall) (noted : Bool)
  | timestamp (call : LogCall) (noted : Bool)
  | printAll (r : Record) (rest : List LogElement)
  | newline (r : Record)
  | resetColour (r : Record)
  | unlock (call : LogCall)
  | crashed (here : LogPc)

/-- `written` is what each stream was given. `taken` are the calls that got the lock, `begun`
those past check_sighup with the stream that was open then, `records` the records that are
complete and `returned` the calls that have ended, each in their order. -/
structure Logger (T : Type) where
  hFile : Option Stream
  currentLevel : UInt32
  logLock : Option T
  sighup : Bool
  opened : Nat
  pc : T → LogPc
  written : Stream → List UInt8
  taken : List LogCall
  begun : List (LogCall × Option Stream)
  records : List Record
  returned : List LogCall

structure LogEnv where
  now : Tm
  opens : Bool

inductive LogAction (T : Type) where
  | log (t : T) (call : LogCall)
  | step (t : T) (env : LogEnv)
  | onSighup

section Texts

def colourText : OutColours → List UInt8
  | .red => ascii "\x1b[1;31m"
  | .green => ascii "\x1b[1;32m"
  | .blue => ascii "\x1b[1;34m"
  | .yellow => ascii "\x1b[1;33m"
  | .cyan => ascii "\x1b[1;36m"
  | .magenta => ascii "\x1b[1;35m"
  | .white => ascii "\x1b[1;37m"
  | .none => ascii "\x1b[0m"

def resetText : List UInt8 := ascii "\x1b[0m"

def noteText : List UInt8 := ascii "I caught SIGHUP but the output is going to console!\n"

def twoDigits (n : Nat) : List UInt8 := [digitByte (n / 10 % 10), digitByte (n % 10)]

/-- strftime with "[%F %T]: ". -/
def Tm.text (tm : Tm) : List UInt8 :=
  ascii "[" ++ decimal tm.year ++ ascii "-" ++ twoDigits tm.mon ++ ascii "-" ++
    twoDigits tm.mday ++ ascii " " ++ twoDigits tm.hour ++ ascii ":" ++ twoDigits tm.min ++
    ascii ":" ++ twoDigits tm.sec ++ ascii "]: "

variable (C : LogSetting)

/-- print_element; a trap in itoa ends the process. -/
def printElement : LogElement → Option (List UInt8)
  | .str text => some text
  | .char c => some [c]
  | .sizeT arg => Itoa.itoa64 C.overflow C.garbage arg []
  | .int64 arg => Itoa.itoaInt64 C.overflow C.garbage arg []
  | .uint32 arg => Itoa.itoa32 C.overflow C.garbage arg []
  | .int32 arg => Itoa.itoaInt32 C.overflow C.garbage arg []
  | .v32 arg => some (bin2hex arg.data.bytes)

section Numbers

def LogElement.number : LogElement → Option Int
  | .sizeT arg => some arg.toNat
  | .int64 arg => some arg.toInt
  | .uint32 arg => some arg.toNat
  | .int32 arg => some arg.toInt
  | _ => none

theorem signedText_length {n : Int} (word : n.natAbs < 2 ^ 64) :
    (Itoa.signedText n).length ≤ 21 := by
  have digits : (decimal n.natAbs).length ≤ 20 :=
    decimal_length n.natAbs 20 (by decide) (Nat.lt_of_lt_of_le word (by decide))
  rw [Itoa.signedText]
  split
  · rw [List.length_cons]
    omega
  · omega

theorem signedText_natCast (n : Nat) : Itoa.signedText n = decimal n := by
  rw [Itoa.signedText, if_neg (by omega), Int.natAbs_natCast]

/-- Numbers are printed exactly, into fewer characters than the buffer has, unless itoa
multiplies past the range of int on a machine that traps. -/
theorem numbers_printed (e : LogElement) {value : Int} (number : e.number = some value) :
    (C.overflow = Itoa.wraps ∨ ¬ Itoa.Overflows value.natAbs →
      printElement C e = some (Itoa.signedText value) ∧
        (Itoa.signedText value).length < 32) ∧
    (C.overflow = Itoa.traps → Itoa.Overflows value.natAbs → printElement C e = none) := by
  have short : value.natAbs < 2 ^ 64 → (Itoa.signedText value).length < 32 :=
    fun word => Nat.lt_of_le_of_lt (signedText_length word) (by decide)
  cases e with
  | str | char | v32 => cases number
  | sizeT arg =>
      cases number
      have word := arg.toNat_lt
      refine ⟨fun exact => ⟨?_, short (by omega)⟩, fun trapping beyond => ?_⟩
      · rw [signedText_natCast]
        exact Itoa.itoa64_eq C.garbage arg [] exact
      · rw [printElement, trapping]
        exact Itoa.itoa64_traps C.garbage arg [] beyond
  | int64 arg =>
      cases number
      have low := arg.le_toInt
      have high := arg.toInt_lt
      refine ⟨fun exact => ⟨?_, short (by omega)⟩, fun trapping beyond => ?_⟩
      · rw [← Itoa.signedDecimal_eq]
        exact Itoa.itoaInt64_eq C.garbage arg [] exact
      · rw [printElement, trapping]
        exact Itoa.itoaInt64_traps C.garbage arg [] beyond
  | uint32 arg =>
      cases number
      have word := arg.toNat_lt
      refine ⟨fun exact => ⟨?_, short (by omega)⟩, fun trapping beyond => ?_⟩
      · rw [signedText_natCast]
        apply Itoa.itoa32_eq
        rcases exact with wrapping | fits
        · exact .inl wrapping
        · rw [Itoa.Overflows] at fits
          exact .inr (by omega)
      · rw [printElement, trapping]
        apply Itoa.itoa32_traps
        rw [Itoa.Overflows] at beyond
        omega
  | int32 arg =>
      cases number
      have low := arg.le_toInt
      have high := arg.toInt_lt
      refine ⟨fun _ => ⟨Itoa.itoaInt32_eq C.garbage arg [], short (by omega)⟩,
        fun _ beyond => ?_⟩
      rw [Itoa.Overflows] at beyond
      omega

theorem three_billion_printed :
    printElement ⟨[], false, Itoa.wraps, 0⟩ (.uint32 3000000000) =
        some (Itoa.signedText 3000000000) ∧
      printElement ⟨[], false, Itoa.traps, 0⟩ (.uint32 3000000000) = none :=
  ⟨((numbers_printed _ (.uint32 3000000000) rfl).1 (.inl rfl)).1,
    (numbers_printed _ (.uint32 3000000000) rfl).2 rfl (by decide)⟩

end Numbers

end Texts

namespace Logger

section Steps

variable {T : Type} [DecidableEq T] (C : LogSetting)

/-- fputs; a null pointer ends the process. -/
def put (s : Logger T) (t : T) (text : List UInt8) (next : Stream → LogPc) : Logger T :=
  match s.hFile with
  | none => { s with pc := Function.update s.pc t (.crashed (s.pc t)) }
  | some h =>
      { s with
        written := Function.update s.written h (s.written h ++ text)
        pc := Function.update s.pc t (next h) }

def goto (s : Logger T) (t : T) (next : LogPc) : Logger T :=
  { s with pc := Function.update s.pc t next }

def begin (s : Logger T) (call : LogCall) : Logger T :=
  { s with begun := s.begun ++ [(call, s.hFile)] }

/-- One step of log and of what it calls. Colours are for the console only, and a SIGHUP
opens the file again only in a daemon. -/
def step (s : Logger T) (t : T) (env : LogEnv) : Option (Logger T) :=
  match s.pc t with
  | .outside => none
  | .lock call =>
      match s.logLock with
      | none => some ({ s with logLock := some t, taken := s.taken ++ [call] }.goto t (.level call))
      | some _ => none
  | .level call =>
      some (s.goto t (if call.lvl.value < s.currentLevel then .unlock call else .checkSighup call))
  | .checkSighup call =>
      if s.sighup then some (s.goto t (.clearSighup call))
      else some ((s.begin call).goto t (.setColour call false))
  | .clearSighup call =>
      let cleared := { s with sighup := false }
      if C.daemonize then some (cleared.goto t (.close call))
      else some ((cleared.begin call).goto t (.console call))
  | .close call =>
      match s.hFile with
      | none => some (s.goto t (.crashed (s.pc t)))
      | some _ => some (s.goto t (.fopen call))
  | .fopen call =>
      let reopened := { s with
        hFile := if env.opens then some (.file s.opened) else none
        opened := s.opened + 1 }
      some ((reopened.begin call).goto t (.setColour call false))
  | .console call => some (s.put t noteText (fun _ => .setColour call true))
  | .setColour call noted =>
      if s.hFile = some .stdout then
        some (s.put t (colourText call.clr) (fun _ => .timestamp call noted))
      else some (s.goto t (.timestamp call noted))
  | .timestamp call noted =>
      some (s.put t env.now.text (fun h => .printAll ⟨call, h, noted, env.now⟩ call.args))
  | .printAll r [] => some (s.goto t (.newline r))
  | .printAll r (arg :: rest) =>
      match printElement C arg with
      | none => some (s.goto t (.crashed (s.pc t)))
      | some text => some (s.put t text (fun _ => .printAll r rest))
  | .newline r => some (s.put t [0x0a] (fun _ => .resetColour r))
  | .resetColour r =>
      let done := { s with records := s.records ++ [r] }
      if s.hFile = some .stdout then some (done.put t resetText (fun _ => .unlock r.call))
      else some (done.goto t (.unlock r.call))
  | .unlock call =>
      some ({ s with logLock := none, returned := s.returned ++ [call] }.goto t .outside)
  | .crashed _ => none

def next (s : Logger T) : LogAction T → Option (Logger T)
  | .log t call =>
      match s.pc t with
      | .outside => some (s.goto t (.lock call))
      | _ => none
  | .step t env => s.step C t env
  | .onSighup => some { s with sighup := true }

/-- The constructor, with whether its fopen succeeds. `current_level` is never set: the
object is static, so that it is zero. -/
def construct (T : Type) (opens : Bool) : Logger T where
  hFile := if C.logFile = [] then some .stdout else if opens then some (.file 0) else none
  currentLevel := 0
  logLock := none
  sighup := false
  opened := if C.logFile = [] then 0 else 1
  pc _ := .outside
  written _ := []
  taken := []
  begun := []
  records := []
  returned := []

def system (T : Type) [DecidableEq T] : System (Logger T) (LogAction T) where
  start s := ∃ opens, s = construct C T opens
  next := next C

end Steps

end Logger

end EpicPoold
