import EpicPoold.Vector32

/-! workstruct and check_job: the jobs of the node and the checks of a share. -/

namespace EpicPoold

open Foundations

inductive PowType where
  | randomx
  | progpow
  | cuckoo
  deriving DecidableEq

def powTypeToStr : PowType → String
  | .randomx => "randomx"
  | .progpow => "progpow"
  | .cuckoo => "cuckoo"

/-- `sizeof(jobdata::prepow)`. -/
abbrev prepowSize : Nat := 384

structure JobData where
  type : PowType
  blockDiff : UInt64
  height : UInt32
  jobid : UInt32
  prepow : Buffer prepowSize
  prepowLen : UInt32
  rxSeed : V32
  rxNextSeed : V32
  deriving DecidableEq

def JobData.blob (job : JobData) : List UInt8 := job.prepow.read 0 job.prepowLen.toNat

/-- What comes back of a check_job: the hash and the error flag. -/
structure CheckJob where
  hash : V32
  error : Bool
  deriving DecidableEq

/-- The fixed-size arrays a job passes through. -/
inductive BufferName where
  | prepow
  | hexBlob
  | hexJobid
  | hexTarget
  | seedHash
  | poolBlob
  | sendBuf
  deriving DecidableEq

def BufferName.size : BufferName → Nat
  | .prepow => prepowSize
  | .hexBlob => 768
  | .hexJobid => 9
  | .hexTarget => 9
  | .seedHash => 65
  | .poolBlob => 1024
  | .sendBuf => 4096

/-- An access to consecutive bytes of an array; the offset is a pointer difference and
may be negative. -/
structure Access where
  buffer : BufferName
  offset : Int
  count : Nat
  deriving DecidableEq

def Access.InBounds (a : Access) : Prop := 0 ≤ a.offset ∧ a.offset + a.count ≤ a.buffer.size

instance (a : Access) : Decidable a.InBounds := inferInstanceAs (Decidable (_ ∧ _))

end EpicPoold
