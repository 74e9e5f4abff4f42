import EpicPoold.Foundations.Bytes
import EpicPoold.Foundations.Buffer

namespace EpicPoold

open Foundations

structure V32 where
  data : Buffer 32
  deriving DecidableEq

namespace V32

def getWork32 (v : V32) : UInt32 := bswap32 (load32 (v.data.read 0 4))

def getWork64 (v : V32) : UInt64 := bswap64 (load64 (v.data.read 0 8))

/-- 63 bit id of a vector used for atomics. -/
def getId (v : V32) : UInt64 := load64 (v.data.read 0 8) &&& 0x7fffffffffffffff

def setAllOnes : V32 := ⟨Buffer.filled 32 0xff⟩

def setAllZero : V32 := ⟨Buffer.filled 32 0⟩

end V32

end EpicPoold
