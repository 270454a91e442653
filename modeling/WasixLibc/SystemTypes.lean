/-
The error numbers and the times of the interface, which the parts of the library share.
-/

namespace WasixLibc

/-- `__wasi_errno_t`.  The error numbers are macros, and serve as an `int` as well. -/
abbrev Errno := BitVec 16

section

variable {α : Type}

def EAGAIN [OfNat α 6] : α := 6
def EBADF [OfNat α 8] : α := 8
def EBUSY [OfNat α 10] : α := 10
def ECHILD [OfNat α 12] : α := 12
def EDEADLK [OfNat α 16] : α := 16
def EINVAL [OfNat α 28] : α := 28
def ENOMEM [OfNat α 48] : α := 48
def ENOPROTOOPT [OfNat α 50] : α := 50
def ENOSYS [OfNat α 52] : α := 52
def ENOTRECOVERABLE [OfNat α 56] : α := 56
def ENOTSOCK [OfNat α 57] : α := 57
def ENOTSUP [OfNat α 58] : α := 58
def EPERM [OfNat α 63] : α := 63
def EPIPE [OfNat α 64] : α := 64
def ETIMEDOUT [OfNat α 73] : α := 73
def EUNKNOWN [OfNat α 79] : α := 79

end

structure Timespec where
  tvSec : BitVec 64
  tvNsec : BitVec 32
deriving Repr, DecidableEq

structure Timeval where
  tvSec : BitVec 64
  tvUsec : BitVec 64
deriving Repr, DecidableEq

/-- The largest `__wasi_timestamp_t`. -/
def longest : Nat := 18446744073709551615

end WasixLibc
