/-
`setsockopt` and `getsockopt`.

An option is a flag, a size or a time.  A time crosses to the host as an
optional timestamp in nanoseconds; `SO_LINGER` has its own structure for it.
-/
import WasixLibc.ByteMemory
import WasixLibc.Nanoseconds

namespace WasixLibc

namespace SocketOption

open Select.Timeval (nanoseconds nanoseconds_eq nanoseconds_even toNat_ts ValidTime)

def SOL_SOCKET : BitVec 32 := 0x7fffffff
def IPPROTO_TCP : BitVec 32 := 6
def IPPROTO_IPV6 : BitVec 32 := 41

def TCP_NODELAY : BitVec 32 := 1
def IPV6_V6ONLY : BitVec 32 := 26

def SO_REUSEPORT : BitVec 32 := 1
def SO_REUSEADDR : BitVec 32 := 2
def SO_NODELAY : BitVec 32 := 3
def SO_DONTROUTE : BitVec 32 := 4
def SO_ONLYV6 : BitVec 32 := 5
def SO_BROADCAST : BitVec 32 := 6
def SO_MCASTLOOPV4 : BitVec 32 := 7
def SO_MCASTLOOPV6 : BitVec 32 := 8
def SO_ACCEPTCONN : BitVec 32 := 10
def SO_ERROR : BitVec 32 := 11
def SO_KEEPALIVE : BitVec 32 := 12
def SO_LINGER : BitVec 32 := 13
def SO_OOBINLINE : BitVec 32 := 14
def SO_RCVBUF : BitVec 32 := 15
def SO_SNDBUF : BitVec 32 := 16
def SO_RCVTIMEO : BitVec 32 := 19
def SO_SNDTIMEO : BitVec 32 := 20
def SO_CONNTIMEO : BitVec 32 := 21
def SO_ACCPTIMEO : BitVec 32 := 22
def SO_TTL : BitVec 32 := 23
def SO_MCASTTTLV4 : BitVec 32 := 24
def SO_TYPE : BitVec 32 := 25
def SO_PROTOCOL : BitVec 32 := 26

def FILETYPE_SOCKET_DGRAM : BitVec 8 := 5
def FILETYPE_SOCKET_STREAM : BitVec 8 := 6
def FILETYPE_SOCKET_RAW : BitVec 8 := 8
def FILETYPE_SOCKET_SEQPACKET : BitVec 8 := 9

def SOCK_STREAM : BitVec 32 := 1
def SOCK_DGRAM : BitVec 32 := 2
def SOCK_RAW : BitVec 32 := 3
def SOCK_SEQPACKET : BitVec 32 := 4

/-- The cases that share a body in each of the two switches. -/
def flagOptions : List (BitVec 32) :=
  [SO_ACCEPTCONN, SO_BROADCAST, SO_DONTROUTE, SO_NODELAY, SO_OOBINLINE, SO_ONLYV6, SO_REUSEPORT,
    SO_REUSEADDR, SO_MCASTLOOPV4, SO_MCASTLOOPV6, SO_KEEPALIVE]

def timeOptions : List (BitVec 32) := [SO_RCVTIMEO, SO_SNDTIMEO, SO_CONNTIMEO, SO_ACCPTIMEO]

def sizeOptions : List (BitVec 32) := [SO_RCVBUF, SO_SNDBUF, SO_TTL, SO_MCASTTTLV4]

def OPTION_NONE : BitVec 8 := 0
def OPTION_SOME : BitVec 8 := 1

/-- `__wasi_option_timestamp_t` -/
structure OptionTimestamp where
  tag : BitVec 8
  some : BitVec 64
deriving Repr, DecidableEq

/-- The calls of the host: an error number, and the state or the value that comes
with it. -/
structure SockHost (σ : Type) where
  sockSetOptFlag : σ → BitVec 32 → BitVec 8 → BitVec 8 → BitVec 16 × σ
  sockSetOptTime : σ → BitVec 32 → BitVec 8 → OptionTimestamp → BitVec 16 × σ
  sockSetOptSize : σ → BitVec 32 → BitVec 8 → BitVec 64 → BitVec 16 × σ
  sockGetOptFlag : σ → BitVec 32 → BitVec 8 → BitVec 16 × BitVec 8
  sockGetOptTime : σ → BitVec 32 → BitVec 8 → BitVec 16 × OptionTimestamp
  sockGetOptSize : σ → BitVec 32 → BitVec 8 → BitVec 16 × BitVec 64
  fdFdstatGet : σ → BitVec 32 → BitVec 16 × BitVec 8

/-- `struct linger` -/
structure Linger where
  lOnoff : BitVec 32
  lLinger : BitVec 32
deriving Repr, DecidableEq

namespace Linger

def load (m : ByteMemory) : Linger := ⟨m.load32 0, m.load32 4⟩

def store (l : Linger) (m : ByteMemory) : ByteMemory := (m.store32 0 l.lOnoff).store32 4 l.lLinger

theorem load_store (l : Linger) (m : ByteMemory) : load (l.store m) = l := by
  unfold load store
  rw [ByteMemory.load32_store32, ByteMemory.load32_store32_frame _ (by omega),
    ByteMemory.load32_store32]

/-- What `setsockopt` hands over. -/
def toTime (l : Linger) : OptionTimestamp :=
  { tag := if 0 < l.lOnoff.toInt then OPTION_SOME else OPTION_NONE
    some := l.lLinger.signExtend 64 * 1000000000 }

/-- What `getsockopt` makes of the answer. -/
def ofTime (tm : OptionTimestamp) : Linger :=
  { lOnoff := if tm.tag = OPTION_SOME then 1 else 0
    lLinger := (tm.some / 1000000000).setWidth 32 }

end Linger

def loadTimeval (m : ByteMemory) : Timeval := ⟨m.load64 0, m.load64 8⟩

def storeTimeval (tv : Timeval) (m : ByteMemory) : ByteMemory :=
  (m.store64 0 tv.tvSec).store64 8 tv.tvUsec

theorem loadTimeval_storeTimeval (tv : Timeval) (m : ByteMemory) :
    loadTimeval (storeTimeval tv m) = tv := by
  unfold loadTimeval storeTimeval
  rw [ByteMemory.load64_store64, ByteMemory.load64_store64_frame _ (by omega),
    ByteMemory.load64_store64]

def timevalToTime (tv : Timeval) : OptionTimestamp :=
  { tag := if 0 < tv.tvSec.toInt ∨ 0 < tv.tvUsec.toInt then OPTION_SOME else OPTION_NONE
    some := tv.tvSec * 1000000000 + tv.tvUsec * 1000 }

def timevalOfTime (tm : OptionTimestamp) : Timeval :=
  if tm.tag = OPTION_SOME then ⟨tm.some / 1000000000, tm.some % 1000000000 / 1000⟩ else ⟨0, 0⟩

/-- Two options of other levels are options of the socket. -/
def renamed (level optionName : BitVec 32) : BitVec 32 × BitVec 32 :=
  if level = IPPROTO_IPV6 ∧ optionName = IPV6_V6ONLY then (SOL_SOCKET, SO_ONLYV6)
  else if level = IPPROTO_TCP ∧ optionName = TCP_NODELAY then (SOL_SOCKET, SO_NODELAY)
  else (level, optionName)

/-- What `setsockopt` returns, the `errno` it sets, and the host after it. -/
structure Set (σ : Type) where
  ret : BitVec 32
  errno : Option (BitVec 16)
  state : σ

/-- The end of each case of `setsockopt`. -/
def answered {σ : Type} (answer : BitVec 16 × σ) : Set σ :=
  if answer.1 ≠ 0 then ⟨-1, some answer.1, answer.2⟩ else ⟨0, none, answer.2⟩

def setsockopt {σ : Type} (host : SockHost σ) (s : σ) (socket level optionName : BitVec 32)
    (optionValue : ByteMemory) (optionLen : BitVec 32) : Set σ :=
  let named := renamed level optionName
  let option := named.2.setWidth 8
  if named.1 ≠ SOL_SOCKET then ⟨-1, some ENOSYS, s⟩
  else if named.2 ∈ flagOptions then
    if optionLen.toNat < 4 then ⟨-1, some EINVAL, s⟩
    else
      let on := if optionValue.load32 0 ≠ 0 then 1 else 0
      answered (host.sockSetOptFlag s socket option on)
  else if named.2 = SO_LINGER then
    if 8 ≤ optionLen.toNat then
      answered (host.sockSetOptTime s socket option (Linger.load optionValue).toTime)
    else ⟨-1, some EINVAL, s⟩
  else if named.2 ∈ timeOptions then
    if 16 ≤ optionLen.toNat then
      answered (host.sockSetOptTime s socket option (timevalToTime (loadTimeval optionValue)))
    else ⟨-1, some EINVAL, s⟩
  else if named.2 ∈ sizeOptions then
    if 4 ≤ optionLen.toNat then
      answered (host.sockSetOptSize s socket option ((optionValue.load32 0).setWidth 64))
    else ⟨-1, some EINVAL, s⟩
  else ⟨-1, some ENOPROTOOPT, s⟩

/-- What `getsockopt` returns, the `errno` it sets, and what is behind its two
pointers. -/
structure Got where
  ret : BitVec 32
  errno : Option (BitVec 16)
  value : ByteMemory
  len : BitVec 32

/-- A local of `size` bytes is copied out, as far as there is room. -/
def copyOut (optionValue : ByteMemory) (optionLen : BitVec 32) (bytes : ByteMemory) (size : Nat) :
    Got :=
  { ret := 0
    errno := none
    value := optionValue.copy 0 bytes 0 (if optionLen.toNat < size then optionLen.toNat else size)
    len := BitVec.ofNat 32 size }

def intBytes (x : BitVec 32) : ByteMemory := ByteMemory.store32 (fun _ => 0) 0 x

/-- The end of a case of `getsockopt` that asks the host. -/
def replied {α : Type} (reply : BitVec 16 × α) (optionValue : ByteMemory) (optionLen : BitVec 32)
    (bytes : α → ByteMemory) (size : Nat) : Got :=
  if reply.1 ≠ 0 then ⟨-1, some reply.1, optionValue, optionLen⟩
  else copyOut optionValue optionLen (bytes reply.2) size

/-- The socket type of a file type. -/
def sockType (filetype : BitVec 8) : BitVec 32 :=
  if filetype = FILETYPE_SOCKET_DGRAM then SOCK_DGRAM
  else if filetype = FILETYPE_SOCKET_STREAM then SOCK_STREAM
  else if filetype = FILETYPE_SOCKET_SEQPACKET then SOCK_SEQPACKET
  else SOCK_RAW

def getsockopt {σ : Type} (host : SockHost σ) (s : σ) (socket level optionName : BitVec 32)
    (optionValue : ByteMemory) (optionLen : BitVec 32) : Got :=
  let named := renamed level optionName
  let option := named.2.setWidth 8
  if named.1 ≠ SOL_SOCKET then ⟨-1, some ENOPROTOOPT, optionValue, optionLen⟩
  else if named.2 ∈ flagOptions then
    replied (host.sockGetOptFlag s socket option) optionValue optionLen
      (fun on => intBytes (if on = 1 then 1 else 0)) 4
  else if named.2 = SO_ERROR then
    replied (host.sockGetOptSize s socket option) optionValue optionLen
      (fun fs => intBytes (fs.setWidth 32)) 4
  else if named.2 = SO_LINGER then
    replied (host.sockGetOptTime s socket option) optionValue optionLen
      (fun tm => (Linger.ofTime tm).store (fun _ => 0)) 8
  else if named.2 ∈ timeOptions then
    replied (host.sockGetOptTime s socket option) optionValue optionLen
      (fun tm => storeTimeval (timevalOfTime tm) (fun _ => 0)) 16
  else if named.2 ∈ sizeOptions then
    replied (host.sockGetOptSize s socket option) optionValue optionLen
      (fun fs => intBytes (fs.setWidth 32)) 4
  else if named.2 = SO_PROTOCOL then
    replied (host.sockGetOptSize s socket option) optionValue optionLen (fun _ => intBytes 0) 4
  else if named.2 = SO_TYPE then
    let stat := host.fdFdstatGet s socket
    if stat.1 ≠ 0 then ⟨-1, some EBADF, optionValue, optionLen⟩
    else if stat.2 ≠ FILETYPE_SOCKET_DGRAM ∧ stat.2 ≠ FILETYPE_SOCKET_STREAM ∧
        stat.2 ≠ FILETYPE_SOCKET_SEQPACKET ∧ stat.2 ≠ FILETYPE_SOCKET_RAW then
      ⟨-1, some ENOTSOCK, optionValue, optionLen⟩
    else copyOut optionValue optionLen (intBytes (sockType stat.2)) 4
  else ⟨-1, some ENOPROTOOPT, optionValue, optionLen⟩

end SocketOption

end WasixLibc
