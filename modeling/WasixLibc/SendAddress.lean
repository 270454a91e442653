/-
Addresses that messages are sent to.

`sendto` and `sendmsg` rewrite the address for the host first, and what that
returns is converted to an error number.
-/
import WasixLibc.SocketAddress
import WasixLibc.SystemTypes
import Mathlib.Tactic.ByContra

namespace WasixLibc

namespace SocketAddress

def MSG_DONTWAIT : BitVec 32 := 0x40
def SEND_DONT_WAIT : BitVec 16 := 1

/-- `__wasi_ciovec_t` -/
structure Iovec where
  buf : BitVec 32
  bufLen : BitVec 32
deriving Repr, DecidableEq

/-- The arguments of `sock_send_to`, or of `sock_send`, which has no peer. -/
structure Send where
  socket : BitVec 32
  siData : List Iovec
  siFlags : BitVec 16
  peerAddr : Option ByteMemory

/-- The host answers with an error and the number of bytes sent. -/
abbrev SendHost := Send → Errno × BitVec 32

/-- What a call returns, the `errno` it sets, and what it has the host send. -/
structure SendResult where
  ret : BitVec 32
  errno : Option Errno
  sends : List Send

/-- `struct msghdr`, as far as `sendmsg` reads it. -/
structure Msghdr where
  msgName : Option ByteMemory
  msgNamelen : Nat
  msgIov : Option (List Iovec)

def siFlagsOf (flags : BitVec 32) : BitVec 16 :=
  if flags &&& MSG_DONTWAIT ≠ 0 then SEND_DONT_WAIT else 0

/-- The `int` that `sockaddr_to_wasi` returns, converted to
`__wasi_errno_t`. -/
def toErrno : Option ByteMemory → Errno
  | none => (-1 : BitVec 32).setWidth 16
  | some _ => 0

def failWith (error : Errno) (sends : List Send) : SendResult :=
  { ret := -1, errno := some error, sends := sends }

def performSend (host : SendHost) (send : Send) : SendResult :=
  let (error, soDatalen) := host send
  if error ≠ 0 then failWith error [send]
  else { ret := soDatalen, errno := none, sends := [send] }

/-- `stack` is what is in memory where the address for the host is put. -/
def sendto (host : SendHost) (stack : ByteMemory) (socket buffer length flags : BitVec 32)
    (addr : Option ByteMemory) (addrlen : Nat) : SendResult :=
  match addr with
  | none => failWith EINVAL []
  | some addr =>
      if buffer = 0 then failWith EINVAL []
      else
        let peerAddr := sockaddrToWasi addr addrlen stack
        let error := toErrno peerAddr
        if error ≠ 0 then failWith error []
        else
          performSend host
            { socket := socket, siData := [⟨buffer, length⟩], siFlags := siFlagsOf flags
              peerAddr := peerAddr }

def sendmsg (host : SendHost) (stack : ByteMemory) (socket : BitVec 32) (msg : Msghdr)
    (flags : BitVec 32) : SendResult :=
  match msg.msgIov with
  | none => failWith EINVAL []
  | some siData =>
      match msg.msgName with
      | none =>
          performSend host
            { socket := socket, siData := siData, siFlags := siFlagsOf flags, peerAddr := none }
      | some addr =>
          let peerAddr := sockaddrToWasi addr msg.msgNamelen stack
          let error := toErrno peerAddr
          if error ≠ 0 then failWith error []
          else
            performSend host
              { socket := socket, siData := siData, siFlags := siFlagsOf flags
                peerAddr := peerAddr }

/-! What the rewriting accepts, reads and writes -/

/-- The families and lengths that have a branch. -/
inductive Accepted (addr : ByteMemory) (addrlen : Nat) : Prop
  | inet : addr.load16 0 = AF_INET → 16 ≤ addrlen → Accepted addr addrlen
  | inet6 : addr.load16 0 = AF_INET6 → 32 ≤ addrlen → Accepted addr addrlen
  | unix : addr.load16 0 = AF_UNIX → 3 ≤ addrlen → addrlen ≤ 109 → Accepted addr addrlen

section

variable {addr addr' stack host : ByteMemory} {addrlen : Nat}

theorem AF_ne : AF_INET ≠ AF_INET6 ∧ AF_INET ≠ AF_UNIX ∧ AF_INET6 ≠ AF_UNIX := by decide

theorem sockaddrToWasi_isSome (h : Accepted addr addrlen) :
    (sockaddrToWasi addr addrlen stack).isSome = true := by
  obtain ⟨hsix, hunix, hsixUnix⟩ := AF_ne
  unfold sockaddrToWasi
  cases h with
  | inet hfamily hlen => rw [if_pos ⟨hfamily, hlen⟩]; rfl
  | inet6 hfamily hlen =>
      rw [if_neg fun hinet => hsix (hinet.1.symm.trans hfamily), if_pos ⟨hfamily, hlen⟩]
      rfl
  | unix hfamily hlow hhigh =>
      rw [if_neg fun hinet => hunix (hinet.1.symm.trans hfamily),
        if_neg fun hinet6 => hsixUnix (hinet6.1.symm.trans hfamily), if_pos ⟨hfamily, hlow⟩]
      dsimp only
      rw [if_neg (by omega)]
      rfl

theorem accepted_of_some (h : sockaddrToWasi addr addrlen stack = some host) :
    Accepted addr addrlen := by
  unfold sockaddrToWasi at h
  by_cases hinet : addr.load16 0 = AF_INET ∧ 16 ≤ addrlen
  · exact .inet hinet.1 hinet.2
  · by_cases hsix : addr.load16 0 = AF_INET6 ∧ 32 ≤ addrlen
    · exact .inet6 hsix.1 hsix.2
    · by_cases hunix : addr.load16 0 = AF_UNIX ∧ 3 ≤ addrlen
      · rw [if_neg hinet, if_neg hsix, if_pos hunix] at h
        dsimp only at h
        by_cases hlong : 107 < addrlen - 2
        · rw [if_pos hlong] at h
          cases h
        · exact .unix hunix.1 hunix.2 (by omega)
      · rw [if_neg hinet, if_neg hsix, if_neg hunix] at h
        cases h

/-- Nothing is written behind the 110 bytes of the address of the host. -/
theorem sockaddrToWasi_frame (h : sockaddrToWasi addr addrlen stack = some host) :
    ∀ i, 110 ≤ i → host i = stack i := by
  intro i hi
  have haccepted := accepted_of_some h
  obtain ⟨hsix, hunix, hsixUnix⟩ := AF_ne
  unfold sockaddrToWasi at h
  cases haccepted with
  | inet hfamily hlen =>
      rw [if_pos ⟨hfamily, hlen⟩] at h
      cases h
      simp (disch := omega) only [ByteMemory.store32_of_outside, ByteMemory.store16_of_outside,
        ByteMemory.store8_of_ne, ByteMemory.fill_of_outside]
  | inet6 hfamily hlen =>
      rw [if_neg fun hinet => hsix (hinet.1.symm.trans hfamily), if_pos ⟨hfamily, hlen⟩] at h
      cases h
      simp (disch := omega) only [ByteMemory.copy_of_outside, ByteMemory.store16_of_outside,
        ByteMemory.store8_of_ne, ByteMemory.fill_of_outside]
  | unix hfamily hlow hhigh =>
      rw [if_neg fun hinet => hunix (hinet.1.symm.trans hfamily),
        if_neg fun hinet6 => hsixUnix (hinet6.1.symm.trans hfamily), if_pos ⟨hfamily, hlow⟩] at h
      dsimp only at h
      rw [if_neg (by omega)] at h
      cases h
      simp (disch := omega) only [ByteMemory.store8_of_ne, ByteMemory.copy_of_outside,
        ByteMemory.fill_of_outside]

/-- Only the bytes of the given length are looked at. -/
theorem sockaddrToWasi_congr (haccepted : Accepted addr addrlen)
    (hsame : ∀ i, i < addrlen → addr' i = addr i) :
    sockaddrToWasi addr' addrlen stack = sockaddrToWasi addr addrlen stack := by
  have hlen : 3 ≤ addrlen := by
    cases haccepted with
    | inet _ hlen => omega
    | inet6 _ hlen => omega
    | unix _ hlow _ => exact hlow
  have hfamily : addr'.load16 0 = addr.load16 0 :=
    ByteMemory.load16_congr fun i hi => hsame _ (by omega)
  have hcopy : ∀ (m : ByteMemory) (o so n : Nat), so + n ≤ addrlen →
      m.copy o addr' so n = m.copy o addr so n := by
    intro m o so n hle
    funext i
    unfold ByteMemory.copy
    split
    · exact hsame _ (by omega)
    · rfl
  obtain ⟨hsix, hunix, hsixUnix⟩ := AF_ne
  unfold sockaddrToWasi
  rw [hfamily]
  cases haccepted with
  | inet hinet hlen =>
      have hport : addr'.load16 2 = addr.load16 2 :=
        ByteMemory.load16_congr fun i hi => hsame _ (by omega)
      have haddr : addr'.load32 4 = addr.load32 4 :=
        ByteMemory.load32_congr fun i hi => hsame _ (by omega)
      rw [if_pos ⟨hinet, hlen⟩, if_pos ⟨hinet, hlen⟩, hport, haddr]
  | inet6 hinet6 hlen =>
      have hport : addr'.load16 2 = addr.load16 2 :=
        ByteMemory.load16_congr fun i hi => hsame _ (by omega)
      have hflow : addr'.load32 4 = addr.load32 4 :=
        ByteMemory.load32_congr fun i hi => hsame _ (by omega)
      have hscope : addr'.load32 24 = addr.load32 24 :=
        ByteMemory.load32_congr fun i hi => hsame _ (by omega)
      have hinet : ¬ (addr.load16 0 = AF_INET ∧ 16 ≤ addrlen) :=
        fun hinet => hsix (hinet.1.symm.trans hinet6)
      rw [if_neg hinet, if_neg hinet, if_pos ⟨hinet6, hlen⟩, if_pos ⟨hinet6, hlen⟩, hport, hflow,
        hscope]
      dsimp only
      rw [hcopy _ _ _ _ (by omega)]
  | unix hpath hlow hhigh =>
      have hinet : ¬ (addr.load16 0 = AF_INET ∧ 16 ≤ addrlen) :=
        fun hinet => hunix (hinet.1.symm.trans hpath)
      have hinet6 : ¬ (addr.load16 0 = AF_INET6 ∧ 32 ≤ addrlen) :=
        fun hinet6 => hsixUnix (hinet6.1.symm.trans hpath)
      rw [if_neg hinet, if_neg hinet, if_neg hinet6, if_neg hinet6]
      dsimp only
      rw [hcopy _ 2 2 (addrlen - 2) (by omega)]

end

/-! Well-formed addresses -/

/-- A structure of its family, as long as the structure or, for a path, any
length from the end of the path to the 112 bytes of `struct sockaddr_un`. -/
inductive WellFormed (addr : ByteMemory) (addrlen : Nat) : Prop
  | inet : addr.load16 0 = AF_INET → 16 ≤ addrlen → WellFormed addr addrlen
  | inet6 : addr.load16 0 = AF_INET6 → 32 ≤ addrlen → WellFormed addr addrlen
  | unix {pathlen : Nat} : addr.load16 0 = AF_UNIX → pathlen ≤ 107 →
      (∀ i, i < pathlen → addr (2 + i) ≠ 0) → addr (2 + pathlen) = 0 →
      2 + pathlen ≤ addrlen → addrlen ≤ 112 → WellFormed addr addrlen

/-- The address is accepted, with no byte read behind its length and none written
outside of the destination. -/
def Accepts (addr : ByteMemory) (addrlen : Nat) : Prop :=
  ∀ stack, ∃ host, sockaddrToWasi addr addrlen stack = some host ∧
    (∀ i, 110 ≤ i → host i = stack i) ∧
    ∀ addr' : ByteMemory, (∀ i, i < addrlen → addr' i = addr i) →
      sockaddrToWasi addr' addrlen stack = some host

/-- The error numbers that the headers define are 1 to 80 and 200 to 254. -/
def Defined (error : Errno) : Prop :=
  0 < error.toNat ∧ error.toNat ≤ 80 ∨ 200 ≤ error.toNat ∧ error.toNat ≤ 254

/-- The call fails with an error number and sends nothing. -/
def Fails (r : SendResult) : Prop :=
  r.ret = -1 ∧ (∃ error, r.errno = some error ∧ Defined error) ∧ r.sends = []

/-- The address is rejected, and every call that is given it fails. -/
def Rejects (addr : ByteMemory) (addrlen : Nat) : Prop :=
  ∀ stack, sockaddrToWasi addr addrlen stack = none ∧
    ∀ (host : SendHost) (socket flags : BitVec 32),
      (∀ buffer length, Fails (sendto host stack socket buffer length flags (some addr) addrlen)) ∧
      ∀ siData, Fails (sendmsg host stack socket ⟨some addr, addrlen, siData⟩ flags)

/-- Exactly the well-formed addresses are accepted. -/
def Validates (addr : ByteMemory) (addrlen : Nat) : Prop :=
  (WellFormed addr addrlen → Accepts addr addrlen) ∧
    (¬ WellFormed addr addrlen → Rejects addr addrlen)

section

variable {addr : ByteMemory} {addrlen : Nat}

theorem accepts_iff : Accepts addr addrlen ↔ Accepted addr addrlen := by
  constructor
  · intro h
    obtain ⟨host, hsome, _⟩ := h addr
    exact accepted_of_some hsome
  · intro haccepted stack
    obtain ⟨host, hsome⟩ := Option.isSome_iff_exists.mp (sockaddrToWasi_isSome haccepted)
    exact ⟨host, hsome, sockaddrToWasi_frame hsome,
      fun addr' hsame => (sockaddrToWasi_congr haccepted hsame).trans hsome⟩

/-- The -1 of a rejected address becomes 65535. -/
theorem sendto_rejected (host : SendHost) {stack : ByteMemory}
    (socket length flags : BitVec 32) {buffer : BitVec 32} (hbuffer : buffer ≠ 0)
    (hnone : sockaddrToWasi addr addrlen stack = none) :
    sendto host stack socket buffer length flags (some addr) addrlen = failWith 65535 [] := by
  unfold sendto
  dsimp only
  rw [if_neg hbuffer, hnone]
  exact if_pos (by decide)

theorem not_defined : ¬ Defined 65535 := by
  rintro (⟨_, hle⟩ | ⟨_, hle⟩)
  · exact absurd hle (by decide)
  · exact absurd hle (by decide)

theorem not_rejects : ¬ Rejects addr addrlen := by
  intro h
  obtain ⟨hnone, hcalls⟩ := h addr
  obtain ⟨_, ⟨error, herror, hdefined⟩, _⟩ := (hcalls (fun _ => (0, 0)) 0 0).1 1 0
  rw [sendto_rejected _ _ _ _ (by decide) hnone] at herror
  obtain rfl : (65535 : Errno) = error := Option.some.inj herror
  exact not_defined hdefined

/-- The code is right about the well-formed addresses but for paths of certain
lengths, and never about another address. -/
theorem validates_iff : Validates addr addrlen ↔
    WellFormed addr addrlen ∧ (addr.load16 0 = AF_UNIX → 3 ≤ addrlen ∧ addrlen ≤ 109) := by
  obtain ⟨_, hunix, hsixUnix⟩ := AF_ne
  constructor
  · rintro ⟨haccept, hreject⟩
    have hformed : WellFormed addr addrlen := by
      by_contra hnot
      exact not_rejects (hreject hnot)
    refine ⟨hformed, fun hfamily => ?_⟩
    cases accepts_iff.mp (haccept hformed) with
    | inet hinet _ => exact absurd (hinet.symm.trans hfamily) hunix
    | inet6 hinet6 _ => exact absurd (hinet6.symm.trans hfamily) hsixUnix
    | unix _ hlow hhigh => exact ⟨hlow, hhigh⟩
  · rintro ⟨hformed, hlengths⟩
    refine ⟨fun _ => accepts_iff.mpr ?_, fun hnot => absurd hformed hnot⟩
    cases hformed with
    | inet hfamily hlen => exact .inet hfamily hlen
    | inet6 hfamily hlen => exact .inet6 hfamily hlen
    | unix hfamily _ _ _ _ _ =>
        obtain ⟨hlow, hhigh⟩ := hlengths hfamily
        exact .unix hfamily hlow hhigh

end

namespace SendWitness

/-- The path `x`. -/
def path : ByteMemory := fun i => if i = 0 then 3 else if i = 2 then 120 else 0

theorem path_wellFormed {addrlen : Nat} (hlow : 3 ≤ addrlen) (hhigh : addrlen ≤ 112) :
    WellFormed path addrlen := by
  refine @WellFormed.unix path addrlen 1 (by decide) (by decide) (fun i hi => ?_) (by decide) hlow
    hhigh
  obtain rfl : i = 0 := by omega
  decide

/-- With the length of its structure the address is rejected, as is one of no
family, and the error number is one that is not defined. -/
theorem path_not_validates : WellFormed path 112 ∧
    (∀ stack, sockaddrToWasi path 112 stack = none) ∧ ¬ Validates path 112 ∧
    (∀ host stack, sendto host stack 3 4096 1 0 (some fun _ => 0) 16 = failWith 65535 []) ∧
    ¬ Defined 65535 ∧ ¬ Validates (fun _ => 0) 16 := by
  have hformed := @path_wellFormed 112 (by decide) (by decide)
  have hrejected : ∀ stack, sockaddrToWasi path 112 stack = none := fun _ => rfl
  refine ⟨hformed, hrejected, fun h => ?_, fun host stack => ?_, not_defined, fun h => ?_⟩
  · obtain ⟨host, hsome, _⟩ := h.1 hformed path
    rw [hrejected] at hsome
    cases hsome
  · exact sendto_rejected host 3 1 0 (by decide) rfl
  · refine not_rejects (h.2 fun hnone => ?_)
    cases hnone with
    | inet hfamily _ => exact absurd hfamily (by decide)
    | inet6 hfamily _ => exact absurd hfamily (by decide)
    | unix hfamily _ _ _ _ _ => exact absurd hfamily (by decide)

end SendWitness

end SocketAddress

end WasixLibc
