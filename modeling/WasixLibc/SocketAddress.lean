/-
Socket addresses of programs and of the host.

Both are laid out in memory; each family has a branch of its own in either
direction.
-/
import WasixLibc.ByteMemory

namespace WasixLibc

namespace SocketAddress

def AF_UNSPEC : BitVec 16 := 0
def AF_INET : BitVec 16 := 1
def AF_INET6 : BitVec 16 := 2
def AF_UNIX : BitVec 16 := 3

/-- The tags of `__wasi_addr_port_t`. -/
def TAG_INET4 : BitVec 8 := 1
def TAG_INET6 : BitVec 8 := 2
def TAG_UNIX : BitVec 8 := 3

/-- `htons` and `ntohs` on a machine with the lowest byte first. -/
def htons (x : BitVec 16) : BitVec 16 := x.extractLsb' 0 8 ++ x.extractLsb' 8 8

theorem htons_htons (x : BitVec 16) : htons (htons x) = x := by
  have hlow : (htons x).extractLsb' 0 8 = x.extractLsb' 8 8 := BitVec.extractLsb'_append_eq_right
  have hhigh : (htons x).extractLsb' 8 8 = x.extractLsb' 0 8 := BitVec.extractLsb'_append_eq_left
  rw [htons, hlow, hhigh]
  exact BitVec.extractLsb'_append_extractLsb'

/-- The length of the string at `o`, which ends within `bound` bytes. -/
def strlen (m : ByteMemory) (o bound : Nat) : Nat :=
  (List.range bound).findIdx (fun i => m (o + i) == 0)

/-- `sockaddr_to_wasi`, or `none` where it returns -1. The family, the port,
the address and the flow info are at 0, 2, 4 (or 8) and 4, the scope at 24; on
the side of the host the tag, the port and the address are at 0, 2 and 4, the
halves of the flow info and the scope at 20 to 26. -/
def sockaddrToWasi (addr : ByteMemory) (addrlen : Nat) (peerAddr : ByteMemory) :
    Option ByteMemory :=
  let peerAddr := peerAddr.fill 0 110 0
  if addr.load16 0 = AF_INET ∧ 16 ≤ addrlen then
    let peerAddr := peerAddr.store8 0 TAG_INET4
    let peerAddr := peerAddr.store16 2 (htons (addr.load16 2))
    some (peerAddr.store32 4 (addr.load32 4))
  else if addr.load16 0 = AF_INET6 ∧ 32 ≤ addrlen then
    let peerAddr := peerAddr.store8 0 TAG_INET6
    let peerAddr := peerAddr.store16 2 (htons (addr.load16 2))
    let peerAddr := peerAddr.store16 20 ((addr.load32 4).extractLsb' 16 16)
    let peerAddr := peerAddr.store16 22 ((addr.load32 4).extractLsb' 0 16)
    let peerAddr := peerAddr.store16 24 ((addr.load32 24).extractLsb' 16 16)
    let peerAddr := peerAddr.store16 26 ((addr.load32 24).extractLsb' 0 16)
    some (peerAddr.copy 4 addr 8 16)
  else if addr.load16 0 = AF_UNIX ∧ 3 ≤ addrlen then
    let peerAddr := peerAddr.store8 0 TAG_UNIX
    let pathlen := addrlen - 2
    if 107 < pathlen then none
    else some ((peerAddr.copy 2 addr 2 pathlen).store8 (2 + pathlen) 0)
  else none

/-- The two halves of a word, `hi << 16 | lo`. -/
def joinHalves (hi lo : BitVec 16) : BitVec 32 := (hi.setWidth 32 <<< 16) ||| lo.setWidth 32

/-- `wasi_to_sockaddr`, or `none` where it returns -1; `locals` is what the
local structures hold before they are filled. -/
def wasiToSockaddr (needRevert : Bool) (locals peerAddr : ByteMemory) (addr : Option ByteMemory)
    (addrlen : Nat) : Option (ByteMemory × Nat) :=
  match addr with
  | none => none
  | some addr =>
      let addr := addr.fill 0 addrlen 0
      let port := if needRevert then htons (peerAddr.load16 2) else peerAddr.load16 2
      if peerAddr 0 = TAG_INET4 then
        let addr4 := locals.store16 0 AF_INET
        let addr4 := addr4.store16 2 port
        let addr4 := addr4.store32 4 (peerAddr.load32 4)
        some (addr.copy 0 addr4 0 (min 16 addrlen), 16)
      else if peerAddr 0 = TAG_INET6 then
        let addr6 := locals.store16 0 AF_INET6
        let addr6 := addr6.store32 4 (joinHalves (peerAddr.load16 20) (peerAddr.load16 22))
        let addr6 := addr6.store32 24 (joinHalves (peerAddr.load16 24) (peerAddr.load16 26))
        let addr6 := addr6.store16 2 port
        let addr6 := addr6.copy 8 peerAddr 4 16
        some (addr.copy 0 addr6 0 (min 32 addrlen), 32)
      else if peerAddr 0 = TAG_UNIX then
        let addrun := locals.store16 0 AF_UNIX
        let addrun := addrun.copy 2 peerAddr 2 108
        let addrun := addrun.store8 109 0
        -- The structure is not copied to `addr`.
        some (addr, 2 + strlen addrun 2 108)
      else some (addr.store16 0 AF_UNSPEC, 16)

/-! There and back -/

/-- `out` and `outlen` say what `addr` and `addrlen` say. -/
def SameAddress (addr : ByteMemory) (addrlen : Nat) (out : ByteMemory) (outlen : Nat) : Prop :=
  out.load16 0 = addr.load16 0 ∧
  if addr.load16 0 = AF_INET then
    out.load16 2 = addr.load16 2 ∧ out.load32 4 = addr.load32 4 ∧ outlen = 16
  else if addr.load16 0 = AF_INET6 then
    out.load16 2 = addr.load16 2 ∧ out.load32 4 = addr.load32 4 ∧
      (∀ i < 16, out (8 + i) = addr (8 + i)) ∧ out.load32 24 = addr.load32 24 ∧ outlen = 32
  else (∀ i < addrlen - 2, out (2 + i) = addr (2 + i)) ∧ outlen = addrlen

/-- The length that the address of the host has in full. -/
def fullLength (peerAddr : ByteMemory) : Nat :=
  if peerAddr 0 = TAG_INET4 then 16
  else if peerAddr 0 = TAG_INET6 then 32
  else if peerAddr 0 = TAG_UNIX then 2 + strlen (peerAddr.store8 109 0) 2 108
  else 16

theorem findIdx_congr {α : Type} {p q : α → Bool} {l : List α} (h : ∀ a ∈ l, p a = q a) :
    l.findIdx p = l.findIdx q := by
  induction l with
  | nil => rfl
  | cons a l ih =>
      have hhead := h a List.mem_cons_self
      have htail := ih (fun b hb => h b (List.mem_cons_of_mem a hb))
      rw [List.findIdx_cons, List.findIdx_cons, hhead, htail]

theorem strlen_congr {m m' : ByteMemory} {o bound : Nat} (h : ∀ i < bound, m (o + i) = m' (o + i)) :
    strlen m o bound = strlen m' o bound := by
  apply findIdx_congr
  intro i hi
  rw [h i (List.mem_range.mp hi)]

theorem joinHalves_extract (x : BitVec 32) :
    joinHalves (x.extractLsb' 16 16) (x.extractLsb' 0 16) = x := by
  unfold joinHalves
  apply BitVec.eq_of_getLsbD_eq
  intro i hi
  simp only [BitVec.getLsbD_or, BitVec.getLsbD_shiftLeft, BitVec.getLsbD_setWidth,
    BitVec.getLsbD_extractLsb']
  by_cases hlow : i < 16
  · simp [hi, hlow]
  · have hback : 16 + (i - 16) = i := by omega
    have hupper : i - 16 < 16 := by omega
    have hword : i - 16 < 32 := by omega
    simp [hi, hlow, hback, hupper, hword]

/-! What an accepted address looks like to the host -/

section Accepted

variable {addr peerAddr host : ByteMemory} {addrlen : Nat}

theorem sockaddrToWasi_inet (h : sockaddrToWasi addr addrlen peerAddr = some host)
    (hfamily : addr.load16 0 = AF_INET) :
    host 0 = TAG_INET4 ∧ host.load16 2 = htons (addr.load16 2) ∧
      host.load32 4 = addr.load32 4 := by
  unfold sockaddrToWasi at h
  have hsix : ¬ (AF_INET = AF_INET6) := by decide
  have hunix : ¬ (AF_INET = AF_UNIX) := by decide
  by_cases hlen : 16 ≤ addrlen
  · simp only [hfamily, hlen, and_self, if_true, Option.some.injEq] at h
    subst h
    refine ⟨?_, ?_, ByteMemory.load32_store32 _ _ _⟩
    · rw [ByteMemory.store32_of_outside _ _ _ (by omega),
        ByteMemory.store16_of_outside _ _ _ (by omega), ByteMemory.store8_self]
    · rw [ByteMemory.load16_store32_frame _ (by omega), ByteMemory.load16_store16]
  · simp only [hfamily, hlen, hsix, hunix, and_false, false_and, if_false, reduceCtorEq] at h

theorem sockaddrToWasi_inet6 (h : sockaddrToWasi addr addrlen peerAddr = some host)
    (hfamily : addr.load16 0 = AF_INET6) :
    host 0 = TAG_INET6 ∧ host.load16 2 = htons (addr.load16 2) ∧
      joinHalves (host.load16 20) (host.load16 22) = addr.load32 4 ∧
        joinHalves (host.load16 24) (host.load16 26) = addr.load32 24 ∧
          ∀ i < 16, host (4 + i) = addr (8 + i) := by
  unfold sockaddrToWasi at h
  have hinet : ¬ (AF_INET6 = AF_INET) := by decide
  have hunix : ¬ (AF_INET6 = AF_UNIX) := by decide
  by_cases hlen : 32 ≤ addrlen
  · simp only [hfamily, hlen, hinet, false_and, if_false, and_self, if_true,
      Option.some.injEq] at h
    subst h
    refine ⟨?_, ?_, ?_, ?_, ?_⟩
    · simp (disch := omega) only [ByteMemory.copy_of_outside, ByteMemory.store16_of_outside,
        ByteMemory.store8_self]
    · simp (disch := omega) only [ByteMemory.load16_copy_frame, ByteMemory.load16_store16_frame,
        ByteMemory.load16_store16]
    · simp (disch := omega) only [ByteMemory.load16_copy_frame, ByteMemory.load16_store16_frame,
        ByteMemory.load16_store16, joinHalves_extract]
    · simp (disch := omega) only [ByteMemory.load16_copy_frame, ByteMemory.load16_store16_frame,
        ByteMemory.load16_store16, joinHalves_extract]
    · intro i hi
      rw [ByteMemory.copy_of_inside _ _ _ (by omega), Nat.add_sub_cancel_left]
  · simp only [hfamily, hlen, hinet, hunix, and_false, false_and, if_false, reduceCtorEq] at h

theorem sockaddrToWasi_unix (h : sockaddrToWasi addr addrlen peerAddr = some host)
    (hfamily : addr.load16 0 = AF_UNIX) : host 0 = TAG_UNIX := by
  unfold sockaddrToWasi at h
  have hinet : ¬ (AF_UNIX = AF_INET) := by decide
  have hsix : ¬ (AF_UNIX = AF_INET6) := by decide
  by_cases hlen : 3 ≤ addrlen
  · simp only [hfamily, hlen, hinet, hsix, false_and, if_false, and_self, if_true] at h
    split at h
    · cases h
    · cases h
      simp (disch := omega) only [ByteMemory.store8_of_ne, ByteMemory.copy_of_outside,
        ByteMemory.store8_self]
  · simp only [hfamily, hlen, hinet, hsix, and_false, false_and, if_false, reduceCtorEq] at h

theorem sockaddrToWasi_family (h : sockaddrToWasi addr addrlen peerAddr = some host) :
    addr.load16 0 = AF_INET ∨ addr.load16 0 = AF_INET6 ∨ addr.load16 0 = AF_UNIX := by
  by_cases hinet : addr.load16 0 = AF_INET
  · exact Or.inl hinet
  · by_cases hsix : addr.load16 0 = AF_INET6
    · exact Or.inr (Or.inl hsix)
    · by_cases hunix : addr.load16 0 = AF_UNIX
      · exact Or.inr (Or.inr hunix)
      · simp only [sockaddrToWasi, hinet, hsix, hunix, false_and, if_false, reduceCtorEq] at h

end Accepted

/-! What comes back -/

section Back

variable (needRevert : Bool) (locals buffer : ByteMemory) {host : ByteMemory} (len : Nat)

theorem fullLength_inet4 (htag : host 0 = TAG_INET4) : fullLength host = 16 := if_pos htag

theorem fullLength_inet6 (htag : host 0 = TAG_INET6) : fullLength host = 32 := by
  unfold fullLength
  rw [htag, if_neg (by decide), if_pos rfl]

theorem two_le_fullLength (host : ByteMemory) : 2 ≤ fullLength host := by
  unfold fullLength
  split
  · omega
  · split
    · omega
    · split <;> omega

theorem wasiToSockaddr_inet4 (htag : host 0 = TAG_INET4) (hlen : 16 ≤ len) :
    ∃ out, wasiToSockaddr true locals host (some buffer) len = some (out, 16) ∧
      out.load16 0 = AF_INET ∧ out.load16 2 = htons (host.load16 2) ∧
        out.load32 4 = host.load32 4 := by
  have hmin : min 16 len = 16 := Nat.min_eq_left hlen
  refine ⟨_, if_pos htag, ?_, ?_, ?_⟩
  · simp (disch := omega) only [hmin, ByteMemory.load16_copy, ByteMemory.load16_store32_frame,
      ByteMemory.load16_store16_frame, ByteMemory.load16_store16]
  · simp (disch := omega) only [hmin, ByteMemory.load16_copy, ByteMemory.load16_store32_frame,
      ByteMemory.load16_store16, if_true]
  · simp (disch := omega) only [hmin, ByteMemory.load32_copy, ByteMemory.load32_store32]

theorem wasiToSockaddr_inet6 (htag : host 0 = TAG_INET6) (hlen : 32 ≤ len) :
    ∃ out, wasiToSockaddr true locals host (some buffer) len = some (out, 32) ∧
      out.load16 0 = AF_INET6 ∧ out.load16 2 = htons (host.load16 2) ∧
        out.load32 4 = joinHalves (host.load16 20) (host.load16 22) ∧
          out.load32 24 = joinHalves (host.load16 24) (host.load16 26) ∧
            ∀ i < 16, out (8 + i) = host (4 + i) := by
  have hinet : ¬ (host 0 = TAG_INET4) := by rw [htag]; decide
  have hmin : min 32 len = 32 := Nat.min_eq_left hlen
  refine ⟨_, (if_neg hinet).trans (if_pos htag), ?_, ?_, ?_, ?_, ?_⟩
  · simp (disch := omega) only [hmin, ByteMemory.load16_copy, ByteMemory.load16_copy_frame,
      ByteMemory.load16_store16_frame, ByteMemory.load16_store32_frame, ByteMemory.load16_store16]
  · simp (disch := omega) only [hmin, ByteMemory.load16_copy, ByteMemory.load16_copy_frame,
      ByteMemory.load16_store16, if_true]
  · simp (disch := omega) only [hmin, ByteMemory.load32_copy, ByteMemory.load32_copy_frame,
      ByteMemory.load32_store16_frame, ByteMemory.load32_store32_frame, ByteMemory.load32_store32]
  · simp (disch := omega) only [hmin, ByteMemory.load32_copy, ByteMemory.load32_copy_frame,
      ByteMemory.load32_store16_frame, ByteMemory.load32_store32]
  · intro i hi
    rw [hmin, ByteMemory.copy_of_inside _ _ _ (by omega), Nat.zero_add, Nat.sub_zero,
      ByteMemory.copy_of_inside _ _ _ (by omega), Nat.add_sub_cancel_left]

/-- The cleared buffer is all that a program sees of a path. -/
theorem wasiToSockaddr_unix (htag : host 0 = TAG_UNIX) :
    wasiToSockaddr needRevert locals host (some buffer) len =
      some (buffer.fill 0 len 0, fullLength host) := by
  have hlength : strlen (((locals.store16 0 AF_UNIX).copy 2 host 2 108).store8 109 0) 2 108 =
      strlen (host.store8 109 0) 2 108 := by
    apply strlen_congr
    intro i hi
    unfold ByteMemory.store8
    split
    · rfl
    · rw [ByteMemory.copy_of_inside _ _ _ (by omega), Nat.add_sub_cancel_left]
  have hinet : ¬ (TAG_UNIX = TAG_INET4) := by decide
  have hsix : ¬ (TAG_UNIX = TAG_INET6) := by decide
  simp only [wasiToSockaddr, fullLength, htag, hinet, hsix, hlength, if_false, if_true]

theorem load16_fill (hlen : 2 ≤ len) : (buffer.fill 0 len 0).load16 0 = 0 := by
  unfold ByteMemory.load16
  rw [ByteMemory.fill_of_inside _ _ _ (by omega), ByteMemory.fill_of_inside _ _ _ (by omega)]
  rfl

end Back

theorem sameAddress_inet {addr out : ByteMemory} {addrlen outlen : Nat}
    (hfamily : addr.load16 0 = AF_INET) :
    SameAddress addr addrlen out outlen ↔
      out.load16 0 = AF_INET ∧ out.load16 2 = addr.load16 2 ∧
        out.load32 4 = addr.load32 4 ∧ outlen = 16 := by
  unfold SameAddress
  rw [hfamily, if_pos rfl]

theorem sameAddress_inet6 {addr out : ByteMemory} {addrlen outlen : Nat}
    (hfamily : addr.load16 0 = AF_INET6) :
    SameAddress addr addrlen out outlen ↔
      out.load16 0 = AF_INET6 ∧ out.load16 2 = addr.load16 2 ∧ out.load32 4 = addr.load32 4 ∧
        (∀ i < 16, out (8 + i) = addr (8 + i)) ∧ out.load32 24 = addr.load32 24 ∧
          outlen = 32 := by
  unfold SameAddress
  rw [hfamily, if_neg (by decide), if_pos rfl]

/-- An address goes to the host and comes back, unless it is a path. -/
theorem roundTrip {addr peerAddr host : ByteMemory} {addrlen len : Nat}
    (locals buffer : ByteMemory) (h : sockaddrToWasi addr addrlen peerAddr = some host)
    (hlen : fullLength host ≤ len) :
    ∃ out, wasiToSockaddr true locals host (some buffer) len = some (out, fullLength host) ∧
      (SameAddress addr addrlen out (fullLength host) ↔ addr.load16 0 ≠ AF_UNIX) := by
  rcases sockaddrToWasi_family h with hfamily | hfamily | hfamily
  · obtain ⟨htag, hport, haddr⟩ := sockaddrToWasi_inet h hfamily
    have hfull := fullLength_inet4 htag
    obtain ⟨out, hout, hfamilyBack, hportBack, haddrBack⟩ :=
      wasiToSockaddr_inet4 locals buffer len htag (hfull ▸ hlen)
    rw [hfull]
    refine ⟨out, hout, iff_of_true ?_ (by rw [hfamily]; decide)⟩
    rw [sameAddress_inet hfamily]
    refine ⟨hfamilyBack, ?_, haddrBack.trans haddr, rfl⟩
    rw [hportBack, hport, htons_htons]
  · obtain ⟨htag, hport, hflow, hscope, haddr⟩ := sockaddrToWasi_inet6 h hfamily
    have hfull := fullLength_inet6 htag
    obtain ⟨out, hout, hfamilyBack, hportBack, hflowBack, hscopeBack, haddrBack⟩ :=
      wasiToSockaddr_inet6 locals buffer len htag (hfull ▸ hlen)
    rw [hfull]
    refine ⟨out, hout, iff_of_true ?_ (by rw [hfamily]; decide)⟩
    rw [sameAddress_inet6 hfamily]
    refine ⟨hfamilyBack, ?_, hflowBack.trans hflow, ?_, hscopeBack.trans hscope, rfl⟩
    · rw [hportBack, hport, htons_htons]
    · intro i hi
      exact (haddrBack i hi).trans (haddr i hi)
  · have htag := sockaddrToWasi_unix h hfamily
    refine ⟨_, wasiToSockaddr_unix true locals buffer len htag, iff_of_false ?_ ?_⟩
    · intro hsame
      have hback := hsame.1
      rw [load16_fill buffer len (Nat.le_trans (two_le_fullLength host) hlen), hfamily] at hback
      exact absurd hback (by decide)
    · exact fun hne => hne hfamily

/-! Buffers of any length -/

/-- No byte from `len` on is written, whatever is there. -/
def WritesWithin (needRevert : Bool) (locals host : ByteMemory) (len : Nat) : Prop :=
  ∀ buffer, ∃ out,
    wasiToSockaddr needRevert locals host (some buffer) len = some (out, fullLength host) ∧
      ∀ i, len ≤ i → out i = buffer i

def KnownTag (host : ByteMemory) : Prop :=
  host 0 = TAG_INET4 ∨ host 0 = TAG_INET6 ∨ host 0 = TAG_UNIX

section Length

variable (needRevert : Bool) (locals buffer host : ByteMemory) (len : Nat)

theorem fill_copy_beyond (src : ByteMemory) (n : Nat) {i : Nat} (hi : len ≤ i) :
    ((buffer.fill 0 len 0).copy 0 src 0 (min n len)) i = buffer i := by
  rw [ByteMemory.copy_of_outside _ _ _ (by omega), ByteMemory.fill_of_outside _ _ _ (by omega)]

theorem wasiToSockaddr_unknown (htag : ¬ KnownTag host) :
    wasiToSockaddr needRevert locals host (some buffer) len =
      some ((buffer.fill 0 len 0).store16 0 AF_UNSPEC, fullLength host) := by
  unfold KnownTag at htag
  simp only [not_or] at htag
  obtain ⟨hinet, hsix, hunix⟩ := htag
  simp only [wasiToSockaddr, fullLength, hinet, hsix, hunix, if_false]

theorem writesWithin_of_known (htag : KnownTag host) :
    WritesWithin needRevert locals host len := by
  intro buffer
  rcases htag with hinet | hsix | hunix
  · rw [fullLength_inet4 hinet]
    exact ⟨_, if_pos hinet, fun i hi => fill_copy_beyond buffer len _ 16 hi⟩
  · have hinet : ¬ (host 0 = TAG_INET4) := by rw [hsix]; decide
    rw [fullLength_inet6 hsix]
    exact ⟨_, (if_neg hinet).trans (if_pos hsix), fun i hi => fill_copy_beyond buffer len _ 32 hi⟩
  · refine ⟨_, wasiToSockaddr_unix needRevert locals buffer len hunix, fun i hi => ?_⟩
    exact ByteMemory.fill_of_outside _ _ _ (by omega)

/-- The family of an address that has none is written without a look at the
length. -/
theorem writesWithin_iff :
    WritesWithin needRevert locals host len ↔ KnownTag host ∨ 2 ≤ len := by
  constructor
  · intro h
    by_cases htag : KnownTag host
    · exact Or.inl htag
    · right
      obtain ⟨out, hout, hbeyond⟩ := h (fun _ => 1)
      rw [wasiToSockaddr_unknown needRevert locals _ host len htag] at hout
      cases hout
      by_cases hlen : 2 ≤ len
      · exact hlen
      · have hbyte := hbeyond 1 (by omega)
        have hwritten : ((ByteMemory.fill (fun _ => 1) 0 len 0).store16 0 AF_UNSPEC) 1 = 0 := rfl
        rw [hwritten] at hbyte
        exact absurd hbyte (by decide)
  · rintro (htag | hlen)
    · exact writesWithin_of_known needRevert locals host len htag
    · intro buffer
      by_cases htag : KnownTag host
      · exact writesWithin_of_known needRevert locals host len htag buffer
      · refine ⟨_, wasiToSockaddr_unknown needRevert locals buffer host len htag, fun i hi => ?_⟩
        rw [ByteMemory.store16_of_outside _ _ _ (by omega),
          ByteMemory.fill_of_outside _ _ _ (by omega)]

end Length

/-- Either direction at once: there and back, and any answer of
the host in a buffer of any length. -/
theorem addresses_iff {addr peerAddr host : ByteMemory} {addrlen len : Nat}
    (locals buffer : ByteMemory) (h : sockaddrToWasi addr addrlen peerAddr = some host)
    (hlen : fullLength host ≤ len) :
    (∃ out, wasiToSockaddr true locals host (some buffer) len = some (out, fullLength host) ∧
      (SameAddress addr addrlen out (fullLength host) ↔ addr.load16 0 ≠ AF_UNIX)) ∧
    ∀ (needRevert : Bool) (answer : ByteMemory) (given : Nat),
      WritesWithin needRevert locals answer given ↔ KnownTag answer ∨ 2 ≤ given :=
  ⟨roundTrip locals buffer h hlen, fun needRevert answer given =>
    writesWithin_iff needRevert locals answer given⟩

namespace SocketWitness

/-- Port 80 of 127.0.0.1. -/
def local80 : ByteMemory :=
  fun i => [1, 0, 0, 80, 127, 0, 0, 1].getD i 0

/-- It comes back from the host. -/
theorem local80_back :
    ∃ out, wasiToSockaddr true (fun _ => 7) ((sockaddrToWasi local80 16 (fun _ => 9)).getD local80)
        (some (fun _ => 5)) 16 = some (out, 16) ∧ SameAddress local80 16 out 16 := by
  obtain ⟨⟨out, hout, hsame⟩, -⟩ :=
    @addresses_iff local80 (fun _ => 9) _ 16 16 (fun _ => 7) (fun _ => 5) rfl (by decide)
  exact ⟨out, hout, hsame.mpr (by decide)⟩

/-- The path `/s`. -/
def path : ByteMemory :=
  fun i => [3, 0, 47, 115].getD i 0

/-- Of a path nothing comes back, and not even its family. -/
theorem path_lost :
    ¬ ∀ (addr peerAddr host locals buffer : ByteMemory) (addrlen len : Nat),
      sockaddrToWasi addr addrlen peerAddr = some host → fullLength host ≤ len →
        ∃ out, wasiToSockaddr true locals host (some buffer) len = some (out, fullLength host) ∧
          SameAddress addr addrlen out (fullLength host) := by
  intro h
  obtain ⟨out, hout, hsame⟩ := h path (fun _ => 0) _ (fun _ => 0) (fun _ => 0) 4 112 rfl (by decide)
  rw [wasiToSockaddr_unix true _ _ _ rfl] at hout
  cases hout
  exact absurd hsame.1 (by decide)

end SocketWitness

end SocketAddress

end WasixLibc
