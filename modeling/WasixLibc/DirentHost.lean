/-
What the host tells about a directory.

A directory is read from a cookie on, as the bytes of the encoded entries cut
off at the size of the buffer.  An entry may leave its inode number unknown, in
which case the file is looked up by its name.
-/
import WasixLibc.LittleEndian
import WasixLibc.RecordStream

namespace WasixLibc

namespace Dirent

abbrev NUL : UInt8 := 0
abbrev DOT : UInt8 := 46

abbrev Name := List UInt8

/-- `__WASI_DIRCOOKIE_START` -/
abbrev DIRCOOKIE_START : BitVec 64 := 0

/-- `DIRENT_DEFAULT_BUFFER_SIZE` -/
abbrev DEFAULT_BUFFER_SIZE : Nat := 4096

/-- `sizeof(__wasi_dirent_t)` -/
abbrev HEADER_SIZE : Nat := 24

inductive Errno where
  | enoent
  | enomem
  | host (code : Nat)
deriving Repr, DecidableEq

/-- An entry of the listing of the host. -/
structure Entry where
  dNext : BitVec 64
  dIno : BitVec 64
  dType : BitVec 8
  name : Name
  padding : BitVec 24
  name_ne_nil : name ≠ []
  nul_not_mem : NUL ∉ name
  length_lt : name.length < 4294967296

/-- `__wasi_dirent_t` -/
structure Header where
  dNext : BitVec 64
  dIno : BitVec 64
  dNamlen : BitVec 32
  dType : BitVec 8
deriving Repr, DecidableEq

/-- A header in memory, padded to its alignment. -/
def Header.toBytes (h : Header) (padding : BitVec 24) : List UInt8 :=
  LittleEndian.toBytes 8 h.dNext.toNat ++ (LittleEndian.toBytes 8 h.dIno.toNat ++
    (LittleEndian.toBytes 4 h.dNamlen.toNat ++ (LittleEndian.toBytes 1 h.dType.toNat ++
      LittleEndian.toBytes 3 padding.toNat)))

def Entry.header (e : Entry) : Header where
  dNext := e.dNext
  dIno := e.dIno
  dNamlen := BitVec.ofNat 32 e.name.length
  dType := e.dType

/-- The header of an entry in memory, padded to its alignment. -/
def Entry.headerBytes (e : Entry) : List UInt8 :=
  LittleEndian.toBytes 8 e.dNext.toNat ++ (LittleEndian.toBytes 8 e.dIno.toNat ++
    (LittleEndian.toBytes 4 e.name.length ++ (LittleEndian.toBytes 1 e.dType.toNat ++
      LittleEndian.toBytes 3 e.padding.toNat)))

def Entry.encode (e : Entry) : List UInt8 := e.headerBytes ++ e.name

/-- The header at the front of a piece of memory. -/
def readHeader (memory : List UInt8) : Header where
  dNext := BitVec.ofNat 64 (LittleEndian.ofBytes (memory.take 8))
  dIno := BitVec.ofNat 64 (LittleEndian.ofBytes ((memory.drop 8).take 8))
  dNamlen := BitVec.ofNat 32 (LittleEndian.ofBytes ((memory.drop 16).take 4))
  dType := BitVec.ofNat 8 (LittleEndian.ofBytes ((memory.drop 20).take 1))

theorem Header.length_toBytes (h : Header) (padding : BitVec 24) :
    (h.toBytes padding).length = HEADER_SIZE := by simp [Header.toBytes]

/-- The four fields come back. -/
theorem readHeader_toBytes (h : Header) (padding : BitVec 24) :
    readHeader (h.toBytes padding) = h := by
  have hnext : LittleEndian.ofBytes (LittleEndian.toBytes 8 h.dNext.toNat) = h.dNext.toNat :=
    LittleEndian.ofBytes_toBytes h.dNext.isLt
  have hino : LittleEndian.ofBytes (LittleEndian.toBytes 8 h.dIno.toNat) = h.dIno.toNat :=
    LittleEndian.ofBytes_toBytes h.dIno.isLt
  have hnamlen : LittleEndian.ofBytes (LittleEndian.toBytes 4 h.dNamlen.toNat) =
      h.dNamlen.toNat := LittleEndian.ofBytes_toBytes h.dNamlen.isLt
  have htype : LittleEndian.ofBytes (LittleEndian.toBytes 1 h.dType.toNat) = h.dType.toNat :=
    LittleEndian.ofBytes_toBytes h.dType.isLt
  unfold readHeader Header.toBytes
  simp [List.drop_append, List.drop_eq_nil_of_le, hnext, hino, hnamlen, htype]

/-- The length of a name fits in its field. -/
theorem Entry.headerBytes_eq (e : Entry) : e.headerBytes = e.header.toBytes e.padding := by
  unfold Entry.headerBytes Entry.header Header.toBytes
  rw [BitVec.toNat_ofNat, Nat.mod_eq_of_lt e.length_lt]

theorem Entry.length_headerBytes (e : Entry) : e.headerBytes.length = HEADER_SIZE := by
  rw [e.headerBytes_eq, Header.length_toBytes]

theorem Entry.length_encode (e : Entry) : e.encode.length = HEADER_SIZE + e.name.length := by
  rw [Entry.encode, List.length_append, e.length_headerBytes]

theorem Entry.toNat_dNamlen (e : Entry) : e.header.dNamlen.toNat = e.name.length := by
  have hlength := e.length_lt
  unfold Entry.header
  rw [BitVec.toNat_ofNat]
  exact Nat.mod_eq_of_lt hlength

theorem Entry.dNamlen_ne_zero (e : Entry) : e.header.dNamlen ≠ 0 := by
  intro hzero
  have hlength := e.toNat_dNamlen
  rw [hzero] at hlength
  exact e.name_ne_nil (List.length_eq_zero_iff.mp hlength.symm)

theorem readHeader_headerBytes (e : Entry) : readHeader e.headerBytes = e.header := by
  rw [e.headerBytes_eq, readHeader_toBytes]

theorem Entry.take_encode (e : Entry) : e.encode.take HEADER_SIZE = e.headerBytes := by
  rw [Entry.encode, ← e.length_headerBytes, List.take_left]

/-! The host -/

/-- The entries of a directory; the cookie behind each of them is its own. -/
structure Listing where
  entries : List Entry
  next_nodup : (entries.map Entry.dNext).Nodup
  next_ne_start : ∀ e ∈ entries, e.dNext ≠ DIRCOOKIE_START

/-- The entries after a cookie. -/
def Listing.after (listing : Listing) (cookie : BitVec 64) : List Entry :=
  if cookie = DIRCOOKIE_START then listing.entries
  else (listing.entries.dropWhile (·.dNext != cookie)).tail

theorem Listing.after_start (listing : Listing) :
    listing.after DIRCOOKIE_START = listing.entries := if_pos rfl

theorem Listing.after_suffix (listing : Listing) (cookie : BitVec 64) :
    listing.after cookie <:+ listing.entries := by
  unfold Listing.after
  split
  · exact List.suffix_rfl
  · exact (List.tail_suffix _).trans (List.dropWhile_suffix _)

theorem Listing.after_dNext {listing : Listing} {cookie : BitVec 64} {e : Entry}
    {rest : List Entry} (h : listing.after cookie = e :: rest) : listing.after e.dNext = rest := by
  obtain ⟨before, hentries⟩ := listing.after_suffix cookie
  rw [h] at hentries
  have hmem : e ∈ listing.entries := by
    rw [← hentries]
    exact List.mem_append_right _ List.mem_cons_self
  have hbefore : ∀ x ∈ before, (x.dNext != e.dNext) = true := by
    intro x hx
    have hnodup := listing.next_nodup
    rw [← hentries, List.map_append, List.nodup_append] at hnodup
    have hne := hnodup.2.2 x.dNext (List.mem_map_of_mem hx) e.dNext (by simp)
    simpa using hne
  unfold Listing.after
  rw [if_neg (listing.next_ne_start e hmem), ← hentries, List.dropWhile_append_of_pos hbefore,
    List.dropWhile_cons_of_neg (by simp), List.tail_cons]

/-- What a call to the host's `fd_readdir` puts in a buffer of a given size. -/
def fdReaddir (listing : Listing) (cookie : BitVec 64) (size : Nat) : List UInt8 :=
  ((listing.after cookie).flatMap Entry.encode).take size

/-- The directory, the answer of `fstatat` for each name, and which calls to
the allocator and to `fd_readdir` fail. -/
structure Env where
  listing : Listing
  stat : Name → Except Errno (BitVec 64 × BitVec 32)
  alloc : Nat → Bool
  hostError : Nat → Option Errno

/-- Nothing fails but lookups. -/
def served (listing : Listing) (stat : Name → Except Errno (BitVec 64 × BitVec 32)) : Env where
  listing := listing
  stat := stat
  alloc := fun _ => true
  hostError := fun _ => none

end Dirent

end WasixLibc
