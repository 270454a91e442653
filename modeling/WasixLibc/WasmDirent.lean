/-
Directories whose entries may be anything that fits in their encoding.

A name may be empty, or have bytes in it that end a string, and its length is
any number of 32 bits.
-/
import WasixLibc.DirentHost

namespace WasixLibc

namespace Dirent

structure RawEntry where
  header : Header
  padding : BitVec 24
  name : Name
  length_name : name.length = header.dNamlen.toNat

namespace RawEntry

def encode (e : RawEntry) : List UInt8 := e.header.toBytes e.padding ++ e.name

/-- The bytes an entry takes. -/
def size (e : RawEntry) : Nat := HEADER_SIZE + e.name.length

theorem length_encode (e : RawEntry) : e.encode.length = e.size := by
  rw [encode, List.length_append, e.header.length_toBytes, size]

theorem header_le_size (e : RawEntry) : HEADER_SIZE ≤ e.size := Nat.le_add_right _ _

theorem take_encode (e : RawEntry) : e.encode.take HEADER_SIZE = e.header.toBytes e.padding := by
  rw [encode, ← e.header.length_toBytes e.padding, List.take_left]

theorem size_eq (e : RawEntry) : HEADER_SIZE + e.header.dNamlen.toNat = e.size := by
  rw [size, e.length_name]

end RawEntry

/-- The bytes the entries of a list take. -/
def total (entries : List RawEntry) : Nat := (entries.map RawEntry.size).sum

@[simp] theorem total_nil : total [] = 0 := rfl

@[simp] theorem total_cons (e : RawEntry) (entries : List RawEntry) :
    total (e :: entries) = e.size + total entries := by
  rw [total, List.map_cons, List.sum_cons, total]

@[simp] theorem total_append (entries more : List RawEntry) :
    total (entries ++ more) = total entries + total more := by
  rw [total, List.map_append, List.sum_append, total, total]

theorem length_flatMap_encode (entries : List RawEntry) :
    (entries.flatMap RawEntry.encode).length = total entries := by
  induction entries with
  | nil => rfl
  | cons e entries ih => rw [List.flatMap_cons, List.length_append, e.length_encode, ih, total_cons]

theorem size_le_total {e : RawEntry} {entries : List RawEntry} (h : e ∈ entries) :
    e.size ≤ total entries := by
  obtain ⟨before, more, rfl⟩ := List.append_of_mem h
  rw [total_append, total_cons]
  omega

/-- The entries of a directory; the cookie behind each of them is its own. -/
structure RawListing where
  entries : List RawEntry
  next_nodup : (entries.map (·.header.dNext)).Nodup
  next_ne_start : ∀ e ∈ entries, e.header.dNext ≠ DIRCOOKIE_START

namespace RawListing

/-- The entries after a cookie. -/
def after (listing : RawListing) (cookie : BitVec 64) : List RawEntry :=
  if cookie = DIRCOOKIE_START then listing.entries
  else (listing.entries.dropWhile (·.header.dNext != cookie)).tail

/-- What a call to the host's `fd_readdir` puts in a buffer of a given size. -/
def read (listing : RawListing) (cookie : BitVec 64) (size : Nat) : List UInt8 :=
  ((listing.after cookie).flatMap RawEntry.encode).take size

theorem after_start (listing : RawListing) : listing.after DIRCOOKIE_START = listing.entries :=
  if_pos rfl

theorem after_suffix (listing : RawListing) (cookie : BitVec 64) :
    listing.after cookie <:+ listing.entries := by
  unfold after
  split
  · exact List.suffix_rfl
  · exact (List.tail_suffix _).trans (List.dropWhile_suffix _)

theorem after_dNext {listing : RawListing} {cookie : BitVec 64} {before more : List RawEntry}
    {e : RawEntry} (h : listing.after cookie = before ++ e :: more) :
    listing.after e.header.dNext = more := by
  obtain ⟨first, hentries⟩ := listing.after_suffix cookie
  rw [h, ← List.append_assoc] at hentries
  have hmem : e ∈ listing.entries := by
    rw [← hentries]
    exact List.mem_append_right _ List.mem_cons_self
  have hfirst : ∀ x ∈ first ++ before, (x.header.dNext != e.header.dNext) = true := by
    intro x hx
    have hnodup := listing.next_nodup
    rw [← hentries, List.map_append, List.nodup_append] at hnodup
    have hne := hnodup.2.2 x.header.dNext (List.mem_map_of_mem hx) e.header.dNext (by simp)
    simpa using hne
  unfold after
  rw [if_neg (listing.next_ne_start e hmem), ← hentries, List.dropWhile_append_of_pos hfirst,
    List.dropWhile_cons_of_neg (by simp), List.tail_cons]

theorem length_read (listing : RawListing) (cookie : BitVec 64) (size : Nat) :
    (listing.read cookie size).length = min size (total (listing.after cookie)) := by
  rw [read, List.length_take, length_flatMap_encode]

end RawListing

/-- The directory, the answer of `fstatat` for each name, and which calls to
the allocator and to `fd_readdir` fail. -/
structure RawEnv where
  listing : RawListing
  stat : Name → Except Errno (BitVec 64 × BitVec 32)
  alloc : Nat → Bool
  hostError : Nat → Option Errno

/-- Nothing fails but lookups. -/
def RawListing.served (listing : RawListing)
    (stat : Name → Except Errno (BitVec 64 × BitVec 32)) : RawEnv where
  listing := listing
  stat := stat
  alloc := fun _ => true
  hostError := fun _ => none

/-! Entries that name something, among all that fit in their encoding -/

def Entry.raw (e : Entry) : RawEntry where
  header := e.header
  padding := e.padding
  name := e.name
  length_name := e.toNat_dNamlen.symm

theorem Entry.encode_raw (e : Entry) : e.raw.encode = e.encode :=
  congrArg (· ++ e.name) e.headerBytes_eq.symm

theorem Entry.size_raw (e : Entry) : e.raw.size = e.encode.length := by
  rw [← e.raw.length_encode, e.encode_raw]

def Listing.raw (listing : Listing) : RawListing where
  entries := listing.entries.map Entry.raw
  next_nodup := by
    rw [List.map_map]
    exact listing.next_nodup
  next_ne_start := by
    intro x hx
    obtain ⟨e, he, rfl⟩ := List.mem_map.mp hx
    exact listing.next_ne_start e he

theorem Listing.after_raw (listing : Listing) (cookie : BitVec 64) :
    listing.raw.after cookie = (listing.after cookie).map Entry.raw := by
  unfold RawListing.after Listing.after
  split
  · rfl
  · rw [List.map_tail]
    congr 1
    exact List.dropWhile_map

end Dirent

end WasixLibc
