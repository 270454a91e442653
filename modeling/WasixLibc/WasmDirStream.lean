/-
A directory stream over its life, with a 32-bit `size_t`.

Calls to `readdir` that end, `rewinddir` and `seekdir` to any place leave the
stream standing in the listing, so that each call tells from the listing, the
cookie and the size of the buffer whether it ends, and from the first two what
it returns.
-/
import WasixLibc.WasmReaddirEnds

namespace WasixLibc

namespace Dirent

namespace Wasm32

inductive Op where
  | readdir
  | rewinddir
  | seekdir (loc : BitVec 32)
deriving Repr, DecidableEq

/-- A call that comes back. -/
def Step (env : RawEnv) (dirp : Dir) : Op → Dir → Prop
  | .readdir, dirp' => ∃ result, Round.Returns (round env) dirp (.returned result, dirp')
  | .rewinddir, dirp' => dirp' = rewinddir dirp
  | .seekdir loc, dirp' => dirp' = seekdir dirp loc

/-- The stream after some calls. -/
def Reached (env : RawEnv) (ops : List Op) (dirp : Dir) : Prop :=
  ∃ opened, fdopendir env = .ok opened ∧ Run (Step env) opened ops dirp

/-- The stream stands in the listing. -/
def Placed (listing : RawListing) (stat : Name → Except Errno (BitVec 64 × BitVec 32))
    (dirp : Dir) : Prop := ∃ passed rest, Stands listing stat dirp passed rest

/-- The place behind the first entry that is not skipped. -/
def landing (stat : Name → Except Errno (BitVec 64 × BitVec 32)) (cookie : BitVec 64) :
    List RawEntry → BitVec 64
  | [] => cookie
  | e :: rest =>
      match answer stat e with
      | none => landing stat cookie rest
      | some (.error _) => cookie
      | some (.ok _) => e.header.dNext

section Stream

variable {listing : RawListing} {stat : Name → Except Errno (BitVec 64 × BitVec 32)}
variable {dirp dirp' : Dir} {all passed rest : List RawEntry}

/-- What a call that ends returns, and where it leaves the stream. -/
theorem Stands.returns {result : Except Errno (Option DirentObject)}
    (h : Stands listing stat dirp passed rest)
    (hreturns : Round.Returns (round (listing.served stat)) dirp (.returned result, dirp')) :
    result = shown stat (passed ++ rest) ∧ Placed listing stat dirp' ∧
      dirp.bufferSize ≤ dirp'.bufferSize := by
  induction hreturns using Round.Returns.induction generalizing passed rest with
  | @done dirp hround =>
      have hgoes := h.goes
      rw [hround] at hgoes
      cases hgoes with
      | runsOut =>
          rw [shown_append h.skipped]
          exact ⟨rfl, ⟨passed, [], h⟩, Nat.le_refl _⟩
      | shows hanswer _ hstands hsize =>
          rw [shown_append h.skipped, shown, hanswer]
          exact ⟨rfl, ⟨_, _, hstands⟩, Nat.le_of_eq hsize.symm⟩
  | @again dirp next hround _ ih =>
      have hgoes := h.goes
      rw [hround] at hgoes
      cases hgoes with
      | refills hfresh hsize =>
          have hnext := ih hfresh.toStands
          rw [hsize] at hnext
          exact hnext
      | skips hanswer hwhole hstands hsize =>
          rw [← hsize, List.append_cons]
          exact ih hstands
      | grows hheader hlarge hlimit hfresh hsize =>
          have hgrown := Nat.le_pow_clog (by decide : 1 < 2)
          obtain ⟨hresult, hplaced, hle⟩ := ih hfresh.toStands
          rw [hsize] at hle
          exact ⟨hresult, hplaced, Nat.le_trans (Nat.le_of_lt hlarge) (Nat.le_trans (hgrown _) hle)⟩

theorem landing_append (hpassed : ∀ e ∈ passed, answer stat e = none) (cookie : BitVec 64)
    (rest : List RawEntry) : landing stat cookie (passed ++ rest) = landing stat cookie rest := by
  induction passed with
  | nil => rfl
  | cons e passed ih =>
      rw [List.cons_append, landing, hpassed e List.mem_cons_self]
      exact ih fun x hx => hpassed x (List.mem_cons_of_mem e hx)

theorem Stands.returns_cookie {result : Except Errno (Option DirentObject)}
    (h : Stands listing stat dirp passed rest)
    (hreturns : Round.Returns (round (listing.served stat)) dirp (.returned result, dirp')) :
    dirp'.cookie = landing stat dirp.cookie (passed ++ rest) := by
  induction hreturns using Round.Returns.induction generalizing passed rest with
  | @done dirp hround =>
      have hgoes := h.goes
      rw [hround] at hgoes
      rw [landing_append h.skipped]
      cases hgoes with
      | runsOut => rfl
      | @shows _ _ _ _ _ shown hanswer _ _ _ hcookie =>
          rw [landing, hanswer, hcookie]
          cases shown <;> rfl
  | @again dirp next hround _ ih =>
      have hgoes := h.goes
      rw [hround] at hgoes
      cases hgoes with
      | refills hfresh _ hcookie =>
          have hnext := ih hfresh.toStands
          rw [hcookie] at hnext
          exact hnext
      | skips _ _ hstands _ hcookie =>
          rw [List.append_cons, ← hcookie]
          exact ih hstands
      | grows _ _ _ hfresh _ hcookie =>
          have hnext := ih hfresh.toStands
          rw [hcookie] at hnext
          exact hnext

/-- Everything is marked as processed, so that the host is asked next. -/
theorem Based.exhaust (h : Based listing dirp all) (cookie : BitVec 64) :
    Stands listing stat { dirp with
      cookie := cookie
      bufferUsed := dirp.bufferSize
      bufferProcessed := dirp.bufferSize } [] (listing.after cookie) := by
  refine ⟨⟨rfl, h.length, h.bufferSize, h.header_lt, h.direntSize⟩, ?_, Nat.zero_le _,
    Nat.le_refl _, Nat.le_refl _, ?_⟩
  · simp
  · have hunread : ((dirp.buffer.take dirp.bufferSize).drop dirp.bufferSize) = [] := by
      rw [List.drop_eq_nil_iff, List.length_take]
      exact Nat.min_le_left _ _
    simp only [Cursor.unread, hunread]
    exact Window.of_full trivial

theorem Placed.based (h : Placed listing stat dirp) : ∃ all, Based listing dirp all := by
  obtain ⟨passed, rest, hstands⟩ := h
  exact ⟨_, hstands.toBased⟩

/-- What a step preserves. -/
theorem Placed.step {op : Op} (h : Placed listing stat dirp)
    (hstep : Step (listing.served stat) dirp op dirp') : Placed listing stat dirp' := by
  obtain ⟨all, hbased⟩ := h.based
  cases op with
  | readdir =>
      obtain ⟨result, hreturns⟩ := hstep
      obtain ⟨passed, rest, hstands⟩ := h
      exact (hstands.returns hreturns).2.1
  | rewinddir =>
      cases hstep
      exact ⟨_, _, hbased.exhaust DIRCOOKIE_START⟩
  | seekdir loc =>
      cases hstep
      exact ⟨_, _, hbased.exhaust (loc.setWidth 64)⟩

/-- A stream that was opened stands in front of the listing. -/
theorem fresh_of_fdopendir {opened : Dir} (hopen : fdopendir (listing.served stat) = .ok opened) :
    Fresh listing stat opened listing.entries := by
  have hbased : Based listing
      { cookie := DIRCOOKIE_START
        buffer := List.replicate DEFAULT_BUFFER_SIZE 0
        bufferProcessed := 0
        bufferSize := DEFAULT_BUFFER_SIZE
        bufferUsed := 0
        direntSize := 1
        allocs := 2
        reads := 0 } listing.entries :=
    ⟨listing.after_start, List.length_replicate, ⟨12, by decide, rfl⟩, by decide,
      ⟨0, by decide, rfl⟩⟩
  obtain ⟨dirp, hread, hfresh, -⟩ := hbased.readEntries stat
  have hopened : dirp = opened := by
    unfold readEntries at hread
    simp only [Cursor.fill, RawListing.served, List.drop_replicate] at hread
    cases hread
    cases hopen
    rfl
  exact hopened ▸ hfresh

variable (listing stat) in
theorem fdopendir_served : ∃ opened, fdopendir (listing.served stat) = .ok opened ∧
    Fresh listing stat opened listing.entries ∧ opened.cookie = DIRCOOKIE_START ∧
    opened.bufferSize = DEFAULT_BUFFER_SIZE :=
  ⟨_, rfl, fresh_of_fdopendir rfl, rfl, rfl⟩

theorem Reached.placed {ops : List Op} (h : Reached (listing.served stat) ops dirp) :
    Placed listing stat dirp := by
  obtain ⟨opened, hopen, hrun⟩ := h
  apply hrun.preserves (fun hplaced hstep => hplaced.step hstep)
  exact ⟨_, _, (fresh_of_fdopendir hopen).toStands⟩

theorem Placed.ends_iff (h : Placed listing stat dirp) :
    Ends (listing.served stat) dirp ↔
      Passes stat (listing.after dirp.cookie) dirp.bufferSize := by
  obtain ⟨passed, rest, hstands⟩ := h
  exact hstands.ends_iff

/-- Wherever a stream has come to, the next call ends, with no size wrapping
round, exactly if the buffer is enough to get past the skipped entries. -/
theorem readdir_ends_iff {ops : List Op} (h : Reached (listing.served stat) ops dirp) :
    Ends (listing.served stat) dirp ↔
      Passes stat (listing.after dirp.cookie) dirp.bufferSize := h.placed.ends_iff

end Stream

namespace EndsWitness

def stat (_ : Name) : Except Errno (BitVec 64 × BitVec 32) := .error .enoent

/-- An entry with an inode number and a name of one letter many times over. -/
def repeated (length : Nat) (letter : UInt8) (hlength : length < 4294967296) : RawEntry where
  header := { dNext := 1, dIno := 7, dNamlen := BitVec.ofNat 32 length, dType := 4 }
  padding := 0
  name := List.replicate length letter
  length_name := by
    rw [List.length_replicate, BitVec.toNat_ofNat]
    exact (Nat.mod_eq_of_lt hlength).symm

theorem size_repeated {length : Nat} {letter : UInt8} (hlength : length < 4294967296) :
    (repeated length letter hlength).size = 24 + length := by
  unfold RawEntry.size repeated
  rw [List.length_replicate]

def single (e : RawEntry) (hnext : e.header.dNext ≠ DIRCOOKIE_START) : RawListing where
  entries := [e]
  next_nodup := by simp
  next_ne_start := by
    intro x hx
    rw [List.mem_singleton.mp hx]
    exact hnext

/-- An empty name in front of a name of one letter. -/
def listing : RawListing where
  entries := [⟨⟨3, 7, 0, 4⟩, 0, [], rfl⟩, ⟨⟨9, 8, 1, 4⟩, 0, [97], rfl⟩]
  next_nodup := by decide
  next_ne_start := by decide

def opened : Dir where
  cookie := 0
  buffer := listing.read 0 4096 ++ List.replicate (4096 - (listing.read 0 4096).length) 0
  bufferProcessed := 0
  bufferSize := 4096
  bufferUsed := (listing.read 0 4096).length
  direntSize := 1
  allocs := 2
  reads := 1

theorem after_empty : Ends (listing.served stat) opened ↔
    Passes stat (listing.after 0) 4096 := readdir_ends_iff ⟨opened, rfl, .nil⟩

theorem not_ends_single {e : RawEntry} (hnext : e.header.dNext ≠ DIRCOOKIE_START)
    (hpasses : ¬ Passes stat [e] 4096) :
    ∃ opened, fdopendir ((single e hnext).served stat) = .ok opened ∧
      ¬ Ends ((single e hnext).served stat) opened := by
  obtain ⟨opened, hopen, hfresh, hcookie, hsize⟩ := fdopendir_served (single e hnext) stat
  refine ⟨opened, hopen, fun hends => hpasses ?_⟩
  have hafter := hfresh.toStands.ends_iff.mp hends
  rw [hcookie, hsize] at hafter
  exact hafter

/-- One name, of bytes that end a string, that fills the first buffer. -/
def filling : RawListing := single (repeated 4072 NUL (by decide)) (by decide)

/-- One name of 2^31 letters. -/
def large : RawListing := single (repeated 2147483648 97 (by decide)) (by decide)

/-- One entry either is returned from the buffer, or is skipped and leaves room
in it, or makes it grow. -/
theorem passes_single {e : RawEntry} {size : Nat} (h : Passes stat [e] size) :
    answer stat e ≠ none ∧ e.size ≤ size ∨ e.size < size ∨
      size < e.size ∧ e.size ≤ SIZE_LIMIT := by
  have hsingle : ∀ {before more : List RawEntry} {x : RawEntry}, [e] = before ++ x :: more →
      x = e := by
    intro before more x hall
    have hmem : x ∈ [e] := by
      rw [hall]
      exact List.mem_append_right before List.mem_cons_self
    exact List.mem_singleton.mp hmem
  cases h with
  | shows hall hbefore hanswer hfits =>
      obtain rfl := hsingle hall
      exact .inl ⟨hanswer, by omega⟩
  | runsOut hall hfits => exact .inr (.inl (by simpa using hfits))
  | grows hall hbefore hheader hlarge hlimit hmore =>
      obtain rfl := hsingle hall
      exact .inr (.inr ⟨hlarge, hlimit⟩)

theorem filling_large_endless :
    (∃ opened, fdopendir (filling.served stat) = .ok opened ∧ ¬ Ends (filling.served stat) opened) ∧
    ∃ opened, fdopendir (large.served stat) = .ok opened ∧ ¬ Ends (large.served stat) opened := by
  constructor
  · apply not_ends_single
    intro hpasses
    have hsize := @size_repeated 4072 NUL (by decide)
    have hanswer : answer stat (repeated 4072 NUL (by decide)) = none :=
      if_pos (.inr (List.mem_replicate.mpr ⟨by decide, rfl⟩))
    obtain ⟨hne, -⟩ | hlt | ⟨hlt, -⟩ := passes_single hpasses
    · exact hne hanswer
    · omega
    · omega
  · apply not_ends_single
    intro hpasses
    have hsize := @size_repeated 2147483648 97 (by decide)
    obtain ⟨-, hle⟩ | hlt | ⟨-, hle⟩ := passes_single hpasses
    · omega
    · omega
    · unfold SIZE_LIMIT at hle
      omega

end EndsWitness

end Wasm32

end Dirent

end WasixLibc
