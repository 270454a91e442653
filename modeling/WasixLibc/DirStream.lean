/-
What a directory stream returns over its life.

The abstract stream is a place in the listing.  The buffer, its growth and the
refills do not show, as long as every entry fits in a buffer at all: a size
that doubles is 0 after 2^31.
-/
import WasixLibc.WasmDirStream

namespace WasixLibc

namespace Dirent

/-- An entry as it is listed. -/
def Entry.listed (e : Entry) : DirentObject := ⟨e.dIno, e.dType, e.name⟩

/-- No entry is larger than the largest size of a buffer. -/
def Listing.Small (listing : Listing) : Prop :=
  ∀ e ∈ listing.entries, e.encode.length ≤ Wasm32.SIZE_LIMIT

theorem Listing.after_small {listing : Listing} (hsmall : listing.Small) {cookie : BitVec 64}
    {e : Entry} {rest : List Entry} (hafter : listing.after cookie = e :: rest) :
    e.encode.length ≤ Wasm32.SIZE_LIMIT := by
  apply hsmall
  apply (listing.after_suffix cookie).subset
  rw [hafter]
  exact List.mem_cons_self

namespace Wasm32

/-! One call -/

section Call

variable {stat : Name → Except Errno (BitVec 64 × BitVec 32)}

/-- An entry that is not skipped comes to fit in the buffer, unless no size is
enough for it. -/
theorem passes_cons_iff {e : RawEntry} {rest : List RawEntry} {size : Nat}
    (hanswer : answer stat e ≠ none) (hheader : HEADER_SIZE ≤ size) (hsize : size ≤ SIZE_LIMIT) :
    Passes stat (e :: rest) size ↔ e.size ≤ SIZE_LIMIT := by
  constructor
  · intro hpasses
    by_cases hfits : e.size ≤ size
    · omega
    · have hnone : Passes stat ([] ++ e :: rest) size := hpasses
      exact (hnone.grown (by simp) (Nat.zero_le size) (by omega)).1
  · intro hlimit
    have hshows : ∀ size, e.size ≤ size → Passes stat (e :: rest) size := by
      intro size hfits
      exact @Passes.shows stat _ [] rest e size rfl (by simp) hanswer (by simpa using hfits)
    by_cases hfits : e.size ≤ size
    · exact hshows size hfits
    · refine @Passes.grows stat _ [] rest e size rfl (by simp) (by simpa using hheader) (by omega)
        hlimit ?_
      exact hshows _ (Nat.le_pow_clog (by decide : 1 < 2) e.size)

variable {listing : Listing} {dirp dirp' : Dir} {result : Except Errno (Option DirentObject)}
variable {e : Entry} {rest : List Entry} {object : DirentObject}

/-- In front of an entry that is not skipped, a call ends exactly if some size
is enough for it. -/
theorem Placed.ends_cons_iff (h : Placed listing.raw stat dirp)
    (hafter : listing.after dirp.cookie = e :: rest) (hanswer : answer stat e.raw ≠ none) :
    Ends (listing.raw.served stat) dirp ↔ e.encode.length ≤ SIZE_LIMIT := by
  obtain ⟨all, hbased⟩ := h.based
  rw [h.ends_iff, listing.after_raw, hafter, List.map_cons,
    passes_cons_iff hanswer (Nat.le_of_lt hbased.header_lt) hbased.bufferSize.le, e.size_raw]

theorem Placed.returns_cons (h : Placed listing.raw stat dirp)
    (hafter : listing.after dirp.cookie = e :: rest)
    (hanswer : answer stat e.raw = some (.ok object))
    (hreturns : Round.Returns (round (listing.raw.served stat)) dirp (.returned result, dirp')) :
    result = .ok (some object) ∧ Placed listing.raw stat dirp' ∧
      listing.after dirp'.cookie = rest := by
  obtain ⟨passed, unread, hstands⟩ := h
  have hcookie := hstands.returns_cookie hreturns
  obtain ⟨hresult, hplaced, -⟩ := hstands.returns hreturns
  rw [← hstands.after, listing.after_raw, hafter, List.map_cons] at hcookie hresult
  rw [shown, hanswer] at hresult
  rw [landing, hanswer] at hcookie
  refine ⟨hresult, hplaced, ?_⟩
  rw [hcookie]
  exact Listing.after_dNext hafter

/-- At the end of the listing, every call ends and stays there. -/
theorem Placed.ends_nil (h : Placed listing.raw stat dirp)
    (hafter : listing.after dirp.cookie = []) : Ends (listing.raw.served stat) dirp := by
  obtain ⟨all, hbased⟩ := h.based
  rw [h.ends_iff, listing.after_raw, hafter]
  exact .runsOut (by simp) hbased.bufferSize.pos

theorem Placed.returns_nil (h : Placed listing.raw stat dirp)
    (hafter : listing.after dirp.cookie = [])
    (hreturns : Round.Returns (round (listing.raw.served stat)) dirp (.returned result, dirp')) :
    result = .ok none ∧ Placed listing.raw stat dirp' ∧ listing.after dirp'.cookie = [] := by
  obtain ⟨passed, unread, hstands⟩ := h
  have hcookie := hstands.returns_cookie hreturns
  obtain ⟨hresult, hplaced, -⟩ := hstands.returns hreturns
  rw [← hstands.after, listing.after_raw, hafter] at hcookie hresult
  exact ⟨hresult, hplaced, hcookie ▸ hafter⟩

theorem Placed.rewinddir (h : Placed listing.raw stat dirp) :
    Placed listing.raw stat (rewinddir dirp) :=
  @Placed.step _ _ _ _ .rewinddir h rfl

end Call

/-! All calls -/

/-- The calls of an application that does not change its place but to start
again. -/
inductive Call where
  | readdir
  | rewinddir
deriving Repr, DecidableEq

/-- The calls come back, those to `readdir` with these results. -/
inductive Performs (env : RawEnv) :
    Dir → List Call → List (Except Errno (Option DirentObject)) → Prop
  | nil {dirp : Dir} : Performs env dirp [] []
  | readdir {dirp dirp' : Dir} {calls : List Call} {result : Except Errno (Option DirentObject)}
      {results : List (Except Errno (Option DirentObject))}
      (hreturns : Round.Returns (round env) dirp (.returned result, dirp'))
      (h : Performs env dirp' calls results) :
      Performs env dirp (.readdir :: calls) (result :: results)
  | rewinddir {dirp : Dir} {calls : List Call}
      {results : List (Except Errno (Option DirentObject))}
      (h : Performs env (Dirent.rewinddir dirp) calls results) :
      Performs env dirp (.rewinddir :: calls) results

/-- The results for a stream of which `rest` is left. -/
def expected (entries : List Entry) : List Call → List Entry → List (Option DirentObject)
  | [], _ => []
  | .readdir :: calls, rest => rest.head?.map Entry.listed :: expected entries calls rest.tail
  | .rewinddir :: calls, _ => expected entries calls entries

/-- A stream that was opened returns what the listing has at its place, whatever
is called. -/
def Complete (listing : Listing) (stat : Name → Except Errno (BitVec 64 × BitVec 32)) : Prop :=
  ∃ dirp, fdopendir (listing.raw.served stat) = .ok dirp ∧
    ∀ calls : List Call, Performs (listing.raw.served stat) dirp calls
      ((expected listing.entries calls listing.entries).map .ok)

section Stream

variable {listing : Listing} {stat : Name → Except Errno (BitVec 64 × BitVec 32)}
variable {dirp : Dir} {rest : List Entry}

theorem answer_listed (stat : Name → Except Errno (BitVec 64 × BitVec 32)) {e : Entry}
    (hino : e.dIno ≠ 0) : answer stat e.raw = some (.ok e.listed) := by
  have hlook : lookUp stat e.raw.header e.raw.name = .ok (e.dIno, e.dType) :=
    if_neg fun hunknown => hino hunknown.1
  have hlisted : ¬ (e.raw.header.dNamlen = 0 ∨ NUL ∈ e.raw.name) :=
    not_or.mpr ⟨e.dNamlen_ne_zero, e.nul_not_mem⟩
  unfold answer
  rw [if_neg hlisted, hlook]
  rfl

theorem ino_after (hino : ∀ e ∈ listing.entries, e.dIno ≠ 0) {cookie : BitVec 64} {e : Entry}
    (hafter : listing.after cookie = e :: rest) : e.dIno ≠ 0 := by
  apply hino
  apply (listing.after_suffix cookie).subset
  rw [hafter]
  exact List.mem_cons_self

/-- From anywhere in the listing, by induction on the calls. -/
theorem Placed.performs (hino : ∀ e ∈ listing.entries, e.dIno ≠ 0) (hsmall : listing.Small)
    (calls : List Call) (h : Placed listing.raw stat dirp)
    (hafter : listing.after dirp.cookie = rest) :
    Performs (listing.raw.served stat) dirp calls
      ((expected listing.entries calls rest).map .ok) := by
  induction calls generalizing dirp rest with
  | nil => exact .nil
  | cons call calls ih =>
      cases call with
      | rewinddir => exact .rewinddir (ih h.rewinddir listing.after_start)
      | readdir =>
          cases rest with
          | nil =>
              obtain ⟨result, dirp', hreturns⟩ := h.ends_nil hafter
              obtain ⟨rfl, hplaced, hafter'⟩ := h.returns_nil hafter hreturns
              exact .readdir hreturns (ih hplaced hafter')
          | cons e rest =>
              have hanswer := answer_listed stat (ino_after hino hafter)
              have hends := (h.ends_cons_iff hafter (by simp [hanswer])).mpr
                (Listing.after_small hsmall hafter)
              obtain ⟨result, dirp', hreturns⟩ := hends
              obtain ⟨rfl, hplaced, hafter'⟩ := h.returns_cons hafter hanswer hreturns
              exact .readdir hreturns (ih hplaced hafter')

/-- Calls that come back for all that is left have found a size for each of the
entries. -/
theorem Placed.small_of_performs (hino : ∀ e ∈ listing.entries, e.dIno ≠ 0)
    {results : List (Except Errno (Option DirentObject))} (h : Placed listing.raw stat dirp)
    (hafter : listing.after dirp.cookie = rest)
    (hperforms : Performs (listing.raw.served stat) dirp (List.replicate rest.length .readdir)
      results) : ∀ e ∈ rest, e.encode.length ≤ SIZE_LIMIT := by
  induction rest generalizing dirp results with
  | nil => simp
  | cons e rest ih =>
      have hanswer := answer_listed stat (ino_after hino hafter)
      rw [List.length_cons, List.replicate_succ] at hperforms
      cases hperforms with
      | readdir hreturns hmore =>
          obtain ⟨-, hplaced, hafter'⟩ := h.returns_cons hafter hanswer hreturns
          have hends := (h.ends_cons_iff hafter (by simp [hanswer])).mp ⟨_, _, hreturns⟩
          exact List.forall_mem_cons.mpr ⟨hends, ih hplaced hafter' hmore⟩

theorem placed_of_fdopendir (hopen : fdopendir (listing.raw.served stat) = .ok dirp) :
    Placed listing.raw stat dirp ∧ listing.after dirp.cookie = listing.entries := by
  refine ⟨⟨_, _, (fresh_of_fdopendir hopen).toStands⟩, ?_⟩
  cases hopen
  exact listing.after_start

theorem small_of_complete (hino : ∀ e ∈ listing.entries, e.dIno ≠ 0)
    (h : Complete listing stat) : listing.Small := by
  obtain ⟨dirp, hopen, hperforms⟩ := h
  obtain ⟨hplaced, hafter⟩ := placed_of_fdopendir hopen
  exact hplaced.small_of_performs hino hafter (hperforms _)

/-- A stream is complete exactly if its entries are not larger than the largest
size of a buffer. -/
theorem stream_complete_iff (hino : ∀ e ∈ listing.entries, e.dIno ≠ 0)
    (stat : Name → Except Errno (BitVec 64 × BitVec 32)) :
    Complete listing stat ↔ listing.Small := by
  refine ⟨small_of_complete hino, fun hsmall => ?_⟩
  obtain ⟨dirp, hopen, -⟩ := fdopendir_served listing.raw stat
  obtain ⟨hplaced, hafter⟩ := placed_of_fdopendir hopen
  exact ⟨dirp, hopen, fun calls => hplaced.performs hino hsmall calls hafter⟩

end Stream

namespace StreamWitness

def listing : Listing where
  entries := [
    ⟨1, 10, 4, [97], 0, by decide, by decide, by decide⟩,
    ⟨2, 11, 3, [98, 99], 0, by decide, by decide, by decide⟩]
  next_nodup := by decide
  next_ne_start := by decide

def stat (_ : Name) : Except Errno (BitVec 64 × BitVec 32) := .error .enoent

theorem two_entries : Complete listing stat :=
  (stream_complete_iff (by decide) stat).mpr (by unfold Listing.Small; decide)

/-- A file with a name of one letter many times over. -/
def repeated (n : Nat) (hlength : n + 1 < 4294967296) : Entry where
  dNext := 1
  dIno := 7
  dType := 4
  name := List.replicate (n + 1) 97
  padding := 0
  name_ne_nil := List.cons_ne_nil _ _
  nul_not_mem := fun hnul => absurd (List.eq_of_mem_replicate hnul) (by decide)
  length_lt := by rwa [List.length_replicate]

theorem length_repeated {n : Nat} (hlength : n + 1 < 4294967296) :
    (repeated n hlength).encode.length = 24 + (n + 1) := by
  rw [Entry.length_encode]
  unfold repeated
  rw [List.length_replicate]

theorem repeated_next {n : Nat} (hlength : n + 1 < 4294967296) :
    (repeated n hlength).dNext ≠ DIRCOOKIE_START := by
  show (1 : BitVec 64) ≠ DIRCOOKIE_START
  decide

def single (e : Entry) (hnext : e.dNext ≠ DIRCOOKIE_START) : Listing where
  entries := [e]
  next_nodup := by simp
  next_ne_start := fun x hx => List.mem_singleton.mp hx ▸ hnext

/-- One name of 2^31 letters. -/
def large : Listing := single (repeated 2147483647 (by decide)) (repeated_next _)

/-- The file has an inode number, and yet the stream is not complete. -/
theorem large_incomplete : (∀ e ∈ large.entries, e.dIno ≠ 0) ∧ ¬ Complete large stat := by
  have hino : ∀ e ∈ large.entries, e.dIno ≠ 0 := by
    intro e he
    rw [List.mem_singleton.mp he]
    unfold repeated
    decide
  refine ⟨hino, fun hcomplete => ?_⟩
  have hlength : (repeated 2147483647 (by decide)).encode.length ≤ SIZE_LIMIT :=
    small_of_complete hino hcomplete _ (List.mem_singleton_self _)
  rw [length_repeated] at hlength
  unfold SIZE_LIMIT at hlength
  omega

end StreamWitness

end Wasm32

end Dirent

end WasixLibc
