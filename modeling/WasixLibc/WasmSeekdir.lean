/-
`telldir` and `seekdir` where a `long` has 32 bits.

The place of a stream is a cookie of 64 bits, of which the application is given
the low half.  What it comes back to is the place of that half.
-/
import WasixLibc.WasmDirStream

namespace WasixLibc

namespace Dirent

namespace Wasm32

/-- The cookie that is left of a cookie as a `long`. -/
def lowHalf (cookie : BitVec 64) : BitVec 64 := (cookie.setWidth 32).setWidth 64

theorem lowHalf_eq {cookie : BitVec 64} (h : cookie.toNat < 4294967296) :
    lowHalf cookie = cookie := by
  apply BitVec.eq_of_toNat_eq
  unfold lowHalf
  rw [BitVec.toNat_setWidth, BitVec.toNat_setWidth, Nat.mod_eq_of_lt h, Nat.mod_eq_of_lt]
  omega

/-- The next call to `readdir` returns a result. -/
def NextReturns (env : RawEnv) (dirp : Dir) (result : Except Errno (Option DirentObject)) : Prop :=
  ∃ dirp', Round.Returns (round env) dirp (.returned result, dirp')

section RoundTrip

variable {listing : RawListing} {stat : Name → Except Errno (BitVec 64 × BitVec 32)}
variable {dirp saved later : Dir} {ops : List Op} {n : Nat}
variable {result : Except Errno (Option DirentObject)}

theorem Placed.nextReturns_iff (h : Placed listing stat dirp) :
    NextReturns (listing.served stat) dirp result ↔
      result = shown stat (listing.after dirp.cookie) ∧
        Passes stat (listing.after dirp.cookie) dirp.bufferSize := by
  obtain ⟨passed, rest, hstands⟩ := h
  constructor
  · rintro ⟨dirp', hreturns⟩
    rw [← hstands.ends_iff, hstands.after]
    exact ⟨(hstands.returns hreturns).1, result, dirp', hreturns⟩
  · rintro ⟨rfl, hpasses⟩
    obtain ⟨result, dirp', hreturns⟩ := hstands.ends_iff.mpr hpasses
    rw [hstands.after, ← (hstands.returns hreturns).1]
    exact ⟨dirp', hreturns⟩

theorem Placed.seekdir (h : Placed listing stat dirp) (loc : BitVec 32) :
    Placed listing stat (seekdir dirp loc) := by
  obtain ⟨all, hbased⟩ := h.based
  exact ⟨_, _, hbased.exhaust (loc.setWidth 64)⟩

/-- The buffer never gets smaller. -/
theorem bufferSize_le (h : Placed listing stat saved)
    (hreads : Run (Step (listing.served stat)) saved (List.replicate n .readdir) later) :
    Placed listing stat later ∧ saved.bufferSize ≤ later.bufferSize := by
  generalize List.replicate n Op.readdir = labels at hreads
  induction hreads with
  | nil => exact ⟨h, Nat.le_refl _⟩
  | snoc _ hstep ih =>
      obtain ⟨hplaced, hle⟩ := ih
      refine ⟨hplaced.step hstep, Nat.le_trans hle ?_⟩
      obtain ⟨passed, rest, hstands⟩ := hplaced
      rename_i op _
      cases op with
      | readdir =>
          obtain ⟨result, hreturns⟩ := hstep
          exact (hstands.returns hreturns).2.2
      | rewinddir =>
          cases hstep
          exact Nat.le_refl _
      | seekdir loc =>
          cases hstep
          exact Nat.le_refl _

/-- A stream is brought back to the entry that followed a place exactly if the
cookie of the place fits in a `long`, or its low half happens to be the cookie
of a place in front of the same entry, and the buffer is enough there. -/
theorem seekdir_telldir_iff (hsaved : Reached (listing.served stat) ops saved)
    (hreads : Run (Step (listing.served stat)) saved (List.replicate n .readdir) later) :
    NextReturns (listing.served stat) (seekdir later (telldir saved))
        (shown stat (listing.after saved.cookie)) ↔
      (saved.cookie.toNat < 4294967296 ∨
        shown stat (listing.after (lowHalf saved.cookie)) =
          shown stat (listing.after saved.cookie)) ∧
      Passes stat (listing.after (lowHalf saved.cookie)) later.bufferSize := by
  have hplaced := (bufferSize_le hsaved.placed hreads).1.seekdir (telldir saved)
  have hcookie : (seekdir later (telldir saved)).cookie = lowHalf saved.cookie := rfl
  have hsize : (seekdir later (telldir saved)).bufferSize = later.bufferSize := rfl
  rw [hplaced.nextReturns_iff, hcookie, hsize]
  refine and_congr_left fun _ => ⟨fun heq => .inr heq.symm, ?_⟩
  rintro (hsmall | heq)
  · rw [lowHalf_eq hsmall]
  · exact heq.symm

/-- The first call comes to the place behind the first entry. -/
theorem reached_first {e : RawEntry} {rest : List RawEntry} (hentries : listing.entries = e :: rest)
    (hfits : e.size ≤ DEFAULT_BUFFER_SIZE) {object : DirentObject}
    (hanswer : answer stat e = some (.ok object)) :
    ∃ saved, Reached (listing.served stat) [.readdir] saved ∧ saved.cookie = e.header.dNext := by
  obtain ⟨opened, hopen, hfresh, hcookie, hsize⟩ := fdopendir_served listing stat
  have hleft := hfresh.left_eq
  rw [hentries] at hfresh
  rw [hentries, hsize, total_cons] at hleft
  obtain ⟨saved, passed, rest', hround, -, -, hplace⟩ :=
    hfresh.toStands.round_answer (by omega) hanswer
  exact ⟨saved, ⟨opened, hopen, Run.single ⟨_, Round.returns_done hround⟩⟩, hplace⟩

end RoundTrip

namespace RoundTripWitness

def stat (_ : Name) : Except Errno (BitVec 64 × BitVec 32) := .error .enoent

def listing : RawListing where
  entries := [⟨⟨5, 7, 1, 4⟩, 0, [120], rfl⟩, ⟨⟨6, 8, 1, 4⟩, 0, [121], rfl⟩]
  next_nodup := by decide
  next_ne_start := by decide

/-- Back at the place behind the first entry, the second one is next, though it
has been read in between. -/
theorem second_again : ∃ saved later, Reached (listing.served stat) [.readdir] saved ∧
    Run (Step (listing.served stat)) saved [.readdir] later ∧
    NextReturns (listing.served stat) (seekdir later (telldir saved))
      (.ok (some ⟨8, 4, [121]⟩)) := by
  obtain ⟨saved, hreached, hcookie⟩ :=
    @reached_first listing stat _ _ rfl (by decide) _ rfl
  obtain ⟨all, hbased⟩ := hreached.placed.based
  have hsecond : total [] + RawEntry.size ⟨⟨6, 8, 1, 4⟩, 0, [121], rfl⟩ ≤ saved.bufferSize :=
    hbased.header_lt
  have hpasses : Passes stat (listing.after 5) saved.bufferSize :=
    @Passes.shows stat _ [] [] _ _ rfl (by simp) (by decide) hsecond
  have hnext : NextReturns (listing.served stat) saved (shown stat (listing.after 5)) :=
    hreached.placed.nextReturns_iff.mpr ⟨by rw [hcookie], by rw [hcookie]; exact hpasses⟩
  obtain ⟨later, hreturns⟩ := hnext
  have hreads : Run (Step (listing.served stat)) saved (List.replicate 1 .readdir) later :=
    Run.single ⟨_, hreturns⟩
  obtain ⟨hlater, hle⟩ := bufferSize_le hreached.placed hreads
  obtain ⟨all', hbased'⟩ := hlater.based
  have hroundTrip := seekdir_telldir_iff hreached hreads
  rw [hcookie] at hroundTrip
  exact ⟨saved, later, hreached, hreads,
    hroundTrip.mpr ⟨.inl (by decide), hpasses.mono hle hbased'.bufferSize⟩⟩

/-- The cookie behind the first entry is 2^32. -/
def wide : RawListing where
  entries := [⟨⟨4294967296, 7, 1, 4⟩, 0, [120], rfl⟩, ⟨⟨8589934592, 8, 1, 4⟩, 0, [121], rfl⟩]
  next_nodup := by decide
  next_ne_start := by decide

theorem wide_comes_back : ∃ saved, Reached (wide.served stat) [.readdir] saved ∧
    ¬ NextReturns (wide.served stat) (seekdir saved (telldir saved))
      (shown stat (wide.after saved.cookie)) := by
  obtain ⟨saved, hreached, hcookie⟩ := @reached_first wide stat _ _ rfl (by decide) _ rfl
  refine ⟨saved, hreached, fun hnext => ?_⟩
  obtain ⟨hshown, -⟩ := (hreached.placed.seekdir (telldir saved)).nextReturns_iff.mp hnext
  have hback : (seekdir saved (telldir saved)).cookie = 0 := by
    unfold seekdir telldir
    rw [hcookie]
    rfl
  rw [hback, hcookie] at hshown
  cases hshown

end RoundTripWitness

end Wasm32

end Dirent

end WasixLibc
