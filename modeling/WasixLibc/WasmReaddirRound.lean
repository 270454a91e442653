/-
What a round of `readdir` does, with a 32-bit `size_t`.

Between two rounds the stream has passed over some entries behind its cookie,
all of which are skipped, and the unread bytes of the buffer are the front of
those that follow.  Both sizes are powers of two that 31 bits hold.
-/
import Mathlib.Data.Nat.Bitwise
import Mathlib.Data.Nat.Log
import WasixLibc.WasmReaddir

namespace WasixLibc

namespace Dirent

namespace Wasm32

/-- The sizes that doubling goes through before it wraps round. -/
def Doubled (size : Nat) : Prop := ∃ k, k ≤ 31 ∧ size = 2 ^ k

/-- The largest of them. -/
abbrev SIZE_LIMIT : Nat := 2147483648

theorem Doubled.pos {size : Nat} (h : Doubled size) : 0 < size := by
  obtain ⟨k, -, rfl⟩ := h
  exact Nat.two_pow_pos k

theorem Doubled.le {size : Nat} (h : Doubled size) : size ≤ SIZE_LIMIT := by
  obtain ⟨k, hk, rfl⟩ := h
  exact Nat.pow_le_pow_right (by decide) hk

theorem clog_le {targetSize : Nat} (htarget : targetSize ≤ SIZE_LIMIT) :
    Nat.clog 2 targetSize ≤ 31 := Nat.clog_le_of_le_pow htarget

theorem doubled_clog {targetSize : Nat} (htarget : targetSize ≤ SIZE_LIMIT) :
    Doubled (2 ^ Nat.clog 2 targetSize) := ⟨_, clog_le htarget, rfl⟩

theorem double_pow {n k targetSize : Nat} (htarget : targetSize ≤ SIZE_LIMIT)
    (hk : k ≤ Nat.clog 2 targetSize) (hn : Nat.clog 2 targetSize ≤ k + n) :
    double n (2 ^ k) targetSize = some (2 ^ Nat.clog 2 targetSize) := by
  have hclog := clog_le htarget
  have hle := Nat.le_pow_clog (by decide : 1 < 2) targetSize
  induction n generalizing k with
  | zero =>
      obtain rfl : k = Nat.clog 2 targetSize := by omega
      exact if_neg (Nat.not_lt.mpr hle)
  | succ n ih =>
      rw [double]
      split
      · rename_i hlt
        have hmore : k < Nat.clog 2 targetSize := (Nat.lt_clog_iff_pow_lt (by decide)).mpr hlt
        have hsize : 2 ^ k * 2 % SIZE_RANGE = 2 ^ (k + 1) := by
          rw [← Nat.pow_succ]
          exact Nat.mod_eq_of_lt (Nat.pow_lt_pow_right (by decide) (by omega : k + 1 < 32))
        rw [hsize]
        exact ih hmore (by omega)
      · rename_i hge
        have hless : Nat.clog 2 targetSize ≤ k := Nat.clog_le_of_le_pow (Nat.not_lt.mp hge)
        rw [Nat.le_antisymm hk hless]

theorem double_pow_none {k targetSize : Nat} (hk : k ≤ 31) (htarget : SIZE_LIMIT < targetSize)
    (n : Nat) : double n (2 ^ k) targetSize = none := by
  have hlt : 2 ^ k < targetSize :=
    Nat.lt_of_le_of_lt (Nat.pow_le_pow_right (by decide) hk) htarget
  induction n generalizing k with
  | zero => exact if_pos hlt
  | succ n ih =>
      rw [double, if_pos hlt, ← Nat.pow_succ]
      by_cases hlast : k = 31
      · rw [hlast]
        exact double_zero n (Nat.zero_lt_of_lt htarget)
      · have hpow : 2 ^ (k + 1) < SIZE_RANGE :=
          Nat.pow_lt_pow_right (by decide) (by omega : k + 1 < 32)
        rw [Nat.mod_eq_of_lt hpow]
        have hnext : 2 ^ (k + 1) ≤ 2 ^ 31 := Nat.pow_le_pow_right (by decide) (by omega)
        exact ih (by omega) (Nat.lt_of_le_of_lt hnext htarget)

/-- The least size of those that is enough. -/
theorem grow_resized {size targetSize : Nat} (h : Doubled size) (hlt : size < targetSize)
    (htarget : targetSize ≤ SIZE_LIMIT) :
    grow true size targetSize = .resized (2 ^ Nat.clog 2 targetSize) := by
  obtain ⟨k, hk, rfl⟩ := h
  have hless : k < Nat.clog 2 targetSize := (Nat.lt_clog_iff_pow_lt (by decide)).mpr hlt
  have hclog := clog_le htarget
  unfold grow growSize
  rw [if_pos hlt, double_pow htarget (by omega) (by omega)]
  rfl

/-- A size that doubles comes to be enough for what 2^31 is enough for. -/
theorem growSize_doubled {size targetSize : Nat} (h : Doubled size)
    (htarget : targetSize ≤ SIZE_LIMIT) :
    ∃ newSize, growSize size targetSize = some newSize ∧ Doubled newSize ∧ size ≤ newSize ∧
      targetSize ≤ newSize := by
  by_cases hlt : size < targetSize
  · have hgrow := grow_resized h hlt htarget
    have hle := Nat.le_pow_clog (by decide : 1 < 2) targetSize
    unfold grow at hgrow
    rw [if_pos hlt] at hgrow
    cases hsize : growSize size targetSize with
    | none =>
        rw [hsize] at hgrow
        cases hgrow
    | some newSize =>
        rw [hsize] at hgrow
        cases hgrow
        exact ⟨_, rfl, doubled_clog htarget, by omega, hle⟩
  · refine ⟨size, ?_, h, Nat.le_refl size, Nat.not_lt.mp hlt⟩
    unfold growSize
    rw [double, if_neg hlt]

theorem growSize_endless {size targetSize : Nat} (h : Doubled size)
    (htarget : SIZE_LIMIT < targetSize) : growSize size targetSize = none := by
  obtain ⟨k, hk, rfl⟩ := h
  exact double_pow_none hk htarget 32

theorem grow_endless {size targetSize : Nat} (h : Doubled size)
    (htarget : SIZE_LIMIT < targetSize) (alloc : Bool) : grow alloc size targetSize = .endless := by
  unfold grow
  rw [if_pos (Nat.lt_of_le_of_lt h.le htarget), growSize_endless h htarget]

theorem grow_enough {size targetSize : Nat} (hle : targetSize ≤ size) (alloc : Bool) :
    grow alloc size targetSize = .enough := if_neg (Nat.not_lt.mpr hle)

/-! The listing -/

section Answer

variable (stat : Name → Except Errno (BitVec 64 × BitVec 32))

/-- What `readdir` makes of an entry; `none` if it skips it. -/
def answer (e : RawEntry) : Option (Except Errno DirentObject) :=
  if e.header.dNamlen = 0 ∨ NUL ∈ e.name then none
  else
    match lookUp stat e.header e.name with
    | .error .enoent => none
    | .error error => some (.error error)
    | .ok (dIno, dType) => some (.ok { dIno := dIno, dType := dType, dName := e.name })

/-- The first entry that is not skipped. -/
def shown : List RawEntry → Except Errno (Option DirentObject)
  | [] => .ok none
  | e :: rest =>
      match answer stat e with
      | none => shown rest
      | some result => result.map some

variable {stat}

theorem shown_append {passed : List RawEntry} (hpassed : ∀ e ∈ passed, answer stat e = none)
    (rest : List RawEntry) : shown stat (passed ++ rest) = shown stat rest := by
  induction passed with
  | nil => rfl
  | cons e passed ih =>
      rw [List.cons_append, shown, hpassed e List.mem_cons_self]
      exact ih fun x hx => hpassed x (List.mem_cons_of_mem e hx)

end Answer

/-! The stream between two rounds -/

/-- The buffer is there, and `all` is what follows the cookie. -/
structure Based (listing : RawListing) (dirp : Dir) (all : List RawEntry) : Prop where
  after : listing.after dirp.cookie = all
  length : dirp.buffer.length = dirp.bufferSize
  bufferSize : Doubled dirp.bufferSize
  header_lt : HEADER_SIZE < dirp.bufferSize
  direntSize : Doubled dirp.direntSize

/-- The stream has passed over some entries, and `rest` is in front of it. -/
structure Stands (listing : RawListing) (stat : Name → Except Errno (BitVec 64 × BitVec 32))
    (dirp : Dir) (passed rest : List RawEntry) : Prop
    extends Based listing dirp (passed ++ rest) where
  skipped : ∀ e ∈ passed, answer stat e = none
  total_le : total passed ≤ dirp.bufferProcessed
  used_le : dirp.bufferUsed ≤ dirp.bufferSize
  processed_le : dirp.bufferProcessed ≤ dirp.bufferUsed
  window : Window RawEntry.encode rest (dirp.bufferUsed = dirp.bufferSize) dirp.unread

/-- The bytes of the buffer that are left. -/
def left (dirp : Dir) : Nat := dirp.bufferUsed - dirp.bufferProcessed

/-- The host has been asked just now. -/
structure Fresh (listing : RawListing) (stat : Name → Except Errno (BitVec 64 × BitVec 32))
    (dirp : Dir) (all : List RawEntry) : Prop extends Stands listing stat dirp [] all where
  processed_eq : dirp.bufferProcessed = 0
  used_eq : dirp.bufferUsed = min dirp.bufferSize (total all)

section Round

variable {listing : RawListing} {stat : Name → Except Errno (BitVec 64 × BitVec 32)}
variable {dirp : Dir} {all passed rest : List RawEntry} {e : RawEntry}

theorem Stands.length_unread (h : Stands listing stat dirp passed rest) :
    dirp.unread.length = left dirp := by
  have hlength := h.length
  have hused := h.used_le
  unfold Cursor.unread left
  rw [List.length_drop, List.length_take]
  omega

/-- What is behind the processed bytes starts with the unread ones. -/
theorem Stands.drop_processed (h : Stands listing stat dirp passed rest) :
    dirp.buffer.drop dirp.bufferProcessed = dirp.unread ++ dirp.buffer.drop dirp.bufferUsed := by
  have hlength := h.length
  have hused := h.used_le
  have hprocessed := h.processed_le
  unfold Cursor.unread
  calc dirp.buffer.drop dirp.bufferProcessed
      = (dirp.buffer.take dirp.bufferUsed ++ dirp.buffer.drop dirp.bufferUsed).drop
          dirp.bufferProcessed := by rw [List.take_append_drop]
    _ = _ := List.drop_append_of_le_length (by rw [List.length_take]; omega)

theorem Stands.header_eq (h : Stands listing stat dirp passed (e :: rest))
    (hleft : HEADER_SIZE ≤ left dirp) : dirp.header = e.header := by
  rw [← h.length_unread] at hleft
  unfold Cursor.header
  rw [h.drop_processed, List.take_append_of_le_length hleft,
    h.window.take_eq hleft (by rw [e.length_encode]; exact e.header_le_size), e.take_encode,
    readHeader_toBytes]

theorem Stands.name_eq (h : Stands listing stat dirp passed (e :: rest))
    (hwhole : e.size ≤ left dirp) : dirp.name e.header.dNamlen.toNat = e.name := by
  rw [← h.length_unread, ← e.length_encode] at hwhole
  obtain ⟨unread', hunread, -⟩ := h.window.record hwhole
  unfold Cursor.name
  rw [← e.length_name, ← List.drop_drop, h.drop_processed, hunread, RawEntry.encode,
    List.append_assoc, List.append_assoc, ← e.header.length_toBytes e.padding, List.drop_left,
    List.take_left]

/-- The window behind an entry that is there as a whole. -/
theorem Stands.window_next (h : Stands listing stat dirp passed (e :: rest))
    (hwhole : e.size ≤ left dirp) :
    Window RawEntry.encode rest (dirp.bufferUsed = dirp.bufferSize)
      ((dirp.buffer.take dirp.bufferUsed).drop (dirp.bufferProcessed + e.size)) := by
  rw [← h.length_unread, ← e.length_encode] at hwhole
  obtain ⟨unread', hunread, hwindow⟩ := h.window.record hwhole
  have hdrop : (dirp.buffer.take dirp.bufferUsed).drop (dirp.bufferProcessed + e.size) =
      unread' := by
    unfold Cursor.unread at hunread
    rw [← List.drop_drop, hunread, ← e.length_encode, List.drop_left]
  rw [hdrop]
  exact hwindow

/-- An entry that fits in the buffer has a size that does not wrap round. -/
theorem Stands.size_le_limit (h : Stands listing stat dirp passed rest)
    (hwhole : e.size ≤ left dirp) :
    e.size ≤ SIZE_LIMIT := by
  have hused := h.used_le
  have hsize := h.bufferSize.le
  unfold left at hwhole
  omega

/-- The end of the part of the listing that the buffer has. -/
theorem Stands.eq_nil (h : Stands listing stat dirp passed rest) (hshort : left dirp < HEADER_SIZE)
    (hused : dirp.bufferUsed < dirp.bufferSize) : rest = [] := by
  cases rest with
  | nil => rfl
  | cons e rest =>
      have hheader := e.header_le_size
      have hfull := h.window.full_of_short (by rw [h.length_unread, e.length_encode]; omega)
      omega

theorem Stands.left_nil (h : Stands listing stat dirp passed []) : left dirp = 0 := by
  rw [← h.length_unread, h.window.eq_nil_of_nil, List.length_nil]

theorem Fresh.left_eq (h : Fresh listing stat dirp all) :
    left dirp = min dirp.bufferSize (total all) := by
  unfold left
  rw [h.processed_eq, h.used_eq, Nat.sub_zero]

/-! Refills -/

variable (stat) in
/-- A refill starts at the cookie again. -/
theorem Based.readEntries (h : Based listing dirp all) :
    ∃ dirp', readEntries (listing.served stat) dirp = .again dirp' ∧
      Fresh listing stat dirp' all ∧ dirp'.bufferSize = dirp.bufferSize ∧
      dirp'.cookie = dirp.cookie := by
  have hlength := listing.length_read dirp.cookie dirp.bufferSize
  rw [h.after] at hlength
  have hdata : listing.read dirp.cookie dirp.bufferSize =
      (all.flatMap RawEntry.encode).take dirp.bufferSize := by
    unfold RawListing.read
    rw [h.after]
  refine ⟨_, rfl, ⟨⟨⟨h.after, ?_, h.bufferSize, h.header_lt, h.direntSize⟩, ?_, Nat.le_refl _, ?_,
    Nat.zero_le _, ?_⟩, rfl, hlength⟩, rfl, rfl⟩
  · have hbuffer := h.length
    simp only [Cursor.fill, RawListing.served, List.length_append, List.length_drop]
    omega
  · simp
  · simp only [Cursor.fill, RawListing.served]
    omega
  · simp only [Cursor.unread, Cursor.fill, RawListing.served, List.drop_zero, List.take_left]
    rw [hdata]
    exact Window.of_fill all dirp.bufferSize

theorem Based.grow (h : Based listing dirp all) {size : Nat} (hlt : dirp.bufferSize < size)
    (hsize : Doubled size) (allocs : Nat) :
    Based listing { dirp with toCursor := dirp.toCursor.grow size, allocs := allocs } all where
  after := h.after
  length := by
    have hlength := h.length
    simp only [Cursor.grow, List.length_append, List.length_take, List.length_replicate]
    omega
  bufferSize := hsize
  header_lt := Nat.lt_trans h.header_lt hlt
  direntSize := h.direntSize

/-! Rounds -/

theorem Stands.skip (h : Stands listing stat dirp passed (e :: rest)) (hwhole : e.size ≤ left dirp)
    (hskip : answer stat e = none) {direntSize : Nat} (hdirent : Doubled direntSize)
    (allocs : Nat) :
    Stands listing stat { dirp with
      bufferProcessed := dirp.bufferProcessed + e.size
      direntSize := direntSize
      allocs := allocs } (passed ++ [e]) rest := by
  have hafter := h.after
  have htotal := h.total_le
  have hprocessed := h.processed_le
  unfold left at hwhole
  refine ⟨⟨?_, h.length, h.bufferSize, h.header_lt, hdirent⟩, ?_, ?_, h.used_le, ?_,
    h.window_next hwhole⟩
  · rw [List.append_assoc]
    exact hafter
  · intro x hx
    obtain hx | hx := List.mem_append.mp hx
    · exact h.skipped x hx
    · rw [List.mem_singleton.mp hx]
      exact hskip
  · simp only [total_append, total_cons, total_nil]
    omega
  · simp only
    omega

theorem Stands.advance (h : Stands listing stat dirp passed (e :: rest))
    (hwhole : e.size ≤ left dirp) {direntSize : Nat} (hdirent : Doubled direntSize)
    (allocs : Nat) :
    Stands listing stat { dirp with
      toCursor := dirp.toCursor.advance e.header
      direntSize := direntSize
      allocs := allocs } [] rest := by
  have hwindow := h.window_next hwhole
  have hprocessed := h.processed_le
  unfold left at hwhole
  refine ⟨⟨RawListing.after_dNext h.after, h.length, h.bufferSize, h.header_lt, hdirent⟩, ?_,
    Nat.zero_le _, h.used_le, ?_, ?_⟩
  · simp
  · simp only [Cursor.advance, e.size_eq]
    omega
  · simp only [Cursor.unread, Cursor.advance, e.size_eq]
    exact hwindow

/-- The object needs less room than the entry. -/
theorem dirent_le_size (e : RawEntry) : NAME_OFFSET + e.header.dNamlen.toNat + 1 ≤ e.size := by
  rw [← e.size_eq]
  unfold NAME_OFFSET HEADER_SIZE
  omega

theorem mod_range {n : Nat} (hn : n ≤ SIZE_LIMIT) : n % SIZE_RANGE = n :=
  Nat.mod_eq_of_lt (Nat.lt_of_le_of_lt hn (by decide))

/-- The object is made large enough for an entry that is in the buffer. -/
theorem Stands.returnEntry_eq (h : Stands listing stat dirp passed (e :: rest))
    (hwhole : e.size ≤ left dirp) (hnul : NUL ∉ e.name) :
    ∃ direntSize allocs, Doubled direntSize ∧
      returnEntry (listing.served stat) e.header dirp =
        returnDirent (listing.served stat) e.header e.name
          { dirp with direntSize := direntSize, allocs := allocs } := by
  have htarget : NAME_OFFSET + e.header.dNamlen.toNat + 1 ≤ SIZE_LIMIT :=
    Nat.le_trans (dirent_le_size e) (h.size_le_limit hwhole)
  unfold returnEntry
  rw [h.name_eq hwhole, mod_range htarget]
  simp only [hnul, ↓reduceIte]
  by_cases hlt : dirp.direntSize < NAME_OFFSET + e.header.dNamlen.toNat + 1
  · have hgrow := grow_resized h.direntSize hlt htarget
    refine ⟨_, dirp.allocs + 1, doubled_clog htarget, ?_⟩
    simp only [RawListing.served, hgrow]
  · refine ⟨dirp.direntSize, dirp.allocs, h.direntSize, ?_⟩
    rw [grow_enough (Nat.not_lt.mp hlt)]

/-- An entry that is there as a whole is skipped, or looked at. -/
theorem Stands.round_whole (h : Stands listing stat dirp passed (e :: rest))
    (hwhole : e.size ≤ left dirp) :
    round (listing.served stat) dirp =
      if e.header.dNamlen = 0 then Wasm32.skip dirp e.size
      else returnEntry (listing.served stat) e.header dirp := by
  have hsize : (HEADER_SIZE + e.header.dNamlen.toNat) % SIZE_RANGE = e.size := by
    rw [e.size_eq]
    exact mod_range (h.size_le_limit hwhole)
  have hleft : HEADER_SIZE ≤ left dirp := Nat.le_trans e.header_le_size hwhole
  have hfound := h.header_eq hleft
  unfold left at hwhole hleft
  unfold round
  simp only [hfound, hsize]
  rw [e.size_eq, if_neg (Nat.not_lt.mpr hleft), if_neg (Nat.not_lt.mpr hwhole),
    if_neg (Nat.not_lt.mpr hwhole)]

theorem Stands.round_skip (h : Stands listing stat dirp passed (e :: rest))
    (hwhole : e.size ≤ left dirp) (hskip : answer stat e = none) :
    ∃ dirp', round (listing.served stat) dirp = .again dirp' ∧
      Stands listing stat dirp' (passed ++ [e]) rest ∧ left dirp' = left dirp - e.size ∧
      dirp'.bufferUsed = dirp.bufferUsed ∧ dirp'.bufferSize = dirp.bufferSize ∧
      dirp'.cookie = dirp.cookie := by
  have hskips : ∀ {direntSize : Nat} (allocs : Nat), Doubled direntSize →
      ∃ dirp', Wasm32.skip { dirp with direntSize := direntSize, allocs := allocs } e.size =
          .again dirp' ∧
        Stands listing stat dirp' (passed ++ [e]) rest ∧ left dirp' = left dirp - e.size ∧
        dirp'.bufferUsed = dirp.bufferUsed ∧ dirp'.bufferSize = dirp.bufferSize ∧
        dirp'.cookie = dirp.cookie := fun allocs hdirent =>
    ⟨_, rfl, h.skip hwhole hskip hdirent allocs, Nat.sub_add_eq _ _ _, rfl, rfl, rfl⟩
  rw [h.round_whole hwhole]
  by_cases hempty : e.header.dNamlen = 0
  · rw [if_pos hempty]
    exact hskips dirp.allocs h.direntSize
  · rw [if_neg hempty]
    by_cases hnul : NUL ∈ e.name
    · have hreturn : returnEntry (listing.served stat) e.header dirp =
          Wasm32.skip dirp e.size := by
        unfold returnEntry
        rw [h.name_eq hwhole, e.size_eq]
        exact if_pos hnul
      rw [hreturn]
      exact hskips dirp.allocs h.direntSize
    · obtain ⟨direntSize, allocs, hdirent, hreturn⟩ := h.returnEntry_eq hwhole hnul
      have hlook : lookUp stat e.header e.name = .error .enoent := by
        unfold answer at hskip
        rw [if_neg (not_or.mpr ⟨hempty, hnul⟩)] at hskip
        split at hskip
        · assumption
        · cases hskip
        · cases hskip
      rw [hreturn]
      unfold returnDirent
      simp only [RawListing.served, hlook, e.size_eq]
      exact hskips allocs hdirent

/-- The place behind an entry for which a call has come back. -/
def placeAfter (dirp : Dir) (e : RawEntry) : Except Errno DirentObject → BitVec 64
  | .error _ => dirp.cookie
  | .ok _ => e.header.dNext

theorem Stands.round_answer (h : Stands listing stat dirp passed (e :: rest))
    (hwhole : e.size ≤ left dirp) {result : Except Errno DirentObject}
    (hanswer : answer stat e = some result) :
    ∃ dirp' passed' rest', round (listing.served stat) dirp =
        .done (.returned (result.map some), dirp') ∧
      Stands listing stat dirp' passed' rest' ∧ dirp'.bufferSize = dirp.bufferSize ∧
      dirp'.cookie = placeAfter dirp e result := by
  have hlisted : ¬ (e.header.dNamlen = 0 ∨ NUL ∈ e.name) := by
    intro hskip
    unfold answer at hanswer
    rw [if_pos hskip] at hanswer
    cases hanswer
  obtain ⟨hempty, hnul⟩ := not_or.mp hlisted
  obtain ⟨direntSize, allocs, hdirent, hreturn⟩ := h.returnEntry_eq hwhole hnul
  rw [h.round_whole hwhole, if_neg hempty, hreturn]
  unfold answer at hanswer
  rw [if_neg hlisted] at hanswer
  unfold returnDirent
  simp only [RawListing.served]
  cases hlook : lookUp stat e.header e.name with
  | error error =>
      rw [hlook] at hanswer
      have hstands : Stands listing stat
          { dirp with direntSize := direntSize, allocs := allocs } passed (e :: rest) :=
        ⟨⟨h.after, h.length, h.bufferSize, h.header_lt, hdirent⟩, h.skipped, h.total_le, h.used_le,
          h.processed_le, h.window⟩
      cases error with
      | enoent => cases hanswer
      | enomem =>
          cases hanswer
          exact ⟨_, _, _, rfl, hstands, rfl, rfl⟩
      | host code =>
          cases hanswer
          exact ⟨_, _, _, rfl, hstands, rfl, rfl⟩
  | ok pair =>
      obtain ⟨dIno, dType⟩ := pair
      rw [hlook] at hanswer
      cases hanswer
      exact ⟨_, [], rest, rfl, h.advance hwhole hdirent allocs, rfl, rfl⟩

/-- At the end of what the buffer has, with no header left. -/
theorem round_end (hshort : left dirp < HEADER_SIZE)
    (hused : dirp.bufferUsed < dirp.bufferSize) :
    round (listing.served stat) dirp = .done (.returned (.ok none), dirp) := by
  unfold left at hshort
  unfold round
  dsimp only
  rw [if_pos hshort, if_pos hused]

theorem Stands.round_refill (h : Stands listing stat dirp passed rest)
    (hshort : left dirp < HEADER_SIZE) (hfull : dirp.bufferUsed = dirp.bufferSize) :
    ∃ dirp', round (listing.served stat) dirp = .again dirp' ∧
      Fresh listing stat dirp' (passed ++ rest) ∧ dirp'.bufferSize = dirp.bufferSize ∧
      dirp'.cookie = dirp.cookie := by
  obtain ⟨dirp', hread, hfresh⟩ := h.toBased.readEntries stat
  refine ⟨dirp', ?_, hfresh⟩
  unfold left at hshort
  unfold round
  dsimp only
  rw [if_pos hshort, if_neg (Nat.not_lt.mpr (Nat.le_of_eq hfull.symm)), hread]

/-- An entry that is cut off behind its header has a name. -/
theorem dNamlen_ne_zero_of_cut {n : Nat} (hheader : HEADER_SIZE ≤ n) (hcut : n < e.size) :
    e.header.dNamlen ≠ 0 := by
  intro hzero
  have hsize := e.size_eq
  rw [hzero] at hsize
  exact absurd hcut (Nat.not_lt.mpr (hsize ▸ hheader))

/-- An entry that is cut off is read again. -/
theorem Stands.round_cut (h : Stands listing stat dirp passed (e :: rest))
    (hheader : HEADER_SIZE ≤ left dirp) (hcut : left dirp < e.size) (hlimit : e.size ≤ SIZE_LIMIT) :
    round (listing.served stat) dirp = readAgain (listing.served stat) e.size dirp := by
  have hsize : (HEADER_SIZE + e.header.dNamlen.toNat) % SIZE_RANGE = e.size := by
    rw [e.size_eq]
    exact mod_range hlimit
  have hnonempty := dNamlen_ne_zero_of_cut hheader hcut
  have hfound := h.header_eq hheader
  unfold left at hheader hcut
  unfold round
  simp only [hfound, hsize]
  rw [if_neg (Nat.not_lt.mpr hheader), if_neg hnonempty, if_pos hcut]

/-- The buffer is large enough for an entry that is cut off. -/
theorem Stands.round_again (h : Stands listing stat dirp passed (e :: rest))
    (hheader : HEADER_SIZE ≤ left dirp) (hcut : left dirp < e.size)
    (hfits : e.size ≤ dirp.bufferSize) :
    ∃ dirp', round (listing.served stat) dirp = .again dirp' ∧
      Fresh listing stat dirp' (passed ++ e :: rest) ∧ dirp'.bufferSize = dirp.bufferSize ∧
      dirp'.cookie = dirp.cookie := by
  obtain ⟨dirp', hread, hfresh⟩ := h.toBased.readEntries stat
  refine ⟨dirp', ?_, hfresh⟩
  rw [h.round_cut hheader hcut (Nat.le_trans hfits h.bufferSize.le)]
  unfold readAgain
  rw [grow_enough hfits, hread]

/-- The buffer grows for an entry that is cut off. -/
theorem Stands.round_grow (h : Stands listing stat dirp passed (e :: rest))
    (hheader : HEADER_SIZE ≤ left dirp) (hlarge : dirp.bufferSize < e.size)
    (hlimit : e.size ≤ SIZE_LIMIT) :
    ∃ dirp', round (listing.served stat) dirp = .again dirp' ∧
      Fresh listing stat dirp' (passed ++ e :: rest) ∧
      dirp'.bufferSize = 2 ^ Nat.clog 2 e.size ∧ dirp'.cookie = dirp.cookie := by
  have hused := h.used_le
  have hcut : left dirp < e.size := by
    unfold left
    omega
  have hgrow := grow_resized h.bufferSize hlarge hlimit
  have hlt : dirp.bufferSize < 2 ^ Nat.clog 2 e.size :=
    Nat.lt_of_lt_of_le hlarge (Nat.le_pow_clog (by decide) e.size)
  obtain ⟨dirp', hread, hfresh⟩ :=
    (h.toBased.grow hlt (doubled_clog hlimit) (dirp.allocs + 1)).readEntries stat
  refine ⟨dirp', ?_, hfresh⟩
  rw [h.round_cut hheader hcut hlimit]
  unfold readAgain
  simp only [RawListing.served, hgrow]
  exact hread

/-- No size of 32 bits is large enough for an entry that is cut off. -/
theorem Stands.round_stuck (h : Stands listing stat dirp passed (e :: rest))
    (hheader : HEADER_SIZE ≤ left dirp) (hlimit : SIZE_LIMIT < e.size) :
    round (listing.served stat) dirp = .done (.endless, dirp) ∨
      round (listing.served stat) dirp = .done (.overrun, dirp) := by
  have hcut : left dirp < e.size := by
    have hused := h.used_le
    have hsize := h.bufferSize.le
    unfold left
    omega
  have hnonempty := dNamlen_ne_zero_of_cut hheader hcut
  have hfound := h.header_eq hheader
  unfold left at hheader hcut
  unfold round
  simp only [hfound]
  rw [if_neg (Nat.not_lt.mpr hheader), if_neg hnonempty, e.size_eq, if_pos hcut]
  by_cases hrange : e.size < SIZE_RANGE
  · rw [Nat.mod_eq_of_lt hrange, if_pos hcut]
    left
    unfold readAgain
    rw [grow_endless h.bufferSize hlimit]
  · right
    have hshort : e.size % SIZE_RANGE < HEADER_SIZE := by
      have hlt := e.header.dNamlen.isLt
      have hsize := e.size_eq
      unfold HEADER_SIZE at *
      unfold SIZE_RANGE at *
      omega
    rw [if_neg (by omega)]

/-- All that a round can do to a stream that stands in a listing. -/
inductive Goes (listing : RawListing) (stat : Name → Except Errno (BitVec 64 × BitVec 32))
    (dirp : Dir) (passed : List RawEntry) : List RawEntry → Turn → Prop where
  | runsOut (hused : dirp.bufferUsed < dirp.bufferSize) :
      Goes listing stat dirp passed [] (.done (.returned (.ok none), dirp))
  | refills {rest : List RawEntry} {dirp' : Dir}
      (hfresh : Fresh listing stat dirp' (passed ++ rest))
      (hsize : dirp'.bufferSize = dirp.bufferSize) (hcookie : dirp'.cookie = dirp.cookie) :
      Goes listing stat dirp passed rest (.again dirp')
  | skips {rest : List RawEntry} {e : RawEntry} {dirp' : Dir} (hanswer : answer stat e = none)
      (hwhole : e.size ≤ left dirp) (hstands : Stands listing stat dirp' (passed ++ [e]) rest)
      (hsize : dirp'.bufferSize = dirp.bufferSize) (hcookie : dirp'.cookie = dirp.cookie) :
      Goes listing stat dirp passed (e :: rest) (.again dirp')
  | shows {rest passed' rest' : List RawEntry} {e : RawEntry} {dirp' : Dir}
      {result : Except Errno DirentObject} (hanswer : answer stat e = some result)
      (hwhole : e.size ≤ left dirp) (hstands : Stands listing stat dirp' passed' rest')
      (hsize : dirp'.bufferSize = dirp.bufferSize)
      (hcookie : dirp'.cookie = placeAfter dirp e result) :
      Goes listing stat dirp passed (e :: rest) (.done (.returned (result.map some), dirp'))
  | grows {rest : List RawEntry} {e : RawEntry} {dirp' : Dir} (hheader : HEADER_SIZE ≤ left dirp)
      (hlarge : dirp.bufferSize < e.size) (hlimit : e.size ≤ SIZE_LIMIT)
      (hfresh : Fresh listing stat dirp' (passed ++ e :: rest))
      (hsize : dirp'.bufferSize = 2 ^ Nat.clog 2 e.size) (hcookie : dirp'.cookie = dirp.cookie) :
      Goes listing stat dirp passed (e :: rest) (.again dirp')
  | endless {rest : List RawEntry} {e : RawEntry} (hheader : HEADER_SIZE ≤ left dirp)
      (hlimit : SIZE_LIMIT < e.size) :
      Goes listing stat dirp passed (e :: rest) (.done (.endless, dirp))
  | overrun {rest : List RawEntry} {e : RawEntry} (hheader : HEADER_SIZE ≤ left dirp)
      (hlimit : SIZE_LIMIT < e.size) :
      Goes listing stat dirp passed (e :: rest) (.done (.overrun, dirp))

theorem Stands.goes (h : Stands listing stat dirp passed rest) :
    Goes listing stat dirp passed rest (round (listing.served stat) dirp) := by
  by_cases hshort : left dirp < HEADER_SIZE
  · by_cases hused : dirp.bufferUsed < dirp.bufferSize
    · obtain rfl := h.eq_nil hshort hused
      rw [round_end hshort hused]
      exact .runsOut hused
    · have hfull : dirp.bufferUsed = dirp.bufferSize :=
        Nat.le_antisymm h.used_le (Nat.not_lt.mp hused)
      obtain ⟨dirp', hround, hfresh, hsize, hcookie⟩ := h.round_refill hshort hfull
      rw [hround]
      exact .refills hfresh hsize hcookie
  · have hheader : HEADER_SIZE ≤ left dirp := Nat.not_lt.mp hshort
    cases rest with
    | nil => exact absurd (h.left_nil ▸ hheader) (by decide)
    | cons e rest =>
        by_cases hwhole : e.size ≤ left dirp
        · cases hanswer : answer stat e with
          | none =>
              obtain ⟨dirp', hround, hstands, -, -, hsize, hcookie⟩ := h.round_skip hwhole hanswer
              rw [hround]
              exact .skips hanswer hwhole hstands hsize hcookie
          | some result =>
              obtain ⟨dirp', passed', rest', hround, hstands, hsize, hcookie⟩ :=
                h.round_answer hwhole hanswer
              rw [hround]
              exact .shows hanswer hwhole hstands hsize hcookie
        · have hcut : left dirp < e.size := Nat.not_le.mp hwhole
          by_cases hlimit : e.size ≤ SIZE_LIMIT
          · by_cases hfits : e.size ≤ dirp.bufferSize
            · obtain ⟨dirp', hround, hfresh, hsize, hcookie⟩ := h.round_again hheader hcut hfits
              rw [hround]
              exact .refills hfresh hsize hcookie
            · have hlarge : dirp.bufferSize < e.size := Nat.not_le.mp hfits
              obtain ⟨dirp', hround, hfresh, hsize, hcookie⟩ := h.round_grow hheader hlarge hlimit
              rw [hround]
              exact .grows hheader hlarge hlimit hfresh hsize hcookie
          · have hbeyond : SIZE_LIMIT < e.size := Nat.not_le.mp hlimit
            obtain hround | hround := h.round_stuck hheader hbeyond
            · rw [hround]
              exact .endless hheader hbeyond
            · rw [hround]
              exact .overrun hheader hbeyond

end Round

end Wasm32

end Dirent

end WasixLibc
