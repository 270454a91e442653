/-
Which calls to `readdir` come to an end, with a 32-bit `size_t`.

The buffer is filled from the cookie on, and a refill without growth fills it
with the same bytes.  So the entries that are skipped have to fit in it
together with the first one that is not, unless it grows on the way.
-/
import WasixLibc.LabelledRun
import WasixLibc.WasmReaddirRound

namespace WasixLibc

namespace Dirent

namespace Wasm32

/-- The call ends with a result. -/
def Ends (env : RawEnv) (dirp : Dir) : Prop :=
  ∃ result dirp', Round.Returns (round env) dirp (.returned result, dirp')

/-- A buffer of a given size is enough to get past the skipped entries, if
`all` follows the cookie. -/
inductive Passes (stat : Name → Except Errno (BitVec 64 × BitVec 32)) (all : List RawEntry) :
    Nat → Prop where
  /-- The first entry that is not skipped fits in the buffer, with those in
  front of it. -/
  | shows {before more : List RawEntry} {e : RawEntry} {size : Nat}
      (hall : all = before ++ e :: more) (hbefore : ∀ x ∈ before, answer stat x = none)
      (hanswer : answer stat e ≠ none) (hfits : total before + e.size ≤ size) :
      Passes stat all size
  /-- All entries are skipped, and they do not fill the buffer. -/
  | runsOut {size : Nat} (hall : ∀ x ∈ all, answer stat x = none) (hfits : total all < size) :
      Passes stat all size
  /-- An entry has its header in the buffer, behind skipped ones, and does not
  fit in a buffer of that size, but in a larger one. -/
  | grows {before more : List RawEntry} {e : RawEntry} {size : Nat}
      (hall : all = before ++ e :: more) (hbefore : ∀ x ∈ before, answer stat x = none)
      (hheader : total before + HEADER_SIZE ≤ size) (hlarge : size < e.size)
      (hlimit : e.size ≤ SIZE_LIMIT) (hmore : Passes stat all (2 ^ Nat.clog 2 e.size)) :
      Passes stat all size

section Ends

variable {listing : RawListing} {stat : Name → Except Errno (BitVec 64 × BitVec 32)}
variable {dirp dirp' : Dir} {all passed rest : List RawEntry} {e : RawEntry}

theorem ends_again {env : RawEnv} (hround : round env dirp = .again dirp') :
    Ends env dirp ↔ Ends env dirp' := by
  unfold Ends
  simp only [Round.returns_again_iff hround]

theorem ends_done {env : RawEnv} {result : Except Errno (Option DirentObject)}
    (hround : round env dirp = .done (.returned result, dirp')) : Ends env dirp :=
  ⟨result, dirp', Round.returns_done hround⟩

/-- The entries that the stream has passed over and the next one were in the
buffer. -/
theorem Stands.total_le_size (h : Stands listing stat dirp passed rest) :
    total passed + left dirp ≤ dirp.bufferSize := by
  have htotal := h.total_le
  have hprocessed := h.processed_le
  have hused := h.used_le
  unfold left
  omega

/-- If a call ends, the buffer was enough. -/
theorem Stands.passes (h : Stands listing stat dirp passed rest)
    (hends : Ends (listing.served stat) dirp) : Passes stat (passed ++ rest) dirp.bufferSize := by
  obtain ⟨result, dirp', hreturns⟩ := hends
  induction hreturns using Round.Returns.induction generalizing passed rest with
  | @done dirp hround =>
      have htotal := h.total_le_size
      have hgoes := h.goes
      rw [hround] at hgoes
      cases hgoes with
      | runsOut hused =>
          refine .runsOut ?_ ?_
          · rw [List.append_nil]
            exact h.skipped
          · have hle := h.total_le
            have hprocessed := h.processed_le
            rw [List.append_nil]
            omega
      | shows hanswer hwhole =>
          exact .shows rfl h.skipped (by simp [hanswer]) (by omega)
  | @again dirp next hround _ ih =>
      have htotal := h.total_le_size
      have hgoes := h.goes
      rw [hround] at hgoes
      cases hgoes with
      | refills hfresh hsize =>
          have hpasses := ih hfresh.toStands
          rw [hsize] at hpasses
          exact hpasses
      | skips hanswer hwhole hstands hsize =>
          rw [← hsize, List.append_cons]
          exact ih hstands
      | grows hheader hlarge hlimit hfresh hsize =>
          refine .grows rfl h.skipped (by omega) hlarge hlimit ?_
          have hpasses := ih hfresh.toStands
          rw [hsize] at hpasses
          exact hpasses

/-! A buffer that is enough -/

/-- The skipped entries that the buffer has are passed over. -/
theorem Stands.pass {before : List RawEntry}
    (h : Stands listing stat dirp passed (before ++ rest))
    (hbefore : ∀ x ∈ before, answer stat x = none) (hleft : total before ≤ left dirp) :
    ∃ dirp', Stands listing stat dirp' (passed ++ before) rest ∧
      left dirp' = left dirp - total before ∧ dirp'.bufferUsed = dirp.bufferUsed ∧
      dirp'.bufferSize = dirp.bufferSize ∧
      (Ends (listing.served stat) dirp ↔ Ends (listing.served stat) dirp') := by
  induction before generalizing dirp passed with
  | nil =>
      refine ⟨dirp, ?_, rfl, rfl, rfl, Iff.rfl⟩
      rw [List.append_nil]
      exact h
  | cons e before ih =>
      rw [total_cons] at hleft
      obtain ⟨next, hround, hstands, hnext, hused, hsize, -⟩ :=
        h.round_skip (by omega) (hbefore e List.mem_cons_self)
      obtain ⟨dirp', hstands', hleft', hused', hsize', hends⟩ :=
        ih hstands (fun x hx => hbefore x (List.mem_cons_of_mem e hx)) (by omega)
      refine ⟨dirp', ?_, ?_, hused'.trans hused, hsize'.trans hsize,
        (ends_again hround).trans hends⟩
      · rw [List.append_cons]
        exact hstands'
      · rw [total_cons]
        omega

/-- A call ends from a buffer that has been filled just now and is enough. -/
theorem Fresh.ends (hfresh : Fresh listing stat dirp all)
    (hpasses : Passes stat all dirp.bufferSize) : Ends (listing.served stat) dirp := by
  generalize hsize : dirp.bufferSize = size at hpasses
  induction hpasses generalizing dirp with
  | @shows before more e size hall hbefore hanswer hfits =>
      subst hall
      have hleft := hfresh.left_eq
      rw [total_append, total_cons] at hleft
      obtain ⟨dirp', hstands, hleft', -, -, hends⟩ :=
        hfresh.toStands.pass hbefore (by omega)
      obtain ⟨result, hresult⟩ := Option.ne_none_iff_exists'.mp hanswer
      obtain ⟨_, _, _, hround, -⟩ := hstands.round_answer (by omega) hresult
      exact hends.mpr (ends_done hround)
  | @runsOut size hall hfits =>
      have hleft := hfresh.left_eq
      have hstands := hfresh.toStands
      rw [← List.append_nil all] at hstands
      obtain ⟨dirp', hstands', hleft', hused, hsize', hends⟩ := hstands.pass hall (by omega)
      refine hends.mpr (ends_done (round_end ?_ ?_))
      · have hpos : 0 < HEADER_SIZE := by decide
        omega
      · have hfilled := hfresh.used_eq
        omega
  | @grows before more e size hall hbefore hheader hlarge hlimit hmore ih =>
      subst hall
      have hleft := hfresh.left_eq
      rw [total_append, total_cons] at hleft
      obtain ⟨dirp', hstands, hleft', -, hsize', hends⟩ :=
        hfresh.toStands.pass hbefore (by omega)
      obtain ⟨next, hround, hfresh', hnext, -⟩ :=
        hstands.round_grow (by omega) (by omega) hlimit
      exact hends.mpr ((ends_again hround).mpr (ih hfresh' hnext))

/-- Two entries of a list are one, or one is in front of the other. -/
theorem append_cons_cases {before more : List RawEntry} {x : RawEntry}
    (h : passed ++ e :: rest = before ++ x :: more) :
    x ∈ passed ∨ e = x ∧ passed = before ∨ e ∈ before := by
  obtain ⟨between, hbefore, hrest⟩ | ⟨between, hpassed, hmore⟩ := List.append_eq_append_iff.mp h
  · cases between with
    | nil =>
        rw [List.nil_append, List.cons.injEq] at hrest
        exact .inr (.inl ⟨hrest.1, by rw [hbefore, List.append_nil]⟩)
    | cons y between =>
        rw [List.cons_append, List.cons.injEq] at hrest
        exact .inr (.inr (by simp [hbefore, hrest.1]))
  · cases between with
    | nil =>
        rw [List.nil_append, List.cons.injEq] at hmore
        exact .inr (.inl ⟨hmore.1.symm, by rw [hpassed, List.append_nil]⟩)
    | cons y between =>
        rw [List.cons_append, List.cons.injEq] at hmore
        exact .inl (by simp [hpassed, hmore.1])

/-- An entry that a buffer is too small for is the one for which it grows. -/
theorem Passes.grown {size : Nat} (h : Passes stat (passed ++ e :: rest) size)
    (hpassed : ∀ x ∈ passed, answer stat x = none) (hfits : total passed ≤ size)
    (hlarge : size < e.size) :
    e.size ≤ SIZE_LIMIT ∧ Passes stat (passed ++ e :: rest) (2 ^ Nat.clog 2 e.size) := by
  cases h with
  | shows hall hbefore hanswer hwhole =>
      obtain hmem | ⟨rfl, -⟩ | hmem := append_cons_cases hall
      · exact absurd (hpassed _ hmem) hanswer
      · omega
      · have hsize := size_le_total hmem
        omega
  | runsOut hall hwhole =>
      have hsize :=
        size_le_total (List.mem_append_right passed (List.mem_cons_self : e ∈ e :: rest))
      omega
  | grows hall hbefore hheader hlarge' hlimit hmore =>
      obtain hmem | ⟨rfl, -⟩ | hmem := append_cons_cases hall
      · have hsize := size_le_total hmem
        omega
      · exact ⟨hlimit, hmore⟩
      · have hsize := size_le_total hmem
        omega

/-- A buffer that has grown is enough as well. -/
theorem Passes.mono {size size' : Nat} (h : Passes stat all size) (hle : size ≤ size')
    (hsize' : Doubled size') : Passes stat all size' := by
  induction h with
  | shows hall hbefore hanswer hfits => exact .shows hall hbefore hanswer (by omega)
  | runsOut hall hfits => exact .runsOut hall (by omega)
  | @grows before more e size hall hbefore hheader hlarge hlimit hmore ih =>
      by_cases hlarge' : size' < e.size
      · exact .grows hall hbefore (by omega) hlarge' hlimit hmore
      · obtain ⟨k, -, rfl⟩ := hsize'
        have hclog : Nat.clog 2 e.size ≤ k := Nat.clog_le_of_le_pow (Nat.not_lt.mp hlarge')
        exact ih (Nat.pow_le_pow_right (by decide) hclog)

/-- A call ends from wherever the stream stands, if the buffer is enough. -/
theorem Stands.ends (h : Stands listing stat dirp passed rest)
    (hpasses : Passes stat (passed ++ rest) dirp.bufferSize) :
    Ends (listing.served stat) dirp := by
  induction rest generalizing dirp passed with
  | nil =>
      have hgoes := h.goes
      generalize hround : round (listing.served stat) dirp = turn at hgoes
      cases hgoes with
      | runsOut => exact ends_done hround
      | refills hfresh hsize => exact (ends_again hround).mpr (hfresh.ends (hsize ▸ hpasses))
  | cons e rest ih =>
      have hgoes := h.goes
      generalize hround : round (listing.served stat) dirp = turn at hgoes
      cases hgoes with
      | refills hfresh hsize => exact (ends_again hround).mpr (hfresh.ends (hsize ▸ hpasses))
      | skips hanswer hwhole hstands hsize =>
          refine (ends_again hround).mpr (ih hstands ?_)
          rw [← List.append_cons, hsize]
          exact hpasses
      | shows => exact ends_done hround
      | grows hheader hlarge hlimit hfresh hsize =>
          have htotal := h.total_le_size
          obtain ⟨-, hmore⟩ := hpasses.grown h.skipped (by omega) hlarge
          rw [← hsize] at hmore
          exact (ends_again hround).mpr (hfresh.ends hmore)
      | endless hheader hlimit =>
          have htotal := h.total_le_size
          have hsize := h.bufferSize.le
          have hlimit' := (hpasses.grown h.skipped (by omega) (by omega)).1
          omega
      | overrun hheader hlimit =>
          have htotal := h.total_le_size
          have hsize := h.bufferSize.le
          have hlimit' := (hpasses.grown h.skipped (by omega) (by omega)).1
          omega

/-- A call ends exactly if the buffer is enough. -/
theorem Stands.ends_iff (h : Stands listing stat dirp passed rest) :
    Ends (listing.served stat) dirp ↔
      Passes stat (listing.after dirp.cookie) dirp.bufferSize := by
  rw [h.after]
  exact ⟨h.passes, h.ends⟩

end Ends

end Wasm32

end Dirent

end WasixLibc
