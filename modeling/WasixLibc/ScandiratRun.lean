/-
What a run of `scandirat` can come to.

A round takes an entry, refills the buffer, or ends the run.  At the label
`bad` everything is given back; the return in the loop keeps it all.  A size
that wraps round ends what can be said about the run.
-/
import Mathlib.Algebra.Order.Group.Multiset
import Mathlib.Tactic.Abel
import WasixLibc.Scandirat
import WasixLibc.WasmReaddirRound

namespace WasixLibc

namespace Dirent

open Wasm32 (Doubled SIZE_LIMIT SIZE_RANGE)

/-- The array, if it was allocated. -/
def Scan.arrayBlock (st : Scan) : Multiset Block := if st.direntsSize = 0 then 0 else {.array}

/-- The most entries that the array comes to have room for. -/
abbrev ARRAY_LIMIT : Nat := 536870912

/-- The sizes that the array goes through. -/
def ArraySize (n : Nat) : Prop := n = 0 ∨ ∃ k, k ≤ 29 ∧ n = 2 ^ k

theorem ArraySize.le {n : Nat} (h : ArraySize n) : n ≤ ARRAY_LIMIT := by
  obtain rfl | ⟨k, hk, rfl⟩ := h
  · exact Nat.zero_le _
  · exact Nat.pow_le_pow_right (by decide) hk

theorem ArraySize.next {n : Nat} (h : ArraySize n)
    (hfits : ¬ SIZE_RANGE ≤ (if n < 8 then 8 else n * 2) * DIRENT_POINTER_SIZE) :
    ArraySize (if n < 8 then 8 else n * 2) := by
  split at hfits
  · rename_i hlt
    rw [if_pos hlt]
    exact .inr ⟨3, by decide, rfl⟩
  · rename_i hge
    rw [if_neg hge]
    obtain rfl | ⟨k, hk, rfl⟩ := h
    · exact .inl rfl
    · refine .inr ⟨k + 1, ?_, (Nat.pow_succ 2 k).symm⟩
      by_contra hlast
      obtain rfl : k = 29 := by omega
      exact hfits (by decide)

/-- What is held is the directory, the buffer, the array and its entries. -/
structure Scan.Owns (st : Scan) : Prop where
  held : st.held = st.arrayBlock + st.direntBlocks + {.buffer} + {.fd}
  used_le : st.dirents.length ≤ st.direntsSize
  arraySize : ArraySize st.direntsSize

/-- The call is between two rounds, and `rest` is still to be taken. -/
structure Scan.Stands (listing : Listing) (st : Scan) (rest : List Entry) : Prop where
  cursor : Cursor.At listing st.toCursor rest
  owns : st.Owns
  bufferSize : Doubled st.bufferSize

/-- The allocator or the host fails at some time. -/
def Env.Fails (env : Env) : Prop :=
  (∃ n, env.alloc n = false) ∨ ∃ n e, env.hostError n = some e

/-- What `scandirat` makes of an entry. -/
def scanned (stat : Name → Except Errno (BitVec 64 × BitVec 32)) (e : Entry) :
    Except Errno DirentObject :=
  (scanLookUp stat e.header e.name).map fun (dIno, dType) => ⟨dIno, dType, e.name⟩

/-- No buffer has room for an entry that is left, or the array has none for all
of them. -/
def Scan.TooLarge (st : Scan) (rest : List Entry) : Prop :=
  (∃ e ∈ rest, SIZE_LIMIT < e.encode.length) ∨ ARRAY_LIMIT < st.dirents.length + rest.length

/-- What one round can do if `rest` is left of the listing. -/
inductive ScanStep (env : Env) (st : Scan) : List Entry → ScanTurn → Prop
  | finish {names : List DirentObject} {held : Multiset Block}
      (hperm : names.Perm (st.dirents.map Prod.snd)) :
      ScanStep env st [] (.done (.returned (.ok names) held))
  | refilled {st' : Scan} {rest : List Entry} (hstands : st'.Stands env.listing rest)
      (hdirents : st'.dirents = st.dirents) (hstage : st'.stage rest < st.stage rest) :
      ScanStep env st rest (.again st')
  | taken {st' : Scan} {e : Entry} {rest : List Entry} {id : Nat} {object : DirentObject}
      (hstands : st'.Stands env.listing rest) (hsize : e.encode.length ≤ SIZE_LIMIT)
      (hscanned : scanned env.stat e = .ok object)
      (hdirents : st'.dirents = st.dirents ++ [(id, object)]) :
      ScanStep env st (e :: rest) (.again st')
  | failed {err : Errno} {rest : List Entry} (hfails : env.Fails) :
      ScanStep env st rest (.done (.returned (.error err) 0))
  | leave {err : Errno} {e : Entry} {rest : List Entry} {held : Multiset Block}
      (hscanned : scanned env.stat e = .error err) (hfd : .fd ∈ held) :
      ScanStep env st (e :: rest) (.done (.returned (.error err) held))
  | endless {rest : List Entry} (hlarge : st.TooLarge rest) : ScanStep env st rest (.done .endless)
  | overrun {rest : List Entry} (hlarge : st.TooLarge rest) : ScanStep env st rest (.done .overrun)

theorem Scan.Owns.cleanUp_eq_zero {st : Scan} (h : st.Owns) : st.cleanUp = 0 := by
  have harray : st.arrayBlock - {.array} = 0 := by
    unfold arrayBlock
    split <;> rfl
  unfold cleanUp
  rw [h.held]
  calc st.arrayBlock + st.direntBlocks + {.buffer} + {.fd} - st.direntBlocks - {.array} -
        {.buffer} - {.fd}
      = st.arrayBlock + {.buffer} + {.fd} + st.direntBlocks - st.direntBlocks - {.array} -
          {.buffer} - {.fd} := by congr 4; abel
    _ = st.arrayBlock + ({.buffer} + {.fd}) - ({.array} + ({.buffer} + {.fd})) := by
        rw [add_tsub_cancel_right, tsub_tsub, tsub_tsub, add_assoc]
    _ = 0 := by rw [add_tsub_add_eq_tsub_right, harray]

/-- Everything is given back at the label `bad`. -/
theorem Scan.Owns.bad {st : Scan} (h : st.Owns) (e : Errno) :
    st.bad e = .done (.returned (.error e) 0) := by
  unfold Scan.bad
  rw [h.cleanUp_eq_zero]

section Round

variable {env : Env} {st : Scan} {rest : List Entry} {e : Entry}

/-- A refill of the buffer, whether it was grown before or not. -/
theorem scanEntries_step {from' : Scan} (hbased : Cursor.Based env.listing st.toCursor rest)
    (howns : st.Owns) (hsize : Doubled st.bufferSize) (hdirents : st.dirents = from'.dirents)
    (hstage : (st.toCursor.fill (fdReaddir env.listing st.cookie st.bufferSize)).stage rest <
      from'.stage rest) : ScanStep env from' rest (scanEntries env st) := by
  unfold scanEntries
  cases herror : env.hostError st.reads with
  | some err =>
      dsimp only
      rw [howns.bad]
      exact .failed (Or.inr ⟨_, err, herror⟩)
  | none =>
      exact .refilled ⟨hbased.fill, ⟨howns.held, howns.used_le, howns.arraySize⟩, hsize⟩ hdirents
        hstage

theorem direntBlocks_concat (st : Scan) (id : Nat) (object : DirentObject) :
    (((st.dirents ++ [(id, object)]).map fun entry => Block.dirent entry.1 : List Block) :
      Multiset Block) = st.direntBlocks + {.dirent id} := by
  rw [List.map_append, ← Multiset.coe_add]
  rfl

/-- A new entry goes to the array, or is freed, or there is no array that is
large enough. -/
theorem collect_step (env : Env) (st : Scan) {id : Nat} (object : DirentObject)
    (hheld : st.held = st.arrayBlock + st.direntBlocks + {.buffer} + {.fd} + {.dirent id})
    (hused : st.dirents.length ≤ st.direntsSize) (harray : ArraySize st.direntsSize) :
    (∃ st', st.collect env id object = .again st' ∧ st'.Owns ∧
      st'.toCursor = st.toCursor ∧ st'.dirents = st.dirents ++ [(id, object)]) ∨
    st.collect env id object = .done (.returned (.error .enomem) 0) ∧ env.Fails ∨
    st.collect env id object = .done .overrun ∧ ARRAY_LIMIT ≤ st.dirents.length := by
  have hblocks := direntBlocks_concat st id object
  unfold Scan.collect
  by_cases hfull : st.dirents.length = st.direntsSize
  · rw [if_pos hfull]
    dsimp only
    by_cases hwraps : SIZE_RANGE ≤
        (if st.direntsSize < 8 then 8 else st.direntsSize * 2) * DIRENT_POINTER_SIZE
    · rw [if_pos hwraps]
      refine Or.inr (Or.inr ⟨rfl, ?_⟩)
      split at hwraps
      · exact absurd hwraps (by decide)
      · unfold SIZE_RANGE DIRENT_POINTER_SIZE at hwraps
        unfold ARRAY_LIMIT
        omega
    · rw [if_neg hwraps]
      cases halloc : env.alloc st.allocs with
      | true =>
          refine Or.inl ⟨_, if_pos rfl, ⟨?_, ?_, harray.next hwraps⟩, rfl, rfl⟩
          · unfold Scan.arrayBlock Scan.direntBlocks at *
            have hnew : (if st.direntsSize < 8 then 8 else st.direntsSize * 2) ≠ 0 := by
              split <;> omega
            simp only [hnew, ↓reduceIte, hblocks, hheld]
            split <;> abel
          · rw [List.length_append, List.length_singleton]
            dsimp only
            split <;> omega
      | false =>
          refine Or.inr (Or.inl ⟨?_, Or.inl ⟨_, halloc⟩⟩)
          have howns : Scan.Owns { st with held := st.held - {.dirent id} } := by
            refine ⟨?_, hused, harray⟩
            dsimp only
            rw [hheld]
            exact Multiset.add_sub_cancel_right
          rw [if_neg (by simp), howns.bad]
  · rw [if_neg hfull]
    refine Or.inl ⟨_, rfl, ⟨?_, ?_, harray⟩, rfl, rfl⟩
    · unfold Scan.arrayBlock Scan.direntBlocks at *
      simp only [hblocks, hheld]
      abel
    · rw [List.length_append, List.length_singleton]
      dsimp only
      omega

theorem addEntry_step (hready : Cursor.At env.listing (st.toCursor.advance e.header) rest)
    (howns : st.Owns) (hbuffer : Doubled st.bufferSize) (hsize : e.encode.length ≤ SIZE_LIMIT)
    {st' : Scan} (hst' : st' = { st with
      bufferProcessed := st.bufferProcessed + (HEADER_SIZE + e.header.dNamlen.toNat) }) :
    ScanStep env st (e :: rest) (addEntry env selTrue e.header e.name st') := by
  subst hst'
  unfold addEntry
  dsimp only
  cases halloc : env.alloc st.allocs with
  | false =>
      have hmoved : Scan.Owns { st with
          bufferProcessed := st.bufferProcessed + (HEADER_SIZE + e.header.dNamlen.toNat) } :=
        ⟨howns.held, howns.used_le, howns.arraySize⟩
      rw [if_neg (by simp), hmoved.bad]
      exact .failed (Or.inl ⟨_, halloc⟩)
  | true =>
      rw [if_pos rfl]
      cases hlook : scanLookUp env.stat e.header e.name with
      | error err =>
          have hscanned : scanned env.stat e = .error err := by
            unfold scanned
            rw [hlook]
            rfl
          refine .leave hscanned ?_
          rw [howns.held]
          simp
      | ok found =>
          obtain ⟨dIno, dType⟩ := found
          have hscanned : scanned env.stat e = .ok ⟨dIno, dType, e.name⟩ := by
            unfold scanned
            rw [hlook]
            rfl
          simp only [selTrue, ↓reduceIte]
          rcases collect_step env { st with
                bufferProcessed := st.bufferProcessed + (HEADER_SIZE + e.header.dNamlen.toNat)
                held := st.held + {Block.dirent st.allocs}
                allocs := st.allocs + 1
                cookie := e.header.dNext } ⟨dIno, dType, e.name⟩
              (congrArg (· + {Block.dirent st.allocs}) howns.held) howns.used_le
              howns.arraySize with
            ⟨st', hcollect, howns', hcursor, hdirents⟩ | ⟨hcollect, hfails⟩ | ⟨hcollect, hmany⟩
          · rw [hcollect]
            refine .taken ⟨hcursor.symm ▸ hready, howns', ?_⟩ hsize hscanned hdirents
            exact hcursor.symm ▸ hbuffer
          · rw [hcollect]
            exact .failed hfails
          · rw [hcollect]
            refine .overrun (Or.inr ?_)
            rw [List.length_cons]
            dsimp only at hmany
            omega

/-- An entry that is cut off is read again, to a buffer that it fits in. -/
theorem scanAgain_step (h : st.Stands env.listing (e :: rest))
    (hheader : HEADER_SIZE ≤ st.bufferUsed - st.bufferProcessed) (hready : ¬ st.toCursor.Ready e)
    (hsize : e.encode.length ≤ SIZE_LIMIT) :
    ScanStep env st (e :: rest) (scanAgain env e.encode.length st) := by
  obtain ⟨newSize, hgrow, hdoubled, hle, hfits⟩ := Wasm32.growSize_doubled h.bufferSize hsize
  unfold scanAgain
  rw [hgrow]
  dsimp only
  cases halloc : env.alloc st.allocs with
  | false =>
      rw [if_neg (by simp), h.owns.bad]
      exact .failed (Or.inl ⟨_, halloc⟩)
  | true =>
      rw [if_pos rfl]
      have hbased := h.cursor.toBased.grow hle
      refine scanEntries_step hbased ⟨h.owns.held, h.owns.used_le, h.owns.arraySize⟩ hdoubled rfl ?_
      exact Cursor.stage_cut hheader hready (hbased.fill_ready hfits)

/-- What a round makes of an entry of which the buffer has the header. -/
theorem scanRound_header (compar : Sorter) (h : st.Stands env.listing (e :: rest))
    (hheader : HEADER_SIZE ≤ st.bufferUsed - st.bufferProcessed) :
    ScanStep env st (e :: rest) (scanRound env selTrue compar st) := by
  have hlength := e.length_encode
  have hnamlen := e.toNat_dNamlen
  have hbuffer := h.bufferSize.le
  have hused := h.cursor.used_le
  have hnonempty := e.dNamlen_ne_zero
  unfold scanRound
  dsimp only
  rw [if_neg (Nat.not_lt.mpr hheader), h.cursor.header_eq hheader, if_neg hnonempty, hnamlen,
    ← hlength]
  by_cases hready : st.toCursor.Ready e
  · have hready' := hready
    unfold Cursor.Ready at hready'
    have hsize : e.encode.length ≤ SIZE_LIMIT := by omega
    rw [Wasm32.mod_range hsize, if_neg (by omega), if_neg (by omega), ← hnamlen,
      h.cursor.name_eq hready, if_neg e.nul_not_mem]
    refine addEntry_step (h.cursor.advance hready) h.owns h.bufferSize hsize ?_
    rw [hnamlen, ← hlength]
  · have hcut := hready
    unfold Cursor.Ready at hcut
    by_cases hsize : e.encode.length ≤ SIZE_LIMIT
    · rw [Wasm32.mod_range hsize, if_pos (by omega)]
      exact scanAgain_step h hheader hready hsize
    · have hlarge : st.TooLarge (e :: rest) :=
        Or.inl ⟨e, List.mem_cons_self, Nat.not_le.mp hsize⟩
      by_cases hrange : e.encode.length < SIZE_RANGE
      · rw [Nat.mod_eq_of_lt hrange, if_pos (by omega)]
        unfold scanAgain
        rw [Wasm32.growSize_endless h.bufferSize (Nat.not_le.mp hsize)]
        exact .endless hlarge
      · -- the size is 2^32 and less than a header more
        have hshort : e.encode.length % SIZE_RANGE < HEADER_SIZE := by
          have hlt := e.length_lt
          unfold HEADER_SIZE at *
          unfold SIZE_RANGE at *
          omega
        rw [if_neg (by omega), if_pos (by omega)]
        exact .overrun hlarge

theorem scanRound_step (compar : Sorter) (h : st.Stands env.listing rest) :
    ScanStep env st rest (scanRound env selTrue compar st) := by
  have hpos : 0 < HEADER_SIZE := by decide
  by_cases hshort : st.bufferUsed - st.bufferProcessed < HEADER_SIZE
  · unfold scanRound
    dsimp only
    rw [if_pos hshort]
    split
    · rename_i hused
      obtain rfl := h.cursor.eq_nil_of_not_full hshort hused
      exact .finish (compar.perm _)
    · rename_i hused
      have hfull : st.bufferUsed = st.bufferSize :=
        Nat.le_antisymm h.cursor.used_le (by omega)
      exact scanEntries_step h.cursor.toBased h.owns h.bufferSize rfl
        (h.cursor.toBased.stage_fill hshort hfull)
  · cases rest with
    | nil =>
        have hprocessed := h.cursor.used_eq_processed
        omega
    | cons e rest => exact scanRound_header compar h (Nat.le_of_not_lt hshort)

end Round

/-! Runs -/

/-- How a run can end if `rest` is left at its start. -/
inductive ScanOutcome (env : Env) (st : Scan) (rest : List Entry) : ScanEnd → Prop
  | collected {names : List DirentObject} (objects : List DirentObject) {held : Multiset Block}
      (hsmall : ∀ e ∈ rest, e.encode.length ≤ SIZE_LIMIT) (hcount : names.length ≤ ARRAY_LIMIT)
      (hscanned : rest.map (scanned env.stat) = objects.map .ok)
      (hperm : names.Perm (st.dirents.map Prod.snd ++ objects)) :
      ScanOutcome env st rest (.returned (.ok names) held)
  | failed (err : Errno) (hfails : env.Fails) :
      ScanOutcome env st rest (.returned (.error err) 0)
  | left {e : Entry} {err err' : Errno} {held : Multiset Block} (he : e ∈ rest)
      (hscanned : scanned env.stat e = .error err) (hfd : .fd ∈ held) :
      ScanOutcome env st rest (.returned (.error err') held)
  | endless (hlarge : st.TooLarge rest) : ScanOutcome env st rest .endless
  | overrun (hlarge : st.TooLarge rest) : ScanOutcome env st rest .overrun

/-- What is too large after an entry was taken is so in front of it. -/
theorem Scan.TooLarge.taken {st st' : Scan} {e : Entry} {rest : List Entry} {id : Nat}
    {object : DirentObject} (hdirents : st'.dirents = st.dirents ++ [(id, object)])
    (h : st'.TooLarge rest) : st.TooLarge (e :: rest) := by
  obtain ⟨x, hx, hlarge⟩ | hmany := h
  · exact Or.inl ⟨x, List.mem_cons_of_mem e hx, hlarge⟩
  · right
    rw [hdirents, List.length_append, List.length_singleton] at hmany
    rw [List.length_cons]
    omega

theorem Scan.TooLarge.refilled {st st' : Scan} {rest : List Entry}
    (hdirents : st'.dirents = st.dirents) (h : st'.TooLarge rest) : st.TooLarge rest := by
  unfold Scan.TooLarge at *
  rwa [hdirents] at h

/-- An entry that was taken is in front of what is collected after it. -/
theorem ScanOutcome.taken {env : Env} {st st' : Scan} {e : Entry} {rest : List Entry} {id : Nat}
    {object : DirentObject} {ended : ScanEnd} (hsize : e.encode.length ≤ SIZE_LIMIT)
    (hscanned : scanned env.stat e = .ok object)
    (hdirents : st'.dirents = st.dirents ++ [(id, object)]) (h : ScanOutcome env st' rest ended) :
    ScanOutcome env st (e :: rest) ended := by
  cases h with
  | @collected names objects held hsmall hcount hrest hperm =>
      refine .collected (object :: objects) (List.forall_mem_cons.mpr ⟨hsize, hsmall⟩) hcount ?_ ?_
      · rw [List.map_cons, List.map_cons, hscanned, hrest]
      · rw [hdirents, List.map_append, List.append_assoc] at hperm
        exact hperm
  | failed err hfails => exact .failed err hfails
  | left he hleft hfd => exact .left (List.mem_cons_of_mem _ he) hleft hfd
  | endless hlarge => exact .endless (hlarge.taken hdirents)
  | overrun hlarge => exact .overrun (hlarge.taken hdirents)

theorem ScanOutcome.refilled {env : Env} {st st' : Scan} {rest : List Entry} {ended : ScanEnd}
    (hdirents : st'.dirents = st.dirents) (h : ScanOutcome env st' rest ended) :
    ScanOutcome env st rest ended := by
  cases h with
  | collected objects hsmall hcount hscanned hperm =>
      exact .collected objects hsmall hcount hscanned (hdirents ▸ hperm)
  | failed err hfails => exact .failed err hfails
  | left he hscanned hfd => exact .left he hscanned hfd
  | endless hlarge => exact .endless (hlarge.refilled hdirents)
  | overrun hlarge => exact .overrun (hlarge.refilled hdirents)

/-- A round that ends the call ends it in one of these ways. -/
theorem ScanStep.outcome {env : Env} {st : Scan} {rest : List Entry} {ended : ScanEnd}
    (hstands : st.Stands env.listing rest) (h : ScanStep env st rest (.done ended)) :
    ScanOutcome env st rest ended := by
  cases h with
  | @finish names held hperm =>
      refine .collected [] (by simp) ?_ rfl (by rwa [List.append_nil])
      rw [hperm.length_eq, List.length_map]
      exact Nat.le_trans hstands.owns.used_le hstands.owns.arraySize.le
  | failed hfails => exact .failed _ hfails
  | leave hscanned hfd => exact .left List.mem_cons_self hscanned hfd
  | endless hlarge => exact .endless hlarge
  | overrun hlarge => exact .overrun hlarge

/-- What is still to be done: an entry counts for more than the refills in front
of it. -/
def Scan.pending (listing : Listing) (st : Scan) : Nat :=
  3 * (listing.after st.cookie).length + st.stage (listing.after st.cookie)

/-- A round ends the call, or leaves less to be done. -/
theorem scanRound_progress {env : Env} (compar : Sorter) {st : Scan}
    (hstands : st.Stands env.listing (env.listing.after st.cookie)) :
    (∃ ended, scanRound env selTrue compar st = .done ended ∧
      ScanOutcome env st (env.listing.after st.cookie) ended) ∨
    ∃ st', scanRound env selTrue compar st = .again st' ∧
      st'.Stands env.listing (env.listing.after st'.cookie) ∧
      st'.pending env.listing < st.pending env.listing ∧
      ∀ ended, ScanOutcome env st' (env.listing.after st'.cookie) ended →
        ScanOutcome env st (env.listing.after st.cookie) ended := by
  have hstep := scanRound_step compar hstands
  cases hround : scanRound env selTrue compar st with
  | done ended =>
      rw [hround] at hstep
      exact Or.inl ⟨ended, rfl, hstep.outcome hstands⟩
  | again st' =>
      rw [hround] at hstep
      refine Or.inr ⟨st', rfl, ?_⟩
      unfold Scan.pending
      generalize env.listing.after st.cookie = rest at *
      cases hstep with
      | refilled hstands' hdirents hstage =>
          rw [hstands'.cursor.after]
          exact ⟨hstands', by omega, fun ended h => h.refilled hdirents⟩
      | @taken _ e rest id object hstands' hsize hscanned hdirents =>
          have hstage := st'.toCursor.stage_le rest
          rw [hstands'.cursor.after, List.length_cons]
          exact ⟨hstands', by omega, fun ended h => h.taken hsize hscanned hdirents⟩

/-- Every run ends, and ends in one of these ways. -/
theorem scanLoop_ends (env : Env) (compar : Sorter) {st : Scan}
    (hstands : st.Stands env.listing (env.listing.after st.cookie)) :
    ∃ bound ended, Round.loop (scanRound env selTrue compar) bound st = some ended ∧
      ScanOutcome env st (env.listing.after st.cookie) ended :=
  ⟨_, Round.loop_of_measure (Scan.pending env.listing)
    (fun _ h => scanRound_progress compar h) hstands (Nat.lt_succ_self _)⟩

theorem Scan.start_stands (listing : Listing) : Scan.start.Stands listing listing.entries where
  cursor := by
    have hbased : Cursor.Based listing Scan.start.toCursor listing.entries :=
      ⟨listing.after_start, by decide, List.length_replicate⟩
    exact hbased.exhaust listing.after_start
  owns := ⟨by decide, Nat.le_refl 0, .inl rfl⟩
  bufferSize := ⟨12, by decide, rfl⟩

end Dirent

end WasixLibc
