/-
Where the bytes of a shared mapping are written back to.

A region that is cut leaves fragments, each with the file offset and the
backed bytes of its own pages.  The fragments of one mapping are the regions
that hold its `file_ref`; what they owe to the mapping is an invariant of runs,
and so is the descriptor of the reference, the duplicate that `mmap` made.  What
`munmap` and `msync` write to it follows.
-/
import WasixLibc.MmanAllocation
import WasixLibc.MmanCover
import WasixLibc.MmanFileRef

namespace WasixLibc

namespace Mman

open SpanList ListZipper

/-! Fragments -/

/-- What unmapping may leave of `r` with its reference. -/
inductive PieceOf (r : Region) : Region → Prop
  | whole : PieceOf r r
  | head {ostart : Nat} : r.base < ostart → ostart < r.limit → PieceOf r (r.headTo ostart)
  | tail {oend : Nat} : r.base ≤ oend → oend < r.limit → r.limit < 4294967296 →
      PieceOf r (r.tailFrom oend)

theorem PieceOf.fref_eq {r q : Region} (h : PieceOf r q) : q.fref = r.fref := by
  cases h <;> rfl

theorem carve_pieceOf {start stop : Nat} {r q : Region} (hr : r.Ok)
    (hrange : PageRange start stop) (hbase : r.base < stop) (hbeyond : Beyond start r)
    (hq : q ∈ carve start stop r) (hfref : q.fref ≠ none) : PieceOf r q := by
  by_cases hfree : r.kind = .rFree
  · simp only [carve, hfree, ↓reduceIte, List.mem_singleton] at hq
    exact hq ▸ .whole
  rcases Nat.lt_or_eq_of_le hr.limit_le with htop | htop
  · have hlimit := hbeyond.lt_limit hr
    obtain ⟨freed, hfreed, heq⟩ := carve_eq hr hfree htop ⟨hrange, hbase, hlimit⟩
    rw [heq] at hq
    rcases List.mem_append.mp hq with hhead | hrest
    · split at hhead
      · rename_i hlt
        rw [List.mem_singleton.mp hhead]
        exact .head hlt hlimit
      · simp at hhead
    · rcases List.mem_cons.mp hrest with rfl | htail
      · exact absurd hfreed.fref_eq hfref
      · split at htail
        · rename_i hlt
          rw [List.mem_singleton.mp htail]
          exact .tail (Nat.le_of_lt hbase) hlt htop
        · simp at htail
  · have hstart := hrange.start_lt_stop
    rw [carve_eq_of_top hfree htop (by omega) (hbeyond.lt_base_of_top htop)] at hq
    rw [List.mem_singleton.mp hq] at hfref
    exact absurd rfl hfref

theorem carveAll_pieceOf {start stop : Nat} {post : List Region} {q : Region}
    (hok : ∀ r ∈ post, r.Ok) (hrange : PageRange start stop)
    (hbeyond : ∀ r ∈ post, Beyond start r) (hq : q ∈ carveAll start stop post)
    (hfref : q.fref ≠ none) : ∃ r ∈ post, PieceOf r q := by
  induction post with
  | nil => simp [carveAll] at hq
  | cons r rest ih =>
      by_cases hlt : r.base < stop
      · simp only [carveAll, hlt, ↓reduceIte] at hq
        rcases List.mem_append.mp hq with hq | hq
        · exact ⟨r, List.mem_cons_self, carve_pieceOf (hok r List.mem_cons_self) hrange hlt
            (hbeyond r List.mem_cons_self) hq hfref⟩
        · obtain ⟨r', hr', hpiece⟩ := ih (fun p hp => hok p (List.mem_cons_of_mem r hp))
            (fun p hp => hbeyond p (List.mem_cons_of_mem r hp)) hq
          exact ⟨r', List.mem_cons_of_mem r hr', hpiece⟩
      · simp only [carveAll, hlt, ↓reduceIte] at hq
        exact ⟨q, hq, .whole⟩

/-- Merging touches free regions only, which hold no reference. -/
theorem coalesceFrom_mem {stop : Nat} {r q : Region} {rest : List Region}
    (hfree : ∀ p ∈ r :: rest, p.kind = .rFree → p.fref = none)
    (hq : q ∈ coalesceFrom stop r rest) (hfref : q.fref ≠ none) : q ∈ r :: rest := by
  induction rest generalizing r with
  | nil => exact hq
  | cons next rest ih =>
      have htail := List.forall_mem_cons.mp hfree
      simp only [coalesceFrom] at hq
      split at hq
      · split at hq
        · rename_i htouch
          have hmerged : ∀ p ∈ mergeRegions r next :: rest,
              p.kind = .rFree → p.fref = none :=
            List.forall_mem_cons.mpr ⟨htail.1, (List.forall_mem_cons.mp htail.2).2⟩
          rcases List.mem_cons.mp (ih hmerged hq) with rfl | hrest
          · exact absurd (htail.1 htouch.1) hfref
          · simp [hrest]
        · rcases List.mem_cons.mp hq with rfl | hq
          · exact List.mem_cons_self
          · exact List.mem_cons_of_mem r (ih htail.2 hq)
      · exact hq

theorem coalesceAround_mem {start stop : Nat} {st : State} {q : Region}
    (hok : TableOk st.regs) (hq : q ∈ (coalesceAround start stop st).regs)
    (hfref : q.fref ≠ none) : q ∈ st.regs := by
  rcases coalesceAround_cases start stop st with ⟨_, hsame⟩ |
    ⟨pre, r, rest, hregs, _, hregs'⟩
  · exact hsame ▸ hq
  rw [hregs'] at hq
  rw [hregs] at hok ⊢
  rcases List.mem_append.mp hq with hq | hq
  · exact List.mem_append_left _ hq
  · refine List.mem_append_right pre (coalesceFrom_mem ?_ hq hfref)
    exact fun p hp => (hok.append_right.regions p hp).free_fref

theorem unmapRange_pieceOf {start stop : Nat} {ans : PwriteAnswers} {st st' : State}
    {q : Region} (hok : TableOk st.regs) (hrange : UnmapRange start stop)
    (h : unmapRange start stop ans st = .ok st') (hq : q ∈ st'.regs)
    (hfref : q.fref ≠ none) : ∃ r ∈ st.regs, PieceOf r q := by
  obtain ⟨pre, post, st₁, hregs, hidx, hturns, rfl⟩ := unmapRange_spec h
  have hcarved := hturns.regs hregs
  rw [hregs] at hok hidx
  have hok₁ := (carved_ok hok hrange hidx).2
  rw [← hcarved] at hok₁
  have hq₁ := coalesceAround_mem hok₁ hq hfref
  rw [hcarved] at hq₁
  rw [hregs]
  rcases List.mem_append.mp hq₁ with hq₁ | hq₁
  · exact ⟨q, List.mem_append_left post hq₁, .whole⟩
  · rcases hrange with hrange | rfl
    · obtain ⟨r, hr, hpiece⟩ := carveAll_pieceOf hok.append_right.regions hrange
        (firstOverlap_beyond hok hidx) hq₁ hfref
      exact ⟨r, List.mem_append_right pre hr, hpiece⟩
    · rw [carveAll_zero] at hq₁
      exact ⟨q, List.mem_append_right pre hq₁, .whole⟩

/-! A region with a reference after a step is a fragment of one before it -/

theorem Acquired.backedBy_old {st st' : State} {idx base len n : Nat} {kind : Kind}
    {prot flags : BitVec 32} {off : Int} {q : Region}
    (h : Acquired st st' idx (liveRegion base len kind prot flags)) (hinv : RefInv st)
    (hq : q ∈ (updateAt idx (Region.backedBy off n) st').regs) (hfref : q.fref ≠ none) :
    q ∈ st.regs := by
  have hold := (h.frefs hinv).2
  obtain ⟨pre, rest, hregs, rfl⟩ := h.table
  simp only [updateAt, hregs, modify_boundary, List.mem_append, List.mem_cons] at hq
  rcases hq with hq | rfl | hq
  · exact hold q (by simp [hregs, hq]) hfref
  · exact absurd rfl hfref
  · exact hold q (by simp [hregs, hq]) hfref

theorem MmapOutcome.pieceOf {length prot flags : BitVec 32} {fd offset : Int}
    {st st' : State} {ret : Option Nat}
    (h : MmapOutcome length prot flags fd offset st ret st') (hpool : PoolInv st)
    (hinv : RefInv st)
    (hhost : ∀ base len, st'.grown = (base, len) :: st.grown → SbrkOk st base len)
    {q : Region} (hq : q ∈ st'.regs) {p : Nat} (hp : q.fref = some p)
    (hlt : p < st.nextPtr) : ∃ r ∈ st.regs, PieceOf r q := by
  have hfref : q.fref ≠ none := by
    rw [hp]
    exact Option.some_ne_none p
  cases h with
  | refused hsame _ _ => exact ⟨q, hsame.regs_eq ▸ hq, .whole⟩
  | anonymous _ _ hacq => exact ⟨q, (hacq.frefs hinv).2 q hq hfref, .whole⟩
  | @file st₁ st₂ _ idx bytes _ _ hacq hfill _ =>
      have hsame := updateAt_sameTable idx (Region.backedBy offset bytes.length) hfill.table
      have hq₁ : q ∈ (updateAt idx (Region.backedBy offset bytes.length) st₁).regs :=
        hsame.regs_eq ▸ hq
      exact ⟨q, hacq.backedBy_old hinv hq₁ hfref, .whole⟩
  | @shared st₁ st₂ base idx newfd bytes _ _ hacq hfill _ =>
      have hsame := updateAt_sameTable idx (Region.backedBy offset bytes.length) hfill.table
      have hnext : st₂.nextPtr = st.nextPtr :=
        hfill.table.nextPtr_eq.trans hacq.placed.nextPtr_eq
      obtain ⟨pre, rest, hregs, hidx⟩ := hacq.table
      have hregs₁ : (updateAt idx (Region.backedBy offset bytes.length) st₁).regs =
          pre ++ (liveRegion base (pageCeil length.toNat) .rFile prot flags).backedBy offset
            bytes.length :: rest := by
        simp only [updateAt, hregs, hidx, modify_boundary]
      have hregs₂ : (updateAt idx (Region.backedBy offset bytes.length) st₂).regs =
          pre ++ (liveRegion base (pageCeil length.toNat) .rFile prot flags).backedBy offset
            bytes.length :: rest := hsame.regs_eq.trans hregs₁
      have hq' : q ∈ (updateAt idx (Region.backedBy offset bytes.length) st₂).regs.modify idx
          fun r => { r with fref := some st₂.nextPtr } := hq
      rw [hregs₂, hidx, modify_boundary] at hq'
      have hold : q ∈ (updateAt idx (Region.backedBy offset bytes.length) st₁).regs := by
        rw [hregs₁]
        simp only [List.mem_append, List.mem_cons] at hq' ⊢
        rcases hq' with hq' | rfl | hq'
        · exact Or.inl hq'
        · have hnew : st₂.nextPtr = p := Option.some.inj hp
          omega
        · exact Or.inr (Or.inr hq')
      exact ⟨q, hacq.backedBy_old hinv hold hfref, .whole⟩
  | @undone st₁ st₂ st₃ _ base idx n off ans e hcheck hacq hn hsame _ _ hrun heq =>
      subst heq
      have hnew := hacq.newRegion_backedBy (pageCeil_pos_of_check hcheck) hn hsame
      obtain ⟨hentered, hpool₂, _⟩ := hnew.unmapped hpool hrun (hhost base _)
      have hrange := hentered.unmapRange hnew.1 (pageCeil_dvd _)
      have hq₃ : q ∈ st₃.regs := hq
      obtain ⟨r, hr, hpiece⟩ := unmapRange_pieceOf hpool₂.tableOk hrange hrun hq₃ hfref
      refine ⟨r, hacq.backedBy_old hinv (hsame.regs_eq ▸ hr) ?_, hpiece⟩
      exact hpiece.fref_eq ▸ hfref

theorem Step.pieceOf {st st' : State} {l : Label} (h : Step SbrkOk st l st')
    (hpool : PoolInv st) (hinv : RefInv st) {q : Region} (hq : q ∈ st'.regs) {p : Nat}
    (hp : q.fref = some p) (hlt : p < st.nextPtr) : ∃ r ∈ st.regs, PieceOf r q := by
  cases h with
  | call hexec hhost =>
      rcases Call.exec_cases hexec with ⟨_, _, _, _, _, _, _, _, houtcome⟩ |
        ⟨_, _, _, _, _, houtcome⟩ | ⟨_, _, _, _, _, _, hrun⟩
      · exact houtcome.pieceOf hpool hinv hhost hq hp hlt
      · cases houtcome with
        | refused hsame _ _ => exact ⟨q, hsame.regs_eq ▸ hq, .whole⟩
        | @unmapped _ cap _ hrange _ hrun =>
            have hok : TableOk { st with capregs := cap }.regs := hpool.tableOk
            have hfref : q.fref ≠ none := by
              rw [hp]
              exact Option.some_ne_none p
            have hpiece := unmapRange_pieceOf hok (Or.inl hrange) hrun hq hfref
            exact hpiece
      · exact ⟨q, (msync_onlyLogs hrun).regs_eq ▸ hq, .whole⟩
  | store mem => exact ⟨q, hq, .whole⟩

/-! The offset and the backed bytes of a fragment -/

/-- `r` is a fragment of a mapping at `base` of the file from `off` on, of
which the file backed the first `total` bytes. -/
structure Fragment (base : Nat) (off : Int) (total : Nat) (r : Region) : Prop where
  file : r.kind = .rFile
  writable : r.prot &&& PROT_WRITE ≠ 0
  low : base ≤ r.base
  off_eq : r.off = off + ((r.base - base : Nat) : Int)
  data_eq : r.dataLen = min r.len (base + total - r.base)

theorem PieceOf.fragment {r q : Region} {base total : Nat} {off : Int} (h : PieceOf r q)
    (hr : r.Ok) (hfrag : Fragment base off total r) : Fragment base off total q := by
  have hfile := hfrag.file
  have hlow := hfrag.low
  have hoff := hfrag.off_eq
  have hdata := hfrag.data_eq
  cases h with
  | whole => exact hfrag
  | @head ostart hlt hhigh =>
      have hlimit := hr.limit_le
      have hsub := wrapSub_of_le (Nat.le_of_lt hlt) (by omega)
      refine ⟨hfile, hfrag.writable, hlow, hoff, ?_⟩
      unfold Region.limit at hhigh
      simp only [Region.headTo, hfile, ↓reduceIte, hsub]
      omega
  | @tail oend hge hlt htop =>
      have hcut := wrapSub_of_le hge (by omega)
      have hsub := wrapSub_of_le (Nat.le_of_lt hlt) htop
      have hend := Region.endAddr_eq_limit htop
      refine ⟨hfile, hfrag.writable, Nat.le_trans hlow hge, ?_, ?_⟩
      · simp only [Region.tailFrom, hfile, ↓reduceIte, hcut]
        omega
      · unfold Region.limit at hend hsub hlt
        simp only [Region.tailFrom, hfile, ↓reduceIte, hcut, hend, hsub]
        omega

/-- Every region that holds `ptr` is a fragment of its mapping, and the descriptor
behind `ptr` is `fd`. -/
structure OriginInv (ptr fd base : Nat) (off : Int) (total : Nat) (st : State) : Prop where
  known : ptr < st.nextPtr
  descriptor : ∀ f ∈ st.frefs, f.ptr = ptr → f.fd = fd
  fragments : ∀ r ∈ st.regs, r.fref = some ptr → Fragment base off total r

theorem MmapOutcome.nextPtr_le {length prot flags : BitVec 32} {fd offset : Int}
    {st st' : State} {ret : Option Nat}
    (h : MmapOutcome length prot flags fd offset st ret st') : st.nextPtr ≤ st'.nextPtr := by
  cases h with
  | refused hsame _ _ => exact Nat.le_of_eq hsame.nextPtr_eq.symm
  | anonymous _ _ hacq => exact Nat.le_of_eq hacq.placed.nextPtr_eq.symm
  | file _ _ hacq hfill _ =>
      exact Nat.le_of_eq (hfill.table.nextPtr_eq.trans hacq.placed.nextPtr_eq).symm
  | @shared st₁ st₂ _ _ _ _ _ _ hacq hfill _ =>
      have hnext : st₂.nextPtr = st.nextPtr :=
        hfill.table.nextPtr_eq.trans hacq.placed.nextPtr_eq
      exact hnext ▸ Nat.le_succ st₂.nextPtr
  | @undone st₁ st₂ st₃ _ _ _ _ _ _ _ _ hacq _ hsame _ _ hrun heq =>
      subst heq
      have hnext : st₃.nextPtr = st.nextPtr := (unmapRange_samePool hrun).nextPtr_eq.trans
        (hsame.nextPtr_eq.trans hacq.placed.nextPtr_eq)
      exact Nat.le_of_eq hnext.symm

theorem Step.nextPtr_le {host : State → Nat → Nat → Prop} {st st' : State} {l : Label}
    (h : Step host st l st') : st.nextPtr ≤ st'.nextPtr := by
  cases h with
  | call hexec _ =>
      rcases Call.exec_cases hexec with ⟨_, _, _, _, _, _, _, _, houtcome⟩ |
        ⟨_, _, _, _, _, houtcome⟩ | ⟨_, _, _, _, _, _, hrun⟩
      · exact houtcome.nextPtr_le
      · cases houtcome with
        | refused hsame _ _ => exact Nat.le_of_eq hsame.nextPtr_eq.symm
        | unmapped _ _ hrun => exact Nat.le_of_eq (unmapRange_samePool hrun).nextPtr_eq.symm
      · exact Nat.le_of_eq (msync_onlyLogs hrun).nextPtr_eq.symm
  | store mem => exact Nat.le_refl _

/-- The step lemma of the fragments of one mapping. -/
theorem Step.originInv {st st' : State} {l : Label} {ptr fd base total : Nat} {off : Int}
    (h : Step SbrkOk st l st') (hpool : PoolInv st) (hinv : RefInv st)
    (horigin : OriginInv ptr fd base off total st) : OriginInv ptr fd base off total st' := by
  refine ⟨Nat.lt_of_lt_of_le horigin.known h.nextPtr_le, fun f' hf' hptr => ?_,
    fun q hq hp => ?_⟩
  · obtain ⟨f, hf, hfptr, hfd⟩ := h.fref_old hinv hf' (hptr ▸ horigin.known)
    exact hfd.symm.trans (horigin.descriptor f hf (hfptr.trans hptr))
  obtain ⟨r, hr, hpiece⟩ := h.pieceOf hpool hinv hq hp horigin.known
  have hfrag := horigin.fragments r hr (hpiece.fref_eq ▸ hp)
  exact hpiece.fragment (hpool.tableOk.regions r hr) hfrag

/-! The `pwrite`s of a step -/

/-- `call` hands the byte at `a` to the host through `ptr`, for offset `off` of the
file open as `fd`. -/
def HostCall.Sends (ptr fd a : Nat) (off : Int) : HostCall → Prop
  | .pwrite ptr' fd' body nbyte off' _ =>
      (ptr' = ptr ∧ fd' = fd) ∧ body ≤ a ∧ a < body + nbyte ∧
        off = off' + ((a - body : Nat) : Int)
  | _ => False

theorem HostCall.Sends.uses {call : HostCall} {ptr fd a : Nat} {off : Int}
    (h : call.Sends ptr fd a off) : call.Uses ptr fd := by
  cases call with
  | pwrite ptr' fd' body nbyte off' result => exact h.1
  | _ => exact h.elim

theorem HostCall.Wrote.uses {call : HostCall} {ptr fd a : Nat} {off : Int}
    (h : call.Wrote ptr fd a off) : call.Uses ptr fd := by
  cases call with
  | pwrite ptr' fd' body nbyte off' result =>
      cases result with
      | ok n => exact h.1
      | err e => exact h.elim
  | _ => exact h.elim

/-- The file backs the byte at `a` in `r`, at file offset `off`. -/
structure Region.Backs (r : Region) (ptr a : Nat) (off : Int) : Prop where
  file : r.kind = .rFile
  fref : r.fref = some ptr
  low : r.base ≤ a
  high : a < r.base + r.dataLen
  off_eq : off = r.off + ((a - r.base : Nat) : Int)

theorem HostCall.Plain.not_sends {call : HostCall} (h : call.Plain) {ptr fd a : Nat}
    {off : Int} : ¬ call.Sends ptr fd a off := by
  cases call with
  | pwrite ptr' fd body nbyte off' result => exact h.elim
  | _ => exact id

theorem HostCall.IsClose.not_sends {call : HostCall} (h : call.IsClose) {ptr fd a : Nat}
    {off : Int} : ¬ call.Sends ptr fd a off := by
  cases call with
  | close ptr' fd => exact id
  | _ => exact h.elim

theorem Region.backedStop_le (r : Region) (stop : Nat) :
    r.backedStop stop ≤ r.base + r.dataLen := by
  have hwrap : wrap (r.base + r.dataLen) ≤ r.base + r.dataLen := Nat.mod_le _ _
  unfold Region.backedStop Region.clipBacked
  split <;> omega

theorem Swept.sends {start stop : Nat} {regs : List Region} {calls : List HostCall}
    (h : Swept start stop regs calls) {call : HostCall} (hcall : call ∈ calls)
    {ptr fd a : Nat} {off : Int} (hsends : call.Sends ptr fd a off) :
    ∃ r ∈ regs, r.Backs ptr a off := by
  rcases h.sound call hcall with hclose | ⟨r, hr, hshared, ptr', fd', hptr', hat⟩
  · exact absurd hsends hclose.not_sends
  · cases call with
    | pwrite ptr₁ fd₁ body nbyte off₁ result =>
        obtain ⟨⟨rfl, rfl⟩, hlow, hhigh, rfl⟩ := hat
        obtain ⟨⟨rfl, rfl⟩, hle, hlt, rfl⟩ := hsends
        have hstop := r.backedStop_le stop
        have hbase : r.base ≤ r.ostart start := by
          rw [Region.ostart_eq_max]
          exact Nat.le_max_left _ _
        simp only [Region.isSharedWritable, Bool.and_eq_true, decide_eq_true_eq] at hshared
        exact ⟨r, hr, hshared.1.1, hptr', by omega, by omega, by omega⟩
    | _ => exact hat.elim

theorem unmapRange_swept {start stop : Nat} {ans : PwriteAnswers} {st st' : State}
    (h : unmapRange start stop ans st = .ok st') :
    ∃ pre post calls, st.regs = pre ++ post ∧ firstOverlap start st.regs = pre.length ∧
      st'.calls = st.calls ++ calls ∧ Swept start stop post calls := by
  obtain ⟨pre, post, st₁, hregs, hidx, hturns, rfl⟩ := unmapRange_spec h
  obtain ⟨calls, hcalls, hswept⟩ := hturns.swept
  rw [coalesceAround_regs_only]
  exact ⟨pre, post, calls, hregs, hidx, hcalls, hswept⟩

/-- A call of `msync` that fails before its second pass writes nothing. -/
theorem msync_swept {addr length flags : BitVec 32} {ans : Answers} {st st' : State}
    {ret : Int} (h : msync addr length flags ans st = .ok (ret, st')) :
    (st'.calls = st.calls ∧ (ret = 0 → length = 0)) ∨ ∃ pre post calls,
      st.regs = pre ++ post ∧ firstOverlap addr.toNat st.regs = pre.length ∧
      st'.calls = st.calls ++ calls ∧
      PageRange addr.toNat (addr.toNat + pageCeil length.toNat) ∧
      coverLoop st.regs (addr.toNat + pageCeil length.toNat) (st.regs.length + 1)
        (firstOverlap addr.toNat st.regs) addr.toNat = true ∧
      Swept addr.toNat (addr.toNat + pageCeil length.toNat) post calls := by
  rcases msync_cases h with ⟨e, rfl, rfl⟩ | ⟨hzero, _, rfl⟩ | ⟨hrange, hcover, hloop⟩
  · exact Or.inl ⟨rfl, fun hret => by cases hret⟩
  · exact Or.inl ⟨rfl, fun _ => hzero⟩
  · obtain ⟨calls, hcalls, hswept⟩ := msyncLoop_swept hloop
    obtain ⟨pre, post, hregs, hlen⟩ := exists_split (firstOverlap_le addr.toNat st.regs)
    have hdrop : st.regs.drop (firstOverlap addr.toNat st.regs) = post := by
      conv_lhs => rw [← hlen, hregs]
      exact List.drop_left
    rw [hdrop] at hswept
    exact Or.inr ⟨pre, post, calls, hregs, hlen.symm, hcalls, hrange, hcover, hswept⟩

theorem PlainCalls.sends {st st' : State} (h : PlainCalls st st') :
    ∃ new, st'.calls = st.calls ++ new ∧
      ∀ call ∈ new, ∀ ptr fd a off, call.Sends ptr fd a off →
        ∃ r ∈ st.regs, r.Backs ptr a off := by
  obtain ⟨more, hmore, hplain⟩ := h
  exact ⟨more, hmore, fun call hcall _ _ _ _ hsends =>
    absurd hsends (hplain call hcall).not_sends⟩

theorem MmapOutcome.sends {length prot flags : BitVec 32} {fd offset : Int}
    {st st' : State} {ret : Option Nat}
    (h : MmapOutcome length prot flags fd offset st ret st') (hinv : RefInv st) :
    ∃ new, st'.calls = st.calls ++ new ∧
      ∀ call ∈ new, ∀ ptr fd a off, call.Sends ptr fd a off →
        ∃ r ∈ st.regs, r.Backs ptr a off := by
  cases h with
  | refused _ _ hcalls => exact hcalls.sends
  | anonymous _ _ hacq => exact hacq.plainCalls.sends
  | file _ _ hacq hfill _ =>
      have hplain := hacq.plainCalls.trans hfill.plainCalls
      exact hplain.sends
  | @shared st₁ st₂ base idx newfd bytes _ _ hacq hfill _ =>
      have hplain := hacq.plainCalls.trans hfill.plainCalls
      exact (hplain.trans (.single (.dup fd (.ok newfd)) rfl trivial)).sends
  | @undone st₁ st₂ st₃ _ base idx n off ans e _ hacq _ hsame _ hcalls hrun heq =>
      subst heq
      obtain ⟨more, hmore, hplain⟩ := hacq.plainCalls.trans hcalls
      obtain ⟨pre, post, calls, hregs, _, hnew, hswept⟩ := unmapRange_swept hrun
      have hall : (st₃.setErrno e).calls = st.calls ++ (more ++ calls) := by
        rw [← List.append_assoc, ← hmore]
        exact hnew
      refine ⟨more ++ calls, hall, fun call hcall ptr fd a o hsends => ?_⟩
      rcases List.mem_append.mp hcall with hcall | hcall
      · exact absurd hsends (hplain call hcall).not_sends
      · obtain ⟨r, hr, hbacks⟩ := hswept.sends hcall hsends
        have hr₂ : r ∈ st₂.regs := by
          rw [hregs]
          exact List.mem_append_right pre hr
        refine ⟨r, hacq.backedBy_old hinv (hsame.regs_eq ▸ hr₂) ?_, hbacks⟩
        rw [hbacks.fref]
        exact Option.some_ne_none ptr

/-- Whatever a step hands to the host is a byte of the file behind it, at the
offset of that byte. -/
theorem Step.sends {host : State → Nat → Nat → Prop} {st st' : State} {l : Label}
    (h : Step host st l st') (hinv : RefInv st) :
    ∃ new, st'.calls = st.calls ++ new ∧
      ∀ call ∈ new, ∀ ptr fd a off, call.Sends ptr fd a off →
        ∃ r ∈ st.regs, r.Backs ptr a off := by
  cases h with
  | call hexec _ =>
      rcases Call.exec_cases hexec with ⟨_, _, _, _, _, _, _, _, houtcome⟩ |
        ⟨_, _, _, _, _, houtcome⟩ | ⟨_, _, _, _, _, _, hrun⟩
      · exact houtcome.sends hinv
      · cases houtcome with
        | refused _ _ hcalls => exact PlainCalls.sends (.of_eq hcalls)
        | unmapped _ _ hrun =>
            obtain ⟨pre, post, calls, hregs, _, hnew, hswept⟩ := unmapRange_swept hrun
            refine ⟨calls, hnew, fun call hcall ptr fd a off hsends => ?_⟩
            obtain ⟨r, hr, hbacks⟩ := hswept.sends hcall hsends
            have hregs' : st.regs = pre ++ post := hregs
            exact ⟨r, hregs' ▸ List.mem_append_right pre hr, hbacks⟩
      · rcases msync_swept hrun with ⟨hcalls, _⟩ |
          ⟨pre, post, calls, hregs, _, hnew, _, _, hswept⟩
        · exact PlainCalls.sends (.of_eq hcalls)
        · refine ⟨calls, hnew, fun call hcall ptr fd a off hsends => ?_⟩
          obtain ⟨r, hr, hbacks⟩ := hswept.sends hcall hsends
          exact ⟨r, hregs ▸ List.mem_append_right pre hr, hbacks⟩
  | store mem => exact PlainCalls.sends (.of_eq rfl)

/-! The mapping -/

/-- The byte at `a` is live in a mapping whose reference is `ptr`. -/
def MappedBy (ptr a : Nat) (regs : List Region) : Prop :=
  ∃ r ∈ regs, r.fref = some ptr ∧ Holds Region.base Region.limit r a

/-- No region holds the reference that is allocated next. -/
theorem RefInv.fref_lt {st : State} (h : RefInv st) {r : Region} (hr : r ∈ st.regs)
    {p : Nat} (hp : r.fref = some p) : p < st.nextPtr := by
  obtain ⟨f, hf, rfl⟩ := List.mem_map.mp (h.ledger.known p (refCount_pos hr hp))
  exact h.ledger.lt f hf

/-- A new shared writable mapping is the only fragment of itself. -/
theorem MmapOutcome.originInv {length prot flags : BitVec 32} {fd offset : Int}
    {base : Nat} {st st' : State}
    (h : MmapOutcome length prot flags fd offset st (some base) st') (hinv : RefInv st)
    (hkeeps : keepsRef prot flags) (hfile : flags &&& MAP_ANON = 0) :
    ∃ more data newfd, st'.calls = st.calls ++ more ++ [.dup fd (.ok newfd)] ∧
      PreadTrace fd base (pageCeil length.toNat) offset (more.filter HostCall.isPread) data ∧
      OriginInv st.nextPtr newfd base offset data.length st' ∧
      ∀ a, base ≤ a → a < base + pageCeil length.toNat →
        MappedBy st.nextPtr a st'.regs := by
  cases h with
  | anonymous _ hanon _ => exact absurd hfile hanon
  | file _ _ _ _ hnot => exact absurd hkeeps hnot
  | @shared st₁ st₂ _ idx newfd data _ _ hacq hfill _ =>
      obtain ⟨more, hmore, htrace⟩ := hfill.preads hacq
      have hnext : st₂.nextPtr = st.nextPtr :=
        hfill.table.nextPtr_eq.trans hacq.placed.nextPtr_eq
      have hlen := hfill.length_le
      have hold := (hacq.frefs hinv).2
      obtain ⟨pre, rest, hregs, rfl⟩ := hacq.table
      have hregs' : (updateAt pre.length (fun r => { r with fref := some st₂.nextPtr })
          (addRef newfd ((updateAt pre.length (Region.backedBy offset data.length) st₂).record
            (.dup fd (.ok newfd))))).regs =
          pre ++ { (liveRegion base (pageCeil length.toNat) .rFile prot flags).backedBy offset
            data.length with fref := some st.nextPtr } :: rest := by
        simp only [updateAt, addRef, State.record, hfill.table.regs_eq, hregs,
          modify_boundary, hnext]
      refine ⟨more, data, newfd, ?_, htrace, ⟨?_, ?_, ?_⟩, ?_⟩
      · rw [← hmore]
        rfl
      · exact hnext ▸ Nat.lt_succ_self st₂.nextPtr
      · -- the references from before are older
        intro f hf hptr
        have hfrefs : st₂.frefs = st.frefs :=
          hfill.table.frefs_eq.trans hacq.placed.frefs_eq
        have hf' : f ∈ (⟨st₂.nextPtr, newfd, 1⟩ : FileRef) :: st₂.frefs := hf
        rcases List.mem_cons.mp hf' with rfl | hf'
        · rfl
        · have hlt := hinv.ledger.lt f (hfrefs ▸ hf')
          omega
      · rw [hregs']
        intro q hq hp
        -- an older region holds an older reference
        have hnone : q ∈ st₁.regs → False := fun hq₁ => by
          have hq₀ := hold q hq₁ (by rw [hp]; exact Option.some_ne_none _)
          exact absurd (hinv.fref_lt hq₀ hp) (Nat.lt_irrefl _)
        rw [hregs] at hnone
        simp only [List.mem_append, List.mem_cons] at hq hnone
        rcases hq with hq | rfl | hq
        · exact (hnone (Or.inl hq)).elim
        · refine ⟨rfl, hkeeps.2, Nat.le_refl _, ?_, ?_⟩
          · simp [Region.backedBy, liveRegion]
          · simp only [Region.backedBy, liveRegion]
            omega
        · exact (hnone (Or.inr (Or.inr hq))).elim
      · rw [hregs']
        exact fun a hlow hhigh => ⟨_, List.mem_append_right pre List.mem_cons_self, rfl,
          hlow, hhigh⟩

/-- A sweep that makes progress writes every backed byte of a fragment in its
range, if the fragment ends below the top. -/
theorem Swept.writes {start stop base total ptr a : Nat} {off : Int}
    {post : List Region} {calls : List HostCall} {r : Region}
    (h : Swept start stop post calls) (hok : TableOk post)
    (hprogress : ∀ call ∈ calls, call.Progress) (hr : r ∈ post)
    (hrtop : r.limit < 4294967296) (hp : r.fref = some ptr) (hfrag : Fragment base off total r)
    (ha : Holds Region.base Region.limit r a) (hlow : start ≤ a) (hhigh : a < stop)
    (htotal : a < base + total) :
    ∃ call ∈ calls, ∃ fd, call.Wrote ptr fd a (off + ((a - base : Nat) : Int)) := by
  have hrlow := ha.1
  have hrhigh := ha.2
  have hsorted : post.Pairwise fun a b => a.base ≤ b.base := by
    refine hok.ordered.imp_of_mem fun {b c} hb _ hle => ?_
    exact Nat.le_trans (Nat.le_of_lt (hok.regions b hb).base_lt_limit) hle
  have hshared : r.isSharedWritable = true := by
    simp only [Region.isSharedWritable, hfrag.file, hp, decide_true, Option.isSome_some,
      Bool.true_and]
    exact decide_eq_true hfrag.writable
  obtain ⟨own, fd, hsub, hback⟩ := h.complete hsorted r hr (by omega) hshared
  have hdata := hfrag.data_eq
  have hfraglow := hfrag.low
  have hdatale := (hok.regions r hr).data_le hfrag.file
  have hbacked : wrap (r.base + r.dataLen) = r.base + r.dataLen := by
    refine wrap_of_lt ?_
    unfold Region.limit at hrtop
    omega
  have hostart : r.ostart start ≤ a := by
    rw [Region.ostart_eq_max]
    omega
  have hstop : a < r.backedStop stop := by
    unfold Region.backedStop Region.clipBacked
    rw [Region.oend_eq_min hrtop, hbacked]
    unfold Region.limit at hrhigh ⊢
    split <;> omega
  obtain ⟨call, hcall, hwrote⟩ :=
    hback.complete (fun c hc => hprogress c (hsub c hc)) ptr hp a hostart hstop
  have hoff : r.off + ((a - r.base : Nat) : Int) = off + ((a - base : Nat) : Int) := by
    rw [hfrag.off_eq]
    omega
  exact ⟨call, hsub call hcall, fd ptr, hoff ▸ hwrote⟩

/-- A region that is not lost lies ahead of the search. -/
theorem mem_post_of_not_lost {pre post : List Region} {start a : Nat} {r : Region}
    (hok : TableOk (pre ++ post)) (hidx : firstOverlap start (pre ++ post) = pre.length)
    (hr : r ∈ pre ++ post) (hlost : ¬ Lost (pre ++ post) start r)
    (ha : Holds Region.base Region.limit r a) (hlow : start ≤ a) :
    r ∈ post ∧ r.limit < 4294967296 := by
  have hhigh := ha.2
  constructor
  · rcases List.mem_append.mp hr with hr | hr
    · exact absurd (lost_of_skipped hok hidx hr (by omega)) hlost
    · exact hr
  · exact Nat.lt_of_le_of_ne (hok.regions r hr).limit_le fun htop => hlost (Or.inl htop)

/-- In a range that the first pass accepts no region is lost. -/
theorem not_lost_of_cover {regs : List Region} {start stop a : Nat} {r : Region}
    (hok : TableOk regs) (hrange : PageRange start stop)
    (hcover : coverLoop regs stop (regs.length + 1) (firstOverlap start regs) start = true)
    (hr : r ∈ regs) (ha : Holds Region.base Region.limit r a) (hlow : start ≤ a)
    (hhigh : a < stop) : ¬ Lost regs start r := by
  have hrlow := ha.1
  have hrhigh := ha.2
  have hclear := ((cover_iff hok hrange).mp hcover).2
  obtain ⟨pre, post, hregs, hidx, hpre, _⟩ := cover_split hok hrange hcover
  rintro hlost
  have htop : r.limit ≠ 4294967296 := by
    intro htop
    have habove := aboveStop_of_clear hok hclear r hr htop
    omega
  have hlt := Nat.lt_of_le_of_ne (hok.regions r hr).limit_le htop
  rw [hregs] at hok hidx hlost
  have hskipped := skipped_of_lost hok hidx hlost hlt (by omega)
  have hend := hpre r hskipped
  omega

/-- The calls `new` of a step from `st` write back the mapping at `base` of the
file from `off` on, of which the file backed `total` bytes and whose duplicated
descriptor is `fd`: each byte goes to its own offset of that file, none beyond the
backed ones goes anywhere, and the live ones go through the reference of the
mapping only.  A `munmap` that succeeds writes the live ones in its range, up to
regions that are lost to it, and an `msync` that succeeds writes them all. -/
structure WritesBack (ptr fd base : Nat) (off : Int) (total : Nat) (st : State) (l : Label)
    (new : List HostCall) : Prop where
  placed : ∀ call ∈ new, ∀ fd' a o, call.Sends ptr fd' a o →
    (fd' = fd ∧ fd ∈ st.openFds) ∧ base ≤ a ∧ a < base + total ∧
      o = off + ((a - base : Nat) : Int)
  own : ∀ call ∈ new, ∀ p fd' a o, call.Sends p fd' a o → MappedBy ptr a st.regs → p = ptr
  unmapped : ∀ addr length : BitVec 32, l = .call (.munmap addr length) (.code 0) →
    (∀ call ∈ new, call.Progress) → ∀ r ∈ st.regs, r.fref = some ptr →
    ¬ Lost st.regs addr.toNat r → ∀ a, Holds Region.base Region.limit r a →
    addr.toNat ≤ a → a < addr.toNat + pageCeil length.toNat → a < base + total →
    ∃ call ∈ new, call.Wrote ptr fd a (off + ((a - base : Nat) : Int))
  synced : ∀ addr length flags : BitVec 32, l = .call (.msync addr length flags) (.code 0) →
    (∀ call ∈ new, call.Progress) → ∀ r ∈ st.regs, r.fref = some ptr →
    ∀ a, Holds Region.base Region.limit r a →
    addr.toNat ≤ a → a < addr.toNat + pageCeil length.toNat → a < base + total →
    ∃ call ∈ new, call.Wrote ptr fd a (off + ((a - base : Nat) : Int))

section

variable {st st' : State} {l : Label} {ptr fd base total a : Nat} {off : Int}
  {new : List HostCall} {addr length flags : BitVec 32} {r : Region}

/-- What goes through the reference of a mapping goes to its descriptor. -/
theorem OriginInv.uses (h : OriginInv ptr fd base off total st) (hinv : RefInv st)
    (huses : UsesOwn st new) {call : HostCall} (hcall : call ∈ new) {fd' : Nat}
    (hused : call.Uses ptr fd') : fd' = fd ∧ fd ∈ st.openFds := by
  obtain ⟨f, hf, hptr, hfd⟩ := huses call hcall ptr fd' hused
  have hfd' := h.descriptor f hf hptr
  have hopen : f.fd ∈ st.openFds :=
    hinv.ledger.fds.mem_iff.mpr (List.mem_map.mpr ⟨f, hf, rfl⟩)
  exact ⟨hfd.symm.trans hfd', hfd' ▸ hopen⟩

theorem Step.munmap_writes {host : State → Nat → Nat → Prop}
    (h : Step host st (.call (.munmap addr length) (.code 0)) st') (hpool : PoolInv st)
    (horigin : OriginInv ptr fd base off total st) (hnew : st'.calls = st.calls ++ new)
    (hprogress : ∀ call ∈ new, call.Progress) (hr : r ∈ st.regs) (hp : r.fref = some ptr)
    (hlost : ¬ Lost st.regs addr.toNat r) (ha : Holds Region.base Region.limit r a)
    (hlow : addr.toNat ≤ a) (hhigh : a < addr.toNat + pageCeil length.toNat)
    (htotal : a < base + total) :
    ∃ call ∈ new, ∃ fd', call.Wrote ptr fd' a (off + ((a - base : Nat) : Int)) := by
  have hfrag := horigin.fragments r hr hp
  have hok := hpool.tableOk
  cases h with
  | call hexec _ =>
      rcases Call.exec_cases hexec with ⟨_, _, _, _, _, _, hcall, _, _⟩ |
        ⟨_, _, n, hcall, hret, houtcome⟩ | ⟨_, _, _, n, hcall, _, _⟩
      · cases hcall
      · cases hcall
        cases hret
        cases houtcome with
        | @unmapped _ cap _ _ _ hrun =>
            obtain ⟨pre, post, calls, hregs, hidx, hcalls, hswept⟩ := unmapRange_swept hrun
            obtain rfl : new = calls := List.append_cancel_left (hnew.symm.trans hcalls)
            have hregs' : st.regs = pre ++ post := hregs
            have hidx' : firstOverlap addr.toNat st.regs = pre.length := hidx
            rw [hregs'] at hok hidx' hr hlost
            obtain ⟨hrpost, hrtop⟩ := mem_post_of_not_lost hok hidx' hr hlost ha hlow
            exact hswept.writes hok.append_right hprogress hrpost hrtop hp hfrag ha hlow hhigh
              htotal
      · cases hcall

theorem Step.msync_writes {host : State → Nat → Nat → Prop}
    (h : Step host st (.call (.msync addr length flags) (.code 0)) st') (hpool : PoolInv st)
    (horigin : OriginInv ptr fd base off total st) (hnew : st'.calls = st.calls ++ new)
    (hprogress : ∀ call ∈ new, call.Progress) (hr : r ∈ st.regs) (hp : r.fref = some ptr)
    (ha : Holds Region.base Region.limit r a)
    (hlow : addr.toNat ≤ a) (hhigh : a < addr.toNat + pageCeil length.toNat)
    (htotal : a < base + total) :
    ∃ call ∈ new, ∃ fd', call.Wrote ptr fd' a (off + ((a - base : Nat) : Int)) := by
  have hfrag := horigin.fragments r hr hp
  have hok := hpool.tableOk
  cases h with
  | call hexec _ =>
      rcases Call.exec_cases hexec with ⟨_, _, _, _, _, _, hcall, _, _⟩ |
        ⟨_, _, n, hcall, _, _⟩ | ⟨_, _, _, n, hcall, hret, hrun⟩
      · cases hcall
      · cases hcall
      · cases hcall
        cases hret
        rcases msync_swept hrun with ⟨_, hzero⟩ |
          ⟨pre, post, calls, hregs, hidx, hcalls, hrange, hcover, hswept⟩
        · rw [hzero rfl] at hhigh
          have hnone : pageCeil (0 : BitVec 32).toNat = 0 := by decide
          omega
        · obtain rfl : new = calls := List.append_cancel_left (hnew.symm.trans hcalls)
          have hlost := not_lost_of_cover hok hrange hcover hr ha hlow hhigh
          rw [hregs] at hok hidx hr hlost
          obtain ⟨hrpost, hrtop⟩ := mem_post_of_not_lost hok hidx hr hlost ha hlow
          exact hswept.writes hok.append_right hprogress hrpost hrtop hp hfrag ha hlow hhigh
            htotal

theorem Step.writesBack (h : Step SbrkOk st l st') (hpool : PoolInv st) (hinv : RefInv st)
    (horigin : OriginInv ptr fd base off total st) :
    ∃ new, st'.calls = st.calls ++ new ∧ WritesBack ptr fd base off total st l new := by
  obtain ⟨new, hnew, hsends⟩ := h.sends hinv
  obtain ⟨new', hnew', huses⟩ := h.usesOwn hinv
  obtain rfl : new = new' := List.append_cancel_left (hnew.symm.trans hnew')
  have hown : ∀ {x : Nat} {o : Int},
      (∃ call ∈ new, ∃ fd', call.Wrote ptr fd' x o) → ∃ call ∈ new, call.Wrote ptr fd x o := by
    rintro x o ⟨call, hcall, fd', hwrote⟩
    obtain ⟨rfl, _⟩ := horigin.uses hinv huses hcall hwrote.uses
    exact ⟨call, hcall, hwrote⟩
  refine ⟨new, hnew, ?_, ?_, ?_, ?_⟩
  · intro call hcall fd' a o ho
    obtain ⟨r, hr, hbacks⟩ := hsends call hcall ptr fd' a o ho
    have hfrag := horigin.fragments r hr hbacks.fref
    have hlow := hfrag.low
    have hdata := hfrag.data_eq
    have hrlow := hbacks.low
    have hrhigh := hbacks.high
    refine ⟨horigin.uses hinv huses hcall ho.uses, by omega, by omega, ?_⟩
    rw [hbacks.off_eq, hfrag.off_eq]
    omega
  · intro call hcall p fd' a o ho hmapped
    obtain ⟨r, hr, hbacks⟩ := hsends call hcall p fd' a o ho
    obtain ⟨q, hq, hqp, hqa⟩ := hmapped
    have hdata := (hpool.tableOk.regions r hr).data_le hbacks.file
    have hra : Holds Region.base Region.limit r a := by
      have hhigh := hbacks.high
      refine ⟨hbacks.low, ?_⟩
      unfold Region.limit
      omega
    obtain rfl := eq_of_holds hpool.tableOk.ordered hq hr hqa hra
    exact Option.some.inj (hbacks.fref.symm.trans hqp)
  · rintro addr length rfl hprogress r hr hp hlost a ha hlow hhigh htotal
    exact hown (h.munmap_writes hpool horigin hnew hprogress hr hp hlost ha hlow hhigh htotal)
  · rintro addr length flags rfl hprogress r hr hp a ha hlow hhigh htotal
    exact hown (h.msync_writes hpool horigin hnew hprogress hr hp ha hlow hhigh htotal)

end

theorem run_originInv {labels : List Label} {st st' : State} {ptr fd base total : Nat}
    {off : Int} (hrun : Run (Step SbrkOk) st labels st') (hpool : PoolInv st)
    (hinv : RefInv st) (horigin : OriginInv ptr fd base off total st) :
    PoolInv st' ∧ RefInv st' ∧ OriginInv ptr fd base off total st' := by
  refine hrun.preserves_trace (fun h hstep => ?_) ⟨hpool, hinv, horigin⟩
  obtain ⟨hpool₁, hinv₁, horigin₁⟩ := h
  exact ⟨(hstep.poolInv hpool₁).1, hstep.refInv hinv₁, hstep.originInv hpool₁ hinv₁ horigin₁⟩

/-- Whatever a run does after a shared writable mapping was made, each of its
steps writes the mapping back to where it came from, through the descriptor that
`dup` gave for the mapped file. -/
theorem mmap_writesBack {labels : List Label} {length prot flags : BitVec 32}
    {fd offset : Int} {base : Nat} {st st' : State}
    (hrun : Run (Step SbrkOk) State.init labels st)
    (hmap : Step SbrkOk st
      (.call (.mmap length prot flags fd offset) (.addr (some base))) st')
    (hkeeps : keepsRef prot flags) (hfile : flags &&& MAP_ANON = 0) :
    ∃ more data newfd, st'.calls = st.calls ++ more ++ [.dup fd (.ok newfd)] ∧
      PreadTrace fd base (pageCeil length.toNat) offset (more.filter HostCall.isPread) data ∧
      (∀ a, base ≤ a → a < base + pageCeil length.toNat →
        MappedBy st.nextPtr a st'.regs) ∧
      ∀ later s l t, Run (Step SbrkOk) st' later s → Step SbrkOk s l t →
        ∃ new, t.calls = s.calls ++ new ∧
          WritesBack st.nextPtr newfd base offset data.length s l new := by
  have hpool := run_poolInv hrun
  have hinv := (run_refInv hrun).1
  obtain ⟨more, data, newfd, hmore, htrace, horigin, hmapped⟩ :=
    hmap.mmap_outcome.1.originInv hinv hkeeps hfile
  refine ⟨more, data, newfd, hmore, htrace, hmapped, fun later s l t hlater hstep => ?_⟩
  obtain ⟨hpool₁, hinv₁, horigin₁⟩ :=
    run_originInv hlater (hmap.poolInv hpool).1 (hmap.refInv hinv) horigin
  exact hstep.writesBack hpool₁ hinv₁ horigin₁

namespace OriginWitness

open FileRefWitness

/-- Unmapping the first fragment writes its five backed bytes, the second
`pwrite` resuming a short first one. -/
def unmapped : State :=
  (Call.munmap 0x20000 0x10000).after { pwrites := [.ok 2, .err .eintr, .ok 3] } shattered

theorem unmapped_calls : unmapped.calls = shattered.calls ++
    [.pwrite 0 7 0x20000 5 0 (.ok 2), .pwrite 0 7 0x20002 3 2 (.err .eintr),
      .pwrite 0 7 0x20002 3 2 (.ok 3)] := by
  decide +kernel

theorem shattered_writesBack : ∃ total, WritesBack 0 7 0x20000 0 total shattered
    (.call (.munmap 0x20000 0x10000) (.code 0))
    [.pwrite 0 7 0x20000 5 0 (.ok 2), .pwrite 0 7 0x20002 3 2 (.err .eintr),
      .pwrite 0 7 0x20002 3 2 (.ok 3)] := by
  obtain ⟨more, data, newfd, hmore, _, _, hlater⟩ :=
    mmap_writesBack .nil shared_step (show keepsRef 3 1 by unfold keepsRef; decide) (by decide)
  have hcut : Step SbrkOk shared (.call (.munmap 0x30000 0x10000) (.code 0)) shattered :=
    Call.step_of_grown_eq (by decide +kernel) (by decide +kernel)
  have hstep : Step SbrkOk shattered (.call (.munmap 0x20000 0x10000) (.code 0)) unmapped :=
    Call.step_of_grown_eq (by decide +kernel) (by decide +kernel)
  obtain ⟨new, hnew, hwrites⟩ := hlater _ _ _ _ (Run.single hcut) hstep
  obtain rfl := List.append_cancel_left (unmapped_calls.symm.trans hnew)
  have hfd : newfd = 7 := by
    have hlast := congrArg List.getLast? hmore
    rw [List.getLast?_concat] at hlast
    have hdup : shared.calls.getLast? = some (.dup 5 (.ok 7)) := by decide +kernel
    simpa using (hdup.symm.trans hlast).symm
  exact ⟨data.length, hfd ▸ hwrites⟩

/-- `msync` over the hole, with nothing left to fail. -/
def synced : State := (Call.msync 0x20000 0x30000 4).after {} shattered

/-- The whole range must be covered, so nothing is written of the five backed
bytes that are still live in it. -/
theorem synced_writes_nothing : Run (Step SbrkOk) State.init trace shattered ∧
    Step SbrkOk shattered (.call (.msync 0x20000 0x30000 4) (.code (-1))) synced ∧
    ¬ ∀ new, synced.calls = shattered.calls ++ new → (∀ call ∈ new, call.Progress) →
      ∀ a o, 0x20000 ≤ a → a < 0x50000 → (∃ r ∈ shattered.regs, r.Backs 0 a o) →
        ∃ call ∈ new, call.Wrote 0 7 a o := by
  refine ⟨shattered_run, Call.step_of_grown_eq (by decide +kernel) (by decide +kernel), ?_⟩
  intro hall
  have hcalls : synced.calls = shattered.calls ++ [] := by decide +kernel
  have hfirst : ∃ r ∈ shattered.regs, r.Backs 0 0x20000 0 := by
    refine ⟨⟨0x20000, 0x10000, .rFile, false, 3, 1, some 0, 0, 5⟩, by decide +kernel, ?_⟩
    exact ⟨rfl, rfl, by decide, by decide, by decide⟩
  obtain ⟨call, hcall, _⟩ :=
    hall [] hcalls (by simp) 0x20000 0 (by decide) (by decide) hfirst
  simp at hcall

end OriginWitness

end Mman

end WasixLibc
