/-
The two passes of `msync`.

The first pass asks that the range be covered by live regions; the second writes
the shared writable ones of them back.  Both compare ends of regions that are
reduced to 32 bits, so a region that ends with the last byte of the address space
is lost to either.
-/
import WasixLibc.MmanCover
import WasixLibc.MmanRelease

namespace WasixLibc

namespace Mman

open SpanList ListZipper

/-! The write pass -/

/-- `r` is a shared writable file region that `[start, stop)` overlaps. -/
structure Region.Syncs (r : Region) (start stop : Nat) : Prop where
  shared : r.isSharedWritable = true
  base_lt : r.base < stop
  lt_limit : start < r.limit

/-- The calls of a pass over `regs`, in which `fd` has the descriptor of each
reference: one loop of writes for the file-backed bytes of each overlap, in
address order, whatever the loops before it came to; `true` if all wrote
everything. -/
inductive Synced (fd : Nat → Nat) (start stop : Nat) :
    List Region → List HostCall → Bool → Prop
  | nil : Synced fd start stop [] [] true
  | skip {r : Region} {rest : List Region} {calls : List HostCall} {all : Bool} :
      ¬ r.Syncs start stop → Synced fd start stop rest calls all →
      Synced fd start stop (r :: rest) calls all
  | write {r : Region} {rest : List Region} {ptr : Nat} {own calls : List HostCall}
      {done all : Bool} :
      r.Syncs start stop → r.fref = some ptr →
      PwriteTrace ptr (fd ptr) (max r.base start)
        (min (min r.limit stop) (r.base + r.dataLen) - max r.base start)
        (r.off + ((max r.base start - r.base : Nat) : Int)) own done →
      Synced fd start stop rest calls all →
      Synced fd start stop (r :: rest) (own ++ calls) (done && all)

section

variable {fd : Nat → Nat} {start stop : Nat} {pre post : List Region} {calls : List HostCall}
  {all : Bool}

theorem Synced.append (hpre : ∀ r ∈ pre, ¬ r.Syncs start stop)
    (h : Synced fd start stop post calls all) : Synced fd start stop (pre ++ post) calls all := by
  induction pre with
  | nil => exact h
  | cons r pre ih =>
      exact .skip (hpre r List.mem_cons_self)
        (ih fun q hq => hpre q (List.mem_cons_of_mem r hq))

theorem synced_of_none (hnone : ∀ r ∈ post, ¬ r.Syncs start stop) :
    Synced fd start stop post [] true := by
  have hnil : Synced fd start stop [] [] true := .nil
  have h := Synced.append hnone hnil
  rwa [List.append_nil] at h

theorem PwriteTrace.calls_ne_nil {ptr fd body remaining : Nat} {off : Int}
    (h : PwriteTrace ptr fd body remaining off calls false) : calls ≠ [] := by
  cases h with
  | again _ => exact List.cons_ne_nil _ _
  | failed _ => exact List.cons_ne_nil _ _
  | part _ _ => exact List.cons_ne_nil _ _

/-- A pass that calls nothing fails nowhere. -/
theorem Synced.all_of_nil (h : Synced fd start stop post calls all) (hnil : calls = []) :
    all = true := by
  induction h with
  | nil => rfl
  | skip _ _ ih => exact ih hnil
  | @write r rest ptr own calls done all _ _ htrace _ ih =>
      obtain ⟨hown, hcalls⟩ := List.append_eq_nil_iff.mp hnil
      cases done with
      | false => exact absurd hown htrace.calls_ne_nil
      | true => exact ih hcalls

end

/-- The writeback of one overlap below the top. -/
theorem writeback_synced {r : Region} {start stop : Nat} {ans ans' : PwriteAnswers}
    {st st' : State} {done : Bool} (hr : r.Ok) (htop : r.limit < 4294967296)
    (hsyncs : r.Syncs start stop)
    (h : writeback r (r.ostart start) (r.oend stop) ans st = .ok (done, ans', st')) :
    ∃ ptr own, r.fref = some ptr ∧ st'.calls = st.calls ++ own ∧
      PwriteTrace ptr (st.frefFd ptr) (max r.base start)
        (min (min r.limit stop) (r.base + r.dataLen) - max r.base start)
        (r.off + ((max r.base start - r.base : Nat) : Int)) own done := by
  have hshared := hsyncs.shared
  obtain ⟨ptr, hptr⟩ := Option.isSome_iff_exists.mp (isSharedWritable_fref hshared)
  have hkind : r.kind = .rFile := by
    simp only [Region.isSharedWritable, Bool.and_eq_true, decide_eq_true_eq] at hshared
    exact hshared.1.1
  have hdata : wrap (r.base + r.dataLen) = r.base + r.dataLen := by
    have hle := hr.data_le hkind
    unfold Region.limit at htop
    exact wrap_of_lt (by omega)
  have hclip : r.clipBacked (r.oend stop) = min (min r.limit stop) (r.base + r.dataLen) := by
    rw [Region.oend_eq_min htop, Region.clipBacked, hdata]
    split <;> omega
  unfold writeback at h
  rw [hclip, Region.ostart_eq_max, hptr] at h
  split at h
  · rename_i hempty
    simp only [Except.ok.injEq, Prod.mk.injEq] at h
    obtain ⟨rfl, _, rfl⟩ := h
    refine ⟨ptr, [], hptr, by simp, ?_⟩
    rw [Nat.sub_eq_zero_of_le hempty]
    exact .done
  · obtain ⟨_, own, hcalls, htrace⟩ := writebackLoop_trace h
    exact ⟨ptr, own, hptr, hcalls, htrace⟩

theorem OnlyLogs.frefFd_eq {st st' : State} (h : OnlyLogs st st') (ptr : Nat) :
    st'.frefFd ptr = st.frefFd ptr := by
  unfold State.frefFd
  rw [h.frefs_eq]

theorem msyncLoop_synced {start stop : Nat} {post : List Region} {result ret : Int}
    {ans : PwriteAnswers} {st st' : State} (hok : TableOk post) (habove : AboveStop stop post)
    (hfirst : ∀ r ∈ post, start < r.limit)
    (h : msyncLoop start stop post result ans st = .ok (ret, st')) :
    ∃ calls all, st'.calls = st.calls ++ calls ∧
      Synced (fun ptr => st.frefFd ptr) start stop post calls all ∧
      ret = if all then result else -1 := by
  induction post generalizing result ans st with
  | nil =>
      simp only [msyncLoop, Except.ok.injEq, Prod.mk.injEq] at h
      obtain ⟨rfl, rfl⟩ := h
      exact ⟨[], true, by simp, .nil, rfl⟩
  | cons r rest ih =>
      have hr := hok.regions r List.mem_cons_self
      have habove' : AboveStop stop rest := fun q hq => habove q (List.mem_cons_of_mem r hq)
      have hfirst' : ∀ q ∈ rest, start < q.limit :=
        fun q hq => hfirst q (List.mem_cons_of_mem r hq)
      unfold msyncLoop at h
      split at h
      · rename_i hlt
        have htop : r.limit < 4294967296 := by
          refine Nat.lt_of_le_of_ne hr.limit_le fun heq => ?_
          have hle := habove r List.mem_cons_self heq
          omega
        split at h
        · rename_i hshared
          have hsyncs : r.Syncs start stop :=
            ⟨hshared, hlt, hfirst r List.mem_cons_self⟩
          obtain ⟨⟨done, ans₁, st₁⟩, hwrite, hrest⟩ := bind_eq_ok h
          obtain ⟨ptr, own, hptr, hown, htrace⟩ := writeback_synced hr htop hsyncs hwrite
          obtain ⟨calls, all, hcalls, hsynced, hret⟩ := ih hok.tail habove' hfirst' hrest
          simp only [(writeback_onlyLogs hwrite).frefFd_eq] at hsynced
          refine ⟨own ++ calls, done && all, ?_, .write hsyncs hptr htrace hsynced, ?_⟩
          · rw [hcalls, hown, List.append_assoc]
          · rw [hret]
            cases done with
            | true => rfl
            | false => cases all <;> rfl
        · rename_i hshared
          obtain ⟨calls, all, hcalls, hsynced, hret⟩ := ih hok.tail habove' hfirst' h
          exact ⟨calls, all, hcalls, .skip (fun hsyncs => hshared hsyncs.shared) hsynced, hret⟩
      · rename_i hge
        simp only [Except.ok.injEq, Prod.mk.injEq] at h
        obtain ⟨rfl, rfl⟩ := h
        refine ⟨[], true, by simp, synced_of_none fun q hq hsyncs => ?_, rfl⟩
        have hlt := hsyncs.base_lt
        rcases List.mem_cons.mp hq with rfl | hq
        · exact hge hlt
        · have hpos := hr.base_lt_limit
          have hgap := (List.pairwise_cons.mp hok.ordered).1 q hq
          omega

/-- The write pass returns if the host makes progress on what is owed. -/
theorem msyncLoop_returns {start stop : Nat} {post : List Region} {result : Int}
    {ans : PwriteAnswers} {st : State} (hans : owed start stop post ≤ wrotes ans) :
    ∃ res, msyncLoop start stop post result ans st = .ok res := by
  induction post generalizing result ans st with
  | nil => exact ⟨_, rfl⟩
  | cons r rest ih =>
      unfold owed at hans
      unfold msyncLoop
      split
      · rename_i hlt
        rw [if_pos hlt, Region.owed] at hans
        split
        · rename_i hshared
          rw [if_pos hshared] at hans
          obtain ⟨done, ans₁, st₁, hwrite, hleft⟩ :=
            writeback_returns st (Nat.le_trans (Nat.le_add_right _ _) hans)
          rw [hwrite]
          exact ih (by omega)
        · rename_i hshared
          rw [if_neg hshared, Nat.zero_add] at hans
          exact ih hans
      · exact ⟨_, rfl⟩

/-! The call -/

/-- `length` rounded up to whole pages, not reduced to 32 bits. -/
def roundUp (length : Nat) : Nat := (length + (PAGE - 1)) / PAGE * PAGE

theorem pageCeil_eq_roundUp {n start : Nat} (h : start + roundUp n < 4294967296) :
    pageCeil n = roundUp n := by
  unfold pageCeil roundUp wrap PAGE at *
  omega

/-- The flags `msync` knows, `MS_ASYNC` and `MS_SYNC` not both. -/
def ValidSync (flags : BitVec 32) : Prop :=
  ¬ (flags &&& MS_ASYNC ≠ 0 ∧ flags &&& MS_SYNC ≠ 0) ∧
    flags &&& ~~~(MS_ASYNC ||| MS_SYNC ||| MS_INVALIDATE) = 0

instance (flags : BitVec 32) : Decidable (ValidSync flags) := inferInstanceAs (Decidable (_ ∧ _))

/-- `msync` refuses a range that is not all live and writes every overlap of
one that is. -/
structure SyncsRange (st : State) (addr length flags : BitVec 32) : Prop where
  returns : ∃ n, ∀ ans : Answers, n ≤ wrotes ans.pwrites →
    ∃ ret st', msync addr length flags ans st = .ok (ret, st')
  refuses : ∀ ans ret st', msync addr length flags ans st = .ok (ret, st') →
    (ret = -1 ∧ st'.errno = .enomem ∧ st'.calls = st.calls ↔
      ¬ RangeLive st.regs addr.toNat (addr.toNat + roundUp length.toNat))
  writes : ∀ ans ret st', msync addr length flags ans st = .ok (ret, st') →
    RangeLive st.regs addr.toNat (addr.toNat + roundUp length.toNat) →
      ∃ calls all, st'.calls = st.calls ++ calls ∧
        Synced (fun ptr => st.frefFd ptr) addr.toNat (addr.toNat + roundUp length.toNat)
          st.regs calls all ∧
        ret = if all then 0 else -1

section

variable {st : State} {addr length flags : BitVec 32}

/-- The checks of `msync` pass what is aligned, valid, nonempty and ends below
the top. -/
theorem msync_eq (halign : PAGE ∣ addr.toNat) (hflags : ValidSync flags)
    (hlength : 0 < length.toNat)
    (hstop : addr.toNat + roundUp length.toNat < 4294967296) (ans : Answers) :
    PageRange addr.toNat (addr.toNat + roundUp length.toNat) ∧
      msync addr length flags ans st =
        if coverLoop st.regs (addr.toNat + roundUp length.toNat) (st.regs.length + 1)
            (firstOverlap addr.toNat st.regs) addr.toNat then
          msyncLoop addr.toNat (addr.toNat + roundUp length.toNat)
            (st.regs.drop (firstOverlap addr.toNat st.regs)) 0 ans.pwrites st
        else .ok (-1, st.setErrno .enomem) := by
  have hceil := pageCeil_eq_roundUp hstop
  have hle : length.toNat ≤ roundUp length.toNat := by
    unfold roundUp PAGE
    omega
  have hne : length ≠ 0 := by
    rintro rfl
    exact absurd hlength (by decide)
  have hwrap := wrap_of_lt hstop
  refine ⟨⟨halign, Nat.dvd_add halign (Nat.dvd_mul_left _ _), hstop, by omega⟩, ?_⟩
  unfold msync
  dsimp only
  rw [hceil, hwrap, if_neg, if_neg hne, if_neg (by omega)]
  rintro (hodd | hboth | hunknown)
  · exact hodd (Nat.mod_eq_zero_of_dvd halign)
  · exact hflags.1 hboth
  · exact hunknown hflags.2

/-- A range of live pages that stays clear of the top is written; every other
one is refused. -/
theorem syncsRange_iff (hok : TableOk st.regs) (halign : PAGE ∣ addr.toNat)
    (hflags : ValidSync flags) (hlength : 0 < length.toNat)
    (hstop : addr.toNat + roundUp length.toNat < 4294967296) :
    SyncsRange st addr length flags ↔
      ¬ (RangeLive st.regs addr.toNat (addr.toNat + roundUp length.toNat) ∧
        TopMissed st.regs addr.toNat (addr.toNat + roundUp length.toNat)) := by
  have hrange := (@msync_eq st _ _ _ halign hflags hlength hstop {}).1
  have hcall := fun ans => (@msync_eq st _ _ _ halign hflags hlength hstop ans).2
  have hcover := cover_iff hok hrange
  constructor
  · rintro hsyncs ⟨hlive, hmissed⟩
    have hrun := hcall {}
    rw [if_neg (fun h => (hcover.mp h).2 hmissed)] at hrun
    exact (hsyncs.refuses {} _ _ hrun).mp ⟨rfl, rfl, rfl⟩ hlive
  · intro hclear
    by_cases hlive : RangeLive st.regs addr.toNat (addr.toNat + roundUp length.toNat)
    · have haccept := hcover.mpr ⟨hlive, fun hmissed => hclear ⟨hlive, hmissed⟩⟩
      obtain ⟨pre, post, hregs, hidx, hpre, hpost⟩ := cover_split hok hrange haccept
      have habove := aboveStop_of_clear hok fun hmissed => hclear ⟨hlive, hmissed⟩
      have hrun : ∀ ans, msync addr length flags ans st =
          msyncLoop addr.toNat (addr.toNat + roundUp length.toNat) post 0 ans.pwrites st := by
        intro ans
        have hdrop : st.regs.drop (firstOverlap addr.toNat st.regs) = post := by
          rw [hidx, hregs, List.drop_left]
        rw [hcall, if_pos haccept, hdrop]
      have hsynced : ∀ ans ret st', msync addr length flags ans st = .ok (ret, st') →
          ∃ calls all, st'.calls = st.calls ++ calls ∧
            Synced (fun ptr => st.frefFd ptr) addr.toNat (addr.toNat + roundUp length.toNat)
              st.regs calls all ∧
            ret = if all then 0 else -1 := by
        intro ans ret st' h
        rw [hrun] at h
        rw [hregs] at hok habove
        obtain ⟨calls, all, hcalls, hpass, hret⟩ := msyncLoop_synced hok.append_right
          (fun r hr => habove r (List.mem_append_right pre hr)) hpost h
        refine ⟨calls, all, hcalls, ?_, hret⟩
        rw [hregs]
        refine hpass.append fun r hr hmeets => ?_
        have hend := hpre r hr
        have hlimit := hmeets.lt_limit
        omega
      refine ⟨⟨owed addr.toNat (addr.toNat + roundUp length.toNat) post, fun ans hans => ?_⟩, ?_,
        fun ans ret st' h _ => hsynced ans ret st' h⟩
      · obtain ⟨⟨ret, st'⟩, hres⟩ := @msyncLoop_returns _ _ _ 0 _ st hans
        exact ⟨ret, st', (hrun ans).trans hres⟩
      · intro ans ret st' h
        refine ⟨fun ⟨hfailed, _, hquiet⟩ => ?_, fun hnot => absurd hlive hnot⟩
        obtain ⟨calls, all, hcalls, hpass, hret⟩ := hsynced ans ret st' h
        rw [hcalls] at hquiet
        rw [hpass.all_of_nil (List.append_right_eq_self.mp hquiet)] at hret
        rw [hret] at hfailed
        cases hfailed
    · have hrun : ∀ ans, msync addr length flags ans st = .ok (-1, st.setErrno .enomem) := by
        intro ans
        rw [hcall, if_neg fun h => hlive (hcover.mp h).1]
      refine ⟨⟨0, fun ans _ => ⟨_, _, hrun ans⟩⟩, fun ans ret st' h => ?_,
        fun _ _ _ _ h => absurd h hlive⟩
      rw [hrun, Except.ok.injEq, Prod.mk.injEq] at h
      obtain ⟨rfl, rfl⟩ := h
      exact ⟨fun _ => hlive, fun _ => ⟨rfl, rfl, rfl⟩⟩

/-- In every reachable state, for every aligned, valid, nonempty range that ends
below the top. -/
theorem run_syncsRange_iff {labels : List Label} (hrun : Run (Step SbrkOk) State.init labels st)
    (halign : PAGE ∣ addr.toNat) (hflags : ValidSync flags) (hlength : 0 < length.toNat)
    (hstop : addr.toNat + roundUp length.toNat < 4294967296) :
    SyncsRange st addr length flags ↔
      ¬ (RangeLive st.regs addr.toNat (addr.toNat + roundUp length.toNat) ∧
        TopMissed st.regs addr.toNat (addr.toNat + roundUp length.toNat)) :=
  syncsRange_iff (run_poolInv hrun).tableOk halign hflags hlength hstop

end

namespace CoverageWitness

open FileRefWitness PageMapWitness

/-- The two fragments of a mapping whose middle page is unmapped, and that
page. -/
theorem shattered_syncsRange : SyncsRange shattered 0x20000 0x30000 MS_SYNC ∧
    ¬ RangeLive shattered.regs 0x20000 0x50000 := by
  have hbelow : ∀ r ∈ shattered.regs, r.limit ≠ 4294967296 := by decide +kernel
  refine ⟨(run_syncsRange_iff shattered_run (by decide) (by decide) (by decide) (by decide)).mpr
    ?_, ?_⟩
  · rintro ⟨_, front, last, hregs, htop, _⟩
    exact hbelow last (by rw [hregs]; simp) htop
  · intro hlive
    obtain ⟨r, hr, hpage⟩ := hlive 0x30000 (by decide) (by decide) (by decide)
    have hnone : ∀ r ∈ shattered.regs,
        ¬ (r.kind ≠ .rFree ∧ r.base ≤ 0x30000 ∧ 0x30000 + PAGE ≤ r.limit) := by decide +kernel
    exact hnone r hr hpage

/-- `msync` reports the first page of a live mapping as unmapped. -/
theorem atTop_not_syncsRange :
    Run (Step SbrkOk) State.init
        [.call (.mmap 0x20000 3 0x22 (-1) 0) (.addr (some 0xFFFE0000))] atTop ∧
      (∀ ans, msync 0xFFFE0000 0x10000 MS_SYNC ans atTop =
        .ok (-1, atTop.setErrno .enomem)) ∧
      RangeLive atTop.regs 0xFFFE0000 0xFFFF0000 ∧
      ¬ SyncsRange atTop 0xFFFE0000 0x10000 MS_SYNC := by
  have hmsync : ∀ ans, msync 0xFFFE0000 0x10000 MS_SYNC ans atTop =
      .ok (-1, atTop.setErrno .enomem) := by
    intro ans
    have hlost : coverLoop atTop.regs 0xFFFF0000 (atTop.regs.length + 1)
        (firstOverlap 0xFFFE0000 atTop.regs) 0xFFFE0000 = false := by decide +kernel
    have hcall := (@msync_eq atTop 0xFFFE0000 0x10000 MS_SYNC (by decide) (by decide)
      (by decide) (by decide) ans).2
    exact hcall.trans (if_neg (by rw [Bool.not_eq_true]; exact hlost))
  have hlive : RangeLive atTop.regs 0xFFFE0000 0xFFFF0000 := by
    have hpage : ∃ r ∈ atTop.regs, r.kind ≠ .rFree ∧ r.base ≤ 0xFFFE0000 ∧
        0xFFFE0000 + PAGE ≤ r.limit := by decide +kernel
    intro p hp hlow hhigh
    obtain rfl : p = 0xFFFE0000 := by
      unfold PAGE at hp
      omega
    exact hpage
  refine ⟨atTop_run, hmsync, hlive, fun hsyncs => ?_⟩
  exact (hsyncs.refuses {} _ _ (hmsync {})).mp ⟨rfl, rfl, rfl⟩ hlive

end CoverageWitness

end Mman

end WasixLibc
