/-
Runs of `mmap`, `munmap` and `msync` calls.

A run interleaves calls, whose host answers are arbitrary, with stores of the
application.  What `sbrk` may return is a parameter of the step relation; the
table stays well formed under the weakest contract used here.
-/
import WasixLibc.LabelledRun
import WasixLibc.MmanMap

namespace WasixLibc

namespace Mman

open SpanList ListZipper

inductive Call where
  | mmap (length prot flags : BitVec 32) (fd offset : Int)
  | munmap (addr length : BitVec 32)
  | msync (addr length flags : BitVec 32)
deriving Repr, DecidableEq

/-- The address of `mmap`, where `none` is `MAP_FAILED`, or the result of the
other calls. -/
inductive Ret where
  | addr (p : Option Nat)
  | code (n : Int)
deriving Repr, DecidableEq

def Call.exec : Call → Answers → State → Except Stop (Ret × State)
  | .mmap length prot flags fd offset, ans, st => do
      let (p, st) ← Mman.mmap length prot flags fd offset ans st
      .ok (.addr p, st)
  | .munmap addr length, ans, st => do
      let (n, st) ← Mman.munmap addr length ans st
      .ok (.code n, st)
  | .msync addr length flags, ans, st => do
      let (n, st) ← Mman.msync addr length flags ans st
      .ok (.code n, st)

inductive Label where
  | call (c : Call) (ret : Ret)
  | store
deriving Repr, DecidableEq

/-- One call that returns, or one store of the application.  `host` is what
is known of a range that `sbrk` returns. -/
inductive Step (host : State → Nat → Nat → Prop) : State → Label → State → Prop
  | call {c : Call} {ans : Answers} {ret : Ret} {st st' : State} :
      c.exec ans st = .ok (ret, st') →
      (∀ base len, st'.grown = (base, len) :: st.grown → host st base len) →
      Step host st (.call c ret) st'
  | store {st : State} (mem : Nat → UInt8) : Step host st .store { st with mem := mem }

theorem Step.mono {host host' : State → Nat → Nat → Prop} {st st' : State} {l : Label}
    (h : Step host st l st') (hhost : ∀ st base len, host st base len → host' st base len) :
    Step host' st l st' := by
  cases h with
  | call hexec hgrown => exact .call hexec fun base len hg => hhost _ _ _ (hgrown base len hg)
  | store mem => exact .store mem

/-- The state after start-up. -/
def State.init : State := {}

/-! What the other two calls can do -/

/-- The ways `munmap` ends. -/
inductive MunmapOutcome (addr length : BitVec 32) (st : State) : Int → State → Prop
  | refused {st' : State} : SameTable st st' → st'.mem = st.mem → st'.calls = st.calls →
      MunmapOutcome addr length st (-1) st'
  | unmapped {st' : State} {cap : Nat} {ans : PwriteAnswers} :
      PageRange addr.toNat (addr.toNat + pageCeil length.toNat) →
      length.toNat ≤ pageCeil length.toNat →
      unmapRange addr.toNat (addr.toNat + pageCeil length.toNat) ans
        { st with capregs := cap } = .ok st' →
      MunmapOutcome addr length st 0 st'

/-- A range of whole pages whose end does not wrap. -/
theorem pageRange_of_checks {addr length : BitVec 32} (halign : addr.toNat % PAGE = 0)
    (hlength : length ≠ 0) (hceil : length.toNat ≤ pageCeil length.toNat)
    (hend : addr.toNat ≤ wrap (addr.toNat + pageCeil length.toNat)) :
    PageRange addr.toNat (addr.toNat + pageCeil length.toNat) ∧
      wrap (addr.toNat + pageCeil length.toNat) = addr.toNat + pageCeil length.toNat := by
  have haddr := addr.isLt
  have hlen := pageCeil_lt length.toNat
  have hpos : 0 < length.toNat := by
    apply Nat.pos_of_ne_zero
    intro hzero
    exact hlength (BitVec.eq_of_toNat_eq (by simpa using hzero))
  have hlt : addr.toNat + pageCeil length.toNat < 4294967296 := by
    unfold wrap at hend
    omega
  refine ⟨⟨Nat.dvd_of_mod_eq_zero halign, ?_, hlt, by omega⟩, wrap_of_lt hlt⟩
  exact Nat.dvd_add (Nat.dvd_of_mod_eq_zero halign) (pageCeil_dvd _)

theorem munmap_outcome {addr length : BitVec 32} {ans : Answers} {st st' : State}
    {ret : Int} (h : munmap addr length ans st = .ok (ret, st')) :
    MunmapOutcome addr length st ret st' := by
  unfold munmap at h
  dsimp only at h
  split at h
  · simp only [Except.ok.injEq, Prod.mk.injEq] at h
    obtain ⟨rfl, rfl⟩ := h
    exact .refused (setErrno_sameTable _ _) rfl rfl
  rename_i hargs
  split at h
  · simp only [Except.ok.injEq, Prod.mk.injEq] at h
    obtain ⟨rfl, rfl⟩ := h
    exact .refused (setErrno_sameTable _ _) rfl rfl
  rename_i hrange
  rw [not_or] at hargs hrange
  obtain ⟨hpages, hwrap⟩ := pageRange_of_checks (not_not.mp hargs.1) hargs.2
    (Nat.le_of_not_lt hrange.1) (Nat.le_of_not_lt hrange.2)
  split at h
  · rename_i hreserve
    obtain ⟨cap, rfl⟩ := reserve_spec hreserve
    simp only [Except.ok.injEq, Prod.mk.injEq] at h
    obtain ⟨rfl, rfl⟩ := h
    exact .refused ⟨rfl, rfl, rfl, rfl, rfl, rfl⟩ rfl rfl
  · rename_i hreserve
    obtain ⟨cap, rfl⟩ := reserve_spec hreserve
    obtain ⟨st₁, hrun, hrest⟩ := bind_eq_ok h
    simp only [Except.ok.injEq, Prod.mk.injEq] at hrest
    obtain ⟨rfl, rfl⟩ := hrest
    rw [hwrap] at hrun
    exact .unmapped hpages (Nat.le_of_not_lt hrange.1) hrun

theorem msyncLoop_onlyLogs {start stop : Nat} {regs : List Region} {result ret : Int}
    {ans : PwriteAnswers} {st st' : State}
    (h : msyncLoop start stop regs result ans st = .ok (ret, st')) : OnlyLogs st st' := by
  induction regs generalizing result ans st with
  | nil =>
      simp only [msyncLoop, Except.ok.injEq, Prod.mk.injEq] at h
      rw [← h.2]
      exact OnlyLogs.refl st
  | cons r rest ih =>
      simp only [msyncLoop] at h
      split at h
      · split at h
        · obtain ⟨⟨done, ans₁, st₁⟩, hwrite, hrest⟩ := bind_eq_ok h
          exact (writeback_onlyLogs hwrite).trans (ih hrest)
        · exact ih h
      · simp only [Except.ok.injEq, Prod.mk.injEq] at h
        rw [← h.2]
        exact OnlyLogs.refl st

/-- The ways `msync` ends: a failed check, nothing to do, or the second pass. -/
theorem msync_cases {addr length flags : BitVec 32} {ans : Answers} {st st' : State}
    {ret : Int} (h : msync addr length flags ans st = .ok (ret, st')) :
    (∃ e, ret = -1 ∧ st' = st.setErrno e) ∨ (length = 0 ∧ ret = 0 ∧ st' = st) ∨
      PageRange addr.toNat (addr.toNat + pageCeil length.toNat) ∧
        coverLoop st.regs (addr.toNat + pageCeil length.toNat) (st.regs.length + 1)
          (firstOverlap addr.toNat st.regs) addr.toNat = true ∧
        msyncLoop addr.toNat (addr.toNat + pageCeil length.toNat)
          (st.regs.drop (firstOverlap addr.toNat st.regs)) 0 ans.pwrites st =
            .ok (ret, st') := by
  have hrefused : ∀ {e : Errno}, Except.ok (-1, st.setErrno e) =
      (.ok (ret, st') : Except Stop _) → ∃ e, ret = -1 ∧ st' = st.setErrno e := by
    intro e heq
    simp only [Except.ok.injEq, Prod.mk.injEq] at heq
    exact ⟨e, heq.1.symm, heq.2.symm⟩
  unfold msync at h
  dsimp only at h
  split at h
  · exact Or.inl (hrefused h)
  rename_i hargs
  split at h
  · rename_i hzero
    simp only [Except.ok.injEq, Prod.mk.injEq] at h
    exact Or.inr (Or.inl ⟨hzero, h.1.symm, h.2.symm⟩)
  rename_i hlength
  split at h
  · exact Or.inl (hrefused h)
  rename_i hrange
  split at h
  · rename_i hcover
    rw [not_or] at hargs hrange
    obtain ⟨hpages, hwrap⟩ := pageRange_of_checks (not_not.mp hargs.1) hlength
      (Nat.le_of_not_lt hrange.1) (Nat.le_of_not_lt hrange.2)
    rw [hwrap] at h hcover
    exact Or.inr (Or.inr ⟨hpages, hcover, h⟩)
  · exact Or.inl (hrefused h)

theorem msync_onlyLogs {addr length flags : BitVec 32} {ans : Answers} {st st' : State}
    {ret : Int} (h : msync addr length flags ans st = .ok (ret, st')) :
    OnlyLogs st st' := by
  rcases msync_cases h with ⟨e, _, rfl⟩ | ⟨_, _, rfl⟩ | ⟨_, _, hloop⟩
  · exact setErrno_onlyLogs e st
  · exact OnlyLogs.refl st'
  · exact msyncLoop_onlyLogs hloop

/-! What `sbrk` may return -/

/-- The range ends strictly below the top of the address space and was never
returned before. -/
def NeverReturned (st : State) (base len : Nat) : Prop :=
  base + len < 4294967296 ∧ ∀ g ∈ st.grown, g.1 + g.2 ≤ base ∨ base + len ≤ g.1

/-- Address `0`, where the module keeps its own data, or the top of the
address space is never handed out. -/
def Rooted (grown : List (Nat × Nat)) : Prop :=
  (∀ g ∈ grown, 0 < g.1) ∨ ∀ g ∈ grown, g.1 + g.2 < 4294967296

/-- The pages lie inside the address space and were never returned before, and
a memory that reached the top of the address space grows no more. -/
structure SbrkOk (st : State) (base len : Nat) : Prop where
  fits : base + len ≤ 4294967296
  unowned : ∀ g ∈ st.grown, g.1 + g.2 ≤ base ∨ base + len ≤ g.1
  room : ∀ g ∈ st.grown, g.1 + g.2 < 4294967296
  rooted : Rooted ((base, len) :: st.grown)

/-- Every covered address was returned by `sbrk`. -/
def Within (st : State) : Prop :=
  ∀ x, Covered st.regs x → ∃ g ∈ st.grown, g.1 ≤ x ∧ x < g.1 + g.2

structure PoolInv (st : State) : Prop where
  tableOk : TableOk st.regs
  within : Within st
  rooted : Rooted st.grown

theorem PoolInv.proper {st : State} (h : PoolInv st) : Proper st.regs := by
  rintro ⟨hfirst, hlast⟩
  obtain ⟨g, hg, hlow, _⟩ := h.within 0 hfirst
  obtain ⟨g', hg', _, hhigh⟩ := h.within 4294967295 hlast
  rcases h.rooted with hpos | htop
  · have hzero := hpos g hg
    omega
  · have hend := htop g' hg'
    omega

theorem belowTop_of_room {st : State} (hok : TableOk st.regs) (hwithin : Within st)
    (hroom : ∀ g ∈ st.grown, g.1 + g.2 < 4294967296) : BelowTop st.regs := by
  rw [belowTop_iff hok.regions]
  intro hlast
  obtain ⟨g, hg, _, hhigh⟩ := hwithin _ hlast
  have hend := hroom g hg
  omega

/-- What `sbrk` returns fits between the regions. -/
theorem SbrkOk.fits_table {st : State} {base len : Nat} (h : SbrkOk st base len)
    (hinv : PoolInv st) (hlen : 0 < len) : Fits base len st.regs := by
  refine ⟨h.fits, ?_⟩
  intro pre post hregs hidx
  have htop := belowTop_of_room hinv.tableOk hinv.within h.room
  obtain ⟨below, above, hsplit, hidx', hbelow, habove⟩ :=
    hinv.tableOk.firstOverlap_split htop base
  obtain ⟨rfl, rfl⟩ : pre = below ∧ post = above :=
    List.append_inj (hregs.symm.trans hsplit) (hidx.trans hidx')
  refine ⟨hbelow, fun r hr => ?_⟩
  by_contra hnot
  have hlimit := habove r hr
  have hrmem : r ∈ st.regs := by
    rw [hregs]
    exact List.mem_append_right pre hr
  have hpos := (hinv.tableOk.regions r hrmem).base_lt_limit
  -- the larger of the two bases would be returned twice
  obtain ⟨g, hg, hlow, hhigh⟩ :=
    hinv.within (max r.base base) ⟨r, hrmem, by omega, by omega⟩
  have hfree := h.unowned g hg
  omega

theorem SameTable.poolInv {st st' : State} (h : SameTable st st') (hinv : PoolInv st) :
    PoolInv st' := by
  refine ⟨h.regs_eq ▸ hinv.tableOk, ?_, h.grown_eq ▸ hinv.rooted⟩
  unfold Within
  rw [h.regs_eq, h.grown_eq]
  exact hinv.within

/-- What unmapping keeps. -/
theorem unmapRange_poolInv {start stop : Nat} {ans : PwriteAnswers} {st st' : State}
    (hinv : PoolInv st) (hrange : UnmapRange start stop)
    (h : unmapRange start stop ans st = .ok st') :
    PoolInv st' ∧ ∀ x, Covered st'.regs x ↔ Covered st.regs x := by
  obtain ⟨hok, hcov⟩ := unmapRange_ok hinv.tableOk hinv.proper hrange h
  have hpool := unmapRange_samePool h
  refine ⟨⟨hok, ?_, hpool.grown_eq ▸ hinv.rooted⟩, hcov⟩
  intro x hx
  rw [hpool.grown_eq]
  exact hinv.within x ((hcov x).mp hx)

/-- The end of a new region, as the failure exits of `mmap` compute it. -/
theorem Entered.unmapRange {st st' : State} {base len : Nat}
    (h : Entered st st' base len) (hpos : 0 < len) (hdvd : PAGE ∣ len) :
    UnmapRange base (wrap (base + len)) := by
  have hlimit := h.limit_le
  rcases Nat.lt_or_eq_of_le hlimit with hlt | heq
  · left
    rw [wrap_of_lt hlt]
    exact ⟨h.base_dvd, Nat.dvd_add h.base_dvd hdvd, hlt, by omega⟩
  · right
    rw [heq]
    rfl

theorem NewRegion.poolInv {length prot flags : BitVec 32} {st st' : State} {base : Nat}
    (h : NewRegion length prot flags st st' base) (hinv : PoolInv st)
    (hhost : st'.grown = (base, pageCeil length.toNat) :: st.grown →
      SbrkOk st base (pageCeil length.toNat)) :
    Entered st st' base (pageCeil length.toNat) ∧ PoolInv st' := by
  have hentered := h.entered hinv.tableOk fun hg => (hhost hg).fits_table hinv h.1
  refine ⟨hentered, hentered.tableOk, ?_, ?_⟩
  · intro x hx
    rcases hentered.growth with ⟨hgrown, hold⟩ | hgrown
    · rw [hgrown]
      rcases (hentered.covered x).mp hx with hnew | hcov
      · exact hinv.within x (hold x hnew.1 hnew.2)
      · exact hinv.within x hcov
    · rw [hgrown]
      rcases (hentered.covered x).mp hx with hnew | hcov
      · exact ⟨_, List.mem_cons_self, hnew⟩
      · obtain ⟨g, hg, hbounds⟩ := hinv.within x hcov
        exact ⟨g, List.mem_cons_of_mem _ hg, hbounds⟩
  · rcases hentered.growth with ⟨hgrown, _⟩ | hgrown
    · rw [hgrown]
      exact hinv.rooted
    · rw [hgrown]
      exact (hhost hgrown).rooted

/-- What the failure exits of `mmap` do: a region is entered and its range
unmapped. -/
theorem NewRegion.unmapped {length prot flags : BitVec 32} {st st₂ st₃ : State}
    {base : Nat} {ans : PwriteAnswers} (h : NewRegion length prot flags st st₂ base)
    (hinv : PoolInv st)
    (hrun : unmapRange base (wrap (base + pageCeil length.toNat)) ans st₂ = .ok st₃)
    (hhost : st₃.grown = (base, pageCeil length.toNat) :: st.grown →
      SbrkOk st base (pageCeil length.toNat)) :
    Entered st st₂ base (pageCeil length.toNat) ∧ PoolInv st₂ ∧ PoolInv st₃ ∧
      (∀ x, Covered st₃.regs x ↔ Covered st₂.regs x) ∧ st₃.grown = st₂.grown := by
  have hpool : st₃.grown = st₂.grown := (unmapRange_samePool hrun).grown_eq
  obtain ⟨hentered, hinv₂⟩ := h.poolInv hinv fun hg => hhost (hpool.trans hg)
  have hrange := hentered.unmapRange h.1 (pageCeil_dvd _)
  obtain ⟨hinv₃, hcov⟩ := unmapRange_poolInv hinv₂ hrange hrun
  exact ⟨hentered, hinv₂, hinv₃, hcov, hpool⟩

/-- One `mmap` keeps the table well formed and uncovers nothing. -/
theorem MmapOutcome.poolInv {length prot flags : BitVec 32} {fd offset : Int}
    {st st' : State} {ret : Option Nat}
    (h : MmapOutcome length prot flags fd offset st ret st') (hinv : PoolInv st)
    (hhost : ∀ base len, st'.grown = (base, len) :: st.grown → SbrkOk st base len) :
    PoolInv st' ∧ ∀ x, Covered st.regs x → Covered st'.regs x := by
  rcases h.table_cases with ⟨_, hsame⟩ | ⟨base, _, hnew⟩ |
    ⟨base, st₂, ans, st₃, e, _, hnew, hrun, rfl⟩
  · exact ⟨hsame.poolInv hinv, fun x hx => hsame.regs_eq ▸ hx⟩
  · obtain ⟨hentered, hinv'⟩ := hnew.poolInv hinv (hhost base _)
    exact ⟨hinv', fun x hx => (hentered.covered x).mpr (Or.inr hx)⟩
  · obtain ⟨hentered, _, hinv₃, hcov, _⟩ := hnew.unmapped hinv hrun (hhost base _)
    refine ⟨(setErrno_sameTable e st₃).poolInv hinv₃, fun x hx => ?_⟩
    exact (hcov x).mpr ((hentered.covered x).mpr (Or.inr hx))

theorem MunmapOutcome.poolInv {addr length : BitVec 32} {st st' : State} {ret : Int}
    (h : MunmapOutcome addr length st ret st') (hinv : PoolInv st) :
    PoolInv st' ∧ ∀ x, Covered st.regs x → Covered st'.regs x := by
  cases h with
  | refused hsame _ _ => exact ⟨hsame.poolInv hinv, fun x hx => hsame.regs_eq ▸ hx⟩
  | @unmapped _ cap _ hrange _ hrun =>
      have hinv₁ : PoolInv { st with capregs := cap } :=
        ⟨hinv.tableOk, hinv.within, hinv.rooted⟩
      obtain ⟨hinv', hcov⟩ := unmapRange_poolInv hinv₁ (Or.inl hrange) hrun
      exact ⟨hinv', fun x hx => (hcov x).mpr hx⟩

/-! Runs -/

section

variable {c : Call} {ans : Answers} {ret : Ret} {st st' : State}

/-- The outcome of a call, whichever it is. -/
theorem Call.exec_cases (h : c.exec ans st = .ok (ret, st')) :
    (∃ length prot flags fd offset p, c = .mmap length prot flags fd offset ∧
        ret = .addr p ∧ MmapOutcome length prot flags fd offset st p st') ∨
      (∃ addr length n, c = .munmap addr length ∧ ret = .code n ∧
        MunmapOutcome addr length st n st') ∨
      ∃ addr length flags n, c = .msync addr length flags ∧ ret = .code n ∧
        Mman.msync addr length flags ans st = .ok (n, st') := by
  cases c with
  | mmap length prot flags fd offset =>
      obtain ⟨⟨p, st₁⟩, hrun, hrest⟩ := bind_eq_ok h
      simp only [Except.ok.injEq, Prod.mk.injEq] at hrest
      obtain ⟨rfl, rfl⟩ := hrest
      exact Or.inl ⟨_, _, _, _, _, p, rfl, rfl, mmap_outcome hrun⟩
  | munmap addr length =>
      obtain ⟨⟨n, st₁⟩, hrun, hrest⟩ := bind_eq_ok h
      simp only [Except.ok.injEq, Prod.mk.injEq] at hrest
      obtain ⟨rfl, rfl⟩ := hrest
      exact Or.inr (Or.inl ⟨_, _, n, rfl, rfl, munmap_outcome hrun⟩)
  | msync addr length flags =>
      obtain ⟨⟨n, st₁⟩, hrun, hrest⟩ := bind_eq_ok h
      simp only [Except.ok.injEq, Prod.mk.injEq] at hrest
      obtain ⟨rfl, rfl⟩ := hrest
      exact Or.inr (Or.inr ⟨_, _, _, n, rfl, rfl, hrun⟩)

end

theorem Step.mmap_outcome {host : State → Nat → Nat → Prop}
    {length prot flags : BitVec 32} {fd offset : Int} {p : Option Nat} {st st' : State}
    (h : Step host st (.call (.mmap length prot flags fd offset) (.addr p)) st') :
    MmapOutcome length prot flags fd offset st p st' ∧
      ∀ base len, st'.grown = (base, len) :: st.grown → host st base len := by
  cases h with
  | call hexec hhost =>
      refine ⟨?_, hhost⟩
      rcases Call.exec_cases hexec with ⟨_, _, _, _, _, _, hcall, hret, houtcome⟩ |
        ⟨_, _, _, hcall, _⟩ | ⟨_, _, _, _, hcall, _⟩
      · cases hcall
        cases hret
        exact houtcome
      · cases hcall
      · cases hcall

theorem OnlyLogs.poolInv {st st' : State} (h : OnlyLogs st st') (hinv : PoolInv st) :
    PoolInv st' := by
  refine ⟨h.regs_eq ▸ hinv.tableOk, ?_, h.grown_eq ▸ hinv.rooted⟩
  unfold Within
  rw [h.regs_eq, h.grown_eq]
  exact hinv.within

/-- The step lemma of the table invariant. -/
theorem Step.poolInv {st st' : State} {l : Label} (h : Step SbrkOk st l st')
    (hinv : PoolInv st) : PoolInv st' ∧ ∀ x, Covered st.regs x → Covered st'.regs x := by
  cases h with
  | call hexec hhost =>
      rcases Call.exec_cases hexec with ⟨_, _, _, _, _, _, _, _, houtcome⟩ |
        ⟨_, _, _, _, _, houtcome⟩ | ⟨_, _, _, _, _, _, hrun⟩
      · exact houtcome.poolInv hinv hhost
      · exact houtcome.poolInv hinv
      · have hlogs := msync_onlyLogs hrun
        exact ⟨hlogs.poolInv hinv, fun x hx => hlogs.regs_eq ▸ hx⟩
  | store mem => exact ⟨⟨hinv.tableOk, hinv.within, hinv.rooted⟩, fun _ hx => hx⟩

theorem init_poolInv : PoolInv State.init := by
  refine ⟨⟨List.Pairwise.nil, by simp [State.init]⟩, ?_, Or.inl (by simp [State.init])⟩
  rintro x ⟨r, hr, _⟩
  simp [State.init] at hr

theorem run_poolInv {labels : List Label} {st : State}
    (hrun : Run (Step SbrkOk) State.init labels st) : PoolInv st :=
  hrun.preserves (fun hinv hstep => (hstep.poolInv hinv).1) init_poolInv

/-! The region table as the source describes it -/

/-- The table is sorted by base, its regions are whole pages and disjoint, and
the free ones are coalesced and hold no reference. -/
structure TableInv (regs : List Region) : Prop where
  sorted : regs.Pairwise fun a b => a.base < b.base
  pages : ∀ r ∈ regs, PAGE ∣ r.base ∧ PAGE ∣ r.len ∧ 0 < r.len
  disjoint : regs.Pairwise fun a b =>
    ∀ x, ¬ ((a.base ≤ x ∧ x < a.base + a.len) ∧ b.base ≤ x ∧ x < b.base + b.len)
  coalesced : regs.IsChain fun a b =>
    ¬ (a.kind = .rFree ∧ b.kind = .rFree ∧ a.base + a.len = b.base)
  free : ∀ r ∈ regs, r.kind = .rFree → r.fref = none ∧ r.dirty = true
  file : ∀ r ∈ regs, r.kind = .rFile → r.dataLen ≤ r.len

theorem TableOk.tableInv {regs : List Region} (hok : TableOk regs)
    (hcoalesced : Coalesced regs) : TableInv regs where
  sorted := by
    refine hok.ordered.imp_of_mem ?_
    intro a b ha _ hle
    exact Nat.lt_of_lt_of_le (hok.regions a ha).base_lt_limit hle
  pages := fun r hr =>
    ⟨(hok.regions r hr).base_dvd, (hok.regions r hr).len_dvd, (hok.regions r hr).len_pos⟩
  disjoint := by
    refine hok.ordered.imp ?_
    intro a b hle x hx
    unfold Region.limit at hle
    omega
  coalesced := hcoalesced
  free := fun r hr hfree =>
    ⟨(hok.regions r hr).free_fref hfree, (hok.regions r hr).free_dirty hfree⟩
  file := fun r hr => (hok.regions r hr).data_le

/-- Runs in which `sbrk` stays strictly below the top of the address space. -/
structure LowInv (st : State) : Prop extends PoolInv st where
  room : ∀ g ∈ st.grown, g.1 + g.2 < 4294967296
  coalesced : Coalesced st.regs

theorem LowInv.belowTop {st : State} (h : LowInv st) : BelowTop st.regs :=
  belowTop_of_room h.tableOk h.within h.room

theorem NeverReturned.sbrkOk {st : State} {base len : Nat} (h : NeverReturned st base len)
    (hroom : ∀ g ∈ st.grown, g.1 + g.2 < 4294967296) : SbrkOk st base len :=
  ⟨Nat.le_of_lt h.1, h.2, hroom, Or.inr (List.forall_mem_cons.mpr ⟨h.1, hroom⟩)⟩

/-- Under the strict contract `mmap` leaves the free regions coalesced, the
failure exits included. -/
theorem MmapOutcome.lowInv {length prot flags : BitVec 32} {fd offset : Int}
    {st st' : State} {ret : Option Nat}
    (h : MmapOutcome length prot flags fd offset st ret st') (hinv : LowInv st)
    (hhost : ∀ base len, st'.grown = (base, len) :: st.grown → NeverReturned st base len) :
    LowInv st' := by
  have hhost' : ∀ base len, st'.grown = (base, len) :: st.grown → SbrkOk st base len :=
    fun base len hg => (hhost base len hg).sbrkOk hinv.room
  have hroom : ∀ {s : State} {base len : Nat}, Entered st s base len →
      s.grown = st'.grown → ∀ g ∈ s.grown, g.1 + g.2 < 4294967296 := by
    intro s base len hentered hsame
    rcases hentered.growth with ⟨hgrown, _⟩ | hgrown
    · rw [hgrown]
      exact hinv.room
    · rw [hgrown]
      exact List.forall_mem_cons.mpr
        ⟨(hhost base len (hsame.symm.trans hgrown)).1, hinv.room⟩
  have hpool := (h.poolInv hinv.toPoolInv hhost').1
  rcases h.table_cases with ⟨_, hsame⟩ | ⟨base, _, hnew⟩ |
    ⟨base, st₂, ans, st₃, e, _, hnew, hrun, rfl⟩
  · exact ⟨hpool, hsame.grown_eq ▸ hinv.room, hsame.regs_eq ▸ hinv.coalesced⟩
  · obtain ⟨hentered, _⟩ := hnew.poolInv hinv.toPoolInv (hhost' base _)
    exact ⟨hpool, hroom hentered rfl,
      hentered.touchOld.coalesced hinv.tableOk hentered.tableOk hinv.coalesced⟩
  · obtain ⟨hentered, hinv₂, _, _, hgrown⟩ :=
      hnew.unmapped hinv.toPoolInv hrun (hhost' base _)
    have hroom₂ := hroom hentered hgrown.symm
    have hlow₂ := belowTop_of_room hinv₂.tableOk hinv₂.within hroom₂
    have hrange : PageRange base (wrap (base + pageCeil length.toNat)) := by
      rcases hentered.unmapRange hnew.1 (pageCeil_dvd _) with hrange | hzero
      · exact hrange
      · -- the last byte of the new region would be the last byte of all
        have hpos := hnew.1
        have hlimit := hentered.limit_le
        have htop : base + pageCeil length.toNat = 4294967296 := by
          by_contra hne
          rw [wrap_of_lt (by omega)] at hzero
          omega
        have hlast := (hentered.covered 4294967295).mpr (Or.inl (by omega))
        exact absurd hlast ((belowTop_iff hinv₂.tableOk.regions).mp hlow₂)
    have hcoalesced : Coalesced st₃.regs :=
      unmapRange_coalesced hinv₂.tableOk hlow₂
        (hentered.touchOld.coalesced hinv.tableOk hentered.tableOk hinv.coalesced) hrange hrun
    exact ⟨hpool, hgrown ▸ hroom₂, hcoalesced⟩

theorem MunmapOutcome.lowInv {addr length : BitVec 32} {st st' : State} {ret : Int}
    (h : MunmapOutcome addr length st ret st') (hinv : LowInv st) : LowInv st' := by
  have hpool := (h.poolInv hinv.toPoolInv).1
  cases h with
  | refused hsame _ _ =>
      exact ⟨hpool, hsame.grown_eq ▸ hinv.room, hsame.regs_eq ▸ hinv.coalesced⟩
  | unmapped hrange _ hrun =>
      refine ⟨hpool, ?_, ?_⟩
      · rw [(unmapRange_samePool hrun).grown_eq]
        exact hinv.room
      · refine unmapRange_coalesced ?_ ?_ ?_ hrange hrun
        · exact hinv.tableOk
        · exact hinv.belowTop
        · exact hinv.coalesced

/-- The step lemma under the strict contract. -/
theorem Step.lowInv {st st' : State} {l : Label} (h : Step NeverReturned st l st')
    (hinv : LowInv st) : LowInv st' ∧ ∀ x, Covered st.regs x → Covered st'.regs x := by
  cases h with
  | call hexec hhost =>
      rcases Call.exec_cases hexec with ⟨_, _, _, _, _, _, _, _, houtcome⟩ |
        ⟨_, _, _, _, _, houtcome⟩ | ⟨_, _, _, _, _, _, hrun⟩
      · refine ⟨houtcome.lowInv hinv hhost, ?_⟩
        exact (houtcome.poolInv hinv.toPoolInv fun base len hg =>
          (hhost base len hg).sbrkOk hinv.room).2
      · exact ⟨houtcome.lowInv hinv, (houtcome.poolInv hinv.toPoolInv).2⟩
      · have hlogs := msync_onlyLogs hrun
        exact ⟨⟨hlogs.poolInv hinv.toPoolInv, hlogs.grown_eq ▸ hinv.room,
          hlogs.regs_eq ▸ hinv.coalesced⟩, fun x hx => hlogs.regs_eq ▸ hx⟩
  | store mem =>
      exact ⟨⟨⟨hinv.tableOk, hinv.within, hinv.rooted⟩, hinv.room, hinv.coalesced⟩,
        fun _ hx => hx⟩

theorem run_lowInv {labels : List Label} {st : State}
    (hrun : Run (Step NeverReturned) State.init labels st) : LowInv st := by
  refine hrun.preserves (fun hinv hstep => (hstep.lowInv hinv).1) ⟨init_poolInv, ?_, ?_⟩
  · simp [State.init]
  · exact List.isChain_nil

/-- After every call of every run the region table is well formed, and no
call ever uncovers an address. -/
theorem run_tableInv {labels : List Label} {st : State}
    (hrun : Run (Step NeverReturned) State.init labels st) :
    TableInv st.regs ∧ ∀ l st', Step NeverReturned st l st' →
      ∀ x, Covered st.regs x → Covered st'.regs x := by
  have hinv := run_lowInv hrun
  exact ⟨hinv.tableOk.tableInv hinv.coalesced, fun l st' hstep => (hstep.lowInv hinv).2⟩

/-! Evaluating calls -/

/-- The state a call leaves behind, unchanged if the call does not return. -/
def Call.after (c : Call) (ans : Answers) (st : State) : State :=
  match c.exec ans st with
  | .ok (_, st) => st
  | .error _ => st

def Call.result (c : Call) (ans : Answers) (st : State) : Option Ret :=
  match c.exec ans st with
  | .ok (ret, _) => some ret
  | .error _ => none

theorem Call.exec_eq_after {c : Call} {ans : Answers} {st : State} {ret : Ret}
    (h : c.result ans st = some ret) : c.exec ans st = .ok (ret, c.after ans st) := by
  unfold Call.result at h
  unfold Call.after
  split at h
  · rename_i heq
    rw [heq, Option.some.inj h]
  · cases h

/-- A call that does not grow memory is a step under any contract. -/
theorem Call.step_of_grown_eq {host : State → Nat → Nat → Prop} {c : Call}
    {ans : Answers} {st : State} {ret : Ret} (h : c.result ans st = some ret)
    (hgrown : (c.after ans st).grown = st.grown) :
    Step host st (.call c ret) (c.after ans st) := by
  refine .call (Call.exec_eq_after h) fun base len hnew => ?_
  exact absurd (hnew.symm.trans hgrown) (List.cons_ne_self _ _)

theorem Call.step_of_grown_cons {host : State → Nat → Nat → Prop} {c : Call}
    {ans : Answers} {st : State} {ret : Ret} {base len : Nat}
    (h : c.result ans st = some ret)
    (hgrown : (c.after ans st).grown = (base, len) :: st.grown) (hhost : host st base len) :
    Step host st (.call c ret) (c.after ans st) := by
  refine .call (Call.exec_eq_after h) fun base' len' hnew => ?_
  have hsame := hgrown.symm.trans hnew
  simp only [List.cons.injEq, Prod.mk.injEq, and_true] at hsame
  obtain ⟨rfl, rfl⟩ := hsame
  exact hhost

theorem mmap_of_result {length prot flags : BitVec 32} {fd offset : Int} {ans : Answers}
    {st : State} {p : Option Nat}
    (h : (Call.mmap length prot flags fd offset).result ans st = some (.addr p)) :
    mmap length prot flags fd offset ans st =
      .ok (p, (Call.mmap length prot flags fd offset).after ans st) := by
  obtain ⟨⟨q, st₁⟩, hrun, hrest⟩ := bind_eq_ok (Call.exec_eq_after h)
  simp only [Except.ok.injEq, Prod.mk.injEq, Ret.addr.injEq] at hrest
  obtain ⟨rfl, hst⟩ := hrest
  rw [hrun, hst]

theorem munmap_of_result {addr length : BitVec 32} {ans : Answers} {st : State} {n : Int}
    (h : (Call.munmap addr length).result ans st = some (.code n)) :
    munmap addr length ans st = .ok (n, (Call.munmap addr length).after ans st) := by
  obtain ⟨⟨m, st₁⟩, hrun, hrest⟩ := bind_eq_ok (Call.exec_eq_after h)
  simp only [Except.ok.injEq, Prod.mk.injEq, Ret.code.injEq] at hrest
  obtain ⟨rfl, hst⟩ := hrest
  rw [hrun, hst]

namespace RunWitness

/-- Three anonymous pages from fresh memory. -/
def mapped : State :=
  (Call.mmap 0x30000 3 0x22 (-1) 0).after { memoryGrow := some 2 } State.init

/-- The same with the middle page unmapped. -/
def holed : State := (Call.munmap 0x30000 0x10000).after {} mapped

def trace : List Label :=
  [.call (.mmap 0x30000 3 0x22 (-1) 0) (.addr (some 0x20000)),
    .call (.munmap 0x30000 0x10000) (.code 0)]

theorem holed_run : Run (Step NeverReturned) State.init trace holed := by
  have hmap : Step NeverReturned State.init
      (.call (.mmap 0x30000 3 0x22 (-1) 0) (.addr (some 0x20000))) mapped :=
    Call.step_of_grown_cons (by decide +kernel)
      (show mapped.grown = (0x20000, 0x30000) :: State.init.grown by decide +kernel)
      ⟨by decide, by simp [State.init]⟩
  have hunmap : Step NeverReturned mapped
      (.call (.munmap 0x30000 0x10000) (.code 0)) holed :=
    Call.step_of_grown_eq (by decide +kernel) (by decide +kernel)
  exact (Run.single hmap).snoc hunmap

theorem holed_tableInv : holed.regs.map Region.kind = [.rAnon, .rFree, .rAnon] ∧
    TableInv holed.regs :=
  ⟨by decide +kernel, (run_tableInv holed_run).1⟩

end RunWitness

end Mman

end WasixLibc
