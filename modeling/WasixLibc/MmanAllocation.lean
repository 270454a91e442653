/-
The allocation contract of `mmap`.

A successful call takes pages that were not live, makes exactly these live,
and delivers them zero or filled from the file.  Recycled pages are cleared by
the call itself; pages fresh from `sbrk` are zero by the contract.
-/
import WasixLibc.MmanPageMap

namespace WasixLibc

namespace Mman

open SpanList ListZipper

/-- The range `sbrk` returns is new, and its bytes are zero. -/
def FreshPages (st : State) (base len : Nat) : Prop :=
  SbrkOk st base len ∧ ∀ x, base ≤ x → x < base + len → st.mem x = 0

def HostCall.isPread : HostCall → Bool
  | .pread .. => true
  | _ => false

/-- What a successful `mmap` that returns `p` has done. -/
structure Allocation (length prot flags : BitVec 32) (fd offset : Int) (p len : Nat)
    (st st' : State) : Prop where
  rounded : length.toNat ≤ len ∧ len < length.toNat + PAGE ∧ PAGE ∣ len
  aligned : PAGE ∣ p
  fits : p + len ≤ 4294967296
  unused : ∀ x, p ≤ x → x < p + len → (pageMap st.regs x).isLive = false
  live : ∀ x, p ≤ x → x < p + len → (pageMap st'.regs x).isLive = true
  pages : ∀ x, ¬ (p ≤ x ∧ x < p + len) → pageMap st'.regs x = pageMap st.regs x
  bytes : ∀ x, ¬ (p ≤ x ∧ x < p + len) → st'.mem x = st.mem x
  refs : ∀ f ∈ st.frefs, f ∈ st'.frefs
  zero : flags &&& MAP_ANON ≠ 0 → ∀ x, p ≤ x → x < p + len → st'.mem x = 0
  filled : flags &&& MAP_ANON = 0 → ∃ more data, st'.calls = st.calls ++ more ∧
    PreadTrace fd p len offset (more.filter HostCall.isPread) data ∧
    ∀ i, i < len → st'.mem (p + i) = data.getD i 0

/-! The pages -/

/-- What is left of a free region holds the rest of it. -/
theorem Front.imageAt_left {live r : Region} {left : List Region}
    (h : Front live.base live.len r left) (hr : r.Ok) (hlive : live.Ok) {x : Nat}
    (hx : ¬ Holds Region.base Region.limit live x) :
    imageAt Region.base Region.limit Region.page left x =
      if Holds Region.base Region.limit r x then some .free else none := by
  obtain ⟨htile, hleft⟩ := h.tiles hr hlive
  have hsame : imageAt Region.base Region.limit Region.page left x =
      imageAt Region.base Region.limit Region.page (live :: left) x := by
    rw [imageAt_cons, if_neg hx]
  obtain ⟨hbase, _, hrest⟩ := htile
  rw [hrest.imageAt_eq fun q hq _ => Region.page_of_free (hleft q hq).2.1 x]
  by_cases hrx : Holds Region.base Region.limit r x
  · rw [if_pos hrx, if_pos]
    unfold Holds at hx hrx
    omega
  · rw [if_neg hrx, if_neg]
    have hpos := hlive.base_lt_limit
    unfold Holds at hrx
    omega

theorem Acquired.pageMap_frame {st st' : State} {idx : Nat} {live : Region} {x : Nat}
    (h : Acquired st st' idx live) (hok : TableOk st.regs) (hlive : live.Ok)
    (hx : ¬ Holds Region.base Region.limit live x) :
    pageMap st'.regs x = pageMap st.regs x := by
  rcases h with h | h
  · obtain ⟨pre, r, left, post, hregs, hregs', _, hfront⟩ := h.table
    have hr := hok.regions r (by rw [hregs]; simp)
    simp only [pageMap, hregs, hregs', imageAt_append, imageAt_cons, if_neg hx,
      hfront.imageAt_left hr hlive hx, Region.page_of_free hfront.free]
    by_cases hrx : Holds Region.base Region.limit r x
    · simp only [if_pos hrx, Option.some_or]
    · simp only [if_neg hrx, Option.none_or]
  · obtain ⟨pre, post, hregs, hregs', _⟩ := h.table
    simp only [pageMap, hregs, hregs', imageAt_append, imageAt_cons, if_neg hx]

/-- The pages of a new region were free or uncovered. -/
theorem Acquired.unused {st st' : State} {idx : Nat} {live : Region} {x : Nat}
    (h : Acquired st st' idx live) (hok : TableOk st.regs) (hlive : live.Ok)
    (hfits : st'.grown = (live.base, live.len) :: st.grown →
      Fits live.base live.len st.regs)
    (hx : Holds Region.base Region.limit live x) : (pageMap st.regs x).isLive = false := by
  rcases h with h | h
  · obtain ⟨pre, r, left, post, hregs, _, _, hfront⟩ := h.table
    have hrmem : r ∈ st.regs := by rw [hregs]; simp
    obtain ⟨htile, _⟩ := hfront.tiles (hok.regions r hrmem) hlive
    have hrx : Holds Region.base Region.limit r x :=
      (htile.covers_iff x).mp ⟨live, List.mem_cons_self, hx⟩
    rw [pageMap, imageAt_of_holds hok.ordered hrmem hrx, Option.getD_some,
      Region.page_of_free hfront.free]
    rfl
  · have hfit := hfits h.grown_eq
    obtain ⟨pre, post, hregs, _, _, hidx⟩ := h.table
    obtain ⟨hpre, hpost⟩ := hfit.gap pre post hregs hidx
    have hnot : ¬ Covered st.regs x := by
      rintro ⟨q, hq, hlow, hhigh⟩
      obtain ⟨hxlow, hxhigh⟩ := hx
      rw [hregs] at hq
      rcases List.mem_append.mp hq with hq | hq
      · have hle := hpre q hq
        omega
      · have hle := hpost q hq
        unfold Region.limit at hxhigh
        omega
    rw [pageMap, imageAt_eq_none hnot]
    rfl

theorem Installed.holds_iff {st st' : State} {idx : Nat} {live live' : Region} {x : Nat}
    (h : Installed st st' idx live live') :
    Holds Region.base Region.limit live' x ↔ Holds Region.base Region.limit live x := by
  simp only [Holds, Region.limit, h.base_eq, h.len_eq]

theorem Installed.pageMap_frame {st st' : State} {idx : Nat} {live live' : Region}
    {x : Nat} (h : Installed st st' idx live live')
    (hx : ¬ Holds Region.base Region.limit live x) :
    pageMap st'.regs x = pageMap st.regs x := by
  have hx' := fun hheld => hx (h.holds_iff.mp hheld)
  obtain ⟨pre, rest, hregs, hregs', _⟩ := h.table
  simp only [pageMap, hregs, hregs', imageAt_append, imageAt_cons, if_neg hx, if_neg hx']

theorem Installed.pageMap_new {st st' : State} {idx : Nat} {live live' : Region}
    {x : Nat} (h : Installed st st' idx live live') (hok : TableOk st'.regs)
    (hx : Holds Region.base Region.limit live x) :
    pageMap st'.regs x = live'.page x := by
  have hmem : live' ∈ st'.regs := by
    obtain ⟨_, _, _, hregs', _⟩ := h.table
    rw [hregs']
    simp
  rw [pageMap, imageAt_of_holds hok.ordered hmem (h.holds_iff.mpr hx), Option.getD_some]

/-- How a new region changes the page map. -/
theorem NewRegion.pages {length prot flags : BitVec 32} {st st' : State} {p : Nat}
    (h : NewRegion length prot flags st st' p) (hok : TableOk st.regs)
    (hfits : st'.grown = (p, pageCeil length.toNat) :: st.grown →
      Fits p (pageCeil length.toNat) st.regs) :
    (∀ x, p ≤ x → x < p + pageCeil length.toNat →
      (pageMap st.regs x).isLive = false ∧ (pageMap st'.regs x).isLive = true) ∧
    ∀ x, ¬ (p ≤ x ∧ x < p + pageCeil length.toNat) →
      pageMap st'.regs x = pageMap st.regs x := by
  obtain ⟨hpos, st₁, idx, kind, live', hkind, hacq, hinstalled⟩ := h
  have hfits₁ := fun hg => hfits (hinstalled.grown_eq.trans hg)
  obtain ⟨hlive, hok₁⟩ := hacq.tableOk hok hkind (pageCeil_dvd _) hpos hfits₁
  have hok' := (hinstalled.tableOk hok₁ hkind).2.1
  constructor
  · intro x hlow hhigh
    refine ⟨hacq.unused hok hlive hfits₁ ⟨hlow, hhigh⟩, ?_⟩
    rw [hinstalled.pageMap_new hok' ⟨hlow, hhigh⟩]
    refine Region.page_isLive ?_ x
    rw [hinstalled.kind_eq]
    exact hkind
  · intro x hx
    rw [hinstalled.pageMap_frame hx, hacq.pageMap_frame hok hlive hx]

/-! The bytes -/

/-- Acquired pages read as zero. -/
theorem Acquired.zero {st st' : State} {idx : Nat} {live : Region}
    (h : Acquired st st' idx live) (hok : TableOk st.regs)
    (hfresh : st'.grown = (live.base, live.len) :: st.grown →
      ∀ x, live.base ≤ x → x < live.base + live.len → st.mem x = 0) {x : Nat}
    (hx : Holds Region.base Region.limit live x) : st'.mem x = 0 := by
  rcases h with h | h
  · exact h.zero (fun r hr => (hok.regions r hr).free_dirty) x hx
  · rw [h.mem_eq]
    exact hfresh h.grown_eq x hx.1 hx.2

/-- The loop leaves the delivered bytes, then zeros. -/
theorem Filled.bytes {fd : Int} {base len : Nat} {offset : Int} {data : List UInt8}
    {st st' : State} (h : Filled fd base len offset data st st')
    (hzero : ∀ x, base ≤ x → x < base + len → st.mem x = 0) :
    ∀ i, i < len → st'.mem (base + i) = data.getD i 0 := by
  intro i hi
  rw [h.mem_eq]
  simp only [storeBytes, Nat.le_add_right, ↓reduceIte, Nat.add_sub_cancel_left,
    hzero (base + i) (Nat.le_add_right _ _) (Nat.add_lt_add_left hi _)]
  rw [List.getD_eq_getElem?_getD]

theorem PreadTrace.filter_eq {fd : Int} {body remaining : Nat} {off : Int}
    {calls : List HostCall} {data : List UInt8}
    (h : PreadTrace fd body remaining off calls data) :
    calls.filter HostCall.isPread = calls := by
  induction h with
  | full => rfl
  | eof => rfl
  | again _ ih => rw [List.filter_cons_of_pos rfl, ih]
  | chunk _ _ _ ih => rw [List.filter_cons_of_pos rfl, ih]

/-- Acquiring pages reads no file. -/
theorem Acquired.no_pread {st st' : State} {idx : Nat} {live : Region}
    (h : Acquired st st' idx live) :
    ∃ more, st'.calls = st.calls ++ more ∧ more.filter HostCall.isPread = [] := by
  rcases h with h | h
  · exact ⟨[], by simp [h.calls_eq], rfl⟩
  · exact ⟨_, h.calls_eq, rfl⟩

theorem pageCeil_rounded {n : Nat} (h : n ≤ pageCeil n) (hlt : n < 4294967296) :
    n ≤ pageCeil n ∧ pageCeil n < n + PAGE ∧ PAGE ∣ pageCeil n := by
  refine ⟨h, ?_, pageCeil_dvd n⟩
  simp only [pageCeil, wrap, PAGE] at *
  omega

/-- The preads of a call that acquired pages and filled them. -/
theorem Filled.preads {fd : Int} {base len idx : Nat} {offset : Int} {data : List UInt8}
    {live : Region} {st st₁ st₂ : State} (hacq : Acquired st st₁ idx live)
    (h : Filled fd base len offset data st₁ st₂) :
    ∃ more, st₂.calls = st.calls ++ more ∧
      PreadTrace fd base len offset (more.filter HostCall.isPread) data := by
  obtain ⟨before, hbefore, hnone⟩ := hacq.no_pread
  obtain ⟨calls, hcalls, htrace, _⟩ := h.trace
  refine ⟨before ++ calls, by rw [hcalls, hbefore, List.append_assoc], ?_⟩
  rw [List.filter_append, hnone, List.nil_append, htrace.filter_eq]
  exact htrace

/-- The bytes of acquired pages once the file is read into them. -/
theorem Filled.contents {fd : Int} {base len idx : Nat} {offset : Int}
    {data : List UInt8} {prot flags : BitVec 32} {st st₁ st₂ : State}
    (hacq : Acquired st st₁ idx (liveRegion base len .rFile prot flags))
    (hok : TableOk st.regs) (h : Filled fd base len offset data st₁ st₂)
    (hfresh : st₂.grown = (base, len) :: st.grown →
      ∀ x, base ≤ x → x < base + len → st.mem x = 0) :
    (∀ i, i < len → st₂.mem (base + i) = data.getD i 0) ∧
      ∀ x, ¬ (base ≤ x ∧ x < base + len) → st₂.mem x = st.mem x := by
  constructor
  · refine h.bytes fun x hlow hhigh => ?_
    exact hacq.zero hok (fun hg => hfresh (h.table.grown_eq.trans hg)) ⟨hlow, hhigh⟩
  · intro x hx
    exact (h.mem_frame hx).trans (hacq.placed.mem_frame x hx)

/-- Every outcome with an address fulfils the contract. -/
theorem MmapOutcome.allocation {length prot flags : BitVec 32} {fd offset : Int}
    {st st' : State} {p : Nat}
    (h : MmapOutcome length prot flags fd offset st (some p) st') (hinv : PoolInv st)
    (hhost : ∀ base len, st'.grown = (base, len) :: st.grown → FreshPages st base len) :
    Allocation length prot flags fd offset p (pageCeil length.toNat) st st' := by
  have hnew : NewRegion length prot flags st st' p := by
    rcases h.table_cases with ⟨hnone, _⟩ | ⟨base, hsome, hnew⟩ | ⟨_, _, _, _, _, hnone, _⟩
    · cases hnone
    · cases hsome
      exact hnew
    · cases hnone
  have hfits : st'.grown = (p, pageCeil length.toNat) :: st.grown →
      Fits p (pageCeil length.toNat) st.regs :=
    fun hg => (hhost p _ hg).1.fits_table hinv hnew.1
  have hentered := hnew.entered hinv.tableOk hfits
  obtain ⟨hpages, hframe⟩ := hnew.pages hinv.tableOk hfits
  have hrounded : length.toNat ≤ pageCeil length.toNat →
      length.toNat ≤ pageCeil length.toNat ∧
        pageCeil length.toNat < length.toNat + PAGE ∧ PAGE ∣ pageCeil length.toNat :=
    fun hle => pageCeil_rounded hle length.isLt
  have hunused := fun x hlow hhigh => (hpages x hlow hhigh).1
  have hlive := fun x hlow hhigh => (hpages x hlow hhigh).2
  cases h with
  | anonymous hcheck hanon hacq =>
      refine ⟨hrounded (mmapCheck_none hcheck).2.1, hentered.base_dvd, hentered.limit_le,
        hunused, hlive, hframe, fun x hx => hacq.placed.mem_frame x hx, ?_, ?_, ?_⟩
      · intro f hf
        rw [hacq.placed.frefs_eq]
        exact hf
      · intro _ x hlow hhigh
        exact hacq.zero hinv.tableOk (fun hg => (hhost _ _ hg).2) ⟨hlow, hhigh⟩
      · exact fun hfile => absurd hfile hanon
  | file hcheck hanon hacq hfill hkeeps =>
      refine ⟨hrounded (mmapCheck_none hcheck).2.1, hentered.base_dvd, hentered.limit_le,
        hunused, hlive, hframe, ?_, ?_, fun hnot => absurd hanon hnot, fun _ => ?_⟩
      · exact (hfill.contents hacq hinv.tableOk fun hg => (hhost _ _ hg).2).2
      · intro f hf
        have hsame := hfill.table.frefs_eq.trans hacq.placed.frefs_eq
        exact hsame.symm ▸ hf
      · have hbytes := (hfill.contents hacq hinv.tableOk fun hg => (hhost _ _ hg).2).1
        obtain ⟨more, hmore, htrace⟩ := hfill.preads hacq
        exact ⟨more, _, hmore, htrace, hbytes⟩
  | @shared _ _ _ _ newfd data hcheck hanon hacq hfill hkeeps =>
      refine ⟨hrounded (mmapCheck_none hcheck).2.1, hentered.base_dvd, hentered.limit_le,
        hunused, hlive, hframe, ?_, ?_, fun hnot => absurd hanon hnot, fun _ => ?_⟩
      · exact (hfill.contents hacq hinv.tableOk fun hg => (hhost _ _ hg).2).2
      · intro f hf
        have hsame := hfill.table.frefs_eq.trans hacq.placed.frefs_eq
        exact List.mem_cons_of_mem _ (hsame.symm ▸ hf)
      · have hbytes := (hfill.contents hacq hinv.tableOk fun hg => (hhost _ _ hg).2).1
        obtain ⟨more, hmore, htrace⟩ := hfill.preads hacq
        refine ⟨more ++ [.dup fd (.ok newfd)], data, ?_, ?_, hbytes⟩
        · rw [← List.append_assoc, ← hmore]
          rfl
        · rw [List.filter_append]
          simpa [HostCall.isPread] using htrace

/-- In every reachable state a successful `mmap` fulfils its contract. -/
theorem mmap_allocates {labels : List Label} {length prot flags : BitVec 32}
    {fd offset : Int} {p : Nat} {st st' : State}
    (hrun : Run (Step FreshPages) State.init labels st)
    (hstep : Step FreshPages st (.call (.mmap length prot flags fd offset) (.addr (some p)))
      st') :
    Allocation length prot flags fd offset p (pageCeil length.toNat) st st' := by
  have hrun' : Run (Step SbrkOk) State.init labels st :=
    hrun.mono fun h => h.mono fun _ _ _ hfresh => hfresh.1
  have hinv := run_poolInv hrun'
  cases hstep with
  | call hexec hhost =>
      rcases Call.exec_cases hexec with
        ⟨_, _, _, _, _, _, hcall, hret, houtcome⟩ | ⟨_, _, _, hcall, _⟩ |
        ⟨_, _, _, _, hcall, _⟩
      · cases hcall
        cases hret
        exact houtcome.allocation hinv hhost
      · cases hcall
      · cases hcall

namespace AllocationWitness

open RunWitness

/-- The mapped pages filled with old data, and the middle one unmapped. -/
def recycled : State :=
  (Call.munmap 0x30000 0x10000).after {} { mapped with mem := fun _ => 7 }

/-- An interrupted read and a short one before the end of the file. -/
def fileAnswers : Answers := { preads := [.err .eintr, .ok [1, 2, 3], .ok []] }

def remapped : State := (Call.mmap 100 1 2 5 0).after fileAnswers recycled

theorem remapped_allocation : Allocation 100 1 2 5 0 0x30000 0x10000 recycled remapped := by
  have hmap : Step FreshPages State.init
      (.call (.mmap 0x30000 3 0x22 (-1) 0) (.addr (some 0x20000))) mapped :=
    Call.step_of_grown_cons (by decide +kernel)
      (show mapped.grown = (0x20000, 0x30000) :: State.init.grown by decide +kernel)
      ⟨⟨by decide, by simp [State.init], by simp [State.init], Or.inl (by simp [State.init])⟩,
        fun _ _ _ => rfl⟩
  have hunmap : Step FreshPages { mapped with mem := fun _ => 7 }
      (.call (.munmap 0x30000 0x10000) (.code 0)) recycled :=
    Call.step_of_grown_eq (by decide +kernel) (by decide +kernel)
  have hremap : Step FreshPages recycled
      (.call (.mmap 100 1 2 5 0) (.addr (some 0x30000))) remapped :=
    Call.step_of_grown_eq (by decide +kernel) (by decide +kernel)
  exact mmap_allocates (((Run.single hmap).snoc (.store _)).snoc hunmap) hremap

end AllocationWitness

end Mman

end WasixLibc
