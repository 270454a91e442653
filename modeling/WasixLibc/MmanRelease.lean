/-
Releasing a mapping.

A live region is what is left of a mapping.  `munmap` and `msync` over exactly
its pages find it by `first_overlap`, which compares ends that are reduced to
32 bits, and they refuse a range whose end is reduced to zero.
-/
import WasixLibc.MmanFailure
import WasixLibc.MmanPageMap
import WasixLibc.MmanReturns

namespace WasixLibc

namespace Mman

open SpanList ListZipper

/-! The pass over one region -/

theorem carveAll_of_beyond {start stop : Nat} {post : List Region}
    (hbeyond : ∀ q ∈ post, stop ≤ q.base) : carveAll start stop post = post := by
  cases post with
  | nil => rfl
  | cons r rest => exact if_neg (Nat.not_lt.mpr (hbeyond r List.mem_cons_self))

theorem owed_of_beyond {start stop : Nat} {post : List Region}
    (hbeyond : ∀ q ∈ post, stop ≤ q.base) : owed start stop post = 0 := by
  cases post with
  | nil => rfl
  | cons r rest => exact if_neg (Nat.not_lt.mpr (hbeyond r List.mem_cons_self))

/-- A range of exactly the pages of a live region frees it as a whole. -/
theorem carveAll_region {r : Region} {rest : List Region} (htop : r.limit < 4294967296)
    (hlive : r.kind ≠ .rFree) (hpos : r.base < r.limit)
    (hrest : ∀ q ∈ rest, r.limit ≤ q.base) :
    carveAll r.base r.limit (r :: rest) = r.toFree r.len :: rest := by
  have hstart : r.ostart r.base = r.base := by rw [Region.ostart_eq_max, Nat.max_self]
  have hstop : r.oend r.limit = r.endAddr := by
    rw [Region.oend_eq_min htop, Nat.min_self, Region.endAddr_eq_limit htop]
  unfold carveAll
  rw [if_pos hpos, carveAll_of_beyond hrest]
  unfold carve
  simp only [hlive, hstart, hstop, and_self, ↓reduceIte, List.singleton_append]

/-- Freeing a whole region, seen page by page. -/
theorem pageMap_toFree {pre rest : List Region} {r : Region}
    (hok : TableOk (pre ++ r :: rest)) (x : Nat) :
    pageMap (pre ++ r.toFree r.len :: rest) x =
      (pageMap (pre ++ r :: rest)).munmap r.base r.limit x := by
  obtain ⟨hpre, hrest⟩ := hok.around
  simp only [pageMap, PageMap.munmap, imageAt_append, imageAt_cons]
  by_cases hx : r.base ≤ x ∧ x < r.limit
  · have hfront : ¬ Covered pre x := by
      rintro ⟨q, hq, hqx⟩
      have hend := hpre q hq
      have hhigh := hqx.2
      omega
    have hold : Holds Region.base Region.limit r x := hx
    have hnew : Holds Region.base Region.limit (r.toFree r.len) x := hx
    rw [imageAt_eq_none hfront, if_pos hx, if_pos hold, if_pos hnew]
    exact (Region.page_freed r x).symm
  · have hold : ¬ Holds Region.base Region.limit r x := hx
    have hnew : ¬ Holds Region.base Region.limit (r.toFree r.len) x := hx
    rw [if_neg hx, if_neg hold, if_neg hnew]

theorem Region.Ok.pageRange {r : Region} (h : r.Ok) (htop : r.limit < 4294967296) :
    PageRange r.base r.limit :=
  ⟨h.base_dvd, h.limit_dvd, htop, h.base_lt_limit⟩

/-- Unmapping a region the search finds frees its pages and no others. -/
theorem unmapRange_region {pre rest : List Region} {r : Region} {ans : PwriteAnswers}
    {st st' : State} (hok : TableOk st.regs) (hproper : Proper st.regs)
    (hregs : st.regs = pre ++ r :: rest) (hidx : firstOverlap r.base st.regs = pre.length)
    (hlive : r.kind ≠ .rFree) (htop : r.limit < 4294967296)
    (h : unmapRange r.base r.limit ans st = .ok st') :
    ∀ x, pageMap st'.regs x = (pageMap st.regs).munmap r.base r.limit x := by
  obtain ⟨front, behind, st₁, hsplit, hidx', hturns, rfl⟩ := unmapRange_spec h
  obtain ⟨rfl, rfl⟩ : front = pre ∧ behind = r :: rest :=
    List.append_inj (hsplit.symm.trans hregs) (hidx'.symm.trans hidx)
  have hcarved := hturns.regs hsplit
  rw [hregs] at hok hproper hidx
  have hr := hok.regions r (by simp)
  obtain ⟨hfine, hok₁⟩ := carved_ok hok (Or.inl (hr.pageRange htop)) hidx
  rw [← hcarved] at hfine hok₁
  intro x
  rw [coalesceAround_pageMap hok₁ (hfine.proper.mpr hproper), hcarved, hregs,
    carveAll_region htop hlive hr.base_lt_limit hok.around.2]
  exact pageMap_toFree hok x

/-! `munmap` of a region -/

/-- With the answers it needs, `munmap` returns 0 and frees the live pages of
the range and no others. -/
def Munmaps (st : State) (addr length : BitVec 32) : Prop :=
  ∃ n, ∀ ans : Answers, (reserve 2 ans.realloc st).1 = true → n ≤ wrotes ans.pwrites →
    ∃ st', munmap addr length ans st = .ok (0, st') ∧ ∀ x, PAGE ∣ x →
      pageMap st'.regs x = (pageMap st.regs).munmap addr.toNat
        (addr.toNat + pageCeil length.toNat) x

/-- With the answers it needs, `msync` returns, and it fails only with the
error of a `pwrite`. -/
def Msyncs (st : State) (addr length : BitVec 32) : Prop :=
  ∃ n, ∀ ans : Answers, n ≤ wrotes ans.pwrites →
    ∃ ret st', msync addr length MS_SYNC ans st = .ok (ret, st') ∧
      (ret = 0 ∨ ret = -1 ∧ .err st'.errno ∈ ans.pwrites)

theorem reserve_realloc (extra : Nat) (st : State) : (reserve extra true st).1 = true := by
  unfold reserve
  split <;> rfl

/-- A host that writes one byte at a time. -/
theorem le_wrotes_replicate (n : Nat) : n ≤ wrotes (List.replicate n (.ok 1)) := by
  unfold wrotes
  rw [List.countP_replicate]
  exact Nat.le_refl n

section

variable {addr length : BitVec 32} {st : State} {pre rest : List Region} {r : Region}

/-- Neither of the range checks refuses the pages of a region below the top. -/
theorem Region.Ok.range_checks (hr : r.Ok) (haddr : addr.toNat = r.base)
    (hlength : pageCeil length.toNat = r.len) (htop : r.limit < 4294967296) :
    addr.toNat % PAGE = 0 ∧ length ≠ 0 ∧ ¬ (pageCeil length.toNat < length.toNat ∨
      wrap (addr.toNat + pageCeil length.toNat) < addr.toNat) ∧
      wrap (addr.toNat + pageCeil length.toNat) = r.limit := by
  have hend : wrap (addr.toNat + pageCeil length.toNat) = r.limit := by
    rw [haddr, hlength]
    exact wrap_of_lt htop
  have hpos := hr.len_pos
  have hceil : length.toNat ≤ pageCeil length.toNat := by
    have hlt := length.isLt
    rw [← hlength] at hpos
    unfold pageCeil wrap PAGE at *
    omega
  refine ⟨?_, ?_, ?_, hend⟩
  · rw [haddr]
    exact Nat.mod_eq_zero_of_dvd hr.base_dvd
  · rintro rfl
    rw [← hlength] at hpos
    exact absurd hpos (by decide)
  · rw [hend, haddr]
    have hlimit := hr.base_lt_limit
    omega

theorem munmaps_region (hok : TableOk st.regs) (hproper : Proper st.regs)
    (hregs : st.regs = pre ++ r :: rest) (hidx : firstOverlap r.base st.regs = pre.length)
    (hlive : r.kind ≠ .rFree) (htop : r.limit < 4294967296) (haddr : addr.toNat = r.base)
    (hlength : pageCeil length.toNat = r.len) : Munmaps st addr length := by
  have hr := hok.regions r (by rw [hregs]; simp)
  obtain ⟨halign, hne, hrange, hend⟩ := hr.range_checks haddr hlength htop
  refine ⟨r.owed r.base r.limit, fun ans hreserved hans => ?_⟩
  unfold munmap
  dsimp only
  rw [if_neg (not_or.mpr ⟨not_not.mpr halign, hne⟩), if_neg hrange]
  split
  · rename_i hreserve
    rw [hreserve] at hreserved
    cases hreserved
  · rename_i st₁ hreserve
    obtain ⟨cap, rfl⟩ := reserve_spec hreserve
    rw [hend, haddr]
    obtain ⟨st', hrun⟩ := @unmapRange_returns r.base r.limit ans.pwrites
      { st with capregs := cap } fun front behind hsplit hidx' => by
        obtain ⟨rfl, rfl⟩ : front = pre ∧ behind = r :: rest :=
          List.append_inj (hsplit.symm.trans hregs) (hidx'.symm.trans hidx)
        rw [hregs] at hok
        rw [owed, if_pos hr.base_lt_limit, owed_of_beyond hok.around.2]
        exact hans
    rw [hrun]
    refine ⟨st', rfl, fun x _ => ?_⟩
    have hpages := @unmapRange_region _ _ _ _ { st with capregs := cap } _ hok hproper hregs hidx
      hlive htop hrun x
    rw [hlength]
    exact hpages

/-- A failed writeback leaves the error of its last answer in `errno`. -/
theorem writebackLoop_errno {ptr fd : Nat} {ans ans' : PwriteAnswers} {body remaining : Nat}
    {off : Int} {st' : State}
    (h : writebackLoop ptr fd ans body remaining off st = .ok (false, ans', st')) :
    .err st'.errno ∈ ans := by
  fun_induction writebackLoop ptr fd ans body remaining off st with
  | case1 => cases h
  | case2 => cases h
  | case3 ans body remaining off st st₁ ih => exact List.mem_cons_of_mem _ (ih h)
  | case4 =>
      simp only [Except.ok.injEq, Prod.mk.injEq] at h
      rw [← h.2.2]
      exact List.mem_cons_self
  | case5 count ans body remaining off st n st₁ ih => exact List.mem_cons_of_mem _ (ih h)

theorem writeback_errno {start stop : Nat} {ans ans' : PwriteAnswers} {st' : State}
    (h : writeback r start stop ans st = .ok (false, ans', st')) : .err st'.errno ∈ ans := by
  unfold writeback at h
  split at h
  · cases h
  · split at h
    · cases h
    · exact writebackLoop_errno h

theorem msyncLoop_of_beyond {start stop : Nat} {post : List Region} {result : Int}
    {ans : PwriteAnswers} (hbeyond : ∀ q ∈ post, stop ≤ q.base) :
    msyncLoop start stop post result ans st = .ok (result, st) := by
  cases post with
  | nil => rfl
  | cons q post => exact if_neg (Nat.not_lt.mpr (hbeyond q List.mem_cons_self))

theorem msyncs_region (hok : TableOk st.regs) (hregs : st.regs = pre ++ r :: rest)
    (hidx : firstOverlap r.base st.regs = pre.length) (hlive : r.kind ≠ .rFree)
    (htop : r.limit < 4294967296) (haddr : addr.toNat = r.base)
    (hlength : pageCeil length.toNat = r.len) : Msyncs st addr length := by
  have hr := hok.regions r (by rw [hregs]; simp)
  obtain ⟨halign, hne, hrange, hend⟩ := hr.range_checks haddr hlength htop
  have hpos := hr.base_lt_limit
  have hget : st.regs[pre.length]? = some r := by rw [hregs, getElem?_boundary]
  -- the first pass ends behind the region
  have hcover : coverLoop st.regs r.limit (st.regs.length + 1) pre.length r.base = true := by
    obtain ⟨n, hn⟩ : ∃ n, st.regs.length = n + 1 := by
      rw [hregs]
      exact ⟨pre.length + rest.length, by simp [Nat.add_assoc]⟩
    rw [hn]
    unfold coverLoop
    rw [if_pos hpos, hget]
    dsimp only
    rw [if_neg (not_or.mpr ⟨hlive, Nat.lt_irrefl _⟩)]
    unfold coverLoop
    rw [Region.endAddr_eq_limit htop, if_neg (Nat.lt_irrefl _)]
  have hdrop : st.regs.drop pre.length = r :: rest := by rw [hregs, List.drop_left]
  rw [hregs] at hok
  refine ⟨r.owed r.base r.limit, fun ans hans => ?_⟩
  unfold msync
  dsimp only
  rw [if_neg (not_or.mpr ⟨not_not.mpr halign, by decide⟩), if_neg hne, if_neg hrange, hend, haddr,
    hidx, if_pos hcover, hdrop]
  unfold msyncLoop
  rw [if_pos hpos]
  unfold Region.owed at hans
  split
  · rename_i hshared
    rw [if_pos hshared] at hans
    obtain ⟨done, ans', st', hrun, _⟩ := writeback_returns st hans
    rw [hrun]
    show ∃ ret st'', msyncLoop _ _ rest (if done then 0 else -1) ans' st' = .ok (ret, st'') ∧ _
    rw [msyncLoop_of_beyond hok.around.2]
    cases done with
    | true => exact ⟨0, st', rfl, Or.inl rfl⟩
    | false => exact ⟨-1, st', rfl, Or.inr ⟨rfl, writeback_errno hrun⟩⟩
  · rw [msyncLoop_of_beyond hok.around.2]
    exact ⟨0, st, rfl, Or.inl rfl⟩

/-! Finding the region -/

/-- `first_overlap` finds the region. -/
def Found (r : Region) (regs : List Region) : Prop := regs[firstOverlap r.base regs]? = some r

theorem found_of_belowTop (hok : TableOk (pre ++ r :: rest)) (htop : BelowTop (pre ++ r :: rest)) :
    Found r (pre ++ r :: rest) := by
  obtain ⟨hpre, hrest⟩ := hok.around
  have hpos := (hok.regions r (by simp)).base_lt_limit
  have hidx : firstOverlap r.base (pre ++ r :: rest) = pre.length := by
    apply firstOverlap_eq_length htop hpre
    intro q hq
    rcases List.mem_cons.mp hq with rfl | hq
    · exact hpos
    · have hgap := hrest q hq
      have hqpos := (hok.regions q (by simp [hq])).base_lt_limit
      omega
  unfold Found
  rw [hidx, getElem?_boundary]

/-- A search that does not find a live region goes past it. -/
theorem mem_front_of_not_found {front behind : List Region} (hok : TableOk (front ++ behind))
    (hidx : firstOverlap r.base (front ++ behind) = front.length)
    (hr : r ∈ front ++ behind) (hnot : ¬ Found r (front ++ behind)) : r ∈ front := by
  rcases List.mem_append.mp hr with hfront | hbehind
  · exact hfront
  · cases behind with
    | nil => cases hbehind
    | cons q behind =>
        have hbeyond := (firstOverlap_beyond hok hidx q List.mem_cons_self).lt_limit
          (hok.regions q (by simp))
        rcases List.mem_cons.mp hbehind with rfl | hbehind
        · exact absurd (by rw [Found, hidx, getElem?_boundary]) hnot
        · have hgap := hok.around.2 r hbehind
          omega

/-- A region that `munmap` releases is found. -/
theorem found_of_munmaps (hinv : PoolInv st) (hr : r ∈ st.regs) (hlive : r.kind ≠ .rFree)
    (haddr : addr.toNat = r.base) (hlength : pageCeil length.toNat = r.len)
    (hmunmaps : Munmaps st addr length) : r.limit < 4294967296 ∧ Found r st.regs := by
  have hok := hinv.tableOk
  have hrok := hok.regions r hr
  obtain ⟨n, hmunmap⟩ := hmunmaps
  obtain ⟨st', hrun, hpages⟩ :=
    hmunmap { pwrites := List.replicate n (.ok 1) } (reserve_realloc 2 st)
      (le_wrotes_replicate n)
  have houtcome := munmap_outcome hrun
  generalize hret : (0 : Int) = ret at houtcome
  cases houtcome with
  | refused _ _ _ => cases hret
  | @unmapped _ cap _ hrange _ hunmap =>
      have hstop := hrange.stop_lt
      rw [haddr, hlength] at hstop
      refine ⟨hstop, ?_⟩
      by_contra hnot
      have hkept : pageMap st'.regs r.base = r.page r.base := by
        have hok' : TableOk { st with capregs := cap }.regs := hok
        refine unmapRange_keeps_front hok' hinv.proper (Or.inl hrange)
          (fun front behind hsplit hidx => ?_) ⟨Nat.le_refl _, hrok.base_lt_limit⟩ hunmap
        have hsplit' : st.regs = front ++ behind := hsplit
        rw [haddr] at hidx
        rw [hsplit'] at hok hr hnot
        exact mem_front_of_not_found hok (hsplit ▸ hidx) hr hnot
      have hfreed := hpages r.base hrok.base_dvd
      have hpos := hrok.base_lt_limit
      have hold : pageMap st.regs r.base = r.page r.base := by
        rw [pageMap, imageAt_of_holds hok.ordered hr ⟨Nat.le_refl _, hpos⟩]
        rfl
      have hinside : r.base ≤ r.base ∧ r.base < r.base + r.len := ⟨Nat.le_refl _, hpos⟩
      rw [hkept, PageMap.munmap, haddr, hlength, if_pos hinside, hold, Region.page_freed]
        at hfreed
      have hislive := Region.page_isLive hlive r.base
      rw [hfreed] at hislive
      cases hislive

/-- A live region can be released exactly if it does not end at the top of the
address space and the search finds it, as it does while no region ends there. -/
theorem releasable_iff (hinv : PoolInv st) (hr : r ∈ st.regs) (hlive : r.kind ≠ .rFree)
    (haddr : addr.toNat = r.base) (hlength : pageCeil length.toNat = r.len) :
    Munmaps st addr length ∧ Msyncs st addr length ↔
      r.limit < 4294967296 ∧ (BelowTop st.regs ∨ Found r st.regs) := by
  have hok := hinv.tableOk
  constructor
  · rintro ⟨hmunmaps, _⟩
    obtain ⟨htop, hfound⟩ := found_of_munmaps hinv hr hlive haddr hlength hmunmaps
    exact ⟨htop, Or.inr hfound⟩
  · rintro ⟨htop, hfinds⟩
    have hfound : Found r st.regs := by
      rcases hfinds with hbelow | hfound
      · obtain ⟨pre, rest, hregs⟩ := List.append_of_mem hr
        rw [hregs] at hok hbelow ⊢
        exact found_of_belowTop hok hbelow
      · exact hfound
    obtain ⟨hlt, hget⟩ := List.getElem?_eq_some_iff.mp hfound
    obtain ⟨pre, q, rest, hregs, hidx⟩ := exists_boundary hlt
    obtain rfl : q = r := by
      have hq : st.regs[firstOverlap r.base st.regs]? = some q := by
        rw [← hidx, hregs, getElem?_boundary]
      exact Option.some.inj (hq.symm.trans hfound)
    exact ⟨munmaps_region hok hinv.proper hregs hidx.symm hlive htop haddr hlength,
      msyncs_region hok hregs hidx.symm hlive htop haddr hlength⟩

end

/-! Mappings that no `munmap` has met -/

theorem mem_carveAll_of_beyond {start stop : Nat} {post : List Region} {r : Region}
    (hr : r ∈ post) (hbeyond : stop ≤ r.base) : r ∈ carveAll start stop post := by
  induction post with
  | nil => cases hr
  | cons q post ih =>
      unfold carveAll
      split
      · rename_i hlt
        rcases List.mem_cons.mp hr with rfl | hr
        · exact absurd hlt (Nat.not_lt.mpr hbeyond)
        · exact List.mem_append_right _ (ih hr)
      · exact hr

/-- Unmapping keeps the live regions that it stops in front of. -/
theorem unmapRange_keeps {start stop : Nat} {ans : PwriteAnswers} {st st' : State} {r : Region}
    (h : unmapRange start stop ans st = .ok st') (hr : r ∈ st.regs) (hlive : r.kind ≠ .rFree)
    (hmiss : ∀ front behind, st.regs = front ++ behind →
      firstOverlap start st.regs = front.length → r ∈ behind → stop ≤ r.base) :
    r ∈ st'.regs := by
  obtain ⟨front, behind, st₁, hsplit, hidx, hturns, rfl⟩ := unmapRange_spec h
  have hmem : r ∈ st₁.regs := by
    rw [hturns.regs hsplit]
    rw [hsplit] at hr
    rcases List.mem_append.mp hr with hfront | hbehind
    · exact List.mem_append_left _ hfront
    · exact List.mem_append_right _
        (mem_carveAll_of_beyond hbehind (hmiss front behind hsplit hidx hbehind))
  have hsame := coalesceAround_live start stop st₁
  have hkept : r ∈ liveRegions (coalesceAround start stop st₁).regs := by
    rw [hsame]
    exact mem_liveRegions.mpr ⟨hmem, hlive⟩
  exact (mem_liveRegions.mp hkept).1

/-- A new region goes between the live ones. -/
theorem NewRegion.live_around {length prot flags : BitVec 32} {st st' : State} {base : Nat}
    (h : NewRegion length prot flags st st' base) :
    ∃ front live behind, st'.regs = front ++ live :: behind ∧ live.kind ≠ .rFree ∧
      live.base = base ∧ live.len = pageCeil length.toNat ∧
      liveRegions st.regs = liveRegions (front ++ behind) := by
  obtain ⟨_, st₁, idx, kind, live', hkind, hacq, hinstalled⟩ := h
  obtain ⟨pre, rest, hregs, hidx, hsame⟩ := hacq.live_around
  obtain ⟨front, behind, hregs', hregs₂, hidx'⟩ := hinstalled.table
  have hlen : front.length = pre.length := hidx'.symm.trans hidx
  obtain ⟨rfl, hrest⟩ := List.append_inj (hregs'.symm.trans hregs) hlen
  obtain rfl : behind = rest := (List.cons.inj hrest).2
  refine ⟨front, live', behind, hregs₂, ?_, hinstalled.base_eq, hinstalled.len_eq, hsame⟩
  rw [hinstalled.kind_eq]
  exact hkind

theorem mem_around_of_live {regs front behind : List Region} {r : Region}
    (hsame : liveRegions regs = liveRegions (front ++ behind)) (hr : r ∈ regs)
    (hlive : r.kind ≠ .rFree) : r ∈ front ++ behind := by
  have hmem : r ∈ liveRegions regs := mem_liveRegions.mpr ⟨hr, hlive⟩
  rw [hsame] at hmem
  exact (mem_liveRegions.mp hmem).1

theorem MmapOutcome.keeps {length prot flags : BitVec 32} {fd offset : Int} {st st' : State}
    {ret : Option Nat} (h : MmapOutcome length prot flags fd offset st ret st')
    (hinv : PoolInv st)
    (hhost : ∀ base len, st'.grown = (base, len) :: st.grown → SbrkOk st base len)
    {r : Region} (hr : r ∈ st.regs) (hlive : r.kind ≠ .rFree) : r ∈ st'.regs := by
  have hmiddle : ∀ {front behind : List Region} (live : Region), r ∈ front ++ behind →
      r ∈ front ++ live :: behind := by
    intro front behind live hmem
    simp only [List.mem_append, List.mem_cons] at hmem ⊢
    exact hmem.imp_right Or.inr
  rcases h.table_cases with ⟨_, hsame⟩ | ⟨base, _, hnew⟩ |
    ⟨base, st₂, ans, st₃, e, _, hnew, hrun, rfl⟩
  · exact hsame.regs_eq ▸ hr
  · obtain ⟨front, live, behind, hregs, _, _, _, hsame⟩ := hnew.live_around
    rw [hregs]
    exact hmiddle live (mem_around_of_live hsame hr hlive)
  · obtain ⟨front, live, behind, hregs, _, hbase, hlen, hsame⟩ := hnew.live_around
    obtain ⟨_, hinv₂, _⟩ := hnew.unmapped hinv hrun fun hg => hhost _ _ hg
    have hmem := mem_around_of_live hsame hr hlive
    have hok := hinv₂.tableOk
    have hr₂ : r ∈ st₂.regs := hregs ▸ hmiddle live hmem
    show r ∈ st₃.regs
    refine unmapRange_keeps hrun hr₂ hlive fun pre post hsplit hidx hpost => ?_
    have haround := hok
    rw [hregs] at haround
    rw [hsplit] at hok hidx hregs
    rw [← hbase] at hidx
    have hrest : live.limit ≤ r.base := by
      rcases firstOverlap_reached hok hidx hregs r hpost with rfl | hle
      · -- `r` is not the new region
        have hpos := (haround.regions r (by simp)).base_lt_limit
        rcases List.mem_append.mp hmem with hfront | hbehind
        · have hgap := haround.around.1 r hfront
          omega
        · exact haround.around.2 r hbehind
      · exact hle
    have hwrap : wrap (base + pageCeil length.toNat) ≤ live.limit := by
      rw [Region.limit, hbase, hlen]
      exact Nat.mod_le _ _
    exact Nat.le_trans hwrap hrest

/-- A successful `munmap` over a range that meets `[p, p + len)`. -/
def Label.Meets (p len : Nat) : Label → Prop
  | .call (.munmap addr length) (.code 0) =>
      addr.toNat < p + len ∧ p < addr.toNat + pageCeil length.toNat
  | _ => False

theorem Step.keeps {st st' : State} {l : Label} (h : Step SbrkOk st l st') (hinv : PoolInv st)
    {r : Region} (hr : r ∈ st.regs) (hlive : r.kind ≠ .rFree)
    (hmiss : ¬ l.Meets r.base r.len) : r ∈ st'.regs := by
  cases h with
  | call hexec hhost =>
      rcases Call.exec_cases hexec with ⟨_, _, _, _, _, _, _, _, houtcome⟩ |
        ⟨addr, length, n, rfl, rfl, houtcome⟩ | ⟨_, _, _, _, _, _, hrun⟩
      · exact houtcome.keeps hinv hhost hr hlive
      · cases houtcome with
        | refused hsame _ _ => exact hsame.regs_eq ▸ hr
        | @unmapped _ cap _ _ _ hunmap =>
            refine unmapRange_keeps hunmap hr hlive fun front behind hsplit hidx hbehind => ?_
            have hsplit' : st.regs = front ++ behind := hsplit
            have hok := hinv.tableOk
            rw [hsplit'] at hok
            have hlimit := (firstOverlap_beyond hok (hsplit' ▸ hidx) r hbehind).lt_limit
              (hok.regions r (List.mem_append_right _ hbehind))
            have hapart : ¬ (addr.toNat < r.base + r.len ∧
                r.base < addr.toNat + pageCeil length.toNat) := hmiss
            unfold Region.limit at hlimit
            omega
      · exact (msync_onlyLogs hrun).regs_eq ▸ hr
  | store mem => exact hr

/-- `mmap` returned `[p, p + len)`, and no later `munmap` met it. -/
def Mapping (labels : List Label) (p len : Nat) : Prop :=
  ∃ before length prot flags fd offset later,
    labels = before ++ .call (.mmap length prot flags fd offset) (.addr (some p)) :: later ∧
      pageCeil length.toNat = len ∧ ∀ l ∈ later, ¬ l.Meets p len

/-- Such a mapping is a live region. -/
theorem Mapping.region {labels : List Label} {st : State} {p len : Nat}
    (h : Mapping labels p len) (hrun : Run (Step SbrkOk) State.init labels st) :
    ∃ r ∈ liveRegions st.regs, r.base = p ∧ r.len = len := by
  obtain ⟨before, length, prot, flags, fd, offset, later, rfl, rfl, hlater⟩ := h
  obtain ⟨st₀, st₁, hbefore, hmap, hrest⟩ := hrun.split_cons
  have hinv₀ := run_poolInv hbefore
  obtain ⟨houtcome, _⟩ := hmap.mmap_outcome
  obtain ⟨r, hr, hlive, hbase, hlen⟩ : ∃ r ∈ st₁.regs, r.kind ≠ .rFree ∧ r.base = p ∧
      r.len = pageCeil length.toNat := by
    rcases houtcome.table_cases with ⟨hnone, _⟩ | ⟨base, hsome, hnew⟩ |
      ⟨_, _, _, _, _, hnone, _⟩
    · cases hnone
    · obtain ⟨front, live, behind, hregs, hlive, hbase, hlen, _⟩ := hnew.live_around
      obtain rfl : p = base := Option.some.inj hsome
      exact ⟨live, by rw [hregs]; simp, hlive, hbase, hlen⟩
    · cases hnone
  have hkept : ∀ {more : List Label} {s : State}, Run (Step SbrkOk) st₁ more s →
      (∀ l ∈ more, ¬ l.Meets p (pageCeil length.toNat)) → r ∈ s.regs ∧ PoolInv s := by
    intro more s hmore
    induction hmore with
    | nil => exact fun _ => ⟨hr, (hmap.poolInv hinv₀).1⟩
    | @snoc labels s t l _ hstep ih =>
        intro hmiss
        obtain ⟨hmem, hinv⟩ := ih fun k hk => hmiss k (List.mem_append_left _ hk)
        refine ⟨hstep.keeps hinv hmem hlive ?_, (hstep.poolInv hinv).1⟩
        rw [hbase, hlen]
        exact hmiss l (List.mem_append_right _ List.mem_cons_self)
  exact ⟨r, mem_liveRegions.mpr ⟨(hkept hrest hlater).1, hlive⟩, hbase, hlen⟩

/-- In every reachable state a mapping is a live region, and a live region can
be released exactly if it does not end with the last byte of the address space
and the search finds it, as it does while no region ends there. -/
theorem run_releasable_iff {labels : List Label} {st : State}
    (hrun : Run (Step SbrkOk) State.init labels st) :
    (∀ p len, Mapping labels p len → ∃ r ∈ liveRegions st.regs, r.base = p ∧ r.len = len) ∧
      ∀ r ∈ liveRegions st.regs, ∀ addr length : BitVec 32, addr.toNat = r.base →
        pageCeil length.toNat = r.len →
        (Munmaps st addr length ∧ Msyncs st addr length ↔
          r.limit < 4294967296 ∧ (BelowTop st.regs ∨ Found r st.regs)) := by
  refine ⟨fun p len h => h.region hrun, fun r hr addr length haddr hlength => ?_⟩
  obtain ⟨hmem, hlive⟩ := mem_liveRegions.mp hr
  exact releasable_iff (run_poolInv hrun) hmem hlive haddr hlength


namespace ReleaseWitness

open FileRefWitness PageMapWitness

theorem shared_releasable :
    Munmaps shared 0x20000 0x30000 ∧ Msyncs shared 0x20000 0x30000 := by
  obtain ⟨hmappings, hregions⟩ := run_releasable_iff (Run.single shared_step)
  obtain ⟨r, hr, hbase, hlen⟩ :=
    hmappings 0x20000 0x30000 ⟨[], _, _, _, _, _, [], rfl, by decide, by simp⟩
  have htop : BelowTop shared.regs := by
    unfold BelowTop
    decide +kernel
  have hrelease := hregions r hr 0x20000 0x30000 (by simp [hbase])
    (by rw [hlen]; decide)
  apply hrelease.mpr
  exact ⟨htop r (mem_liveRegions.mp hr).1, Or.inl htop⟩

/-- Both calls refuse the pages of a mapping that ends at the top, whatever the
host answers. -/
theorem atTop_not_releasable :
    Run (Step SbrkOk) State.init
        [.call (.mmap 0x20000 3 0x22 (-1) 0) (.addr (some 0xFFFE0000))] atTop ∧
      Mapping [.call (.mmap 0x20000 3 0x22 (-1) 0) (.addr (some 0xFFFE0000))]
        0xFFFE0000 0x20000 ∧
      (∀ ans, munmap 0xFFFE0000 0x20000 ans atTop = .ok (-1, atTop.setErrno .einval)) ∧
      (∀ ans, msync 0xFFFE0000 0x20000 MS_SYNC ans atTop =
        .ok (-1, atTop.setErrno .enomem)) ∧
      ¬ Munmaps atTop 0xFFFE0000 0x20000 ∧ ¬ Msyncs atTop 0xFFFE0000 0x20000 := by
  have hmunmap : ∀ ans, munmap 0xFFFE0000 0x20000 ans atTop =
      .ok (-1, atTop.setErrno .einval) := by
    intro ans
    unfold munmap
    dsimp only
    rw [if_neg (by decide), if_pos (by decide)]
  have hmsync : ∀ ans, msync 0xFFFE0000 0x20000 MS_SYNC ans atTop =
      .ok (-1, atTop.setErrno .enomem) := by
    intro ans
    unfold msync
    dsimp only
    rw [if_neg (by decide), if_neg (by decide), if_pos (by decide)]
  refine ⟨atTop_run, ⟨[], _, _, _, _, _, [], rfl, by decide, by simp⟩, hmunmap, hmsync, ?_, ?_⟩
  · rintro ⟨n, h⟩
    obtain ⟨_, hrun, _⟩ := h { pwrites := List.replicate n (.ok 1) }
      (reserve_realloc 2 atTop) (le_wrotes_replicate n)
    rw [hmunmap] at hrun
    cases hrun
  · rintro ⟨n, h⟩
    obtain ⟨ret, st', hrun, hresult⟩ :=
      h { pwrites := List.replicate n (.ok 1) } (le_wrotes_replicate n)
    rw [hmsync] at hrun
    obtain ⟨rfl, rfl⟩ := Prod.mk.inj (Except.ok.inj hrun)
    rcases hresult with hzero | ⟨_, herr⟩
    · cases hzero
    · exact absurd (List.eq_of_mem_replicate herr) nofun

end ReleaseWitness

end Mman

end WasixLibc
