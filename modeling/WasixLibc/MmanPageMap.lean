/-
The table as a map from pages to their images, and `munmap` on that map.

The map says what the table is for: which pages are live, with which
attributes, and where in which file their bytes belong.  A successful
`munmap` frees the live pages of its range and changes nothing else, unless
the range meets a live region that is lost to `unmap_range`.
-/
import WasixLibc.MmanRun
import WasixLibc.MmanTop

namespace WasixLibc

namespace Mman

open SpanList ListZipper

/-- The image of one page.  `off` is the file offset of the page and `backed`
the number of its bytes that the file backs. -/
inductive PageImage where
  | uncovered
  | free
  | live (kind : Kind) (prot flags : BitVec 32) (fref : Option Nat) (off : Int)
      (backed : Nat)
deriving Repr, DecidableEq

abbrev PageMap := Nat → PageImage

def PageImage.isLive : PageImage → Bool
  | live .. => true
  | _ => false

/-- What unmapping makes of one page. -/
def PageImage.freed (page : PageImage) : PageImage :=
  if page.isLive then free else page

/-- `munmap` on page maps. -/
def PageMap.munmap (start stop : Nat) (m : PageMap) : PageMap := fun x =>
  if start ≤ x ∧ x < stop then (m x).freed else m x

/-- The page at `x` of a region that holds it. -/
def Region.page (r : Region) (x : Nat) : PageImage :=
  match r.kind with
  | .rFree => .free
  | .rAnon => .live .rAnon r.prot r.flags r.fref 0 0
  | .rFile => .live .rFile r.prot r.flags r.fref (r.off + ((x - r.base : Nat) : Int))
      (min PAGE (r.dataLen - (x - r.base)))

/-- The page map of a table. -/
def pageMap (regs : List Region) : PageMap := fun x =>
  (imageAt Region.base Region.limit Region.page regs x).getD .uncovered

theorem Region.page_of_free {r : Region} (hfree : r.kind = .rFree) (x : Nat) :
    r.page x = .free := by
  simp only [Region.page, hfree]

theorem Region.page_isLive {r : Region} (hlive : r.kind ≠ .rFree) (x : Nat) :
    (r.page x).isLive = true := by
  unfold Region.page
  split
  · contradiction
  · rfl
  · rfl

theorem Region.page_freed (r : Region) (x : Nat) : (r.page x).freed = .free := by
  unfold PageImage.freed
  by_cases hfree : r.kind = .rFree
  · rw [Region.page_of_free hfree]
    rfl
  · rw [if_pos (Region.page_isLive hfree x)]

/-- Pages below a cut keep their image. -/
theorem Region.page_headTo {r : Region} {start x : Nat} (hlt : r.base < start)
    (htop : start < 4294967296) (hstart : PAGE ∣ start) (hxd : PAGE ∣ x)
    (hlow : r.base ≤ x) (hx : x < start) : (r.headTo start).page x = r.page x := by
  have hsub := wrapSub_of_le (Nat.le_of_lt hlt) htop
  obtain ⟨n, rfl⟩ := hstart
  obtain ⟨k, rfl⟩ := hxd
  unfold Region.page
  simp only [Region.headTo, hsub]
  cases r.kind with
  | rFree => rfl
  | rAnon => rfl
  | rFile =>
      simp only [↓reduceIte, PAGE] at *
      congr 1
      omega

/-- Pages behind a cut keep their image: the offset advances by what was cut
off, and so do the backed bytes. -/
theorem Region.page_tailFrom {r : Region} {stop x : Nat} (hle : r.base ≤ stop)
    (htop : stop < 4294967296) (hx : stop ≤ x) : (r.tailFrom stop).page x = r.page x := by
  have hcut := wrapSub_of_le hle htop
  unfold Region.page
  simp only [Region.tailFrom, hcut]
  cases r.kind with
  | rFree => rfl
  | rAnon => rfl
  | rFile =>
      simp only [↓reduceIte]
      congr 1
      · omega
      · congr 1
        omega

/-! The two loops -/

/-- One cut, seen page by page. -/
theorem carve_page {start stop x : Nat} {r : Region} (hr : r.Ok)
    (hbelow : r.kind ≠ .rFree → r.limit < 4294967296) (hcut : Cuts start stop r)
    (hx : PAGE ∣ x) {p : Region} (hp : p ∈ carve start stop r)
    (hpx : Holds Region.base Region.limit p x) :
    p.page x = if start ≤ x ∧ x < stop then (r.page x).freed else r.page x := by
  have hstart := hcut.start_lt_stop
  have hstop := hcut.stop_lt
  by_cases hfree : r.kind = .rFree
  · simp only [carve, hfree, ↓reduceIte, List.mem_singleton] at hp
    rw [hp, Region.page_freed, Region.page_of_free hfree, ite_self]
  have htop := hbelow hfree
  obtain ⟨freed, hfreed, heq⟩ := carve_eq hr hfree htop hcut
  rw [heq] at hp
  obtain ⟨hlow, hhigh⟩ := hpx
  have hfbase := hfreed.base_eq
  have hflimit := hfreed.limit_eq
  rcases List.mem_append.mp hp with hhead | htail
  · -- below the range
    split at hhead
    · rename_i hlt
      obtain rfl := List.mem_singleton.mp hhead
      obtain ⟨hbase, hlimit⟩ := Region.headTo_span hlt (Nat.lt_trans hstart hstop)
      rw [hbase] at hlow
      rw [hlimit] at hhigh
      rw [if_neg (by omega),
        Region.page_headTo hlt (Nat.lt_trans hstart hstop) hcut.start_dvd hx hlow hhigh]
    · simp at hhead
  rcases List.mem_cons.mp htail with rfl | htail
  · -- inside the range
    rw [if_pos (by omega), Region.page_freed, Region.page_of_free hfreed.kind_eq]
  · -- behind the range
    split at htail
    · rename_i hlt
      obtain rfl := List.mem_singleton.mp htail
      have hbase := (Region.tailFrom_span hlt htop).1
      rw [hbase] at hlow
      rw [if_neg (by omega), Region.page_tailFrom (Nat.le_of_lt hcut.base_lt) hstop hlow]
    · simp at htail

/-- The cut regions, seen page by page. -/
theorem carveAll_imageAt {start stop x : Nat} {post : List Region} (hok : TableOk post)
    (hbelow : ∀ r ∈ post, r.kind ≠ .rFree → r.base < stop → r.limit < 4294967296)
    (hrange : PageRange start stop) (hbeyond : ∀ r ∈ post, Beyond start r) (hx : PAGE ∣ x) :
    imageAt Region.base Region.limit Region.page (carveAll start stop post) x =
      (imageAt Region.base Region.limit Region.page post x).map fun page =>
        if start ≤ x ∧ x < stop then page.freed else page := by
  induction post with
  | nil => rfl
  | cons r rest ih =>
      have hr := hok.regions r List.mem_cons_self
      by_cases hlt : r.base < stop
      · have hrbeyond := hbeyond r List.mem_cons_self
        have hcut : Cuts start stop r := ⟨hrange, hlt, hrbeyond.lt_limit hr⟩
        have hrbelow := fun hlive => hbelow r List.mem_cons_self hlive hlt
        obtain ⟨htile, _⟩ := carve_tiles hr hrange hlt hrbeyond
        have hrest := ih hok.tail (fun q hq => hbelow q (List.mem_cons_of_mem r hq))
          fun q hq => hbeyond q (List.mem_cons_of_mem r hq)
        simp only [carveAll, hlt, ↓reduceIte]
        rw [imageAt_append, imageAt_cons, hrest,
          htile.imageAt_eq fun p hp hpx => carve_page hr hrbelow hcut hx hp hpx]
        by_cases hholds : r.base ≤ x ∧ x < r.limit
        · rw [if_pos hholds, if_pos (show Holds Region.base Region.limit r x from hholds)]
          rfl
        · rw [if_neg hholds, if_neg (show ¬ Holds Region.base Region.limit r x from hholds)]
          rfl
      · -- the rest of the table lies behind the range
        simp only [carveAll, hlt, ↓reduceIte]
        by_cases hcov : Covered (r :: rest) x
        · obtain ⟨q, hq, hqx⟩ := hcov
          have hbase : stop ≤ q.base := by
            rcases List.mem_cons.mp hq with rfl | hq
            · exact Nat.le_of_not_lt hlt
            · have hgap := (List.pairwise_cons.mp hok.ordered).1 q hq
              have hpos := hr.base_lt_limit
              omega
          have hlow := hqx.1
          rw [imageAt_of_holds hok.ordered hq hqx, Option.map_some, if_neg (by omega)]
        · rw [imageAt_eq_none hcov]
          rfl

/-- Merging free regions changes no image. -/
theorem coalesceFrom_imageAt {stop x : Nat} {r : Region} {rest : List Region}
    (hok : TableOk (r :: rest)) (hproper : Proper (r :: rest)) :
    imageAt Region.base Region.limit Region.page (coalesceFrom stop r rest) x =
      imageAt Region.base Region.limit Region.page (r :: rest) x := by
  induction rest generalizing r with
  | nil => rfl
  | cons next rest ih =>
      simp only [coalesceFrom, endAddr_eq_base_iff hok]
      split
      · split
        · rename_i htouch
          obtain ⟨hfree, hfree', hmeet⟩ := htouch
          obtain ⟨hmtable, hmsub⟩ := merge_front hok hproper hfree hmeet
          have hlimit := mergeRegions_limit hmeet (touching_len_lt hok hproper hmeet)
          have hrpos := (hok.regions r List.mem_cons_self).base_lt_limit
          have hnpos := (hok.regions next (by simp)).base_lt_limit
          have hsplit : Holds Region.base Region.limit (mergeRegions r next) x ↔
              Holds Region.base Region.limit r x ∨ Holds Region.base Region.limit next x := by
            have hbase : (mergeRegions r next).base = r.base := rfl
            simp only [Holds, hlimit, hbase]
            omega
          rw [ih hmtable (hmsub.proper.mp hproper), imageAt_cons, imageAt_cons, imageAt_cons,
            Region.page_of_free hfree, Region.page_of_free hfree',
            Region.page_of_free (r := mergeRegions r next) hfree]
          by_cases hrx : Holds Region.base Region.limit r x
          · rw [if_pos (hsplit.mpr (Or.inl hrx)), if_pos hrx]
          · rw [if_neg hrx]
            by_cases hnx : Holds Region.base Region.limit next x
            · rw [if_pos (hsplit.mpr (Or.inr hnx)), if_pos hnx]
            · rw [if_neg hnx, if_neg (by rw [hsplit]; tauto)]
        · rw [imageAt_cons, ih hok.tail hproper.tail, imageAt_cons r (next :: rest)]
      · rfl

theorem coalesceAround_pageMap {start stop : Nat} {st : State} (hok : TableOk st.regs)
    (hproper : Proper st.regs) :
    pageMap (coalesceAround start stop st).regs = pageMap st.regs := by
  rcases coalesceAround_cases start stop st with ⟨_, hsame⟩ |
    ⟨pre, r, rest, hregs, _, hregs'⟩
  · rw [hsame]
  rw [hregs']
  rw [hregs] at hok hproper ⊢
  funext x
  simp only [pageMap, imageAt_append,
    coalesceFrom_imageAt hok.append_right hproper.append_right]

/-- The range meets `r`, which is live. -/
structure Region.Met (r : Region) (start stop : Nat) : Prop where
  live : r.kind ≠ .rFree
  base_lt : r.base < stop
  lt_limit : start < r.limit

/-- `unmap_range` is `munmap` on page maps if it comes across the live regions
of its range. -/
theorem unmapRange_pageMap {start stop x : Nat} {ans : PwriteAnswers} {st st' : State}
    (hok : TableOk st.regs) (hproper : Proper st.regs) (hrange : PageRange start stop)
    (hclear : ∀ r ∈ st.regs, r.Met start stop → ¬ Lost st.regs start r) (hx : PAGE ∣ x)
    (h : unmapRange start stop ans st = .ok st') :
    pageMap st'.regs x = (pageMap st.regs).munmap start stop x := by
  obtain ⟨pre, post, st₁, hregs, hidx, hturns, rfl⟩ := unmapRange_spec h
  have hcarved := hturns.regs hregs
  rw [hregs] at hok hproper hidx hclear
  obtain ⟨hfine, hok₁⟩ := carved_ok hok (Or.inl hrange) hidx
  rw [← hcarved] at hfine hok₁
  have hbeyond := firstOverlap_beyond hok hidx
  have hbelow : ∀ r ∈ post, r.kind ≠ .rFree → r.base < stop → r.limit < 4294967296 := by
    intro r hr hlive hlt
    have hmem : r ∈ pre ++ post := List.mem_append_right pre hr
    have hrok := hok.regions r hmem
    refine Nat.lt_of_le_of_ne hrok.limit_le fun htop => ?_
    exact hclear r hmem ⟨hlive, hlt, (hbeyond r hr).lt_limit hrok⟩ (Or.inl htop)
  rw [coalesceAround_pageMap hok₁ (hfine.proper.mpr hproper)]
  have htail := carveAll_imageAt hok.append_right hbelow hrange hbeyond hx
  simp only [pageMap, PageMap.munmap, hcarved, hregs, imageAt_append, htail]
  by_cases hcov : Covered pre x
  · -- the search has passed the region that holds the page
    obtain ⟨q, hq, hqx⟩ := hcov
    have hmem : q ∈ pre ++ post := List.mem_append_left post hq
    rw [imageAt_of_holds hok.append_left.ordered hq hqx]
    obtain ⟨hlow, hhigh⟩ := hqx
    by_cases hin : start ≤ x ∧ x < stop
    · have hfree : q.kind = .rFree := by
        by_contra hlive
        have hlimit : start < q.limit := Nat.lt_of_le_of_lt hin.1 hhigh
        exact hclear q hmem ⟨hlive, Nat.lt_of_le_of_lt hlow hin.2, hlimit⟩
          (lost_of_skipped hok hidx hq hlimit)
      rw [if_pos hin, Region.page_of_free hfree]
      rfl
    · rw [if_neg hin]
      rfl
  · rw [imageAt_eq_none hcov, Option.none_or, Option.none_or]
    cases imageAt Region.base Region.limit Region.page post x with
    | none => simp [PageImage.freed, PageImage.isLive]
    | some page => rfl

/-- The table keeps the regions that the search passes. -/
theorem unmapRange_keeps_front {start stop x : Nat} {ans : PwriteAnswers} {st st' : State}
    {r : Region} (hok : TableOk st.regs) (hproper : Proper st.regs)
    (hrange : UnmapRange start stop)
    (hfront : ∀ front behind, st.regs = front ++ behind →
      firstOverlap start st.regs = front.length → r ∈ front)
    (hx : Holds Region.base Region.limit r x) (h : unmapRange start stop ans st = .ok st') :
    pageMap st'.regs x = r.page x := by
  obtain ⟨front, behind, st₁, hsplit, hidx, hturns, rfl⟩ := unmapRange_spec h
  have hr := hfront front behind hsplit hidx
  have hcarved := hturns.regs hsplit
  rw [hsplit] at hok hproper hidx
  obtain ⟨hfine, hok₁⟩ := carved_ok hok hrange hidx
  rw [← hcarved] at hfine hok₁
  have hmem : r ∈ st₁.regs := by
    rw [hcarved]
    exact List.mem_append_left _ hr
  rw [coalesceAround_pageMap hok₁ (hfine.proper.mpr hproper), pageMap,
    imageAt_of_holds hok₁.ordered hmem hx]
  rfl

/-- A live region that ends at the top is freed as a whole when the pass reaches
it. -/
theorem mem_carveAll_top {start stop : Nat} {post : List Region} {r : Region}
    (hok : TableOk post) (hr : r ∈ post) (hlive : r.kind ≠ .rFree)
    (htop : r.limit = 4294967296) (hlt : r.base < stop) (hbeyond : Beyond start r) :
    r.toFree r.len ∈ carveAll start stop post := by
  induction post with
  | nil => cases hr
  | cons q rest ih =>
      rcases List.mem_cons.mp hr with rfl | hr
      · have hpieces := carve_eq_of_top hlive htop (Nat.lt_of_le_of_lt (Nat.zero_le _) hlt)
          (hbeyond.lt_base_of_top htop)
        simp only [carveAll, hlt, ↓reduceIte, hpieces]
        exact List.mem_append_left _ List.mem_cons_self
      · have hgap := (List.pairwise_cons.mp hok.ordered).1 r hr
        have hpos := (hok.regions q List.mem_cons_self).base_lt_limit
        have hqlt : q.base < stop := by omega
        simp only [carveAll, hqlt, ↓reduceIte]
        exact List.mem_append_right _ (ih hok.tail hr)

/-- If a live region of the range is lost, `unmap_range` leaves one of its pages
live, or frees one behind the range. -/
theorem unmapRange_pageMap_of_lost {start stop : Nat} {ans : PwriteAnswers}
    {st st' : State} {r : Region} (hok : TableOk st.regs) (hproper : Proper st.regs)
    (hrange : PageRange start stop) (hr : r ∈ st.regs) (hmet : r.Met start stop)
    (hlost : Lost st.regs start r) (h : unmapRange start stop ans st = .ok st') :
    ∃ x, PAGE ∣ x ∧ pageMap st'.regs x ≠ (pageMap st.regs).munmap start stop x := by
  have hrok := hok.regions r hr
  have hbase := hrok.base_lt_limit
  have hlow := hmet.base_lt
  have hhigh := hmet.lt_limit
  have hstart := hrange.start_lt_stop
  have hold : ∀ x, Holds Region.base Region.limit r x → pageMap st.regs x = r.page x := by
    intro x hx
    rw [pageMap, imageAt_of_holds hok.ordered hr hx]
    rfl
  by_cases hskipped : ∀ front behind, st.regs = front ++ behind →
      firstOverlap start st.regs = front.length → r ∈ front
  · -- its first page in the range stays live
    have hx : Holds Region.base Region.limit r (max r.base start) := ⟨by omega, by omega⟩
    refine ⟨max r.base start, ?_, ?_⟩
    · rcases Nat.le_total r.base start with hle | hle
      · rw [Nat.max_eq_right hle]
        exact hrange.start_dvd
      · rw [Nat.max_eq_left hle]
        exact hrok.base_dvd
    · rw [unmapRange_keeps_front hok hproper (Or.inl hrange) hskipped hx h, PageMap.munmap,
        if_pos (by omega), hold _ hx, Region.page_freed]
      intro heq
      have hislive := Region.page_isLive hmet.live (max r.base start)
      rw [heq] at hislive
      cases hislive
  · push Not at hskipped
    obtain ⟨front, behind, hsplit, hidx, hnot⟩ := hskipped
    rw [hsplit] at hidx hlost
    have hok' := hok
    rw [hsplit] at hok' hr
    have htop : r.limit = 4294967296 := by
      refine Nat.le_antisymm hrok.limit_le (Nat.le_of_not_lt fun hlt => hnot ?_)
      exact skipped_of_lost hok' hidx hlost hlt hhigh
    have hbehind := (List.mem_append.mp hr).resolve_left hnot
    -- the last page of the address space is freed, which no range reaches
    obtain ⟨pre, post, st₁, hregs, hidx', hturns, rfl⟩ := unmapRange_spec h
    obtain ⟨rfl, rfl⟩ : pre = front ∧ post = behind := by
      apply List.append_inj (hregs.symm.trans hsplit)
      rw [← hidx', hsplit, hidx]
    have hcarved := hturns.regs hregs
    obtain ⟨hfine, hok₁⟩ := carved_ok hok' (Or.inl hrange) hidx
    rw [← hcarved] at hfine hok₁
    have hmem : r.toFree r.len ∈ st₁.regs := by
      rw [hcarved]
      exact List.mem_append_right _ (mem_carveAll_top hok'.append_right hbehind hmet.live htop hlow
        (firstOverlap_beyond hok' hidx r hbehind))
    have hlast : Holds Region.base Region.limit r 0xFFFF0000 := by
      obtain ⟨n, hn⟩ := hrok.base_dvd
      refine ⟨?_, by omega⟩
      unfold PAGE at hn
      omega
    have hstop : stop ≤ 0xFFFF0000 := by
      obtain ⟨n, hn⟩ := hrange.stop_dvd
      have hlt := hrange.stop_lt
      unfold PAGE at hn
      omega
    refine ⟨0xFFFF0000, by decide, ?_⟩
    rw [hsplit] at hproper
    rw [coalesceAround_pageMap hok₁ (hfine.proper.mpr hproper), pageMap,
      imageAt_of_holds hok₁.ordered hmem hlast, PageMap.munmap, if_neg (by omega), hold _ hlast]
    intro heq
    have hislive := Region.page_isLive hmet.live 0xFFFF0000
    rw [← heq] at hislive
    cases hislive

/-- In every reachable state a successful `munmap` frees the live pages of its
range and leaves every other page alone, exactly if no live region that the
range meets is lost. -/
theorem munmap_refines_iff {labels : List Label} {addr length : BitVec 32} {ans : Answers}
    {st st' : State} (hrun : Run (Step SbrkOk) State.init labels st)
    (h : munmap addr length ans st = .ok (0, st')) :
    (∀ x, PAGE ∣ x → pageMap st'.regs x =
      (pageMap st.regs).munmap addr.toNat (addr.toNat + pageCeil length.toNat) x) ↔
      ∀ r ∈ st.regs, r.Met addr.toNat (addr.toNat + pageCeil length.toNat) →
        ¬ Lost st.regs addr.toNat r := by
  have hinv := run_poolInv hrun
  have houtcome := munmap_outcome h
  generalize hret : (0 : Int) = ret at houtcome
  cases houtcome with
  | refused _ _ _ => omega
  | @unmapped _ cap _ hrange _ hunmap =>
      have hok : TableOk { st with capregs := cap }.regs := hinv.tableOk
      have hproper : Proper { st with capregs := cap }.regs := hinv.proper
      constructor
      · intro hpages r hr hmet hlost
        obtain ⟨x, hx, hne⟩ :=
          unmapRange_pageMap_of_lost hok hproper hrange hr hmet hlost hunmap
        exact hne (hpages x hx)
      · intro hclear x hx
        have hpage := unmapRange_pageMap hok hproper hrange hclear hx hunmap
        exact hpage

namespace PageMapWitness

open RunWitness

/-- Unmapping the first of three pages, seen at that page and at the next. -/
theorem mapped_munmap_refines :
    pageMap ((Call.munmap 0x20000 0x10000).after {} mapped).regs 0x20000 =
        (pageMap mapped.regs).munmap 0x20000 0x30000 0x20000 ∧
      pageMap ((Call.munmap 0x20000 0x10000).after {} mapped).regs 0x30000 =
        (pageMap mapped.regs).munmap 0x20000 0x30000 0x30000 := by
  have hmap : Step SbrkOk State.init
      (.call (.mmap 0x30000 3 0x22 (-1) 0) (.addr (some 0x20000))) mapped :=
    Call.step_of_grown_cons (by decide +kernel)
      (show mapped.grown = (0x20000, 0x30000) :: State.init.grown by decide +kernel)
      ⟨by decide, by simp [State.init], by simp [State.init], Or.inl (by simp [State.init])⟩
  have hbelow : ∀ r ∈ mapped.regs, r.limit ≠ 4294967296 := by decide +kernel
  have hclear : ∀ r ∈ mapped.regs, r.Met 0x20000 0x30000 → ¬ Lost mapped.regs 0x20000 r := by
    rintro r hr - (htop | ⟨_, last, hregs, htop, _⟩)
    · exact hbelow r hr htop
    · exact hbelow last (by rw [hregs]; simp) htop
  have hunmap : munmap 0x20000 0x10000 {} mapped =
      .ok (0, (Call.munmap 0x20000 0x10000).after {} mapped) :=
    munmap_of_result (by decide +kernel)
  have hpages := (munmap_refines_iff (Run.single hmap) hunmap).mpr hclear
  exact ⟨hpages 0x20000 (by decide), hpages 0x30000 (by decide)⟩

/-- Two pages that end with the last byte of the address space. -/
def atTop : State :=
  (Call.mmap 0x20000 3 0x22 (-1) 0).after { memoryGrow := some 0xFFFE } State.init

theorem atTop_run : Run (Step SbrkOk) State.init
    [.call (.mmap 0x20000 3 0x22 (-1) 0) (.addr (some 0xFFFE0000))] atTop := by
  refine Run.single (Call.step_of_grown_cons (by decide +kernel)
    (show atTop.grown = (0xFFFE0000, 0x20000) :: State.init.grown by decide +kernel) ?_)
  exact ⟨by decide, by simp [State.init], by simp [State.init],
    Or.inl (by simp [State.init])⟩

/-- Unmapping the first of them reports success and leaves it live. -/
theorem atTop_munmap_keeps_page : Run (Step SbrkOk) State.init
      [.call (.mmap 0x20000 3 0x22 (-1) 0) (.addr (some 0xFFFE0000))] atTop ∧
    ∃ st', munmap 0xFFFE0000 0x10000 {} atTop = .ok (0, st') ∧
      (pageMap st'.regs 0xFFFE0000).isLive = true ∧
      ¬ ∀ x, PAGE ∣ x → pageMap st'.regs x =
        (pageMap atTop.regs).munmap 0xFFFE0000 (0xFFFE0000 + pageCeil 0x10000) x := by
  refine ⟨atTop_run, _, munmap_of_result (by decide +kernel), by decide +kernel, ?_⟩
  intro hall
  exact absurd (hall 0xFFFE0000 (by decide)) (by decide +kernel)

end PageMapWitness

end Mman

end WasixLibc
