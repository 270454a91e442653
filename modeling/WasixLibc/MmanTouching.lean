/-
Touching free regions.

Merging after an unmap starts where `first_overlap` points, so a region that
ends at the top, which the search is wrong about, can leave two free regions
unmerged.  In every reachable table such a pair is the end of the table: the
second of them ends at the top itself.
-/
import WasixLibc.MmanRun
import WasixLibc.MmanTop

namespace WasixLibc

namespace Mman

open SpanList ListZipper

/-- Two free regions touch at most in front of the top. -/
def NearlyCoalesced (regs : List Region) : Prop :=
  ∀ a ∈ regs, ∀ b ∈ regs, Touching a b → b.limit = 4294967296

theorem TouchOld.nearly {old new : List Region} (h : TouchOld old new) (hok : TableOk new)
    (hnear : NearlyCoalesced old) : NearlyCoalesced new := by
  intro a ha b hb htouch
  obtain ⟨a', ha', b', hb', htouch', hle⟩ := h a ha b hb htouch
  have hlimit := hnear a' ha' b' hb' htouch'
  exact Nat.le_antisymm (hok.regions b hb).limit_le (hlimit ▸ hle)

theorem NearlyCoalesced.coalesced {regs : List Region} (h : NearlyCoalesced regs)
    (hok : TableOk regs) (htop : BelowTop regs) : Coalesced regs := by
  rw [coalesced_iff hok]
  intro a ha b hb htouch
  exact absurd (h a ha b hb htouch) (Nat.ne_of_lt (htop b hb))

/-- Merging, wherever it starts, keeps this. -/
theorem coalesceAround_touchOld (start stop : Nat) {st : State} (hok : TableOk st.regs)
    (hproper : Proper st.regs) : TouchOld st.regs (coalesceAround start stop st).regs := by
  have hok' := coalesceAround_ok start stop hok hproper
  obtain ⟨hcoarse, _⟩ := coalesceAround_refines start stop hok hproper
  intro a ha b hb htouch
  obtain ⟨a', ha', b', hb', htouch', _, _, hlimit⟩ :=
    hcoarse.touching hok' (coalesceAround_live start stop st) ha hb htouch
  exact ⟨a', ha', b', hb', htouch', hlimit⟩

/-! The cut in front of the top -/

/-- A region is replaced in place, or leaves a live head, or two pieces that end
between `start` and the top. -/
theorem carve_cases {start stop : Nat} {r : Region} (hr : r.Ok)
    (hrange : PageRange start stop) (hbase : r.base < stop) (hbeyond : Beyond start r) :
    (∃ p, carve start stop r = [p]) ∨
      (∃ pieces, carve start stop r = r.headTo start :: pieces ∧ r.kind ≠ .rFree ∧
        r.base < start) ∨
      ∃ p q, carve start stop r = [p, q] ∧ start < p.limit ∧ q.limit < 4294967296 := by
  by_cases hfree : r.kind = .rFree
  · exact Or.inl ⟨r, by simp only [carve, hfree, ↓reduceIte]⟩
  rcases Nat.lt_or_eq_of_le hr.limit_le with htop | htop
  · have hlimit := hbeyond.lt_limit hr
    have hstart := hrange.start_lt_stop
    obtain ⟨freed, hfreed, heq⟩ := carve_eq hr hfree htop ⟨hrange, hbase, hlimit⟩
    rw [heq]
    by_cases hhead : r.base < start
    · rw [if_pos hhead]
      exact Or.inr (Or.inl ⟨_, rfl, hfree, hhead⟩)
    · rw [if_neg hhead]
      by_cases htail : stop < r.limit
      · rw [if_pos htail]
        have hflimit := hfreed.limit_eq
        have htlimit := (Region.tailFrom_span htail htop).2
        exact Or.inr (Or.inr ⟨freed, _, rfl, by omega, by omega⟩)
      · rw [if_neg htail]
        exact Or.inl ⟨freed, rfl⟩
  · have hstop : 0 < stop := by omega
    exact Or.inl ⟨_, carve_eq_of_top hfree htop hstop (hbeyond.lt_base_of_top htop)⟩

/-- Where the search after a cut loses its way, one region lies between `start`
and the one at the top. -/
theorem stray_of_not_searchOk {start : Nat} {regs : List Region} (hok : TableOk regs)
    (hnot : ¬ SearchOk start regs) {b : Region} (hb : b ∈ regs) (hlow : start < b.limit)
    (htop : b.limit < 4294967296) :
    ∃ below last, regs = below ++ [b, last] ∧ last.limit = 4294967296 ∧
      (∀ r ∈ below, r.limit ≤ start) ∧ TwoOnes (regs.length + 1) := by
  obtain ⟨last, hlast, hend⟩ := hok.exists_top fun htop => hnot (hok.searchOk htop start)
  obtain ⟨front, rfl⟩ := hok.eq_concat_of_top hlast hend
  obtain ⟨below, mid, rfl, hends, hmid⟩ :=
    ordered_split hok.append_left.ordered hok.append_left.base_pos start
  have hmissed : StrayMissed (below ++ mid ++ [last]).length below.length := by
    by_contra hfound
    exact hnot ⟨below, mid ++ [last], List.append_assoc .., (firstOverlap_of_top hok hend
      hends hmid).2 hfound, hends⟩
  have hbmid : b ∈ mid := by
    rcases List.mem_append.mp hb with hb | hb
    · rcases List.mem_append.mp hb with hb | hb
      · have hle := hends b hb
        omega
      · exact hb
    · rw [List.mem_singleton.mp hb] at htop
      omega
  have hpos := List.length_pos_of_mem hbmid
  simp only [List.length_append, List.length_singleton] at hmissed
  rcases hmissed with hnone | ⟨hone, htwo⟩
  · omega
  obtain ⟨q, rfl⟩ := List.length_eq_one_iff.mp (by omega : mid.length = 1)
  obtain rfl := List.mem_singleton.mp hbmid
  exact ⟨below, last, by simp, hend, hends, by simpa using htwo⟩

/-- A cut that replaces one region by one piece leaves the search as it is. -/
theorem firstOverlap_of_replaced {start : Nat} {pre rest : List Region} {r last : Region}
    (hok : TableOk (pre ++ r :: rest)) (hpre : ∀ q ∈ pre, q.limit ≤ start)
    (hr : start < r.limit) (hrest : rest.length ≤ 1) (hfine : Refines rest [last])
    (hlast : last.limit = 4294967296) (htwo : TwoOnes (pre.length + 3)) :
    firstOverlap start (pre ++ r :: rest) = pre.length + 2 := by
  obtain ⟨q, hq, _, hle⟩ := hfine.exists_coarse List.mem_cons_self
  have hsome := List.length_pos_of_mem hq
  obtain ⟨q', rfl⟩ := List.length_eq_one_iff.mp (by omega : rest.length = 1)
  obtain rfl := List.mem_singleton.mp hq
  have htop : q.limit = 4294967296 :=
    Nat.le_antisymm (hok.regions q (by simp)).limit_le (hlast ▸ hle)
  exact firstOverlap_skips hok htop hpre hr htwo

/-- Where one piece `b` takes the place of a region, the search finds its way as it
did before. -/
theorem not_stray_of_one {start stop : Nat} {pre rest below : List Region} {r b last : Region}
    (hok : TableOk (pre ++ r :: rest))
    (hidx : firstOverlap start (pre ++ r :: rest) = pre.length) (hr : start < r.limit)
    (hrefines : Refines rest (carveAll start stop rest))
    (hbehind : ∀ q ∈ carveAll start stop rest, start < q.base)
    (hok' : TableOk (pre ++ b :: carveAll start stop rest))
    (hbase : b.base ≤ start) (hlow : start < b.limit) (hblt : b.limit < 4294967296)
    (hregs : pre ++ b :: carveAll start stop rest = below ++ [b, last])
    (hlast : last.limit = 4294967296) (hends : ∀ q ∈ below, q.limit ≤ start)
    (htwo : TwoOnes ((pre ++ b :: carveAll start stop rest).length + 1)) : False := by
  have hpre : ∀ q ∈ pre, q.limit ≤ start := by
    intro q hq
    have hgap := hok'.around.1 q hq
    omega
  obtain ⟨rfl, hpost⟩ := split_unique (P := fun q : Region => q.limit ≤ start) hregs hpre hends
    (by
      intro q hq
      rcases List.mem_cons.mp hq with rfl | hq
      · omega
      · have hbase := hbehind q hq
        have hpos := hok'.base_pos q (by simp [hq])
        omega)
    (by
      intro q hq
      rcases List.mem_cons.mp hq with rfl | hq
      · omega
      · rw [List.mem_singleton.mp hq]
        omega)
  have hrest := (List.cons.inj hpost).2
  have hlen := length_le_carveAll start stop rest
  rw [hrest] at hrefines hlen htwo
  have hfound := firstOverlap_of_replaced hok hpre hr hlen hrefines hlast (by simpa using htwo)
  omega

/-- Two pieces between `start` and the top are not both the only region there. -/
theorem not_stray_of_two {start : Nat} {pre below tail : List Region} {p q b last : Region}
    (hok : TableOk (pre ++ ([p, q] ++ tail)))
    (hregs : pre ++ ([p, q] ++ tail) = below ++ [b, last])
    (hlast : last.limit = 4294967296) (hends : ∀ c ∈ below, c.limit ≤ start)
    (hp : start < p.limit) (hq : q.limit < 4294967296) : False := by
  have hgap := hok.around.2 q (by simp)
  have hqpos := hok.base_pos q (by simp)
  have honly : ∀ c ∈ below ++ [b, last], start < c.limit → c.limit < 4294967296 → c = b := by
    intro c hc hlow hhigh
    rcases List.mem_append.mp hc with hc | hc
    · have hle := hends c hc
      omega
    · rcases List.mem_cons.mp hc with rfl | hc
      · rfl
      · rw [List.mem_singleton.mp hc] at hhigh
        omega
  have hpb := honly p (hregs ▸ by simp) hp (by omega)
  have hqb := honly q (hregs ▸ by simp) (by omega) hq
  subst hpb hqb
  omega

/-- A cut after which the search loses its way leaves no new pair of touching
free regions below the top: the cut found its place, so it changed the number
of regions, and the pieces between are no free neighbours. -/
theorem carveAll_nearly {start stop : Nat} {pre post : List Region}
    (hok : TableOk (pre ++ post)) (hrange : PageRange start stop)
    (hidx : firstOverlap start (pre ++ post) = pre.length)
    (hnear : NearlyCoalesced (pre ++ post))
    (hnot : ¬ SearchOk start (pre ++ carveAll start stop post)) :
    NearlyCoalesced (pre ++ carveAll start stop post) := by
  intro a ha b hb htouch
  by_contra hbtop
  have hbeyond := firstOverlap_beyond hok hidx
  obtain ⟨hfine, hok'⟩ := carved_ok hok (Or.inl hrange) hidx
  have hblt := Nat.lt_of_le_of_ne (hok'.regions b hb).limit_le hbtop
  have hapos := hok'.base_pos a ha
  have hbpos := hok'.base_pos b hb
  have hmeet := htouch.2.2
  -- two regions from before would have touched before
  have hfresh : ¬ (a ∈ pre ++ post ∧ b ∈ pre ++ post) :=
    fun hold => hbtop (hnear a hold.1 b hold.2 htouch)
  have hlow : start < b.limit := by
    by_contra hle
    exact hfresh (carveAll_touching hok hrange hbeyond ha hb htouch
      (Or.inl (Nat.le_of_not_lt hle)))
  obtain ⟨below, last, hregs, hlast, hends, htwo⟩ :=
    stray_of_not_searchOk hok' hnot hb hlow hblt
  have habelow : a.limit ≤ start := by
    have hmem : a ∈ below ++ [b, last] := hregs ▸ ha
    rcases List.mem_append.mp hmem with hmem | hmem
    · exact hends a hmem
    · rcases List.mem_cons.mp hmem with rfl | hmem
      · omega
      · obtain rfl := List.mem_singleton.mp hmem
        omega
  have haold : a ∈ pre ++ post := by
    rcases List.mem_append.mp ha with hpre | hcut
    · exact List.mem_append_left post hpre
    · rcases carveAll_free_mem hok.append_right.regions hrange hbeyond hcut htouch.1 with
        hpost | ⟨habove, _⟩
      · exact List.mem_append_right pre hpost
      · omega
  have hbnew : b ∉ pre ++ post := fun hb => hfresh ⟨haold, hb⟩
  -- so the piece `b` comes from the first region behind the index
  cases post with
  | nil => exact hbnew (by simpa [carveAll] using hb)
  | cons r rest =>
      have hr := hok.append_right.regions r List.mem_cons_self
      have hrbeyond := hbeyond r List.mem_cons_self
      have hrabove := hrbeyond.lt_limit hr
      by_cases hlt : r.base < stop
      · have hrefines := (carveAll_refines hok.append_right.tail.regions hrange
          fun q hq => hbeyond q (List.mem_cons_of_mem r hq)).1
        have hbehind : ∀ q ∈ carveAll start stop rest, start < q.base := by
          intro q hq
          obtain ⟨c, hc, hle, _⟩ := hrefines.exists_coarse hq
          have hgap := hok.around.2 c hc
          omega
        simp only [carveAll, hlt, ↓reduceIte] at ha hb hregs hok' htwo
        have hbcut : b ∈ carve start stop r := by
          rcases List.mem_append.mp hb with hpre | hcut
          · exact absurd (List.mem_append_left (r :: rest) hpre) hbnew
          · rcases List.mem_append.mp hcut with hcut | hrest
            · exact hcut
            · have hbase := hbehind b hrest
              omega
        rcases carve_cases hr hrange hlt hrbeyond with ⟨p, hcarve⟩ |
          ⟨pieces, hcarve, hlive, hhead⟩ | ⟨p, q, hcarve, hp, hq⟩
        · -- the search found its place before, and so it does now
          rw [hcarve, List.mem_singleton] at hbcut
          subst hbcut
          rw [hcarve, List.cons_append, List.nil_append] at hregs hok' htwo
          exact not_stray_of_one hok hidx hrabove hrefines hbehind hok' (by omega) hlow hblt
            hregs hlast hends htwo
        · -- `a` would be the head, which is live
          rw [hcarve] at hbcut ha hb hok'
          have hspan := Region.headTo_span hhead
            (Nat.lt_trans hrange.start_lt_stop hrange.stop_lt)
          rcases List.mem_cons.mp hbcut with rfl | hbcut
          · exact hlive htouch.2.1
          · have hgap := hok'.around.2 b (List.mem_append_left _ hbcut)
            have hsame : a = r.headTo start := by
              refine eq_of_holds hok'.ordered (x := start - 1) ha (by simp) ?_ ?_
              · exact ⟨by omega, by omega⟩
              · exact ⟨by omega, by omega⟩
            have hkind : (r.headTo start).kind = .rFree := hsame ▸ htouch.1
            exact hlive hkind
        · -- the two pieces would be the only region between `start` and the top
          rw [hcarve] at hregs hok'
          exact not_stray_of_two hok' hregs hlast hends hp hq
      · rw [carveAll, if_neg hlt] at hb
        exact hbnew hb

/-- Unmapping keeps this, also where the search loses its way. -/
theorem unmapRange_nearly {start stop : Nat} {ans : PwriteAnswers} {st st' : State}
    (hok : TableOk st.regs) (hproper : Proper st.regs) (hnear : NearlyCoalesced st.regs)
    (hrange : UnmapRange start stop) (h : unmapRange start stop ans st = .ok st') :
    NearlyCoalesced st'.regs := by
  have hok' := (unmapRange_ok hok hproper hrange h).1
  obtain ⟨pre, post, st₁, hregs, hidx, hturns, rfl⟩ := unmapRange_spec h
  have hcarved := hturns.regs hregs
  rw [hregs] at hok hproper hnear hidx
  obtain ⟨hfine, hok₁⟩ := carved_ok hok hrange hidx
  rw [← hcarved] at hfine hok₁
  have hproper₁ := hfine.proper.mpr hproper
  by_cases hsearch : SearchOk start st₁.regs
  · intro a ha b hb htouch
    obtain ⟨a', ha', b', hb', htouch', hle, hfar⟩ :=
      coalesceAround_touching hok₁ hproper₁ hsearch ha hb htouch
    rw [hcarved] at ha' hb'
    have hold : a' ∈ pre ++ post ∧ b' ∈ pre ++ post := by
      rcases hrange with hrange | rfl
      · exact carveAll_touching hok hrange (firstOverlap_beyond hok hidx) ha' hb' htouch' hfar
      · rw [carveAll_zero] at ha' hb'
        exact ⟨ha', hb'⟩
    have hlimit := hnear a' hold.1 b' hold.2 htouch'
    exact Nat.le_antisymm (hok'.regions b hb).limit_le (hlimit ▸ hle)
  · refine (coalesceAround_touchOld start stop hok₁ hproper₁).nearly hok' ?_
    rw [hcarved] at hsearch ⊢
    rcases hrange with hrange | rfl
    · exact carveAll_nearly hok hrange hidx hnear hsearch
    · rw [carveAll_zero]
      exact hnear

/-! Runs -/

theorem MmapOutcome.nearly {length prot flags : BitVec 32} {fd offset : Int}
    {st st' : State} {ret : Option Nat}
    (h : MmapOutcome length prot flags fd offset st ret st') (hinv : PoolInv st)
    (hhost : ∀ base len, st'.grown = (base, len) :: st.grown → SbrkOk st base len)
    (hnear : NearlyCoalesced st.regs) : NearlyCoalesced st'.regs := by
  rcases h.table_cases with ⟨_, hsame⟩ | ⟨base, _, hnew⟩ |
    ⟨base, st₂, ans, st₃, e, _, hnew, hrun, rfl⟩
  · exact hsame.regs_eq ▸ hnear
  · obtain ⟨hentered, _⟩ := hnew.poolInv hinv (hhost base _)
    exact hentered.touchOld.nearly hentered.tableOk hnear
  · obtain ⟨hentered, hinv₂, _⟩ := hnew.unmapped hinv hrun (hhost base _)
    have hnear₃ : NearlyCoalesced st₃.regs :=
      unmapRange_nearly hinv₂.tableOk hinv₂.proper
        (hentered.touchOld.nearly hentered.tableOk hnear)
        (hentered.unmapRange hnew.1 (pageCeil_dvd _)) hrun
    exact hnear₃

theorem MunmapOutcome.nearly {addr length : BitVec 32} {st st' : State} {ret : Int}
    (h : MunmapOutcome addr length st ret st') (hinv : PoolInv st)
    (hnear : NearlyCoalesced st.regs) : NearlyCoalesced st'.regs := by
  cases h with
  | refused hsame _ _ => exact hsame.regs_eq ▸ hnear
  | @unmapped _ cap _ hrange _ hrun =>
      have hinv₁ : PoolInv { st with capregs := cap } :=
        ⟨hinv.tableOk, hinv.within, hinv.rooted⟩
      exact unmapRange_nearly hinv₁.tableOk hinv₁.proper hnear (Or.inl hrange) hrun

theorem Step.nearly {st st' : State} {l : Label} (h : Step SbrkOk st l st')
    (hinv : PoolInv st) (hnear : NearlyCoalesced st.regs) : NearlyCoalesced st'.regs := by
  cases h with
  | call hexec hhost =>
      rcases Call.exec_cases hexec with ⟨_, _, _, _, _, _, _, _, houtcome⟩ |
        ⟨_, _, _, _, _, houtcome⟩ | ⟨_, _, _, _, _, _, hrun⟩
      · exact houtcome.nearly hinv hhost hnear
      · exact houtcome.nearly hinv hnear
      · exact (msync_onlyLogs hrun).regs_eq ▸ hnear
  | store mem => exact hnear

/-- In every reachable table two free regions touch at most in front of the
top. -/
theorem run_nearly {labels : List Label} {st : State}
    (hrun : Run (Step SbrkOk) State.init labels st) : NearlyCoalesced st.regs := by
  induction hrun with
  | nil => simp [NearlyCoalesced, State.init]
  | snoc hinit hstep ih => exact hstep.nearly (run_poolInv hinit) ih

/-! Pages that are given back -/

/-- A free region of the finer table lies in a free one of a coarser table with the
same live regions. -/
theorem Refines.free_within {coarse fine : List Region} (h : Refines coarse fine)
    (hok : TableOk fine) (hlive : liveRegions coarse = liveRegions fine) {p : Region}
    (hp : p ∈ fine) (hfree : p.kind = .rFree) :
    ∃ c ∈ coarse, c.kind = .rFree ∧ c.base ≤ p.base ∧ p.limit ≤ c.limit := by
  obtain ⟨c, hc, hlow, hhigh⟩ := h.exists_coarse hp
  refine ⟨c, hc, ?_, hlow, hhigh⟩
  by_contra hclive
  have hmem := mem_liveRegions.mp (hlive ▸ mem_liveRegions.mpr ⟨hc, hclive⟩)
  have hpos := hok.base_pos p hp
  have hsame : c = p :=
    eq_of_holds hok.ordered hmem.1 hp ⟨hlow, by omega⟩ ⟨Nat.le_refl _, hpos⟩
  exact hclive (hsame ▸ hfree)

section

variable {pre post left : List Region} {r freed : Region} {st : State}

/-- Away from the front of `r`, the table in which `freed` is split off `r` has no
regions but those from before. -/
theorem mem_of_split (hok : TableOk (pre ++ freed :: (left ++ post)))
    (hbase : freed.base = r.base) (hleft : ∀ q ∈ left, q.base = freed.limit)
    {q : Region} (hq : q ∈ pre ++ freed :: (left ++ post))
    (hfar : q.limit ≤ r.base ∨ freed.limit < q.base) : q ∈ pre ++ post := by
  have hqpos := hok.base_pos q hq
  have hpos := hok.base_pos freed (by simp)
  rcases List.mem_append.mp hq with hq | hq
  · exact List.mem_append_left post hq
  · rcases List.mem_cons.mp hq with rfl | hq
    · omega
    · rcases List.mem_append.mp hq with hq | hq
      · have hstart := hleft q hq
        omega
      · exact List.mem_append_right pre hq

/-- A free region is split and merged again: the result is coalesced if `r` is the
only free region that touched another one. -/
theorem settled_of_touching (hok : TableOk (pre ++ r :: post))
    (hregs : st.regs = pre ++ freed :: (left ++ post)) (hok' : TableOk st.regs)
    (hproper : Proper st.regs) (hbase : freed.base = r.base)
    (hleft : ∀ q ∈ left, q.base = freed.limit)
    (hsearch : firstOverlap freed.base st.regs = pre.length)
    (htouching : ∀ a ∈ pre ++ r :: post, ∀ b ∈ pre ++ r :: post,
      Touching a b → a = r ∨ b = r) :
    Coalesced (coalesceAround freed.base freed.limit st).regs := by
  have hpos := hok'.base_pos freed (by rw [hregs]; simp)
  refine coalesceAround_coalesced hok' hproper ⟨pre, _, hregs, hsearch, ?_⟩ ?_
  · intro q hq
    rw [hregs] at hok'
    exact hok'.around.1 q hq
  intro a ha b hb hfar htouch
  rw [hregs] at ha hb hok'
  have hmeet := htouch.2.2
  have hapos := hok'.base_pos a ha
  have hbpos := hok'.base_pos b hb
  have hafar : a.limit ≤ r.base ∨ freed.limit < a.base := by omega
  have hbfar : b.limit ≤ r.base ∨ freed.limit < b.base := by omega
  have haold := mem_of_split hok' hbase hleft ha hafar
  have hbold := mem_of_split hok' hbase hleft hb hbfar
  have hmem : ∀ q ∈ pre ++ post, q ∈ pre ++ r :: post := by
    intro q hq
    simp only [List.mem_append, List.mem_cons] at hq ⊢
    exact hq.imp_right Or.inr
  have hrpos := hok.base_pos r (by simp)
  rcases htouching a (hmem a haold) b (hmem b hbold) htouch with rfl | rfl
  · omega
  · omega

/-- Two touching free regions in front of the top stay unmerged when a region that
they do not touch is split and merged again. -/
theorem touching_of_settled (hok : TableOk (pre ++ r :: post))
    (hnear : NearlyCoalesced (pre ++ r :: post)) (hfree : r.kind = .rFree)
    (hregs : st.regs = pre ++ freed :: (left ++ post)) (hok' : TableOk st.regs)
    (hproper : Proper st.regs) (hlimit : freed.limit ≤ r.limit)
    (hleft : ∀ q ∈ left, q.limit ≤ r.limit)
    (hcoalesced : Coalesced (coalesceAround freed.base freed.limit st).regs) :
    ∀ a ∈ pre ++ r :: post, ∀ b ∈ pre ++ r :: post, Touching a b → a = r ∨ b = r := by
  intro a ha b hb htouch
  by_contra hnot
  rw [not_or] at hnot
  obtain ⟨har, hbr⟩ := hnot
  have hrmem : r ∈ pre ++ r :: post := by simp
  have hkeep : ∀ q ∈ pre ++ r :: post, q ≠ r → q ∈ st.regs := by
    intro q hq hne
    rw [hregs]
    simp only [List.mem_append, List.mem_cons] at hq ⊢
    rcases hq with hq | hq | hq
    · exact Or.inl hq
    · exact absurd hq hne
    · exact Or.inr (Or.inr (Or.inr hq))
  have ha' := hkeep a ha har
  have hb' := hkeep b hb hbr
  have hbtop := hnear a ha b hb htouch
  have hmeet := htouch.2.2
  have hapos := hok.base_pos a ha
  have hbpos := hok.base_pos b hb
  have hrpos := hok.base_pos r hrmem
  have hrtop := (hok.regions r hrmem).limit_le
  -- a region that touches `a` would be the last but one as well
  have halone : ∀ q ∈ pre ++ r :: post, q.kind = .rFree → q.limit ≠ a.base := by
    intro q hq hqfree hend
    have hatop := hnear q hq a ha ⟨hqfree, htouch.1, hend⟩
    omega
  have hbefore : r.limit ≤ a.base := by
    by_contra hlt
    rcases Nat.lt_or_ge r.base a.limit with hlow | hhigh
    · refine har (eq_of_holds hok.ordered (x := max a.base r.base) ha hrmem ?_ ?_)
      · exact ⟨Nat.le_max_left _ _, by omega⟩
      · exact ⟨Nat.le_max_right _ _, by omega⟩
    · exact hbr (eq_of_holds hok.ordered (x := r.base) hb hrmem ⟨by omega, by omega⟩
        ⟨Nat.le_refl _, hrpos⟩)
  -- the result has one free region over both
  have hcok := coalesceAround_ok freed.base freed.limit hok' hproper
  have hlive := coalesceAround_live freed.base freed.limit st
  obtain ⟨hcoarse, _⟩ := coalesceAround_refines freed.base freed.limit hok' hproper
  obtain ⟨c, hc, hcfree, hcbase, hclimit⟩ := hcoarse.free_within hok' hlive ha' htouch.1
  obtain ⟨d, hd, hdfree, hdbase, hdlimit⟩ := hcoarse.free_within hok' hlive hb' htouch.2.1
  have hcspan : b.base < c.limit := by
    by_contra hle
    have hdc : d.base = b.base := by
      by_contra hne
      have hsame : c = d := eq_of_holds hcok.ordered (x := b.base - 1) hc hd
        ⟨by omega, by omega⟩ ⟨by omega, by omega⟩
      rw [hsame] at hle
      omega
    exact (coalesced_iff hcok).mp hcoalesced c hc d hd ⟨hcfree, hdfree, by omega⟩
  have hcnew : c ∉ st.regs := by
    intro hmem
    have hsame : c = a := eq_of_holds hok'.ordered (x := a.base) hmem ha'
      ⟨hcbase, by omega⟩ ⟨Nat.le_refl _, hapos⟩
    rw [hsame] at hcspan
    omega
  -- it was merged, so it starts where the range ended at the latest
  have hcstart : c.base ≤ freed.limit := by
    rcases coalesceAround_cases freed.base freed.limit st with ⟨_, hsame⟩ |
      ⟨front, q, rest, hsplit, _, hmerged⟩
    · rw [hsame] at hc
      exact absurd hc hcnew
    · rw [hmerged] at hc
      rw [hsplit] at hcnew
      rcases List.mem_append.mp hc with hc | hc
      · exact absurd (List.mem_append_left (q :: rest) hc) hcnew
      · exact (coalesceFrom_mem_cases hc).resolve_left fun hold =>
          hcnew (List.mem_append_right front hold)
  have hgap : r.limit < a.base :=
    Nat.lt_of_le_of_ne hbefore (halone r hrmem hfree)
  obtain ⟨p, hp, hpfree, hpx, _, hplimit⟩ :=
    hcoarse.free_at hcok hlive (x := a.base - 1) hc hcfree ⟨by omega, by omega⟩
  obtain ⟨hplow, hphigh⟩ := hpx
  have hpend : p.limit = a.base := by
    by_contra hne
    have hsame : p = a := eq_of_holds hok'.ordered (x := a.base) hp ha'
      ⟨by omega, by omega⟩ ⟨Nat.le_refl _, hapos⟩
    rw [hsame] at hplow
    omega
  refine halone p ?_ hpfree hpend
  rw [hregs] at hp
  simp only [List.mem_append, List.mem_cons] at hp ⊢
  rcases hp with hp | rfl | hp | hp
  · exact Or.inl hp
  · omega
  · have hend := hleft p hp
    omega
  · exact Or.inr (Or.inr hp)

end

end Mman

end WasixLibc
