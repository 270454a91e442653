/-
Unmapping keeps a table well formed.

Cutting subdivides the regions the range meets and coalescing undoes
subdivisions, so both keep the order and the covered addresses.  Below the
top of the address space the result has no two touching free regions.
-/
import WasixLibc.MmanUnmap

namespace WasixLibc

namespace Mman

open SpanList ListZipper

/-- `fine` cuts the regions of `coarse` into consecutive regions. -/
abbrev Refines (coarse fine : List Region) : Prop :=
  Subdivides Region.base Region.limit coarse fine

/-- Two neighbouring free regions that a merge would join. -/
def Touching (a b : Region) : Prop :=
  a.kind = .rFree ∧ b.kind = .rFree ∧ a.limit = b.base

def Coalesced (regs : List Region) : Prop := regs.IsChain fun a b => ¬ Touching a b

/-- The first and the last byte of the address space are not both covered,
so no run of regions is `2 ^ 32` bytes long. -/
def Proper (regs : List Region) : Prop :=
  ¬ (Covered regs 0 ∧ Covered regs 4294967295)

/-- The range starts below the end of `r`, as the code computes ends, or
below its base. -/
def Beyond (start : Nat) (r : Region) : Prop := start < r.endAddr ∨ start < r.base

theorem Refines.proper {coarse fine : List Region} (h : Refines coarse fine) :
    Proper fine ↔ Proper coarse := by
  simp only [Proper, Covered, h.covers_iff]

theorem Refines.belowTop {coarse fine : List Region} (h : Refines coarse fine)
    (htop : BelowTop coarse) : BelowTop fine := by
  intro p hp
  obtain ⟨r, hr, _, hle⟩ := h.exists_coarse hp
  exact Nat.lt_of_le_of_lt hle (htop r hr)

/-- A covered last byte is the only way to reach the top. -/
theorem belowTop_iff {regs : List Region} (hok : ∀ r ∈ regs, r.Ok) :
    BelowTop regs ↔ ¬ Covered regs 4294967295 := by
  constructor
  · rintro htop ⟨r, hr, _, hlt⟩
    have hlimit := htop r hr
    omega
  · intro hcov r hr
    by_contra hnot
    have hlimit := (hok r hr).limit_le
    have hbase := (hok r hr).base_lt_limit
    exact hcov ⟨r, hr, by omega, by omega⟩

theorem coalesced_iff {regs : List Region} (hok : TableOk regs) :
    Coalesced regs ↔ ∀ a ∈ regs, ∀ b ∈ regs, ¬ Touching a b := by
  constructor
  · intro hcoalesced a ha b hb htouch
    have hchain : regs.IsChain fun a b =>
        a.limit = b.base → ¬ (a.kind = .rFree ∧ b.kind = .rFree) :=
      hcoalesced.imp fun a b hnot hmeet hfree => hnot ⟨hfree.1, hfree.2, hmeet⟩
    exact forall_touching_of_isChain hok.ordered hok.base_pos hchain a ha b hb
      htouch.2.2 ⟨htouch.1, htouch.2.1⟩
  · intro hall
    exact List.Pairwise.isChain (List.pairwise_of_forall_mem_list hall)

/-- Where two free regions touch in the new table, two touch in the old one that
end no higher. -/
def TouchOld (old new : List Region) : Prop :=
  ∀ a ∈ new, ∀ b ∈ new, Touching a b →
    ∃ a' ∈ old, ∃ b' ∈ old, Touching a' b' ∧ b'.limit ≤ b.limit

theorem TouchOld.trans {x y z : List Region} (hxy : TouchOld x y) (hyz : TouchOld y z) :
    TouchOld x z := by
  intro a ha b hb htouch
  obtain ⟨a', ha', b', hb', htouch', hle⟩ := hyz a ha b hb htouch
  obtain ⟨a'', ha'', b'', hb'', htouch'', hle'⟩ := hxy a' ha' b' hb' htouch'
  exact ⟨a'', ha'', b'', hb'', htouch'', Nat.le_trans hle' hle⟩

theorem TouchOld.coalesced {old new : List Region} (h : TouchOld old new) (hok : TableOk old)
    (hok' : TableOk new) (hcoalesced : Coalesced old) : Coalesced new := by
  rw [coalesced_iff hok']
  intro a ha b hb htouch
  obtain ⟨a', ha', b', hb', htouch', _⟩ := h a ha b hb htouch
  exact (coalesced_iff hok).mp hcoalesced a' ha' b' hb' htouch'

/-! One cut -/

theorem Beyond.lt_limit {start : Nat} {r : Region} (h : Beyond start r) (hr : r.Ok) :
    start < r.limit := by
  rcases h with hend | hbase
  · exact Nat.lt_of_lt_of_le hend hr.endAddr_le_limit
  · exact Nat.lt_trans hbase hr.base_lt_limit

theorem Beyond.lt_base_of_top {start : Nat} {r : Region} (h : Beyond start r)
    (htop : r.limit = 4294967296) : start < r.base := by
  rcases h with hend | hbase
  · rw [Region.endAddr_eq_zero htop] at hend
    exact absurd hend (Nat.not_lt_zero _)
  · exact hbase

/-- The pieces of a cut tile the region and are well formed. -/
theorem carve_tiles {start stop : Nat} {r : Region} (hr : r.Ok)
    (hrange : PageRange start stop) (hbase : r.base < stop) (hbeyond : Beyond start r) :
    Tiles Region.base Region.limit r.base (carve start stop r) r.limit ∧
      ∀ p ∈ carve start stop r, p.Ok := by
  have hpos := hr.base_lt_limit
  have hstart := hrange.start_lt_stop
  by_cases hfree : r.kind = .rFree
  · simp only [carve, hfree, ↓reduceIte, List.mem_singleton, forall_eq]
    exact ⟨⟨rfl, hpos, rfl⟩, hr⟩
  rcases Nat.lt_or_eq_of_le hr.limit_le with htop | htop
  · have hlimit := hbeyond.lt_limit hr
    obtain ⟨freed, hfreed, heq⟩ := carve_eq hr hfree htop ⟨hrange, hbase, hlimit⟩
    rw [heq]
    have hfbase := hfreed.base_eq
    have hflimit := hfreed.limit_eq
    have hfok : freed.Ok := by
      refine hfreed.ok (by omega) (by omega) ?_ ?_
      · rcases Nat.le_total r.base start with hle | hle
        · rw [Nat.max_eq_right hle]; exact hrange.start_dvd
        · rw [Nat.max_eq_left hle]; exact hr.base_dvd
      · rcases Nat.le_total r.limit stop with hle | hle
        · rw [Nat.min_eq_left hle]; exact hr.limit_dvd
        · rw [Nat.min_eq_right hle]; exact hrange.stop_dvd
    have htail : Tiles Region.base Region.limit (min r.limit stop)
        (if stop < r.limit then [r.tailFrom stop] else []) r.limit ∧
          ∀ p ∈ (if stop < r.limit then [r.tailFrom stop] else []), p.Ok := by
      by_cases hlt : stop < r.limit
      · obtain ⟨htbase, htlimit⟩ := Region.tailFrom_span hlt htop
        simp only [hlt, ↓reduceIte, List.mem_singleton, forall_eq]
        refine ⟨⟨by omega, by omega, htlimit⟩, ?_⟩
        exact Region.tailFrom_ok hr hlt (Nat.le_of_lt hbase) htop hrange.stop_dvd hfree
      · simp only [hlt, ↓reduceIte, List.not_mem_nil, false_implies, implies_true, and_true]
        exact Nat.min_eq_left (Nat.le_of_not_lt hlt)
    have hmid : Tiles Region.base Region.limit (max r.base start)
        (freed :: (if stop < r.limit then [r.tailFrom stop] else [])) r.limit :=
      ⟨hfbase, by omega, by rw [hflimit]; exact htail.1⟩
    by_cases hhead : r.base < start
    · obtain ⟨hhbase, hhlimit⟩ := Region.headTo_span hhead
        (Nat.lt_trans hrange.start_lt_stop hrange.stop_lt)
      have hhok := Region.headTo_ok hr hhead hlimit hrange.start_dvd hfree
      have hmax : max r.base start = start := by omega
      simp only [hhead, ↓reduceIte, List.cons_append, List.nil_append]
      refine ⟨⟨hhbase, by omega, ?_⟩, ?_⟩
      · rw [hhlimit, ← hmax]
        exact hmid
      · intro p hp
        rcases List.mem_cons.mp hp with rfl | hp
        · exact hhok
        · rcases List.mem_cons.mp hp with rfl | hp
          · exact hfok
          · exact htail.2 p hp
    · have hmax : max r.base start = r.base := by omega
      rw [hmax] at hmid
      simp only [hhead, ↓reduceIte, List.nil_append]
      refine ⟨hmid, ?_⟩
      intro p hp
      rcases List.mem_cons.mp hp with rfl | hp
      · exact hfok
      · exact htail.2 p hp
  · have hlt := hbeyond.lt_base_of_top htop
    rw [carve_eq_of_top hfree htop (by omega) hlt]
    have hwhole : IsFreed (r.toFree r.len) r.base r.limit := ⟨rfl, rfl, rfl, rfl, rfl⟩
    refine ⟨⟨rfl, hpos, rfl⟩, ?_⟩
    intro p hp
    rw [List.mem_singleton.mp hp]
    exact hwhole.ok hpos hr.limit_le hr.base_dvd hr.limit_dvd

theorem carveAll_refines {start stop : Nat} {post : List Region}
    (hok : ∀ r ∈ post, r.Ok) (hrange : PageRange start stop)
    (hbeyond : ∀ r ∈ post, Beyond start r) :
    Refines post (carveAll start stop post) ∧
      ∀ p ∈ carveAll start stop post, p.Ok := by
  induction post with
  | nil => exact ⟨.nil, by simp [carveAll]⟩
  | cons r rest ih =>
      by_cases hlt : r.base < stop
      · obtain ⟨htile, hpieces⟩ := carve_tiles (hok r List.mem_cons_self) hrange hlt
          (hbeyond r List.mem_cons_self)
        obtain ⟨hsub, hrest⟩ := ih (fun q hq => hok q (List.mem_cons_of_mem r hq))
          fun q hq => hbeyond q (List.mem_cons_of_mem r hq)
        simp only [carveAll, hlt, ↓reduceIte]
        refine ⟨.cons htile hsub, ?_⟩
        intro p hp
        rcases List.mem_append.mp hp with hp | hp
        · exact hpieces p hp
        · exact hrest p hp
      · simp only [carveAll, hlt, ↓reduceIte]
        exact ⟨Subdivides.refl_of_pos fun q hq => (hok q hq).base_lt_limit, hok⟩

/-! Coalescing -/

theorem mergeRegions_limit {r next : Region} (hmeet : r.limit = next.base)
    (hlen : r.len + next.len < 4294967296) :
    (mergeRegions r next).limit = next.limit := by
  simp only [mergeRegions, Region.limit, wrap_of_lt hlen] at *
  omega

theorem Proper.tail {r : Region} {rest : List Region} (h : Proper (r :: rest)) :
    Proper rest :=
  fun hcov => h ⟨covers_cons.mpr (Or.inr hcov.1), covers_cons.mpr (Or.inr hcov.2)⟩

theorem BelowTop.proper {regs : List Region} (hok : TableOk regs)
    (htop : BelowTop regs) : Proper regs :=
  fun hcov => (belowTop_iff hok.regions).mp htop hcov.2

theorem TableOk.tail {r : Region} {rest : List Region} (h : TableOk (r :: rest)) :
    TableOk rest :=
  ⟨(List.pairwise_cons.mp h.ordered).2, fun q hq => h.regions q (List.mem_cons_of_mem r hq)⟩

/-- Two touching regions of a proper table are shorter than the address space,
so the length of the merged region does not wrap. -/
theorem touching_len_lt {r next : Region} {rest : List Region}
    (hok : TableOk (r :: next :: rest)) (hproper : Proper (r :: next :: rest))
    (hmeet : r.limit = next.base) : r.len + next.len < 4294967296 := by
  have hrpos := (hok.regions r List.mem_cons_self).len_pos
  have hnext := hok.regions next (by simp)
  have hnpos := hnext.len_pos
  have hnlimit := hnext.limit_le
  by_contra hnot
  unfold Region.limit at hmeet hnlimit
  have hfirst : Covered (r :: next :: rest) 0 :=
    ⟨r, List.mem_cons_self, by omega, by simp only [Region.limit]; omega⟩
  have hlast : Covered (r :: next :: rest) 4294967295 :=
    ⟨next, by simp, by omega, by simp only [Region.limit]; omega⟩
  exact hproper ⟨hfirst, hlast⟩

/-- Merging two touching free regions at the front of a table. -/
theorem merge_front {r next : Region} {rest : List Region}
    (hok : TableOk (r :: next :: rest)) (hproper : Proper (r :: next :: rest))
    (hfree : r.kind = .rFree) (hmeet : r.limit = next.base) :
    TableOk (mergeRegions r next :: rest) ∧
      Refines (mergeRegions r next :: rest) (r :: next :: rest) := by
  have hr := hok.regions r List.mem_cons_self
  have hnext := hok.regions next (by simp)
  have hlen := touching_len_lt hok hproper hmeet
  have hlimit := mergeRegions_limit hmeet hlen
  have hmerged : (mergeRegions r next).Ok := by
    refine ⟨hr.base_dvd, ?_, ?_, ?_, fun _ => ?_, fun _ => hr.free_fref hfree, ?_⟩
    · simp only [mergeRegions, wrap_of_lt hlen]
      exact Nat.dvd_add hr.len_dvd hnext.len_dvd
    · simp only [mergeRegions, wrap_of_lt hlen]
      exact Nat.lt_of_lt_of_le hr.len_pos (Nat.le_add_right _ _)
    · rw [hlimit]
      exact hnext.limit_le
    · simp [mergeRegions, hr.free_dirty hfree]
    · intro hfile
      exact absurd (hfree.symm.trans hfile) (by decide)
  have htail := List.pairwise_cons.mp hok.tail.ordered
  have htile : Tiles Region.base Region.limit (mergeRegions r next).base
      [r, next] (mergeRegions r next).limit := by
    rw [hlimit]
    exact ⟨rfl, hr.base_lt_limit, hmeet.symm, hmeet ▸ hnext.base_lt_limit, rfl⟩
  constructor
  · refine ⟨List.pairwise_cons.mpr ⟨?_, htail.2⟩, ?_⟩
    · intro q hq
      rw [hlimit]
      exact htail.1 q hq
    · intro q hq
      rcases List.mem_cons.mp hq with rfl | hq
      · exact hmerged
      · exact hok.tail.regions q (List.mem_cons_of_mem next hq)
  · exact .cons htile (Subdivides.refl_of_pos hok.tail.tail.base_pos)

/-- In an ordered table the neighbour of a region ends the region below the
top, so its end does not wrap. -/
theorem endAddr_eq_base_iff {r next : Region} {rest : List Region}
    (hok : TableOk (r :: next :: rest)) :
    r.endAddr = next.base ↔ r.limit = next.base := by
  have hgap := (List.pairwise_cons.mp hok.ordered).1 next List.mem_cons_self
  have hnext := (hok.regions next (by simp)).base_lt_top
  rw [Region.endAddr_eq_limit (Nat.lt_of_le_of_lt hgap hnext)]

/-- Coalescing gives a coarser well-formed table. -/
theorem coalesceFrom_refines (stop : Nat) {r : Region} {rest : List Region}
    (hok : TableOk (r :: rest)) (hproper : Proper (r :: rest)) :
    Refines (coalesceFrom stop r rest) (r :: rest) ∧
      ∀ p ∈ coalesceFrom stop r rest, p.Ok := by
  induction rest generalizing r with
  | nil =>
      refine ⟨Subdivides.refl_of_pos hok.base_pos, ?_⟩
      simpa [coalesceFrom] using hok.regions r List.mem_cons_self
  | cons next rest ih =>
      have hr := hok.regions r List.mem_cons_self
      simp only [coalesceFrom, endAddr_eq_base_iff hok]
      split
      · split
        · rename_i htouch
          obtain ⟨hmtable, hmsub⟩ := merge_front hok hproper htouch.1 htouch.2.2
          obtain ⟨hsub, hall⟩ := ih hmtable (hmsub.proper.mp hproper)
          exact ⟨hsub.trans hmsub, hall⟩
        · obtain ⟨hsub, hall⟩ := ih hok.tail hproper.tail
          have htile : Tiles Region.base Region.limit r.base [r] r.limit :=
            ⟨rfl, hr.base_lt_limit, rfl⟩
          refine ⟨.cons htile hsub, ?_⟩
          intro p hp
          rcases List.mem_cons.mp hp with rfl | hp
          · exact hr
          · exact hall p hp
      · exact ⟨Subdivides.refl_of_pos hok.base_pos, hok.regions⟩

/-- The merged table starts with a region of the same base and kind. -/
theorem coalesceFrom_head (stop : Nat) (r : Region) (rest : List Region) :
    ∃ head tail, coalesceFrom stop r rest = head :: tail ∧
      head.base = r.base ∧ head.kind = r.kind := by
  induction rest generalizing r with
  | nil => exact ⟨r, [], rfl, rfl, rfl⟩
  | cons next rest ih =>
      simp only [coalesceFrom]
      split
      · split
        · obtain ⟨head, tail, heq, hbase, hkind⟩ := ih (mergeRegions r next)
          exact ⟨head, tail, heq, hbase, hkind⟩
        · exact ⟨r, _, rfl, rfl, rfl⟩
      · exact ⟨r, _, rfl, rfl, rfl⟩

/-- No two touching free regions are left where the loop has been. -/
theorem coalesceFrom_merged (stop : Nat) {r : Region} {rest : List Region}
    (hok : TableOk (r :: rest)) (hproper : Proper (r :: rest)) :
    (coalesceFrom stop r rest).IsChain fun a b => a.base ≤ stop → ¬ Touching a b := by
  induction rest generalizing r with
  | nil => exact List.isChain_singleton r
  | cons next rest ih =>
      simp only [coalesceFrom, endAddr_eq_base_iff hok]
      split
      · split
        · rename_i htouch
          obtain ⟨hmtable, hmsub⟩ := merge_front hok hproper htouch.1 htouch.2.2
          exact ih hmtable (hmsub.proper.mp hproper)
        · rename_i hapart
          obtain ⟨head, tail, heq, hbase, hkind⟩ := coalesceFrom_head stop next rest
          have hrest := ih hok.tail hproper.tail
          rw [heq] at hrest ⊢
          refine List.isChain_cons_cons.mpr ⟨?_, hrest⟩
          rintro - ⟨hr, hhead, hmeet⟩
          exact hapart ⟨hr, hkind ▸ hhead, hbase ▸ hmeet⟩
      · rename_i hgt
        refine List.Pairwise.isChain (List.pairwise_of_forall_mem_list ?_)
        intro a ha b _ hle
        have hbase : r.base ≤ a.base := by
          rcases List.mem_cons.mp ha with rfl | ha
          · exact Nat.le_refl _
          · have hgap := (List.pairwise_cons.mp hok.ordered).1 a ha
            have hpos := (hok.regions r List.mem_cons_self).base_lt_limit
            omega
        exact absurd (Nat.le_trans hbase hle) hgt

/-- A merged region starts where the loop has been. -/
theorem coalesceFrom_mem_cases {stop : Nat} {r m : Region} {rest : List Region}
    (h : m ∈ coalesceFrom stop r rest) : m ∈ r :: rest ∨ m.base ≤ stop := by
  induction rest generalizing r with
  | nil => exact Or.inl h
  | cons next rest ih =>
      simp only [coalesceFrom] at h
      split at h
      · rename_i hle
        split at h
        · rcases ih h with hmem | hbase
          · rcases List.mem_cons.mp hmem with rfl | hmem
            · exact Or.inr hle
            · exact Or.inl (by simp [hmem])
          · exact Or.inr hbase
        · rcases List.mem_cons.mp h with rfl | h
          · exact Or.inl List.mem_cons_self
          · exact (ih h).imp_left (List.mem_cons_of_mem r)
      · exact Or.inl h

/-! Live regions -/

/-- The live mappings with all their metadata, in the order of the table. -/
def liveRegions (regs : List Region) : List Region :=
  regs.filter fun r => decide (r.kind ≠ .rFree)

theorem mem_liveRegions {regs : List Region} {r : Region} :
    r ∈ liveRegions regs ↔ r ∈ regs ∧ r.kind ≠ .rFree := by
  simp only [liveRegions, List.mem_filter, decide_eq_true_eq]

theorem liveRegions_append (pre post : List Region) :
    liveRegions (pre ++ post) = liveRegions pre ++ liveRegions post :=
  List.filter_append pre post

theorem liveRegions_cons_free {r : Region} (hfree : r.kind = .rFree)
    (rest : List Region) : liveRegions (r :: rest) = liveRegions rest :=
  List.filter_cons_of_neg (by simpa using hfree)

/-- Merging concerns free regions only. -/
theorem coalesceFrom_live (stop : Nat) (r : Region) (rest : List Region) :
    liveRegions (coalesceFrom stop r rest) = liveRegions (r :: rest) := by
  induction rest generalizing r with
  | nil => rfl
  | cons next rest ih =>
      simp only [coalesceFrom]
      split
      · split
        · rename_i htouch
          have hmerged : (mergeRegions r next).kind = .rFree := htouch.1
          rw [ih, liveRegions_cons_free hmerged, liveRegions_cons_free htouch.1,
            liveRegions_cons_free htouch.2.1]
        · have hstep := congrArg (liveRegions [r] ++ ·) (ih next)
          simpa only [← liveRegions_append, List.singleton_append] using hstep
      · rfl

/-- A free region of a coarser table with the same live regions consists of free
regions. -/
theorem Refines.free_at {coarse fine : List Region} (h : Refines coarse fine)
    (hok : TableOk coarse) (hlive : liveRegions coarse = liveRegions fine) {c : Region}
    {x : Nat} (hc : c ∈ coarse) (hfree : c.kind = .rFree)
    (hx : Holds Region.base Region.limit c x) :
    ∃ p ∈ fine, p.kind = .rFree ∧ Holds Region.base Region.limit p x ∧
      c.base ≤ p.base ∧ p.limit ≤ c.limit := by
  obtain ⟨p, hp, hpx⟩ := (h.covers_iff x).mpr ⟨c, hc, hx⟩
  obtain ⟨c', hc', hlow, hhigh⟩ := h.exists_coarse hp
  obtain rfl : c' = c := eq_of_holds hok.ordered hc' hc
    ⟨Nat.le_trans hlow hpx.1, Nat.lt_of_lt_of_le hpx.2 hhigh⟩ hx
  refine ⟨p, hp, ?_, hpx, hlow, hhigh⟩
  by_contra hplive
  have hmem : p ∈ liveRegions coarse := hlive ▸ mem_liveRegions.mpr ⟨hp, hplive⟩
  obtain rfl : p = c' := eq_of_holds hok.ordered (mem_liveRegions.mp hmem).1 hc hpx hx
  exact hplive hfree

/-- Where two free regions touch in the coarser table, two of the finer one do. -/
theorem Refines.touching {coarse fine : List Region} (h : Refines coarse fine)
    (hok : TableOk coarse) (hlive : liveRegions coarse = liveRegions fine) {a b : Region}
    (ha : a ∈ coarse) (hb : b ∈ coarse) (htouch : Touching a b) :
    ∃ a' ∈ fine, ∃ b' ∈ fine, Touching a' b' ∧ a.base ≤ a'.base ∧
      b'.base = b.base ∧ b'.limit ≤ b.limit := by
  obtain ⟨hafree, hbfree, hmeet⟩ := htouch
  have hapos := (hok.regions a ha).base_lt_limit
  have hbpos := (hok.regions b hb).base_lt_limit
  have hlast : Holds Region.base Region.limit a (a.limit - 1) := ⟨by omega, by omega⟩
  obtain ⟨a', ha', hafree', hax, halow, hahigh⟩ := h.free_at hok hlive ha hafree hlast
  obtain ⟨b', hb', hbfree', hbx, hblow, hbhigh⟩ :=
    h.free_at hok hlive hb hbfree ⟨Nat.le_refl _, hbpos⟩
  have hbase : b'.base = b.base := Nat.le_antisymm hbx.1 hblow
  have hlimit := hax.2
  exact ⟨a', ha', b', hb', ⟨hafree', hbfree', by omega⟩, halow, hbase, hbhigh⟩

/-! `coalesce_around` -/

/-- The merge loop starts at some region and rewrites the table from there. -/
theorem coalesceAround_regs {start stop : Nat} {st : State} {pre rest : List Region}
    {r : Region} (hregs : st.regs = pre ++ r :: rest)
    (hidx : firstOverlap start st.regs - 1 = pre.length) :
    (coalesceAround start stop st).regs = pre ++ coalesceFrom stop r rest := by
  unfold coalesceAround
  rw [hidx, coalesceLoop_eq hregs]
  rw [hregs]
  simp only [List.length_append, List.length_cons]
  omega

theorem coalesceAround_nil {start stop : Nat} {st : State} (hregs : st.regs = []) :
    coalesceAround start stop st = st := by
  unfold coalesceAround
  rw [hregs]
  rfl

/-- The two cases of `coalesce_around`: no region, or a first one to merge. -/
theorem coalesceAround_cases (start stop : Nat) (st : State) :
    (st.regs = [] ∧ coalesceAround start stop st = st) ∨
      ∃ pre r rest, st.regs = pre ++ r :: rest ∧
        firstOverlap start st.regs - 1 = pre.length ∧
        (coalesceAround start stop st).regs = pre ++ coalesceFrom stop r rest := by
  by_cases hnil : st.regs = []
  · exact Or.inl ⟨hnil, coalesceAround_nil hnil⟩
  have hlt : firstOverlap start st.regs - 1 < st.regs.length := by
    have hle := firstOverlap_le start st.regs
    have hpos := List.length_pos_iff.mpr hnil
    omega
  obtain ⟨pre, r, rest, hregs, hlen⟩ := exists_boundary hlt
  exact Or.inr ⟨pre, r, rest, hregs, hlen.symm, coalesceAround_regs hregs hlen.symm⟩

theorem Proper.append_right {pre post : List Region} (h : Proper (pre ++ post)) :
    Proper post := fun hcov =>
  h ⟨covers_append.mpr (Or.inr hcov.1), covers_append.mpr (Or.inr hcov.2)⟩

theorem coalesceAround_refines (start stop : Nat) {st : State} (hok : TableOk st.regs)
    (hproper : Proper st.regs) :
    Refines (coalesceAround start stop st).regs st.regs ∧
      ∀ r ∈ (coalesceAround start stop st).regs, r.Ok := by
  rcases coalesceAround_cases start stop st with ⟨_, hsame⟩ |
    ⟨pre, r, rest, hregs, _, hregs'⟩
  · rw [hsame]
    exact ⟨Subdivides.refl_of_pos hok.base_pos, hok.regions⟩
  rw [hregs']
  rw [hregs] at hok hproper ⊢
  obtain ⟨hsub, hall⟩ := coalesceFrom_refines stop hok.append_right hproper.append_right
  refine ⟨(Subdivides.refl_of_pos hok.append_left.base_pos).append hsub, ?_⟩
  intro q hq
  rcases List.mem_append.mp hq with hq | hq
  · exact hok.append_left.regions q hq
  · exact hall q hq

theorem coalesceAround_live (start stop : Nat) (st : State) :
    liveRegions (coalesceAround start stop st).regs = liveRegions st.regs := by
  rcases coalesceAround_cases start stop st with ⟨_, hsame⟩ |
    ⟨pre, r, rest, hregs, _, hregs'⟩
  · rw [hsame]
  · rw [hregs', hregs, liveRegions_append, coalesceFrom_live, ← liveRegions_append]

theorem coalesceAround_ok (start stop : Nat) {st : State} (hok : TableOk st.regs)
    (hproper : Proper st.regs) : TableOk (coalesceAround start stop st).regs := by
  obtain ⟨hcoarse, hall⟩ := coalesceAround_refines start stop hok hproper
  exact ⟨hcoarse.ordered_coarse (fun p hp => (hall p hp).base_lt_limit) hok.ordered, hall⟩

/-- The search passes only regions that end at or before `start`. -/
def SearchOk (start : Nat) (regs : List Region) : Prop :=
  ∃ below above, regs = below ++ above ∧ firstOverlap start regs = below.length ∧
    ∀ r ∈ below, r.limit ≤ start

theorem TableOk.searchOk {regs : List Region} (h : TableOk regs) (htop : BelowTop regs)
    (start : Nat) : SearchOk start regs := by
  obtain ⟨below, above, hsplit, hidx, hbelow, _⟩ := h.firstOverlap_split htop start
  exact ⟨below, above, hsplit, hidx, hbelow⟩

/-- After a search that found its place, two free regions touch only where two
did, outside the vicinity of the range. -/
theorem coalesceAround_touching {start stop : Nat} {st : State} (hok : TableOk st.regs)
    (hproper : Proper st.regs) (hsearch : SearchOk start st.regs) {a b : Region}
    (ha : a ∈ (coalesceAround start stop st).regs)
    (hb : b ∈ (coalesceAround start stop st).regs) (htouch : Touching a b) :
    ∃ a' ∈ st.regs, ∃ b' ∈ st.regs, Touching a' b' ∧ b'.limit ≤ b.limit ∧
      (b'.limit ≤ start ∨ stop < a'.base) := by
  have hok' := coalesceAround_ok start stop hok hproper
  obtain ⟨hcoarse, _⟩ := coalesceAround_refines start stop hok hproper
  obtain ⟨a', ha', b', hb', htouch', hbase, hbbase, hlimit⟩ :=
    hcoarse.touching hok' (coalesceAround_live start stop st) ha hb htouch
  refine ⟨a', ha', b', hb', htouch', hlimit, ?_⟩
  by_contra hnear
  rw [not_or, Nat.not_le, Nat.not_lt] at hnear
  rcases coalesceAround_cases start stop st with ⟨hnil, _⟩ | ⟨pre, r, rest, hregs, hlen, hregs'⟩
  · rw [hnil] at ha'
    cases ha'
  obtain ⟨below, above, hsplit, hidx, hbelow⟩ := hsearch
  -- behind the index everything ends at or before `start`
  have hpre : ∀ q ∈ pre, q.limit ≤ start ∧ r.limit ≤ start := by
    intro q hq
    have hprelen : pre.length + 1 = below.length := by
      have hpos := List.length_pos_of_mem hq
      omega
    have hsame : below ++ above = (pre ++ [r]) ++ rest := by
      simpa using hsplit.symm.trans hregs
    obtain ⟨rfl, -⟩ := List.append_inj hsame (by simp [hprelen])
    exact ⟨hbelow q (by simp [hq]), hbelow r (by simp)⟩
  have hapos := (hok'.regions a ha).base_lt_limit
  have hmeet := htouch.2.2
  rw [hregs'] at ha hb hok'
  have hord := List.pairwise_append.mp hok'.ordered
  have hbehind : b ∈ coalesceFrom stop r rest := by
    rcases List.mem_append.mp hb with hb | hb
    · have hend := (hpre b hb).1
      omega
    · exact hb
  rcases List.mem_append.mp ha with hafront | habehind
  · -- then `b` starts with the region the loop starts with
    obtain ⟨head, tail, heq, hhead, _⟩ := coalesceFrom_head stop r rest
    rw [heq] at hord hbehind
    have hgap := hord.2.2 a hafront head List.mem_cons_self
    have hfirst : b = head := by
      rcases List.mem_cons.mp hbehind with hsame | hbehind
      · exact hsame
      · have hnext := (List.pairwise_cons.mp hord.2.1).1 b hbehind
        have hpos := (hok'.regions head (by rw [heq]; simp)).base_lt_limit
        omega
    have hr : r ∈ st.regs := by rw [hregs]; simp
    have hsame : b' = r := by
      refine eq_of_holds hok.ordered hb' hr ⟨Nat.le_refl _, hok.base_pos b' hb'⟩ ?_
      have hrpos := hok.base_pos r hr
      rw [hbbase, hfirst, hhead]
      exact ⟨Nat.le_refl _, hrpos⟩
    have hend := (hpre a hafront).2
    rw [hsame] at hnear
    omega
  · rw [hregs] at hok hproper
    have hchain : (coalesceFrom stop r rest).IsChain fun a b =>
        a.limit = b.base → a.base ≤ stop → ¬ (a.kind = .rFree ∧ b.kind = .rFree) :=
      (coalesceFrom_merged stop hok.append_right hproper.append_right).imp
        fun a b hnot hmeet hle hfree => hnot hle ⟨hfree.1, hfree.2, hmeet⟩
    exact forall_touching_of_isChain hok'.append_right.ordered hok'.append_right.base_pos hchain
      a habehind b hbehind hmeet (Nat.le_trans hbase hnear.2) ⟨htouch.1, htouch.2.1⟩

/-- Free regions touch at most where the range was. -/
def Settled (start stop : Nat) (regs : List Region) : Prop :=
  ∀ a ∈ regs, ∀ b ∈ regs, b.limit ≤ start ∨ stop < a.base → ¬ Touching a b

theorem coalesceAround_coalesced {start stop : Nat} {st : State} (hok : TableOk st.regs)
    (hproper : Proper st.regs) (hsearch : SearchOk start st.regs)
    (hsettled : Settled start stop st.regs) :
    Coalesced (coalesceAround start stop st).regs := by
  rw [coalesced_iff (coalesceAround_ok start stop hok hproper)]
  intro a ha b hb htouch
  obtain ⟨a', ha', b', hb', htouch', _, hfar⟩ :=
    coalesceAround_touching hok hproper hsearch ha hb htouch
  exact hsettled a' ha' b' hb' hfar htouch'

/-! `unmap_range` -/

/-- Whatever index the search returns, no region behind it ends at or before
`start`, except one that ends at the top. -/
theorem firstOverlap_beyond {start : Nat} {pre post : List Region}
    (hok : TableOk (pre ++ post))
    (hidx : firstOverlap start (pre ++ post) = pre.length) :
    ∀ r ∈ post, Beyond start r := by
  cases post with
  | nil => simp
  | cons r rest =>
      have hend := firstOverlap_endAddr hidx
      have hr := hok.append_right.regions r List.mem_cons_self
      intro q hq
      rcases List.mem_cons.mp hq with rfl | hq
      · exact Or.inl hend
      · have hgap := (List.pairwise_cons.mp hok.append_right.ordered).1 q hq
        have hle := hr.endAddr_le_limit
        exact Or.inr (by omega)

/-- From a region of the table on, the search passes all regions in front of
it. -/
theorem firstOverlap_reached {live : Region} {pre post front behind : List Region}
    (hok : TableOk (pre ++ post))
    (hidx : firstOverlap live.base (pre ++ post) = pre.length)
    (hlive : pre ++ post = front ++ live :: behind) :
    ∀ r ∈ post, r = live ∨ live.limit ≤ r.base := by
  intro r hr
  have hrok := hok.regions r (List.mem_append_right pre hr)
  have habove := (firstOverlap_beyond hok hidx r hr).lt_limit hrok
  have hmem : r ∈ front ++ live :: behind := hlive ▸ List.mem_append_right pre hr
  have hord := hok.ordered
  rw [hlive] at hord
  obtain ⟨_, htail, hcross⟩ := List.pairwise_append.mp hord
  rcases List.mem_append.mp hmem with hbefore | hrest
  · -- a region in front of `live` ends where it starts at the latest
    have hle : r.limit ≤ live.base := hcross r hbefore _ List.mem_cons_self
    omega
  · rcases List.mem_cons.mp hrest with rfl | hbehind
    · exact Or.inl rfl
    · exact Or.inr ((List.pairwise_cons.mp htail).1 r hbehind)

/-- A free region left in the range is an old one or meets the range. -/
theorem carveAll_free_mem {start stop : Nat} {post : List Region}
    (hok : ∀ r ∈ post, r.Ok) (hrange : PageRange start stop)
    (hbeyond : ∀ r ∈ post, Beyond start r) {p : Region}
    (hp : p ∈ carveAll start stop post) (hfree : p.kind = .rFree) :
    p ∈ post ∨ start < p.limit ∧ p.base < stop := by
  induction post with
  | nil => simp [carveAll] at hp
  | cons r rest ih =>
      have hr := hok r List.mem_cons_self
      have hrbeyond := hbeyond r List.mem_cons_self
      have hrabove := hrbeyond.lt_limit hr
      have hstart := hrange.start_lt_stop
      by_cases hlt : r.base < stop
      · simp only [carveAll, hlt, ↓reduceIte] at hp
        rcases List.mem_append.mp hp with hpiece | hrest
        · by_cases hlive : r.kind = .rFree
          · simp only [carve, hlive, ↓reduceIte, List.mem_singleton] at hpiece
            exact Or.inl (hpiece ▸ List.mem_cons_self)
          · rcases Nat.lt_or_eq_of_le hr.limit_le with hrtop | hrtop
            · obtain ⟨freed, hfreed, heq⟩ := carve_eq hr hlive hrtop ⟨hrange, hlt, hrabove⟩
              rw [heq] at hpiece
              have hfbase := hfreed.base_eq
              have hflimit := hfreed.limit_eq
              rcases List.mem_append.mp hpiece with hhead | htail
              · -- the head keeps the kind of `r`
                split at hhead
                · rw [List.mem_singleton.mp hhead] at hfree
                  exact absurd hfree hlive
                · simp at hhead
              · rcases List.mem_cons.mp htail with rfl | htail
                · right
                  omega
                · split at htail
                  · rw [List.mem_singleton.mp htail] at hfree
                    exact absurd hfree hlive
                  · simp at htail
            · rw [carve_eq_of_top hlive hrtop (by omega) (hrbeyond.lt_base_of_top hrtop),
                List.mem_singleton] at hpiece
              rw [hpiece]
              exact Or.inr ⟨hrabove, hlt⟩
        · rcases ih (fun q hq => hok q (List.mem_cons_of_mem r hq))
            (fun q hq => hbeyond q (List.mem_cons_of_mem r hq)) hrest with hold | hmeets
          · exact Or.inl (List.mem_cons_of_mem r hold)
          · exact Or.inr hmeets
      · simp only [carveAll, hlt, ↓reduceIte] at hp
        exact Or.inl hp

/-- Outside the range, cutting leaves free regions that touch where two did. -/
theorem carveAll_touching {start stop : Nat} {pre post : List Region}
    (hok : TableOk (pre ++ post)) (hrange : PageRange start stop)
    (hbeyond : ∀ r ∈ post, Beyond start r) {a b : Region}
    (ha : a ∈ pre ++ carveAll start stop post) (hb : b ∈ pre ++ carveAll start stop post)
    (htouch : Touching a b) (hfar : b.limit ≤ start ∨ stop < a.base) :
    a ∈ pre ++ post ∧ b ∈ pre ++ post := by
  obtain ⟨hafree, hbfree, hmeet⟩ := htouch
  have hstart := hrange.start_lt_stop
  have hfresh : ∀ p ∈ pre ++ carveAll start stop post, p.kind = .rFree →
      p ∈ pre ++ post ∨ start < p.limit ∧ p.base < stop := by
    intro p hp hfree
    rcases List.mem_append.mp hp with hp | hp
    · exact Or.inl (List.mem_append_left post hp)
    · exact (carveAll_free_mem hok.append_right.regions hrange hbeyond hp hfree).imp_left
        (List.mem_append_right pre)
  rcases hfresh a ha hafree with ha' | ha'
  · rcases hfresh b hb hbfree with hb' | hb'
    · exact ⟨ha', hb'⟩
    · have hapos := hok.base_pos a ha'
      omega
  · have hbpos : b.base < b.limit := by
      rcases hfresh b hb hbfree with hb' | hb'
      · exact hok.base_pos b hb'
      · omega
    omega

/-- What a call to `unmap_range` can be asked to do: a range of whole pages,
or one whose end wrapped to `0`. -/
def UnmapRange (start stop : Nat) : Prop := PageRange start stop ∨ stop = 0

theorem unmapRange_spec {start stop : Nat} {ans : PwriteAnswers} {st st' : State}
    (h : unmapRange start stop ans st = .ok st') :
    ∃ pre post st₁, st.regs = pre ++ post ∧
      firstOverlap start st.regs = pre.length ∧
      UnmapTurns start stop pre post st st₁ ∧ st' = coalesceAround start stop st₁ := by
  obtain ⟨⟨ans₁, st₁⟩, hloop, hrest⟩ := bind_eq_ok h
  obtain ⟨pre, post, hregs, hlen⟩ := exists_split (firstOverlap_le start st.regs)
  have hfuel : post.length ≤ st.regs.length := by
    rw [hregs, List.length_append]
    exact Nat.le_add_left _ _
  rw [← hlen] at hloop
  exact ⟨pre, post, st₁, hregs, hlen.symm, unmapLoop_turns hregs hfuel hloop,
    (Except.ok.inj hrest).symm⟩

theorem unmapRange_samePool {start stop : Nat} {ans : PwriteAnswers} {st st' : State}
    (h : unmapRange start stop ans st = .ok st') : SamePool st st' := by
  obtain ⟨_, _, st₁, _, _, hturns, rfl⟩ := unmapRange_spec h
  exact hturns.samePool.trans (coalesceAround_samePool start stop st₁)

theorem carveAll_zero (start : Nat) (post : List Region) : carveAll start 0 post = post := by
  cases post <;> simp [carveAll]

/-- The table between the two loops. -/
theorem carved_ok {start stop : Nat} {pre post : List Region}
    (hok : TableOk (pre ++ post)) (hrange : UnmapRange start stop)
    (hidx : firstOverlap start (pre ++ post) = pre.length) :
    Refines (pre ++ post) (pre ++ carveAll start stop post) ∧
      TableOk (pre ++ carveAll start stop post) := by
  have hcut : Refines post (carveAll start stop post) ∧
      ∀ p ∈ carveAll start stop post, p.Ok := by
    rcases hrange with hrange | rfl
    · exact carveAll_refines hok.append_right.regions hrange
        (firstOverlap_beyond hok hidx)
    · rw [carveAll_zero]
      exact ⟨Subdivides.refl_of_pos hok.append_right.base_pos, hok.append_right.regions⟩
  have hfine := (Subdivides.refl_of_pos hok.append_left.base_pos).append hcut.1
  refine ⟨hfine, hfine.ordered hok.ordered, ?_⟩
  intro p hp
  rcases List.mem_append.mp hp with hp | hp
  · exact hok.append_left.regions p hp
  · exact hcut.2 p hp

/-- Unmapping keeps the table well formed and the covered addresses. -/
theorem unmapRange_ok {start stop : Nat} {ans : PwriteAnswers} {st st' : State}
    (hok : TableOk st.regs) (hproper : Proper st.regs) (hrange : UnmapRange start stop)
    (h : unmapRange start stop ans st = .ok st') :
    TableOk st'.regs ∧ ∀ x, Covered st'.regs x ↔ Covered st.regs x := by
  obtain ⟨pre, post, st₁, hregs, hidx, hturns, rfl⟩ := unmapRange_spec h
  have hcarved := hturns.regs hregs
  rw [hregs] at hok hproper hidx
  obtain ⟨hfine, hok₁⟩ := carved_ok hok hrange hidx
  rw [← hcarved] at hfine hok₁
  obtain ⟨hcoarse, hall⟩ :=
    coalesceAround_refines start stop hok₁ (hfine.proper.mpr hproper)
  refine ⟨⟨?_, hall⟩, ?_⟩
  · exact hcoarse.ordered_coarse (fun p hp => (hall p hp).base_lt_limit) hok₁.ordered
  · intro x
    rw [hregs]
    exact (hcoarse.covers_iff x).symm.trans (hfine.covers_iff x)

/-- Below the top of the address space unmapping leaves no two touching free
regions. -/
theorem unmapRange_coalesced {start stop : Nat} {ans : PwriteAnswers} {st st' : State}
    (hok : TableOk st.regs) (htop : BelowTop st.regs) (hcoalesced : Coalesced st.regs)
    (hrange : PageRange start stop) (h : unmapRange start stop ans st = .ok st') :
    Coalesced st'.regs := by
  obtain ⟨pre, post, st₁, hregs, hidx, hturns, rfl⟩ := unmapRange_spec h
  have hcarved := hturns.regs hregs
  rw [hregs] at hok htop hcoalesced hidx
  obtain ⟨hfine, hok₁⟩ := carved_ok hok (Or.inl hrange) hidx
  have htop₁ := hfine.belowTop htop
  rw [← hcarved] at hok₁ htop₁
  refine coalesceAround_coalesced hok₁ (htop₁.proper hok₁) (hok₁.searchOk htop₁ start) ?_
  intro a ha b hb hfar htouch
  rw [hcarved] at ha hb
  obtain ⟨ha', hb'⟩ := carveAll_touching hok hrange (firstOverlap_beyond hok hidx) ha hb htouch hfar
  exact (coalesced_iff hok).mp hcoalesced a ha' b hb' htouch

end Mman

end WasixLibc
