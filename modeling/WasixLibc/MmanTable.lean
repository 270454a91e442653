/-
Well-formed region tables, and what one unmap cut does to a well-formed
region.

`TableOk` allows a region to end with the last byte of the address space,
where its end wraps to `0`.  Statements that need the ends not to wrap carry
`BelowTop`.
-/
import WasixLibc.SpanList
import WasixLibc.ListZipper
import WasixLibc.MmanCalls

namespace WasixLibc

namespace Mman

open SpanList ListZipper

/-- The end of a region as a number, not reduced to 32 bits. -/
def Region.limit (r : Region) : Nat := r.base + r.len

/-- What every region of a table satisfies on its own. -/
structure Region.Ok (r : Region) : Prop where
  base_dvd : PAGE ∣ r.base
  len_dvd : PAGE ∣ r.len
  len_pos : 0 < r.len
  limit_le : r.limit ≤ 4294967296
  free_dirty : r.kind = .rFree → r.dirty = true
  free_fref : r.kind = .rFree → r.fref = none
  data_le : r.kind = .rFile → r.dataLen ≤ r.len

structure TableOk (regs : List Region) : Prop where
  ordered : Ordered Region.base Region.limit regs
  regions : ∀ r ∈ regs, r.Ok

/-- No region contains the last byte of the address space. -/
def BelowTop (regs : List Region) : Prop := ∀ r ∈ regs, r.limit < 4294967296

/-- `x` is covered by the table. -/
abbrev Covered (regs : List Region) (x : Nat) : Prop :=
  Covers Region.base Region.limit regs x

theorem wrap_of_lt {n : Nat} (h : n < 4294967296) : wrap n = n :=
  Nat.mod_eq_of_lt h

theorem wrapSub_of_le {a b : Nat} (hle : b ≤ a) (ha : a < 4294967296) :
    wrapSub a b = a - b := by
  unfold wrapSub
  omega

theorem Region.Ok.base_lt_limit {r : Region} (h : r.Ok) : r.base < r.limit :=
  Nat.lt_add_of_pos_right h.len_pos

theorem Region.Ok.base_lt_top {r : Region} (h : r.Ok) : r.base < 4294967296 :=
  Nat.lt_of_lt_of_le h.base_lt_limit h.limit_le

theorem Region.Ok.limit_dvd {r : Region} (h : r.Ok) : PAGE ∣ r.limit :=
  Nat.dvd_add h.base_dvd h.len_dvd

theorem Region.endAddr_eq_limit {r : Region} (h : r.limit < 4294967296) :
    r.endAddr = r.limit :=
  wrap_of_lt h

/-- The one region that may end at the top of the address space has end
`0`. -/
theorem Region.endAddr_eq_zero {r : Region} (h : r.limit = 4294967296) :
    r.endAddr = 0 := by
  unfold Region.limit at h
  simp [Region.endAddr, wrap, h]

theorem Region.Ok.endAddr_le_limit {r : Region} (h : r.Ok) : r.endAddr ≤ r.limit := by
  rcases Nat.lt_or_eq_of_le h.limit_le with hlt | heq
  · exact Nat.le_of_eq (Region.endAddr_eq_limit hlt)
  · rw [Region.endAddr_eq_zero heq]
    exact Nat.zero_le _

theorem TableOk.append_left {pre post : List Region} (h : TableOk (pre ++ post)) :
    TableOk pre :=
  ⟨(List.pairwise_append.mp h.ordered).1,
    fun r hr => h.regions r (List.mem_append_left post hr)⟩

theorem TableOk.append_right {pre post : List Region} (h : TableOk (pre ++ post)) :
    TableOk post :=
  ⟨(List.pairwise_append.mp h.ordered).2.1,
    fun r hr => h.regions r (List.mem_append_right pre hr)⟩

theorem TableOk.base_pos {regs : List Region} (h : TableOk regs) :
    ∀ r ∈ regs, r.base < r.limit := fun r hr => (h.regions r hr).base_lt_limit

/-! `first_overlap` -/

theorem firstOverlap_le (addr : Nat) (regs : List Region) :
    firstOverlap addr regs ≤ regs.length :=
  (bisect_bounds (Nat.zero_le _)).2

/-- A region the search stops at ends, as the code computes ends, above the
address. -/
theorem firstOverlap_endAddr {addr : Nat} {pre post : List Region} {r : Region}
    (hidx : firstOverlap addr (pre ++ r :: post) = pre.length) : addr < r.endAddr := by
  have hlt : firstOverlap addr (pre ++ r :: post) < (pre ++ r :: post).length := by
    rw [hidx]
    simp
  have htest := bisect_test_eq_false (Nat.sub_le _ _) (Nat.zero_le _) hlt
  rw [firstOverlap] at hidx
  rw [hidx, getElem?_boundary] at htest
  simpa using htest

/-- Below the top of the address space the search finds the split point. -/
theorem firstOverlap_eq_length {addr : Nat} {pre post : List Region}
    (htop : BelowTop (pre ++ post)) (hpre : ∀ r ∈ pre, r.limit ≤ addr)
    (hpost : ∀ r ∈ post, addr < r.limit) :
    firstOverlap addr (pre ++ post) = pre.length := by
  refine bisect_eq_length ?_ ?_
  · intro r hr
    rw [Region.endAddr_eq_limit (htop r (List.mem_append_left post hr))]
    exact hpre r hr
  · intro r hr
    rw [Region.endAddr_eq_limit (htop r (List.mem_append_right pre hr))]
    exact hpost r hr

theorem TableOk.firstOverlap_split {regs : List Region} (h : TableOk regs)
    (htop : BelowTop regs) (addr : Nat) :
    ∃ pre post, regs = pre ++ post ∧ firstOverlap addr regs = pre.length ∧
      (∀ r ∈ pre, r.limit ≤ addr) ∧ ∀ r ∈ post, addr < r.limit := by
  obtain ⟨pre, post, rfl, hpre, hpost⟩ := ordered_split h.ordered h.base_pos addr
  exact ⟨pre, post, rfl, firstOverlap_eq_length htop hpre hpost, hpre, hpost⟩

/-! One cut -/

/-- The pieces `unmap_range` replaces one region by. -/
def carve (start stop : Nat) (r : Region) : List Region :=
  let ostart := r.ostart start
  let oend := r.oend stop
  if r.kind = .rFree then [r]
  else if ostart = r.base ∧ oend = r.endAddr then [r.toFree r.len]
  else if ostart = r.base then [r.toFree (wrapSub oend r.base), r.tailFrom oend]
  else if oend = r.endAddr then
    [r.headTo ostart, freedRegion ostart (wrapSub r.endAddr ostart)]
  else [r.headTo ostart, freedRegion ostart (wrapSub oend ostart), r.tailFrom oend]

/-- `f` is a free region in place of `[lo, hi)`. -/
structure IsFreed (f : Region) (lo hi : Nat) : Prop where
  base_eq : f.base = lo
  limit_eq : f.limit = hi
  kind_eq : f.kind = .rFree
  dirty_eq : f.dirty = true
  fref_eq : f.fref = none

/-- A nonempty range of whole pages that ends below the top. -/
structure PageRange (start stop : Nat) : Prop where
  start_dvd : PAGE ∣ start
  stop_dvd : PAGE ∣ stop
  stop_lt : stop < 4294967296
  start_lt_stop : start < stop

/-- The range `[start, stop)` meets `r`. -/
structure Cuts (start stop : Nat) (r : Region) : Prop extends PageRange start stop where
  base_lt : r.base < stop
  lt_limit : start < r.limit

theorem Region.ostart_eq_max (r : Region) (start : Nat) :
    r.ostart start = max r.base start := by
  unfold Region.ostart
  split <;> omega

theorem Region.oend_eq_min {r : Region} (h : r.limit < 4294967296) (stop : Nat) :
    r.oend stop = min r.limit stop := by
  rw [Region.oend, Region.endAddr_eq_limit h]
  split <;> omega

/-- Away from the top of the address space a cut leaves the part below the
range, a free region in place of the overlap, and the part above. -/
theorem carve_eq {start stop : Nat} {r : Region} (hr : r.Ok) (hlive : r.kind ≠ .rFree)
    (htop : r.limit < 4294967296) (hcut : Cuts start stop r) :
    ∃ freed, IsFreed freed (max r.base start) (min r.limit stop) ∧
      carve start stop r =
        (if r.base < start then [r.headTo start] else []) ++
          freed :: (if stop < r.limit then [r.tailFrom stop] else []) := by
  have hbase := hr.base_lt_limit
  have hstart := hcut.start_lt_stop
  have hlow := hcut.base_lt
  have hhigh := hcut.lt_limit
  have hstop := hcut.stop_lt
  simp only [carve, hlive, ↓reduceIte, Region.ostart_eq_max, Region.oend_eq_min htop,
    Region.endAddr_eq_limit htop]
  by_cases hhead : r.base < start
  · have hmax : max r.base start = start := by omega
    have hne : start ≠ r.base := by omega
    by_cases htail : stop < r.limit
    · have hmin : min r.limit stop = stop := by omega
      have hne' : stop ≠ r.limit := by omega
      refine ⟨freedRegion start (wrapSub stop start), ?_, ?_⟩
      · rw [hmax, hmin, wrapSub_of_le (by omega) hstop]
        exact ⟨rfl, by simp only [Region.limit, freedRegion]; omega, rfl, rfl, rfl⟩
      · simp [hmax, hmin, hne, hne', hhead, htail]
    · have hmin : min r.limit stop = r.limit := by omega
      refine ⟨freedRegion start (wrapSub r.limit start), ?_, ?_⟩
      · rw [hmax, hmin, wrapSub_of_le (by omega) htop]
        exact ⟨rfl, by simp only [Region.limit, freedRegion] at *; omega, rfl, rfl, rfl⟩
      · simp [hmax, hmin, hne, hhead, htail]
  · have hmax : max r.base start = r.base := by omega
    by_cases htail : stop < r.limit
    · have hmin : min r.limit stop = stop := by omega
      have hne' : stop ≠ r.limit := by omega
      refine ⟨r.toFree (wrapSub stop r.base), ?_, ?_⟩
      · rw [hmax, hmin, wrapSub_of_le (by omega) hstop]
        exact ⟨rfl, by simp only [Region.limit, Region.toFree]; omega, rfl, rfl, rfl⟩
      · simp [hmax, hmin, hne', hhead, htail]
    · have hmin : min r.limit stop = r.limit := by omega
      refine ⟨r.toFree r.len, ?_, ?_⟩
      · rw [hmax, hmin]
        exact ⟨rfl, rfl, rfl, rfl, rfl⟩
      · simp [hmax, hmin, hhead, htail]

/-- A region that ends at the top is freed as a whole, wherever the range
ends inside it. -/
theorem carve_eq_of_top {start stop : Nat} {r : Region} (hlive : r.kind ≠ .rFree)
    (htop : r.limit = 4294967296) (hstop : 0 < stop) (hstart : start < r.base) :
    carve start stop r = [r.toFree r.len] := by
  have hend := Region.endAddr_eq_zero htop
  have hle : ¬ r.base < start := by omega
  simp [carve, hlive, Region.ostart, Region.oend, hend, hstop, hstart]

theorem IsFreed.ok {f : Region} {lo hi : Nat} (hf : IsFreed f lo hi) (hlt : lo < hi)
    (hhi : hi ≤ 4294967296) (hlo : PAGE ∣ lo) (hhid : PAGE ∣ hi) : f.Ok := by
  have hbase := hf.base_eq
  have hlimit := hf.limit_eq
  have hlen : f.len = hi - lo := by
    unfold Region.limit at hlimit
    omega
  refine ⟨hbase ▸ hlo, hlen ▸ Nat.dvd_sub hhid hlo, by omega, by omega,
    fun _ => hf.dirty_eq, fun _ => hf.fref_eq, ?_⟩
  intro hfile
  rw [hf.kind_eq] at hfile
  contradiction

/-- The surviving head ends where the range starts. -/
theorem Region.headTo_span {r : Region} {ostart : Nat} (hlt : r.base < ostart)
    (htop : ostart < 4294967296) :
    (r.headTo ostart).base = r.base ∧ (r.headTo ostart).limit = ostart := by
  have hsub := wrapSub_of_le (Nat.le_of_lt hlt) htop
  refine ⟨rfl, ?_⟩
  simp only [Region.limit, Region.headTo, hsub]
  omega

theorem Region.headTo_ok {r : Region} (hr : r.Ok) {ostart : Nat} (hlt : r.base < ostart)
    (hle : ostart < r.limit) (hdvd : PAGE ∣ ostart) (hlive : r.kind ≠ .rFree) :
    (r.headTo ostart).Ok := by
  have htop : ostart < 4294967296 := Nat.lt_of_lt_of_le hle hr.limit_le
  have hsub := wrapSub_of_le (Nat.le_of_lt hlt) htop
  have hspan := Region.headTo_span hlt htop
  refine ⟨hr.base_dvd, ?_, ?_, by omega, fun h => absurd h hlive,
    fun h => absurd h hlive, ?_⟩
  · simp only [Region.headTo, hsub]
    exact Nat.dvd_sub hdvd hr.base_dvd
  · simp only [Region.headTo, hsub]
    omega
  · intro hfile
    have hkind : r.kind = .rFile := hfile
    simp only [Region.headTo, hkind, ↓reduceIte]
    exact Nat.min_le_right _ _

/-- The surviving tail starts where the range stops. -/
theorem Region.tailFrom_span {r : Region} {oend : Nat} (hlt : oend < r.limit)
    (htop : r.limit < 4294967296) :
    (r.tailFrom oend).base = oend ∧ (r.tailFrom oend).limit = r.limit := by
  have hsub := wrapSub_of_le (Nat.le_of_lt hlt) htop
  refine ⟨rfl, ?_⟩
  simp only [Region.limit, Region.tailFrom, Region.endAddr_eq_limit htop, hsub] at *
  omega

theorem Region.tailFrom_ok {r : Region} (hr : r.Ok) {oend : Nat} (hlt : oend < r.limit)
    (hle : r.base ≤ oend) (htop : r.limit < 4294967296) (hdvd : PAGE ∣ oend)
    (hlive : r.kind ≠ .rFree) : (r.tailFrom oend).Ok := by
  have hsub := wrapSub_of_le (Nat.le_of_lt hlt) htop
  have hcut : wrapSub oend r.base = oend - r.base := wrapSub_of_le hle (by omega)
  have hspan := Region.tailFrom_span hlt htop
  refine ⟨hdvd, ?_, ?_, by omega, fun h => absurd h hlive,
    fun h => absurd h hlive, ?_⟩
  · simp only [Region.tailFrom, Region.endAddr_eq_limit htop, hsub]
    exact Nat.dvd_sub hr.limit_dvd hdvd
  · simp only [Region.tailFrom, Region.endAddr_eq_limit htop, hsub]
    omega
  · intro hfile
    have hkind : r.kind = .rFile := hfile
    have hdata := hr.data_le hkind
    simp only [Region.tailFrom, hkind, ↓reduceIte, Region.endAddr_eq_limit htop, hsub, hcut]
    unfold Region.limit
    omega

end Mman

end WasixLibc
