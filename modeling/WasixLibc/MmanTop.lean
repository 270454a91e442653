/-
A region that ends with the last byte of the address space.

Its end wraps to `0`, so `first_overlap` takes it for a region that ends in
front of any address.  It is the last region of the table and the only entry the
search is wrong about; what the search misses because of it is written out
here.
-/
import WasixLibc.MmanInvariant

namespace WasixLibc

namespace Mman

open SpanList ListZipper

/-- The regions in front of and behind one region of the table. -/
theorem TableOk.around {pre rest : List Region} {r : Region}
    (h : TableOk (pre ++ r :: rest)) :
    (∀ q ∈ pre, q.limit ≤ r.base) ∧ ∀ q ∈ rest, r.limit ≤ q.base := by
  obtain ⟨_, htail, hcross⟩ := List.pairwise_append.mp h.ordered
  exact ⟨fun q hq => hcross q hq r List.mem_cons_self, (List.pairwise_cons.mp htail).1⟩

/-- No region follows one that ends with the last byte. -/
theorem TableOk.rest_eq_nil {r : Region} {rest : List Region} (hok : TableOk (r :: rest))
    (htop : r.limit = 4294967296) : rest = [] := by
  cases rest with
  | nil => rfl
  | cons q rest =>
      have hgap := (List.pairwise_cons.mp hok.ordered).1 q List.mem_cons_self
      have hq := (hok.regions q (by simp)).base_lt_top
      omega

theorem TableOk.exists_top {regs : List Region} (h : TableOk regs) (htop : ¬ BelowTop regs) :
    ∃ last ∈ regs, last.limit = 4294967296 := by
  by_contra hall
  refine htop fun r hr => ?_
  exact Nat.lt_of_le_of_ne (h.regions r hr).limit_le fun hend => hall ⟨r, hr, hend⟩

theorem TableOk.eq_concat_of_top {regs : List Region} {r : Region} (h : TableOk regs)
    (hr : r ∈ regs) (htop : r.limit = 4294967296) : ∃ front, regs = front ++ [r] := by
  obtain ⟨front, rest, rfl⟩ := List.append_of_mem hr
  obtain rfl := h.append_right.rest_eq_nil htop
  exact ⟨front, rfl⟩

/-- The regions in front of the last one end below the top. -/
theorem TableOk.belowTop_front {front : List Region} {last : Region}
    (h : TableOk (front ++ [last])) : BelowTop front := by
  intro r hr
  have hgap := h.around.1 r hr
  have hlast := (h.regions last (by simp)).base_lt_top
  exact Nat.lt_of_le_of_lt hgap hlast

/-- A region that ends at the top is a stray entry of the search. -/
theorem firstOverlap_stray {addr : Nat} {pre mid : List Region} {last : Region}
    (hok : TableOk (pre ++ mid ++ [last])) (htop : last.limit = 4294967296)
    (hpre : ∀ r ∈ pre, r.limit ≤ addr) (hmid : ∀ r ∈ mid, addr < r.limit) :
    IsStray (fun i => (pre ++ mid ++ [last])[i]?.any fun r => decide (r.endAddr ≤ addr))
      (pre ++ mid ++ [last]).length pre.length := by
  have hbelow : ∀ r ∈ pre ++ mid, r.endAddr = r.limit :=
    fun r hr => Region.endAddr_eq_limit (hok.belowTop_front r hr)
  refine ⟨?_, ?_, ?_, by simp only [List.length_append, List.length_singleton]; omega⟩
  · intro i hi
    rw [List.append_assoc, List.getElem?_append_left hi, List.getElem?_eq_getElem hi]
    have hmem := List.getElem_mem hi
    simpa [hbelow _ (List.mem_append_left mid hmem)] using hpre _ hmem
  · intro i hle hi
    simp only [List.length_append, List.length_singleton] at hi
    have hidx : i - pre.length < mid.length := by omega
    have hlt : i < (pre ++ mid).length := by
      rw [List.length_append]
      omega
    rw [List.getElem?_append_left hlt, List.getElem?_append_right hle,
      List.getElem?_eq_getElem hidx]
    have hmem := List.getElem_mem hidx
    simpa [hbelow _ (List.mem_append_right pre hmem)] using hmid _ hmem
  · have hend := Region.endAddr_eq_zero htop
    simp [hend]

/-- What the search finds in a table whose last region ends at the top. -/
theorem firstOverlap_of_top {addr : Nat} {pre mid : List Region} {last : Region}
    (hok : TableOk (pre ++ mid ++ [last])) (htop : last.limit = 4294967296)
    (hpre : ∀ r ∈ pre, r.limit ≤ addr) (hmid : ∀ r ∈ mid, addr < r.limit) :
    (StrayMissed (pre ++ mid ++ [last]).length pre.length →
      firstOverlap addr (pre ++ mid ++ [last]) = (pre ++ mid ++ [last]).length) ∧
    (¬ StrayMissed (pre ++ mid ++ [last]).length pre.length →
      firstOverlap addr (pre ++ mid ++ [last]) = pre.length) :=
  have hstray := firstOverlap_stray hok htop hpre hmid
  ⟨bisect_size_eq_size hstray, bisect_size_eq_stray hstray⟩

/-- The search passes a single region in front of the top unless a midpoint falls
on it. -/
theorem firstOverlap_skips {addr : Nat} {pre : List Region} {r last : Region}
    (hok : TableOk (pre ++ [r, last])) (htop : last.limit = 4294967296)
    (hpre : ∀ q ∈ pre, q.limit ≤ addr) (hr : addr < r.limit) (htwo : TwoOnes (pre.length + 3)) :
    firstOverlap addr (pre ++ [r, last]) = pre.length + 2 := by
  have hsplit : pre ++ [r, last] = pre ++ [r] ++ [last] := by simp
  rw [hsplit] at hok ⊢
  have hmissed : StrayMissed (pre ++ [r] ++ [last]).length pre.length :=
    Or.inr ⟨by simp, by simpa using htwo⟩
  rw [(firstOverlap_of_top hok htop hpre (by simpa using hr)).1 hmissed]
  simp

/-- From its own base on, a region is found unless it is such a region. -/
theorem firstOverlap_self {pre rest : List Region} {r : Region}
    (hok : TableOk (pre ++ r :: rest)) (hr : r.limit < 4294967296)
    (hfound : ∀ last, rest = [last] → last.limit = 4294967296 → ¬ TwoOnes (pre.length + 3)) :
    firstOverlap r.base (pre ++ r :: rest) = pre.length := by
  obtain ⟨hpre, hrest⟩ := hok.around
  have hpos := hok.base_pos r (by simp)
  have hbehind : ∀ q ∈ r :: rest, r.base < q.limit := by
    intro q hq
    rcases List.mem_cons.mp hq with rfl | hq
    · exact hpos
    · have hgap := hrest q hq
      have hqpos := hok.base_pos q (by simp [hq])
      omega
  by_cases htop : BelowTop (pre ++ r :: rest)
  · exact firstOverlap_eq_length htop hpre hbehind
  obtain ⟨last, hlast, hend⟩ := hok.exists_top htop
  obtain ⟨front, hregs⟩ := hok.eq_concat_of_top hlast hend
  -- the region at the top stands behind `r`
  obtain ⟨mid, rfl⟩ : ∃ mid, rest = mid ++ [last] := by
    rcases List.eq_nil_or_concat rest with rfl | ⟨mid, q, rfl⟩
    · have hsame := (List.append_inj' hregs rfl).2
      simp only [List.cons.injEq, and_true] at hsame
      rw [hsame] at hr
      omega
    · refine ⟨mid, ?_⟩
      have hsplit : (pre ++ r :: mid) ++ [q] = front ++ [last] := by simpa using hregs
      rw [(List.cons.inj (List.append_inj' hsplit rfl).2).1]
      simp
  have hsplit : pre ++ r :: (mid ++ [last]) = pre ++ (r :: mid) ++ [last] := by simp
  rw [hsplit] at hok ⊢
  refine (firstOverlap_of_top hok hend hpre fun q hq => hbehind q ?_).2 ?_
  · rcases List.mem_cons.mp hq with rfl | hq
    · simp
    · simp [hq]
  · simp only [List.length_append, List.length_cons, List.length_nil]
    rintro (hnone | ⟨hone, htwo⟩)
    · omega
    · obtain rfl : mid = [] := List.length_eq_zero_iff.mp (by omega)
      exact hfound last rfl hend (by simpa using htwo)

/-- From `start` on, the code does not come across the pages of `r`: `r` ends at
the top, or it stands in front of the region that does and alone reaches beyond
`start`, and the midpoints of the search fall on neither. -/
def Lost (regs : List Region) (start : Nat) (r : Region) : Prop :=
  r.limit = 4294967296 ∨
    ∃ before last, regs = before ++ [r, last] ∧ last.limit = 4294967296 ∧
      (∀ q ∈ before, q.limit ≤ start) ∧ TwoOnes (regs.length + 1)

/-- What lies behind `start` and is skipped nevertheless is lost. -/
theorem lost_of_skipped {pre post : List Region} {start : Nat} (hok : TableOk (pre ++ post))
    (hidx : firstOverlap start (pre ++ post) = pre.length) {r : Region} (hr : r ∈ pre)
    (hlimit : start < r.limit) : Lost (pre ++ post) start r := by
  by_cases hbelow : BelowTop (pre ++ post)
  · obtain ⟨below, above, hsplit, hidx', hends, _⟩ := hok.firstOverlap_split hbelow start
    obtain ⟨rfl, rfl⟩ : pre = below ∧ post = above :=
      List.append_inj hsplit (hidx.symm.trans hidx')
    have hend := hends r hr
    omega
  obtain ⟨last, hlast, htop⟩ := hok.exists_top hbelow
  obtain ⟨front, hregs⟩ := hok.eq_concat_of_top hlast htop
  have hmem : r ∈ pre ++ post := List.mem_append_left post hr
  rw [hregs] at hok hidx hmem ⊢
  obtain ⟨below, mid, rfl, hends, hmid⟩ :=
    ordered_split hok.append_left.ordered hok.append_left.base_pos start
  obtain ⟨hskips, hfinds⟩ := firstOverlap_of_top hok htop hends hmid
  by_cases hmissed : StrayMissed (below ++ mid ++ [last]).length below.length
  · rcases List.mem_append.mp hmem with hfront | hlast
    · have hrmid : r ∈ mid := by
        rcases List.mem_append.mp hfront with hin | hin
        · have hend := hends r hin
          omega
        · exact hin
      have hlen : (below ++ mid ++ [last]).length = below.length + mid.length + 1 := by
        simp only [List.length_append, List.length_singleton]
      have hsome := List.length_pos_of_mem hrmid
      rcases hmissed with hnone | ⟨hone, htwo⟩
      · omega
      · obtain ⟨q, rfl⟩ := List.length_eq_one_iff.mp (by omega : mid.length = 1)
        obtain rfl := List.mem_singleton.mp hrmid
        exact Or.inr ⟨below, last, by simp, htop, hends, htwo⟩
    · rw [List.mem_singleton.mp hlast]
      exact Or.inl htop
  · -- the search is right
    have hlen := hidx.symm.trans (hfinds hmissed)
    have hsplit : pre ++ post = below ++ (mid ++ [last]) := by rw [hregs, List.append_assoc]
    obtain ⟨rfl, _⟩ := List.append_inj hsplit hlen
    have hend := hends r hr
    omega

/-- A lost region that ends below the top is skipped. -/
theorem skipped_of_lost {pre post : List Region} {start : Nat} (hok : TableOk (pre ++ post))
    (hidx : firstOverlap start (pre ++ post) = pre.length) {r : Region}
    (hlost : Lost (pre ++ post) start r) (htop : r.limit < 4294967296)
    (hlimit : start < r.limit) : r ∈ pre := by
  rcases hlost with hend | ⟨before, last, hregs, hlast, hends, htwo⟩
  · omega
  · rw [hregs] at hok hidx htwo
    have hfound := firstOverlap_skips hok hlast hends hlimit (by simpa using htwo)
    have hall : pre = before ++ [r, last] := by
      refine (List.append_inj (hregs.trans (List.append_nil _).symm) ?_).1
      rw [← hidx, hfound]
      simp
    rw [hall]
    simp

end Mman

end WasixLibc
