/-
The coverage pass of `msync`.

The pass walks the regions from `first_overlap` on and asks that they be live and
adjacent.  It compares ends of regions that are reduced to 32 bits, so it accepts
exactly the ranges of live pages that stay clear of a region at the top.
-/
import WasixLibc.MmanTop

namespace WasixLibc

namespace Mman

open SpanList ListZipper

/-! Coverage -/

/-- The page at `p` lies in a live region. -/
def PageLive (regs : List Region) (p : Nat) : Prop :=
  ∃ r ∈ regs, r.kind ≠ .rFree ∧ r.base ≤ p ∧ p + PAGE ≤ r.limit

/-- So does every page of `[start, stop)`. -/
def RangeLive (regs : List Region) (start stop : Nat) : Prop :=
  ∀ p, PAGE ∣ p → start ≤ p → p < stop → PageLive regs p

/-- The regions that end with the last byte of the address space start behind
the range. -/
def AboveStop (stop : Nat) (regs : List Region) : Prop :=
  ∀ r ∈ regs, r.limit = 4294967296 → stop ≤ r.base

/-- Between two page boundaries there is room for a page. -/
theorem add_page_le {p q : Nat} (hp : PAGE ∣ p) (hq : PAGE ∣ q) (hlt : p < q) :
    p + PAGE ≤ q := by
  obtain ⟨a, rfl⟩ := hp
  obtain ⟨b, rfl⟩ := hq
  unfold PAGE at *
  omega

/-- Regions that end in front of the range do not count. -/
theorem rangeLive_append {pre post : List Region} {start stop : Nat}
    (hpre : ∀ r ∈ pre, r.limit ≤ start) :
    RangeLive (pre ++ post) start stop ↔ RangeLive post start stop := by
  constructor
  · intro hlive p hp hlow hhigh
    obtain ⟨r, hr, hkind, hbase, hlimit⟩ := hlive p hp hlow hhigh
    rcases List.mem_append.mp hr with hr | hr
    · have hend := hpre r hr
      have hpage : 0 < PAGE := by decide
      omega
    · exact ⟨r, hr, hkind, hbase, hlimit⟩
  · intro hlive p hp hlow hhigh
    obtain ⟨r, hr, hrest⟩ := hlive p hp hlow hhigh
    exact ⟨r, List.mem_append_right pre hr, hrest⟩

/-- One live region that holds the cursor covers the range up to its end. -/
theorem rangeLive_cons {r : Region} {rest : List Region} {cursor stop : Nat} (hr : r.Ok)
    (hlive : r.kind ≠ .rFree) (hbase : r.base ≤ cursor) (hlimit : cursor < r.limit) :
    RangeLive (r :: rest) cursor stop ↔ RangeLive rest r.limit stop := by
  constructor
  · intro hall p hp hlow hhigh
    obtain ⟨q, hq, hkind, hqbase, hqlimit⟩ := hall p hp (by omega) hhigh
    rcases List.mem_cons.mp hq with rfl | hq
    · have hpage : 0 < PAGE := by decide
      omega
    · exact ⟨q, hq, hkind, hqbase, hqlimit⟩
  · intro hrest p hp hlow hhigh
    rcases Nat.lt_or_ge p r.limit with hlt | hge
    · exact ⟨r, List.mem_cons_self, hlive, by omega, add_page_le hp hr.limit_dvd hlt⟩
    · obtain ⟨q, hq, hqlive⟩ := hrest p hp hge hhigh
      exact ⟨q, List.mem_cons_of_mem r hq, hqlive⟩

/-- The first region that ends behind the cursor holds it, if anything does. -/
theorem RangeLive.holds_cursor {r : Region} {rest : List Region} {cursor stop : Nat}
    (hok : TableOk (r :: rest)) (hcursor : PAGE ∣ cursor) (hlt : cursor < stop)
    (hcur : cursor < r.limit) (hlive : RangeLive (r :: rest) cursor stop) :
    ¬ (r.kind = .rFree ∨ cursor < r.base) := by
  intro hstop
  obtain ⟨q, hq, hkind, hbase, hlimit⟩ := hlive cursor hcursor (Nat.le_refl _) hlt
  rcases List.mem_cons.mp hq with rfl | hq
  · rcases hstop with hfree | hgt
    · exact absurd hfree hkind
    · omega
  · have hgap := (List.pairwise_cons.mp hok.ordered).1 q hq
    omega

theorem aboveStop_cons {r : Region} {rest : List Region} {stop : Nat}
    (hr : r.limit < 4294967296) : AboveStop stop (r :: rest) ↔ AboveStop stop rest := by
  constructor
  · intro habove q hq
    exact habove q (List.mem_cons_of_mem r hq)
  · intro habove q hq htop
    rcases List.mem_cons.mp hq with rfl | hq
    · omega
    · exact habove q hq htop

/-- The first pass accepts what is covered, unless it has to look behind a
region that ends at the top. -/
theorem coverLoop_iff {pre post : List Region} {fuel cursor stop : Nat} (hok : TableOk post)
    (hfuel : post.length < fuel) (hcursor : PAGE ∣ cursor)
    (hfirst : ∀ r ∈ post, cursor < r.limit)
    (hbehind : cursor < stop ∨ ∀ r ∈ post, cursor ≤ r.base) :
    coverLoop (pre ++ post) stop fuel pre.length cursor = true ↔
      RangeLive post cursor stop ∧ AboveStop stop post := by
  induction post generalizing pre fuel cursor with
  | nil =>
      obtain ⟨fuel, rfl⟩ : ∃ n, fuel = n + 1 := ⟨fuel - 1, by simp at hfuel; omega⟩
      have hget : (pre ++ ([] : List Region))[pre.length]? = none := by simp
      simp only [coverLoop, hget]
      by_cases hlt : cursor < stop
      · rw [if_pos hlt]
        refine ⟨fun h => absurd h Bool.false_ne_true, fun h => ?_⟩
        obtain ⟨r, hr, _⟩ := h.1 cursor hcursor (Nat.le_refl _) hlt
        cases hr
      · rw [if_neg hlt]
        refine ⟨fun _ => ⟨fun p _ hlow hhigh => ?_, fun r hr => ?_⟩, fun _ => rfl⟩
        · omega
        · cases hr
  | cons r rest ih =>
      obtain ⟨fuel, rfl⟩ : ∃ n, fuel = n + 1 := ⟨fuel - 1, by simp at hfuel; omega⟩
      have hr := hok.regions r List.mem_cons_self
      have hrpos := hr.base_lt_limit
      have hgap := (List.pairwise_cons.mp hok.ordered).1
      have hcur := hfirst r List.mem_cons_self
      simp only [coverLoop, getElem?_boundary]
      by_cases hlt : cursor < stop
      · rw [if_pos hlt]
        by_cases hstop : r.kind = .rFree ∨ cursor < r.base
        · rw [if_pos hstop]
          refine ⟨fun h => absurd h Bool.false_ne_true, fun h => ?_⟩
          exact absurd hstop (h.1.holds_cursor hok hcursor hlt hcur)
        · rw [if_neg hstop]
          obtain ⟨hlive, hbase⟩ := not_or.mp hstop
          rcases Nat.lt_or_eq_of_le hr.limit_le with htop | htop
          · have hrest : coverLoop ((pre ++ [r]) ++ rest) stop fuel (pre ++ [r]).length r.limit =
                true ↔ RangeLive rest r.limit stop ∧ AboveStop stop rest :=
              ih hok.tail (by simpa using hfuel) hr.limit_dvd
                (fun q hq => Nat.lt_of_le_of_lt (hgap q hq)
                  (hok.regions q (List.mem_cons_of_mem r hq)).base_lt_limit)
                (Or.inr hgap)
            have hlen : (pre ++ [r]).length = pre.length + 1 := by simp
            rw [hlen, List.append_assoc, List.singleton_append] at hrest
            rw [Region.endAddr_eq_limit htop, hrest, aboveStop_cons htop,
              rangeLive_cons hr hlive (Nat.le_of_not_lt hbase) hcur]
          · -- the end of the region is reduced to zero, and no region follows
            have hnil := hok.rest_eq_nil htop
            subst hnil
            have hnone : (pre ++ [r])[pre.length + 1]? = none := by simp
            obtain ⟨fuel, rfl⟩ : ∃ n, fuel = n + 1 := ⟨fuel - 1, by simp at hfuel; omega⟩
            rw [Region.endAddr_eq_zero htop]
            simp only [coverLoop, hnone]
            rw [if_pos (Nat.lt_of_le_of_lt (Nat.zero_le _) hlt)]
            refine ⟨fun h => absurd h Bool.false_ne_true, fun h => ?_⟩
            have hle := h.2 r List.mem_cons_self htop
            omega
      · rw [if_neg hlt]
        refine ⟨fun _ => ⟨fun p _ hlow hhigh => ?_, fun q hq _ => ?_⟩, fun _ => rfl⟩
        · omega
        · rcases hbehind with hbefore | hbases
          · exact absurd hbefore hlt
          · have hle := hbases q hq
            omega

/-! The start of the pass -/

/-- The table ends with a region that ends at the top, and `msync` does not
reach the end of a covered range `[start, stop)`: the range runs into that region,
or it starts in the region in front of it and the search skips both. -/
def TopMissed (regs : List Region) (start stop : Nat) : Prop :=
  ∃ front last, regs = front ++ [last] ∧ last.limit = 4294967296 ∧
    (last.base < stop ∨
      (∃ before r, front = before ++ [r] ∧ r.base ≤ start ∧ start < r.limit) ∧
        TwoOnes (regs.length + 1))

/-- What the search does to a range whose first page is live. -/
theorem topMissed_iff {pre mid : List Region} {last : Region} {start stop : Nat}
    (hok : TableOk (pre ++ mid ++ [last])) (htop : last.limit = 4294967296)
    (hpre : ∀ r ∈ pre, r.limit ≤ start) (hmid : ∀ r ∈ mid, start < r.limit)
    (hlt : start < stop) (hlive : PageLive (pre ++ mid ++ [last]) start) :
    TopMissed (pre ++ mid ++ [last]) start stop ↔
      last.base < stop ∨ StrayMissed (pre ++ mid ++ [last]).length pre.length := by
  constructor
  · rintro ⟨front, last', hregs, _, hcase⟩
    obtain ⟨rfl, hlast⟩ := List.append_inj' hregs rfl
    obtain rfl : last = last' := (List.cons.inj hlast).1
    rcases hcase with hreach | ⟨⟨before, r, hfront, hbase, hlimit⟩, htwo⟩
    · exact Or.inl hreach
    · rcases List.eq_nil_or_concat mid with rfl | ⟨m, q, rfl⟩
      · have hr := hpre r (by rw [← List.append_nil pre, hfront]; simp)
        omega
      · rw [List.concat_eq_append] at hmid hok hfront htwo ⊢
        rw [← List.append_assoc] at hfront
        obtain ⟨_, hq⟩ := List.append_inj' hfront rfl
        obtain rfl : q = r := (List.cons.inj hq).1
        -- an entry between the two would end behind `start` and in front of `q`
        have hnil : m = [] := by
          cases m with
          | nil => rfl
          | cons a m =>
              have hend := hmid a (by simp)
              have hok' : TableOk ((pre ++ (a :: m)) ++ q :: [last]) := by
                simpa only [List.append_assoc, List.singleton_append, List.nil_append] using hok
              have hgap := hok'.around.1 a (by simp)
              omega
        subst hnil
        exact Or.inr (Or.inr ⟨by simp, htwo⟩)
  · have hpage : 0 < PAGE := by decide
    obtain ⟨r, hr, _, hbase, hlimit⟩ := hlive
    intro hcase
    refine ⟨pre ++ mid, last, rfl, htop, ?_⟩
    rcases hcase with hreach | hmissed
    · exact Or.inl hreach
    · rcases List.mem_append.mp hr with hr | hr
      · rcases List.mem_append.mp hr with hr | hr
        · have hend := hpre r hr
          omega
        · have hlen : (pre ++ mid ++ [last]).length = pre.length + mid.length + 1 := by
            simp only [List.length_append, List.length_singleton]
          have hsome := List.length_pos_of_mem hr
          rcases hmissed with hnone | ⟨hone, htwo⟩
          · omega
          · obtain ⟨q, rfl⟩ := List.length_eq_one_iff.mp (by omega : mid.length = 1)
            obtain rfl := List.mem_singleton.mp hr
            exact Or.inr ⟨⟨pre, r, rfl, hbase, by omega⟩, htwo⟩
      · obtain rfl := List.mem_singleton.mp hr
        exact Or.inl (by omega)

/-- Without a region that ends at the top, the pass accepts what is live. -/
theorem cover_belowTop_iff {regs : List Region} {start stop : Nat} (hok : TableOk regs)
    (hrange : PageRange start stop) (hbelow : BelowTop regs) :
    coverLoop regs stop (regs.length + 1) (firstOverlap start regs) start = true ↔
      RangeLive regs start stop := by
  obtain ⟨pre, post, rfl, hidx, hpre, hpost⟩ := hok.firstOverlap_split hbelow start
  have hfuel : post.length < (pre ++ post).length + 1 := by
    rw [List.length_append]
    omega
  have habove : AboveStop stop post := by
    intro r hr htop
    have hlimit := hbelow r (List.mem_append_right pre hr)
    omega
  rw [hidx, coverLoop_iff hok.append_right hfuel hrange.start_dvd hpost
    (Or.inl hrange.start_lt_stop), rangeLive_append hpre, and_iff_left habove]

/-- Where the search finds the first overlap, the pass accepts what is live and
does not run into the last region. -/
theorem cover_found_iff {pre mid : List Region} {last : Region} {start stop : Nat}
    (hok : TableOk (pre ++ mid ++ [last])) (hrange : PageRange start stop)
    (htop : last.limit = 4294967296) (hpre : ∀ r ∈ pre, r.limit ≤ start)
    (hmid : ∀ r ∈ mid, start < r.limit) :
    coverLoop (pre ++ mid ++ [last]) stop ((pre ++ mid ++ [last]).length + 1) pre.length start =
        true ↔
      RangeLive (pre ++ mid ++ [last]) start stop ∧ stop ≤ last.base := by
  have hbase := (hok.regions last (by simp)).base_lt_limit
  have hpost : ∀ r ∈ mid ++ [last], start < r.limit := by
    intro r hr
    rcases List.mem_append.mp hr with hr | hr
    · exact hmid r hr
    · obtain rfl := List.mem_singleton.mp hr
      have hlow := hrange.start_lt_stop
      have hstop := hrange.stop_lt
      omega
  have habove : AboveStop stop (mid ++ [last]) ↔ stop ≤ last.base := by
    refine ⟨fun h => h last (by simp) htop, fun h r hr hrtop => ?_⟩
    rcases List.mem_append.mp hr with hr | hr
    · have hgap := hok.around.1 r (List.mem_append_right pre hr)
      omega
    · obtain rfl := List.mem_singleton.mp hr
      exact h
  have hfuel : (mid ++ [last]).length < (pre ++ (mid ++ [last])).length + 1 := by
    simp only [List.length_append]
    omega
  rw [List.append_assoc] at hok ⊢
  rw [coverLoop_iff hok.append_right hfuel hrange.start_dvd hpost (Or.inl hrange.start_lt_stop),
    habove, rangeLive_append hpre]

/-- The first pass of `msync` accepts exactly the ranges of live pages that
stay clear of the top. -/
theorem cover_iff {regs : List Region} {start stop : Nat} (hok : TableOk regs)
    (hrange : PageRange start stop) :
    coverLoop regs stop (regs.length + 1) (firstOverlap start regs) start = true ↔
      RangeLive regs start stop ∧ ¬ TopMissed regs start stop := by
  have hlt := hrange.start_lt_stop
  by_cases hbelow : BelowTop regs
  · have hclear : ¬ TopMissed regs start stop := by
      rintro ⟨front, last, hregs, htop, _⟩
      have hlimit := hbelow last (by rw [hregs]; simp)
      omega
    rw [cover_belowTop_iff hok hrange hbelow, and_iff_left hclear]
  · obtain ⟨last, hmem, htop⟩ := hok.exists_top hbelow
    obtain ⟨front, rfl⟩ := hok.eq_concat_of_top hmem htop
    obtain ⟨pre, mid, rfl, hpre, hmid⟩ :=
      ordered_split hok.append_left.ordered hok.append_left.base_pos start
    have hstray := firstOverlap_stray hok htop hpre hmid
    have hmissed : RangeLive (pre ++ mid ++ [last]) start stop →
        (TopMissed (pre ++ mid ++ [last]) start stop ↔
          last.base < stop ∨ StrayMissed (pre ++ mid ++ [last]).length pre.length) :=
      fun hlive => topMissed_iff hok htop hpre hmid hlt
        (hlive start hrange.start_dvd (Nat.le_refl _) hlt)
    by_cases hlost : StrayMissed (pre ++ mid ++ [last]).length pre.length
    · -- the search ends behind the table, and the pass sees no region
      have hidx : firstOverlap start (pre ++ mid ++ [last]) = (pre ++ mid ++ [last]).length :=
        bisect_size_eq_size hstray hlost
      have hnone : (pre ++ mid ++ [last])[(pre ++ mid ++ [last]).length]? = none := by simp
      rw [hidx]
      unfold coverLoop
      rw [if_pos hlt, hnone]
      refine ⟨fun h => absurd h Bool.false_ne_true, fun h => ?_⟩
      exact absurd ((hmissed h.1).mpr (Or.inr hlost)) h.2
    · have hidx : firstOverlap start (pre ++ mid ++ [last]) = pre.length :=
        bisect_size_eq_stray hstray hlost
      rw [hidx, cover_found_iff hok hrange htop hpre hmid]
      refine and_congr_right fun hlive => ?_
      rw [hmissed hlive, or_iff_left hlost, Nat.not_lt]

/-- Where an accepted range starts in the table. -/
theorem cover_split {regs : List Region} {start stop : Nat} (hok : TableOk regs)
    (hrange : PageRange start stop)
    (h : coverLoop regs stop (regs.length + 1) (firstOverlap start regs) start = true) :
    ∃ pre post, regs = pre ++ post ∧ firstOverlap start regs = pre.length ∧
      (∀ r ∈ pre, r.limit ≤ start) ∧ ∀ r ∈ post, start < r.limit := by
  obtain ⟨pre, post, rfl, hidx⟩ := exists_split (firstOverlap_le start regs)
  refine ⟨pre, post, rfl, hidx.symm, fun r hr => ?_, fun r hr => ?_⟩
  · -- the first region of the range starts at or below it
    rw [← hidx] at h
    unfold coverLoop at h
    rw [if_pos hrange.start_lt_stop] at h
    cases post with
    | nil => simp at h
    | cons q post =>
        rw [getElem?_boundary] at h
        dsimp only at h
        split at h
        · cases h
        · rename_i hheld
          have hgap := hok.around.1 r hr
          omega
  · exact (firstOverlap_beyond hok hidx.symm r hr).lt_limit
      (hok.regions r (List.mem_append_right pre hr))

theorem aboveStop_of_clear {regs : List Region} {start stop : Nat} (hok : TableOk regs)
    (hclear : ¬ TopMissed regs start stop) : AboveStop stop regs := by
  intro r hr htop
  obtain ⟨front, hregs⟩ := hok.eq_concat_of_top hr htop
  by_contra hnot
  exact hclear ⟨front, r, hregs, htop, Or.inl (Nat.lt_of_not_le hnot)⟩

end Mman

end WasixLibc
