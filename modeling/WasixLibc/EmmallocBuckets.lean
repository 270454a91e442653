/-
The buckets of free regions.

A larger size goes to the same bucket or to a later one, so the first region of
any later bucket is large enough for a request.  Every free region is in the
bucket of its size.
-/
import WasixLibc.EmmallocLayout

namespace WasixLibc

namespace Emmalloc

open FiledBins (Filed)

/-! The bucket of a size -/

theorem bucket_small {n : Nat} (hn : n < 128) : computeFreeListBucket n = n / 8 - 1 := by
  rw [computeFreeListBucket, if_pos hn, Nat.shiftRight_eq_div_pow]

/-- The three highest bits, without the first, and the place of the first. -/
theorem bucket_middle {n : Nat} (hn : 128 ≤ n) (hlog : n.log2 < 12) :
    computeFreeListBucket n + 18 = 4 * n.log2 + n / 2 ^ (n.log2 - 2) ∧
      4 ≤ n / 2 ^ (n.log2 - 2) ∧ n / 2 ^ (n.log2 - 2) < 8 := by
  have hpos : n ≠ 0 := by omega
  have hlow : 2 ^ n.log2 ≤ n := Nat.log2_self_le hpos
  have hhigh : n < 2 ^ (n.log2 + 1) := Nat.lt_log2_self
  have hseven : 7 ≤ n.log2 := (Nat.le_log2 hpos).mpr hn
  have hpow : 2 ^ n.log2 = 4 * 2 ^ (n.log2 - 2) := by
    conv_lhs => rw [show n.log2 = n.log2 - 2 + 2 by omega, pow_add]
    omega
  have hfour : 4 ≤ n / 2 ^ (n.log2 - 2) := by
    rw [Nat.le_div_iff_mul_le (Nat.two_pow_pos _)]
    omega
  have height : n / 2 ^ (n.log2 - 2) < 8 := by
    rw [Nat.div_lt_iff_lt_mul (Nat.two_pow_pos _)]
    rw [pow_succ] at hhigh
    omega
  refine ⟨?_, hfour, height⟩
  have hxor : ∀ x < 8, 4 ≤ x → x ^^^ 4 = x - 4 := by decide
  have hclz : clz n = 31 - n.log2 := rfl
  have hshift : 29 - clz n = n.log2 - 2 := by omega
  rw [computeFreeListBucket, if_neg (by omega), if_pos (by omega), hshift,
    Nat.shiftRight_eq_div_pow, hxor _ height hfour, Nat.shiftLeft_eq]
  omega

/-- The two highest bits, without the first, and the place of the first. -/
theorem bucket_large {n : Nat} (hlog : 12 ≤ n.log2) (hn : n < 4294967296) :
    computeFreeListBucket n = min (2 * n.log2 + 7 + n / 2 ^ (n.log2 - 1)) 63 ∧
      2 ≤ n / 2 ^ (n.log2 - 1) ∧ n / 2 ^ (n.log2 - 1) < 4 := by
  have hpos : n ≠ 0 := by
    rintro rfl
    simp at hlog
  have hlow : 2 ^ n.log2 ≤ n := Nat.log2_self_le hpos
  have hhigh : n < 2 ^ (n.log2 + 1) := Nat.lt_log2_self
  have hmax : n.log2 < 32 := (Nat.log2_lt hpos).mpr hn
  have hpow : 2 ^ n.log2 = 2 * 2 ^ (n.log2 - 1) := by
    conv_lhs => rw [show n.log2 = n.log2 - 1 + 1 by omega, pow_succ]
    omega
  have htwo : 2 ≤ n / 2 ^ (n.log2 - 1) := by
    rw [Nat.le_div_iff_mul_le (Nat.two_pow_pos _)]
    omega
  have hfour : n / 2 ^ (n.log2 - 1) < 4 := by
    rw [Nat.div_lt_iff_lt_mul (Nat.two_pow_pos _)]
    rw [pow_succ] at hhigh
    omega
  refine ⟨?_, htwo, hfour⟩
  have hxor : ∀ x < 4, 2 ≤ x → x ^^^ 2 = x - 2 := by decide
  have h4096 : 2 ^ 12 ≤ n := (Nat.le_log2 hpos).mp hlog
  have hclz : clz n = 31 - n.log2 := rfl
  have hshift : 30 - clz n = n.log2 - 1 := by omega
  rw [computeFreeListBucket, if_neg (by omega), if_neg (by omega), hshift,
    Nat.shiftRight_eq_div_pow, hxor _ hfour htwo, Nat.shiftLeft_eq, hclz]
  simp only [NUM_FREE_BUCKETS]
  omega

theorem bucket_mono {m n : Nat} (hmn : m ≤ n) (hn : n < 4294967296) :
    computeFreeListBucket m ≤ computeFreeListBucket n := by
  have hsame : ∀ k, m / k ≤ n / k := fun k => Nat.div_le_div_right hmn
  by_cases hm128 : m < 128
  · have hm := bucket_small hm128
    by_cases hn128 : n < 128
    · have hn' := bucket_small hn128
      omega
    · have hseven : 7 ≤ n.log2 := (Nat.le_log2 (by omega)).mpr (by omega)
      by_cases hlog : n.log2 < 12
      · have hn' := bucket_middle (by omega) hlog
        omega
      · have hn' := bucket_large (by omega) hn
        omega
  · have hle : m.log2 ≤ n.log2 :=
      (Nat.le_log2 (by omega)).mpr (Nat.le_trans (Nat.log2_self_le (by omega)) hmn)
    by_cases hlog : m.log2 < 12
    · have hm := bucket_middle (by omega) hlog
      by_cases hlog' : n.log2 < 12
      · have hn' := bucket_middle (by omega) hlog'
        rcases Nat.lt_or_eq_of_le hle with hlt | heq
        · omega
        · have hpart := hsame (2 ^ (n.log2 - 2))
          rw [heq] at hm
          omega
      · have hn' := bucket_large (by omega) hn
        omega
    · have hm := bucket_large (n := m) (by omega) (by omega)
      have hn' := bucket_large (n := n) (by omega) hn
      rcases Nat.lt_or_eq_of_le hle with hlt | heq
      · omega
      · have hpart := hsame (2 ^ (n.log2 - 1))
        rw [heq] at hm
        omega

theorem bucket_lt {n : Nat} (hn : n < 4294967296) :
    computeFreeListBucket n < NUM_FREE_BUCKETS := by
  have hmax := bucket_mono (Nat.le_of_lt_succ hn) (Nat.lt_succ_self _)
  have hlast : computeFreeListBucket 4294967295 = 63 := by decide
  rw [hlast] at hmax
  exact Nat.lt_succ_of_le hmax

/-- Bucket 60 of the table in the source. -/
example : computeFreeListBucket 50331647 = 59 ∧ computeFreeListBucket 50331648 = 60 ∧
    computeFreeListBucket 67108863 = 60 ∧ computeFreeListBucket 67108864 = 61 := by decide

/-! The free regions -/

/-- The regions whose addresses are in the buckets. -/
def freeRegions (regions : List Region) : List Region := regions.filter (·.kind == .free)

variable {roots : List RootRegion} {r : Region} {front back before behind : List Region} {h : Heap}

theorem freeRegions_append (regions regions' : List Region) :
    freeRegions (regions ++ regions') = freeRegions regions ++ freeRegions regions' :=
  List.filter_append ..

theorem freeRegions_insert_free (hr : r.kind = .free) :
    freeRegions (before ++ r :: behind) = freeRegions before ++ r :: freeRegions behind := by
  rw [freeRegions_append]
  exact congrArg _ (List.filter_cons_of_pos (by simp [hr]))

theorem freeRegions_insert_used (hr : r.kind ≠ .free) :
    freeRegions (before ++ r :: behind) = freeRegions before ++ freeRegions behind := by
  rw [freeRegions_append]
  exact congrArg _ (List.filter_cons_of_neg (by simpa using hr))

theorem mem_freeRegions {regions : List Region} :
    r ∈ freeRegions regions ↔ r ∈ regions ∧ r.kind = .free := by
  simp [freeRegions]

theorem Laid.free_addr_ne (hlaid : Laid roots (before ++ r :: behind)) :
    ∀ s ∈ freeRegions before ++ freeRegions behind, s.addr ≠ r.addr := by
  intro s hs
  rw [← freeRegions_append] at hs
  exact hlaid.addr_ne s (List.mem_filter.mp hs).1

/-- The buckets hold the addresses of `free`, and those that do are marked. -/
structure Bucketed (free : List Region) (h : Heap) : Prop where
  filed : Filed Region.addr Region.bucket h.freeRegionBuckets free
  used : ∀ i, h.freeRegionBuckets i ≠ [] → h.freeRegionBucketsUsed.getLsbD i = true

theorem getLsbD_bucketBit {b : Nat} (hb : b < NUM_FREE_BUCKETS) (i : Nat) :
    (bucketBit b).getLsbD i = decide (i = b) := by
  rw [bucketBit, ← BitVec.twoPow_eq, BitVec.getLsbD_twoPow]
  by_cases hi : i = b
  · subst hi
    simpa using hb
  · simp [hi, Ne.symm hi]

theorem Bucketed.unlink (hb : Bucketed (front ++ r :: back) h)
    (hne : ∀ s ∈ front ++ back, s.addr ≠ r.addr) :
    Bucketed (front ++ back) (unlinkFromFreeList r h) where
  filed := hb.filed.remove hne
  used i hi := by
    refine hb.used i fun hnil => hi ?_
    show (h.freeRegionBuckets i).erase r.addr = []
    rw [hnil, List.erase_nil]

theorem Bucketed.link (hb : Bucketed (front ++ back) h)
    (hne : ∀ s ∈ front ++ back, s.addr ≠ r.addr) (hbucket : r.bucket < NUM_FREE_BUCKETS) :
    Bucketed (front ++ r :: back) (linkToFreeList r h) where
  filed := hb.filed.file hne
  used i hi := by
    show (h.freeRegionBucketsUsed ||| bucketBit r.bucket).getLsbD i = true
    rw [BitVec.getLsbD_or, getLsbD_bucketBit hbucket, Bool.or_eq_true]
    by_cases heq : i = r.bucket
    · exact Or.inr (by simpa using heq)
    · have hsame : (linkToFreeList r h).freeRegionBuckets i = h.freeRegionBuckets i :=
        Function.update_of_ne heq _ _
      rw [hsame] at hi
      exact Or.inl (hb.used i hi)

/-- A region goes to the end of its bucket. -/
theorem Bucketed.defer (hb : Bucketed (front ++ r :: back) h)
    (hne : ∀ s ∈ front ++ back, s.addr ≠ r.addr) :
    Bucketed (front ++ r :: back) (prependToFreeList r r.bucket (unlinkFromFreeList r h)) where
  filed := hb.filed.defer hne
  used i hi := by
    show h.freeRegionBucketsUsed.getLsbD i = true
    by_cases heq : i = r.bucket
    · have hmem : r.addr ∈ h.freeRegionBuckets i :=
        (hb.filed.mem_iff i r.addr).mpr ⟨r, by simp, rfl, heq.symm⟩
      exact hb.used i (List.ne_nil_of_mem hmem)
    · have hsame : (prependToFreeList r r.bucket (unlinkFromFreeList r h)).freeRegionBuckets i =
          (unlinkFromFreeList r h).freeRegionBuckets i := Function.update_of_ne heq _ _
      rw [hsame] at hi
      exact (hb.unlink hne).used i hi

/-- The mark of an empty bucket is taken back. -/
theorem Bucketed.reset {free : List Region} {i : Nat} (hb : Bucketed free h)
    (hi : i < NUM_FREE_BUCKETS) (hnil : h.freeRegionBuckets i = []) :
    Bucketed free { h with
      freeRegionBucketsUsed := h.freeRegionBucketsUsed &&& ~~~bucketBit i } where
  filed := hb.filed
  used j hj := by
    have hne : j ≠ i := by
      rintro rfl
      exact hj hnil
    have hused := hb.used j hj
    have hj64 : j < 64 := BitVec.lt_of_getLsbD hused
    rw [BitVec.getLsbD_and, BitVec.getLsbD_not, getLsbD_bucketBit hi, hused]
    simp [hne, hj64]

end Emmalloc

end WasixLibc
