/-
Heaps in the shape of Leonardo trees, which lie in an array with the root last.

A tree of order k + 2 is a tree of order k + 1, then a tree of order k, then
the root.  `sift` lets the root of such a tree sink; `trinkle` lets it move
first along the roots of the trees before it.  Both only exchange entries,
whatever the comparison answers.
-/
import Mathlib.Data.Int.Order.Basic
import Mathlib.Logic.Equiv.Basic

namespace WasixLibc

universe u

variable {α : Type u}

/-- A comparison that orders: it answers the same question from both sides. -/
structure Consistent (cmp : α → α → Int) : Prop where
  flip : ∀ x y, 0 ≤ cmp x y ↔ cmp y x ≤ 0
  trans : ∀ {x y z}, cmp x y ≤ 0 → cmp y z ≤ 0 → cmp x z ≤ 0

namespace Consistent

variable {cmp : α → α → Int}

theorem refl (h : Consistent cmp) (x : α) : cmp x x ≤ 0 := by
  rcases Int.le_total (cmp x x) 0 with hle | hge
  · exact hle
  · exact (h.flip x x).mp hge

theorem le_of_not_le (h : Consistent cmp) {x y : α} (hnot : ¬ cmp x y ≤ 0) : cmp y x ≤ 0 := by
  apply (h.flip x y).mp
  omega

end Consistent

/-- `b` is `a` with entries exchanged, all at positions in `P`. -/
def Exchanged (P : Nat → Prop) (a b : Nat → α) : Prop :=
  ∃ σ : Equiv.Perm Nat, (∀ i, ¬ P i → σ i = i) ∧ b = a ∘ σ

namespace Exchanged

variable {P Q : Nat → Prop} {a b c : Nat → α}

theorem refl (P : Nat → Prop) (a : Nat → α) : Exchanged P a a :=
  ⟨Equiv.refl _, fun _ _ => rfl, rfl⟩

theorem swap (a : Nat → α) {i j : Nat} (hi : P i) (hj : P j) :
    Exchanged P a (a ∘ Equiv.swap i j) := by
  refine ⟨Equiv.swap i j, fun k hk => ?_, rfl⟩
  apply Equiv.swap_apply_of_ne_of_ne
  · rintro rfl
    exact hk hi
  · rintro rfl
    exact hk hj

theorem trans (hab : Exchanged P a b) (hbc : Exchanged P b c) : Exchanged P a c := by
  obtain ⟨σ, hσ, rfl⟩ := hab
  obtain ⟨τ, hτ, rfl⟩ := hbc
  refine ⟨τ.trans σ, fun i hi => ?_, rfl⟩
  rw [Equiv.trans_apply, hτ i hi, hσ i hi]

theorem mono (h : Exchanged P a b) (hPQ : ∀ i, P i → Q i) : Exchanged Q a b := by
  obtain ⟨σ, hσ, hb⟩ := h
  exact ⟨σ, fun i hi => hσ i fun hp => hi (hPQ i hp), hb⟩

theorem outside (h : Exchanged P a b) {i : Nat} (hi : ¬ P i) : b i = a i := by
  obtain ⟨σ, hσ, rfl⟩ := h
  rw [Function.comp_apply, hσ i hi]

/-- An entry comes from somewhere in `P`. -/
theorem source (h : Exchanged P a b) {i : Nat} (hi : P i) : ∃ j, P j ∧ b i = a j := by
  obtain ⟨σ, hσ, rfl⟩ := h
  refine ⟨σ i, ?_, rfl⟩
  by_contra hout
  have hfix : σ i = i := σ.injective (hσ (σ i) hout)
  rw [hfix] at hout
  exact hout hi

/-- An entry goes to somewhere in `P`. -/
theorem target (h : Exchanged P a b) {i : Nat} (hi : P i) : ∃ j, P j ∧ b j = a i := by
  obtain ⟨σ, hσ, rfl⟩ := h
  refine ⟨σ.symm i, ?_, by rw [Function.comp_apply, Equiv.apply_symm_apply]⟩
  by_contra hout
  have hfix := hσ _ hout
  rw [Equiv.apply_symm_apply] at hfix
  rw [← hfix] at hout
  exact hout hi

/-- What holds of all entries in `P` holds of them afterwards. -/
theorem forall_entries (h : Exchanged P a b) (p : α → Prop) (hp : ∀ i, P i → p (a i)) {i : Nat}
    (hi : P i) : p (b i) := by
  obtain ⟨j, hj, hentry⟩ := h.source hi
  rw [hentry]
  exact hp j hj

end Exchanged

namespace Leonardo

/-- How many entries a tree of this order has. -/
def size : Nat → Nat
  | 0 => 1
  | 1 => 1
  | k + 2 => size k + size (k + 1) + 1

theorem size_add_two (k : Nat) : size (k + 2) = size k + size (k + 1) + 1 := rfl

theorem size_pos (k : Nat) : 0 < size k := by
  induction k using size.induct with
  | case1 => exact Nat.one_pos
  | case2 => exact Nat.one_pos
  | case3 k _ _ => exact Nat.succ_pos _

theorem size_small {k : Nat} (hsmall : k ≤ 1) : size k = 1 := by
  cases k with
  | zero => rfl
  | succ k =>
      obtain rfl : k = 0 := by omega
      rfl

theorem size_le_succ (k : Nat) : size k ≤ size (k + 1) := by
  cases k with
  | zero => exact Nat.le_refl _
  | succ k =>
      rw [size_add_two]
      omega

theorem size_mono {j k : Nat} (hle : j ≤ k) : size j ≤ size k := by
  induction hle with
  | refl => exact Nat.le_refl _
  | step _ ih => exact Nat.le_trans ih (size_le_succ _)

/-- The positions of a tree with its root at `r`. -/
def InTree (k r i : Nat) : Prop := r < i + size k ∧ i ≤ r

theorem inTree_root (k r : Nat) : InTree k r r := by
  have hpos := size_pos k
  exact ⟨by omega, Nat.le_refl _⟩

section Tree

variable {k r i : Nat}

theorem InTree.right (hfits : size (k + 2) ≤ r + 1) (hi : InTree k (r - 1) i) :
    InTree (k + 2) r i ∧ i < r := by
  rw [size_add_two] at hfits
  obtain ⟨hlow, hhigh⟩ := hi
  refine ⟨⟨?_, by omega⟩, by omega⟩
  rw [size_add_two]
  omega

theorem InTree.left (hfits : size (k + 2) ≤ r + 1) (hi : InTree (k + 1) (r - 1 - size k) i) :
    InTree (k + 2) r i ∧ i < r ∧ i + size k < r := by
  rw [size_add_two] at hfits
  obtain ⟨hlow, hhigh⟩ := hi
  refine ⟨⟨?_, by omega⟩, by omega, by omega⟩
  rw [size_add_two]
  omega

/-- A position of a tree is the root or lies in one of the two trees below it. -/
theorem InTree.cases (hfits : size (k + 2) ≤ r + 1) (hi : InTree (k + 2) r i) :
    i = r ∨ InTree k (r - 1) i ∨ InTree (k + 1) (r - 1 - size k) i := by
  obtain ⟨hlow, hhigh⟩ := hi
  rw [size_add_two] at hlow hfits
  have hpos := size_pos k
  unfold InTree
  omega

theorem fits_right (hfits : size (k + 2) ≤ r + 1) : size k ≤ r - 1 + 1 := by
  rw [size_add_two] at hfits
  omega

theorem fits_left (hfits : size (k + 2) ≤ r + 1) : size (k + 1) ≤ r - 1 - size k + 1 := by
  rw [size_add_two] at hfits
  omega

end Tree

/-- The root sinks, each time to the place of the larger root below it. -/
def sift (cmp : α → α → Int) : Nat → Nat → (Nat → α) → Nat → α
  | k + 2, r, a =>
      if 0 ≤ cmp (a r) (a (r - 1 - size k)) ∧ 0 ≤ cmp (a r) (a (r - 1)) then a
      else if 0 ≤ cmp (a (r - 1 - size k)) (a (r - 1)) then
        sift cmp (k + 1) (r - 1 - size k) (a ∘ Equiv.swap r (r - 1 - size k))
      else sift cmp k (r - 1) (a ∘ Equiv.swap r (r - 1))
  | _, _, a => a

theorem sift_exchanged (cmp : α → α → Int) (k r : Nat) (a : Nat → α) (hfits : size k ≤ r + 1) :
    Exchanged (InTree k r) a (sift cmp k r a) := by
  induction k, r, a using sift.induct cmp with
  | case1 k r a hstop =>
      rw [sift, if_pos hstop]
      exact Exchanged.refl _ _
  | case2 k r a hstop hleft ih =>
      rw [sift, if_neg hstop, if_pos hleft]
      apply Exchanged.trans
      · exact Exchanged.swap a (inTree_root _ _) (InTree.left hfits (inTree_root _ _)).1
      · exact (ih (fits_left hfits)).mono fun i hi => (InTree.left hfits hi).1
  | case3 k r a hstop hleft ih =>
      rw [sift, if_neg hstop, if_neg hleft]
      apply Exchanged.trans
      · exact Exchanged.swap a (inTree_root _ _) (InTree.right hfits (inTree_root _ _)).1
      · exact (ih (fits_right hfits)).mono fun i hi => (InTree.right hfits hi).1
  | case4 k r a hsmall =>
      rw [sift]
      · exact Exchanged.refl _ _
      · exact hsmall

/-- No root is smaller than the roots below it. -/
def IsHeap (cmp : α → α → Int) (a : Nat → α) : Nat → Nat → Prop
  | k + 2, r => cmp (a (r - 1)) (a r) ≤ 0 ∧ cmp (a (r - 1 - size k)) (a r) ≤ 0 ∧
      IsHeap cmp a k (r - 1) ∧ IsHeap cmp a (k + 1) (r - 1 - size k)
  | _, _ => True

/-- The trees below the root are heaps. -/
def HeapsBelow (cmp : α → α → Int) (a : Nat → α) : Nat → Nat → Prop
  | k + 2, r => IsHeap cmp a k (r - 1) ∧ IsHeap cmp a (k + 1) (r - 1 - size k)
  | _, _ => True

variable {cmp : α → α → Int} {a b : Nat → α} {k r : Nat}

theorem IsHeap.below (h : IsHeap cmp a k r) : HeapsBelow cmp a k r := by
  match k with
  | 0 => exact trivial
  | 1 => exact trivial
  | k + 2 => exact h.2.2

theorem isHeap_small (hsmall : k ≤ 1) : IsHeap cmp a k r := by
  match k with
  | 0 => exact trivial
  | 1 => exact trivial
  | k + 2 => omega

theorem heapsBelow_small (hsmall : k ≤ 1) : HeapsBelow cmp a k r := by
  match k with
  | 0 => exact trivial
  | 1 => exact trivial
  | k + 2 => omega

/-- A heap depends on its own entries only. -/
theorem IsHeap.congr (hfits : size k ≤ r + 1) (h : IsHeap cmp a k r)
    (hsame : ∀ i, InTree k r i → b i = a i) : IsHeap cmp b k r := by
  induction k, r using IsHeap.induct with
  | case1 k r ihright ihleft =>
      obtain ⟨hright, hleft, hheapRight, hheapLeft⟩ := h
      have hroot := hsame r (inTree_root _ _)
      have hsameRight : ∀ i, InTree k (r - 1) i → b i = a i := fun i hi =>
        hsame i (InTree.right hfits hi).1
      have hsameLeft : ∀ i, InTree (k + 1) (r - 1 - size k) i → b i = a i := fun i hi =>
        hsame i (InTree.left hfits hi).1
      refine ⟨?_, ?_, ihright (fits_right hfits) hheapRight hsameRight,
        ihleft (fits_left hfits) hheapLeft hsameLeft⟩
      · rw [hroot, hsameRight _ (inTree_root _ _)]
        exact hright
      · rw [hroot, hsameLeft _ (inTree_root _ _)]
        exact hleft
  | case2 k r hsmall =>
      apply isHeap_small
      by_contra hlarge
      exact hsmall (k - 2) (by omega)

theorem HeapsBelow.congr (hfits : size k ≤ r + 1) (h : HeapsBelow cmp a k r)
    (hsame : ∀ i, InTree k r i → i < r → b i = a i) : HeapsBelow cmp b k r := by
  match k with
  | 0 => exact trivial
  | 1 => exact trivial
  | k + 2 =>
      obtain ⟨hright, hleft⟩ := h
      constructor
      · apply hright.congr (fits_right hfits)
        intro i hi
        exact hsame i (InTree.right hfits hi).1 (InTree.right hfits hi).2
      · apply hleft.congr (fits_left hfits)
        intro i hi
        exact hsame i (InTree.left hfits hi).1 (InTree.left hfits hi).2.1

/-- The root of a heap is its largest entry. -/
theorem IsHeap.le_root (hcmp : Consistent cmp) (hfits : size k ≤ r + 1) (h : IsHeap cmp a k r)
    {i : Nat} (hi : InTree k r i) : cmp (a i) (a r) ≤ 0 := by
  induction k, r using IsHeap.induct with
  | case1 k r ihright ihleft =>
      obtain ⟨hright, hleft, hheapRight, hheapLeft⟩ := h
      rcases hi.cases hfits with rfl | hi | hi
      · exact hcmp.refl _
      · exact hcmp.trans (ihright (fits_right hfits) hheapRight hi) hright
      · exact hcmp.trans (ihleft (fits_left hfits) hheapLeft hi) hleft
  | case2 k r hsmall =>
      have hone : size k = 1 := by
        match k with
        | 0 => rfl
        | 1 => rfl
        | k + 2 => exact absurd rfl (hsmall k)
      obtain ⟨hlow, hhigh⟩ := hi
      obtain rfl : i = r := by omega
      exact hcmp.refl _

/-- The root changes places with a root below it and sinks on from there. -/
theorem sink (hcmp : Consistent cmp) {j c : Nat} (hfits : size j ≤ c + 1) (hbelow : c < r)
    (hheap : IsHeap cmp a j c) (hsinks : cmp (a r) (a c) ≤ 0) :
    HeapsBelow cmp (a ∘ Equiv.swap r c) j c ∧ sift cmp j c (a ∘ Equiv.swap r c) r = a c ∧
      cmp (sift cmp j c (a ∘ Equiv.swap r c) c) (a c) ≤ 0 ∧
      ∀ i, i ≠ r → ¬ InTree j c i → sift cmp j c (a ∘ Equiv.swap r c) i = a i := by
  have hmoved := sift_exchanged cmp j c (a ∘ Equiv.swap r c) hfits
  have hother : ∀ i, i ≠ r → i ≠ c → (a ∘ Equiv.swap r c) i = a i := by
    intro i hr hc
    rw [Function.comp_apply, Equiv.swap_apply_of_ne_of_ne hr hc]
  have hbound : ∀ i, InTree j c i → cmp ((a ∘ Equiv.swap r c) i) (a c) ≤ 0 := by
    intro i hi
    by_cases hic : i = c
    · rw [hic, Function.comp_apply, Equiv.swap_apply_right]
      exact hsinks
    · rw [hother i (by have := hi.2; omega) hic]
      exact hheap.le_root hcmp hfits hi
  refine ⟨?_, ?_, ?_, ?_⟩
  · apply hheap.below.congr hfits
    rintro i - hi
    exact hother i (by omega) (by omega)
  · rw [hmoved.outside fun hin => absurd hin.2 (by omega), Function.comp_apply,
      Equiv.swap_apply_left]
  · exact hmoved.forall_entries (fun x => cmp x (a c) ≤ 0) hbound (inTree_root _ _)
  · intro i hr hi
    rw [hmoved.outside hi]
    apply hother i hr
    rintro rfl
    exact hi (inTree_root _ _)

/-- What sinks into heaps leaves a heap. -/
theorem sift_heap (hcmp : Consistent cmp) (hfits : size k ≤ r + 1) (h : HeapsBelow cmp a k r) :
    IsHeap cmp (sift cmp k r a) k r := by
  induction k, r, a using sift.induct cmp with
  | case1 k r a hstop =>
      rw [sift, if_pos hstop]
      exact ⟨(hcmp.flip _ _).mp hstop.2, (hcmp.flip _ _).mp hstop.1, h.1, h.2⟩
  | case2 k r a hstop hleft ih =>
      rw [sift, if_neg hstop, if_pos hleft]
      obtain ⟨hheapRight, hheapLeft⟩ := h
      have hsiblings : cmp (a (r - 1)) (a (r - 1 - size k)) ≤ 0 := (hcmp.flip _ _).mp hleft
      have hsinks : cmp (a r) (a (r - 1 - size k)) ≤ 0 := by
        by_contra hlarge
        have hge : cmp (a (r - 1 - size k)) (a r) ≤ 0 := hcmp.le_of_not_le hlarge
        apply hstop
        exact ⟨(hcmp.flip _ _).mpr hge, (hcmp.flip _ _).mpr (hcmp.trans hsiblings hge)⟩
      have hfits' := hfits
      rw [size_add_two] at hfits'
      have hpos := size_pos k
      have hpos' := size_pos (k + 1)
      obtain ⟨hbelow, hroot, hchild, hother⟩ :=
        sink (r := r) hcmp (fits_left hfits) (by omega) hheapLeft hsinks
      have houtside : ∀ i, InTree k (r - 1) i → ¬ InTree (k + 1) (r - 1 - size k) i :=
        fun i hi hin => absurd hin.2 (by have := hi.1; omega)
      refine ⟨?_, ?_, ?_, ih (fits_left hfits) hbelow⟩
      · rw [hroot, hother _ (by omega) (houtside _ (inTree_root _ _))]
        exact hsiblings
      · rw [hroot]
        exact hchild
      · apply hheapRight.congr (fits_right hfits)
        intro i hi
        exact hother i (by have := hi.2; omega) (houtside i hi)
  | case3 k r a hstop hleft ih =>
      rw [sift, if_neg hstop, if_neg hleft]
      obtain ⟨hheapRight, hheapLeft⟩ := h
      have hsiblings : cmp (a (r - 1 - size k)) (a (r - 1)) ≤ 0 := by omega
      have hsinks : cmp (a r) (a (r - 1)) ≤ 0 := by
        by_contra hlarge
        have hge : cmp (a (r - 1)) (a r) ≤ 0 := hcmp.le_of_not_le hlarge
        apply hstop
        exact ⟨(hcmp.flip _ _).mpr (hcmp.trans hsiblings hge), (hcmp.flip _ _).mpr hge⟩
      have hfits' := hfits
      rw [size_add_two] at hfits'
      have hpos := size_pos k
      have hpos' := size_pos (k + 1)
      obtain ⟨hbelow, hroot, hchild, hother⟩ :=
        sink (r := r) hcmp (fits_right hfits) (by omega) hheapRight hsinks
      have houtside : ∀ i, InTree (k + 1) (r - 1 - size k) i → ¬ InTree k (r - 1) i :=
        fun i hi hin => absurd hin.1 (by have := hi.2; omega)
      refine ⟨?_, ?_, ih (fits_right hfits) hbelow, ?_⟩
      · rw [hroot]
        exact hchild
      · rw [hroot, hother _ (by omega) (houtside _ (inTree_root _ _))]
        exact hsiblings
      · apply hheapLeft.congr (fits_left hfits)
        intro i hi
        exact hother i (by have := hi.2; omega) (houtside i hi)
  | case4 k r a hsmall =>
      apply isHeap_small
      by_contra hlarge
      exact hsmall (k - 2) (by omega)

/-! Trees side by side -/

/-- How many entries the trees have, of which the orders are given from the right. -/
def total : List Nat → Nat
  | [] => 0
  | k :: orders => size k + total orders

/-- The positions of the trees, the last of which has its root at `r`. -/
def InForest (orders : List Nat) (r i : Nat) : Prop := r < i + total orders ∧ i ≤ r

/-- All trees are heaps, and their roots ascend from left to right. -/
def IsForest (cmp : α → α → Int) (a : Nat → α) : List Nat → Nat → Prop
  | [], _ => True
  | k :: orders, r => IsHeap cmp a k r ∧
      (orders ≠ [] → cmp (a (r - size k)) (a r) ≤ 0) ∧ IsForest cmp a orders (r - size k)

variable {orders : List Nat}

theorem total_pos (hne : orders ≠ []) : 0 < total orders := by
  cases orders with
  | nil => exact absurd rfl hne
  | cons k orders =>
      have hpos := size_pos k
      rw [total]
      omega

theorem inForest_root (k : Nat) (orders : List Nat) (r : Nat) : InForest (k :: orders) r r :=
  ⟨by have := total_pos (List.cons_ne_nil k orders); omega, Nat.le_refl _⟩

theorem InTree.inForest {i : Nat} (hi : InTree k r i) (orders : List Nat) :
    InForest (k :: orders) r i := by
  obtain ⟨hlow, hhigh⟩ := hi
  refine ⟨?_, hhigh⟩
  rw [total]
  omega

/-- The positions of the trees before the last one. -/
theorem InForest.before (hfits : total (k :: orders) ≤ r + 1) {i : Nat}
    (hi : InForest orders (r - size k) i) : InForest (k :: orders) r i ∧ i + size k ≤ r := by
  obtain ⟨hlow, hhigh⟩ := hi
  have hne : orders ≠ [] := by
    rintro rfl
    rw [total] at hlow
    omega
  have hpos := total_pos hne
  rw [total] at hfits
  refine ⟨⟨?_, by omega⟩, by omega⟩
  rw [total]
  omega

theorem InForest.cases (hfits : total (k :: orders) ≤ r + 1) {i : Nat}
    (hi : InForest (k :: orders) r i) :
    InTree k r i ∨ orders ≠ [] ∧ InForest orders (r - size k) i := by
  obtain ⟨hlow, hhigh⟩ := hi
  rw [total] at hlow hfits
  by_cases hin : r < i + size k
  · exact Or.inl ⟨hin, hhigh⟩
  · refine Or.inr ⟨?_, by omega, by omega⟩
    rintro rfl
    rw [total] at hlow
    omega

/-- The trees depend on their own entries only. -/
theorem IsForest.congr (hfits : total orders ≤ r + 1) (h : IsForest cmp a orders r)
    (hsame : ∀ i, InForest orders r i → b i = a i) : IsForest cmp b orders r := by
  induction orders generalizing r with
  | nil => exact trivial
  | cons k orders ih =>
      obtain ⟨hheap, hroots, hbefore⟩ := h
      have hfits' := hfits
      rw [total] at hfits'
      refine ⟨?_, fun hne => ?_, ?_⟩
      · apply hheap.congr (by omega)
        intro i hi
        exact hsame i (hi.inForest orders)
      · have hpos := total_pos hne
        have hin : InForest orders (r - size k) (r - size k) := ⟨by omega, Nat.le_refl _⟩
        rw [hsame r (inForest_root _ _ _), hsame _ (hin.before hfits).1]
        exact hroots hne
      · apply ih (by have := size_pos k; omega) hbefore
        intro i hi
        exact hsame i (hi.before hfits).1

/-- The last root is the largest entry. -/
theorem IsForest.le_root (hcmp : Consistent cmp) (hfits : total orders ≤ r + 1)
    (h : IsForest cmp a orders r) {i : Nat} (hi : InForest orders r i) : cmp (a i) (a r) ≤ 0 := by
  induction orders generalizing r with
  | nil =>
      have hlow := hi.1
      rw [total] at hlow
      exact absurd hi.2 (by omega)
  | cons k orders ih =>
      obtain ⟨hheap, hroots, hbefore⟩ := h
      have hfits' := hfits
      rw [total] at hfits'
      rcases hi.cases hfits with hi | ⟨hne, hi⟩
      · exact hheap.le_root hcmp (by omega) hi
      · exact hcmp.trans (ih (by have := size_pos k; omega) hbefore hi) (hroots hne)

/-- The last root moves left past larger roots, and sinks where it stops.  A trusted last tree
is a heap already. -/
def trinkle (cmp : α → α → Int) : Bool → List Nat → Nat → (Nat → α) → Nat → α
  | _, [], _, a => a
  | trusty, k :: orders, r, a =>
      if orders = [] ∨ cmp (a (r - size k)) (a r) ≤ 0 then
        if trusty then a else sift cmp k r a
      else if trusty = false ∧ 2 ≤ k ∧ (0 ≤ cmp (a (r - 1)) (a (r - size k)) ∨
          0 ≤ cmp (a (r - 1 - size (k - 2))) (a (r - size k))) then sift cmp k r a
      else trinkle cmp false orders (r - size k) (a ∘ Equiv.swap r (r - size k))

theorem trinkle_exchanged (cmp : α → α → Int) (trusty : Bool) (orders : List Nat) (r : Nat)
    (a : Nat → α) (hfits : total orders ≤ r + 1) :
    Exchanged (InForest orders r) a (trinkle cmp trusty orders r a) := by
  induction orders generalizing trusty r a with
  | nil => exact Exchanged.refl _ _
  | cons k orders ih =>
      have hfits' := hfits
      rw [total] at hfits'
      have hsift : Exchanged (InForest (k :: orders) r) a (sift cmp k r a) :=
        (sift_exchanged cmp k r a (by omega)).mono fun i hi => hi.inForest orders
      rw [trinkle]
      split
      · split
        · exact Exchanged.refl _ _
        · exact hsift
      · rename_i hgo
        rw [not_or] at hgo
        split
        · exact hsift
        · have hpos := total_pos hgo.1
          have hin : InForest orders (r - size k) (r - size k) := ⟨by omega, Nat.le_refl _⟩
          apply Exchanged.trans
          · exact Exchanged.swap a (inForest_root _ _ _) (hin.before hfits).1
          · apply (ih false (r - size k) _ (by have := size_pos k; omega)).mono
            intro i hi
            exact (hi.before hfits).1

/-- The last tree becomes a heap, and its root large enough for the one before it. -/
theorem sift_forest (hcmp : Consistent cmp) (hfits : total (k :: orders) ≤ r + 1)
    (hbelow : HeapsBelow cmp a k r) (hbefore : IsForest cmp a orders (r - size k))
    (hlarge : orders ≠ [] → ∃ i, InTree k r i ∧ cmp (a (r - size k)) (a i) ≤ 0) :
    IsForest cmp (sift cmp k r a) (k :: orders) r := by
  have hfits' := hfits
  rw [total] at hfits'
  have hpos := size_pos k
  have hmoved := sift_exchanged cmp k r a (by omega)
  have hheap := sift_heap hcmp (by omega) hbelow
  have hout : ∀ i, i + size k ≤ r → sift cmp k r a i = a i := fun i hi =>
    hmoved.outside fun hin => absurd hin.1 (by omega)
  refine ⟨hheap, fun hne => ?_, ?_⟩
  · obtain ⟨i, hi, hle⟩ := hlarge hne
    obtain ⟨j, hj, hentry⟩ := hmoved.target hi
    have hpos' := total_pos hne
    rw [hout _ (by omega)]
    apply hcmp.trans hle
    rw [← hentry]
    exact hheap.le_root hcmp (by omega) hj
  · apply hbefore.congr (by omega)
    intro i hi
    exact hout i (hi.before hfits).2

/-- The root before a tree changes places with its root, which it exceeds. -/
theorem pass_heap {c : Nat} (hfits : size k ≤ r + 1)
    (hc : ¬ InTree k r c) (hbelow : HeapsBelow cmp a k r)
    (hroots : 2 ≤ k → cmp (a (r - 1)) (a c) ≤ 0 ∧ cmp (a (r - 1 - size (k - 2))) (a c) ≤ 0) :
    IsHeap cmp (a ∘ Equiv.swap r c) k r := by
  match k with
  | 0 => exact trivial
  | 1 => exact trivial
  | k + 2 =>
      have hfits' := hfits
      rw [size_add_two] at hfits'
      have hpos := size_pos k
      have hpos' := size_pos (k + 1)
      obtain ⟨hright, hleft⟩ := hroots (by omega)
      have hother : ∀ i, InTree (k + 2) r i → i < r → (a ∘ Equiv.swap r c) i = a i := by
        intro i hi hlt
        rw [Function.comp_apply, Equiv.swap_apply_of_ne_of_ne (by omega)]
        rintro rfl
        exact hc hi
      have hroot : (a ∘ Equiv.swap r c) r = a c := by
        rw [Function.comp_apply, Equiv.swap_apply_left]
      obtain ⟨hheapRight, hheapLeft⟩ := hbelow.congr hfits hother
      refine ⟨?_, ?_, hheapRight, hheapLeft⟩
      · rw [hroot, hother _ (InTree.right hfits (inTree_root _ _)).1 (by omega)]
        exact hright
      · rw [hroot, hother _ (InTree.left hfits (inTree_root _ _)).1 (by omega)]
        exact hleft

theorem swap_below (a : Nat → α) {i j : Nat} (hij : i < j) (hjr : j ≤ r) :
    (a ∘ Equiv.swap r j) i = a i := by
  rw [Function.comp_apply, Equiv.swap_apply_of_ne_of_ne (by omega) (by omega)]

/-- A tree beside a forest becomes part of it. -/
theorem trinkle_forest (hcmp : Consistent cmp) {trusty : Bool}
    (hfits : total (k :: orders) ≤ r + 1)
    (htree : if trusty then IsHeap cmp a k r else HeapsBelow cmp a k r)
    (hbefore : IsForest cmp a orders (r - size k)) :
    IsForest cmp (trinkle cmp trusty (k :: orders) r a) (k :: orders) r := by
  induction orders generalizing trusty k r a with
  | nil =>
      rw [trinkle, if_pos (Or.inl rfl)]
      split
      · rename_i htrusty
        rw [if_pos htrusty] at htree
        exact ⟨htree, fun hne => absurd rfl hne, trivial⟩
      · rename_i htrusty
        rw [if_neg htrusty] at htree
        exact sift_forest hcmp hfits htree hbefore fun hne => absurd rfl hne
  | cons j orders ih =>
      have hfits' := hfits
      rw [total, total] at hfits'
      have hpos := size_pos k
      have hpos' := size_pos j
      have hbelow : HeapsBelow cmp a k r := by
        split at htree
        · exact htree.below
        · exact htree
      rw [trinkle]
      split
      · rename_i hstop
        have hle : cmp (a (r - size k)) (a r) ≤ 0 := hstop.resolve_left (List.cons_ne_nil _ _)
        split
        · rename_i htrusty
          rw [if_pos htrusty] at htree
          exact ⟨htree, fun _ => hle, hbefore⟩
        · exact sift_forest hcmp hfits hbelow hbefore fun _ => ⟨r, inTree_root _ _, hle⟩
      · rename_i hgo
        have hlt : cmp (a r) (a (r - size k)) ≤ 0 :=
          hcmp.le_of_not_le fun hle => hgo (Or.inr hle)
        split
        · rename_i hchild
          obtain ⟨-, hlarge, hchild⟩ := hchild
          obtain ⟨k, rfl⟩ : ∃ n, k = n + 2 := ⟨k - 2, by omega⟩
          have hfitsTree : size (k + 2) ≤ r + 1 := by omega
          apply sift_forest hcmp hfits hbelow hbefore
          intro _
          rcases hchild with hchild | hchild
          · exact ⟨r - 1, (InTree.right hfitsTree (inTree_root _ _)).1, (hcmp.flip _ _).mp hchild⟩
          · exact ⟨r - 1 - size k, (InTree.left hfitsTree (inTree_root _ _)).1,
              (hcmp.flip _ _).mp hchild⟩
        · rename_i hsmaller
          -- the trees before, in which the last root has taken the place of a larger one
          have hother : ∀ i, i < r - size k → (a ∘ Equiv.swap r (r - size k)) i = a i :=
            fun i hi => swap_below a hi (Nat.sub_le _ _)
          have hcopy : (a ∘ Equiv.swap r (r - size k)) (r - size k) = a r := by
            rw [Function.comp_apply, Equiv.swap_apply_right]
          have hroot : (a ∘ Equiv.swap r (r - size k)) r = a (r - size k) := by
            rw [Function.comp_apply, Equiv.swap_apply_left]
          have hfitsBefore : total (j :: orders) ≤ r - size k + 1 := by
            rw [total]
            omega
          have hlast : ¬ InTree k r (r - size k) := fun hin => absurd hin.1 (by omega)
          have hmoved := trinkle_exchanged cmp false (j :: orders) (r - size k)
            (a ∘ Equiv.swap r (r - size k)) hfitsBefore
          have hstays : ∀ i, r - size k < i → trinkle cmp false (j :: orders) (r - size k)
              (a ∘ Equiv.swap r (r - size k)) i = (a ∘ Equiv.swap r (r - size k)) i :=
            fun i hi => hmoved.outside fun hin => absurd hin.2 (by omega)
          have hbound : ∀ i, InForest (j :: orders) (r - size k) i →
              cmp ((a ∘ Equiv.swap r (r - size k)) i) (a (r - size k)) ≤ 0 := by
            intro i hi
            by_cases hil : i = r - size k
            · rw [hil, hcopy]
              exact hlt
            · rw [hother i (by have := hi.2; omega)]
              exact hbefore.le_root hcmp hfitsBefore hi
          refine ⟨?_, fun _ => ?_, ?_⟩
          · have hheap : IsHeap cmp (a ∘ Equiv.swap r (r - size k)) k r := by
              apply pass_heap (by omega) hlast hbelow
              intro hlarge
              split at htree
              · rename_i htrusty
                obtain ⟨k, rfl⟩ : ∃ n, k = n + 2 := ⟨k - 2, by omega⟩
                exact ⟨hcmp.trans htree.1 hlt, hcmp.trans htree.2.1 hlt⟩
              · rename_i htrusty
                have hfalse : trusty = false := Bool.eq_false_iff.mpr htrusty
                constructor
                · by_contra hge
                  exact hsmaller ⟨hfalse, hlarge, Or.inl (by omega)⟩
                · by_contra hge
                  exact hsmaller ⟨hfalse, hlarge, Or.inr (by omega)⟩
            apply hheap.congr (by omega)
            intro i hi
            exact hstays i (by have := hi.1; omega)
          · rw [hstays r (by omega), hroot]
            exact hmoved.forall_entries (fun x => cmp x (a (r - size k)) ≤ 0) hbound
              (inForest_root _ _ _)
          · apply ih hfitsBefore
            · rw [if_neg Bool.false_ne_true]
              apply hbefore.1.below.congr (by omega)
              rintro i - hi
              exact hother i hi
            · apply hbefore.2.2.congr (by omega)
              intro i hi
              exact hother i (by have := hi.2; have := (hi.before hfitsBefore).2; omega)

end Leonardo

end WasixLibc
