/-
Smoothsort.

The entries are added one by one to a row of Leonardo trees, two trees and a
new root becoming one tree where their orders allow it.  A tree that no later
entry will extend is put in order with those before it at once.  Then the
entries are taken off again, the largest one first.
-/
import Mathlib.Data.List.Chain
import WasixLibc.LeonardoHeap

namespace WasixLibc

namespace Leonardo

universe u

variable {α : Type u} {cmp : α → α → Int} {a : Nat → α} {k r n : Nat} {orders : List Nat}

/-- Trees whose orders are at least two apart. -/
def Gapped : List Nat → Prop
  | j :: k :: orders => j + 2 ≤ k ∧ Gapped (k :: orders)
  | _ => True

/-- The orders of a row of trees: only the last two may be next to each other, and an order 0
stands beside an order 1. -/
def WellShaped : List Nat → Prop
  | [] => False
  | k :: orders => Gapped orders ∧ (k = 0 → orders.head? = some 1) ∧
      ∀ j ∈ orders.head?, k < j

/-- An entry joins the trees, with so many to come after the last root. -/
def grow (cmp : α → α → Int) (remaining : Nat) (orders : List Nat) (r : Nat) (a : Nat → α) :
    List Nat × (Nat → α) :=
  match orders with
  | [] => ([1], a)
  | k :: orders =>
      if orders.head? = some (k + 1) then ((k + 2) :: orders.tail, sift cmp k r a)
      else ((if k = 1 then 0 else 1) :: k :: orders,
        if remaining ≤ size (k - 1) then trinkle cmp false (k :: orders) r a else sift cmp k r a)

/-- The last entry leaves the trees: its tree falls apart. -/
def shrink (cmp : α → α → Int) (orders : List Nat) (r : Nat) (a : Nat → α) :
    List Nat × (Nat → α) :=
  match orders with
  | [] => ([], a)
  | k :: orders =>
      if k ≤ 1 then (orders, a)
      else ((k - 2) :: (k - 1) :: orders,
        trinkle cmp true ((k - 2) :: (k - 1) :: orders) (r - 1)
          (trinkle cmp true ((k - 1) :: orders) (r - 1 - size (k - 2)) a))

def build (cmp : α → α → Int) : Nat → List Nat → Nat → (Nat → α) → List Nat × Nat × (Nat → α)
  | 0, orders, r, a => (orders, r, a)
  | n + 1, orders, r, a =>
      build cmp n (grow cmp (n + 1) orders r a).1 (r + 1) (grow cmp (n + 1) orders r a).2

def takeOff (cmp : α → α → Int) : List Nat → Nat → (Nat → α) → Nat → α
  | _, 0, a => a
  | orders, r + 1, a =>
      takeOff cmp (shrink cmp orders (r + 1) a).1 r (shrink cmp orders (r + 1) a).2

/-- All of it, for entries at `0` to `last`. -/
def smoothsort (cmp : α → α → Int) (last : Nat) (a : Nat → α) : Nat → α :=
  let (orders, r, b) := build cmp last [1] 0 a
  takeOff cmp orders r (trinkle cmp false orders r b)

example : (List.range 8).map (smoothsort (fun x y => (x : Int) - y) 7
    fun i => [5, 3, 8, 1, 7, 2, 6, 4].getD i 0) = [1, 2, 3, 4, 5, 6, 7, 8] := by decide

/-! The shapes -/

theorem Gapped.tail (h : Gapped (k :: orders)) : Gapped orders := by
  cases orders with
  | nil => exact trivial
  | cons j orders => exact h.2

theorem Gapped.lower {j : Nat} (h : Gapped (k :: orders)) (hle : j ≤ k) : Gapped (j :: orders) := by
  cases orders with
  | nil => exact trivial
  | cons i orders => exact ⟨by have := h.1; omega, h.2⟩

theorem wellShaped_one : WellShaped [1] :=
  ⟨trivial, fun hone => absurd hone Nat.one_ne_zero, nofun⟩

theorem WellShaped.head_lt {j : Nat} (h : WellShaped (k :: j :: orders)) : k < j := h.2.2 j rfl

theorem WellShaped.tail {j : Nat} (h : WellShaped (k :: j :: orders)) :
    WellShaped (j :: orders) := by
  have hlt := h.head_lt
  refine ⟨h.1.tail, fun hj => by omega, fun i hi => ?_⟩
  cases orders with
  | nil => cases hi
  | cons _ orders =>
      cases hi
      have hgap := h.1.1
      omega

/-- The left tree of the last one can take its place. -/
theorem WellShaped.left (h : WellShaped ((k + 2) :: orders)) : WellShaped ((k + 1) :: orders) := by
  refine ⟨h.1, fun hzero => absurd hzero (Nat.succ_ne_zero _), fun i hi => ?_⟩
  have hlt := h.2.2 i hi
  omega

/-- The last tree can fall apart. -/
theorem WellShaped.children (h : WellShaped ((k + 2) :: orders)) :
    WellShaped (k :: (k + 1) :: orders) := by
  refine ⟨?_, fun hk => by rw [hk]; rfl, fun i hi => ?_⟩
  · cases orders with
    | nil => exact trivial
    | cons j orders =>
        have hlt := h.head_lt
        exact ⟨by omega, h.1⟩
  · cases hi
    omega

/-- The trees that `grow` leaves. -/
theorem WellShaped.grow (h : WellShaped orders) (cmp : α → α → Int) (n r : Nat) (a : Nat → α) :
    WellShaped (grow cmp n orders r a).1 ∧
      total (grow cmp n orders r a).1 = total orders + 1 := by
  cases orders with
  | nil => exact h.elim
  | cons k orders =>
      obtain ⟨hgaps, hzero, hlt⟩ := h
      unfold Leonardo.grow
      dsimp only
      split
      · rename_i hnext
        obtain ⟨orders, rfl⟩ := List.head?_eq_some_iff.mp hnext
        refine ⟨⟨hgaps.tail, nofun, fun i hi => ?_⟩, ?_⟩
        · cases orders with
          | nil => cases hi
          | cons j orders =>
              cases hi
              have hgap := hgaps.1
              omega
        · simp only [total, List.tail_cons, size_add_two]
          omega
      · rename_i hnext
        have hpos : k ≠ 0 := by
          rintro rfl
          exact hnext (hzero rfl)
        have hgaps' : Gapped (k :: orders) := by
          cases orders with
          | nil => exact trivial
          | cons j orders =>
              have hlt' := hlt j rfl
              have hne : j ≠ k + 1 := fun heq => hnext (by rw [heq]; rfl)
              exact ⟨by omega, hgaps⟩
        refine ⟨⟨hgaps', fun hone => ?_, fun i hi => ?_⟩, ?_⟩
        · split at hone
          · rename_i hk
            rw [hk]
            rfl
          · cases hone
        · cases hi
          split
          · omega
          · omega
        · split
          · simp only [total, size]
            omega
          · simp only [total, size]
            omega

/-- The trees that `shrink` leaves. -/
theorem WellShaped.shrink (h : WellShaped orders) (cmp : α → α → Int) (a : Nat → α)
    (htotal : total orders = r + 2) :
    WellShaped (shrink cmp orders (r + 1) a).1 ∧
      total (shrink cmp orders (r + 1) a).1 = r + 1 := by
  cases orders with
  | nil => exact h.elim
  | cons k orders =>
      rw [total] at htotal
      unfold Leonardo.shrink
      dsimp only
      split
      · rename_i hsmall
        have hone := size_small hsmall
        cases orders with
        | nil =>
            rw [total] at htotal
            omega
        | cons j orders => exact ⟨h.tail, by dsimp only; omega⟩
      · rename_i hlarge
        obtain ⟨k, rfl⟩ : ∃ m, k = m + 2 := ⟨k - 2, by omega⟩
        refine ⟨h.children, ?_⟩
        simp only [total, show k + 2 - 2 = k by omega, show k + 2 - 1 = k + 1 by omega]
        rw [size_add_two] at htotal
        omega

/-! Which entries move -/

theorem grow_exchanged (cmp : α → α → Int) (n : Nat) (a : Nat → α) (htotal : total orders = r + 1) :
    Exchanged (· ≤ r) a (grow cmp n orders r a).2 := by
  cases orders with
  | nil => exact Exchanged.refl _ _
  | cons k orders =>
      have hfits := htotal
      rw [total] at hfits
      have hsift : Exchanged (· ≤ r) a (sift cmp k r a) :=
        (sift_exchanged cmp k r a (by omega)).mono fun i hi => hi.2
      unfold grow
      dsimp only
      split
      · exact hsift
      · dsimp only
        split
        · exact (trinkle_exchanged cmp false _ r a (by omega)).mono fun i hi => hi.2
        · exact hsift

theorem shrink_exchanged (cmp : α → α → Int) (a : Nat → α) (htotal : total orders = r + 1) :
    Exchanged (· < r) a (shrink cmp orders r a).2 := by
  cases orders with
  | nil => exact Exchanged.refl _ _
  | cons k orders =>
      rw [total] at htotal
      unfold shrink
      dsimp only
      split
      · exact Exchanged.refl _ _
      · obtain ⟨k, rfl⟩ : ∃ m, k = m + 2 := ⟨k - 2, by omega⟩
        rw [size_add_two] at htotal
        have hpos := size_pos k
        have hpos' := size_pos (k + 1)
        dsimp only
        rw [show k + 2 - 2 = k by omega, show k + 2 - 1 = k + 1 by omega]
        apply Exchanged.trans
        · apply (trinkle_exchanged cmp true ((k + 1) :: orders) (r - 1 - size k) a _).mono
          · intro i hi
            have hle := hi.2
            omega
          · rw [total]
            omega
        · apply (trinkle_exchanged cmp true (k :: (k + 1) :: orders) (r - 1) _ _).mono
          · intro i hi
            have hle := hi.2
            omega
          · rw [total, total]
            omega

/-- The trees after all entries have joined. -/
theorem build_shape (cmp : α → α → Int) (n : Nat) (a : Nat → α) (hshape : WellShaped orders)
    (htotal : total orders = r + 1) :
    WellShaped (build cmp n orders r a).1 ∧ total (build cmp n orders r a).1 = r + n + 1 ∧
      (build cmp n orders r a).2.1 = r + n := by
  induction n generalizing orders r a with
  | zero => exact ⟨hshape, htotal, rfl⟩
  | succ n ih =>
      obtain ⟨hshape', htotal'⟩ := hshape.grow cmp (n + 1) r a
      obtain ⟨hbuilt, hsize, hlast⟩ :=
        ih (grow cmp (n + 1) orders r a).2 hshape' (by omega : _ = r + 1 + 1)
      rw [build]
      exact ⟨hbuilt, by omega, by omega⟩

theorem build_exchanged (cmp : α → α → Int) (n : Nat) (a : Nat → α) (hshape : WellShaped orders)
    (htotal : total orders = r + 1) :
    Exchanged (· < r + n) a (build cmp n orders r a).2.2 := by
  induction n generalizing orders r a with
  | zero => exact Exchanged.refl _ _
  | succ n ih =>
      obtain ⟨hshape', htotal'⟩ := hshape.grow cmp (n + 1) r a
      rw [build]
      apply Exchanged.trans
      · apply (grow_exchanged cmp (n + 1) a htotal).mono
        intro i hi
        omega
      · apply (ih _ hshape' (by omega)).mono
        intro i hi
        omega

theorem takeOff_exchanged (cmp : α → α → Int) (a : Nat → α) (hshape : WellShaped orders)
    (htotal : total orders = r + 1) : Exchanged (· < r) a (takeOff cmp orders r a) := by
  induction r generalizing orders a with
  | zero => exact Exchanged.refl _ _
  | succ r ih =>
      obtain ⟨hshape', htotal'⟩ := hshape.shrink cmp a htotal
      rw [takeOff]
      apply Exchanged.trans (shrink_exchanged cmp a htotal)
      apply (ih _ hshape' htotal').mono
      intro i hi
      omega

/-- The sorted entries are the entries, whatever the comparison answers. -/
theorem smoothsort_exchanged (cmp : α → α → Int) (last : Nat) (a : Nat → α) :
    Exchanged (· ≤ last) a (smoothsort cmp last a) := by
  have hone : total [1] = 0 + 1 := rfl
  obtain ⟨hshape, htotal, hlast⟩ := build_shape cmp last a wellShaped_one hone
  unfold smoothsort
  dsimp only
  rw [hlast]
  apply Exchanged.trans
  · apply (build_exchanged cmp last a wellShaped_one hone).mono
    intro i hi
    omega
  · apply Exchanged.trans
    · apply (trinkle_exchanged cmp false (build cmp last [1] 0 a).1 (0 + last) _ (by omega)).mono
      intro i hi
      have hle := hi.2
      omega
    · apply (takeOff_exchanged cmp _ hshape (by omega)).mono
      intro i hi
      omega

/-! The order of the roots while entries join -/

/-- All trees are heaps, and a root that no later entry will get above is in order with the root
before it. -/
def Growing (cmp : α → α → Int) (a : Nat → α) : List Nat → Nat → Nat → Prop
  | [], _, _ => True
  | k :: orders, r, n => IsHeap cmp a k r ∧
      (n ≤ size (k - 1) → orders ≠ [] → cmp (a (r - size k)) (a r) ≤ 0) ∧
      Growing cmp a orders (r - size k) (n + size k)

/-- The trees between two steps: the last root has not sunk. -/
def Grown (cmp : α → α → Int) (a : Nat → α) (r n : Nat) : List Nat → Prop
  | [] => False
  | k :: orders => HeapsBelow cmp a k r ∧ Growing cmp a orders (r - size k) (n + size k)

theorem IsForest.growing (h : IsForest cmp a orders r) : Growing cmp a orders r n := by
  induction orders generalizing r n with
  | nil => exact trivial
  | cons k orders ih => exact ⟨h.1, fun _ => h.2.1, ih h.2.2⟩

theorem Growing.congr {b : Nat → α} (hfits : total orders ≤ r + 1) (h : Growing cmp a orders r n)
    (hsame : ∀ i, InForest orders r i → b i = a i) : Growing cmp b orders r n := by
  induction orders generalizing r n with
  | nil => exact trivial
  | cons k orders ih =>
      obtain ⟨hheap, hroots, hbefore⟩ := h
      have hfits' := hfits
      rw [total] at hfits'
      have hpos := size_pos k
      refine ⟨?_, fun hn hne => ?_, ?_⟩
      · apply hheap.congr (by omega)
        intro i hi
        exact hsame i (hi.inForest orders)
      · have hpos' := total_pos hne
        have hin : InForest orders (r - size k) (r - size k) := ⟨by omega, Nat.le_refl _⟩
        rw [hsame r (inForest_root _ _ _), hsame _ (hin.before hfits).1]
        exact hroots hn hne
      · apply ih (by omega) hbefore
        intro i hi
        exact hsame i (hi.before hfits).1

/-- Left of a tree that will not be extended, no tree will be. -/
theorem Growing.forest (h : Growing cmp a orders r n) (hgaps : Gapped orders)
    (hdone : ∀ k ∈ orders.head?, 0 < k ∧ n ≤ size (k - 1)) : IsForest cmp a orders r := by
  induction orders generalizing r n with
  | nil => exact trivial
  | cons k orders ih =>
      obtain ⟨hpos, hn⟩ := hdone k rfl
      refine ⟨h.1, h.2.1 hn, ih h.2.2 hgaps.tail ?_⟩
      cases orders with
      | nil => exact nofun
      | cons j orders =>
          intro i hi
          cases hi
          have hgap := hgaps.1
          have hmono : size (k + 1) ≤ size (j - 1) := size_mono (by omega)
          obtain ⟨k, rfl⟩ : ∃ m, k = m + 1 := ⟨k - 1, by omega⟩
          rw [size_add_two] at hmono
          rw [Nat.add_sub_cancel] at hn
          exact ⟨by omega, by omega⟩

/-- What is proved of one step while entries join. -/
theorem Grown.grow (hcmp : Consistent cmp) (h : Grown cmp a r (n + 1) orders)
    (hshape : WellShaped orders) (htotal : total orders = r + 1) :
    Grown cmp (grow cmp (n + 1) orders r a).2 (r + 1) n (grow cmp (n + 1) orders r a).1 := by
  cases orders with
  | nil => exact h.elim
  | cons k orders =>
      obtain ⟨hbelow, hbefore⟩ := h
      obtain ⟨hgaps, hzero, hlt⟩ := hshape
      have hfits := htotal
      rw [total] at hfits
      have hpos := size_pos k
      have hheap : IsHeap cmp (sift cmp k r a) k r := sift_heap hcmp (by omega) hbelow
      have hmoved := sift_exchanged cmp k r a (by omega)
      have hout : ∀ i, i + size k ≤ r → sift cmp k r a i = a i := fun i hi =>
        hmoved.outside fun hin => absurd hin.1 (by omega)
      have hsame : ∀ i, InForest orders (r - size k) i → sift cmp k r a i = a i := fun i hi =>
        hout i (hi.before (Nat.le_of_eq htotal)).2
      unfold Leonardo.grow
      dsimp only
      split
      · rename_i hnext
        obtain ⟨orders, rfl⟩ := List.head?_eq_some_iff.mp hnext
        obtain ⟨hheap', -, hrest⟩ := hbefore.congr (by omega) hsame
        rw [total] at hfits
        have hpos' := size_pos (k + 1)
        refine ⟨⟨hheap, ?_⟩, ?_⟩
        · rw [show r + 1 - 1 - size k = r - size k by omega]
          exact hheap'
        · rw [List.tail_cons, size_add_two,
            show r + 1 - (size k + size (k + 1) + 1) = r - size k - size (k + 1) by omega,
            show n + (size k + size (k + 1) + 1) = n + 1 + size k + size (k + 1) by omega]
          exact hrest
      · rename_i hnext
        have hk : 0 < k := by
          apply Nat.pos_of_ne_zero
          rintro rfl
          exact hnext (hzero rfl)
        have hsingle : ∀ b : Nat → α, HeapsBelow cmp b (if k = 1 then 0 else 1) (r + 1) := by
          intro b
          apply heapsBelow_small
          split <;> omega
        have hsize : size (if k = 1 then 0 else 1) = 1 := by
          split <;> rfl
        refine ⟨hsingle _, ?_⟩
        rw [hsize, Nat.add_sub_cancel]
        dsimp only
        split
        · rename_i hdone
          apply IsForest.growing
          apply trinkle_forest hcmp (by omega)
          · rw [if_neg Bool.false_ne_true]
            exact hbelow
          · apply hbefore.forest hgaps
            intro j hj
            have hlt' := hlt j hj
            have hne : j ≠ k + 1 := by
              rintro rfl
              exact hnext hj
            have hmono : size (k + 1) ≤ size (j - 1) := size_mono (by omega)
            obtain ⟨k, rfl⟩ : ∃ m, k = m + 1 := ⟨k - 1, by omega⟩
            rw [size_add_two] at hmono
            rw [Nat.add_sub_cancel] at hdone
            exact ⟨by omega, by omega⟩
        · rename_i hextended
          exact ⟨hheap, fun hdone => absurd hdone hextended, hbefore.congr (by omega) hsame⟩

theorem build_grown (hcmp : Consistent cmp) (h : Grown cmp a r n orders)
    (hshape : WellShaped orders) (htotal : total orders = r + 1) :
    Grown cmp (build cmp n orders r a).2.2 (r + n) 0 (build cmp n orders r a).1 := by
  induction n generalizing orders r a with
  | zero => exact h
  | succ n ih =>
      obtain ⟨hshape', htotal'⟩ := hshape.grow cmp (n + 1) r a
      rw [build, show r + (n + 1) = r + 1 + n by omega]
      exact ih (h.grow hcmp hshape htotal) hshape' (by omega)

/-- Once all entries have joined, the roots before the last one are in order. -/
theorem Grown.forest (hcmp : Consistent cmp) (h : Grown cmp a r 0 orders)
    (hshape : WellShaped orders) (htotal : total orders = r + 1) :
    IsForest cmp (trinkle cmp false orders r a) orders r := by
  cases orders with
  | nil => exact h.elim
  | cons k orders =>
      obtain ⟨hbelow, hbefore⟩ := h
      obtain ⟨hgaps, hzero, hlt⟩ := hshape
      apply trinkle_forest hcmp (by omega)
      · rw [if_neg Bool.false_ne_true]
        exact hbelow
      · apply hbefore.forest hgaps
        intro j hj
        have hlt' := hlt j hj
        have hmono : size k ≤ size (j - 1) := size_mono (by omega)
        exact ⟨by omega, by omega⟩

/-! The order of the entries that have left the trees -/

/-- No entry after the last root is smaller than one before it. -/
def SortedFrom (cmp : α → α → Int) (a : Nat → α) (r last : Nat) : Prop :=
  ∀ i j, i ≤ j → r < j → j ≤ last → cmp (a i) (a j) ≤ 0

/-- What is proved of one step while entries leave. -/
theorem IsForest.shrink (hcmp : Consistent cmp) (h : IsForest cmp a orders r)
    (htotal : total orders = r + 1) :
    IsForest cmp (shrink cmp orders r a).2 (shrink cmp orders r a).1 (r - 1) := by
  cases orders with
  | nil => exact trivial
  | cons k orders =>
      obtain ⟨hheap, hroots, hbefore⟩ := h
      rw [total] at htotal
      unfold Leonardo.shrink
      dsimp only
      split
      · rename_i hsmall
        have hone := size_small hsmall
        rw [hone] at hbefore
        exact hbefore
      · obtain ⟨k, rfl⟩ : ∃ m, k = m + 2 := ⟨k - 2, by omega⟩
        obtain ⟨-, -, hright, hleft⟩ := hheap
        rw [size_add_two] at htotal hbefore
        have hpos := size_pos k
        have hpos' := size_pos (k + 1)
        dsimp only
        rw [show k + 2 - 2 = k by omega, show k + 2 - 1 = k + 1 by omega]
        have hfits : total ((k + 1) :: orders) ≤ r - 1 - size k + 1 := by
          rw [total]
          omega
        have hmoved := trinkle_exchanged cmp true ((k + 1) :: orders) (r - 1 - size k) a hfits
        apply trinkle_forest hcmp
        · rw [total, total]
          omega
        · rw [if_pos rfl]
          apply hright.congr (by omega)
          intro i hi
          exact hmoved.outside fun hin => absurd hin.2 (by have := hi.1; omega)
        · apply trinkle_forest hcmp hfits
          · rw [if_pos rfl]
            exact hleft
          · rw [show r - 1 - size k - size (k + 1) = r - (size k + size (k + 1) + 1) by omega]
            exact hbefore

theorem takeOff_sorted (hcmp : Consistent cmp) {last : Nat} (h : IsForest cmp a orders r)
    (hshape : WellShaped orders) (htotal : total orders = r + 1)
    (hsorted : SortedFrom cmp a r last) : SortedFrom cmp (takeOff cmp orders r a) 0 last := by
  induction r generalizing orders a with
  | zero => exact hsorted
  | succ r ih =>
      obtain ⟨hshape', htotal'⟩ := hshape.shrink cmp a htotal
      have hmoved := shrink_exchanged cmp a htotal
      rw [takeOff]
      apply ih (h.shrink hcmp htotal) hshape' htotal'
      intro i j hij hj hlast
      rw [hmoved.outside (by omega : ¬ j < r + 1)]
      have hle : ∀ i ≤ j, cmp (a i) (a j) ≤ 0 := by
        intro i hi
        by_cases heq : j = r + 1
        · rw [heq]
          exact h.le_root hcmp (by omega) ⟨by omega, by omega⟩
        · exact hsorted i j hi (by omega) hlast
      by_cases hi : i < r + 1
      · exact hmoved.forall_entries (fun x => cmp x (a j) ≤ 0) (fun i hi => hle i (by omega)) hi
      · rw [hmoved.outside hi]
        exact hle i hij

/-- The sorted entries are in order. -/
theorem smoothsort_sorted (hcmp : Consistent cmp) (last : Nat) (a : Nat → α) {i j : Nat}
    (hij : i ≤ j) (hj : j ≤ last) :
    cmp (smoothsort cmp last a i) (smoothsort cmp last a j) ≤ 0 := by
  have hone : total [1] = 0 + 1 := rfl
  obtain ⟨hshape, htotal, hlast⟩ := build_shape cmp last a wellShaped_one hone
  have hstart : Grown cmp a 0 last [1] := ⟨trivial, trivial⟩
  have hgrown := build_grown hcmp hstart wellShaped_one hone
  rw [Nat.zero_add] at hgrown
  have hforest := hgrown.forest hcmp hshape (by omega)
  by_cases hzero : j = 0
  · obtain rfl : i = j := by omega
    exact hcmp.refl _
  · unfold smoothsort
    dsimp only
    rw [hlast, Nat.zero_add]
    have hsorted : SortedFrom cmp (trinkle cmp false (build cmp last [1] 0 a).1 last
        (build cmp last [1] 0 a).2.2) last last := by
      intro i j _ hr hle
      omega
    exact takeOff_sorted hcmp hforest hshape (by omega) hsorted i j hij (by omega) hj

end Leonardo

end WasixLibc
