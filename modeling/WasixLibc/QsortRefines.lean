/-
`qsort` is smoothsort on the elements.

In each function of the C library all pointers stay in the array and all
indices in their tables, and the elements move as in the function of smoothsort
of the same name.
-/
import Mathlib.Data.List.Nodup
import WasixLibc.QsortMoves
import WasixLibc.QsortWords

namespace WasixLibc

namespace Qsort

open Leonardo

/-- The sizes of trees that fit in the array are in the table. -/
def Table (q : Job) (lp : List Nat) : Prop :=
  ∀ k, size k ≤ q.nel → lp[k]? = some (size k * q.width)

variable {q : Job} {lp : List Nat} {ctz0 : Nat} {m : ByteMemory} {k r : Nat} {orders : List Nat}

/-! Pointers -/

theorem back_eq (width : Nat) {j : Nat} (hle : j ≤ r) :
    back (r * width) (j * width) = some ((r - j) * width) := by
  unfold back
  rw [if_pos (Nat.mul_le_mul_right _ hle), Nat.sub_mul]

theorem back_one (width : Nat) (hpos : 1 ≤ r) :
    back (r * width) width = some ((r - 1) * width) := by
  have hback := back_eq width hpos
  rwa [Nat.one_mul] at hback

theorem compare_eq (m : ByteMemory) {i j : Nat} (hi : i < q.nel) (hj : j < q.nel) :
    q.compare m (i * q.width) (j * q.width) =
      some (q.cmp (entries q.width m i) (entries q.width m j)) := by
  unfold Job.compare
  rw [if_pos ⟨element_fits hi, element_fits hj⟩]
  rfl

theorem push_eq {ar : List Nat} {p width : Nat} (hroom : ar.length < 57) :
    push (ar.map (· * width)) (p * width) = some ((ar ++ [p]).map (· * width)) := by
  unfold push
  rw [List.length_map, if_pos hroom, List.map_append]
  rfl

theorem descends_cons {i : Nat} {path : List Nat} (hlt : i < r)
    (h : (i :: path).Pairwise (· > ·)) : (r :: i :: path).Pairwise (· > ·) := by
  refine List.Pairwise.cons (fun j hj => ?_) h
  rcases List.mem_cons.mp hj with rfl | hj
  · exact hlt
  · exact Nat.lt_trans (List.rel_of_pairwise_cons h hj) hlt

/-! `sift` -/

section Path

variable {α : Type} (cmp : α → α → Int) (a : Nat → α) (x : α)

/-- The places that the entry `x` sinks to. -/
def siftPath : Nat → Nat → List Nat
  | k + 2, r =>
      if 0 ≤ cmp x (a (r - 1 - size k)) ∧ 0 ≤ cmp x (a (r - 1)) then []
      else if 0 ≤ cmp (a (r - 1 - size k)) (a (r - 1)) then
        (r - 1 - size k) :: siftPath (k + 1) (r - 1 - size k)
      else (r - 1) :: siftPath k (r - 1)
  | _, _ => []

theorem siftPath_length (k r : Nat) : (siftPath cmp a x k r).length ≤ k := by
  induction k, r using siftPath.induct cmp a x with
  | case1 k r hstop =>
      rw [siftPath, if_pos hstop]
      exact Nat.zero_le _
  | case2 k r hstop hleft ih =>
      rw [siftPath, if_neg hstop, if_pos hleft, List.length_cons]
      omega
  | case3 k r hstop hleft ih =>
      rw [siftPath, if_neg hstop, if_neg hleft, List.length_cons]
      omega
  | case4 k r hsmall =>
      rw [siftPath]
      · exact Nat.zero_le _
      · exact hsmall

/-- Each place is before the one above it. -/
theorem siftPath_descends {k r : Nat} (hfits : size k ≤ r + 1) :
    (r :: siftPath cmp a x k r).Pairwise (· > ·) := by
  induction k, r using siftPath.induct cmp a x with
  | case1 k r hstop =>
      rw [siftPath, if_pos hstop]
      exact List.pairwise_singleton _ _
  | case2 k r hstop hleft ih =>
      have hrest := ih (fits_left hfits)
      rw [size_add_two] at hfits
      have hpos := size_pos k
      rw [siftPath, if_neg hstop, if_pos hleft]
      exact descends_cons (by omega) hrest
  | case3 k r hstop hleft ih =>
      have hrest := ih (fits_right hfits)
      rw [size_add_two] at hfits
      have hpos := size_pos k
      rw [siftPath, if_neg hstop, if_neg hleft]
      exact descends_cons (by omega) hrest
  | case4 k r hsmall =>
      rw [siftPath]
      · exact List.pairwise_singleton _ _
      · exact hsmall

variable {cmp a x}

theorem siftPath_congr {b : Nat → α} {k r : Nat} (hfits : size k ≤ r + 1)
    (hsame : ∀ i < r, b i = a i) : siftPath cmp b x k r = siftPath cmp a x k r := by
  induction k, r using siftPath.induct cmp a x with
  | case1 k r hstop =>
      rw [size_add_two] at hfits
      have hpos := size_pos k
      rw [siftPath, siftPath, hsame _ (by omega), hsame _ (by omega), if_pos hstop, if_pos hstop]
  | case2 k r hstop hleft ih =>
      have hrest := ih (fits_left hfits) fun i hi => hsame i (by omega)
      rw [size_add_two] at hfits
      have hpos := size_pos k
      rw [siftPath, siftPath, hsame _ (by omega), hsame _ (by omega), if_neg hstop, if_neg hstop,
        if_pos hleft, if_pos hleft, hrest]
  | case3 k r hstop hleft ih =>
      have hrest := ih (fits_right hfits) fun i hi => hsame i (by omega)
      rw [size_add_two] at hfits
      have hpos := size_pos k
      rw [siftPath, siftPath, hsame _ (by omega), hsame _ (by omega), if_neg hstop, if_neg hstop,
        if_neg hleft, if_neg hleft, hrest]
  | case4 k r hsmall =>
      rw [siftPath, siftPath]
      · exact hsmall
      · exact hsmall

/-- To turn the entries on the way is to exchange them one after another. -/
theorem sift_rotation (cmp : α → α → Int) {k r : Nat} (a : Nat → α) (hfits : size k ≤ r + 1) :
    Leonardo.sift cmp k r a = a ∘ rotation (r :: siftPath cmp a (a r) k r) := by
  induction k, r, a using Leonardo.sift.induct cmp with
  | case1 k r a hstop =>
      rw [Leonardo.sift, siftPath, if_pos hstop, if_pos hstop]
      rfl
  | case2 k r a hstop hleft ih =>
      have hrest := ih (fits_left hfits)
      have hpath : siftPath cmp (a ∘ Equiv.swap r (r - 1 - size k)) (a r) (k + 1)
          (r - 1 - size k) = siftPath cmp a (a r) (k + 1) (r - 1 - size k) := by
        apply siftPath_congr (fits_left hfits)
        intro i hi
        exact swap_below a hi (by omega)
      rw [Function.comp_apply, Equiv.swap_apply_right, hpath] at hrest
      rw [Leonardo.sift, siftPath, if_neg hstop, if_neg hstop, if_pos hleft, if_pos hleft, hrest,
        rotation]
      rfl
  | case3 k r a hstop hleft ih =>
      have hrest := ih (fits_right hfits)
      have hpath : siftPath cmp (a ∘ Equiv.swap r (r - 1)) (a r) k (r - 1) =
          siftPath cmp a (a r) k (r - 1) := by
        apply siftPath_congr (fits_right hfits)
        intro i hi
        exact swap_below a hi (Nat.sub_le _ _)
      rw [Function.comp_apply, Equiv.swap_apply_right, hpath] at hrest
      rw [Leonardo.sift, siftPath, if_neg hstop, if_neg hstop, if_neg hleft, if_neg hleft, hrest,
        rotation]
      rfl
  | case4 k r a hsmall =>
      rw [Leonardo.sift, siftPath]
      · rfl
      · exact hsmall
      · exact hsmall

end Path

/-- A round of the loop of `sift`. -/
theorem siftLoop_round (hlp : Table q lp) (m : ByteMemory) {key : Nat} (hkey : key < q.nel)
    (hfits : size (k + 2) ≤ r + 1) (hr : r < q.nel) {ar : List Nat} (hroom : ar.length < 57) :
    siftLoop q lp m (key * q.width) (k + 2) (r * q.width) (ar.map (· * q.width)) =
      if 0 ≤ q.cmp (entries q.width m key) (entries q.width m (r - 1 - size k)) ∧
          0 ≤ q.cmp (entries q.width m key) (entries q.width m (r - 1)) then
        some (ar.map (· * q.width))
      else if 0 ≤ q.cmp (entries q.width m (r - 1 - size k)) (entries q.width m (r - 1)) then
        siftLoop q lp m (key * q.width) (k + 1) ((r - 1 - size k) * q.width)
          ((ar ++ [r - 1 - size k]).map (· * q.width))
      else siftLoop q lp m (key * q.width) k ((r - 1) * q.width)
        ((ar ++ [r - 1]).map (· * q.width)) := by
  rw [size_add_two] at hfits
  have hpos := size_pos k
  have hpos' := size_pos (k + 1)
  have hrt : r - 1 < q.nel := by omega
  have hlf : r - 1 - size k < q.nel := by omega
  simp only [siftLoop, back_one q.width (show 1 ≤ r by omega), hlp k (by omega),
    back_eq q.width (show size k ≤ r - 1 by omega), compare_eq m hkey hlf, compare_eq m hkey hrt,
    compare_eq m hlf hrt, push_eq hroom, Option.bind_eq_bind, Option.bind_some, Option.map_some]
  by_cases hleft : 0 ≤ q.cmp (entries q.width m key) (entries q.width m (r - 1 - size k))
  · by_cases hright : 0 ≤ q.cmp (entries q.width m key) (entries q.width m (r - 1))
    · simp only [hleft, hright, and_self, if_true, decide_true]
    · simp only [hleft, hright, and_false, if_true, if_false, decide_false, Bool.false_eq_true]
  · simp only [hleft, false_and, if_false, Bool.false_eq_true]

theorem siftLoop_eq (hlp : Table q lp) {key : Nat} (hkey : key < q.nel) (hfits : size k ≤ r + 1)
    (hr : r < q.nel) {ar : List Nat} (hroom : ar.length + k ≤ 57) :
    siftLoop q lp m (key * q.width) k (r * q.width) (ar.map (· * q.width)) =
      some ((ar ++ siftPath q.cmp (entries q.width m) (entries q.width m key) k r).map
        (· * q.width)) := by
  induction k, r using siftPath.induct q.cmp (entries q.width m) (entries q.width m key)
    generalizing ar with
  | case1 k r hstop =>
      rw [siftLoop_round hlp m hkey hfits hr (by omega), if_pos hstop, siftPath, if_pos hstop,
        List.append_nil]
  | case2 k r hstop hleft ih =>
      rw [siftLoop_round hlp m hkey hfits hr (by omega), if_neg hstop, if_pos hleft,
        ih (fits_left hfits) (by omega) (by rw [List.length_append, List.length_singleton]; omega),
        siftPath, if_neg hstop, if_pos hleft, List.append_assoc]
      rfl
  | case3 k r hstop hleft ih =>
      rw [siftLoop_round hlp m hkey hfits hr (by omega), if_neg hstop, if_neg hleft,
        ih (fits_right hfits) (by omega) (by rw [List.length_append, List.length_singleton]; omega),
        siftPath, if_neg hstop, if_neg hleft, List.append_assoc]
      rfl
  | case4 k r hsmall =>
      rw [siftLoop, siftPath, List.append_nil]
      · exact hsmall
      · exact hsmall

/-- Positions that descend from `r` are different, and positions in the array. -/
theorem descends_nodup {path : List Nat} (h : (r :: path).Pairwise (· > ·)) (hr : r < q.nel) :
    (r :: path).Nodup ∧ ∀ i ∈ r :: path, i < q.nel := by
  refine ⟨h.imp fun hgt => Nat.ne_of_gt hgt, fun i hi => ?_⟩
  rcases List.mem_cons.mp hi with rfl | hi
  · exact hr
  · exact Nat.lt_trans (List.rel_of_pairwise_cons h hi) hr

theorem sift_eq (hlp : Table q lp) (m : ByteMemory) (hfits : size k ≤ r + 1) (hr : r < q.nel)
    (hk : k < 56) : ∃ m', sift q lp (r * q.width) k m = some m' ∧
      entries q.width m' = Leonardo.sift q.cmp k r (entries q.width m) := by
  obtain ⟨hnodup, hin⟩ := descends_nodup (q := q)
    (siftPath_descends q.cmp (entries q.width m) (entries q.width m r) hfits) hr
  have hlength := siftPath_length q.cmp (entries q.width m) (entries q.width m r) k r
  obtain ⟨m', hcycle, hentries⟩ := cycle_entries hnodup
    (by rw [List.length_cons]; omega) hin m
  have hloop := @siftLoop_eq q lp m k r hlp r hr hfits hr [r]
    (by rw [List.length_singleton]; omega)
  refine ⟨m', ?_, by rw [hentries, sift_rotation q.cmp _ hfits]⟩
  unfold sift
  rw [show [r * q.width] = [r].map (· * q.width) from rfl, hloop, Option.bind_eq_bind,
    Option.bind_some]
  exact hcycle

/-! `trinkle` -/

/-- The tests of `trinkle`. -/
theorem trinkleTest_eq (hlp : Table q lp) (m : ByteMemory) {key : Nat} (hkey : key < q.nel)
    {trusty : Bool} (hfits : size k ≤ r) (hr : r < q.nel) :
    trinkleTest q lp m (key * q.width) k trusty (r * q.width) = some (
      if q.cmp (entries q.width m (r - size k)) (entries q.width m key) ≤ 0 then none
      else if trusty = false ∧ 2 ≤ k ∧
          (0 ≤ q.cmp (entries q.width m (r - 1)) (entries q.width m (r - size k)) ∨
            0 ≤ q.cmp (entries q.width m (r - 1 - size (k - 2)))
              (entries q.width m (r - size k))) then none
      else some ((r - size k) * q.width)) := by
  have hstepson : r - size k < q.nel := by omega
  have hchild : 2 ≤ k →
      childLarger q lp m (r * q.width) ((r - size k) * q.width) k = some (decide
        (0 ≤ q.cmp (entries q.width m (r - 1)) (entries q.width m (r - size k)) ∨
          0 ≤ q.cmp (entries q.width m (r - 1 - size (k - 2)))
            (entries q.width m (r - size k)))) := by
    intro hlarge
    obtain ⟨k, rfl⟩ : ∃ n, k = n + 2 := ⟨k - 2, by omega⟩
    rw [size_add_two] at hfits hstepson ⊢
    have hpos := size_pos k
    have hpos' := size_pos (k + 1)
    have hrt : r - 1 < q.nel := by omega
    have hlf : r - 1 - size k < q.nel := by omega
    simp only [childLarger, Nat.add_sub_cancel, back_one q.width (show 1 ≤ r by omega),
      hlp k (by omega), back_eq q.width (show size k ≤ r - 1 by omega),
      compare_eq m hrt hstepson, compare_eq m hlf hstepson,
      Option.bind_eq_bind, Option.bind_some, Option.map_some]
    by_cases hright : 0 ≤ q.cmp (entries q.width m (r - 1))
        (entries q.width m (r - (size k + size (k + 1) + 1)))
    · simp only [hright, if_true, true_or, decide_true]
    · simp only [hright, if_false, false_or]
  simp only [trinkleTest, hlp k (by omega), back_eq q.width hfits, compare_eq m hstepson hkey,
    Option.bind_eq_bind, Option.bind_some]
  split
  · rfl
  · by_cases htest : trusty = false ∧ 1 < k
    · rw [if_pos htest, hchild htest.2, Option.bind_some]
      by_cases hlarger : 0 ≤ q.cmp (entries q.width m (r - 1)) (entries q.width m (r - size k)) ∨
          0 ≤ q.cmp (entries q.width m (r - 1 - size (k - 2))) (entries q.width m (r - size k))
      · rw [if_pos (decide_eq_true hlarger), if_pos ⟨htest.1, htest.2, hlarger⟩]
      · rw [if_neg (by rw [decide_eq_true_iff]; exact hlarger), if_neg fun h => hlarger h.2.2]
    · rw [if_neg htest, if_neg Bool.false_ne_true, if_neg fun h => htest ⟨h.1, h.2.1⟩]

/-- So many elements that `pntz` finds the next tree. -/
def Small (q : Job) (ctz0 : Nat) : Prop :=
  q.nel ≤ 11405773 ∨ ctz0 = 32 ∧ q.nel ≤ 18454929

theorem size_33 : size 33 = 11405773 := rfl

theorem size_34 : size 34 = 18454929 := rfl

theorem size_35 : size 35 = 29860703 := rfl

theorem order_lt (hsmall : Small q ctz0) (hle : size k ≤ q.nel) : k < 35 := by
  by_contra hlarge
  have hmono : size 35 ≤ size k := size_mono (by omega)
  rw [size_35] at hmono
  unfold Small at hsmall
  omega

/-- Two trees side by side are near enough to each other for `pntz`. -/
theorem near {j : Nat} (hsmall : Small q ctz0) (hshape : WellShaped (k :: j :: orders))
    (htotal : total (k :: j :: orders) ≤ q.nel) : j - k < 32 ∨ ctz0 = 32 ∧ j - k = 32 := by
  rw [total, total] at htotal
  have hpos := size_pos k
  by_cases hfar : 32 ≤ j - k
  · -- an order 0 stands beside an order 1
    have hk : k ≠ 0 := by
      rintro rfl
      have hone := Option.some.inj (hshape.2.1 rfl)
      omega
    have hmono : size 33 ≤ size j := size_mono (by omega)
    rw [size_33] at hmono
    rcases hsmall with hnel | ⟨hzero, hnel⟩
    · omega
    · refine Or.inr ⟨hzero, ?_⟩
      by_contra hne
      have hmono' : size 34 ≤ size j := size_mono (by omega)
      rw [size_34] at hmono'
      omega
  · exact Or.inl (by omega)

theorem size_le_total {i : Nat} (hi : i ∈ orders) : size i ≤ total orders := by
  induction orders with
  | nil => cases hi
  | cons k orders ih =>
      rw [total]
      rcases List.mem_cons.mp hi with rfl | hi
      · omega
      · have hle := ih hi
        omega

theorem shape_length (limit : Nat) (h : WellShaped (k :: orders))
    (hle : ∀ i ∈ k :: orders, i < limit) : (k :: orders).length ≤ limit - k := by
  induction orders generalizing k with
  | nil =>
      have hk := hle k List.mem_cons_self
      rw [List.length_singleton]
      omega
  | cons j orders ih =>
      have hlt := h.head_lt
      have hj := hle j (List.mem_cons_of_mem _ List.mem_cons_self)
      have hrest := ih h.tail fun i hi => hle i (List.mem_cons_of_mem _ hi)
      rw [List.length_cons]
      omega

/-- The bits of the trees leave room in the words. -/
theorem code_fits {d : Nat} (hsmall : Small q ctz0) (hshape : WellShaped (k :: orders))
    (htotal : total (k :: orders) ≤ q.nel) (hd : d ≤ k) :
    code (k :: orders) * 2 ^ d < 0x10000000000000000 := by
  have horders : ∀ i ∈ k :: orders, i < 35 := fun i hi =>
    order_lt hsmall (Nat.le_trans (size_le_total hi) htotal)
  have hk := horders k List.mem_cons_self
  calc code (k :: orders) * 2 ^ d
      < 2 ^ (35 - k) * 2 ^ d :=
        Nat.mul_lt_mul_of_pos_right (code_lt 35 hshape horders) (Nat.two_pow_pos d)
    _ = 2 ^ (35 - k + d) := (Nat.pow_add _ _ _).symm
    _ ≤ 2 ^ 64 := Nat.pow_le_pow_right (by decide) (by omega)

/-- The loop of `trinkle`: `b` are the elements as they would be if each had moved at once. -/
theorem trinkleLoop_eq (hlp : Table q lp) (hsmall : Small q ctz0) {key : Nat} (hkey : key < q.nel)
    {b : Nat → List (BitVec 8)} {room : Nat} {p : Words} {trusty : Bool} {ar : List Nat}
    (hp : Encodes p (k :: orders)) (hshape : WellShaped (k :: orders))
    (htotal : total (k :: orders) ≤ r + 1) (hr : r < q.nel)
    (hsame : ∀ i < r, b i = entries q.width m i) (hroot : b r = entries q.width m key)
    (hroom : orders.length ≤ room) (hlength : ar.length + orders.length ≤ 57) :
    ∃ path r' k' trusty',
      trinkleLoop q ctz0 lp m (key * q.width) room p k trusty (r * q.width)
        (ar.map (· * q.width)) =
          some ⟨r' * q.width, k', trusty', (ar ++ path).map (· * q.width)⟩ ∧
      Leonardo.trinkle q.cmp trusty (k :: orders) r b =
        (if trusty' then b else Leonardo.sift q.cmp k' r' (b ∘ rotation (r :: path))) ∧
      (trusty' = true → trusty = true) ∧ (r :: path).Pairwise (· > ·) ∧
      path.length ≤ orders.length ∧ r' ≤ r ∧ size k' ≤ r' + 1 := by
  induction orders generalizing k r b room p trusty ar with
  | nil =>
      have hone := hp.one_iff.mpr rfl
      rw [total, total] at htotal
      refine ⟨[], r, k, trusty, ?_, ?_, id, List.pairwise_singleton _ _, Nat.le_refl _,
        Nat.le_refl _, htotal⟩
      · unfold trinkleLoop
        rw [if_pos hone, List.append_nil]
      · rw [Leonardo.trinkle, if_pos (Or.inl rfl)]
        rfl
  | cons j orders ih =>
      have hmore : p ≠ (1, 0) := fun hone => List.cons_ne_nil _ _ (hp.one_iff.mp hone)
      have htotal' := htotal
      rw [total, total] at htotal'
      have hpos := size_pos k
      have hpos' := size_pos j
      have hbefore := hsame (r - size k) (by omega)
      have hright := hsame (r - 1) (by omega)
      have hleft := hsame (r - 1 - size (k - 2)) (by omega)
      obtain ⟨room, rfl⟩ : ∃ n, room = n + 1 := ⟨room - 1, by rw [List.length_cons] at hroom; omega⟩
      rw [List.length_cons] at hroom hlength
      unfold trinkleLoop
      rw [if_neg hmore, trinkleTest_eq hlp m hkey (by omega) hr, Leonardo.trinkle, hbefore, hroot,
        hright, hleft]
      have hstops : ∃ path r' k' trusty',
          some (⟨r * q.width, k, trusty, ar.map (· * q.width)⟩ : Stop) =
            some ⟨r' * q.width, k', trusty', (ar ++ path).map (· * q.width)⟩ ∧
          (if trusty then b else Leonardo.sift q.cmp k r b) =
            (if trusty' then b else Leonardo.sift q.cmp k' r' (b ∘ rotation (r :: path))) ∧
          (trusty' = true → trusty = true) ∧ (r :: path).Pairwise (· > ·) ∧
          path.length ≤ orders.length + 1 ∧ r' ≤ r ∧ size k' ≤ r' + 1 :=
        ⟨[], r, k, trusty, by rw [List.append_nil], rfl, id, List.pairwise_singleton _ _,
          Nat.zero_le _, Nat.le_refl _, by omega⟩
      by_cases hstop : q.cmp (entries q.width m (r - size k)) (entries q.width m key) ≤ 0
      · rw [if_pos hstop, if_pos (Or.inr hstop)]
        exact hstops
      · have hgo : ¬ (j :: orders = [] ∨
            q.cmp (entries q.width m (r - size k)) (entries q.width m key) ≤ 0) := by
          rw [not_or]
          exact ⟨List.cons_ne_nil _ _, hstop⟩
        rw [if_neg hstop, if_neg hgo]
        by_cases hchild : trusty = false ∧ 2 ≤ k ∧
            (0 ≤ q.cmp (entries q.width m (r - 1)) (entries q.width m (r - size k)) ∨
              0 ≤ q.cmp (entries q.width m (r - 1 - size (k - 2)))
                (entries q.width m (r - size k)))
        · rw [if_pos hchild, if_pos hchild]
          rw [hchild.1] at hstops ⊢
          exact hstops
        · rw [if_neg hchild, if_neg hchild]
          obtain ⟨htrail, hnext⟩ := hp.next hshape (near hsmall hshape (by omega))
          have hlt := hshape.head_lt
          have hsame' : ∀ i < r - size k,
              (b ∘ Equiv.swap r (r - size k)) i = entries q.width m i := by
            intro i hi
            rw [swap_below b hi (Nat.sub_le _ _)]
            exact hsame i (by omega)
          have hroot' : (b ∘ Equiv.swap r (r - size k)) (r - size k) = entries q.width m key := by
            rw [Function.comp_apply, Equiv.swap_apply_right, hroot]
          obtain ⟨path, r', k', trusty', hloop, hresult, htrusty, hdescends, hshort, hle, hfits⟩ :=
            @ih j (r - size k) _ room _ false (ar ++ [r - size k]) hnext hshape.tail
              (by rw [total]; omega) (by omega) hsame' hroot' (by omega)
              (by rw [List.length_append, List.length_singleton]; omega)
          obtain rfl : trusty' = false := by
            cases trusty' with
            | false => rfl
            | true => cases htrusty rfl
          refine ⟨(r - size k) :: path, r', k', false, ?_, ?_,
            fun hfalse => absurd hfalse Bool.false_ne_true, ?_, ?_, by omega, hfits⟩
          · dsimp only
            rw [push_eq (by omega), Option.bind_some, htrail,
              show k + (j - k) = j by omega, hloop, List.append_assoc]
            rfl
          · rw [hresult, rotation]
            rfl
          · exact descends_cons (by omega) hdescends
          · rw [List.length_cons, List.length_cons]
            omega

theorem trinkle_eq (hlp : Table q lp) (hsmall : Small q ctz0) (m : ByteMemory) {p : Words}
    {trusty : Bool} (hp : Encodes p (k :: orders)) (hshape : WellShaped (k :: orders))
    (htotal : total (k :: orders) ≤ r + 1) (hr : r < q.nel) :
    ∃ m', trinkle q ctz0 lp (r * q.width) p k trusty m = some m' ∧
      entries q.width m' = Leonardo.trinkle q.cmp trusty (k :: orders) r (entries q.width m) := by
  have hlength := shape_length 35 hshape fun i hi =>
    order_lt hsmall (Nat.le_trans (size_le_total hi) (by omega))
  rw [List.length_cons] at hlength
  obtain ⟨path, r', k', trusty', hloop, hresult, -, hdescends, hshort, hle, hfits⟩ :=
    @trinkleLoop_eq q lp ctz0 m k r orders hlp hsmall r hr (entries q.width m) 57 p trusty [r] hp
      hshape htotal hr (fun _ _ => rfl) rfl (by omega) (by rw [List.length_singleton]; omega)
  unfold trinkle
  rw [show [r * q.width] = [r].map (· * q.width) from rfl, hloop, Option.bind_eq_bind,
    Option.bind_some, hresult]
  dsimp only
  cases trusty' with
  | true =>
      rw [if_pos rfl, if_pos rfl]
      exact ⟨m, rfl, rfl⟩
  | false =>
      rw [if_neg Bool.false_ne_true, if_neg Bool.false_ne_true]
      obtain ⟨hnodup, hin⟩ := descends_nodup hdescends hr
      obtain ⟨m₁, hcycle, hturned⟩ := cycle_entries hnodup
        (by rw [List.length_cons]; omega) hin m
      have hk := order_lt hsmall (k := k') (by omega)
      obtain ⟨m₂, hsift, hsifted⟩ := sift_eq hlp m₁ hfits (by omega) (by omega)
      refine ⟨m₂, ?_, by rw [hsifted, hturned]⟩
      rw [List.singleton_append, hcycle, Option.bind_eq_bind, Option.bind_some]
      exact hsift

/-! The loops of `qsort` -/

/-- The variables of `qsort` describe the trees. -/
structure Describes (q : Job) (s : State) (orders : List Nat) (r : Nat) : Prop where
  words : Encodes s.p orders
  last : orders.head? = some s.pshift
  head : s.head = r * q.width

/-- What one more element makes of the trees. -/
theorem addElement_eq (hlp : Table q lp) (hsmall : Small q ctz0) (hwidth : 0 < q.width) {n : Nat}
    {s : State} (h : Describes q s orders r) (hshape : WellShaped orders)
    (htotal : total orders = r + 1) (hn : r + n + 1 = q.nel) :
    ∃ s', addElement q ctz0 lp s = some s' ∧
      Describes q s' (grow q.cmp n orders r (entries q.width s.m)).1 (r + 1) ∧
      entries q.width s'.m = (grow q.cmp n orders r (entries q.width s.m)).2 := by
  obtain ⟨p, pshift, head, m⟩ := s
  obtain ⟨hp, hlast, hhead⟩ := h
  obtain ⟨orders, rfl⟩ := List.head?_eq_some_iff.mp hlast
  dsimp only at hp hhead hshape htotal ⊢
  subst hhead
  have htotal' := htotal
  rw [total] at htotal'
  have hpos := size_pos pshift
  have hk := order_lt hsmall (k := pshift) (by omega)
  have hnext : r * q.width + q.width = (r + 1) * q.width := (Nat.succ_mul _ _).symm
  obtain ⟨m₁, hsift, hsifted⟩ :=
    sift_eq (r := r) (k := pshift) hlp m (by omega) (by omega) (by omega)
  unfold addElement grow
  dsimp only
  by_cases hjoin : orders.head? = some (pshift + 1)
  · obtain ⟨orders, rfl⟩ := List.head?_eq_some_iff.mp hjoin
    rw [if_pos ((hp.joins_iff hshape).mpr hjoin), if_pos hjoin, hsift]
    exact ⟨_, rfl, ⟨hp.join hshape, rfl, hnext⟩, hsifted⟩
  · rw [if_neg fun htest => hjoin ((hp.joins_iff hshape).mp htest), if_neg hjoin]
    have hnonzero : pshift ≠ 0 := by
      rintro rfl
      exact hjoin (hshape.2.1 rfl)
    have hmono : size (pshift - 1) ≤ size pshift := size_mono (by omega)
    have hremaining : q.size - q.width - r * q.width = n * q.width := by
      unfold Job.size
      rw [← hn, show q.width * (r + n + 1) = n * q.width + r * q.width + q.width by ring]
      omega
    have hdone : q.size - q.width - r * q.width ≤ size (pshift - 1) * q.width ↔
        n ≤ size (pshift - 1) := by
      rw [hremaining]
      exact Nat.mul_le_mul_right_iff hwidth
    -- the new tree has order 0 or 1
    have hwords : Encodes (((if pshift = 1 then shl p 1 else shl p (pshift - 1)).1 ||| 1,
        (if pshift = 1 then shl p 1 else shl p (pshift - 1)).2) : Words)
        ((if pshift = 1 then 0 else 1) :: pshift :: orders) := by
      have hfits := fun d => code_fits (d := d) hsmall hshape (by omega)
      split
      · rename_i hone
        subst hone
        exact hp.cons (j := 0) (by decide) (hfits _ (by decide))
      · exact hp.cons (j := 1) (by omega) (hfits _ (by omega))
    rw [if_neg hnonzero, hlp _ (by omega), Option.bind_eq_bind, Option.bind_some]
    by_cases hend : n ≤ size (pshift - 1)
    · obtain ⟨m₂, htrinkle, hmoved⟩ :=
        @trinkle_eq q lp ctz0 pshift r orders hlp hsmall m p false hp hshape (by omega) (by omega)
      rw [if_pos (hdone.mpr hend), if_pos hend, htrinkle]
      exact ⟨_, rfl, ⟨hwords, rfl, hnext⟩, hmoved⟩
    · rw [if_neg fun h => hend (hdone.mp h), if_neg hend, hsift]
      exact ⟨_, rfl, ⟨hwords, rfl, hnext⟩, hsifted⟩

theorem addLoop_eq (hlp : Table q lp) (hsmall : Small q ctz0) (hwidth : 0 < q.width) {n fuel : Nat}
    {s : State} (h : Describes q s orders r) (hshape : WellShaped orders)
    (htotal : total orders = r + 1) (hn : r + n + 1 = q.nel) (hfuel : n ≤ fuel) :
    ∃ s', addLoop q ctz0 lp fuel s = some s' ∧
      Describes q s' (build q.cmp n orders r (entries q.width s.m)).1 (r + n) ∧
      entries q.width s'.m = (build q.cmp n orders r (entries q.width s.m)).2.2 := by
  have hlast : q.size - q.width = (r + n) * q.width := by
    unfold Job.size
    rw [← hn, show q.width * (r + n + 1) = (r + n) * q.width + q.width by ring]
    exact Nat.add_sub_cancel _ _
  induction n generalizing orders r fuel s with
  | zero =>
      refine ⟨s, ?_, h, rfl⟩
      unfold addLoop
      rw [if_neg (by rw [hlast, h.head]; exact Nat.lt_irrefl _)]
  | succ n ih =>
      obtain ⟨fuel, rfl⟩ : ∃ f, fuel = f + 1 := ⟨fuel - 1, by omega⟩
      obtain ⟨s', hadd, hdescribes, hentries⟩ := addElement_eq hlp hsmall hwidth h hshape htotal hn
      obtain ⟨hshape', htotal'⟩ := hshape.grow q.cmp (n + 1) r (entries q.width s.m)
      obtain ⟨t, hloop, hdescribes', hentries'⟩ :=
        @ih _ _ fuel _ hdescribes hshape' (by omega) (by omega) (by omega)
          (by rw [hlast]; congr 1; omega)
      have hmore : s.head < q.size - q.width := by
        rw [hlast, h.head]
        exact Nat.mul_lt_mul_of_pos_right (by omega) hwidth
      rw [hentries] at hdescribes' hentries'
      refine ⟨t, ?_, ?_, ?_⟩
      · unfold addLoop
        rw [if_pos hmore]
        dsimp only
        rw [hadd, Option.bind_some, hloop]
      · rw [build, show r + (n + 1) = r + 1 + n by omega]
        exact hdescribes'
      · rw [build]
        exact hentries'

/-- What one element less makes of the trees. -/
theorem takeElement_eq (hlp : Table q lp) (hsmall : Small q ctz0) {s : State}
    (h : Describes q s orders (r + 1)) (hshape : WellShaped orders)
    (htotal : total orders = r + 2) (hr : r + 1 < q.nel) :
    ∃ s', takeElement q ctz0 lp s = some s' ∧
      Describes q s' (shrink q.cmp orders (r + 1) (entries q.width s.m)).1 r ∧
      entries q.width s'.m = (shrink q.cmp orders (r + 1) (entries q.width s.m)).2 := by
  obtain ⟨p, pshift, head, m⟩ := s
  obtain ⟨hp, hlast, hhead⟩ := h
  obtain ⟨orders, rfl⟩ := List.head?_eq_some_iff.mp hlast
  dsimp only at hp hhead hshape htotal ⊢
  subst hhead
  have htotal' := htotal
  rw [total] at htotal'
  have hback : back ((r + 1) * q.width) q.width = some (r * q.width) :=
    back_one q.width (Nat.le_add_left _ _)
  unfold takeElement shrink
  dsimp only
  by_cases hlow : pshift ≤ 1
  · rw [if_pos hlow, if_pos hlow, hback]
    have hone := size_small hlow
    cases orders with
    | nil =>
        rw [total] at htotal'
        omega
    | cons j orders =>
        have hlt := hshape.head_lt
        obtain ⟨htrail, hnext⟩ := hp.next hshape (near hsmall hshape (by omega))
        rw [htrail, show pshift + (j - pshift) = j by omega]
        exact ⟨_, rfl, ⟨hnext, rfl, rfl⟩, rfl⟩
  · rw [if_neg hlow, if_neg hlow]
    obtain ⟨k, rfl⟩ : ∃ n, pshift = n + 2 := ⟨pshift - 2, by omega⟩
    have hsplit := hp.split hshape
      (code_fits (d := 2) hsmall hshape (by omega) (Nat.le_add_left _ _))
    rw [size_add_two] at htotal'
    have hpos := size_pos k
    have hpos' := size_pos (k + 1)
    have htotal₁ : total ((k + 1) :: orders) = r + 1 - size k := by
      rw [total]
      omega
    have hwords := hsplit.cons (j := k) (Nat.lt_succ_self k)
      (code_fits hsmall hshape.left (by omega) (by omega))
    rw [show k + 1 - k = 1 by omega] at hwords
    obtain ⟨m₁, hfirst, hmoved₁⟩ := @trinkle_eq q lp ctz0 (k + 1) (r - size k) orders hlp
      hsmall m _ true hsplit hshape.left (by omega) (by omega)
    obtain ⟨m₂, hsecond, hmoved₂⟩ := @trinkle_eq q lp ctz0 k r _ hlp hsmall m₁ _ true hwords
      hshape.children (by rw [total, htotal₁]; omega) (by omega)
    have habove : back ((r + 1) * q.width) (size k * q.width) =
        some ((r + 1 - size k) * q.width) := back_eq q.width (by omega)
    have hleft : back ((r + 1 - size k) * q.width) q.width = some ((r - size k) * q.width) := by
      rw [back_one q.width (by omega), show r + 1 - size k - 1 = r - size k by omega]
    simp only [Nat.add_sub_cancel, show k + 2 - 1 = k + 1 by omega, hlp k (by omega), habove, hleft,
      hfirst, hback, hsecond, Option.bind_eq_bind, Option.bind_some]
    refine ⟨_, rfl, ⟨hwords, rfl, rfl⟩, ?_⟩
    rw [hmoved₂, hmoved₁, show r - size k = r + 1 - 1 - size k by omega]

theorem takeLoop_eq (hlp : Table q lp) (hsmall : Small q ctz0) {fuel : Nat} {s : State}
    (h : Describes q s orders r) (hshape : WellShaped orders) (htotal : total orders = r + 1)
    (hr : r < q.nel) (hfuel : r ≤ fuel) :
    ∃ m', takeLoop q ctz0 lp fuel s = some m' ∧
      entries q.width m' = takeOff q.cmp orders r (entries q.width s.m) := by
  induction r generalizing orders fuel s with
  | zero =>
      refine ⟨s.m, ?_, rfl⟩
      have hend : ¬ (s.pshift ≠ 1 ∨ s.p ≠ (1, 0)) := by
        obtain ⟨orders, rfl⟩ := List.head?_eq_some_iff.mp h.last
        rw [total] at htotal
        have hpos := size_pos s.pshift
        have hnil : orders = [] := by
          by_contra hne
          have hpos' := total_pos hne
          omega
        subst hnil
        rw [not_or, not_not, not_not]
        refine ⟨?_, h.words.one_iff.mpr rfl⟩
        by_contra hne
        by_cases hzero : s.pshift = 0
        · cases hshape.2.1 hzero
        · obtain ⟨k, hk⟩ : ∃ n, s.pshift = n + 2 := ⟨s.pshift - 2, by omega⟩
          rw [hk, size_add_two] at htotal
          have hpos' := size_pos k
          omega
      unfold takeLoop
      rw [if_neg hend]
  | succ r ih =>
      obtain ⟨fuel, rfl⟩ : ∃ f, fuel = f + 1 := ⟨fuel - 1, by omega⟩
      have hmore : s.pshift ≠ 1 ∨ s.p ≠ (1, 0) := by
        obtain ⟨orders, rfl⟩ := List.head?_eq_some_iff.mp h.last
        by_contra hend
        rw [not_or, not_not, not_not] at hend
        have hnil := h.words.one_iff.mp hend.2
        rw [hnil, hend.1, total, total] at htotal
        have hone : size 1 = 1 := rfl
        omega
      obtain ⟨s', htake, hdescribes, hentries⟩ := takeElement_eq hlp hsmall h hshape htotal hr
      obtain ⟨hshape', htotal'⟩ := hshape.shrink q.cmp (entries q.width s.m) htotal
      obtain ⟨m', hloop, hentries'⟩ :=
        @ih _ fuel _ hdescribes hshape' htotal' (by omega) (by omega)
      rw [hentries] at hentries'
      refine ⟨m', ?_, ?_⟩
      · unfold takeLoop
        rw [if_pos hmore]
        dsimp only
        rw [htake, Option.bind_some, hloop]
      · rw [takeOff]
        exact hentries'

theorem size_parts (h : 0 < q.size) : 0 < q.width ∧ 0 < q.nel := by
  unfold Job.size at h
  constructor
  · apply Nat.pos_of_ne_zero
    intro hzero
    rw [hzero, Nat.zero_mul] at h
    exact Nat.lt_irrefl 0 h
  · apply Nat.pos_of_ne_zero
    intro hzero
    rw [hzero, Nat.mul_zero] at h
    exact Nat.lt_irrefl 0 h

/-- The table has the sizes up to one that is not smaller than the array. -/
theorem lpLoop_eq (hwidth : 0 < q.width) (hwide : 3 * q.width < 0x100000000)
    (hsize : q.size < 0x80000000) (hsmall : Small q ctz0) {room i : Nat} (hroom : i + room = 46)
    (hmore : i = 0 ∨ size (i + 1) * q.width < q.size) :
    ∃ lp, lpLoop q room (size i * q.width) (size (i + 1) * q.width)
      ((List.range (i + 2)).map fun k => size k * q.width) = some lp ∧ Table q lp := by
  induction room generalizing i with
  | zero =>
      obtain rfl : i = 46 := hroom
      have hlt := hmore.resolve_left (by decide)
      unfold Job.size at hlt
      rw [Nat.mul_comm q.width] at hlt
      have hlt' := Nat.lt_of_mul_lt_mul_right hlt
      have hmono : size 35 ≤ size (46 + 1) := size_mono (by decide)
      rw [size_35] at hmono
      unfold Small at hsmall
      omega
  | succ room ih =>
      have hsum : size (i + 2) * q.width =
          size i * q.width + size (i + 1) * q.width + q.width := by
        rw [size_add_two]
        ring
      have hfits : size (i + 2) * q.width < 0x100000000 := by
        rcases hmore with rfl | hlt
        · exact hwide
        · cases i with
          | zero => exact hwide
          | succ i =>
              have hsucc : size (i + 1 + 1) = size i + size (i + 1) + 1 := rfl
              have hpos := size_pos i
              have hle : (size (i + 1) + 1) * q.width ≤ size (i + 1 + 1) * q.width :=
                Nat.mul_le_mul_right _ (by omega)
              rw [Nat.add_mul, Nat.one_mul] at hle
              omega
      have htable : (List.range (i + 2)).map (fun k => size k * q.width) ++
          [size (i + 2) * q.width] = (List.range (i + 1 + 2)).map fun k => size k * q.width := by
        rw [List.range_succ (n := i + 2), List.map_append]
        rfl
      rw [lpLoop, ← hsum, Nat.mod_eq_of_lt hfits, htable]
      split
      · rename_i hlt
        exact ih (by omega) (Or.inr hlt)
      · rename_i hend
        refine ⟨_, rfl, fun k hk => ?_⟩
        have hle : k < i + 1 + 2 := by
          by_contra hlarge
          have hmono : size (i + 3) ≤ size k := size_mono (by omega)
          unfold Job.size at hend
          rw [Nat.mul_comm q.width, Nat.mul_lt_mul_right hwidth] at hend
          have hsucc : size (i + 3) = size (i + 1) + size (i + 2) + 1 := rfl
          omega
        rw [List.getElem?_map, List.getElem?_range hle]
        rfl

/-- `qsort` moves the elements as smoothsort does. -/
theorem qsort_eq (hsize : 0 < q.size) (hwide : 3 * q.width < 0x100000000)
    (hobject : q.size < 0x80000000) (hsmall : Small q ctz0) (m : ByteMemory) :
    ∃ m', qsort q ctz0 m = some m' ∧
      entries q.width m' = smoothsort q.cmp (q.nel - 1) (entries q.width m) := by
  obtain ⟨hwidth, hnel⟩ := size_parts hsize
  obtain ⟨lp, hlpLoop, hlp⟩ :=
    @lpLoop_eq q ctz0 hwidth hwide hobject hsmall 46 0 rfl (Or.inl rfl)
  have hwords : Encodes (1, 0) [1] := ⟨⟨by decide, by decide⟩, rfl⟩
  have hstart : Describes q ⟨(1, 0), 1, 0, m⟩ [1] 0 := ⟨hwords, rfl, (Nat.zero_mul _).symm⟩
  obtain ⟨s, hadd, hdescribes, hadded⟩ :=
    addLoop_eq (n := q.nel - 1) hlp hsmall hwidth hstart wellShaped_one rfl (by omega)
      (Nat.sub_le _ _)
  obtain ⟨hshape, htotal, hlast⟩ := build_shape q.cmp (q.nel - 1) (entries q.width m) wellShaped_one
    (r := 0) rfl
  dsimp only at hdescribes hadded
  obtain ⟨orders, horders⟩ := List.head?_eq_some_iff.mp hdescribes.last
  have hwords := hdescribes.words
  rw [horders] at hwords
  rw [horders] at hshape htotal
  obtain ⟨m₁, htrinkle, hmoved⟩ :=
    @trinkle_eq q lp ctz0 s.pshift (0 + (q.nel - 1)) orders hlp hsmall s.m s.p false hwords hshape
      (by omega) (by omega)
  have hdescribes' : Describes q { s with m := m₁ } (s.pshift :: orders) (0 + (q.nel - 1)) :=
    ⟨hwords, rfl, hdescribes.head⟩
  obtain ⟨m₂, htake, htaken⟩ := @takeLoop_eq q lp ctz0 _ _ hlp hsmall q.nel _ hdescribes'
    hshape (by omega) (by omega) (by omega)
  refine ⟨m₂, ?_, ?_⟩
  · have hlpStart : lpLoop q 46 q.width q.width [q.width, q.width] = some lp := by
      rw [← hlpLoop]
      simp only [size, Nat.one_mul, Nat.zero_add, List.range_succ, List.range_zero, List.nil_append,
        List.map_cons, List.map_nil, List.cons_append]
    unfold qsort
    rw [if_neg (by omega), hlpStart, Option.bind_eq_bind, Option.bind_some, hadd,
      Option.bind_eq_bind, Option.bind_some, hdescribes.head, htrinkle, Option.bind_eq_bind,
      Option.bind_some]
    rw [hdescribes.head] at htake
    exact htake
  · unfold smoothsort
    dsimp only
    rw [htaken, hmoved, hadded, hlast, horders]

/-! Sorting -/

/-- The elements of the array, in order. -/
def elements (q : Job) (m : ByteMemory) : List (List (BitVec 8)) :=
  (List.range q.nel).map (entries q.width m)

theorem exchanged_perm {α : Type} {a b : Nat → α} {n : Nat} (h : Exchanged (· < n) a b) :
    ((List.range n).map b).Perm ((List.range n).map a) := by
  obtain ⟨σ, hσ, rfl⟩ := h
  rw [← List.map_map]
  apply List.Perm.map
  rw [List.perm_ext_iff_of_nodup (List.Nodup.map σ.injective List.nodup_range) List.nodup_range]
  intro i
  rw [List.mem_map, List.mem_range]
  constructor
  · rintro ⟨j, hj, rfl⟩
    rw [List.mem_range] at hj
    by_contra hout
    have hfix := σ.injective (hσ _ hout)
    omega
  · intro hi
    refine ⟨σ.symm i, ?_, σ.apply_symm_apply i⟩
    rw [List.mem_range]
    by_contra hout
    have hfix := hσ _ hout
    rw [Equiv.apply_symm_apply] at hfix
    omega

/-- `qsort` returns, without leaving the array, its tables or what it has written; the elements
are the same in another order, no byte beyond them has changed, and they are sorted if the
comparison orders them. -/
theorem qsort_sorts (q : Job) (ctz0 : Nat) (m : ByteMemory) (hwide : 3 * q.width < 0x100000000)
    (hobject : q.size < 0x80000000)
    (hsmall : q.nel ≤ 11405773 ∨ ctz0 = 32 ∧ q.nel ≤ 18454929) :
    ∃ m', qsort q ctz0 m = some m' ∧ (elements q m').Perm (elements q m) ∧
      (∀ o, q.size ≤ o → m' o = m o) ∧
      (Consistent q.cmp → (elements q m').Pairwise fun x y => q.cmp x y ≤ 0) := by
  by_cases hsize : q.size = 0
  · refine ⟨m, if_pos hsize, List.Perm.refl _, fun _ _ => rfl, fun hcmp => ?_⟩
    rcases Nat.mul_eq_zero.mp hsize with hwidth | hnel
    · unfold elements
      rw [List.pairwise_map]
      apply List.pairwise_of_forall
      intro i j
      unfold entries bytes
      rw [hwidth]
      exact hcmp.refl _
    · unfold elements
      rw [hnel]
      exact List.Pairwise.nil
  · obtain ⟨hwidth, hnel⟩ := size_parts (Nat.pos_of_ne_zero hsize)
    obtain ⟨m', hqsort, hentries⟩ := qsort_eq (Nat.pos_of_ne_zero hsize) hwide hobject hsmall m
    have hmoved : Exchanged (· < q.nel) (entries q.width m) (entries q.width m') := by
      rw [hentries]
      apply (smoothsort_exchanged q.cmp (q.nel - 1) (entries q.width m)).mono
      intro i hi
      omega
    refine ⟨m', hqsort, exchanged_perm hmoved, fun o ho => ?_, fun hcmp => ?_⟩
    · have hbeyond : ¬ o / q.width < q.nel := by
        rw [Nat.not_lt, Nat.le_div_iff_mul_le hwidth, Nat.mul_comm]
        exact ho
      have hsame := List.map_inj_left.mp (hmoved.outside hbeyond) (o % q.width)
        (List.mem_range.mpr (Nat.mod_lt _ hwidth))
      rwa [Nat.mul_comm, Nat.div_add_mod] at hsame
    · unfold elements
      rw [hentries, List.pairwise_map]
      apply List.pairwise_lt_range.imp_of_mem
      intro i j hi hj hij
      rw [List.mem_range] at hj
      exact smoothsort_sorted hcmp (q.nel - 1) _ (Nat.le_of_lt hij) (by omega)

namespace QsortWitness

/-- Five elements of two bytes, which are compared by their first bytes. -/
def pairs : Job := ⟨5, 2, fun x y => ((x.headD 0).toNat : Int) - (y.headD 0).toNat⟩

def memory : ByteMemory := fun o => [7, 0, 3, 1, 9, 2, 3, 3, 1, 4].getD o 0

theorem pairs_consistent : Consistent pairs.cmp where
  flip x y := by
    unfold pairs
    dsimp only
    omega
  trans hxy hyz := by
    unfold pairs at hxy hyz ⊢
    dsimp only at hxy hyz ⊢
    omega

theorem pairs_sorted : ∃ m', qsort pairs 32 memory = some m' ∧
    (elements pairs m').Perm (elements pairs memory) ∧ m' 10 = memory 10 ∧
    (elements pairs m').Pairwise fun x y => pairs.cmp x y ≤ 0 := by
  obtain ⟨m', hqsort, hperm, hsame, hsorted⟩ :=
    qsort_sorts pairs 32 memory (by decide) (by decide) (Or.inl (by decide))
  exact ⟨m', hqsort, hperm, hsame 10 (by decide), hsorted pairs_consistent⟩

end QsortWitness

end Qsort

end WasixLibc
