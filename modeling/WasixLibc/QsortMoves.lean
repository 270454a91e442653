/-
What `cycle` does to the elements.

Each byte of the elements goes round on its own, so the rounds of 256 bytes
together turn the elements, as exchanging neighbours on the way does.
-/
import WasixLibc.Qsort

namespace WasixLibc

namespace Qsort

universe u

variable {β : Type u}

/-- Each position of the list gets the entry of the next one, the last that of the first. -/
def rotation : List Nat → Equiv.Perm Nat
  | p :: p' :: ar => (rotation (p' :: ar)).trans (Equiv.swap p p')
  | _ => Equiv.refl _

/-- The assignments that do it, with the first entry kept aside. -/
def shift (x : β) : List Nat → (Nat → β) → Nat → β
  | [], a => a
  | [p], a => Function.update a p x
  | p :: p' :: ar, a => shift x (p' :: ar) (Function.update a p (a p'))

theorem shift_update (x : β) (p : Nat) (ar : List Nat) (a : Nat → β) (hnodup : (p :: ar).Nodup) :
    shift x (p :: ar) a = Function.update a p x ∘ rotation (p :: ar) := by
  induction ar generalizing p a with
  | nil => rfl
  | cons p' ar ih =>
      obtain ⟨hnotin, hrest⟩ := List.nodup_cons.mp hnodup
      have hne : p ≠ p' := fun heq => hnotin (by rw [heq]; exact List.mem_cons_self)
      have hswap : Function.update (Function.update a p (a p')) p' x =
          Function.update a p x ∘ Equiv.swap p p' := by
        funext i
        rw [Function.comp_apply]
        by_cases hi : i = p'
        · rw [hi, Function.update_self, Equiv.swap_apply_right, Function.update_self]
        · rw [Function.update_of_ne hi]
          by_cases hip : i = p
          · rw [hip, Function.update_self, Equiv.swap_apply_left,
              Function.update_of_ne (Ne.symm hne)]
          · rw [Function.update_of_ne hip, Equiv.swap_apply_of_ne_of_ne hip hi,
              Function.update_of_ne hip]
      rw [shift, ih p' _ hrest, hswap, rotation]
      rfl

theorem shift_rotation (p : Nat) (ar : List Nat) (a : Nat → β) (hnodup : (p :: ar).Nodup) :
    shift (a p) (p :: ar) a = a ∘ rotation (p :: ar) := by
  rw [shift_update _ _ _ _ hnodup, Function.update_eq_self]

/-! Bytes -/

variable {width l off : Nat}

/-- Byte `j` of element `i` after a copy to a part of element `p`. -/
theorem copy_byte (hfits : off + l ≤ width) (m src : ByteMemory) (p so i : Nat) {j : Nat}
    (hj : j < width) : m.copy (p * width + off) src so l (i * width + j) =
      if i = p ∧ off ≤ j ∧ j < off + l then src (so + (j - off)) else m (i * width + j) := by
  by_cases hin : i = p ∧ off ≤ j ∧ j < off + l
  · obtain ⟨rfl, hlow, hhigh⟩ := hin
    rw [if_pos ⟨rfl, hlow, hhigh⟩, ByteMemory.copy_of_inside _ _ _ (by omega)]
    congr 2
    omega
  · rw [if_neg hin]
    apply ByteMemory.copy_of_outside
    by_contra hover
    apply hin
    rcases Nat.lt_trichotomy i p with hlt | rfl | hlt
    · have hle := Nat.mul_le_mul_right width hlt
      rw [Nat.succ_mul] at hle
      omega
    · exact ⟨rfl, by omega, by omega⟩
    · have hle := Nat.mul_le_mul_right width hlt
      rw [Nat.succ_mul] at hle
      omega

theorem moveChunk_byte (hfits : off + l ≤ width) (tmp : ByteMemory) (ar : List Nat)
    (m : ByteMemory) (i : Nat) {j : Nat} (hj : j < width) :
    moveChunk l tmp (ar.map fun p => p * width + off) m (i * width + j) =
      if off ≤ j ∧ j < off + l then shift (tmp (j - off)) ar (fun i => m (i * width + j)) i
      else m (i * width + j) := by
  induction ar generalizing m with
  | nil =>
      rw [List.map_nil, moveChunk, shift, ite_self]
  | cons p ar ih =>
      cases ar with
      | nil =>
          rw [List.map_cons, List.map_nil, moveChunk, copy_byte hfits _ _ _ _ _ hj, shift,
            Nat.zero_add]
          by_cases hin : off ≤ j ∧ j < off + l
          · by_cases hip : i = p
            · rw [if_pos ⟨hip, hin⟩, if_pos hin, hip, Function.update_self]
            · rw [if_neg fun h => hip h.1, if_pos hin, Function.update_of_ne hip]
          · rw [if_neg fun h => hin h.2, if_neg hin]
      | cons p' ar =>
          rw [List.map_cons, List.map_cons, moveChunk]
          rw [List.map_cons] at ih
          rw [ih]
          by_cases hin : off ≤ j ∧ j < off + l
          · rw [if_pos hin, if_pos hin, shift]
            congr 1
            funext i
            rw [copy_byte hfits _ _ _ _ _ hj]
            by_cases hip : i = p
            · rw [if_pos ⟨hip, hin⟩, hip, Function.update_self]
              congr 1
              omega
            · rw [if_neg fun h => hip h.1, Function.update_of_ne hip]
          · rw [if_neg hin, if_neg hin, copy_byte hfits _ _ _ _ _ hj, if_neg fun h => hin h.2]

/-- The rounds that are left turn the bytes from `off` on. -/
theorem cycleRounds_byte {fuel n : Nat} (hn : n ≤ fuel) (hoff : off + n = width) {p : Nat}
    {ar : List Nat} (hnodup : (p :: ar).Nodup) (m : ByteMemory) (i : Nat) {j : Nat}
    (hj : j < width) :
    cycleRounds fuel n ((p :: ar).map fun p => p * width + off) m (i * width + j) =
      if off ≤ j then m (rotation (p :: ar) i * width + j) else m (i * width + j) := by
  induction fuel generalizing n off m i with
  | zero =>
      rw [cycleRounds, if_neg (by omega)]
  | succ fuel ih =>
      rw [cycleRounds]
      split
      · rw [if_neg (by omega)]
      · have hchunk : ∀ i, moveChunk (min 256 n)
            (fun j => m (((p :: ar).map fun p => p * width + off).headD 0 + j))
            ((p :: ar).map fun p => p * width + off) m (i * width + j) =
            if off ≤ j ∧ j < off + min 256 n then m (rotation (p :: ar) i * width + j)
            else m (i * width + j) := by
          intro i
          rw [moveChunk_byte (by omega) _ _ _ _ hj]
          split
          · rename_i hin
            have hfirst : m (((p :: ar).map fun p => p * width + off).headD 0 + (j - off)) =
                (fun i => m (i * width + j)) p := by
              simp only [List.map_cons, List.headD_cons]
              congr 1
              omega
            rw [hfirst]
            exact congrFun (shift_rotation p ar (fun i => m (i * width + j)) hnodup) i
          · rfl
        have hmap : ((p :: ar).map fun p => p * width + off).map (· + min 256 n) =
            (p :: ar).map fun p => p * width + (off + min 256 n) := by
          rw [List.map_map]
          apply List.map_congr_left
          intro x _
          rw [Function.comp_apply, Nat.add_assoc]
        dsimp only
        rw [hmap, ih (by omega) (by omega), hchunk, hchunk]
        by_cases hdone : off + min 256 n ≤ j
        · rw [if_pos hdone, if_neg (by omega), if_pos (by omega)]
        · rw [if_neg hdone]
          by_cases hin : off ≤ j
          · rw [if_pos ⟨hin, by omega⟩, if_pos hin]
          · rw [if_neg fun h => hin h.1, if_neg hin]

/-- The elements in memory. -/
def entries (width : Nat) (m : ByteMemory) (i : Nat) : List (BitVec 8) := bytes m (i * width) width

theorem element_fits {q : Job} {i : Nat} (hi : i < q.nel) : i * q.width + q.width ≤ q.size := by
  have hle := Nat.mul_le_mul_left q.width hi
  rw [Nat.mul_succ, Nat.mul_comm q.width i] at hle
  exact hle

theorem cycle_entries {q : Job} {p : Nat} {ar : List Nat} (hnodup : (p :: ar).Nodup)
    (hlength : (p :: ar).length < 57) (hin : ∀ i ∈ p :: ar, i < q.nel) (m : ByteMemory) :
    ∃ m', q.cycle ((p :: ar).map (· * q.width)) m = some m' ∧
      entries q.width m' = entries q.width m ∘ rotation (p :: ar) := by
  unfold Job.cycle
  rw [List.length_map]
  split
  · rename_i hshort
    refine ⟨m, rfl, ?_⟩
    cases ar with
    | nil => rfl
    | cons _ _ => simp only [List.length_cons] at hshort; omega
  · have hbounds : ∀ o ∈ (p :: ar).map (· * q.width), o + q.width ≤ q.size := by
      intro o ho
      obtain ⟨i, hi, rfl⟩ := List.mem_map.mp ho
      exact element_fits (hin i hi)
    rw [if_pos ⟨hlength, hbounds⟩]
    refine ⟨_, rfl, ?_⟩
    funext i
    unfold entries bytes
    rw [Function.comp_apply]
    apply List.map_congr_left
    intro j hj
    have hbyte := cycleRounds_byte (Nat.le_refl q.width) (Nat.zero_add q.width) hnodup m i
      (List.mem_range.mp hj)
    rw [if_pos (Nat.zero_le j)] at hbyte
    exact hbyte

end Qsort

end WasixLibc
