/-
Circular doubly linked lists.

The links of a ring join every element to the next one around it, in both
directions.  Linking an element in and unlinking one change the ring in one
place.
-/
import Mathlib.Data.List.Cycle

namespace WasixLibc

universe u

variable {α : Type u}

structure Links (α : Type u) where
  next : α → α
  prev : α → α

namespace Links

def Joined (links : Links α) (a b : α) : Prop := links.next a = b ∧ links.prev b = a

/-- The links go around the elements of `c`. -/
structure Ring (links : Links α) (c : Cycle α) : Prop where
  nodup : c.Nodup
  joined : c.Chain links.Joined

variable {links : Links α} {a b : α} {l : List α}

theorem ring_singleton (hnext : links.next a = a) (hprev : links.prev a = a) :
    links.Ring ([a] : List α) where
  nodup := Cycle.nodup_coe_iff.mpr (List.nodup_singleton a)
  joined := (Cycle.chain_singleton _ a).mpr ⟨hnext, hprev⟩

/-- Any element may come first. -/
theorem exists_cons_of_mem {c : Cycle α} (h : a ∈ c) : ∃ l : List α, c = (a :: l : List α) := by
  induction c using Quotient.inductionOn' with
  | _ l =>
      obtain ⟨before, after, rfl⟩ := List.append_of_mem (Cycle.mem_coe_iff.mp h)
      refine ⟨after ++ before, Cycle.coe_eq_coe.mpr ⟨before.length, ?_⟩⟩
      rw [List.rotate_append_length_eq, List.cons_append]

/-- The element behind `a`, which is `a` itself if it is alone. -/
theorem Ring.exists_next (h : links.Ring (a :: l : List α)) :
    ∃ first tail, l ++ [a] = first :: tail ∧ links.next a = first ∧ links.prev first = a := by
  have hjoined := (Cycle.chain_coe_cons _ _ _).mp h.joined
  cases l with
  | nil =>
      have hpair : links.Joined a a := List.isChain_pair.mp hjoined
      exact ⟨a, [], rfl, hpair⟩
  | cons b l => exact ⟨b, l ++ [a], rfl, (List.isChain_cons_cons.mp hjoined).1⟩

theorem Ring.next_self_iff (h : links.Ring (a :: l : List α)) : links.next a = a ↔ l = [] := by
  have hnodup := Cycle.nodup_coe_iff.mp h.nodup
  obtain ⟨first, tail, hsplit, hnext, _⟩ := h.exists_next
  rw [hnext]
  cases l with
  | nil =>
      obtain rfl := (List.cons.inj hsplit).1
      simp only
  | cons b l =>
      obtain rfl := (List.cons.inj hsplit).1
      simp only [reduceCtorEq, iff_false]
      rintro rfl
      exact (List.nodup_cons.mp hnodup).1 List.mem_cons_self

variable [DecidableEq α]

def setNext (a b : α) (links : Links α) : Links α :=
  { links with next := Function.update links.next a b }

def setPrev (a b : α) (links : Links α) : Links α :=
  { links with prev := Function.update links.prev a b }

/-- `b` is linked in behind `a`. -/
def insertAfter (a b : α) (links : Links α) : Links α :=
  let links := links.setNext b (links.next a)
  let links := links.setPrev b a
  let links := links.setPrev (links.next b) b
  links.setNext (links.prev b) b

/-- The neighbours of `a` are joined, and `a` is joined to itself. -/
def unlink (a : α) (links : Links α) : Links α :=
  let links := links.setPrev (links.next a) (links.prev a)
  let links := links.setNext (links.prev a) (links.next a)
  (links.setPrev a a).setNext a a

theorem Ring.insertAfter (h : links.Ring (a :: l : List α)) (hb : b ∉ a :: l) :
    (links.insertAfter a b).Ring (a :: b :: l : List α) := by
  have hnodup := Cycle.nodup_coe_iff.mp h.nodup
  have hjoined := (Cycle.chain_coe_cons _ _ _).mp h.joined
  obtain ⟨first, tail, hsplit, hfirst, _⟩ := h.exists_next
  have hmem : ∀ x ∈ first :: tail, x ∈ a :: l := by
    intro x hx
    rw [← hsplit] at hx
    simpa [or_comm] using hx
  have hne : first ≠ b := fun heq => hb (heq ▸ hmem first List.mem_cons_self)
  have hab : a ≠ b := fun heq => hb (heq ▸ List.mem_cons_self)
  have hnext : (links.insertAfter a b).next =
      Function.update (Function.update links.next b first) a b := by
    simp [Links.insertAfter, setNext, setPrev, hfirst, Function.update_of_ne hne.symm]
  have hprev : (links.insertAfter a b).prev =
      Function.update (Function.update links.prev b a) first b := by
    simp [Links.insertAfter, setNext, setPrev, hfirst]
  refine ⟨Cycle.nodup_coe_iff.mpr ?_, (Cycle.chain_coe_cons _ _ _).mpr ?_⟩
  · rw [List.mem_cons, not_or] at hb
    rw [List.nodup_cons] at hnodup
    refine List.nodup_cons.mpr ⟨?_, List.nodup_cons.mpr ⟨hb.2, hnodup.2⟩⟩
    rw [List.mem_cons, not_or]
    exact ⟨hab, hnodup.1⟩
  · have htail : first ∉ tail := by
      have hrotated : (l ++ [a]).Nodup := by
        rw [List.nodup_append_comm]
        exact hnodup
      rw [hsplit] at hrotated
      exact (List.nodup_cons.mp hrotated).1
    rw [hsplit] at hjoined
    rw [List.cons_append, hsplit, List.isChain_cons_cons, List.isChain_cons_cons]
    refine ⟨⟨?_, ?_⟩, ⟨?_, ?_⟩, hjoined.tail.imp_of_mem_tail_imp ?_⟩
    · rw [hnext, Function.update_self]
    · rw [hprev, Function.update_of_ne hne.symm, Function.update_self]
    · rw [hnext, Function.update_of_ne hab.symm, Function.update_self]
    · rw [hprev, Function.update_self]
    · -- no other pair contains a link that was changed
      intro x y hx hy hxy
      have hyFirst : y ≠ first := fun heq => htail (heq ▸ hy)
      have hxa : x ≠ a := by
        rintro rfl
        exact hyFirst (hxy.1.symm.trans hfirst)
      have hxb : x ≠ b := fun heq => hb (heq ▸ hmem x hx)
      have hyb : y ≠ b := fun heq => hb (heq ▸ hmem y (List.mem_cons_of_mem _ hy))
      refine ⟨?_, ?_⟩
      · rw [hnext, Function.update_of_ne hxa, Function.update_of_ne hxb]
        exact hxy.1
      · rw [hprev, Function.update_of_ne hyFirst, Function.update_of_ne hyb]
        exact hxy.2

theorem Ring.unlink (h : links.Ring (a :: b :: l : List α)) :
    (links.unlink a).Ring (b :: l : List α) := by
  have hnodup := Cycle.nodup_coe_iff.mp h.nodup
  have hjoined := (Cycle.chain_coe_cons _ _ _).mp h.joined
  rw [List.cons_append, List.isChain_cons_cons, ← List.cons_append, List.isChain_append]
    at hjoined
  obtain ⟨⟨hfirst, _⟩, hchain, _, hlast⟩ := hjoined
  have hrest := List.nodup_cons.mp hnodup
  obtain ⟨last, hlastMem⟩ : ∃ last, last ∈ (b :: l).getLast? := by
    rw [List.getLast?_eq_some_getLast (List.cons_ne_nil b l)]
    exact ⟨_, rfl⟩
  have hlastIn : last ∈ b :: l := List.mem_of_getLast? hlastMem
  obtain ⟨hlastNext, hlastPrev⟩ := hlast last hlastMem a rfl
  have hba : b ≠ a := fun heq => hrest.1 (heq ▸ List.mem_cons_self)
  have hlasta : last ≠ a := fun heq => hrest.1 (heq ▸ hlastIn)
  have hnext : (links.unlink a).next =
      Function.update (Function.update links.next last b) a a := by
    simp [Links.unlink, setNext, setPrev, hfirst, hlastPrev, Function.update_of_ne hba.symm]
  have hprev : (links.unlink a).prev =
      Function.update (Function.update links.prev b last) a a := by
    simp [Links.unlink, setNext, setPrev, hfirst, hlastPrev]
  refine ⟨Cycle.nodup_coe_iff.mpr hrest.2, (Cycle.chain_coe_cons _ _ _).mpr ?_⟩
  rw [← List.cons_append, List.isChain_append]
  refine ⟨hchain.imp_of_mem_tail_imp ?_, List.isChain_singleton b, ?_⟩
  · intro x y hx hy hxy
    have hyb : y ≠ b := fun heq => (List.nodup_cons.mp hrest.2).1 (heq ▸ hy)
    have hya : y ≠ a := fun heq => hrest.1 (heq ▸ List.mem_cons_of_mem _ hy)
    have hxa : x ≠ a := fun heq => hrest.1 (heq ▸ hx)
    have hxLast : x ≠ last := by
      rintro rfl
      exact hya (hxy.1.symm.trans hlastNext)
    refine ⟨?_, ?_⟩
    · rw [hnext, Function.update_of_ne hxa, Function.update_of_ne hxLast]
      exact hxy.1
    · rw [hprev, Function.update_of_ne hya, Function.update_of_ne hyb]
      exact hxy.2
  · intro x hx y hy
    obtain rfl : x = last := Option.some.inj (hx.symm.trans hlastMem)
    obtain rfl : b = y := Option.some.inj hy
    refine ⟨?_, ?_⟩
    · rw [hnext, Function.update_of_ne hlasta, Function.update_self]
    · rw [hprev, Function.update_of_ne hba, Function.update_self]

end Links

end WasixLibc
