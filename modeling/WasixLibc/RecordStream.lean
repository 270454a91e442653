/-
A stream of encoded records that is read through a buffer.

The unread part of the buffer is a prefix of the encoding of the records that
are left, and all of it unless the buffer was filled to its end.  Whole records
are taken from the front; a record that is cut off is read again.
-/
import Mathlib.Data.List.Basic

namespace WasixLibc

universe u v

variable {R : Type u} {B : Type v} {encode : R → List B}

/-- What is unread of a stream of which `rest` is left. -/
structure Window (encode : R → List B) (rest : List R) (full : Prop) (unread : List B) : Prop where
  isPrefix : unread <+: rest.flatMap encode
  complete : ¬ full → unread = rest.flatMap encode

namespace Window

variable {rest : List R} {r : R} {full : Prop} {unread : List B}

/-- What a fill of `size` bytes leaves to read. -/
theorem of_fill (rest : List R) (size : Nat) :
    Window encode rest (((rest.flatMap encode).take size).length = size)
      ((rest.flatMap encode).take size) where
  isPrefix := List.take_prefix size _
  complete := by
    intro hfull
    rw [List.length_take] at hfull
    exact List.take_of_length_le (by omega)

/-- Nothing is unread at the end of a full buffer. -/
theorem of_full (hfull : full) : Window encode rest full [] where
  isPrefix := List.nil_prefix
  complete := fun h => absurd hfull h

theorem eq_nil_of_nil (h : Window encode ([] : List R) full unread) : unread = [] :=
  List.prefix_nil.mp h.isPrefix

/-- The front of a record that is not there as a whole. -/
theorem take_eq (h : Window encode (r :: rest) full unread) {n : Nat} (hn : n ≤ unread.length)
    (hrecord : n ≤ (encode r).length) : unread.take n = (encode r).take n := by
  obtain ⟨more, hmore⟩ := h.isPrefix
  rw [List.flatMap_cons] at hmore
  calc unread.take n = (unread ++ more).take n := (List.take_append_of_le_length hn).symm
    _ = (encode r ++ rest.flatMap encode).take n := by rw [hmore]
    _ = (encode r).take n := List.take_append_of_le_length hrecord

/-- A record in front that is there as a whole. -/
theorem record (h : Window encode (r :: rest) full unread)
    (hwhole : (encode r).length ≤ unread.length) :
    ∃ unread', unread = encode r ++ unread' ∧ Window encode rest full unread' := by
  obtain ⟨more, hmore⟩ := h.isPrefix
  have hfront : encode r <+: unread := by
    rw [List.prefix_iff_eq_take, h.take_eq hwhole (Nat.le_refl _), List.take_length]
  obtain ⟨unread', rfl⟩ := hfront
  rw [List.flatMap_cons, List.append_assoc, List.append_cancel_left_eq] at hmore
  refine ⟨unread', rfl, ⟨more, hmore⟩, fun hfull => ?_⟩
  have hcomplete := h.complete hfull
  rwa [List.flatMap_cons, List.append_cancel_left_eq] at hcomplete

/-- A record that is cut off is so by the end of a full buffer. -/
theorem full_of_short (h : Window encode (r :: rest) full unread)
    (hshort : unread.length < (encode r).length) : full := by
  by_contra hfull
  have hlength := congrArg List.length (h.complete hfull)
  rw [List.flatMap_cons, List.length_append] at hlength
  omega

end Window

end WasixLibc
