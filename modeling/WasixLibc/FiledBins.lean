/-
Items filed under their names in bins.

The key of an item selects the bin, and its name is in that bin once and in no
other.  A name is put into its bin in front or at the end.
-/
import Mathlib.Data.List.Nodup
import Mathlib.Logic.Function.Basic

namespace WasixLibc

universe u v w

namespace FiledBins

variable {α : Type u} {ν : Type v} {ι : Type w} [DecidableEq ν] [DecidableEq ι]

def file (bins : ι → List ν) (i : ι) (n : ν) : ι → List ν :=
  Function.update bins i (n :: bins i)

def append (bins : ι → List ν) (i : ι) (n : ν) : ι → List ν :=
  Function.update bins i (bins i ++ [n])

def remove (bins : ι → List ν) (n : ν) : ι → List ν := fun i => (bins i).erase n

/-- The bins hold the names of the items, each in the bin of its key. -/
structure Filed (name : α → ν) (key : α → ι) (bins : ι → List ν) (items : List α) : Prop where
  mem_iff : ∀ i n, n ∈ bins i ↔ ∃ a ∈ items, name a = n ∧ key a = i
  nodup : ∀ i, (bins i).Nodup

variable {name : α → ν} {key : α → ι} {bins : ι → List ν} {before behind : List α} {a : α}

omit [DecidableEq ν] [DecidableEq ι] in
theorem filed_nil : Filed name key (fun _ => []) [] := ⟨by simp, by simp⟩

omit [DecidableEq ι] in
theorem Filed.remove (h : Filed name key bins (before ++ a :: behind))
    (hfresh : ∀ b ∈ before ++ behind, name b ≠ name a) :
    Filed name key (remove bins (name a)) (before ++ behind) where
  mem_iff i n := by
    unfold FiledBins.remove
    rw [(h.nodup i).mem_erase_iff, h.mem_iff]
    constructor
    · rintro ⟨hne, b, hb, rfl, rfl⟩
      have hba : b ≠ a := fun heq => hne (congrArg name heq)
      refine ⟨b, ?_, rfl, rfl⟩
      simpa [hba] using hb
    · rintro ⟨b, hb, rfl, rfl⟩
      refine ⟨hfresh b hb, b, ?_, rfl, rfl⟩
      rcases List.mem_append.mp hb with hmem | hmem
      · exact List.mem_append_left _ hmem
      · exact List.mem_append_right _ (List.mem_cons_of_mem _ hmem)
  nodup i := (h.nodup i).erase _

omit [DecidableEq ν] in
/-- A new item, whose name goes anywhere in its bin. -/
theorem Filed.add (h : Filed name key bins (before ++ behind))
    (hfresh : ∀ b ∈ before ++ behind, name b ≠ name a) {bin : List ν}
    (hbin : bin.Perm (name a :: bins (key a))) :
    Filed name key (Function.update bins (key a) bin) (before ++ a :: behind) where
  mem_iff i n := by
    by_cases hi : i = key a
    · subst hi
      rw [Function.update_self, hbin.mem_iff, List.mem_cons, h.mem_iff]
      constructor
      · rintro (rfl | ⟨b, hb, rfl, hkey⟩)
        · exact ⟨a, by simp, rfl, rfl⟩
        · exact ⟨b, by simpa using Or.imp_right Or.inr (List.mem_append.mp hb), rfl, hkey⟩
      · rintro ⟨b, hb, rfl, hkey⟩
        by_cases hba : b = a
        · exact Or.inl (congrArg name hba)
        · exact Or.inr ⟨b, by simpa [hba] using hb, rfl, hkey⟩
    · rw [Function.update_of_ne hi, h.mem_iff]
      constructor
      · rintro ⟨b, hb, rfl, rfl⟩
        exact ⟨b, by simpa using Or.imp_right Or.inr (List.mem_append.mp hb), rfl, rfl⟩
      · rintro ⟨b, hb, rfl, rfl⟩
        have hba : b ≠ a := fun heq => hi (congrArg key heq)
        exact ⟨b, by simpa [hba] using hb, rfl, rfl⟩
  nodup i := by
    by_cases hi : i = key a
    · subst hi
      rw [Function.update_self, hbin.nodup_iff, List.nodup_cons, h.mem_iff]
      refine ⟨?_, h.nodup _⟩
      rintro ⟨b, hb, hname, _⟩
      exact hfresh b hb hname
    · rw [Function.update_of_ne hi]
      exact h.nodup i

omit [DecidableEq ν] in
theorem Filed.file (h : Filed name key bins (before ++ behind))
    (hfresh : ∀ b ∈ before ++ behind, name b ≠ name a) :
    Filed name key (file bins (key a) (name a)) (before ++ a :: behind) :=
  h.add hfresh (List.Perm.refl _)

/-- A name that goes to the end of its bin. -/
theorem Filed.defer (h : Filed name key bins (before ++ a :: behind))
    (hfresh : ∀ b ∈ before ++ behind, name b ≠ name a) :
    Filed name key (append (FiledBins.remove bins (name a)) (key a) (name a))
      (before ++ a :: behind) :=
  (h.remove hfresh).add hfresh (List.perm_append_singleton _ _)

end FiledBins

end WasixLibc
