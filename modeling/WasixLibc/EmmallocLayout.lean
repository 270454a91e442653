/-
How the regions of the heap lie.

In a block each region ends where the next begins, no two free regions are
neighbours, and the first and the last region are the block's own.  Between two
blocks there may be memory of others.
-/
import WasixLibc.EmmallocCalls
import WasixLibc.ListZipper

namespace WasixLibc

namespace Emmalloc

open ListZipper

/-- `s` is the region behind `r`. -/
structure Follows (r s : Region) : Prop where
  root_iff : s.kind = .root ↔ r.kind = .sentinel
  joined : r.kind ≠ .sentinel → r.stop = s.addr
  parted : r.kind = .sentinel → r.stop ≤ s.addr
  apart : r.kind = .free → s.kind ≠ .free

variable {r s x : Region}

theorem Follows.stop_le (h : Follows r s) : r.stop ≤ s.addr := by
  by_cases hkind : r.kind = .sentinel
  · exact h.parted hkind
  · exact Nat.le_of_eq (h.joined hkind)

/-- `s` can take the place of `r` in front of what is behind it. -/
structure SameBack (r s : Region) : Prop where
  stop_eq : s.stop = r.stop
  sentinel_iff : s.kind = .sentinel ↔ r.kind = .sentinel
  free : s.kind = .free → r.kind = .free
  size_eq : r.kind = .sentinel → s.size = r.size

/-- `s` can take the place of `r` behind what is in front of it. -/
structure SameFront (r s : Region) : Prop where
  addr_eq : s.addr = r.addr
  root_iff : s.kind = .root ↔ r.kind = .root
  free : s.kind = .free → r.kind = .free

theorem SameBack.refl (r : Region) : SameBack r r := ⟨rfl, Iff.rfl, id, fun _ => rfl⟩

theorem Follows.behind (h : Follows r x) (hsame : SameBack r s) : Follows s x where
  root_iff := h.root_iff.trans hsame.sentinel_iff.symm
  joined hkind := hsame.stop_eq.trans (h.joined fun hr => hkind (hsame.sentinel_iff.mpr hr))
  parted hkind := Nat.le_trans (Nat.le_of_eq hsame.stop_eq) (h.parted (hsame.sentinel_iff.mp hkind))
  apart hkind := h.apart (hsame.free hkind)

theorem Follows.inFront (h : Follows x r) (hsame : SameFront r s) : Follows x s where
  root_iff := hsame.root_iff.trans h.root_iff
  joined hkind := (h.joined hkind).trans hsame.addr_eq.symm
  parted hkind := Nat.le_trans (h.parted hkind) (Nat.le_of_eq hsame.addr_eq.symm)
  apart hkind hs := h.apart hkind (hsame.free hs)

/-- `regions` are those of the blocks in `roots`, the newest of which comes first
there and last here. -/
structure Laid (roots : List RootRegion) (regions : List Region) : Prop where
  follows : regions.IsChain Follows
  size_le : ∀ r ∈ regions, REGION_SIZE ≤ r.size
  empty : roots = [] → regions = []
  first : ∀ r ∈ regions.head?, r.kind = .root
  last : ∀ root ∈ roots.head?, ∃ s ∈ regions.getLast?,
    s.kind = .sentinel ∧ s.size = REGION_SIZE ∧ s.stop = root.endPtr

variable {roots : List RootRegion} {regions before behind old new : List Region}

theorem laid_nil : Laid [] [] := ⟨.nil, by simp, fun _ => rfl, by simp, by simp⟩

/-- Every region ends before each later one starts. -/
theorem Laid.ordered (h : Laid roots regions) : regions.Pairwise fun r s => r.stop ≤ s.addr := by
  have htrans : IsTrans Region fun r s => r.stop ≤ s.addr := by
    refine ⟨fun a b c hab hbc => ?_⟩
    have hb : b.addr ≤ b.stop := Nat.le_add_right _ _
    omega
  exact (h.follows.imp fun _ _ hrs => hrs.stop_le).pairwise

theorem Laid.addr_ne (h : Laid roots (before ++ r :: behind)) :
    ∀ s ∈ before ++ behind, s.addr ≠ r.addr := by
  obtain ⟨_, hbehind, hbefore⟩ := List.pairwise_append.mp h.ordered
  have hr : 16 ≤ r.size := h.size_le r (by simp)
  intro s hs
  rcases List.mem_append.mp hs with hmem | hmem
  · have hle := hbefore s hmem r List.mem_cons_self
    have hsize : 16 ≤ s.size := h.size_le s (List.mem_append_left _ hmem)
    unfold Region.stop at hle
    omega
  · have hle := (List.pairwise_cons.mp hbehind).1 s hmem
    unfold Region.stop at hle
    omega

/-- A part of the regions is replaced. -/
theorem Laid.splice {a a' b b' : Region} (h : Laid roots (before ++ (old ++ behind)))
    (hnew : new.IsChain Follows) (hsize : ∀ r ∈ new, REGION_SIZE ≤ r.size)
    (hfirst : old.head? = some a ∧ new.head? = some a')
    (hlast : old.getLast? = some b ∧ new.getLast? = some b')
    (hfront : SameFront a a') (hback : SameBack b b') :
    Laid roots (before ++ (new ++ behind)) where
  follows := isChain_splice h.follows hnew hfirst hlast (fun _ hx => hx.inFront hfront)
    (fun _ hx => hx.behind hback)
  size_le r hr := by
    rcases List.mem_append.mp hr with hr | hr
    · exact h.size_le r (List.mem_append_left _ hr)
    · rcases List.mem_append.mp hr with hr | hr
      · exact hsize r hr
      · exact h.size_le r (List.mem_append_right _ (List.mem_append_right _ hr))
  empty hroots := by
    have hnil := h.empty hroots
    rw [List.append_eq_nil_iff, List.append_eq_nil_iff] at hnil
    rw [hnil.2.1] at hfirst
    cases hfirst.1
  first r hr := by
    cases before with
    | cons x before => exact h.first r hr
    | nil =>
        have hold : (([] : List Region) ++ (old ++ behind)).head? = some a := by
          rw [List.nil_append, List.head?_append, hfirst.1, Option.some_or]
        rw [List.nil_append, List.head?_append, hfirst.2, Option.some_or, Option.mem_some] at hr
        exact hr ▸ hfront.root_iff.mpr (h.first a hold)
  last root hroot := by
    obtain ⟨s, hs, hkind, hsize, hstop⟩ := h.last root hroot
    cases behind with
    | cons x behind =>
        refine ⟨s, ?_, hkind, hsize, hstop⟩
        rw [← List.append_assoc, List.getLast?_append_cons] at hs ⊢
        exact hs
    | nil =>
        rw [List.append_nil, List.getLast?_append, hlast.1, Option.some_or, Option.mem_some] at hs
        subst hs
        refine ⟨b', ?_, hback.sentinel_iff.mpr hkind, (hback.size_eq hkind).trans hsize,
          hback.stop_eq.trans hstop⟩
        rw [List.append_nil, List.getLast?_append, hlast.2, Option.some_or]
        exact rfl

/-- A region that is handed out or free has neighbours. -/
theorem Laid.neighbours (h : Laid roots (before ++ r :: behind)) (hroot : r.kind ≠ .root)
    (hsentinel : r.kind ≠ .sentinel) :
    ∃ pre p n post, before = pre ++ [p] ∧ behind = n :: post ∧ Follows p r ∧ Follows r n := by
  have hbefore : before ≠ [] := by
    rintro rfl
    exact hroot (h.first r rfl)
  have hbehind : behind ≠ [] := by
    rintro rfl
    cases roots with
    | nil =>
        have hnil := h.empty rfl
        simp at hnil
    | cons root older =>
        obtain ⟨s, hs, hkind, _⟩ := h.last root rfl
        rw [List.getLast?_concat, Option.mem_some] at hs
        exact hsentinel (hs ▸ hkind)
  obtain ⟨pre, p, rfl⟩ := (List.eq_nil_or_concat' before).resolve_left hbefore
  obtain ⟨n, post, rfl⟩ := List.exists_cons_of_ne_nil hbehind
  have hchain := h.follows
  rw [List.append_assoc, List.singleton_append, List.isChain_append_cons_cons,
    List.isChain_cons_cons] at hchain
  exact ⟨pre, p, n, post, rfl, rfl, hchain.2.1, hchain.2.2.1⟩

/-- A region that is not the last of a block ends before its sentinel. -/
theorem Laid.stop_le (h : Laid roots regions) {root : RootRegion} (hroot : root ∈ roots.head?)
    (hr : r ∈ regions) : r.stop ≤ root.endPtr ∧
      (r.kind ≠ .sentinel → r.stop + REGION_SIZE ≤ root.endPtr) := by
  obtain ⟨s, hs, hkind, hsize, hstop⟩ := h.last root hroot
  obtain ⟨init, rfl⟩ := List.getLast?_eq_some_iff.mp hs
  unfold Region.stop at hstop
  rcases List.mem_append.mp hr with hmem | hmem
  · have hle := (List.pairwise_append.mp h.ordered).2.2 r hmem s List.mem_cons_self
    exact ⟨by omega, fun _ => by omega⟩
  · obtain rfl := List.mem_singleton.mp hmem
    unfold Region.stop
    exact ⟨by omega, fun hne => absurd hkind hne⟩

/-! Finding a region by its address -/

theorem spot_eq {h : Heap} (hregions : h.regions = before ++ r :: behind)
    (hbefore : ∀ s ∈ before, s.addr ≠ r.addr) : h.spot r.addr = some ⟨before, r, behind⟩ := by
  have hpass : ∀ s ∈ before, (s.addr != r.addr) = true := by simpa using hbefore
  have hdrop : h.regions.dropWhile (fun s => s.addr != r.addr) = r :: behind := by
    rw [hregions, List.dropWhile_append_of_pos hpass]
    exact List.dropWhile_cons_of_neg (by simp)
  have htake : h.regions.takeWhile (fun s => s.addr != r.addr) = before := by
    rw [hregions, List.takeWhile_append_of_pos hpass, List.takeWhile_cons_of_neg (by simp),
      List.append_nil]
  unfold Heap.spot
  rw [hdrop, htake]

theorem spot_regions {h : Heap} {addr : Nat} {spot : Spot} (hspot : h.spot addr = some spot) :
    h.regions = spot.before ++ spot.region :: spot.behind ∧ spot.region.addr = addr := by
  have hsplit := List.takeWhile_append_dropWhile (p := fun r : Region => r.addr != addr)
    (l := h.regions)
  unfold Heap.spot at hspot
  split at hspot
  · cases hspot
  · rename_i region behind hdrop
    cases hspot
    rw [hdrop] at hsplit
    refine ⟨hsplit.symm, ?_⟩
    have hhead := List.head?_dropWhile_not (fun r : Region => r.addr != addr) h.regions
    rw [hdrop] at hhead
    simpa using hhead

theorem Laid.spot {h : Heap} (hlaid : Laid roots h.regions)
    (hregions : h.regions = before ++ r :: behind) : h.spot r.addr = some ⟨before, r, behind⟩ := by
  rw [hregions] at hlaid
  exact spot_eq hregions fun s hs => hlaid.addr_ne s (List.mem_append_left _ hs)

end Emmalloc

end WasixLibc
