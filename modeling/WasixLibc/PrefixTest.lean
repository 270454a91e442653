/-
The test whether a prefix leads a path, byte by byte.

Strings are read in memories that end with their terminator, and a read behind
it has no result.  `prefix_matches` compares all bytes of the prefix before it
drops the slashes at the end of it, so these slashes have to be in the path too.
-/
import WasixLibc.PreopenLookup

namespace WasixLibc

namespace Preopens

/-- `for (; n && *l == *r; n--, l++, r++); return n ? *l-*r : 0;` -/
def memcmp : Nat → Str → Str → Option Int
  | 0, _, _ => some 0
  | n + 1, a :: l, b :: r =>
      if a = b then memcmp n l r else some ((a.toNat : Int) - b.toNat)
  | _ + 1, _, _ => none

/-- `while (i > 0 && prefix[i - 1] == '/') --i;` -/
def dropSlashes (memory : Str) : Nat → Option Nat
  | 0 => some 0
  | i + 1 => do
      if (← memory[i]?) == SLASH then dropSlashes memory i else some (i + 1)

/-- `prefix_matches(prefix, prefix_len, path)`. -/
def prefixMatchesIn (prefixMemory : Str) (prefixLen : Nat) (pathMemory : Str) : Option Bool := do
  let first ← pathMemory[0]?
  if first != SLASH && prefixLen == 0 then return true
  if (← memcmp prefixLen pathMemory prefixMemory) != 0 then return false
  let i ← dropSlashes prefixMemory prefixLen
  let last ← pathMemory[i]?
  return last == SLASH || last == NUL

/-- A string in memory. -/
def terminated (s : Str) : Str := s ++ [NUL]

/-! Every read is in bounds -/

/-- The terminator of `path` is a difference from a byte of `pre`. -/
theorem memcmp_terminated {pre : Str} (hpre : NUL ∉ pre) (path : Str) :
    ∃ order, memcmp pre.length (terminated path) (terminated pre) = some order ∧
      (order = 0 ↔ pre <+: path) := by
  induction pre generalizing path with
  | nil => exact ⟨0, rfl, by simp⟩
  | cons b pre ih =>
      rw [List.mem_cons, not_or] at hpre
      cases path with
      | nil =>
          refine ⟨((NUL : UInt8).toNat : Int) - b.toNat, if_neg hpre.1, ?_⟩
          have hne : b.toNat ≠ 0 := fun heq => hpre.1 (UInt8.toNat_inj.mp heq.symm)
          simp only [List.prefix_nil, reduceCtorEq, iff_false]
          simp only [UInt8.toNat_ofNat]
          omega
      | cons a path =>
          obtain ⟨order, hrest, horder⟩ := ih hpre.2 path
          by_cases hab : a = b
          · refine ⟨order, (if_pos hab).trans hrest, ?_⟩
            rw [horder, List.cons_prefix_cons]
            simp [hab]
          · refine ⟨(a.toNat : Int) - b.toNat, if_neg hab, ?_⟩
            have hne : a.toNat ≠ b.toNat := fun heq => hab (UInt8.toNat_inj.mp heq)
            rw [List.cons_prefix_cons]
            constructor
            · intro hzero
              omega
            · exact fun hpair => absurd hpair.1.symm hab

theorem dropSlashes_prefix (pre behind : Str) :
    dropSlashes (pre ++ behind) pre.length = some (pre.rdropWhile (· == SLASH)).length := by
  induction pre using List.reverseRecOn generalizing behind with
  | nil => rfl
  | append_singleton pre b ih =>
      have hread : (pre ++ [b] ++ behind)[pre.length]? = some b := by simp
      rw [List.length_append, List.length_singleton, dropSlashes, hread]
      by_cases hb : b = SLASH
      · subst hb
        rw [List.rdropWhile_concat_pos _ _ _ (by simp), List.append_assoc]
        exact ih ([SLASH] ++ behind)
      · rw [List.rdropWhile_concat_neg _ _ _ (by simpa using hb)]
        simp [hb]

/-- The reads behind `memcmp` see what the indices of the string say. -/
theorem last_terminated {path : Str} (hpath : NUL ∉ path) {i : Nat} (hi : i ≤ path.length) :
    ∃ last, (terminated path)[i]? = some last ∧
      (last == SLASH || last == NUL) = (slashAt path i || endsAt path i) := by
  rcases Nat.lt_or_eq_of_le hi with hlt | rfl
  · refine ⟨path[i], by simp [terminated, List.getElem?_append_left, hlt], ?_⟩
    have hne : path[i] ≠ NUL := fun heq => hpath (heq ▸ List.getElem_mem hlt)
    simp [slashAt, endsAt, hlt, hne]
  · exact ⟨NUL, by simp [terminated], by simp [slashAt, endsAt]⟩

theorem prefixMatchesIn_terminated {pre path : Str} (hpre : NUL ∉ pre) (hpath : NUL ∉ path) :
    prefixMatchesIn (terminated pre) pre.length (terminated path) =
      some (prefixMatches pre path) := by
  obtain ⟨first, hfirst, hslash⟩ :
      ∃ first, (terminated path)[0]? = some first ∧ (first != SLASH) = !slashAt path 0 := by
    cases path with
    | nil => exact ⟨NUL, rfl, rfl⟩
    | cons a path => exact ⟨a, rfl, by simp [slashAt, bne]⟩
  obtain ⟨order, hcmp, horder⟩ := memcmp_terminated hpre path
  unfold prefixMatchesIn prefixMatches
  simp only [hfirst, Option.bind_eq_bind, Option.bind_some, hslash, hcmp]
  by_cases hempty : (!slashAt path 0 && pre.length == 0) = true
  · rw [if_pos hempty, if_pos hempty]
    rfl
  · rw [if_neg hempty, if_neg hempty]
    by_cases hmem : pre <+: path
    · have hzero : (order != 0) = false := by simpa using horder.mpr hmem
      have hstarts : pre.isPrefixOf path = true := List.isPrefixOf_iff_prefix.mpr hmem
      have hle : (pre.rdropWhile (· == SLASH)).length ≤ path.length :=
        ((List.rdropWhile_prefix _ pre).length_le).trans hmem.length_le
      obtain ⟨last, hlast, hend⟩ := last_terminated hpath hle
      have hdrop : dropSlashes (terminated pre) pre.length = _ := dropSlashes_prefix pre [NUL]
      rw [hzero, hstarts, hdrop]
      simp only [Option.bind_some, hlast, hend]
      rfl
    · have hne : (order != 0) = true := by simpa using fun heq => hmem (horder.mp heq)
      have hstarts : pre.isPrefixOf path = false := by
        rw [Bool.eq_false_iff, ne_eq, List.isPrefixOf_iff_prefix]
        exact hmem
      rw [hne, hstarts]
      rfl

/-! Which prefixes are found -/

/-- `pre` without the slashes at its end. -/
def unslashed (pre : Str) : Str := pre.rdropWhile (· == SLASH)

/-- The slashes of `path` behind its first `n` bytes. -/
def slashesBehind (path : Str) (n : Nat) : Nat := ((path.drop n).takeWhile (· == SLASH)).length

/-- `pre` leads the path, but not with all the slashes at its end. -/
def SlashesMissing (pre path : Str) : Prop :=
  LeadingPieces SLASH (unslashed pre) path ∧
    slashesBehind path (unslashed pre).length < pre.length - (unslashed pre).length

theorem unslashed_append (pre : Str) :
    pre = unslashed pre ++ List.replicate (pre.length - (unslashed pre).length) SLASH := by
  have hparts := List.rdropWhile_append_rtakeWhile (p := (· == SLASH)) (l := pre)
  have htail : ∀ b ∈ pre.rtakeWhile (· == SLASH), b = SLASH := by
    intro b hb
    simpa using List.mem_rtakeWhile_imp hb
  have hlength := congrArg List.length hparts
  rw [List.length_append] at hlength
  have hcount : (pre.rtakeWhile (· == SLASH)).length = pre.length - (unslashed pre).length := by
    unfold unslashed
    omega
  rw [← hcount, ← List.eq_replicate_of_mem htail]
  exact hparts.symm

theorem replicate_prefix_iff (s : Str) (k : Nat) :
    List.replicate k SLASH <+: s ↔ k ≤ (s.takeWhile (· == SLASH)).length := by
  induction s generalizing k with
  | nil => cases k <;> simp
  | cons a s ih =>
      cases k with
      | zero => simp
      | succ k =>
          rw [List.replicate_succ, List.cons_prefix_cons, ih]
          by_cases ha : a = SLASH
          · simp [ha]
          · simp [ha, Ne.symm ha]

theorem unslashed_lt {pre : Str} (hlast : pre.getLast? = some SLASH) :
    (unslashed pre).length < pre.length := by
  obtain ⟨init, rfl⟩ := List.getLast?_eq_some_iff.mp hlast
  have hle : (unslashed init).length ≤ init.length := (List.rdropWhile_prefix _ init).length_le
  have hdrop : unslashed (init ++ [SLASH]) = unslashed init :=
    List.rdropWhile_concat_pos _ _ _ (by simp)
  rw [hdrop, List.length_append, List.length_singleton]
  omega

theorem wholePrefix_iff {pre path : Str} (hpath : path.head? ≠ some SLASH) :
    WholePrefix pre path ↔ LeadingPieces SLASH (unslashed pre) path ∧
      pre.length - (unslashed pre).length ≤ slashesBehind path (unslashed pre).length := by
  have hpre := unslashed_append pre
  have hslashes : pre.getLast? = some SLASH → (unslashed pre).length < pre.length := unslashed_lt
  generalize hk : pre.length - (unslashed pre).length = k at hpre ⊢
  unfold slashesBehind
  rw [← replicate_prefix_iff, leadingPieces_iff]
  constructor
  · rintro ⟨rest, rfl, hboundary⟩
    have hsplit : pre ++ rest = unslashed pre ++ (List.replicate k SLASH ++ rest) := by
      rw [← List.append_assoc, ← hpre]
    rw [hsplit, List.drop_left]
    refine ⟨?_, List.prefix_append _ _⟩
    cases k with
    | succ k => exact Or.inr ⟨_, rfl, Or.inr rfl⟩
    | zero =>
        -- no slash at the end of `pre`, so the boundary is in `rest`
        rw [List.replicate_zero, List.append_nil] at hpre
        rcases hboundary with hnil | hlast | hrest
        · exact Or.inl (hpre.symm.trans hnil)
        · have hlt := hslashes hlast
          omega
        · exact Or.inr ⟨rest, rfl, hrest⟩
  · rintro ⟨hleads, hbehind⟩
    rcases hleads with hnil | ⟨rest, rfl, hrest⟩
    · rw [hnil, List.length_nil, List.drop_zero] at hbehind
      cases k with
      | succ k =>
          obtain ⟨rest, rfl⟩ := hbehind
          exact absurd rfl hpath
      | zero =>
          rw [hnil] at hpre
          exact ⟨path, by rw [hpre]; rfl, Or.inl hpre⟩
    · rw [List.drop_left] at hbehind
      obtain ⟨rest, rfl⟩ := hbehind
      refine ⟨rest, by rw [← List.append_assoc, ← hpre], ?_⟩
      cases k with
      | succ k =>
          refine Or.inr (Or.inl ?_)
          rw [hpre, List.replicate_succ', ← List.append_assoc, List.getLast?_concat]
      | zero => exact Or.inr (Or.inr hrest)

/-- `prefix_matches` reads neither string behind its terminator, and it answers
whether the prefix without the slashes at its end leads the path, unless the
path lacks some of these slashes. -/
theorem prefixMatchesIn_leads_iff {pre path : Str} (hpre : NUL ∉ pre) (hpath : NUL ∉ path)
    (hslash : path.head? ≠ some SLASH) :
    ∃ found, prefixMatchesIn (terminated pre) pre.length (terminated path) = some found ∧
      ((found = true ↔ LeadingPieces SLASH (unslashed pre) path) ↔ ¬ SlashesMissing pre path) := by
  refine ⟨prefixMatches pre path, prefixMatchesIn_terminated hpre hpath, ?_⟩
  rw [prefixMatches_iff hslash, wholePrefix_iff hslash, SlashesMissing, ← Nat.not_le]
  tauto

namespace PrefixTestWitness

/-- `a/` -/
def directory : Str := [97, SLASH]

/-- `a` -/
def name : Str := [97]

theorem directory_not_found :
    prefixMatchesIn (terminated directory) directory.length (terminated name) = some false ∧
      LeadingPieces SLASH (unslashed directory) name ∧
      findAbspath [Preopen.register 3 (SLASH :: directory) (by decide) (by decide)]
        (SLASH :: name) = .error .enoent := by
  refine ⟨by decide, ⟨1, by decide⟩, by decide⟩

theorem directory_leads :
    ∃ found, prefixMatchesIn (terminated directory) directory.length
        (terminated (name ++ directory)) = some found ∧
      ((found = true ↔ LeadingPieces SLASH (unslashed directory) (name ++ directory)) ↔
        ¬ SlashesMissing directory (name ++ directory)) :=
  prefixMatchesIn_leads_iff (by decide) (by decide) (by decide)

end PrefixTestWitness

end Preopens

end WasixLibc
