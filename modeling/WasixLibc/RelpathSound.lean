/-
What a path is decomposed into, and that no copy is out of bounds.

The pieces that count are those that name something: the empty one and the dot
do not.  The invariant is that both lengths are those of the buffers.
-/
import WasixLibc.AbsolutePath

namespace WasixLibc

namespace Preopens

/-- The lengths that are stored with the buffers are theirs. -/
structure BuffersFit (st : State) (rel : RelativeBuf) : Prop where
  makeAbsolute : st.makeAbsoluteLen = st.makeAbsoluteBuf.length
  relative : rel.len = rel.data.length

/-! The lookup -/

theorem drop_leading (s : Str) :
    s.drop (s.takeWhile (· == SLASH)).length = s.dropWhile (· == SLASH) := by
  calc s.drop (s.takeWhile (· == SLASH)).length
      = (s.takeWhile (· == SLASH) ++ s.dropWhile (· == SLASH)).drop
          (s.takeWhile (· == SLASH)).length := by rw [List.takeWhile_append_dropWhile]
    _ = s.dropWhile (· == SLASH) := List.drop_left

theorem drop_skipSlashes (path : Str) (i : Nat) :
    path.drop (skipSlashes path i) = (path.drop i).dropWhile (· == SLASH) := by
  unfold skipSlashes
  rw [← List.drop_drop, drop_leading]

theorem pathComponents_searchPath (path : Str) :
    pathComponents (searchPath path) = pathComponents path :=
  components_dropWhile_sep rfl path

/-- The rest of the path follows the match and the slashes behind it. -/
theorem drop_matchLength {path pre rest : Str} (hpre : pre ≠ [])
    (hsplit : searchPath path = pre ++ rest) :
    path.drop (matchLength path (searchPath path) pre.length) = rest.dropWhile (· == SLASH) := by
  have hlength : pre.length ≠ 0 := by simpa using hpre
  have hcount : path.length - (searchPath path).length = (path.takeWhile (· == SLASH)).length := by
    have hlengths := congrArg List.length
      (List.takeWhile_append_dropWhile (p := (· == SLASH)) (l := path))
    rw [List.length_append] at hlengths
    unfold searchPath
    omega
  have hdrop : path.drop (pre.length + (path.takeWhile (· == SLASH)).length) = rest := by
    rw [Nat.add_comm, ← List.drop_drop, drop_leading]
    exact (congrArg _ hsplit).trans List.drop_left
  unfold matchLength
  rw [if_pos hlength, drop_skipSlashes, hcount, hdrop]

/-- An empty rest is named by the dot. -/
theorem pathComponents_orDot (computed : Str) :
    pathComponents (if computed = [] then [DOT] else computed) = pathComponents computed := by
  split
  · rename_i hempty
    subst hempty
    rfl
  · rfl

/-- What is behind a prefix and the slashes after it. -/
def behind (rest : Str) : Str :=
  if rest.dropWhile (· == SLASH) = [] then [DOT] else rest.dropWhile (· == SLASH)

/-- The path is a registered prefix and a rest.  Under the root it is left as it
is, and otherwise what is behind the prefix is. -/
theorem findAbspath_split {preopens : List Preopen} {path : Str} {found : Found}
    (h : findAbspath preopens path = .ok found) :
    ∃ pre ∈ preopens, pre.fd = found.fd ∧ pre.pathPrefix = found.absPrefix ∧
      ∃ rest, searchPath path = found.absPrefix ++ rest ∧ Boundary SLASH found.absPrefix rest ∧
        found.relativePath = if found.absPrefix = [] then (if path = [] then [DOT] else path)
          else behind rest := by
  unfold findAbspath at h
  obtain ⟨hfd, -⟩ | ⟨pre, hmem, hmatches, hbest⟩ := search_cases path preopens
  · simp [hfd] at h
  · simp only [hbest, pre.fd_ne, ↓reduceIte, Except.ok.injEq] at h
    subst h
    obtain ⟨rest, hsplit, hboundary⟩ :=
      (prefixMatches_iff (searchPath_slash_not_head path)).mp hmatches
    refine ⟨pre, hmem, rfl, rfl, rest, hsplit, hboundary, ?_⟩
    by_cases hpre : pre.pathPrefix = []
    · rw [if_pos hpre, hpre]
      rfl
    · rw [if_neg hpre, drop_matchLength hpre hsplit]
      rfl

theorem findAbspath_components {preopens : List Preopen} {path : Str} {found : Found}
    (h : findAbspath preopens path = .ok found) :
    (∃ pre ∈ preopens, pre.fd = found.fd ∧ pre.pathPrefix = found.absPrefix) ∧
    pathComponents found.absPrefix ++ pathComponents found.relativePath = pathComponents path := by
  obtain ⟨pre, hmem, hfd, hpre, rest, hsplit, hboundary, hrel⟩ := findAbspath_split h
  refine ⟨⟨pre, hmem, hfd, hpre⟩, ?_⟩
  by_cases hempty : found.absPrefix = []
  · rw [hrel, if_pos hempty, hempty, pathComponents_orDot]
    rfl
  · rw [hrel, if_neg hempty, behind, pathComponents_orDot, ← pathComponents_searchPath path, hsplit]
    calc pathComponents found.absPrefix ++ pathComponents (rest.dropWhile (· == SLASH))
        = pathComponents found.absPrefix ++ pathComponents rest :=
          congrArg _ (components_dropWhile_sep rfl rest)
      _ = pathComponents (found.absPrefix ++ rest) := (components_append rfl hboundary).symm

theorem findAbspath_string {preopens : List Preopen} {path : Str} {found : Found}
    (h : findAbspath preopens path = .ok found) (hnul : NUL ∉ path) :
    found.relativePath ≠ [] ∧ NUL ∉ found.relativePath := by
  unfold findAbspath at h
  dsimp only at h
  split at h
  · cases h
  · obtain rfl := Except.ok.inj h
    by_cases hempty : path.drop (search preopens path).matchLen = []
    · simp only [hempty, ↓reduceIte]
      decide
    · simp only [hempty, ↓reduceIte, ne_eq, not_false_eq_true, true_and]
      exact fun hmem => hnul (List.mem_of_mem_drop hmem)

/-! The copy to the buffer of the caller -/

theorem copyRelative_spec (env : Env) (found : Found) (canRealloc : Bool) {rel : RelativeBuf}
    (hfit : rel.len = rel.data.length) :
    ∃ answer rel', copyRelative env found canRealloc rel = .ok (answer, rel') ∧
      rel'.len = rel'.data.length ∧
      (answer.isOk = true ↔
        canRealloc = true ∧ env.reallocRel = true ∨ found.relativePath.length < rel.len) ∧
      ∀ fd pre, answer = .ok (fd, pre) →
        fd = found.fd ∧ pre = found.absPrefix ∧ HoldsString NUL rel'.data found.relativePath := by
  unfold copyRelative
  dsimp only
  split
  · rename_i hshort
    have hlong : ¬ found.relativePath.length < rel.len := by omega
    split
    · rename_i hfixed
      have hno : canRealloc = false := by simpa using hfixed
      exact ⟨_, _, rfl, hfit, by simp [Except.isOk, Except.toBool, hlong, hno], nofun⟩
    · rename_i hgrows
      have hyes : canRealloc = true := by simpa using hgrows
      split
      · rename_i hrefused
        have hno : env.reallocRel = false := by simpa using hrefused
        exact ⟨_, _, rfl, hfit, by simp [Except.isOk, Except.toBool, hlong, hno], nofun⟩
      · rename_i hgranted
        obtain ⟨data, hcopy, hholds, hlength⟩ :=
          strcpy_zero (realloc rel.data (found.relativePath.length + 1) env.junk)
            found.relativePath (Nat.le_of_eq (length_realloc _ _ _).symm)
        rw [length_realloc] at hlength
        rw [hcopy]
        refine ⟨_, _, rfl, hlength.symm, ⟨fun _ => .inl ⟨hyes, by simpa using hgranted⟩,
          fun _ => rfl⟩, ?_⟩
        rintro fd pre ⟨⟩
        exact ⟨rfl, rfl, hholds⟩
  · obtain ⟨data, hcopy, hholds, hlength⟩ :=
      strcpy_zero rel.data found.relativePath (by omega)
    rw [hcopy]
    refine ⟨_, _, rfl, hfit.trans hlength.symm, ⟨fun _ => .inr (by omega), fun _ => rfl⟩, ?_⟩
    rintro fd pre ⟨⟩
    exact ⟨rfl, rfl, hholds⟩

/-- The descriptor and the two parts of the path that a call returns. -/
structure Decomposition (env : Env) (preopens : List Preopen) (path : CString) (st : State)
    (fd : BitVec 32) (pre : Str) (rel' : RelativeBuf) : Prop where
  registered : ∃ p ∈ preopens, p.fd = fd ∧ p.pathPrefix = pre
  relative : ∃ relpath, HoldsString NUL rel'.data relpath ∧ NUL ∉ relpath ∧ relpath ≠ [] ∧
    Names env st path.bytes (pathComponents pre ++ pathComponents relpath)

/-- No copy is out of bounds, the lengths stay those of the buffers, and a call
that succeeds decomposes the path. -/
structure RelpathSound (env : Env) (preopens : List Preopen) (path : CString) (canRealloc : Bool)
    (st : State) (rel : RelativeBuf) : Prop where
  inBounds : findRelpathAlloc env preopens path canRealloc st rel ≠ .error .overflow
  fits : ∀ answer st' rel',
    findRelpathAlloc env preopens path canRealloc st rel = .ok (answer, st', rel') →
    BuffersFit st' rel'
  decomposes : ∀ fd pre st' rel',
    findRelpathAlloc env preopens path canRealloc st rel = .ok (.ok (fd, pre), st', rel') →
    Decomposition env preopens path st fd pre rel'

/-! The call -/

section Sound

variable {env : Env} {preopens : List Preopen} {path : CString} {canRealloc : Bool}
variable {st : State} {rel : RelativeBuf}

/-- A lookup that succeeds, and what it finds. -/
structure Locates (env : Env) (preopens : List Preopen) (path : Str) (canRealloc : Bool)
    (st : State) (rel : RelativeBuf) (found : Found) : Prop where
  absolute : ∃ synced, syncCwd env st = some synced ∧ Builds env synced path ∧
    findAbspath preopens (absolutePath env synced.directory path) = .ok found
  room : canRealloc = true ∧ env.reallocRel = true ∨ found.relativePath.length < rel.len

theorem Locates.unique {found found' : Found} {path : Str}
    (h : Locates env preopens path canRealloc st rel found)
    (h' : Locates env preopens path canRealloc st rel found') : found = found' := by
  obtain ⟨synced, hsync, -, hfound⟩ := h.absolute
  obtain ⟨synced', hsync', -, hfound'⟩ := h'.absolute
  obtain rfl := Option.some.inj (hsync.symm.trans hsync')
  exact Except.ok.inj (hfound.symm.trans hfound')

/-- What a lookup may come to. -/
inductive Located (env : Env) (preopens : List Preopen) (path : Str) (canRealloc : Bool)
    (st : State) (rel : RelativeBuf) : Except Fault (Answer × State × RelativeBuf) → Prop where
  | unknown {e : Errno} (hsync : syncCwd env st = none) :
      Located env preopens path canRealloc st rel (.ok (.error e, st, rel))
  | failed {e : Errno} {synced st' : State} {rel' : RelativeBuf}
      (hsync : syncCwd env st = some synced)
      (hnone : ∀ found, ¬ Locates env preopens path canRealloc st rel found)
      (hnull : ¬ ReadsNull env st path) (hsame : SameDirectory synced st')
      (hfits : rel'.len = rel'.data.length) :
      Located env preopens path canRealloc st rel (.ok (.error e, st', rel'))
  | located {found : Found} {synced st' : State} {rel' : RelativeBuf}
      (hsync : syncCwd env st = some synced)
      (hlocates : Locates env preopens path canRealloc st rel found)
      (hsame : SameDirectory synced st') (hfits : rel'.len = rel'.data.length)
      (hholds : HoldsString NUL rel'.data found.relativePath) :
      Located env preopens path canRealloc st rel
        (.ok (.ok (found.fd, found.absPrefix), st', rel'))
  | readsNull (hnull : ReadsNull env st path) :
      Located env preopens path canRealloc st rel (.error .nullDeref)

theorem findRelpathAlloc_located (hfit : BuffersFit st rel) :
    Located env preopens path.bytes canRealloc st rel
      (findRelpathAlloc env preopens path canRealloc st rel) := by
  unfold findRelpathAlloc
  have hmade := @makeAbsolute_made env path st hfit.makeAbsolute
  generalize makeAbsolute env path.bytes st = result at hmade
  cases hmade with
  | unknown hsync => exact .unknown hsync
  | readsNull hnull => exact .readsNull hnull
  | failed hsync hbuilds hnull hsame =>
      refine .failed hsync ?_ hnull hsame hfit.relative
      rintro found ⟨⟨synced, hsync', hbuilds', -⟩, -⟩
      obtain rfl := Option.some.inj (hsync.symm.trans hsync')
      exact hbuilds hbuilds'
  | @made synced st' hsync hbuilds hsame =>
      have hnull : ¬ ReadsNull env st path.bytes :=
        fun hreads => not_builds_of_readsNull hreads hsync hbuilds
      simp only [bind, Except.bind]
      cases hfound : findAbspath preopens (absolutePath env synced.directory path.bytes) with
      | error e =>
          refine .failed hsync ?_ hnull hsame hfit.relative
          rintro found ⟨⟨synced', hsync', -, hfound'⟩, -⟩
          obtain rfl := Option.some.inj (hsync.symm.trans hsync')
          rw [hfound] at hfound'
          cases hfound'
      | ok found =>
          obtain ⟨answer, rel', hcopy, hfits, hroom, hholds⟩ :=
            copyRelative_spec env found canRealloc hfit.relative
          simp only [hcopy]
          cases answer with
          | error e =>
              refine .failed hsync ?_ hnull hsame hfits
              rintro found' ⟨⟨synced', hsync', -, hfound'⟩, hgranted⟩
              obtain rfl := Option.some.inj (hsync.symm.trans hsync')
              obtain rfl := Except.ok.inj (hfound.symm.trans hfound')
              cases hroom.mpr hgranted
          | ok pair =>
              obtain ⟨fd, pre⟩ := pair
              obtain ⟨rfl, rfl, hdata⟩ := hholds fd pre rfl
              exact .located hsync ⟨⟨synced, hsync, hbuilds, hfound⟩, hroom.mp rfl⟩ hsame hfits
                hdata

theorem Located.fits {answer : Answer} {st' : State} {rel' : RelativeBuf}
    (h : Located env preopens path.bytes canRealloc st rel (.ok (answer, st', rel')))
    (hfit : BuffersFit st rel) : BuffersFit st' rel' := by
  cases h with
  | unknown => exact hfit
  | failed _ _ _ hsame hfits => exact ⟨hsame.fits, hfits⟩
  | located _ _ hsame hfits _ => exact ⟨hsame.fits, hfits⟩

end Sound

theorem findRelpathAlloc_sound (env : Env) (preopens : List Preopen) (path : CString)
    (canRealloc : Bool) {st : State} {rel : RelativeBuf} (hfit : BuffersFit st rel) :
    RelpathSound env preopens path canRealloc st rel := by
  have hlocated := @findRelpathAlloc_located env preopens path canRealloc st rel hfit
  refine ⟨?_, ?_, ?_⟩
  · intro hoverflow
    rw [hoverflow] at hlocated
    cases hlocated
  · intro answer st' rel' hrun
    rw [hrun] at hlocated
    exact hlocated.fits hfit
  · intro fd pre st' rel' hrun
    rw [hrun] at hlocated
    cases hlocated with
    | @located found _ _ _ _ hlocates _ _ hholds =>
        obtain ⟨synced, hsync, hbuilds, hfound⟩ := hlocates.absolute
        obtain ⟨hregistered, hcomponents⟩ := findAbspath_components hfound
        obtain ⟨hne, hnul⟩ := findAbspath_string hfound hbuilds.nul_not_mem
        refine ⟨hregistered, found.relativePath, hholds, hnul, hne, ?_⟩
        rw [hcomponents]
        exact hbuilds.names hsync

namespace SoundWitness

/-- `x` in the current directory `/c`, with `c` registered. -/
def env : Env := { getcwd := some ⟨[SLASH, 99], by decide⟩ }

def preopens : List Preopen := [.register 6 [99] (by decide) (by decide)]

def path : CString := ⟨[120], by decide⟩

theorem relative_decomposed :
    (∃ st' rel', findRelpathAlloc env preopens path true {} ⟨[], 0⟩ =
      .ok (.ok (6, [99]), st', rel')) ∧ RelpathSound env preopens path true {} ⟨[], 0⟩ :=
  ⟨⟨_, _, rfl⟩, findRelpathAlloc_sound env preopens path true ⟨rfl, rfl⟩⟩

end SoundWitness

end Preopens

end WasixLibc
