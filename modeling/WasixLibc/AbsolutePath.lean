/-
The path that a lookup starts from.

`make_absolute` returns the path, the current directory, or both joined in a
static buffer, unless it lacks the directory or the memory.  Every lookup is
about the string that is defined here, and names what the path names.
-/
import WasixLibc.Relpath

namespace WasixLibc

namespace Preopens

def pathComponents (s : Str) : List Str := components SLASH (fun c => c != [] && c != [DOT]) s

/-- The current directory a call starts from. -/
def currentDirectory (env : Env) (st : State) : Option CString := (syncCwd env st).bind State.cwd

/-- What a path names. -/
def Names (env : Env) (st : State) (path : Str) (names : List Str) : Prop :=
  if slashAt path 0 then names = pathComponents path
  else ∃ cwd, currentDirectory env st = some cwd ∧
    names = pathComponents cwd.bytes ++ pathComponents path

theorem length_realloc (memory : Str) (size : Nat) (junk : UInt8) :
    (realloc memory size junk).length = size := by
  unfold realloc
  rw [List.length_append, List.length_take, List.length_replicate]
  omega

theorem strcpy_zero (memory s : Str) (hfits : s.length + 1 ≤ memory.length) :
    ∃ memory', strcpy memory 0 s = .ok memory' ∧ HoldsString NUL memory' s ∧
      memory'.length = memory.length := by
  obtain ⟨memory', hcopy, hholds, hlength⟩ : ∃ memory', copyString NUL memory 0 s = some memory' ∧
      HoldsString NUL memory' s ∧ memory'.length = memory.length := copyString_zero hfits
  refine ⟨memory', ?_, hholds, hlength⟩
  unfold strcpy
  rw [hcopy]

theorem strcpy_append {memory s t : Str} (h : HoldsString NUL memory s)
    (hfits : s.length + (t.length + 1) ≤ memory.length) :
    ∃ memory', strcpy memory s.length t = .ok memory' ∧ HoldsString NUL memory' (s ++ t) ∧
      memory'.length = memory.length := by
  obtain ⟨memory', hcopy, hholds, hlength⟩ := copyString_append h hfits
  refine ⟨memory', ?_, hholds, hlength⟩
  unfold strcpy
  rw [hcopy]

/-- `./` in front names nothing. -/
theorem pathComponents_dropDotSlash (path : Str) :
    pathComponents (dropDotSlash path) = pathComponents path := by
  unfold dropDotSlash
  split
  · rename_i hlead
    obtain ⟨rest, rfl⟩ := List.isPrefixOf_iff_prefix.mp hlead
    have hdot : pathComponents ([DOT] ++ SLASH :: rest) = _ := components_append_sep [DOT] rest
    exact hdot.symm
  · rfl

theorem pathComponents_of_isCurrent {path : Str} (h : isCurrent path = true) :
    pathComponents path = [] := by
  unfold isCurrent at h
  simp only [Bool.or_eq_true, beq_iff_eq] at h
  rcases h with (rfl | rfl) | rfl <;> decide

theorem needSlash_cases (env : Env) (cwd : Str) :
    needSlash env cwd = 1 ∨ needSlash env cwd = 0 ∧ (cwd = [] ∨ cwd.getLast? = some SLASH) := by
  unfold needSlash
  cases hlast : cwd.getLast? with
  | none =>
      have hempty := List.getLast?_eq_none_iff.mp hlast
      by_cases hbyte : env.byteBefore = SLASH
      · exact Or.inr ⟨if_pos hbyte, Or.inl hempty⟩
      · exact Or.inl (if_neg hbyte)
  | some c =>
      by_cases hc : c = SLASH
      · exact Or.inr ⟨if_pos hc, Or.inr (congrArg some hc)⟩
      · exact Or.inl (if_neg hc)

/-- The current directory with a slash behind it. -/
def slashed (env : Env) (cwd : Str) : Str :=
  if needSlash env cwd = 1 then cwd ++ [SLASH] else cwd

theorem length_slashed (env : Env) (cwd : Str) :
    (slashed env cwd).length = cwd.length + needSlash env cwd := by
  unfold slashed
  rcases needSlash_cases env cwd with hneed | ⟨hneed, _⟩
  · rw [if_pos hneed, hneed, List.length_append, List.length_singleton]
  · rw [hneed, if_neg (by decide), Nat.add_zero]

theorem nul_not_mem_slashed (env : Env) (cwd : CString) : NUL ∉ slashed env cwd.bytes := by
  unfold slashed
  split
  · rw [List.mem_append, not_or]
    exact ⟨cwd.nul_not_mem, by decide⟩
  · exact cwd.nul_not_mem

theorem pathComponents_slashed_append (env : Env) (cwd path : Str) :
    pathComponents (slashed env cwd ++ path) = pathComponents cwd ++ pathComponents path := by
  unfold slashed
  rcases needSlash_cases env cwd with hneed | ⟨hneed, hlast⟩
  · rw [if_pos hneed, List.append_assoc, List.singleton_append]
    exact components_append_sep cwd path
  · rw [hneed, if_neg (by decide)]
    exact components_append rfl (hlast.imp_right Or.inl)

/-- The buffer after the part of the copy that adds the slash. -/
theorem copySlash (env : Env) {memory cwd : Str} (h : HoldsString NUL memory cwd)
    (hfits : cwd.length + 1 + needSlash env cwd ≤ memory.length) :
    ∃ memory', (needSlash env cwd = 1 → strcpy memory cwd.length [SLASH] = .ok memory') ∧
      (needSlash env cwd ≠ 1 → memory' = memory) ∧
      HoldsString NUL memory' (slashed env cwd) ∧ memory'.length = memory.length := by
  unfold slashed
  rcases needSlash_cases env cwd with hneed | ⟨hneed, -⟩
  · obtain ⟨memory', hcopy, hholds, hlength⟩ := strcpy_append (t := [SLASH]) h
      (by rw [List.length_singleton]; omega)
    rw [if_pos hneed]
    exact ⟨memory', fun _ => hcopy, fun hno => absurd hneed hno, hholds, hlength⟩
  · have hno : needSlash env cwd ≠ 1 := by omega
    rw [if_neg hno]
    exact ⟨memory, fun hyes => absurd hyes hno, fun _ => rfl, h, rfl⟩

/-- What the buffer holds at the end. -/
def joined (env : Env) (cwd path : Str) : Str :=
  if env.reentrant && isCurrent path then cwd else slashed env cwd ++ path

theorem nul_not_mem_joined (env : Env) (cwd : CString) {path : Str} (hnul : NUL ∉ path) :
    NUL ∉ joined env cwd.bytes path := by
  unfold joined
  split
  · exact cwd.nul_not_mem
  · rw [List.mem_append, not_or]
    exact ⟨nul_not_mem_slashed env cwd, hnul⟩

theorem pathComponents_joined (env : Env) (cwd path : Str) :
    pathComponents (joined env cwd path) = pathComponents cwd ++ pathComponents path := by
  unfold joined
  split
  · rename_i hcurrent
    rw [pathComponents_of_isCurrent (Bool.and_eq_true_iff.mp hcurrent).2, List.append_nil]
  · exact pathComponents_slashed_append env cwd path

/-- The buffer is too short for a path in the current directory, and there is
no memory for a longer one. -/
def NoRoom (env : Env) (cwd path : Str) (st : State) : Prop :=
  st.makeAbsoluteLen < cwd.length + path.length + 1 + needSlash env cwd ∧ env.reallocAbs = false

/-- What comes out of the buffer if the path is appended in it. -/
theorem appendToCwd_spec (env : Env) {path : Str} {st : State} {cwd : CString}
    (hcwd : st.cwd = some cwd) (hfit : st.makeAbsoluteLen = st.makeAbsoluteBuf.length)
    (hnul : NUL ∉ path) :
    ∃ abspath st', appendToCwd env path st = .ok (abspath, st') ∧
      st'.makeAbsoluteLen = st'.makeAbsoluteBuf.length ∧
      st'.cwd = st.cwd ∧ st'.isSynced = st.isSynced ∧
      (abspath = none ↔ NoRoom env cwd.bytes path st) ∧
      ∀ s, abspath = some s → s = joined env cwd.bytes path := by
  have hjoined := nul_not_mem_joined env cwd hnul
  obtain ⟨cwd, hcwdNul⟩ := cwd
  unfold joined at hjoined ⊢
  unfold appendToCwd NoRoom
  simp only [hcwd]
  split
  · rename_i hrefused
    have hno : st.makeAbsoluteLen < cwd.length + path.length + 1 + needSlash env cwd ∧
        env.reallocAbs = false := by simpa using hrefused
    exact ⟨none, st, rfl, hfit, hcwd, rfl, ⟨fun _ => hno, fun _ => rfl⟩, nofun⟩
  · rename_i hgranted
    have hyes : ¬ (st.makeAbsoluteLen < cwd.length + path.length + 1 + needSlash env cwd ∧
        env.reallocAbs = false) := by simpa using hgranted
    generalize hgrown : (if st.makeAbsoluteLen < cwd.length + path.length + 1 + needSlash env cwd
      then _ else st) = grown
    have hgrownFit : grown.makeAbsoluteLen = grown.makeAbsoluteBuf.length ∧
        cwd.length + path.length + 1 + needSlash env cwd ≤ grown.makeAbsoluteLen ∧
        grown.cwd = some ⟨cwd, hcwdNul⟩ ∧ grown.isSynced = st.isSynced := by
      subst hgrown
      split
      · exact ⟨(length_realloc _ _ _).symm, le_rfl, rfl, rfl⟩
      · exact ⟨hfit, by omega, hcwd, rfl⟩
    obtain ⟨hfit', hroom, hcwd', hsynced⟩ := hgrownFit
    obtain ⟨copied, hcopied, hholds, hlength⟩ :=
      strcpy_zero grown.makeAbsoluteBuf cwd (by omega)
    rw [hcopied]
    simp only [bind, Except.bind]
    split
    · refine ⟨_, _, rfl, by simp only [hlength, hfit'], hcwd', hsynced,
        ⟨nofun, fun hno => absurd hno hyes⟩, ?_⟩
      rintro s ⟨⟩
      exact readString_of_holds hholds hcwdNul
    · rename_i hother
      rw [if_neg hother] at hjoined
      obtain ⟨memory, hslash, hnoSlash, hdir, hlength'⟩ := copySlash env hholds (by omega)
      have hdirLength := length_slashed env cwd
      obtain ⟨full, hfull, hholds', hlength''⟩ := strcpy_append (t := path) hdir (by omega)
      refine ⟨some (readString NUL full), { grown with makeAbsoluteBuf := full }, ?_,
        by simp only [hlength'', hlength', hlength, hfit'], hcwd', hsynced,
        ⟨nofun, fun hno => absurd hno hyes⟩, ?_⟩
      · rw [hdirLength] at hfull
        split
        · rename_i hneed
          rw [hslash hneed]
          simp only [hfull]
          rfl
        · rename_i hneed
          obtain rfl := hnoSlash hneed
          simp only [pure, Except.pure, hfull]
      rintro s ⟨⟩
      exact readString_of_holds hholds' hjoined

/-! The absolute path -/

/-- The current directory as a string. -/
def State.directory (st : State) : Str := (st.cwd.map CString.bytes).getD []

/-- What `make_absolute` makes of a path. -/
def absolutePath (env : Env) (cwd path : Str) : Str :=
  if slashAt path 0 then path
  else if !env.reentrant && isCurrent path then cwd
  else joined env cwd (dropDotSlash path)

theorem nul_not_mem_dropDotSlash (path : CString) : NUL ∉ dropDotSlash path.bytes := by
  unfold dropDotSlash
  split
  · exact fun h => path.nul_not_mem (List.mem_of_mem_drop h)
  · exact path.nul_not_mem

theorem nul_not_mem_absolutePath (env : Env) (cwd path : CString) :
    NUL ∉ absolutePath env cwd.bytes path.bytes := by
  unfold absolutePath
  split
  · exact path.nul_not_mem
  · split
    · exact cwd.nul_not_mem
    · exact nul_not_mem_joined env cwd (nul_not_mem_dropDotSlash path)

/-- The components of a path in a directory. -/
def resolve (names : List Str) (path : Str) : List Str :=
  if slashAt path 0 then pathComponents path else names ++ pathComponents path

theorem pathComponents_absolutePath (env : Env) (cwd path : Str) :
    pathComponents (absolutePath env cwd path) = resolve (pathComponents cwd) path := by
  unfold absolutePath resolve
  split
  · rfl
  · split
    · rename_i hcurrent
      rw [pathComponents_of_isCurrent (Bool.and_eq_true_iff.mp hcurrent).2, List.append_nil]
    · rw [pathComponents_joined, pathComponents_dropDotSlash]

section Absolute

variable {env : Env} {path : CString} {st synced : State}

/-- The parts of the state that a lookup leaves as they are once the current
directory is known. -/
structure SameDirectory (st st' : State) : Prop where
  cwd : st'.cwd = st.cwd
  isSynced : st'.isSynced = st.isSynced
  fits : st'.makeAbsoluteLen = st'.makeAbsoluteBuf.length

theorem syncCwd_fits (hsync : syncCwd env st = some synced)
    (hfit : st.makeAbsoluteLen = st.makeAbsoluteBuf.length) :
    synced.makeAbsoluteLen = synced.makeAbsoluteBuf.length := by
  unfold syncCwd at hsync
  split at hsync
  · cases hsync
    exact hfit
  · obtain ⟨cwd, -, rfl⟩ := Option.map_eq_some_iff.mp hsync
    exact hfit

/-- There is an absolute path to look up. -/
def Builds (env : Env) (synced : State) (path : Str) : Prop :=
  slashAt path 0 = true ∨ ∃ cwd, synced.cwd = some cwd ∧
    (env.reentrant = false ∧ isCurrent path = true ∨
      ¬ NoRoom env cwd.bytes (dropDotSlash path) synced)

/-- The current directory is read through a null pointer. -/
def ReadsNull (env : Env) (st : State) (path : Str) : Prop :=
  ∃ synced, syncCwd env st = some synced ∧ synced.cwd = none ∧ slashAt path 0 = false ∧
    ¬ (env.reentrant = false ∧ isCurrent path = true)

theorem not_builds_of_readsNull {path : Str} (hnull : ReadsNull env st path)
    (hsync : syncCwd env st = some synced) : ¬ Builds env synced path := by
  obtain ⟨synced', hsync', hcwd, habs, -⟩ := hnull
  obtain rfl := Option.some.inj (hsync.symm.trans hsync')
  rintro (hslash | ⟨cwd, hsome, -⟩)
  · rw [habs] at hslash
    cases hslash
  · rw [hcwd] at hsome
    cases hsome

theorem Builds.nul_not_mem (hbuilds : Builds env synced path.bytes) :
    NUL ∉ absolutePath env synced.directory path.bytes := by
  obtain habs | ⟨cwd, hcwd, -⟩ := hbuilds
  · unfold absolutePath
    rw [if_pos habs]
    exact path.nul_not_mem
  · unfold State.directory
    rw [hcwd]
    exact nul_not_mem_absolutePath env cwd path

/-- The string that is looked up names what the path names. -/
theorem Builds.names (hsync : syncCwd env st = some synced)
    (hbuilds : Builds env synced path.bytes) :
    Names env st path.bytes (pathComponents (absolutePath env synced.directory path.bytes)) := by
  rw [pathComponents_absolutePath]
  unfold Names resolve
  obtain habs | ⟨cwd, hcwd, -⟩ := hbuilds
  · rw [if_pos habs, if_pos habs]
  · split
    · rfl
    · refine ⟨cwd, ?_, ?_⟩
      · unfold currentDirectory
        rw [hsync]
        exact hcwd
      · unfold State.directory
        rw [hcwd]
        rfl

/-- What `make_absolute` may come to. -/
inductive Made (env : Env) (st : State) (path : Str) :
    Except Fault (Option Str × State) → Prop where
  | unknown (hsync : syncCwd env st = none) : Made env st path (.ok (none, st))
  | made {synced st' : State} (hsync : syncCwd env st = some synced)
      (hbuilds : Builds env synced path) (hsame : SameDirectory synced st') :
      Made env st path (.ok (some (absolutePath env synced.directory path), st'))
  | failed {synced st' : State} (hsync : syncCwd env st = some synced)
      (hbuilds : ¬ Builds env synced path) (hnull : ¬ ReadsNull env st path)
      (hsame : SameDirectory synced st') : Made env st path (.ok (none, st'))
  | readsNull (hnull : ReadsNull env st path) : Made env st path (.error .nullDeref)

/-- The case in which the current directory is read. -/
theorem appendToCwd_made (hsync : syncCwd env st = some synced)
    (hfit : synced.makeAbsoluteLen = synced.makeAbsoluteBuf.length)
    (habs : ¬ slashAt path.bytes 0 = true)
    (hother : ¬ (env.reentrant = false ∧ isCurrent path.bytes = true)) :
    Made env st path.bytes (appendToCwd env (dropDotSlash path.bytes) synced) := by
  cases hcwd : synced.cwd with
  | none =>
      unfold appendToCwd
      rw [hcwd]
      exact .readsNull ⟨synced, hsync, hcwd, by simpa using habs, hother⟩
  | some cwd =>
      obtain ⟨abspath, st', hrun, hfit', hcwd', hsynced, hroom, hstring⟩ :=
        appendToCwd_spec env hcwd hfit (nul_not_mem_dropDotSlash path)
      rw [hrun]
      cases abspath with
      | none =>
          refine .failed hsync ?_ ?_ ⟨hcwd', hsynced, hfit'⟩
          · rintro (hslash | ⟨cwd', hcwd', hnow | hgranted⟩)
            · exact habs hslash
            · exact hother hnow
            · rw [hcwd] at hcwd'
              cases hcwd'
              exact hgranted (hroom.mp rfl)
          · rintro ⟨synced', hsync', hnone, -, -⟩
            obtain rfl := Option.some.inj (hsync.symm.trans hsync')
            rw [hcwd] at hnone
            cases hnone
      | some s =>
          have hgranted : ¬ NoRoom env cwd.bytes (dropDotSlash path.bytes) synced :=
            fun hno => nomatch hroom.mpr hno
          have hmade := Made.made hsync (.inr ⟨cwd, hcwd, .inr hgranted⟩) ⟨hcwd', hsynced, hfit'⟩
          have hcurrent : ¬ (!env.reentrant && isCurrent path.bytes) = true := by simpa using hother
          rw [absolutePath, if_neg habs, if_neg hcurrent, State.directory, hcwd] at hmade
          rw [hstring s rfl]
          exact hmade

theorem makeAbsolute_made (hfit : st.makeAbsoluteLen = st.makeAbsoluteBuf.length) :
    Made env st path.bytes (makeAbsolute env path.bytes st) := by
  unfold makeAbsolute
  cases hsync : syncCwd env st with
  | none => exact .unknown hsync
  | some synced =>
      have hfit' := syncCwd_fits hsync hfit
      dsimp only
      by_cases habs : slashAt path.bytes 0 = true
      · have hmade := Made.made hsync (.inl habs) ⟨rfl, rfl, hfit'⟩
        rw [absolutePath, if_pos habs] at hmade
        rwa [if_pos habs]
      · rw [if_neg habs]
        by_cases hcurrent : (!env.reentrant && isCurrent path.bytes) = true
        · have hboth : env.reentrant = false ∧ isCurrent path.bytes = true := by
            simpa using hcurrent
          rw [if_pos hcurrent]
          cases hcwd : synced.cwd with
          | none =>
              refine .failed hsync ?_ ?_ ⟨rfl, rfl, hfit'⟩
              · rintro (hslash | ⟨cwd, hsome, -⟩)
                · exact habs hslash
                · rw [hcwd] at hsome
                  cases hsome
              · rintro ⟨_, -, -, -, hother⟩
                exact hother hboth
          | some cwd =>
              have hmade := Made.made hsync (.inr ⟨cwd, hcwd, .inl hboth⟩) ⟨rfl, rfl, hfit'⟩
              rw [absolutePath, if_neg habs, if_pos hcurrent, State.directory, hcwd] at hmade
              exact hmade
        · rw [if_neg hcurrent]
          exact appendToCwd_made hsync hfit' habs (by simpa using hcurrent)

end Absolute

end Preopens

end WasixLibc
