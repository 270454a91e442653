/-
How the string of the current directory is spelt after calls to `chdir`.

Its components are always those of the directory that was asked for.  It begins
with one slash if the path is looked up under a prefix that is not the root:
under the root the slash of the path is kept, and another is put in front.
-/
import WasixLibc.ChdirAtomic
import WasixLibc.LabelledRun

namespace WasixLibc

namespace Preopens

/-! The new string -/

theorem pathComponents_newCwd (abs relative : Str) :
    pathComponents (newCwd abs relative) = pathComponents abs ++ pathComponents relative := by
  have hslash : ∀ s, pathComponents (SLASH :: s) = pathComponents s := components_sep_cons rfl
  unfold newCwd
  rw [hslash]
  by_cases hdot : relative = [DOT]
  · subst hdot
    have hnothing : pathComponents [DOT] = [] := by decide
    simp [hnothing]
  · by_cases habs : abs = []
    · subst habs
      have hnothing : pathComponents [] = [] := by decide
      simp [hdot, hnothing]
    · have hsplit : pathComponents (abs ++ SLASH :: relative) =
          pathComponents abs ++ pathComponents relative := components_append_sep abs relative
      simpa [hdot, habs] using hsplit

/-- An absolute path begins with a slash if the current directory does. -/
theorem slashAt_absolutePath (env : Env) {cwd : Str} (hcwd : slashAt cwd 0 = true) (path : Str) :
    slashAt (absolutePath env cwd path) 0 = true := by
  have happend : ∀ rest, slashAt (cwd ++ rest) 0 = true := by
    intro rest
    cases cwd with
    | nil => cases hcwd
    | cons c cwd => exact hcwd
  unfold absolutePath joined slashed
  split
  · assumption
  · split
    · exact hcwd
    · split
      · exact hcwd
      · split
        · rw [List.append_assoc]
          exact happend _
        · exact happend _

theorem absolutePath_dot (env : Env) (cwd : Str) : absolutePath env cwd [DOT] = cwd := by
  unfold absolutePath joined
  cases env.reentrant <;> rfl

theorem nul_not_mem_newCwd {abs relative : Str} (habs : NUL ∉ abs) (hrel : NUL ∉ relative) :
    NUL ∉ newCwd abs relative := by
  unfold newCwd
  simp only [List.mem_cons, List.mem_append, not_or]
  refine ⟨by decide, habs, ?_, ?_⟩
  · split
    · decide
    · exact List.not_mem_nil
  · split
    · exact hrel
    · exact List.not_mem_nil

theorem CString.read_bytes {s : Str} (hs : NUL ∉ s) : (CString.read s).bytes = s := by
  refine List.takeWhile_eq_self_iff.mpr fun c hc => ?_
  have hne : c ≠ NUL := fun heq => hs (heq ▸ hc)
  simpa using hne

/-! What a lookup leaves of a path -/

theorem Preopen.slash_not_head (pre : Preopen) : pre.pathPrefix.head? ≠ some SLASH := by
  intro hhead
  obtain ⟨rest, hrest⟩ := List.head?_eq_some_iff.mp hhead
  have hstripped := pre.stripped
  rw [hrest] at hstripped
  have hlength := (stripPrefixes_suffix rest).length_le
  rw [show stripPrefixes (SLASH :: rest) = stripPrefixes rest from rfl] at hstripped
  rw [hstripped, List.length_cons] at hlength
  omega

/-- The empty prefix is found only where no other matches. -/
theorem search_root {path : Str} {preopens : List Preopen} (hfd : (search preopens path).fd ≠ -1)
    (hroot : (search preopens path).absPrefix = []) :
    ∀ pre ∈ preopens, prefixMatches pre.pathPrefix (searchPath path) = true →
      pre.pathPrefix = [] := by
  induction preopens with
  | nil => exact nofun
  | cons first newer ih =>
      intro pre hpre hmatches
      by_cases htaken : ((search newer path).fd = -1 ∨
            (search newer path).matchLen < first.pathPrefix.length) ∧
          prefixMatches first.pathPrefix (searchPath path) = true
      · rw [search_cons_of_taken htaken.1 htaken.2] at hroot
        have hfirst : first.pathPrefix = [] := hroot
        obtain rfl | hnewer := List.mem_cons.mp hpre
        · exact hfirst
        · obtain ⟨-, hnone⟩ | ⟨best, -, -, hbest⟩ := search_cases path newer
          · rw [hnone pre hnewer] at hmatches
            cases hmatches
          · obtain hnone | hlt := htaken.1
            · rw [hbest] at hnone
              exact absurd hnone best.fd_ne
            · rw [hfirst] at hlt
              exact absurd hlt (Nat.not_lt_zero _)
      · have hkept : (search newer path).fd ≠ -1 ∧
              first.pathPrefix.length ≤ (search newer path).matchLen ∨
            prefixMatches first.pathPrefix (searchPath path) = false := by
          rw [not_and_or, not_or, Nat.not_lt, Bool.not_eq_true] at htaken
          exact htaken
        rw [search_cons_of_not_taken hkept] at hfd hroot
        obtain rfl | hnewer := List.mem_cons.mp hpre
        · obtain ⟨-, hle⟩ | hno := hkept
          · obtain ⟨hnone, -⟩ | ⟨best, -, -, hbest⟩ := search_cases path newer
            · exact absurd hnone hfd
            · rw [hbest] at hroot hle
              have hempty : best.pathPrefix = [] := hroot
              rw [hempty] at hle
              exact List.length_eq_zero_iff.mp (Nat.le_zero.mp hle)
          · rw [hno] at hmatches
            cases hmatches
        · exact ih hfd hroot pre hnewer hmatches

theorem behind_not_slash (rest : Str) : (behind rest).head? ≠ some SLASH := by
  unfold behind
  split
  · decide
  · exact searchPath_slash_not_head rest

/-- The path is in a registered directory other than the root. -/
def InPrefix (preopens : List Preopen) (path : Str) : Prop :=
  ∃ pre ∈ preopens, pre.pathPrefix ≠ [] ∧ WholePrefix pre.pathPrefix (searchPath path)

theorem absPrefix_ne_nil_iff {preopens : List Preopen} {path : Str} {found : Found}
    (h : findAbspath preopens path = .ok found) :
    found.absPrefix ≠ [] ↔ InPrefix preopens path := by
  have hpath := searchPath_slash_not_head path
  unfold findAbspath at h
  obtain ⟨hfd, -⟩ | ⟨pre, hmem, hmatches, hbest⟩ := search_cases path preopens
  · simp [hfd] at h
  · have hfd : (search preopens path).fd ≠ -1 := by
      rw [hbest]
      exact pre.fd_ne
    rw [if_neg hfd] at h
    cases h
    constructor
    · intro hne
      refine ⟨pre, hmem, ?_, (prefixMatches_iff hpath).mp hmatches⟩
      rw [hbest] at hne
      exact hne
    · rintro ⟨other, hother, hne, hwhole⟩ hroot
      exact hne (search_root hfd hroot other hother ((prefixMatches_iff hpath).mpr hwhole))

/-! How it is spelt -/

/-- `path[0] == '/' && path[1] != '/'` -/
def OneSlash (path : Str) : Prop := slashAt path 0 = true ∧ slashAt path 1 = false

theorem slashAt_cons_succ (c : UInt8) (s : Str) (i : Nat) :
    slashAt (c :: s) (i + 1) = slashAt s i := by
  unfold slashAt
  rw [List.getElem?_cons_succ]

theorem slashAt_zero_iff (s : Str) : slashAt s 0 = true ↔ s.head? = some SLASH := by
  unfold slashAt
  rw [beq_iff_eq, List.head?_eq_getElem?]

/-- The new string begins with one slash exactly if the prefix is not empty. -/
theorem newCwd_oneSlash_iff {preopens : List Preopen} {path : Str} {found : Found}
    (hpath : slashAt path 0 = true) (h : findAbspath preopens path = .ok found) :
    OneSlash (newCwd found.absPrefix found.relativePath) ↔ InPrefix preopens path := by
  obtain ⟨pre, -, -, hpre, rest, -, -, hrel⟩ := findAbspath_split h
  rw [← absPrefix_ne_nil_iff h]
  unfold OneSlash newCwd
  rw [slashAt_cons_succ]
  by_cases hempty : found.absPrefix = []
  · have hne : path ≠ [] := by
      rintro rfl
      cases hpath
    rw [if_pos hempty, if_neg hne] at hrel
    have hdot : path ≠ [DOT] := by
      rintro rfl
      cases hpath
    simp [hempty, hrel, hdot, hpath]
  · have hhead : found.absPrefix.head? ≠ some SLASH := hpre ▸ pre.slash_not_head
    obtain ⟨c, tail, hcons⟩ := List.exists_cons_of_ne_nil hempty
    rw [hcons] at hhead ⊢
    have hno : slashAt (c :: tail) 0 = false := by
      rw [← Bool.not_eq_true, slashAt_zero_iff]
      exact hhead
    exact ⟨fun _ => List.cons_ne_nil c tail, fun _ => ⟨rfl, hno⟩⟩

/-- A slash, the prefix, and behind it nothing, or one slash and what is not the
dot. -/
def Spelt (pre s : Str) : Prop :=
  ∃ rest, s = SLASH :: (pre ++ rest) ∧
    (rest = [] ∨ ∃ c name, rest = SLASH :: c :: name ∧ c ≠ SLASH ∧ c :: name ≠ [DOT])

/-- The new string is spelt so, if the prefix is not empty. -/
theorem newCwd_spelt {preopens : List Preopen} {path : Str} {found : Found}
    (h : findAbspath preopens path = .ok found) (hempty : found.absPrefix ≠ []) :
    Spelt found.absPrefix (newCwd found.absPrefix found.relativePath) := by
  obtain ⟨-, -, -, -, rest, -, -, hrel⟩ := findAbspath_split h
  rw [if_neg hempty] at hrel
  have hhead := behind_not_slash rest
  rw [← hrel] at hhead
  by_cases hdot : found.relativePath = [DOT]
  · refine ⟨[], ?_, .inl rfl⟩
    rw [hdot]
    simp [newCwd]
  · refine ⟨SLASH :: found.relativePath, ?_, .inr ?_⟩
    · simp [newCwd, hdot, hempty]
    · cases hcons : found.relativePath with
      | nil =>
          rw [hrel] at hcons
          unfold behind at hcons
          split at hcons
          · cases hcons
          · contradiction
      | cons c name =>
          rw [hcons] at hhead hdot
          exact ⟨c, name, rfl, fun hc => hhead (congrArg some hc), hdot⟩

/-- The string is spelt so for the prefix it is looked up under. -/
def Settled (preopens : List Preopen) (s : Str) : Prop :=
  ∃ found, findAbspath preopens s = .ok found ∧ found.absPrefix ≠ [] ∧ Spelt found.absPrefix s

/-- A string that is looked up comes back exactly if it is settled. -/
theorem newCwd_eq_iff {preopens : List Preopen} {s : Str} {found : Found}
    (hs : slashAt s 0 = true) (h : findAbspath preopens s = .ok found) :
    newCwd found.absPrefix found.relativePath = s ↔ Settled preopens s := by
  obtain ⟨pre, -, -, hpre, rest', hsearch, -, hrel⟩ := findAbspath_split h
  constructor
  · intro hsame
    have hempty : found.absPrefix ≠ [] := by
      intro hempty
      have hne : s ≠ [] := by
        rintro rfl
        cases hs
      have hdot : s ≠ [DOT] := by
        rintro rfl
        cases hs
      rw [if_pos hempty, if_neg hne] at hrel
      have hlength := congrArg List.length hsame
      simp [newCwd, hempty, hrel, hdot] at hlength
    exact ⟨found, h, hempty, hsame ▸ newCwd_spelt h hempty⟩
  · rintro ⟨found', h', hempty, rest, hsplit, hrest⟩
    obtain rfl := Except.ok.inj (h.symm.trans h')
    rw [if_neg hempty] at hrel
    have hsame : rest' = rest := by
      have hstart : searchPath s = found.absPrefix ++ rest := by
        obtain ⟨c, tail, hcons⟩ := List.exists_cons_of_ne_nil hempty
        have hhead : found.absPrefix.head? ≠ some SLASH := hpre ▸ pre.slash_not_head
        rw [hcons] at hhead
        have hc : ¬ (c == SLASH) = true := by
          intro heq
          exact hhead (congrArg some (beq_iff_eq.mp heq))
        unfold searchPath
        rw [hsplit, hcons, List.cons_append, List.dropWhile_cons_of_pos (by decide),
          List.dropWhile_cons_of_neg (p := (· == SLASH)) hc]
      exact List.append_cancel_left (hsearch.symm.trans hstart)
    rw [hrel, hsame, hsplit]
    obtain rfl | ⟨c, name, rfl, hc, hdot⟩ := hrest
    · simp [behind, newCwd]
    · have hdrop : (SLASH :: c :: name).dropWhile (· == SLASH) = c :: name := by
        rw [List.dropWhile_cons_of_pos (by decide), List.dropWhile_cons_of_neg (by simpa using hc)]
      unfold behind
      rw [hdrop, if_neg (List.cons_ne_nil c name)]
      simp [newCwd, hdot, hempty]

/-! Runs -/

/-- The string that paths are resolved in. -/
def Process.directory (p : Process) : Str := (p.expected.map CString.bytes).getD []

/-- A call, with what it depends on and the process before and after it. -/
structure Call where
  before : Process
  env : Env
  path : CString
  after : Process

/-- The path that is looked up. -/
def Call.lookedUp (c : Call) : Str := absolutePath c.env c.before.directory c.path.bytes

/-- `chdir(".")` -/
def Call.IsDot (c : Call) : Prop := c.path.bytes = [DOT]

/-- A call that succeeds. -/
def Succeeds (preopens : List Preopen) (p : Process) (c : Call) (p' : Process) : Prop :=
  c.before = p ∧ c.after = p' ∧ ∃ answers : HostAnswers p.hostCwd,
    answers.toEnv = c.env ∧ chdir preopens p answers c.path = .ok (.ok (), p')

/-- The string that is stored begins with one slash and has the components of
the directory that was asked for, and `chdir(".")` leaves it. -/
structure Call.Canonical (c : Call) : Prop where
  oneSlash : OneSlash c.after.libc.directory
  target : pathComponents c.after.libc.directory =
    resolve (pathComponents c.before.directory) c.path.bytes
  dot : c.IsDot → c.after.libc.directory = c.before.directory

/-- The lookup does not end at the root, and the dot finds a settled string. -/
structure Call.Anchored (preopens : List Preopen) (c : Call) : Prop where
  inPrefix : InPrefix preopens c.lookedUp
  settled : c.IsDot → Settled preopens c.before.directory

/-- The current directory is an absolute path, and the buffers have the lengths
stored with them. -/
structure Process.Sound (p : Process) : Prop where
  fits : BuffersFit p.libc p.relativeBuf
  absolute : ∃ cwd, p.expected = some cwd ∧ slashAt cwd.bytes 0 = true

section Step

variable {preopens : List Preopen} {p p' : Process} {c : Call} {path : CString}
variable {answers : HostAnswers p.hostCwd} {synced : State}

/-- A path that is looked up is resolved in the current directory. -/
theorem absolutePath_directory (hsync : syncCwd answers.toEnv p.libc = some synced)
    (hbuilds : Builds answers.toEnv synced path.bytes) :
    absolutePath answers.toEnv synced.directory path.bytes =
      absolutePath answers.toEnv p.directory path.bytes := by
  obtain habs | ⟨cwd, hcwd, -⟩ := hbuilds
  · unfold absolutePath
    rw [if_pos habs, if_pos habs]
  · have hexpected : p.expected = some cwd := by
      unfold Process.expected
      cases hsynced : p.libc.isSynced with
      | true =>
          rw [syncCwd_of_synced hsynced] at hsync
          cases hsync
          exact hcwd
      | false =>
          obtain ⟨host, hhost, -, hcopy⟩ := syncCwd_of_not_synced hsynced hsync
          rw [hcwd] at hcopy
          split at hcopy
          · cases hcopy
            exact congrArg some (answers.getcwd_eq cwd hhost).symm
          · cases hcopy
    rw [State.directory, hcwd, Process.directory, hexpected]

/-- What a call that succeeds stores. -/
theorem Succeeds.stores (h : Succeeds preopens p c p') (hsound : p.Sound) :
    p'.Sound ∧ p'.directory = p'.libc.directory ∧
      ∃ found, findAbspath preopens c.lookedUp = .ok found ∧
        p'.libc.directory = newCwd found.absPrefix found.relativePath := by
  obtain ⟨rfl, -, answers, henv, hcall⟩ := h
  obtain ⟨cwd, hexpected, hslash⟩ := hsound.absolute
  obtain ⟨error, herror, -⟩ | ⟨changed, hlegacy, hend⟩ := chdir_cases hcall
  · cases herror
  · obtain ⟨_, -, herror, -⟩ | ⟨hostCwd, -, -, rfl⟩ := hend
    · cases herror
    · have hrun := chdirLegacy_run preopens answers c.path hsound.fits
      rw [hlegacy] at hrun
      cases hrun with
      | @replaced synced found _ hsync haccepts hcwd hsynced hkeeps =>
          obtain ⟨synced', hsync', hbuilds, hfound⟩ := haccepts.locates.absolute
          obtain rfl := Option.some.inj (hsync.symm.trans hsync')
          rw [absolutePath_directory hsync hbuilds, henv] at hfound
          have hnul : NUL ∉ c.lookedUp := by
            rw [Call.lookedUp, Process.directory, hexpected]
            exact nul_not_mem_absolutePath c.env cwd c.path
          obtain ⟨pre, -, -, hpre, -⟩ := findAbspath_split hfound
          have hbytes := CString.read_bytes (nul_not_mem_newCwd (hpre ▸ pre.nul_not_mem)
            (findAbspath_string hfound hnul).2)
          have htrue : changed.libc.isSynced = true := hsynced.trans (isSynced_of_syncCwd hsync)
          refine ⟨⟨hkeeps.fits, _, (if_pos htrue).trans hcwd, ?_⟩, ?_, found, hfound, ?_⟩
          · rw [hbytes]
            rfl
          · unfold Process.directory Process.expected State.directory
            rw [htrue]
            rfl
          · unfold State.directory
            rw [hcwd]
            exact hbytes

/-- The components are right in any case. -/
theorem Succeeds.target (h : Succeeds preopens p c p') (hsound : p.Sound) :
    pathComponents p'.directory = resolve (pathComponents p.directory) c.path.bytes := by
  obtain ⟨-, hsame, found, hfound, hstored⟩ := h.stores hsound
  obtain ⟨rfl, -, -⟩ := h
  rw [hsame, hstored, pathComponents_newCwd, (findAbspath_components hfound).2]
  exact pathComponents_absolutePath c.env _ _

theorem Process.Sound.slash (hsound : p.Sound) : slashAt p.directory 0 = true := by
  obtain ⟨cwd, hexpected, hslash⟩ := hsound.absolute
  unfold Process.directory
  rw [hexpected]
  exact hslash

/-- The dot leaves a settled string. -/
theorem Succeeds.dot_iff (h : Succeeds preopens p c p') (hsound : p.Sound) (hdot : c.IsDot) :
    p'.directory = p.directory ↔ Settled preopens p.directory := by
  obtain ⟨-, hsame, found, hfound, hstored⟩ := h.stores hsound
  obtain ⟨rfl, -, -⟩ := h
  have hcurrent : c.lookedUp = c.before.directory := by
    unfold Call.lookedUp
    rw [show c.path.bytes = [DOT] from hdot, absolutePath_dot]
  rw [hsame, hstored]
  exact newCwd_eq_iff hsound.slash (hcurrent ▸ hfound)

/-- One call is canonical exactly if it is anchored. -/
theorem Succeeds.canonical_iff (h : Succeeds preopens p c p') (hsound : p.Sound) :
    c.Canonical ↔ c.Anchored preopens := by
  have htarget := h.target hsound
  have hdot := h.dot_iff hsound
  obtain ⟨-, hsame, found, hfound, hstored⟩ := h.stores hsound
  obtain ⟨rfl, rfl, -⟩ := h
  have honce := newCwd_oneSlash_iff
    (slashAt_absolutePath c.env hsound.slash c.path.bytes) hfound
  rw [hsame] at htarget hdot
  rw [← hstored] at honce
  constructor
  · rintro ⟨hone, -, hkept⟩
    exact ⟨honce.mp hone, fun hpath => (hdot hpath).mp (hkept hpath)⟩
  · rintro ⟨hin, hsettled⟩
    exact ⟨honce.mpr hin, htarget, fun hpath => (hdot hpath).mpr (hsettled hpath)⟩

end Step

/-- What holds of a run so far. -/
structure Traced (preopens : List Preopen) (start : Process) (calls : List Call) (p : Process) :
    Prop where
  sound : p.Sound
  target : pathComponents p.directory =
    calls.foldl (fun names c => resolve names c.path.bytes) (pathComponents start.directory)
  canonical : (∀ c ∈ calls, c.Canonical) ↔ ∀ c ∈ calls, c.Anchored preopens
  dots : (∀ c ∈ calls, c.IsDot) → Settled preopens start.directory → p.directory = start.directory

theorem Traced.snoc {preopens : List Preopen} {start p p' : Process} {calls : List Call} {c : Call}
    (h : Traced preopens start calls p) (hstep : Succeeds preopens p c p') :
    Traced preopens start (calls ++ [c]) p' where
  sound := (hstep.stores h.sound).1
  target := by
    rw [List.foldl_append, ← h.target]
    exact hstep.target h.sound
  canonical := by
    simp only [List.mem_append, List.mem_singleton, or_imp, forall_and, forall_eq]
    exact and_congr h.canonical (hstep.canonical_iff h.sound)
  dots hdots hsettled := by
    have hbefore := h.dots (fun d hd => hdots d (List.mem_append_left _ hd)) hsettled
    have hdot : c.IsDot := hdots c (by simp)
    exact ((hstep.dot_iff h.sound hdot).mpr (hbefore ▸ hsettled)).trans hbefore

/-- In every run the components are those of the directory that was asked for;
each string that is stored is canonical exactly if every call is anchored; and
any number of calls for the dot leave a settled string. -/
theorem run_canonical_iff {preopens : List Preopen} {start final : Process} {calls : List Call}
    (hstart : start.Sound) (hrun : Run (Succeeds preopens) start calls final) :
    pathComponents final.directory =
        calls.foldl (fun names c => resolve names c.path.bytes) (pathComponents start.directory) ∧
      ((∀ c ∈ calls, c.Canonical) ↔ ∀ c ∈ calls, c.Anchored preopens) ∧
      ((∀ c ∈ calls, c.IsDot) → Settled preopens start.directory →
        final.directory = start.directory) := by
  have htraced : Traced preopens start calls final :=
    hrun.preserves_trace (fun h hstep => h.snoc hstep) ⟨hstart, rfl, by simp, fun _ _ => rfl⟩
  exact ⟨htraced.target, htraced.canonical, htraced.dots⟩

namespace CanonicalWitness

open AtomicWitness (start path)

/-- A host that accepts every directory. -/
def host (p : Process) : HostAnswers p.hostCwd where
  getcwd := some p.hostCwd
  getcwd_eq := by
    rintro cwd ⟨⟩
    rfl
  fstatat _ _ := .ok true
  malloc := true
  chdir path := .ok path

/-- The process after a call. -/
def next (preopens : List Preopen) (p : Process) (path : CString) : Process :=
  match chdir preopens p (host p) path with
  | .ok (_, p') => p'
  | .error _ => p

def call (preopens : List Preopen) (p : Process) (path : CString) : Call :=
  ⟨p, (host p).toEnv, path, next preopens p path⟩

def dot : CString := CString.read [DOT]

/-- `c` is registered. -/
abbrev anchored : List Preopen := SoundWitness.preopens

/-- `chdir("/c")` and `chdir(".")` in a registered directory. -/
def first : Call := call anchored start path
def second : Call := call anchored first.after dot

theorem start_sound : start.Sound := ⟨⟨rfl, rfl⟩, _, rfl, rfl⟩

theorem anchored_run : Run (Succeeds anchored) start [first, second] second.after :=
  (Run.single ⟨rfl, rfl, host start, rfl, rfl⟩).snoc ⟨rfl, rfl, host first.after, rfl, rfl⟩

theorem anchored_inPrefix : InPrefix anchored [SLASH, 99] :=
  ⟨_, List.mem_singleton_self _, by decide, [], by decide, .inr (.inr (.inl rfl))⟩

theorem both_canonical : first.Canonical ∧ second.Canonical := by
  have hall := (run_canonical_iff start_sound anchored_run).2.1.mpr ?_
  · exact ⟨hall first (by simp), hall second (by simp)⟩
  intro c hc
  obtain rfl | rfl := List.mem_pair.mp hc
  · exact ⟨anchored_inPrefix, nofun⟩
  · exact ⟨anchored_inPrefix, fun _ => ⟨⟨6, [99], [DOT]⟩, rfl, by decide, [], rfl, .inl rfl⟩⟩

/-- The root is registered. -/
abbrev root : List Preopen := DirectoryWitness.preopens

def into : Call := call root start path
def again : Call := call root into.after dot

/-- `chdir("/c")` stores `//c`, and `chdir(".")` stores `///c`. -/
theorem slashes_gather : Run (Succeeds root) start [into, again] again.after ∧
    into.after.libc.directory = [SLASH, SLASH, 99] ∧
    again.after.libc.directory = [SLASH, SLASH, SLASH, 99] ∧
    ¬ into.Canonical ∧ ¬ again.Canonical := by
  refine ⟨(Run.single ⟨rfl, rfl, host start, rfl, rfl⟩).snoc
    ⟨rfl, rfl, host into.after, rfl, rfl⟩, rfl, rfl, fun hinto => ?_, fun hagain => ?_⟩
  · cases hinto.oneSlash.2
  · cases hagain.oneSlash.2

end CanonicalWitness

end Preopens

end WasixLibc
