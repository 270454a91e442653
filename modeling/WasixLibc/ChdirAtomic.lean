/-
What a call to `chdir` that fails leaves behind.

Paths are resolved in the directory whose string the library has, or asks the
host for on its first use.  A failure of the part in the library leaves that
string, if the copy of the host's answer has not failed; a refusal of the host
comes when the string has been replaced already.
-/
import WasixLibc.Chdir

namespace WasixLibc

namespace Preopens

/-- A lookup in which nothing fails, while the host is in a given directory. -/
structure Untroubled (env : Env) (hostCwd : CString) : Prop where
  getcwd : env.getcwd = some hostCwd
  mallocCwd : env.mallocCwd = true
  reallocAbs : env.reallocAbs = true
  reallocRel : env.reallocRel = true

/-- The string of the current directory is as before, or on the first use the
one of the host; so is the current directory of the host; and every path is
resolved as before. -/
structure Unchanged (p p' : Process) : Prop where
  string : (p'.libc.cwd = p.libc.cwd ∧ p'.libc.isSynced = p.libc.isSynced) ∨
    (p.libc.isSynced = false ∧ p'.libc.cwd = some p.hostCwd)
  hostCwd : p'.hostCwd = p.hostCwd
  resolves : ∀ (env : Env) (preopens : List Preopen) (path : CString) (canRealloc : Bool)
    (rel : RelativeBuf), Untroubled env p.hostCwd →
    outcome env preopens path canRealloc p'.libc rel =
      outcome env preopens path canRealloc p.libc rel

/-- A call that fails changes nothing. -/
def Atomic (preopens : List Preopen) (p : Process) (answers : HostAnswers p.hostCwd)
    (path : CString) : Prop :=
  ∀ error p', chdir preopens p answers path = .ok (.error error, p') → Unchanged p p'

/-- The string that paths are to be resolved in. -/
def Process.expected (p : Process) : Option CString :=
  if p.libc.isSynced then p.libc.cwd else some p.hostCwd

/-- There is no memory for a copy of what the host has answered. -/
def CopyLost (p : Process) (answers : HostAnswers p.hostCwd) : Prop :=
  p.libc.isSynced = false ∧ answers.getcwd.isSome = true ∧ answers.mallocCwd = false

/-! The directory of a lookup -/

section Resolve

variable {env : Env} {st st' : State} {hostCwd cwd : CString}

theorem syncCwd_of_synced (hsynced : st.isSynced = true) : syncCwd env st = some st :=
  if_pos hsynced

/-- The first use. -/
theorem syncCwd_of_not_synced {synced : State} (hsynced : st.isSynced = false)
    (hsync : syncCwd env st = some synced) :
    ∃ cwd, env.getcwd = some cwd ∧ synced.isSynced = true ∧
      synced.cwd = if env.mallocCwd then some cwd else none := by
  unfold syncCwd at hsync
  rw [hsynced] at hsync
  obtain ⟨cwd, hcwd, rfl⟩ := Option.map_eq_some_iff.mp hsync
  exact ⟨cwd, hcwd, rfl, rfl⟩

theorem isSynced_of_syncCwd {synced : State} (hsync : syncCwd env st = some synced) :
    synced.isSynced = true := by
  cases hsynced : st.isSynced with
  | true =>
      rw [syncCwd_of_synced hsynced] at hsync
      cases hsync
      exact hsynced
  | false =>
      obtain ⟨_, -, htrue, -⟩ := syncCwd_of_not_synced hsynced hsync
      exact htrue

/-- A lookup in which nothing fails depends on the state through the current
directory only. -/
theorem outcome_untroubled (henv : Untroubled env hostCwd)
    (hcwd : currentDirectory env st = some cwd)
    (hfit : st.makeAbsoluteLen = st.makeAbsoluteBuf.length) (preopens : List Preopen)
    (path : CString) (canRealloc : Bool) (rel : RelativeBuf) :
    outcome env preopens path canRealloc st rel =
      lookupOutcome preopens (absolutePath env cwd.bytes path.bytes) canRealloc rel := by
  obtain ⟨synced, hsync, hsyncedCwd⟩ := Option.bind_eq_some_iff.mp hcwd
  obtain ⟨st', hst'⟩ : ∃ st', makeAbsolute env path.bytes st =
      .ok (some (absolutePath env cwd.bytes path.bytes), st') := by
    have hmade := @makeAbsolute_made env path st hfit
    generalize makeAbsolute env path.bytes st = result at hmade ⊢
    cases hmade with
    | unknown hnone =>
        rw [hsync] at hnone
        cases hnone
    | @made synced' st' hsync' hbuilds hsame =>
        obtain rfl := Option.some.inj (hsync.symm.trans hsync')
        rw [State.directory, hsyncedCwd]
        exact ⟨st', rfl⟩
    | failed hsync' hbuilds _ _ =>
        obtain rfl := Option.some.inj (hsync.symm.trans hsync')
        have hgranted : ¬ NoRoom env cwd.bytes (dropDotSlash path.bytes) synced := by
          rintro ⟨-, hrefused⟩
          rw [henv.reallocAbs] at hrefused
          cases hrefused
        exact absurd (.inr ⟨cwd, hsyncedCwd, .inr hgranted⟩) hbuilds
    | readsNull hnull =>
        obtain ⟨synced', hsync', hnone, -, -⟩ := hnull
        obtain rfl := Option.some.inj (hsync.symm.trans hsync')
        rw [hsyncedCwd] at hnone
        cases hnone
  have hnul := nul_not_mem_absolutePath env cwd path
  unfold outcome findRelpathAlloc lookupOutcome
  simp only [hst', bind, Except.bind]
  cases hfound : findAbspath preopens (absolutePath env cwd.bytes path.bytes) with
  | error e => rfl
  | ok found =>
      have hcopy := copyRelative_outcome canRealloc rel henv.reallocRel
        (findAbspath_string hfound hnul).2
      dsimp only
      rw [← hcopy]
      cases copyRelative env found canRealloc rel <;> rfl

end Resolve

section Atomic

variable {preopens : List Preopen} {p p' : Process} {answers : HostAnswers p.hostCwd}
variable {path : CString}

theorem currentDirectory_eq {env : Env} (henv : Untroubled env p.hostCwd) :
    currentDirectory env p.libc = p.expected := by
  unfold currentDirectory Process.expected syncCwd
  cases hsynced : p.libc.isSynced with
  | true => rfl
  | false => simp [henv.getcwd, henv.mallocCwd]

/-- Whether a failure changes anything shows in the string. -/
theorem unchanged_of_string (hvalid : p.libc.cwd.isSome = true)
    (hfit : BuffersFit p.libc p.relativeBuf) (hfit' : BuffersFit p'.libc p'.relativeBuf)
    (hhost : p'.hostCwd = p.hostCwd)
    (hstring : (p'.libc.cwd = p.libc.cwd ∧ p'.libc.isSynced = p.libc.isSynced) ∨
      (p.libc.isSynced = false ∧ p'.libc.cwd = some p.hostCwd)) : Unchanged p p' := by
  refine ⟨hstring, hhost, fun env preopens path canRealloc rel henv => ?_⟩
  have henv' : Untroubled env p'.hostCwd := hhost.symm ▸ henv
  have hsame : p'.expected = p.expected := by
    unfold Process.expected
    rw [hhost]
    obtain ⟨hcwd, hsynced⟩ | ⟨hsynced, hcwd⟩ := hstring
    · rw [hcwd, hsynced]
    · rw [hcwd, hsynced]
      split <;> rfl
  obtain ⟨cwd, hcwd⟩ : ∃ cwd, p.expected = some cwd := by
    unfold Process.expected
    split
    · exact Option.isSome_iff_exists.mp hvalid
    · exact ⟨p.hostCwd, rfl⟩
  rw [outcome_untroubled henv' ((currentDirectory_eq henv').trans (hsame.trans hcwd))
      hfit'.makeAbsolute,
    outcome_untroubled henv ((currentDirectory_eq henv).trans hcwd) hfit.makeAbsolute]

theorem chdir_of_legacy_error {error : ChdirError}
    (h : chdirLegacy preopens p answers path = .ok (.error error, p')) :
    chdir preopens p answers path = .ok (.error error, p') := by
  unfold chdir
  rw [h]
  rfl

theorem chdir_of_refused {code : Nat} (hhost : answers.chdir path = .error code)
    (h : chdirLegacy preopens p answers path = .ok (.ok (), p')) :
    chdir preopens p answers path = .ok (.error (.host code), p') := by
  unfold chdir
  simp only [h, bind, Except.bind, hhost]
  rfl

/-- What a failure of the part in the library leaves of the string. -/
theorem string_of_failed {synced : State} (hsync : syncCwd answers.toEnv p.libc = some synced)
    (hsame : SameDirectory synced p'.libc) (hcopy : ¬ CopyLost p answers) :
    (p'.libc.cwd = p.libc.cwd ∧ p'.libc.isSynced = p.libc.isSynced) ∨
      (p.libc.isSynced = false ∧ p'.libc.cwd = some p.hostCwd) := by
  cases hsynced : p.libc.isSynced with
  | true =>
      rw [syncCwd_of_synced hsynced] at hsync
      cases hsync
      exact .inl ⟨hsame.cwd, hsame.isSynced.trans hsynced⟩
  | false =>
      obtain ⟨cwd, hgetcwd, -, hcwd⟩ := syncCwd_of_not_synced hsynced hsync
      have hmalloc : answers.mallocCwd = true := by
        by_contra hno
        exact hcopy ⟨hsynced, by rw [hgetcwd]; rfl, by simpa using hno⟩
      rw [hmalloc, answers.getcwd_eq cwd hgetcwd] at hcwd
      exact .inr ⟨rfl, hsame.cwd.trans hcwd⟩

/-- If the copy is lost and the call is not, the string is. -/
theorem not_unchanged_of_copyLost {synced : State} (hvalid : p.libc.cwd.isSome = true)
    (hsync : syncCwd answers.toEnv p.libc = some synced) (hsame : SameDirectory synced p'.libc)
    (hcopy : CopyLost p answers) : ¬ Unchanged p p' := by
  intro hunchanged
  obtain ⟨hsynced, -, hmalloc⟩ := hcopy
  obtain ⟨cwd, -, -, hcwd⟩ := syncCwd_of_not_synced hsynced hsync
  rw [hmalloc] at hcwd
  have hnone : p'.libc.cwd = none := hsame.cwd.trans hcwd
  obtain ⟨hsameCwd, -⟩ | ⟨-, hhost⟩ := hunchanged.string
  · rw [← hsameCwd, hnone] at hvalid
    cases hvalid
  · rw [hnone] at hhost
    cases hhost

/-- A refusal of the host leaves the new string, which is the old one or not. -/
theorem unchanged_of_replaced_iff {synced : State} {cwd : CString}
    (hvalid : p.libc.cwd.isSome = true) (hfit : BuffersFit p.libc p.relativeBuf)
    (hsync : syncCwd answers.toEnv p.libc = some synced) (hcwd : p'.libc.cwd = some cwd)
    (hsynced' : p'.libc.isSynced = synced.isSynced) (hkeeps : KeepsHost p p') :
    Unchanged p p' ↔ p.expected = some cwd := by
  have hsyncedTrue := hsynced'.trans (isSynced_of_syncCwd hsync)
  unfold Process.expected
  constructor
  · intro hunchanged
    obtain ⟨hsame, hsynced⟩ | ⟨hsynced, hhost⟩ := hunchanged.string
    · rw [← hsynced, hsyncedTrue, ← hcwd, hsame]
      rfl
    · rw [hsynced, ← hcwd, hhost]
      rfl
  · intro hexpected
    refine unchanged_of_string hvalid hfit hkeeps.fits hkeeps.hostCwd ?_
    cases hsynced : p.libc.isSynced with
    | true =>
        rw [hsynced] at hexpected
        exact .inl ⟨hcwd.trans hexpected.symm, hsyncedTrue⟩
    | false =>
        rw [hsynced] at hexpected
        exact .inr ⟨rfl, hcwd.trans hexpected.symm⟩

/-- A lost copy that the call comes back from shows, so the call has to be
accepted. -/
theorem Atomic.accepts_of_copyLost (h : Atomic preopens p answers path)
    (hvalid : p.libc.cwd.isSome = true) (hfit : BuffersFit p.libc p.relativeBuf)
    (hcopy : CopyLost p answers) (hreads : ¬ ReadsNull answers.toEnv p.libc path.bytes) :
    ∃ found, Accepts preopens p answers path found := by
  have hrun := chdirLegacy_run preopens answers path hfit
  generalize hlegacy : chdirLegacy preopens p answers path = result at hrun
  cases hrun with
  | unknown hsync _ _ =>
      obtain ⟨hsynced, hgetcwd, -⟩ := hcopy
      unfold syncCwd at hsync
      rw [hsynced] at hsync
      rw [Option.map_eq_none_iff.mp hsync] at hgetcwd
      cases hgetcwd
  | failed hsync _ _ hsame _ =>
      exact absurd (h _ _ (chdir_of_legacy_error hlegacy))
        (not_unchanged_of_copyLost hvalid hsync hsame hcopy)
  | replaced _ haccepts _ _ _ => exact ⟨_, haccepts⟩
  | readsNull hnull => exact absurd hnull hreads

/-- A refusal of the host leaves the new string. -/
theorem Atomic.expected_of_refused (h : Atomic preopens p answers path)
    (hvalid : p.libc.cwd.isSome = true) (hfit : BuffersFit p.libc p.relativeBuf) {code : Nat}
    {found : Found} (hhost : answers.chdir path = .error code)
    (haccepts : Accepts preopens p answers path found) :
    p.expected = some (CString.read (newCwd found.absPrefix found.relativePath)) := by
  have hrun := chdirLegacy_run preopens answers path hfit
  obtain ⟨synced, hsync, hbuilds, -⟩ := haccepts.locates.absolute
  generalize hlegacy : chdirLegacy preopens p answers path = result at hrun
  cases hrun with
  | unknown hsync' _ _ =>
      rw [hsync] at hsync'
      cases hsync'
  | failed _ hnone _ _ _ => exact absurd haccepts (hnone found)
  | replaced hsync' haccepts' hcwd hsynced' hkeeps =>
      rw [haccepts.locates.unique haccepts'.locates]
      exact (unchanged_of_replaced_iff hvalid hfit hsync' hcwd hsynced' hkeeps).mp
        (h _ _ (chdir_of_refused hhost hlegacy))
  | readsNull hnull => exact absurd hbuilds (not_builds_of_readsNull hnull hsync)

/-- A call that fails changes nothing exactly if the copy of the directory the
host has answered is not lost, unless the call never comes back or its path is
accepted, and a path that is accepted and then refused by the host is looked up
as the directory that was current already. -/
theorem chdir_atomic_iff (hvalid : p.libc.cwd.isSome = true)
    (hfit : BuffersFit p.libc p.relativeBuf) :
    Atomic preopens p answers path ↔
      (CopyLost p answers → ReadsNull answers.toEnv p.libc path.bytes ∨
        ∃ found, Accepts preopens p answers path found) ∧
      ∀ code found, answers.chdir path = .error code → Accepts preopens p answers path found →
        p.expected = some (CString.read (newCwd found.absPrefix found.relativePath)) := by
  constructor
  · intro hatomic
    refine ⟨fun hcopy => ?_, fun _ _ => hatomic.expected_of_refused hvalid hfit⟩
    by_cases hreads : ReadsNull answers.toEnv p.libc path.bytes
    · exact .inl hreads
    · exact .inr (hatomic.accepts_of_copyLost hvalid hfit hcopy hreads)
  · rintro ⟨hcopy, hrefused⟩ error p' h
    have hrun := chdirLegacy_run preopens answers path hfit
    obtain ⟨error, -, hlegacy⟩ | ⟨changed, hlegacy, hend⟩ := chdir_cases h
    · rw [hlegacy] at hrun
      cases hrun with
      | unknown hsync hlibc hkeeps =>
          refine unchanged_of_string hvalid hfit hkeeps.fits hkeeps.hostCwd (.inl ?_)
          rw [hlibc]
          exact ⟨rfl, rfl⟩
      | failed hsync hnone hnull hsame hkeeps =>
          refine unchanged_of_string hvalid hfit hkeeps.fits hkeeps.hostCwd
            (string_of_failed hsync hsame fun hlost => ?_)
          obtain hreads | ⟨found, haccepts⟩ := hcopy hlost
          · exact hnull hreads
          · exact hnone found haccepts
    · obtain ⟨code, hcode, -, rfl⟩ | ⟨hostCwd, -, hanswer, -⟩ := hend
      · rw [hlegacy] at hrun
        cases hrun with
        | replaced hsync haccepts hcwd hsynced' hkeeps =>
            exact (unchanged_of_replaced_iff hvalid hfit hsync hcwd hsynced' hkeeps).mpr
              (hrefused code _ hcode haccepts)
      · cases hanswer

end Atomic

namespace AtomicWitness

def root : CString := CString.read [SLASH]

/-- `/c` -/
def path : CString := CString.read [SLASH, 99]

/-- Nothing has been looked up yet. -/
def start : Process where
  libc := { cwd := some root }
  relativeBuf := ⟨[], 0⟩
  hostCwd := root

/-- A host in which every file is a directory, but that changes to none. -/
def refusing : HostAnswers start.hostCwd where
  getcwd := some root
  getcwd_eq := by
    rintro cwd ⟨⟩
    rfl
  fstatat _ _ := .ok true
  malloc := true
  chdir _ := .error 2

/-- A host in which no file is a directory. -/
def barring : HostAnswers start.hostCwd where
  getcwd := some root
  getcwd_eq := by
    rintro cwd ⟨⟩
    rfl
  fstatat _ _ := .ok false
  malloc := true
  chdir _ := .error 2

/-- A file that is no directory changes nothing. -/
theorem file_harmless : Atomic SoundWitness.preopens start barring path := by
  refine (chdir_atomic_iff rfl ⟨rfl, rfl⟩).mpr ⟨?_, ?_⟩
  · rintro ⟨-, -, hmalloc⟩
    cases hmalloc
  · intro code found _ haccepts
    cases haccepts.directory

theorem refused_kept : ¬ Atomic SoundWitness.preopens start refusing path := by
  intro hatomic
  obtain ⟨p', hrun, hcwd, hsynced⟩ : ∃ p', chdir SoundWitness.preopens start refusing path =
      .ok (.error (.host 2), p') ∧ p'.libc.cwd.map CString.bytes = some path.bytes ∧
      p'.libc.isSynced = true := ⟨_, rfl, by decide, rfl⟩
  obtain ⟨-, hno⟩ | ⟨-, hroot⟩ := (hatomic _ _ hrun).string
  · rw [hsynced] at hno
    cases hno
  · rw [hroot] at hcwd
    exact absurd hcwd (by decide)

end AtomicWitness

end Preopens

end WasixLibc
