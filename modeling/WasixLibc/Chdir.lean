/-
`chdir`, which keeps a current directory of its own beside the one of the host.

The string in the library is replaced first, and then the host is told.  Before
the first call the library has not asked the host yet, and the lookup of any
path does so.
-/
import WasixLibc.RelpathDirectory

namespace WasixLibc

namespace Preopens

/-- The string at the front of a piece of memory. -/
def CString.read (memory : Str) : CString where
  bytes := readString NUL memory
  nul_not_mem := by
    intro hmem
    have hne := List.mem_takeWhile_imp hmem
    simp at hne

/-- `errno` after a call that fails. -/
inductive ChdirError where
  | relpath (e : Errno)
  | notdir
  | nomem
  | host (code : Nat)
deriving Repr, DecidableEq

/-- What a call gets from the host, whose own current directory is `hostCwd`,
and from the allocator.  `fstatat` tells if a file is a directory, and `chdir`
what the current directory of the host becomes. -/
structure HostAnswers (hostCwd : CString) extends Env where
  getcwd_eq : ∀ cwd, getcwd = some cwd → cwd = hostCwd
  fstatat : BitVec 32 → Str → Except Nat Bool
  malloc : Bool
  chdir : CString → Except Nat CString

/-- The static variables, the buffer of `chdir_legacy` among them, and the
current directory of the host. -/
structure Process where
  libc : State
  relativeBuf : RelativeBuf
  hostCwd : CString

/-- `"/" + abs + "/" + relative_buf`, with less of it if the relative path is
the dot or `abs` is empty. -/
def newCwd (abs relative : Str) : Str :=
  let copyRelative := relative != [DOT]
  let mid := copyRelative && abs != []
  SLASH :: (abs ++ ((if mid then [SLASH] else []) ++ (if copyRelative then relative else [])))

/-- `chdir_legacy` -/
def chdirLegacy (preopens : List Preopen) (p : Process) (answers : HostAnswers p.hostCwd)
    (path : CString) : Except Fault (Except ChdirError Unit × Process) := do
  let (answer, libc, relativeBuf) ←
    findRelpathAlloc answers.toEnv preopens path true p.libc p.relativeBuf
  let p := { p with libc := libc, relativeBuf := relativeBuf }
  match answer with
  | .error e => return (.error (.relpath e), p)
  | .ok (parentFd, abs) =>
      let relative := readString NUL relativeBuf.data
      match answers.fstatat parentFd relative with
      | .error code => return (.error (.host code), p)
      | .ok false => return (.error .notdir, p)
      | .ok true =>
          if !answers.malloc then return (.error .nomem, p)
          return (.ok (), { p with
            libc := { libc with cwd := some (CString.read (newCwd abs relative)) } })

/-- `chdir` -/
def chdir (preopens : List Preopen) (p : Process) (answers : HostAnswers p.hostCwd)
    (path : CString) : Except Fault (Except ChdirError Unit × Process) := do
  let (answer, p) ← chdirLegacy preopens p answers path
  match answer with
  | .error e => return (.error e, p)
  | .ok () =>
      match answers.chdir path with
      | .error code => return (.error (.host code), p)
      | .ok hostCwd => return (.ok (), { p with hostCwd := hostCwd })

/-! The call -/

section Call

variable {preopens : List Preopen} {p p' : Process} {answers : HostAnswers p.hostCwd}
variable {path : CString}

/-- A path that the part in the library accepts, and what it finds. -/
structure Accepts (preopens : List Preopen) (p : Process) (answers : HostAnswers p.hostCwd)
    (path : CString) (found : Found) : Prop where
  locates : Locates answers.toEnv preopens path.bytes true p.libc p.relativeBuf found
  directory : answers.fstatat found.fd found.relativePath = .ok true
  malloc : answers.malloc = true

/-- What the part in the library never touches, and what it keeps. -/
structure KeepsHost (p p' : Process) : Prop where
  hostCwd : p'.hostCwd = p.hostCwd
  fits : BuffersFit p'.libc p'.relativeBuf

/-- What the part in the library may come to. -/
inductive LegacyRun (preopens : List Preopen) (p : Process) (answers : HostAnswers p.hostCwd)
    (path : CString) : Except Fault (Except ChdirError Unit × Process) → Prop where
  | unknown {error : ChdirError} {p' : Process} (hsync : syncCwd answers.toEnv p.libc = none)
      (hlibc : p'.libc = p.libc) (hkeeps : KeepsHost p p') :
      LegacyRun preopens p answers path (.ok (.error error, p'))
  | failed {error : ChdirError} {synced : State} {p' : Process}
      (hsync : syncCwd answers.toEnv p.libc = some synced)
      (hnone : ∀ found, ¬ Accepts preopens p answers path found)
      (hnull : ¬ ReadsNull answers.toEnv p.libc path.bytes)
      (hsame : SameDirectory synced p'.libc) (hkeeps : KeepsHost p p') :
      LegacyRun preopens p answers path (.ok (.error error, p'))
  | replaced {synced : State} {found : Found} {p' : Process}
      (hsync : syncCwd answers.toEnv p.libc = some synced)
      (haccepts : Accepts preopens p answers path found)
      (hcwd : p'.libc.cwd = some (CString.read (newCwd found.absPrefix found.relativePath)))
      (hsynced : p'.libc.isSynced = synced.isSynced) (hkeeps : KeepsHost p p') :
      LegacyRun preopens p answers path (.ok (.ok (), p'))
  | readsNull (hnull : ReadsNull answers.toEnv p.libc path.bytes) :
      LegacyRun preopens p answers path (.error .nullDeref)

theorem chdirLegacy_run (preopens : List Preopen) (answers : HostAnswers p.hostCwd)
    (path : CString) (hfit : BuffersFit p.libc p.relativeBuf) :
    LegacyRun preopens p answers path (chdirLegacy preopens p answers path) := by
  unfold chdirLegacy
  have hlocated := @findRelpathAlloc_located answers.toEnv preopens path true _ _ hfit
  generalize findRelpathAlloc answers.toEnv preopens path true p.libc p.relativeBuf = result
    at hlocated
  cases hlocated with
  | unknown hsync => exact .unknown hsync rfl ⟨rfl, hfit⟩
  | readsNull hnull => exact .readsNull hnull
  | failed hsync hnone hnull hsame hfits =>
      exact .failed hsync (fun found haccepts => hnone found haccepts.locates) hnull hsame
        ⟨rfl, hsame.fits, hfits⟩
  | @located found synced libc relativeBuf hsync hlocates hsame hfits hholds =>
      have hnull : ¬ ReadsNull answers.toEnv p.libc path.bytes := by
        intro hreads
        obtain ⟨synced', hsync', hbuilds, -⟩ := hlocates.absolute
        exact not_builds_of_readsNull hreads hsync' hbuilds
      have hrel : readString NUL relativeBuf.data = found.relativePath := by
        obtain ⟨synced', -, hbuilds, hfound⟩ := hlocates.absolute
        exact readString_of_holds hholds (findAbspath_string hfound hbuilds.nul_not_mem).2
      simp only [bind, Except.bind, hrel]
      cases hstat : answers.fstatat found.fd found.relativePath with
      | error code =>
          refine .failed hsync ?_ hnull hsame ⟨rfl, hsame.fits, hfits⟩
          intro found' haccepts
          have hdirectory := haccepts.directory
          rw [haccepts.locates.unique hlocates, hstat] at hdirectory
          cases hdirectory
      | ok isDir =>
          cases isDir with
          | false =>
              refine .failed hsync ?_ hnull hsame ⟨rfl, hsame.fits, hfits⟩
              intro found' haccepts
              have hdirectory := haccepts.directory
              rw [haccepts.locates.unique hlocates, hstat] at hdirectory
              cases hdirectory
          | true =>
              cases hmalloc : answers.malloc with
              | false =>
                  refine .failed hsync ?_ hnull hsame ⟨rfl, hsame.fits, hfits⟩
                  intro found' haccepts
                  rw [haccepts.malloc] at hmalloc
                  cases hmalloc
              | true =>
                  exact .replaced hsync ⟨hlocates, hstat, hmalloc⟩ rfl hsame.isSynced
                    ⟨rfl, hsame.fits, hfits⟩

/-- A call that comes back has got as far as the host, or not. -/
theorem chdir_cases {answer : Except ChdirError Unit}
    (h : chdir preopens p answers path = .ok (answer, p')) :
    (∃ error, answer = .error error ∧
      chdirLegacy preopens p answers path = .ok (.error error, p')) ∨
    ∃ changed, chdirLegacy preopens p answers path = .ok (.ok (), changed) ∧
      ((∃ code, answers.chdir path = .error code ∧ answer = .error (.host code) ∧ p' = changed) ∨
        ∃ hostCwd, answers.chdir path = .ok hostCwd ∧ answer = .ok () ∧
          p' = { changed with hostCwd := hostCwd }) := by
  unfold chdir at h
  cases hlegacy : chdirLegacy preopens p answers path with
  | error fault =>
      rw [hlegacy] at h
      cases h
  | ok result =>
      obtain ⟨legacy, changed⟩ := result
      rw [hlegacy] at h
      simp only [bind, Except.bind] at h
      cases legacy with
      | error error =>
          cases h
          exact .inl ⟨error, rfl, rfl⟩
      | ok =>
          refine .inr ⟨changed, rfl, ?_⟩
          dsimp only at h
          cases hhost : answers.chdir path with
          | error code =>
              rw [hhost] at h
              cases h
              exact .inl ⟨code, rfl, rfl, rfl⟩
          | ok hostCwd =>
              rw [hhost] at h
              cases h
              exact .inr ⟨hostCwd, rfl, rfl, rfl⟩

end Call

end Preopens

end WasixLibc
