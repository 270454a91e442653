/-
The table of preopened directories and the search for the prefix of a path.

A C string is the list of its bytes; the terminator is what a read behind the
last of them finds.
-/
import Mathlib.Data.List.DropRight
import WasixLibc.PathComponents

namespace WasixLibc

namespace Preopens

abbrev NUL : UInt8 := 0
abbrev SLASH : UInt8 := 47
abbrev DOT : UInt8 := 46

abbrev Str := List UInt8

/-- Leading `/` and `./` are removed, and `.` becomes the empty string. -/
def stripPrefixes : Str → Str
  | 47 :: path => stripPrefixes path
  | 46 :: 47 :: path => stripPrefixes path
  | [46] => []
  | path => path

theorem stripPrefixes_idem (path : Str) :
    stripPrefixes (stripPrefixes path) = stripPrefixes path := by
  fun_induction stripPrefixes path with
  | case1 path ih => exact ih
  | case2 path ih => exact ih
  | case3 => rfl
  | case4 path hslash hdotslash hdot => exact stripPrefixes.eq_4 path hslash hdotslash hdot

theorem stripPrefixes_suffix (path : Str) : stripPrefixes path <:+ path := by
  fun_induction stripPrefixes path with
  | case1 path ih => exact ih.trans (List.suffix_cons 47 path)
  | case2 path ih => exact ih.trans ((List.suffix_cons 47 path).trans (List.suffix_cons 46 _))
  | case3 => exact List.nil_suffix
  | case4 path _ _ _ => exact List.suffix_rfl

/-- A registered prefix with its descriptor. -/
structure Preopen where
  pathPrefix : Str
  fd : BitVec 32
  nul_not_mem : NUL ∉ pathPrefix
  stripped : stripPrefixes pathPrefix = pathPrefix
  fd_ne : fd ≠ -1

/-- A prefix is registered without what leads it to the root. -/
def Preopen.register (fd : BitVec 32) (relPrefix : Str) (hfd : fd ≠ -1)
    (hnul : NUL ∉ relPrefix) : Preopen where
  pathPrefix := stripPrefixes relPrefix
  fd := fd
  nul_not_mem := fun hmem => hnul ((stripPrefixes_suffix relPrefix).subset hmem)
  stripped := stripPrefixes_idem relPrefix
  fd_ne := hfd

/-- `path[i] == '/'` -/
def slashAt (path : Str) (i : Nat) : Bool := path[i]? == some SLASH

/-- `path[i] == '\0'` -/
def endsAt (path : Str) (i : Nat) : Bool := path[i]? == none

/-- `memcmp` finds a difference at the end of `path` at the latest, since there
is no terminator in a prefix. -/
def prefixMatches (pre path : Str) : Bool :=
  if !slashAt path 0 && pre.length == 0 then true
  else if !pre.isPrefixOf path then false
  else
    let i := (pre.rdropWhile (· == SLASH)).length
    slashAt path i || endsAt path i

/-- `while (path[i] == '/') ++i` -/
def skipSlashes (path : Str) (i : Nat) : Nat :=
  i + ((path.drop i).takeWhile (· == SLASH)).length

/-- The best match so far; `fd` is -1 before the first. -/
structure Best where
  fd : BitVec 32 := -1
  matchLen : Nat := 0
  absPrefix : Str := []
deriving Repr, DecidableEq

/-- How much of `path` a prefix of length `len` takes. -/
def matchLength (path searchPath : Str) (len : Nat) : Nat :=
  if len ≠ 0 then skipSlashes path (len + (path.length - searchPath.length)) else 0

/-- The body of the search loop. -/
def consider (path searchPath : Str) (pre : Preopen) (best : Best) : Best :=
  let len := pre.pathPrefix.length
  if (best.fd == -1 || best.matchLen < len) && prefixMatches pre.pathPrefix searchPath then
    { fd := pre.fd, matchLen := matchLength path searchPath len, absPrefix := pre.pathPrefix }
  else best

/-- The loop goes from the last entry to the first. -/
def search (preopens : List Preopen) (path : Str) : Best :=
  preopens.foldr (consider path (path.dropWhile (· == SLASH))) {}

inductive Errno where
  | enoent
  | enomem
  | erange
deriving Repr, DecidableEq

/-- What a lookup gives: the descriptor, its prefix, and the relative path. -/
structure Found where
  fd : BitVec 32
  absPrefix : Str
  relativePath : Str
deriving Repr, DecidableEq

/-- `__wasilibc_find_abspath`. -/
def findAbspath (preopens : List Preopen) (path : Str) : Except Errno Found :=
  let best := search preopens path
  if best.fd = -1 then .error .enoent
  else
    let computed := path.drop best.matchLen
    .ok ⟨best.fd, best.absPrefix, if computed = [] then [DOT] else computed⟩

/-! What a prefix matches -/

/-- `pre` ends between two components of `path`. -/
def WholePrefix (pre path : Str) : Prop := ∃ rest, path = pre ++ rest ∧ Boundary SLASH pre rest

/-- The byte that decides is in `pre` if `pre` ends in slashes. -/
theorem boundary_iff {pre rest : Str} (hpre : pre ≠ []) :
    (slashAt (pre ++ rest) (pre.rdropWhile (· == SLASH)).length ||
      endsAt (pre ++ rest) (pre.rdropWhile (· == SLASH)).length) = true ↔
    Boundary SLASH pre rest := by
  have hparts := List.rdropWhile_append_rtakeWhile (p := (· == SLASH)) (l := pre)
  have hlast : pre.getLast? = some SLASH ↔ pre.rtakeWhile (· == SLASH) ≠ [] := by
    rw [List.getLast?_eq_some_getLast hpre, ne_eq, List.rtakeWhile_eq_nil_iff]
    simp [hpre]
  cases htail : pre.rtakeWhile (· == SLASH) with
  | nil =>
      -- no slash at the end: the byte is the first of `rest`
      rw [htail, List.append_nil] at hparts
      simp only [hparts, slashAt, endsAt, Boundary, hpre, hlast, htail, false_or]
      cases rest with
      | nil => simp
      | cons c rest => simp
  | cons c slashes =>
      have hc : c = SLASH := by
        have hmem : c ∈ pre.rtakeWhile (· == SLASH) := by simp [htail]
        simpa using List.mem_rtakeWhile_imp hmem
      have hbyte : (pre ++ rest)[(pre.rdropWhile (· == SLASH)).length]? = some SLASH := by
        rw [htail, hc] at hparts
        generalize pre.rdropWhile (· == SLASH) = init at hparts ⊢
        subst hparts
        simp
      simp [slashAt, hbyte, Boundary, hlast, htail]

theorem prefixMatches_iff {pre path : Str} (hpath : path.head? ≠ some SLASH) :
    prefixMatches pre path = true ↔ WholePrefix pre path := by
  have hfirst : slashAt path 0 = false := by
    cases path with
    | nil => rfl
    | cons c path => simpa [slashAt] using hpath
  unfold prefixMatches
  by_cases hpre : pre = []
  · subst hpre
    simp [hfirst, WholePrefix, Boundary]
  · have hlength : (pre.length == 0) = false := by simpa using hpre
    simp only [hfirst, hlength, Bool.and_false, Bool.false_eq_true, ↓reduceIte,
      Bool.not_eq_true', Bool.not_false]
    by_cases hmem : pre <+: path
    · obtain ⟨rest, rfl⟩ := hmem
      have hstarts : pre.isPrefixOf (pre ++ rest) = true := by simp
      rw [hstarts]
      simp only [Bool.true_eq_false, ↓reduceIte]
      rw [boundary_iff hpre]
      constructor
      · exact fun hboundary => ⟨rest, rfl, hboundary⟩
      · rintro ⟨rest', heq, hboundary⟩
        rwa [List.append_cancel_left heq]
    · have hstarts : pre.isPrefixOf path = false := by
        rw [Bool.eq_false_iff, ne_eq, List.isPrefixOf_iff_prefix]
        exact hmem
      simp only [hstarts, ↓reduceIte, Bool.false_eq_true, false_iff]
      rintro ⟨rest, rfl, _⟩
      exact hmem (List.prefix_append pre rest)

end Preopens

end WasixLibc
