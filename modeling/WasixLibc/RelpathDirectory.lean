/-
What an absolute path owes to the current directory.

The directory is fetched before the path is looked at, so a call for an
absolute path fails where it cannot be fetched, and depends on it in no other
way.
-/
import WasixLibc.RelpathSound

namespace WasixLibc

namespace Preopens

/-- What the caller sees of a call: its answer and the string in its buffer. -/
def outcome (env : Env) (preopens : List Preopen) (path : CString) (canRealloc : Bool)
    (st : State) (rel : RelativeBuf) : Except Fault (Answer × Str) :=
  (findRelpathAlloc env preopens path canRealloc st rel).map
    fun (answer, _, rel') => (answer, readString NUL rel'.data)

/-- The current directory is known, or the host tells it. -/
def Ready (env : Env) (st : State) : Prop := st.isSynced = true ∨ env.getcwd.isSome = true

instance (env : Env) (st : State) : Decidable (Ready env st) :=
  inferInstanceAs (Decidable (_ ∨ _))

/-- The outcome of a lookup, with no current directory in it. -/
def lookupOutcome (preopens : List Preopen) (path : Str) (canRealloc : Bool)
    (rel : RelativeBuf) : Except Fault (Answer × Str) :=
  match findAbspath preopens path with
  | .error e => .ok (.error e, readString NUL rel.data)
  | .ok found =>
      if rel.len < found.relativePath.length + 1 then
        if canRealloc then .ok (.ok (found.fd, found.absPrefix), found.relativePath)
        else .ok (.error .erange, readString NUL rel.data)
      else
        (strcpy rel.data 0 found.relativePath).map
          fun data => (.ok (found.fd, found.absPrefix), readString NUL data)

theorem findAbspath_error {preopens : List Preopen} {path : Str} {e : Errno}
    (h : findAbspath preopens path = .error e) : e = .enoent := by
  unfold findAbspath at h
  dsimp only at h
  split at h
  · exact (Except.error.inj h).symm
  · cases h

/-- A lookup does not run out of memory. -/
theorem lookupOutcome_ne_enomem (preopens : List Preopen) (path : Str) (canRealloc : Bool)
    (rel : RelativeBuf) (s : Str) :
    lookupOutcome preopens path canRealloc rel ≠ .ok (.error .enomem, s) := by
  unfold lookupOutcome
  cases hfound : findAbspath preopens path with
  | error e =>
      obtain rfl := findAbspath_error hfound
      simp
  | ok found =>
      dsimp only
      split
      · cases canRealloc <;> simp
      · cases strcpy rel.data 0 found.relativePath <;> simp [Except.map]

/-- Fresh memory shows in no answer. -/
theorem copyRelative_outcome {env : Env} {found : Found} (canRealloc : Bool) (rel : RelativeBuf)
    (hrealloc : env.reallocRel = true) (hnul : NUL ∉ found.relativePath) :
    (copyRelative env found canRealloc rel).map
        (fun (answer, rel') => (answer, readString NUL rel'.data)) =
      if rel.len < found.relativePath.length + 1 then
        if canRealloc then .ok (.ok (found.fd, found.absPrefix), found.relativePath)
        else .ok (.error .erange, readString NUL rel.data)
      else
        (strcpy rel.data 0 found.relativePath).map
          fun data => (.ok (found.fd, found.absPrefix), readString NUL data) := by
  unfold copyRelative
  dsimp only
  split
  · cases canRealloc with
    | false => rfl
    | true =>
        obtain ⟨data, hcopy, hholds, _⟩ :=
          strcpy_zero (realloc rel.data (found.relativePath.length + 1) env.junk)
            found.relativePath (Nat.le_of_eq (length_realloc _ _ _).symm)
        simp only [hrealloc, Bool.not_true, Bool.false_eq_true, ↓reduceIte, hcopy, bind,
          Except.bind, pure, Except.pure, Except.map, readString_of_holds hholds hnul]
  · cases strcpy rel.data 0 found.relativePath <;> rfl

section Absolute

variable {path : CString} (habs : slashAt path.bytes 0 = true) {env : Env} {st : State}

include habs

theorem makeAbsolute_of_ready (hready : Ready env st) :
    ∃ st', makeAbsolute env path.bytes st = .ok (some path.bytes, st') := by
  unfold makeAbsolute
  cases hsync : syncCwd env st with
  | none =>
      unfold syncCwd at hsync
      split at hsync
      · cases hsync
      · rename_i hsynced
        rcases hready with hyes | hsome
        · exact absurd hyes hsynced
        · rw [Option.map_eq_none_iff.mp hsync] at hsome
          cases hsome
  | some synced =>
      simp only [habs, ↓reduceIte]
      exact ⟨synced, rfl⟩

theorem outcome_of_ready {preopens : List Preopen} {canRealloc : Bool} {rel : RelativeBuf}
    (hrealloc : env.reallocRel = true) (hready : Ready env st) :
    outcome env preopens path canRealloc st rel =
      lookupOutcome preopens path.bytes canRealloc rel := by
  obtain ⟨st', hst'⟩ := makeAbsolute_of_ready habs hready
  unfold outcome findRelpathAlloc lookupOutcome
  simp only [hst', bind, Except.bind]
  cases hfound : findAbspath preopens path.bytes with
  | error e => rfl
  | ok found =>
      have hcopy := copyRelative_outcome canRealloc rel hrealloc
        (findAbspath_string hfound path.nul_not_mem).2
      dsimp only
      rw [← hcopy]
      cases copyRelative env found canRealloc rel <;> rfl

omit habs in
theorem outcome_of_not_ready {preopens : List Preopen} {canRealloc : Bool} {rel : RelativeBuf}
    (hready : ¬ Ready env st) :
    outcome env preopens path canRealloc st rel =
      .ok (.error .enomem, readString NUL rel.data) := by
  rw [Ready, not_or, Bool.not_eq_true, Bool.not_eq_true, Option.isSome_eq_false_iff,
    Option.isNone_iff_eq_none] at hready
  have hsync : syncCwd env st = none := by
    unfold syncCwd
    rw [hready.1, hready.2]
    rfl
  unfold outcome findRelpathAlloc makeAbsolute
  rw [hsync]
  rfl

end Absolute

/-- Two states agree about an absolute path exactly if the current directory
can be fetched in both or in neither. -/
theorem outcome_eq_iff (preopens : List Preopen) {path : CString}
    (habs : slashAt path.bytes 0 = true) (canRealloc : Bool) (rel : RelativeBuf)
    {env₁ env₂ : Env} {st₁ st₂ : State} (hrealloc₁ : env₁.reallocRel = true)
    (hrealloc₂ : env₂.reallocRel = true) :
    outcome env₁ preopens path canRealloc st₁ rel =
        outcome env₂ preopens path canRealloc st₂ rel ↔
      (Ready env₁ st₁ ↔ Ready env₂ st₂) := by
  have hlookup := lookupOutcome_ne_enomem preopens path.bytes canRealloc rel
  by_cases h₁ : Ready env₁ st₁
  · rw [outcome_of_ready habs hrealloc₁ h₁]
    by_cases h₂ : Ready env₂ st₂
    · rw [outcome_of_ready habs hrealloc₂ h₂]
      simp only [h₁, h₂]
    · rw [outcome_of_not_ready h₂]
      simp only [h₁, h₂, iff_false, hlookup, not_true_eq_false]
  · rw [outcome_of_not_ready h₁]
    by_cases h₂ : Ready env₂ st₂
    · rw [outcome_of_ready habs hrealloc₂ h₂]
      simp only [h₁, h₂, iff_true, (hlookup _).symm]
    · rw [outcome_of_not_ready h₂]
      simp only [h₁, h₂]

namespace DirectoryWitness

def preopens : List Preopen := [.register 7 [] (by decide) (by decide)]

/-- `/x` -/
def path : CString := ⟨[SLASH, 120], by decide⟩

/-- A host with a current directory that fits, and one with a longer one. -/
def short : Env := { getcwd := some ⟨[SLASH], by decide⟩ }
def long : Env := { getcwd := none }

/-- A state in which the directory is known already agrees with one in which
the host tells it. -/
theorem synced_agrees :
    outcome short preopens path true {} ⟨[], 0⟩ =
      outcome long preopens path true { isSynced := true } ⟨[], 0⟩ :=
  (outcome_eq_iff preopens rfl true ⟨[], 0⟩ rfl rfl).mpr (by decide)

theorem directory_matters : ¬ ∀ (preopens : List Preopen) (path : CString) (canRealloc : Bool)
    (rel : RelativeBuf) (env : Env) (getcwd₁ getcwd₂ : Option CString) (st : State)
    (cwd₁ cwd₂ : Option CString) (isSynced₁ isSynced₂ : Bool),
    slashAt path.bytes 0 = true → env.reallocRel = true →
    outcome { env with getcwd := getcwd₁ } preopens path canRealloc
        { st with cwd := cwd₁, isSynced := isSynced₁ } rel =
      outcome { env with getcwd := getcwd₂ } preopens path canRealloc
        { st with cwd := cwd₂, isSynced := isSynced₂ } rel := by
  intro h
  have hsame :=
    h preopens path true ⟨[], 0⟩ short short.getcwd none {} none none false false rfl rfl
  have hshort : outcome short preopens path true { cwd := none } ⟨[], 0⟩ =
      .ok (.ok (7, []), path.bytes) := rfl
  have hlong : outcome long preopens path true { cwd := none } ⟨[], 0⟩ =
      .ok (.error .enomem, []) := rfl
  have hdiffer := hshort.symm.trans (hsame.trans hlong)
  simp at hdiffer

end DirectoryWitness

end Preopens

end WasixLibc
