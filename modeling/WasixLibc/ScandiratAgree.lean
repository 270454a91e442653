/-
Whether a directory read at once is the directory read as a stream.

The two parse the same bytes in the same way, but look files up differently:
the stream does not ask for the parent directory, and skips what is gone.
-/
import Mathlib.Data.List.Perm.Basic
import WasixLibc.DirStream
import WasixLibc.ScandiratRun

namespace WasixLibc

namespace Dirent

open Wasm32 (Placed SIZE_LIMIT)

/-- Calls to `readdir` return these objects, and then the end. -/
def Yields (env : RawEnv) : List DirentObject → Dir → Prop
  | [], dirp => ∃ dirp',
      Round.Returns (Wasm32.round env) dirp (.returned (.ok none), dirp')
  | object :: objects, dirp => ∃ dirp',
      Round.Returns (Wasm32.round env) dirp (.returned (.ok (some object)), dirp') ∧
        Yields env objects dirp'

/-- The two agree if nothing fails but lookups, and no exit with -1 leaves
anything open or allocated, whatever fails. -/
structure AgreesWithReaddir (listing : Listing)
    (stat : Name → Except Errno (BitVec 64 × BitVec 32)) : Prop where
  collects : ∀ compar : Sorter, ∃ bound names held dirp objects,
    scandirat (served listing stat) (.ok ()) none compar bound =
      some (.returned (.ok names) held) ∧
    Wasm32.fdopendir (listing.raw.served stat) = .ok dirp ∧
    Yields (listing.raw.served stat) objects dirp ∧ names.Perm objects
  cleans : ∀ alloc hostError opened compar bound e held,
    scandirat ⟨listing, stat, alloc, hostError⟩ opened none compar bound =
      some (.returned (.error e) held) → held = 0

/-- Every file whose inode number is unknown can be looked up, and the parent
directory has the inode number 0 and the type it is listed with. -/
def LookUpsAgree (listing : Listing) (stat : Name → Except Errno (BitVec 64 × BitVec 32)) : Prop :=
  ∀ e ∈ listing.entries, e.dIno = 0 → ∃ stIno stMode, stat e.name = .ok (stIno, stMode) ∧
    (e.name = [DOT, DOT] → stIno = 0 ∧ iftodt (stMode &&& S_IFMT) = e.dType)

/-- There are a buffer for each entry and an array for all of them. -/
structure Listing.Fits (listing : Listing) : Prop where
  small : listing.Small
  count : listing.entries.length ≤ ARRAY_LIMIT

/-- What `readdir` makes of an entry. -/
def streamed (stat : Name → Except Errno (BitVec 64 × BitVec 32)) (e : Entry) :
    Except Errno DirentObject :=
  (Wasm32.lookUp stat e.header e.name).map fun (dIno, dType) => ⟨dIno, dType, e.name⟩

/-! The stream -/

theorem Yields.unique {env : RawEnv} {objects objects' : List DirentObject} {dirp : Dir}
    (h : Yields env objects dirp) (h' : Yields env objects' dirp) : objects = objects' := by
  induction objects generalizing objects' dirp with
  | nil =>
      obtain ⟨last, hrun⟩ := h
      cases objects' with
      | nil => rfl
      | cons object' objects' =>
          obtain ⟨next, hrun', _⟩ := h'
          have hsame := hrun.unique hrun'
          cases hsame
  | cons object objects ih =>
      obtain ⟨next, hrun, hnext⟩ := h
      cases objects' with
      | nil =>
          obtain ⟨last, hrun'⟩ := h'
          have hsame := hrun.unique hrun'
          cases hsame
      | cons object' objects' =>
          obtain ⟨next', hrun', hnext'⟩ := h'
          have hsame := hrun.unique hrun'
          cases hsame
          rw [ih hnext hnext']

section Agree

variable {listing : Listing} {stat : Name → Except Errno (BitVec 64 × BitVec 32)}

theorem answer_of_streamed {e : Entry} {object : DirentObject}
    (h : streamed stat e = .ok object) : Wasm32.answer stat e.raw = some (.ok object) := by
  have hlisted : ¬ (e.raw.header.dNamlen = 0 ∨ NUL ∈ e.raw.name) :=
    not_or.mpr ⟨e.dNamlen_ne_zero, e.nul_not_mem⟩
  unfold streamed at h
  cases hlook : Wasm32.lookUp stat e.header e.name with
  | error err =>
      rw [hlook] at h
      cases h
  | ok found =>
      have hlook' : Wasm32.lookUp stat e.raw.header e.raw.name = .ok found := hlook
      rw [hlook] at h
      unfold Wasm32.answer
      rw [if_neg hlisted, hlook', ← Except.ok.inj h]
      rfl

/-- A stream with no lookup that fails gives what is left of the listing. -/
theorem Yields.of_placed {dirp : Dir} {rest : List Entry} (hplaced : Placed listing.raw stat dirp)
    (hafter : listing.after dirp.cookie = rest) (hsmall : listing.Small)
    {objects : List DirentObject} (hstreamed : rest.map (streamed stat) = objects.map .ok) :
    Yields (listing.raw.served stat) objects dirp := by
  induction rest generalizing dirp objects with
  | nil =>
      obtain rfl : objects = [] := by simpa using hstreamed.symm
      obtain ⟨result, dirp', hreturns⟩ := hplaced.ends_nil hafter
      obtain ⟨rfl, -⟩ := hplaced.returns_nil hafter hreturns
      exact ⟨dirp', hreturns⟩
  | cons e rest ih =>
      cases objects with
      | nil => cases hstreamed
      | cons object objects =>
          rw [List.map_cons, List.map_cons, List.cons.injEq] at hstreamed
          obtain ⟨hobject, hrest⟩ := hstreamed
          have hanswer := answer_of_streamed hobject
          obtain ⟨result, dirp', hreturns⟩ :=
            (hplaced.ends_cons_iff hafter (by simp [hanswer])).mpr
              (Listing.after_small hsmall hafter)
          obtain ⟨rfl, hplaced', hafter'⟩ := hplaced.returns_cons hafter hanswer hreturns
          exact ⟨dirp', hreturns, ih hplaced' hafter' hrest⟩

/-- The stream gives the whole of the listing. -/
theorem exists_yields (hsmall : listing.Small) {objects : List DirentObject}
    (hstreamed : listing.entries.map (streamed stat) = objects.map .ok) :
    ∃ dirp, Wasm32.fdopendir (listing.raw.served stat) = .ok dirp ∧
      Yields (listing.raw.served stat) objects dirp := by
  obtain ⟨dirp, hopen, -⟩ := Wasm32.fdopendir_served listing.raw stat
  obtain ⟨hplaced, hafter⟩ := Wasm32.placed_of_fdopendir hopen
  exact ⟨dirp, hopen, .of_placed hplaced hafter hsmall hstreamed⟩

/-- The two look up the same, but for the parent directory. -/
theorem scanned_eq_streamed {e : Entry} (h : e.dIno = 0 → e.name ≠ [DOT, DOT]) :
    scanned stat e = streamed stat e := by
  have hlook : scanLookUp stat e.header e.name = Wasm32.lookUp stat e.header e.name := by
    by_cases hino : e.header.dIno = 0
    · exact (if_pos hino).trans (if_pos ⟨hino, h hino⟩).symm
    · exact (if_neg hino).trans (if_neg fun hboth => hino hboth.1).symm
  unfold scanned streamed
  rw [hlook]

variable (stat) in
theorem scanned_of_unknown {e : Entry} (hino : e.dIno = 0) :
    scanned stat e = (stat e.name).map fun (stIno, stMode) =>
      ⟨stIno, iftodt (stMode &&& S_IFMT), e.name⟩ := by
  have hheader : e.header.dIno = 0 := hino
  unfold scanned scanLookUp
  rw [if_pos hheader]
  cases stat e.name <;> rfl

theorem streamed_of_parent {e : Entry} (hname : e.name = [DOT, DOT]) :
    streamed stat e = .ok ⟨e.dIno, e.dType, e.name⟩ := by
  unfold streamed Wasm32.lookUp
  rw [if_neg (fun hboth => hboth.2 hname)]
  rfl

theorem exists_map_ok {f : Entry → Except Errno DirentObject} {entries : List Entry}
    (h : ∀ e ∈ entries, ∃ object, f e = .ok object) :
    ∃ objects : List DirentObject, entries.map f = objects.map .ok := by
  induction entries with
  | nil => exact ⟨[], rfl⟩
  | cons e entries ih =>
      obtain ⟨object, hobject⟩ := h e List.mem_cons_self
      obtain ⟨objects, hobjects⟩ := ih fun x hx => h x (List.mem_cons_of_mem _ hx)
      exact ⟨object :: objects, by rw [List.map_cons, List.map_cons, hobject, hobjects]⟩

theorem served_not_fails : ¬ (served listing stat).Fails := by
  rintro (⟨n, halloc⟩ | ⟨n, e, herror⟩)
  · cases halloc
  · cases herror

/-- How a call ends, for any environment. -/
theorem scandirat_ends (env : Env) (compar : Sorter) (halloc : env.alloc 0 = true) :
    ∃ bound ended, scandirat env (.ok ()) none compar bound = some ended ∧
      ScanOutcome env Scan.start env.listing.entries ended := by
  have hstart : env.listing.after Scan.start.cookie = env.listing.entries :=
    env.listing.after_start
  have hstands := Scan.start_stands env.listing
  rw [← hstart] at hstands
  obtain ⟨bound, ended, hrun, houtcome⟩ := scanLoop_ends env compar hstands
  refine ⟨bound, ended, ?_, hstart ▸ houtcome⟩
  unfold scandirat
  rw [halloc]
  exact hrun

theorem scandirat_outcome {env : Env} {compar : Sorter} {bound : Nat} {ended : ScanEnd}
    (halloc : env.alloc 0 = true)
    (hrun : scandirat env (.ok ()) none compar bound = some ended) :
    ScanOutcome env Scan.start env.listing.entries ended := by
  obtain ⟨bound', ended', hrun', houtcome⟩ := scandirat_ends env compar halloc
  unfold scandirat at hrun hrun'
  rw [halloc] at hrun hrun'
  have hreturns : Round.Returns (scanRound env selTrue compar) Scan.start ended := ⟨bound, hrun⟩
  rwa [hreturns.unique ⟨bound', hrun'⟩] at houtcome

theorem Listing.Fits.not_tooLarge (h : listing.Fits) :
    ¬ Scan.start.TooLarge listing.entries := by
  rintro (⟨e, he, hlarge⟩ | hmany)
  · exact absurd hlarge (Nat.not_lt.mpr (h.small e he))
  · have hcount := h.count
    have hnone : Scan.start.dirents.length = 0 := rfl
    omega

/-! The condition is enough -/

theorem scanned_of_lookUpsAgree (h : LookUpsAgree listing stat) {e : Entry}
    (he : e ∈ listing.entries) :
    ∃ object, scanned stat e = .ok object ∧
      streamed stat e = .ok object := by
  by_cases hino : e.dIno = 0
  · obtain ⟨stIno, stMode, hstat, hparent⟩ := h e he hino
    have hscanned := scanned_of_unknown stat hino
    rw [hstat] at hscanned
    refine ⟨_, hscanned, ?_⟩
    by_cases hname : e.name = [DOT, DOT]
    · obtain ⟨rfl, htype⟩ := hparent hname
      rw [streamed_of_parent hname, hino, ← htype]
    · rw [← scanned_eq_streamed fun _ => hname]
      exact hscanned
  · have hsame : scanned stat e = streamed stat e :=
      scanned_eq_streamed fun hzero => absurd hzero hino
    have hheader : e.header.dIno ≠ 0 := hino
    have hscanned : scanned stat e = .ok ⟨e.dIno, e.dType, e.name⟩ := by
      unfold scanned scanLookUp
      rw [if_neg hheader]
      rfl
    exact ⟨_, hscanned, hsame.symm.trans hscanned⟩

/-- Nothing but a lookup ends a call with something left behind. -/
theorem cleans_of_lookUpsAgree (h : LookUpsAgree listing stat) (alloc : Nat → Bool)
    (hostError : Nat → Option Errno) (opened : Except Errno Unit) (compar : Sorter) (bound : Nat)
    (e : Errno) (held : Multiset Block)
    (hrun : scandirat ⟨listing, stat, alloc, hostError⟩ opened none compar bound =
      some (.returned (.error e) held)) : held = 0 := by
  cases opened with
  | error err =>
      cases hrun
      rfl
  | ok opened =>
      cases halloc : alloc 0 with
      | false =>
          unfold scandirat at hrun
          simp only [halloc, Bool.false_eq_true, ↓reduceIte, Option.some.injEq,
            ScanEnd.returned.injEq] at hrun
          exact hrun.2.symm
      | true =>
          cases scandirat_outcome halloc hrun with
          | failed err hfails => rfl
          | left he hscanned _ =>
              obtain ⟨object, hobject, _⟩ := scanned_of_lookUpsAgree h he
              dsimp only at hscanned
              rw [hobject] at hscanned
              cases hscanned

theorem agrees_of_lookUpsAgree (h : LookUpsAgree listing stat) (hfits : listing.Fits) :
    AgreesWithReaddir listing stat := by
  refine ⟨fun compar => ?_, cleans_of_lookUpsAgree h⟩
  obtain ⟨bound, ended, hrun, houtcome⟩ := scandirat_ends (served listing stat) compar rfl
  cases houtcome with
  | @collected names objects held _ _ hscanned hperm =>
      have hstreamed : listing.entries.map (streamed stat) = objects.map .ok := by
        refine Eq.trans (List.map_congr_left fun e he => ?_) hscanned
        obtain ⟨object, hobject, hobject'⟩ := scanned_of_lookUpsAgree h he
        exact hobject'.trans hobject.symm
      obtain ⟨dirp, hopen, hyields⟩ := exists_yields hfits.small hstreamed
      exact ⟨bound, names, held, dirp, objects, hrun, hopen, hyields, hperm⟩
  | failed err hfails => exact absurd hfails served_not_fails
  | left he hscanned _ =>
      obtain ⟨object, hobject, _⟩ := scanned_of_lookUpsAgree h he
      exact absurd (hobject.symm.trans hscanned) (by simp)
  | endless hlarge => exact absurd hlarge hfits.not_tooLarge
  | overrun hlarge => exact absurd hlarge hfits.not_tooLarge

/-! The condition is needed -/

/-- The entries that the two may look up differently. -/
def isParent (e : Entry) : Bool := e.dIno == 0 && e.name == [DOT, DOT]

/-- Where the two agree as multisets, they agree about the parent. -/
theorem scanned_eq_streamed_of_perm {entries : List Entry}
    (hperm : (entries.map (scanned stat)).Perm
      (entries.map (streamed stat))) {e : Entry} (he : e ∈ entries)
    (hparent : isParent e = true) :
    scanned stat e = streamed stat e := by
  have hsplit := List.filter_append_perm isParent entries
  have hothers : (entries.filter fun x => !isParent x).map (scanned stat) =
      (entries.filter fun x => !isParent x).map (streamed stat) := by
    refine List.map_congr_left fun x hx => ?_
    have hnot := (List.mem_filter.mp hx).2
    simp only [isParent, Bool.not_and, Bool.or_eq_true, Bool.not_eq_true', beq_eq_false_iff_ne]
      at hnot
    exact scanned_eq_streamed fun hino => hnot.resolve_left fun hne => hne hino
  have hparents : ((entries.filter isParent).map (scanned stat)).Perm
      ((entries.filter isParent).map (streamed stat)) := by
    have hparts := ((hsplit.map _).trans hperm).trans (hsplit.map _).symm
    rw [List.map_append, List.map_append, hothers] at hparts
    exact (List.perm_append_right_iff _).mp hparts
  -- all of them have one name, so what is scanned is the same for all
  have hmem : streamed stat e ∈
      (entries.filter isParent).map (scanned stat) :=
    hparents.mem_iff.mpr (List.mem_map_of_mem (List.mem_filter.mpr ⟨he, hparent⟩))
  obtain ⟨x, hx, hsame⟩ := List.mem_map.mp hmem
  have hxParent := (List.mem_filter.mp hx).2
  simp only [isParent, Bool.and_eq_true, beq_iff_eq] at hparent hxParent
  rw [← hsame, scanned_of_unknown stat hparent.1, scanned_of_unknown stat hxParent.1, hparent.2,
    hxParent.2]

/-- A call that collects has found room for everything, and everything that it
looked up. -/
theorem AgreesWithReaddir.collected (h : AgreesWithReaddir listing stat) :
    listing.Fits ∧ ∃ objects : List DirentObject,
      listing.entries.map (scanned stat) = objects.map .ok ∧
      ∃ dirp seen, Wasm32.fdopendir (listing.raw.served stat) = .ok dirp ∧
        Yields (listing.raw.served stat) seen dirp ∧ objects.Perm seen := by
  obtain ⟨bound, names, held, dirp, seen, hrun, hopen, hyields, hnames⟩ :=
    h.collects ⟨id, List.Perm.refl⟩
  cases scandirat_outcome rfl hrun with
  | collected objects hsmall hcount hscanned hperm =>
      have hlengths := congrArg List.length hscanned
      rw [List.length_map, List.length_map] at hlengths
      have hcollected : names.Perm objects := hperm
      refine ⟨⟨hsmall, ?_⟩, objects, hscanned, dirp, seen, hopen, hyields,
        hcollected.symm.trans hnames⟩
      have hentries : listing.entries.length = objects.length := hlengths
      rw [hentries, ← hcollected.length_eq]
      exact hcount

theorem lookUpsAgree_of_agrees (h : AgreesWithReaddir listing stat) :
    LookUpsAgree listing stat := by
  obtain ⟨hfits, objects, hscanned, dirp, yielded, hopen, hyields, hperm⟩ := h.collected
  have hfound : ∀ e ∈ listing.entries, ∃ object,
      scanned stat e = .ok object := by
    intro e he
    have hmem : scanned stat e ∈ objects.map Except.ok := by
      rw [← hscanned]
      exact List.mem_map_of_mem he
    obtain ⟨object, _, hobject⟩ := List.mem_map.mp hmem
    exact ⟨object, hobject.symm⟩
  obtain ⟨seen, hstreamed⟩ : ∃ seen : List DirentObject,
      listing.entries.map (streamed stat) = seen.map .ok := by
    refine exists_map_ok fun e he => ?_
    by_cases hname : e.name = [DOT, DOT]
    · exact ⟨_, streamed_of_parent hname⟩
    · obtain ⟨object, hobject⟩ := hfound e he
      exact ⟨object, (scanned_eq_streamed fun _ => hname).symm.trans hobject⟩
  obtain ⟨dirp', hopen', hyields'⟩ := exists_yields hfits.small hstreamed
  rw [hopen] at hopen'
  obtain rfl := Except.ok.inj hopen'
  rw [hyields.unique hyields'] at hperm
  intro e he hino
  obtain ⟨object, hobject⟩ := hfound e he
  have hlook := scanned_of_unknown stat hino
  rw [hobject] at hlook
  cases hstat : stat e.name with
  | error err =>
      rw [hstat] at hlook
      cases hlook
  | ok found =>
      obtain ⟨stIno, stMode⟩ := found
      refine ⟨stIno, stMode, rfl, fun hname => ?_⟩
      have hsame : scanned stat e = streamed stat e := by
        refine scanned_eq_streamed_of_perm ?_ he (by simp [isParent, hino, hname])
        rw [hscanned, hstreamed]
        exact hperm.map _
      rw [hobject, hlook, hstat, streamed_of_parent hname] at hsame
      have hfields := Except.ok.inj hsame
      simp only [DirentObject.mk.injEq, and_true] at hfields
      exact ⟨hfields.1.trans hino, hfields.2⟩

/-- The two agree, and every exit with -1 cleans up, exactly if the lookups
do not tell them apart and no size wraps round. -/
theorem agreesWithReaddir_iff (listing : Listing)
    (stat : Name → Except Errno (BitVec 64 × BitVec 32)) :
    AgreesWithReaddir listing stat ↔ LookUpsAgree listing stat ∧ listing.Fits :=
  ⟨fun h => ⟨lookUpsAgree_of_agrees h, h.collected.1⟩,
    fun h => agrees_of_lookUpsAgree h.1 h.2⟩

end Agree

namespace ScandiratWitness

/-- A file `d` with an unknown inode number. -/
def listing : Listing where
  entries := [⟨3, 0, 4, [100], 0, by decide, by decide, by decide⟩]
  next_nodup := by decide
  next_ne_start := by decide

/-- It is gone when it is looked up. -/
def stat (_ : Name) : Except Errno (BitVec 64 × BitVec 32) := .error .enoent

theorem gone_file_leaks : ¬ ∀ (listing : Listing)
    (stat : Name → Except Errno (BitVec 64 × BitVec 32)), AgreesWithReaddir listing stat := by
  intro h
  obtain ⟨stIno, stMode, hstat, _⟩ :=
    lookUpsAgree_of_agrees (h listing stat) _ List.mem_cons_self rfl
  cases hstat

end ScandiratWitness

end Dirent

end WasixLibc
