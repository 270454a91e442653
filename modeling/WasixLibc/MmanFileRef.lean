/-
Reference counts of the `file_ref`s.

`Ledger` relates the list of allocated references to a count for each
identity.  Releasing and retaining keep it for the changed count, and the unmap
loop changes the number of regions that point to a reference by just as much.
-/
import Mathlib.Data.List.Nodup
import WasixLibc.MmanWriteback

namespace WasixLibc

namespace Mman

open SpanList ListZipper

/-- The number of regions whose `fref` is `p`. -/
def refCount (p : Nat) (regs : List Region) : Nat :=
  regs.countP fun r => decide (r.fref = some p)

def HostCall.closes (p : Nat) : HostCall → Bool
  | .close ptr _ => decide (ptr = p)
  | _ => false

/-- The number of times the descriptor of `p` was closed. -/
def closeCount (p : Nat) (calls : List HostCall) : Nat := calls.countP (HostCall.closes p)

/-- The allocated references have the counts `count` gives them, their
descriptors are the open ones, and every other reference that was ever
allocated has had its descriptor closed once. -/
structure Ledger (count : Nat → Nat) (st : State) : Prop where
  nodup : (st.frefs.map FileRef.ptr).Nodup
  lt : ∀ f ∈ st.frefs, f.ptr < st.nextPtr
  refs : ∀ f ∈ st.frefs, f.refs = count f.ptr ∧ 0 < f.refs
  known : ∀ p, 0 < count p → p ∈ st.frefs.map FileRef.ptr
  fds : st.openFds.Perm (st.frefs.map FileRef.fd)
  closed : ∀ p, closeCount p st.calls =
    if p ∈ st.frefs.map FileRef.ptr then 0 else if p < st.nextPtr then 1 else 0
  clean : st.dangling = false

/-- The invariant between calls. -/
structure RefInv (st : State) : Prop where
  ledger : Ledger (fun p => refCount p st.regs) st
  onlyFiles : ∀ r ∈ st.regs, r.fref ≠ none → r.kind = .rFile

/-! Counting -/

theorem refCount_append (p : Nat) (l₁ l₂ : List Region) :
    refCount p (l₁ ++ l₂) = refCount p l₁ + refCount p l₂ := List.countP_append

theorem refCount_cons (p : Nat) (r : Region) (l : List Region) :
    refCount p (r :: l) = refCount p l + if r.fref = some p then 1 else 0 := by
  simp only [refCount, List.countP_cons, decide_eq_true_eq]

theorem refCount_nil (p : Nat) : refCount p [] = 0 := rfl

theorem refCount_pos {p : Nat} {r : Region} {regs : List Region} (hr : r ∈ regs)
    (hp : r.fref = some p) : 0 < refCount p regs :=
  List.countP_pos_iff.mpr ⟨r, hr, by simpa using hp⟩

theorem closeCount_append (p : Nat) (l₁ l₂ : List HostCall) :
    closeCount p (l₁ ++ l₂) = closeCount p l₁ + closeCount p l₂ := List.countP_append

theorem closeCount_plain {calls : List HostCall} (h : ∀ call ∈ calls, call.Plain)
    (p : Nat) : closeCount p calls = 0 := by
  refine List.countP_eq_zero.mpr fun call hcall => ?_
  have hplain := h call hcall
  cases call with
  | close ptr fd => exact hplain.elim
  | _ => simp [HostCall.closes]

/-! The ledger -/

/-- The ledger reads the references, the descriptors and the closes only. -/
theorem Ledger.congr {count count' : Nat → Nat} {st st' : State} (h : Ledger count st)
    (hcount : ∀ p, count' p = count p) (hfrefs : st'.frefs = st.frefs)
    (hnext : st'.nextPtr = st.nextPtr) (hfds : st'.openFds = st.openFds)
    (hclosed : ∀ p, closeCount p st'.calls = closeCount p st.calls)
    (hdangling : st'.dangling = st.dangling) : Ledger count' st' := by
  obtain rfl : count' = count := funext hcount
  refine ⟨?_, ?_, ?_, ?_, ?_, ?_, ?_⟩
  · rw [hfrefs]
    exact h.nodup
  · rw [hfrefs, hnext]
    exact h.lt
  · rw [hfrefs]
    exact h.refs
  · rw [hfrefs]
    exact h.known
  · rw [hfrefs, hfds]
    exact h.fds
  · intro p
    rw [hclosed, hfrefs, hnext]
    exact h.closed p
  · rw [hdangling]
    exact h.clean

/-- The reference behind a pointer some region holds. -/
theorem Ledger.find {count : Nat → Nat} {st : State} (h : Ledger count st) {p : Nat}
    (hp : 0 < count p) :
    ∃ f, st.frefs.find? (fun f => f.ptr == p) = some f ∧ f ∈ st.frefs ∧ f.ptr = p := by
  obtain ⟨f, hf, hptr⟩ := List.mem_map.mp (h.known p hp)
  cases hfind : st.frefs.find? fun f => f.ptr == p with
  | none =>
      have hno := List.find?_eq_none.mp hfind f hf
      simp [hptr] at hno
  | some g =>
      refine ⟨g, rfl, List.mem_of_find?_eq_some hfind, ?_⟩
      simpa using List.find?_some hfind

/-- Taking one reference out of a list without duplicates. -/
theorem perm_filter_of_nodup {l : List FileRef} (hnodup : (l.map FileRef.ptr).Nodup)
    {f : FileRef} (hf : f ∈ l) : l.Perm (f :: l.filter fun g => g.ptr != f.ptr) := by
  induction l with
  | nil => simp at hf
  | cons g l ih =>
      obtain ⟨hnot, hrest⟩ := List.nodup_cons.mp hnodup
      rcases List.mem_cons.mp hf with rfl | hf
      · have hall : l.filter (fun g => g.ptr != f.ptr) = l := by
          refine List.filter_eq_self.mpr fun g hg => ?_
          have hne : g.ptr ≠ f.ptr := fun heq => hnot (List.mem_map.mpr ⟨g, hg, heq⟩)
          simpa using hne
        rw [List.filter_cons_of_neg (by simp), hall]
      · have hne : g.ptr ≠ f.ptr := fun heq => hnot (List.mem_map.mpr ⟨f, hf, heq.symm⟩)
        rw [List.filter_cons_of_pos (by simpa using hne)]
        exact ((ih hrest hf).cons g).trans (List.Perm.swap _ _ _)

/-- A reference count of one goes down to zero with the reference. -/
theorem Ledger.drop {count count' : Nat → Nat} {st : State} (h : Ledger count st)
    {f : FileRef} (hf : f ∈ st.frefs) (hone : f.refs = 1)
    (hcount : ∀ q, count' q = if q = f.ptr then count q - 1 else count q) :
    Ledger count' { st with
      frefs := st.frefs.filter fun g => g.ptr != f.ptr
      openFds := st.openFds.erase f.fd
      calls := st.calls ++ [.close f.ptr f.fd] } := by
  have hzero : count' f.ptr = 0 := by
    rw [hcount, if_pos rfl, ← (h.refs f hf).1, hone]
  have hmem : ∀ q, q ∈ (st.frefs.filter fun g => g.ptr != f.ptr).map FileRef.ptr ↔
      q ∈ st.frefs.map FileRef.ptr ∧ q ≠ f.ptr := by
    intro q
    simp only [List.mem_map, List.mem_filter, bne_iff_ne]
    constructor
    · rintro ⟨g, ⟨hg, hne⟩, rfl⟩
      exact ⟨⟨g, hg, rfl⟩, hne⟩
    · rintro ⟨⟨g, hg, rfl⟩, hne⟩
      exact ⟨g, ⟨hg, hne⟩, rfl⟩
  refine ⟨?_, ?_, ?_, ?_, ?_, ?_, h.clean⟩
  · exact h.nodup.sublist (List.filter_sublist.map _)
  · intro g hg
    exact h.lt g (List.mem_of_mem_filter hg)
  · intro g hg
    obtain ⟨hg, hne⟩ := List.mem_filter.mp hg
    rw [hcount, if_neg (by simpa using hne)]
    exact h.refs g hg
  · intro q hq
    rw [hmem]
    have hne : q ≠ f.ptr := fun heq => by
      rw [heq, hzero] at hq
      exact absurd hq (Nat.lt_irrefl _)
    rw [hcount, if_neg hne] at hq
    exact ⟨h.known q hq, hne⟩
  · have hperm := (perm_filter_of_nodup h.nodup hf).map FileRef.fd
    simpa using ((h.fds.trans hperm).erase f.fd)
  · intro q
    rw [closeCount_append, h.closed q]
    have hclose : closeCount q [.close f.ptr f.fd] = if f.ptr = q then 1 else 0 := by
      simp [closeCount, HostCall.closes, List.countP_cons]
    rw [hclose]
    by_cases hq : q = f.ptr
    · subst hq
      have hin : f.ptr ∈ st.frefs.map FileRef.ptr := List.mem_map.mpr ⟨f, hf, rfl⟩
      simp [hmem, hin, h.lt f hf]
    · simp only [hmem, hq, Ne.symm hq, ne_eq, not_false_eq_true, and_true, ↓reduceIte,
        Nat.add_zero]

/-- Changing the count of one reference that stays allocated. -/
theorem Ledger.adjust {count count' : Nat → Nat} {st : State} (h : Ledger count st)
    {p : Nat} (hp : p ∈ st.frefs.map FileRef.ptr) (g : Nat → Nat)
    (hg : 0 < g (count p))
    (hcount : ∀ q, count' q = if q = p then g (count q) else count q) (b : Bool)
    (hb : b = false) :
    Ledger count' { st with
      frefs := st.frefs.map fun f => if f.ptr = p then { f with refs := g f.refs } else f
      dangling := b } := by
  have hptr : (st.frefs.map fun f => if f.ptr = p then { f with refs := g f.refs } else f).map
      FileRef.ptr = st.frefs.map FileRef.ptr := by
    rw [List.map_map]
    refine List.map_congr_left fun f _ => ?_
    by_cases hf : f.ptr = p <;> simp [hf]
  have hfd : (st.frefs.map fun f => if f.ptr = p then { f with refs := g f.refs } else f).map
      FileRef.fd = st.frefs.map FileRef.fd := by
    rw [List.map_map]
    refine List.map_congr_left fun f _ => ?_
    by_cases hf : f.ptr = p <;> simp [hf]
  refine ⟨hptr ▸ h.nodup, ?_, ?_, ?_, hfd ▸ h.fds, ?_, hb⟩
  · intro f' hf'
    obtain ⟨f, hf, rfl⟩ := List.mem_map.mp hf'
    have hlt := h.lt f hf
    by_cases hfp : f.ptr = p <;> simpa [hfp] using hlt
  · intro f' hf'
    obtain ⟨f, hf, rfl⟩ := List.mem_map.mp hf'
    obtain ⟨hrefs, hpos⟩ := h.refs f hf
    by_cases hfp : f.ptr = p
    · simp only [hfp, ↓reduceIte, hcount, hrefs, true_and]
      exact hg
    · simp only [hfp, ↓reduceIte, hcount, hrefs, true_and]
      exact hrefs ▸ hpos
  · intro q hq
    rw [hptr]
    by_cases hqp : q = p
    · rw [hqp]
      exact hp
    · rw [hcount, if_neg hqp] at hq
      exact h.known q hq
  · intro q
    rw [hptr]
    exact h.closed q

/-- `fref_release` through a region that holds `p`. -/
theorem frefRelease_ledger {count count' : Nat → Nat} {st : State}
    (h : Ledger count st) {p : Nat} (hp : 0 < count p)
    (hcount : ∀ q, count' q = if q = p then count q - 1 else count q) :
    Ledger count' (frefRelease (some p) st) := by
  obtain ⟨f, hfind, hf, rfl⟩ := h.find hp
  simp only [frefRelease, hfind]
  obtain ⟨hrefs, _⟩ := h.refs f hf
  by_cases hone : f.refs = 1
  · rw [if_pos hone]
    exact h.drop hf hone hcount
  · rw [if_neg hone]
    have hmem : f.ptr ∈ st.frefs.map FileRef.ptr := List.mem_map.mpr ⟨f, hf, rfl⟩
    have hleft : 0 < count f.ptr - 1 := by omega
    exact h.adjust hmem (· - 1) hleft hcount _ h.clean

/-- One more fragment holds `p`. -/
theorem frefRetain_ledger {count count' : Nat → Nat} {st : State}
    (h : Ledger count st) {p : Nat} (hp : 0 < count p)
    (hcount : ∀ q, count' q = if q = p then count q + 1 else count q) :
    Ledger count' (frefRetain (some p) st) := by
  have hmem := h.known p hp
  have hany : (st.frefs.any fun f => f.ptr == p) = true := by
    obtain ⟨f, hf, hptr⟩ := List.mem_map.mp hmem
    exact List.any_eq_true.mpr ⟨f, hf, by simpa using hptr⟩
  refine h.adjust hmem (· + 1) (Nat.succ_pos _) hcount _ ?_
  simp [h.clean, hany]

/-- A new reference held by one region. -/
theorem addRef_ledger {count count' : Nat → Nat} {st : State} (h : Ledger count st)
    (newfd : Nat)
    (hcount : ∀ q, count' q = if q = st.nextPtr then count q + 1 else count q) :
    Ledger count' (addRef newfd st) := by
  have hnew : st.nextPtr ∉ st.frefs.map FileRef.ptr := by
    intro hmem
    obtain ⟨f, hf, hptr⟩ := List.mem_map.mp hmem
    have hlt := h.lt f hf
    omega
  have hzero : count st.nextPtr = 0 := by
    by_contra hne
    exact hnew (h.known _ (Nat.pos_of_ne_zero hne))
  refine ⟨List.nodup_cons.mpr ⟨hnew, h.nodup⟩, ?_, ?_, ?_, h.fds.cons newfd, ?_, h.clean⟩
  · intro f hf
    rcases List.mem_cons.mp hf with rfl | hf
    · exact Nat.lt_succ_self _
    · exact Nat.lt_succ_of_lt (h.lt f hf)
  · intro f hf
    rcases List.mem_cons.mp hf with rfl | hf
    · refine ⟨?_, Nat.one_pos⟩
      rw [hcount, if_pos rfl, hzero]
    · have hne : f.ptr ≠ st.nextPtr := Nat.ne_of_lt (h.lt f hf)
      rw [hcount, if_neg hne]
      exact h.refs f hf
  · intro q hq
    by_cases hqn : q = st.nextPtr
    · rw [hqn]
      exact List.mem_cons_self
    · rw [hcount, if_neg hqn] at hq
      exact List.mem_cons_of_mem _ (h.known q hq)
  · intro q
    have hsplit : q ∈ (addRef newfd st).frefs.map FileRef.ptr ↔
        q = st.nextPtr ∨ q ∈ st.frefs.map FileRef.ptr := by
      simp only [addRef, List.map_cons, List.mem_cons]
    have hnext : (addRef newfd st).nextPtr = st.nextPtr + 1 := rfl
    have hcalls : (addRef newfd st).calls = st.calls := rfl
    rw [hcalls, h.closed q, hnext]
    by_cases hqn : q = st.nextPtr
    · rw [if_pos (hsplit.mpr (Or.inl hqn)), hqn, if_neg hnew, if_neg (Nat.lt_irrefl _)]
    · by_cases hmem : q ∈ st.frefs.map FileRef.ptr
      · rw [if_pos hmem, if_pos (hsplit.mpr (Or.inr hmem))]
      · have hmem' := fun hin => (hsplit.mp hin).elim hqn hmem
        have hiff : q < st.nextPtr ↔ q < st.nextPtr + 1 := by omega
        rw [if_neg hmem, if_neg hmem']
        simp only [hiff]

/-! The unmap loop -/

/-- Nothing but the table and the record of calls changed, and no close was
recorded. -/
theorem RefInv.congr {st st' : State} (h : RefInv st)
    (hcount : ∀ p, refCount p st'.regs = refCount p st.regs)
    (hfiles : ∀ r ∈ st'.regs, r.fref ≠ none → r.kind = .rFile)
    (hfrefs : st'.frefs = st.frefs) (hnext : st'.nextPtr = st.nextPtr)
    (hfds : st'.openFds = st.openFds)
    (hclosed : ∀ p, closeCount p st'.calls = closeCount p st.calls)
    (hdangling : st'.dangling = st.dangling) : RefInv st' :=
  ⟨h.ledger.congr hcount hfrefs hnext hfds hclosed hdangling, hfiles⟩

theorem RefInv.free_fref {st : State} (h : RefInv st) {r : Region} (hr : r ∈ st.regs)
    (hfree : r.kind ≠ .rFile) : r.fref = none := by
  by_contra hne
  exact hfree (h.onlyFiles r hr hne)

theorem PlainCalls.closeCount_eq {st st' : State} (h : PlainCalls st st') (p : Nat) :
    closeCount p st'.calls = closeCount p st.calls := by
  obtain ⟨more, hmore, hplain⟩ := h
  rw [hmore, closeCount_append, closeCount_plain hplain, Nat.add_zero]

theorem SameTable.refInv {st st' : State} (h : SameTable st st')
    (hcalls : PlainCalls st st') (hinv : RefInv st) : RefInv st' :=
  hinv.congr (fun p => by rw [h.regs_eq]) (by rw [h.regs_eq]; exact hinv.onlyFiles)
    h.frefs_eq h.nextPtr_eq h.openFds_eq hcalls.closeCount_eq h.dangling_eq

theorem WroteBack.closeCount {fd : Nat → Nat} {r : Region} {start stop : Nat}
    {calls : List HostCall} (h : WroteBack fd r start stop calls) (p : Nat) :
    closeCount p calls = 0 := by
  refine List.countP_eq_zero.mpr fun call hcall => ?_
  obtain ⟨ptr, _, hat⟩ := h.sound call hcall
  cases call with
  | close ptr fd => exact hat.elim
  | _ => simp [HostCall.closes]

/-- Writing back uses no freed reference. -/
theorem writeback_dangling {r : Region} {start stop : Nat} {ans ans' : PwriteAnswers}
    {st st' : State} {all : Bool} (hinv : RefInv st) (hr : r ∈ st.regs)
    (hfref : r.fref.isSome) (h : writeback r start stop ans st = .ok (all, ans', st')) :
    st'.dangling = st.dangling := by
  unfold writeback at h
  split at h
  · simp only [Except.ok.injEq, Prod.mk.injEq] at h
    rw [← h.2.2]
  · split at h
    · rename_i hnone
      rw [hnone] at hfref
      cases hfref
    · rename_i ptr hptr
      obtain ⟨f, _, hf, hfptr⟩ := hinv.ledger.find (refCount_pos hr hptr)
      have hany : (st.frefs.any fun f => f.ptr == ptr) = true :=
        List.any_eq_true.mpr ⟨f, hf, by simpa using hfptr⟩
      rw [(writebackLoop_trace h).1]
      simp [hany]

theorem writeback_refInv {r : Region} {start stop : Nat} {ans ans' : PwriteAnswers}
    {st st' : State} {all : Bool} (hinv : RefInv st) (hr : r ∈ st.regs)
    (hfref : r.fref.isSome)
    (h : writeback r (r.ostart start) (r.oend stop) ans st = .ok (all, ans', st')) :
    RefInv st' := by
  have hlogs := writeback_onlyLogs h
  obtain ⟨own, hown, hback⟩ := writeback_wroteBack hfref h
  have hfiles : ∀ r ∈ st'.regs, r.fref ≠ none → r.kind = .rFile := by
    rw [hlogs.regs_eq]
    exact hinv.onlyFiles
  refine hinv.congr (fun p => by rw [hlogs.regs_eq]) hfiles hlogs.frefs_eq hlogs.nextPtr_eq
    hlogs.openFds_eq (fun p => ?_) (writeback_dangling hinv hr hfref h)
  rw [hown, closeCount_append, hback.closeCount, Nat.add_zero]

theorem unmapWriteback_refInv {start stop : Nat} {r : Region} {ans ans' : PwriteAnswers}
    {st st' : State} (hinv : RefInv st) (hr : r ∈ st.regs)
    (h : unmapWriteback start stop r ans st = .ok (ans', st')) : RefInv st' := by
  unfold unmapWriteback at h
  split at h
  · rename_i hshared
    obtain ⟨⟨all, ans₁, st₁⟩, hwrite, hrest⟩ := bind_eq_ok h
    simp only [Except.ok.injEq, Prod.mk.injEq] at hrest
    rw [← hrest.2]
    exact writeback_refInv hinv hr (isSharedWritable_fref hshared) hwrite
  · simp only [Except.ok.injEq, Prod.mk.injEq] at h
    rw [← h.2]
    exact hinv

/-- The pieces of a cut hold the reference of the region or none. -/
theorem carve_fref {start stop : Nat} {r p : Region} (hp : p ∈ carve start stop r) :
    p.fref = none ∨ p.fref = r.fref ∧ p.kind = r.kind := by
  unfold carve at hp
  dsimp only at hp
  split at hp
  · obtain rfl := List.mem_singleton.mp hp
    exact Or.inr ⟨rfl, rfl⟩
  split at hp
  · obtain rfl := List.mem_singleton.mp hp
    exact Or.inl rfl
  split at hp
  · simp only [List.mem_cons, List.not_mem_nil, or_false] at hp
    rcases hp with rfl | rfl
    · exact Or.inl rfl
    · exact Or.inr ⟨rfl, rfl⟩
  split at hp
  · simp only [List.mem_cons, List.not_mem_nil, or_false] at hp
    rcases hp with rfl | rfl
    · exact Or.inr ⟨rfl, rfl⟩
    · exact Or.inl rfl
  · simp only [List.mem_cons, List.not_mem_nil, or_false] at hp
    rcases hp with rfl | rfl | rfl
    · exact Or.inr ⟨rfl, rfl⟩
    · exact Or.inl rfl
    · exact Or.inr ⟨rfl, rfl⟩

/-- `if (r->kind == R_FILE) fref_release(r->fref)`. -/
theorem RefInv.release {st : State} (hinv : RefInv st) {r : Region} (hr : r ∈ st.regs) :
    Ledger (fun p => refCount p st.regs - if r.fref = some p then 1 else 0)
      (if r.kind = .rFile then frefRelease r.fref st else st) := by
  cases hfref : r.fref with
  | none =>
      have hsame : (if r.kind = .rFile then frefRelease none st else st) = st := ite_self st
      rw [hsame]
      exact hinv.ledger.congr (fun p => by simp) rfl rfl rfl (fun _ => rfl) rfl
  | some p =>
      rw [if_pos (hinv.onlyFiles r hr (by simp [hfref]))]
      refine frefRelease_ledger hinv.ledger (refCount_pos hr hfref) fun q => ?_
      by_cases hq : q = p
      · simp [hq]
      · simp [hq, Ne.symm hq]

/-- `if (tail.fref) tail.fref->refs++` of a file region. -/
theorem RefInv.retain {st : State} (hinv : RefInv st) {r : Region} (hr : r ∈ st.regs) :
    Ledger (fun p => refCount p st.regs + if r.fref = some p then 1 else 0)
      (if r.kind = .rFile then frefRetain r.fref st else st) := by
  cases hfref : r.fref with
  | none =>
      have hsame : (if r.kind = .rFile then frefRetain none st else st) = st := ite_self st
      rw [hsame]
      exact hinv.ledger.congr (fun p => by simp) rfl rfl rfl (fun _ => rfl) rfl
  | some p =>
      rw [if_pos (hinv.onlyFiles r hr (by simp [hfref]))]
      refine frefRetain_ledger hinv.ledger (refCount_pos hr hfref) fun q => ?_
      by_cases hq : q = p
      · simp [hq]
      · simp [hq, Ne.symm hq]

/-- One turn of the unmap loop moves, copies or drops the pointer of the
region and adjusts the count by just as much. -/
theorem unmapRegion_ledger {start stop : Nat} {pre post : List Region} {r : Region}
    {st : State} (hinv : RefInv st) (hregs : st.regs = pre ++ r :: post)
    (hlive : r.kind ≠ .rFree) :
    Ledger (fun p => refCount p pre + refCount p (carve start stop r) + refCount p post)
      (unmapRegion start stop pre.length r st).2 := by
  have hrmem : r ∈ st.regs := by rw [hregs]; simp
  have hcount : ∀ p, refCount p st.regs =
      refCount p pre + (refCount p post + if r.fref = some p then 1 else 0) := by
    intro p
    rw [hregs, refCount_append, refCount_cons]
  unfold unmapRegion carve
  dsimp only
  simp only [hlive, ↓reduceIte]
  split
  · -- the whole region: its pointer is dropped
    refine (hinv.release hrmem).congr (fun p => ?_) rfl rfl rfl (fun _ => rfl) rfl
    simp only [hcount, refCount_cons, refCount_nil, Region.toFree, reduceCtorEq, ↓reduceIte]
    omega
  · split
    · -- the tail keeps the pointer
      refine hinv.ledger.congr (fun p => ?_) rfl rfl rfl (fun _ => rfl) rfl
      simp only [hcount, refCount_cons, refCount_nil, Region.toFree, Region.tailFrom,
        reduceCtorEq, ↓reduceIte]
      omega
    · split
      · -- the head keeps the pointer
        refine hinv.ledger.congr (fun p => ?_) rfl rfl rfl (fun _ => rfl) rfl
        simp only [hcount, refCount_cons, refCount_nil, Region.headTo, freedRegion,
          reduceCtorEq, ↓reduceIte]
        omega
      · -- both keep it
        refine (hinv.retain hrmem).congr (fun p => ?_) rfl rfl rfl (fun _ => rfl) rfl
        simp only [hcount, refCount_cons, refCount_nil, Region.headTo, Region.tailFrom,
          freedRegion, reduceCtorEq, ↓reduceIte]
        omega

theorem unmapRegion_refInv {start stop : Nat} {pre post : List Region} {r : Region}
    {st : State} (hinv : RefInv st) (hregs : st.regs = pre ++ r :: post)
    (hlive : r.kind ≠ .rFree) :
    RefInv (unmapRegion start stop pre.length r st).2 := by
  have hregs' := (unmapRegion_regs start stop hregs hlive).1
  have hrmem : r ∈ st.regs := by rw [hregs]; simp
  constructor
  · refine (unmapRegion_ledger hinv hregs hlive).congr (fun p => ?_) rfl rfl rfl
      (fun _ => rfl) rfl
    rw [hregs', refCount_append, refCount_append]
  · rw [hregs']
    intro q hq hne
    rcases List.mem_append.mp hq with hq | hq
    · rcases List.mem_append.mp hq with hq | hq
      · exact hinv.onlyFiles q (by rw [hregs]; simp [hq]) hne
      · rcases carve_fref hq with hnone | ⟨hsame, hkind⟩
        · exact absurd hnone hne
        · rw [hkind]
          exact hinv.onlyFiles r hrmem (hsame ▸ hne)
    · exact hinv.onlyFiles q (by rw [hregs]; simp [hq]) hne

theorem UnmapTurns.refInv {start stop : Nat} {pre post : List Region} {st st' : State}
    (h : UnmapTurns start stop pre post st st') (hinv : RefInv st) : RefInv st' := by
  induction h with
  | done => exact hinv
  | beyond _ => exact hinv
  | free _ _ _ ih => exact ih hinv
  | cut _ hlive hregs hwrite _ ih =>
      have hregs₁ := (unmapWriteback_onlyLogs hwrite).regs_eq.trans hregs
      have hinv₁ := unmapWriteback_refInv hinv (by rw [hregs]; simp) hwrite
      exact ih (unmapRegion_refInv hinv₁ hregs₁ hlive)

/-- Merging drops no pointer: free regions hold none. -/
theorem coalesceFrom_refs (stop : Nat) {r : Region} {rest : List Region}
    (hnone : ∀ q ∈ r :: rest, q.fref ≠ none → q.kind = .rFile) :
    (∀ p, refCount p (coalesceFrom stop r rest) = refCount p (r :: rest)) ∧
      ∀ q ∈ coalesceFrom stop r rest, q.fref ≠ none → q.kind = .rFile := by
  induction rest generalizing r with
  | nil => exact ⟨fun _ => rfl, hnone⟩
  | cons next rest ih =>
      have htail : ∀ q ∈ next :: rest, q.fref ≠ none → q.kind = .rFile :=
        fun q hq => hnone q (List.mem_cons_of_mem r hq)
      simp only [coalesceFrom]
      split
      · split
        · rename_i htouch
          have hnext : next.fref = none := by
            by_contra hne
            have hfile := htail next List.mem_cons_self hne
            rw [htouch.2.1] at hfile
            cases hfile
          have hmerged : ∀ q ∈ mergeRegions r next :: rest,
              q.fref ≠ none → q.kind = .rFile := by
            intro q hq hne
            rcases List.mem_cons.mp hq with rfl | hq
            · exact hnone r List.mem_cons_self hne
            · exact htail q (List.mem_cons_of_mem next hq) hne
          obtain ⟨hcount, hall⟩ := ih hmerged
          refine ⟨fun p => ?_, hall⟩
          rw [hcount p]
          simp only [refCount_cons, hnext, mergeRegions, reduceCtorEq, ↓reduceIte,
            Nat.add_zero]
        · obtain ⟨hcount, hall⟩ := ih htail
          refine ⟨fun p => ?_, ?_⟩
          · rw [refCount_cons, hcount p, refCount_cons p r]
          · intro q hq
            rcases List.mem_cons.mp hq with rfl | hq
            · exact hnone q List.mem_cons_self
            · exact hall q hq
      · exact ⟨fun _ => rfl, hnone⟩

theorem coalesceAround_refInv {start stop : Nat} {st : State} (hinv : RefInv st) :
    RefInv (coalesceAround start stop st) := by
  rcases coalesceAround_cases start stop st with ⟨_, hsame⟩ |
    ⟨pre, r, rest, hregs, _, hregs'⟩
  · rw [hsame]
    exact hinv
  have hfiles := hinv.onlyFiles
  rw [hregs] at hfiles
  obtain ⟨hcount, hall⟩ := coalesceFrom_refs stop
    fun q hq => hfiles q (List.mem_append_right pre hq)
  rw [coalesceAround_regs_only]
  refine hinv.congr (fun p => ?_) ?_ rfl rfl rfl (fun _ => rfl) rfl
  · simp only [hregs', hregs, refCount_append, hcount]
  · simp only [hregs']
    intro q hq
    rcases List.mem_append.mp hq with hq | hq
    · exact hfiles q (List.mem_append_left _ hq)
    · exact hall q hq

theorem unmapRange_refInv {start stop : Nat} {ans : PwriteAnswers} {st st' : State}
    (hinv : RefInv st) (h : unmapRange start stop ans st = .ok st') : RefInv st' := by
  obtain ⟨_, _, _, _, _, hturns, rfl⟩ := unmapRange_spec h
  exact coalesceAround_refInv (hturns.refInv hinv)

/-! The outcomes of `mmap` -/

theorem Front.left_fref {base len : Nat} {r q : Region} {left : List Region}
    (h : Front base len r left) (hq : q ∈ left) : q.fref = r.fref := by
  cases h with
  | whole _ _ _ => simp at hq
  | rest _ _ _ => rw [List.mem_singleton.mp hq]

/-- A new region holds no reference yet. -/
theorem Acquired.frefs {st st' : State} {idx base len : Nat} {kind : Kind}
    {prot flags : BitVec 32}
    (h : Acquired st st' idx (liveRegion base len kind prot flags)) (hinv : RefInv st) :
    (∀ p, refCount p st'.regs = refCount p st.regs) ∧
      ∀ q ∈ st'.regs, q.fref ≠ none → q ∈ st.regs := by
  rcases h with h | h
  · obtain ⟨pre, r, left, post, hregs, hregs', _, hfront⟩ := h.table
    have hfree : r.fref = none := by
      refine hinv.free_fref (by rw [hregs]; simp) ?_
      rw [hfront.free]
      decide
    have hleft : ∀ q ∈ left, q.fref = none :=
      fun q hq => (hfront.left_fref hq).trans hfree
    constructor
    · intro p
      have hzero : refCount p left = 0 :=
        List.countP_eq_zero.mpr fun q hq => by simp [hleft q hq]
      simp only [hregs, hregs', refCount_append, refCount_cons, hfree, hzero, liveRegion,
        reduceCtorEq, ↓reduceIte, Nat.add_zero, Nat.zero_add]
    · intro q hq hne
      rw [hregs'] at hq
      rw [hregs]
      simp only [List.mem_append, List.mem_cons] at hq ⊢
      rcases hq with hq | rfl | hq | hq
      · exact Or.inl hq
      · exact absurd rfl hne
      · exact absurd (hleft q hq) hne
      · exact Or.inr (Or.inr hq)
  · obtain ⟨pre, post, hregs, hregs', _⟩ := h.table
    constructor
    · intro p
      simp only [hregs, hregs', refCount_append, refCount_cons, liveRegion, reduceCtorEq,
        ↓reduceIte, Nat.add_zero]
    · intro q hq hne
      rw [hregs'] at hq
      rw [hregs]
      simp only [List.mem_append, List.mem_cons] at hq ⊢
      rcases hq with hq | rfl | hq
      · exact Or.inl hq
      · exact absurd rfl hne
      · exact Or.inr hq

theorem Acquired.refInv {st st' : State} {idx base len : Nat} {kind : Kind}
    {prot flags : BitVec 32}
    (h : Acquired st st' idx (liveRegion base len kind prot flags)) (hinv : RefInv st) :
    RefInv st' := by
  have hplaced := h.placed
  obtain ⟨hcount, hold⟩ := h.frefs hinv
  exact hinv.congr hcount (fun q hq hne => hinv.onlyFiles q (hold q hq hne) hne)
    hplaced.frefs_eq hplaced.nextPtr_eq hplaced.openFds_eq
    h.plainCalls.closeCount_eq hplaced.dangling_eq

/-- Setting the offset and the backed length moves no pointer. -/
theorem Acquired.refInv_backedBy {st st' : State} {idx base len n : Nat} {kind : Kind}
    {prot flags : BitVec 32} {off : Int}
    (h : Acquired st st' idx (liveRegion base len kind prot flags)) (hinv : RefInv st) :
    RefInv (updateAt idx (Region.backedBy off n) st') := by
  have hinv' := h.refInv hinv
  obtain ⟨pre, rest, hregs, rfl⟩ := h.table
  have hregs' : (updateAt pre.length (Region.backedBy off n) st').regs =
      pre ++ (liveRegion base len kind prot flags).backedBy off n :: rest := by
    simp only [updateAt, hregs, modify_boundary]
  refine hinv'.congr (fun p => ?_) ?_ rfl rfl rfl (fun _ => rfl) rfl
  · simp only [hregs', hregs, refCount_append, refCount_cons, liveRegion, Region.backedBy]
  · rw [hregs']
    have hfiles := hinv'.onlyFiles
    rw [hregs] at hfiles
    intro q hq hne
    simp only [List.mem_append, List.mem_cons] at hq
    rcases hq with hq | rfl | hq
    · exact hfiles q (by simp [hq]) hne
    · exact absurd rfl hne
    · exact hfiles q (by simp [hq]) hne

/-- The pointer to a new reference goes into one region. -/
theorem RefInv.attach {st : State} {pre rest : List Region} {live : Region}
    (hinv : RefInv st) (hregs : st.regs = pre ++ live :: rest) (hfile : live.kind = .rFile)
    (hnone : live.fref = none) (newfd : Nat) :
    RefInv (updateAt pre.length (fun r => { r with fref := some st.nextPtr })
      (addRef newfd st)) := by
  have hregs' : (updateAt pre.length (fun r => { r with fref := some st.nextPtr })
      (addRef newfd st)).regs = pre ++ { live with fref := some st.nextPtr } :: rest := by
    simp only [updateAt, addRef, hregs, modify_boundary]
  constructor
  · have hledger : Ledger (fun p => refCount p
        (pre ++ { live with fref := some st.nextPtr } :: rest)) (addRef newfd st) := by
      refine addRef_ledger hinv.ledger newfd fun q => ?_
      simp only [hregs, refCount_append, refCount_cons, hnone, Option.some.injEq,
        reduceCtorEq, ↓reduceIte]
      by_cases hq : q = st.nextPtr
      · rw [if_pos hq, if_pos hq.symm]
        omega
      · rw [if_neg hq, if_neg (Ne.symm hq)]
    exact hledger.congr (fun p => by rw [hregs']) rfl rfl rfl (fun _ => rfl) rfl
  · rw [hregs']
    have hfiles := hinv.onlyFiles
    rw [hregs] at hfiles
    intro q hq hne
    simp only [List.mem_append, List.mem_cons] at hq
    rcases hq with hq | rfl | hq
    · exact hfiles q (by simp [hq]) hne
    · exact hfile
    · exact hfiles q (by simp [hq]) hne

theorem MmapOutcome.refInv {length prot flags : BitVec 32} {fd offset : Int}
    {st st' : State} {ret : Option Nat}
    (h : MmapOutcome length prot flags fd offset st ret st') (hinv : RefInv st) :
    RefInv st' := by
  cases h with
  | refused hsame _ hcalls => exact hsame.refInv hcalls hinv
  | anonymous _ _ hacq => exact hacq.refInv hinv
  | @file _ _ _ idx bytes _ _ hacq hfill _ =>
      have hsame := updateAt_sameTable idx (Region.backedBy offset bytes.length) hfill.table
      exact hsame.refInv hfill.plainCalls (hacq.refInv_backedBy hinv)
  | @shared st₁ st₂ base idx newfd bytes _ _ hacq hfill _ =>
      have hsame := updateAt_sameTable idx (Region.backedBy offset bytes.length) hfill.table
      have hbacked := hsame.refInv hfill.plainCalls (hacq.refInv_backedBy hinv)
      have hrecorded := (record_sameTable (.dup fd (.ok newfd)) _).refInv
        (.single _ rfl trivial) hbacked
      obtain ⟨pre, rest, hregs, rfl⟩ := hacq.table
      have hregs' : ((updateAt pre.length (Region.backedBy offset bytes.length) st₂).record
          (.dup fd (.ok newfd))).regs =
            pre ++ (liveRegion base (pageCeil length.toNat) .rFile prot flags).backedBy offset
              bytes.length :: rest := by
        simp only [State.record, updateAt, hfill.table.regs_eq, hregs, modify_boundary]
      exact hrecorded.attach hregs' rfl rfl newfd
  | undone _ hacq _ hsame _ hcalls hrun heq =>
      subst heq
      have hinv₂ := hsame.refInv hcalls (hacq.refInv_backedBy hinv)
      exact (setErrno_sameTable _ _).refInv (.of_eq rfl) (unmapRange_refInv hinv₂ hrun)

theorem MunmapOutcome.refInv {addr length : BitVec 32} {st st' : State} {ret : Int}
    (h : MunmapOutcome addr length st ret st') (hinv : RefInv st) : RefInv st' := by
  cases h with
  | refused hsame _ hcalls => exact hsame.refInv (.of_eq hcalls) hinv
  | @unmapped _ cap _ _ _ hrun =>
      exact unmapRange_refInv ((capregs_sameTable cap st).refInv (.of_eq rfl) hinv) hrun

theorem msyncLoop_refInv {start stop : Nat} {regs : List Region} {result ret : Int}
    {ans : PwriteAnswers} {st st' : State} (hinv : RefInv st)
    (hmem : ∀ r ∈ regs, r ∈ st.regs)
    (h : msyncLoop start stop regs result ans st = .ok (ret, st')) : RefInv st' := by
  induction regs generalizing result ans st with
  | nil =>
      simp only [msyncLoop, Except.ok.injEq, Prod.mk.injEq] at h
      rw [← h.2]
      exact hinv
  | cons r rest ih =>
      have hrest : ∀ q ∈ rest, q ∈ st.regs := fun q hq => hmem q (List.mem_cons_of_mem r hq)
      simp only [msyncLoop] at h
      split at h
      · split at h
        · rename_i hshared
          obtain ⟨⟨all, ans₁, st₁⟩, hwrite, hloop⟩ := bind_eq_ok h
          have hlogs := writeback_onlyLogs hwrite
          have hinv₁ := writeback_refInv hinv (hmem r List.mem_cons_self)
            (isSharedWritable_fref hshared) hwrite
          exact ih hinv₁ (by rw [hlogs.regs_eq]; exact hrest) hloop
        · exact ih hinv hrest h
      · simp only [Except.ok.injEq, Prod.mk.injEq] at h
        rw [← h.2]
        exact hinv

theorem msync_refInv {addr length flags : BitVec 32} {ans : Answers} {st st' : State}
    {ret : Int} (hinv : RefInv st) (h : msync addr length flags ans st = .ok (ret, st')) :
    RefInv st' := by
  rcases msync_cases h with ⟨e, _, rfl⟩ | ⟨_, _, rfl⟩ | ⟨_, _, hloop⟩
  · exact (setErrno_sameTable e st).refInv (.of_eq rfl) hinv
  · exact hinv
  · exact msyncLoop_refInv hinv (fun r hr => List.mem_of_mem_drop hr) hloop

/-! Which call closes a descriptor -/

/-- `call` writes to or closes the descriptor `fd` through `ptr`. -/
def HostCall.Uses (ptr fd : Nat) : HostCall → Prop
  | .pwrite ptr' fd' _ _ _ _ => ptr' = ptr ∧ fd' = fd
  | .close ptr' fd' => ptr' = ptr ∧ fd' = fd
  | _ => False

/-- The descriptors that `calls` write to and close are those of references of
`st`. -/
def UsesOwn (st : State) (calls : List HostCall) : Prop :=
  ∀ call ∈ calls, ∀ ptr fd, call.Uses ptr fd → ∃ f ∈ st.frefs, f.ptr = ptr ∧ f.fd = fd

theorem usesOwn_plain {st : State} {calls : List HostCall}
    (h : ∀ call ∈ calls, call.Plain) : UsesOwn st calls := by
  intro call hcall ptr fd huses
  have hplain := h call hcall
  cases call with
  | pwrite _ _ _ _ _ _ => exact hplain.elim
  | close _ _ => exact hplain.elim
  | _ => exact huses.elim

theorem UsesOwn.append {st : State} {calls more : List HostCall} (h : UsesOwn st calls)
    (hmore : UsesOwn st more) : UsesOwn st (calls ++ more) := by
  intro call hcall
  rcases List.mem_append.mp hcall with hcall | hcall
  · exact h call hcall
  · exact hmore call hcall

/-- From `st` to `st'` no reference is new, and what was written to and closed
belonged to references of `st`. -/
structure Releases (st st' : State) : Prop where
  old : ∀ f' ∈ st'.frefs, ∃ f ∈ st.frefs, f.ptr = f'.ptr ∧ f.fd = f'.fd
  calls : ∃ more, st'.calls = st.calls ++ more ∧ UsesOwn st more
  next : st'.nextPtr = st.nextPtr

theorem Releases.refl (st : State) : Releases st st :=
  ⟨fun f hf => ⟨f, hf, rfl, rfl⟩, ⟨[], by simp, by simp [UsesOwn]⟩, rfl⟩

theorem Releases.trans {a b c : State} (hab : Releases a b) (hbc : Releases b c) :
    Releases a c := by
  have hback : ∀ f' ∈ b.frefs, ∀ ptr fd, f'.ptr = ptr → f'.fd = fd →
      ∃ f ∈ a.frefs, f.ptr = ptr ∧ f.fd = fd := by
    intro f' hf' ptr fd hptr hfd
    obtain ⟨f, hf, hptr', hfd'⟩ := hab.old f' hf'
    exact ⟨f, hf, hptr'.trans hptr, hfd'.trans hfd⟩
  obtain ⟨more, hmore, huses⟩ := hab.calls
  obtain ⟨rest, hrest, huses'⟩ := hbc.calls
  refine ⟨?_, ⟨more ++ rest, by rw [hrest, hmore, List.append_assoc], huses.append ?_⟩,
    hbc.next.trans hab.next⟩
  · intro g hg
    obtain ⟨f', hf', hptr, hfd⟩ := hbc.old g hg
    exact hback f' hf' _ _ hptr hfd
  · intro call hcall ptr fd hcalluses
    obtain ⟨f', hf', hptr, hfd⟩ := huses' call hcall ptr fd hcalluses
    exact hback f' hf' ptr fd hptr hfd

/-- The references are untouched. -/
theorem Releases.of_frefs_eq {st st' : State} {more : List HostCall}
    (hfrefs : st'.frefs = st.frefs) (hnext : st'.nextPtr = st.nextPtr)
    (hcalls : st'.calls = st.calls ++ more) (huses : UsesOwn st more) : Releases st st' :=
  ⟨fun f hf => ⟨f, hfrefs ▸ hf, rfl, rfl⟩, ⟨more, hcalls, huses⟩, hnext⟩

theorem SameTable.releases {st st' : State} (h : SameTable st st')
    (hcalls : PlainCalls st st') : Releases st st' := by
  obtain ⟨more, hmore, hplain⟩ := hcalls
  exact .of_frefs_eq h.frefs_eq h.nextPtr_eq hmore (usesOwn_plain hplain)

theorem Releases.setAt {st st' : State} (h : Releases st st') (i : Nat) (r : Region) :
    Releases st (setAt i r st') :=
  ⟨h.old, h.calls, h.next⟩

theorem Releases.insertAt {st st' : State} (h : Releases st st') (i : Nat) (r : Region) :
    Releases st (insertAt i r st') :=
  ⟨h.old, h.calls, h.next⟩

theorem frefRelease_releases (p : Option Nat) (st : State) :
    Releases st (frefRelease p st) := by
  cases p with
  | none => exact Releases.refl st
  | some ptr =>
      simp only [frefRelease]
      cases hfind : st.frefs.find? fun f => f.ptr == ptr with
      | none =>
          exact ⟨fun f hf => ⟨f, hf, rfl, rfl⟩, ⟨[], by simp, by simp [UsesOwn]⟩, rfl⟩
      | some f =>
          have hf := List.mem_of_find?_eq_some hfind
          have hptr : f.ptr = ptr := by simpa using List.find?_some hfind
          dsimp only
          split
          · refine ⟨?_, ⟨_, rfl, ?_⟩, rfl⟩
            · intro g hg
              exact ⟨g, List.mem_of_mem_filter hg, rfl, rfl⟩
            · intro call hcall ptr' fd huses
              rw [List.mem_singleton.mp hcall] at huses
              exact ⟨f, hf, hptr.trans huses.1, huses.2⟩
          · refine ⟨?_, ⟨[], by simp, by simp [UsesOwn]⟩, rfl⟩
            intro g hg
            obtain ⟨f', hf', rfl⟩ := List.mem_map.mp hg
            refine ⟨f', hf', ?_⟩
            by_cases hfp : f'.ptr = ptr <;> simp [hfp]

theorem frefRetain_releases (p : Option Nat) (st : State) :
    Releases st (frefRetain p st) := by
  cases p with
  | none => exact Releases.refl st
  | some ptr =>
      refine ⟨?_, ⟨[], by simp [frefRetain], by simp [UsesOwn]⟩, rfl⟩
      intro g hg
      obtain ⟨f', hf', rfl⟩ := List.mem_map.mp hg
      refine ⟨f', hf', ?_⟩
      by_cases hfp : f'.ptr = ptr <;> simp [hfp]

theorem unmapRegion_releases (start stop i : Nat) (r : Region) (st : State) :
    Releases st (unmapRegion start stop i r st).2 := by
  unfold unmapRegion
  dsimp only
  split
  · refine Releases.setAt ?_ i _
    split
    · exact frefRelease_releases r.fref st
    · exact Releases.refl st
  · split
    · exact ((Releases.refl st).setAt i _).insertAt _ _
    · split
      · exact ((Releases.refl st).setAt i _).insertAt _ _
      · refine ((Releases.setAt ?_ i _).insertAt _ _).insertAt _ _
        split
        · exact frefRetain_releases r.fref st
        · exact Releases.refl st

/-- A writeback goes to the descriptor of the reference of its region. -/
theorem WroteBack.usesOwn {r : Region} {start stop : Nat} {calls : List HostCall}
    {st : State} (h : WroteBack (fun ptr => st.frefFd ptr) r start stop calls)
    (hinv : RefInv st) (hr : r ∈ st.regs) : UsesOwn st calls := by
  intro call hcall ptr fd huses
  obtain ⟨ptr', hptr', hat⟩ := h.sound call hcall
  obtain ⟨f, hfind, hf, hfptr⟩ := hinv.ledger.find (refCount_pos hr hptr')
  have hfd : st.frefFd ptr' = f.fd := by
    unfold State.frefFd
    rw [hfind]
    rfl
  cases call with
  | pwrite ptr₁ fd₁ body nbyte off result =>
      obtain ⟨⟨rfl, rfl⟩, _⟩ := hat
      exact ⟨f, hf, hfptr.trans huses.1, hfd.symm.trans huses.2⟩
  | _ => exact hat.elim

theorem unmapWriteback_releases {start stop : Nat} {r : Region} {ans ans' : PwriteAnswers}
    {st st' : State} (hinv : RefInv st) (hr : r ∈ st.regs)
    (h : unmapWriteback start stop r ans st = .ok (ans', st')) : Releases st st' := by
  have hlogs := unmapWriteback_onlyLogs h
  obtain ⟨own, hown, hback, hnone⟩ := unmapWriteback_wroteBack h
  refine .of_frefs_eq hlogs.frefs_eq hlogs.nextPtr_eq hown ?_
  cases hshared : r.isSharedWritable with
  | false => simp [hnone hshared, UsesOwn]
  | true => exact (hback hshared).usesOwn hinv hr

theorem UnmapTurns.releases {start stop : Nat} {pre post : List Region} {st st' : State}
    (h : UnmapTurns start stop pre post st st') (hinv : RefInv st) : Releases st st' := by
  induction h with
  | done => exact Releases.refl _
  | beyond _ => exact Releases.refl _
  | free _ _ _ ih => exact ih hinv
  | cut _ hlive hregs hwrite _ ih =>
      have hregs₁ := (unmapWriteback_onlyLogs hwrite).regs_eq.trans hregs
      have hr : _ ∈ _ := hregs ▸ List.mem_append_right _ List.mem_cons_self
      have hinv₁ := unmapWriteback_refInv hinv hr hwrite
      exact (unmapWriteback_releases hinv hr hwrite).trans
        ((unmapRegion_releases _ _ _ _ _).trans
          (ih (unmapRegion_refInv hinv₁ hregs₁ hlive)))

theorem unmapRange_releases {start stop : Nat} {ans : PwriteAnswers} {st st' : State}
    (hinv : RefInv st) (h : unmapRange start stop ans st = .ok st') : Releases st st' := by
  obtain ⟨_, _, st₁, _, _, hturns, rfl⟩ := unmapRange_spec h
  rw [coalesceAround_regs_only]
  have hfirst := hturns.releases hinv
  exact ⟨hfirst.old, hfirst.calls, hfirst.next⟩

/-- Unmapping regions without a pointer leaves the references alone. -/
theorem UnmapTurns.frefs_eq {start stop : Nat} {pre post : List Region} {st st' : State}
    (h : UnmapTurns start stop pre post st st')
    (hnone : ∀ r ∈ post, r.base < stop → r.fref = none) : st'.frefs = st.frefs := by
  induction h with
  | done => rfl
  | beyond _ => rfl
  | free _ _ _ ih => exact ih fun q hq => hnone q (List.mem_cons_of_mem _ hq)
  | @cut pre post r ans ans' st st₁ st' hlt _ _ hwrite _ ih =>
      rw [ih fun q hq => hnone q (List.mem_cons_of_mem _ hq)]
      have hr : r.fref = none := hnone r List.mem_cons_self hlt
      have hsame : (unmapRegion start stop pre.length r st₁).2.frefs = st₁.frefs := by
        unfold unmapRegion
        dsimp only
        simp only [hr, frefRelease, frefRetain, ite_self]
        split
        · rfl
        · split
          · rfl
          · split <;> rfl
      rw [hsame]
      exact (unmapWriteback_onlyLogs hwrite).frefs_eq

/-- `f` is still allocated and has its descriptor. -/
def Kept (f : FileRef) (st' : State) : Prop :=
  ∃ f' ∈ st'.frefs, f'.ptr = f.ptr ∧ f'.fd = f.fd

/-- Between the two states the last region that pointed to `f` went away, and
`f` with it; its descriptor was closed once. -/
structure FreedOnce (f : FileRef) (st st' : State) : Prop where
  gone : f.ptr ∉ st'.frefs.map FileRef.ptr
  unused : refCount f.ptr st'.regs = 0
  closed : ∃ more, st'.calls = st.calls ++ more ∧ closeCount f.ptr more = 1 ∧
    .close f.ptr f.fd ∈ more

theorem Ledger.eq_of_ptr {count : Nat → Nat} {st : State} (h : Ledger count st)
    {f g : FileRef} (hf : f ∈ st.frefs) (hg : g ∈ st.frefs) (hptr : f.ptr = g.ptr) :
    f = g :=
  List.inj_on_of_nodup_map h.nodup hf hg hptr

theorem Releases.kept_or_freed {st st' : State} (h : Releases st st') (hinv : RefInv st)
    (hinv' : RefInv st') {f : FileRef} (hf : f ∈ st.frefs) :
    Kept f st' ∨ FreedOnce f st st' := by
  by_cases hmem : f.ptr ∈ st'.frefs.map FileRef.ptr
  · obtain ⟨f', hf', hptr⟩ := List.mem_map.mp hmem
    obtain ⟨g, hg, hgptr, hgfd⟩ := h.old f' hf'
    obtain rfl := hinv.ledger.eq_of_ptr hg hf (hgptr.trans hptr)
    exact Or.inl ⟨f', hf', hptr, hgfd.symm⟩
  · have hunused : refCount f.ptr st'.regs = 0 := by
      by_contra hne
      exact hmem (hinv'.ledger.known _ (Nat.pos_of_ne_zero hne))
    obtain ⟨more, hmore, huses⟩ := h.calls
    -- never closed before, closed once since it is gone
    have hbefore : closeCount f.ptr st.calls = 0 := by
      rw [hinv.ledger.closed, if_pos (List.mem_map.mpr ⟨f, hf, rfl⟩)]
    have hafter : closeCount f.ptr st'.calls = 1 := by
      rw [hinv'.ledger.closed, if_neg hmem, h.next, if_pos (hinv.ledger.lt f hf)]
    have hcount : closeCount f.ptr more = 1 := by
      rw [hmore, closeCount_append] at hafter
      omega
    refine Or.inr ⟨hmem, hunused, more, hmore, hcount, ?_⟩
    obtain ⟨call, hcall, hclose⟩ := List.countP_pos_iff.mp (hcount ▸ Nat.one_pos)
    cases call with
    | close ptr fd =>
        obtain rfl : ptr = f.ptr := by simpa [HostCall.closes] using hclose
        obtain ⟨g, hg, hgptr, rfl⟩ := huses _ hcall f.ptr fd ⟨rfl, rfl⟩
        obtain rfl := hinv.ledger.eq_of_ptr hg hf hgptr
        exact hcall
    | _ => simp [HostCall.closes] at hclose

theorem Acquired.releases {st st' : State} {idx : Nat} {live : Region}
    (h : Acquired st st' idx live) : Releases st st' := by
  obtain ⟨more, hmore, hplain⟩ := h.plainCalls
  exact .of_frefs_eq h.placed.frefs_eq h.placed.nextPtr_eq hmore (usesOwn_plain hplain)

theorem Filled.releases {fd : Int} {base len : Nat} {offset : Int} {data : List UInt8}
    {st st' : State} (h : Filled fd base len offset data st st') : Releases st st' :=
  h.table.releases h.plainCalls

/-- A new shared writable mapping adds a reference; every other `mmap` adds none. -/
theorem MmapOutcome.releases {length prot flags : BitVec 32} {fd offset : Int}
    {st st' : State} {ret : Option Nat}
    (h : MmapOutcome length prot flags fd offset st ret st') (hinv : RefInv st) :
    Releases st st' ∨ (∃ newfd, st'.frefs = ⟨st.nextPtr, newfd, 1⟩ :: st.frefs) ∧
      PlainCalls st st' := by
  cases h with
  | refused hsame _ hcalls => exact Or.inl (hsame.releases hcalls)
  | anonymous _ _ hacq => exact Or.inl hacq.releases
  | file _ _ hacq hfill _ =>
      have hfirst := hacq.releases.trans hfill.releases
      exact Or.inl ⟨hfirst.old, hfirst.calls, hfirst.next⟩
  | @shared st₁ st₂ _ _ newfd _ _ _ hacq hfill _ =>
      have hsame : st₂.frefs = st.frefs := hfill.table.frefs_eq.trans hacq.placed.frefs_eq
      have hnext : st₂.nextPtr = st.nextPtr :=
        hfill.table.nextPtr_eq.trans hacq.placed.nextPtr_eq
      refine Or.inr ⟨⟨newfd, ?_⟩, ?_⟩
      · simp only [updateAt, addRef, State.record, hsame, hnext]
      · exact (hacq.plainCalls.trans hfill.plainCalls).trans
          (.single (.dup fd (.ok newfd)) rfl trivial)
  | @undone st₁ st₂ st₃ _ base idx n off ans e _ hacq _ hsame _ hcalls hrun heq =>
      subst heq
      have hset := hsame.releases hcalls
      have hfilled : Releases st₁ st₂ := ⟨hset.old, hset.calls, hset.next⟩
      have hinv₂ := hsame.refInv hcalls (hacq.refInv_backedBy hinv)
      have hlast := (hacq.releases.trans hfilled).trans (unmapRange_releases hinv₂ hrun)
      exact Or.inl ⟨hlast.old, hlast.calls, hlast.next⟩

theorem MmapOutcome.kept_or_freed {length prot flags : BitVec 32} {fd offset : Int}
    {st st' : State} {ret : Option Nat}
    (h : MmapOutcome length prot flags fd offset st ret st') (hinv : RefInv st)
    {f : FileRef} (hf : f ∈ st.frefs) : Kept f st' ∨ FreedOnce f st st' := by
  rcases h.releases hinv with hrel | ⟨⟨newfd, hfrefs⟩, _⟩
  · exact hrel.kept_or_freed hinv (h.refInv hinv) hf
  · exact Or.inl ⟨f, hfrefs ▸ List.mem_cons_of_mem _ hf, rfl, rfl⟩

/-- The failure exits of `mmap` unmap nothing but the new region. -/
theorem undone_frefs_eq {base : Nat} {length prot flags : BitVec 32} {off : Int} {n idx : Nat}
    {ans : PwriteAnswers} {st st₁ st₂ st₃ : State} (hpos : 0 < pageCeil length.toNat)
    (hinv : PoolInv st)
    (hhost : st₃.grown = (base, pageCeil length.toNat) :: st.grown →
      SbrkOk st base (pageCeil length.toNat))
    (hacq : Acquired st st₁ idx
      (liveRegion base (pageCeil length.toNat) .rFile prot flags))
    (hn : n ≤ pageCeil length.toNat)
    (hsame : SameTable (updateAt idx (Region.backedBy off n) st₁) st₂)
    (hrun : unmapRange base (wrap (base + pageCeil length.toNat)) ans st₂ = .ok st₃) :
    st₃.frefs = st.frefs := by
  have hinstalled := hacq.installed_backedBy hn hsame
  obtain ⟨hentered, hinv₂, _⟩ :=
    (hacq.newRegion_backedBy hpos hn hsame).unmapped hinv hrun hhost
  have hsame₂ : st₂.frefs = st.frefs := hsame.frefs_eq.trans hacq.placed.frefs_eq
  obtain ⟨pre, post, st', hregs, hidx, hturns, rfl⟩ := unmapRange_spec hrun
  rw [coalesceAround_regs_only]
  refine (hturns.frefs_eq fun r hr hlt => ?_).trans hsame₂
  obtain ⟨front, behind, _, hregs', _⟩ := hinstalled.table
  have hok := hinv₂.tableOk
  rw [hregs] at hok hidx hregs'
  rcases firstOverlap_reached hok hidx hregs' r hr with rfl | hbehind
  · rfl
  · have hle : base + pageCeil length.toNat ≤ r.base := hbehind
    have hwrap : wrap (base + pageCeil length.toNat) ≤ base + pageCeil length.toNat :=
      Nat.mod_le _ _
    omega

theorem MmapOutcome.kept {length prot flags : BitVec 32} {fd offset : Int}
    {st st' : State} {ret : Option Nat}
    (h : MmapOutcome length prot flags fd offset st ret st') (hinv : PoolInv st)
    (hhost : ∀ base len, st'.grown = (base, len) :: st.grown → SbrkOk st base len)
    {f : FileRef} (hf : f ∈ st.frefs) : f ∈ st'.frefs := by
  cases h with
  | refused hsame _ _ => exact hsame.frefs_eq.symm ▸ hf
  | anonymous _ _ hacq => exact hacq.placed.frefs_eq.symm ▸ hf
  | file _ _ hacq hfill _ =>
      exact (hfill.table.frefs_eq.trans hacq.placed.frefs_eq).symm ▸ hf
  | shared _ _ hacq hfill _ =>
      have hsame := hfill.table.frefs_eq.trans hacq.placed.frefs_eq
      exact List.mem_cons_of_mem _ (hsame.symm ▸ hf)
  | @undone st₁ st₂ st₃ _ base idx n off ans e hcheck hacq hn hsame _ _ hrun heq =>
      subst heq
      have hpos := pageCeil_pos_of_check hcheck
      have hsbrk : st₃.grown = (base, pageCeil length.toNat) :: st.grown →
          SbrkOk st base (pageCeil length.toNat) := fun hgrown => hhost _ _ hgrown
      have hfrefs : st₃.frefs = st.frefs :=
        undone_frefs_eq hpos hinv hsbrk hacq hn hsame hrun
      exact hfrefs.symm ▸ hf

theorem MunmapOutcome.releases {addr length : BitVec 32} {st st' : State} {ret : Int}
    (h : MunmapOutcome addr length st ret st') (hinv : RefInv st) : Releases st st' := by
  cases h with
  | refused hsame _ hcalls => exact hsame.releases (.of_eq hcalls)
  | @unmapped _ cap _ _ _ hrun =>
      have hfirst := unmapRange_releases
        ((capregs_sameTable cap st).refInv (.of_eq rfl) hinv) hrun
      exact ⟨hfirst.old, hfirst.calls, hfirst.next⟩

theorem MunmapOutcome.kept_or_freed {addr length : BitVec 32} {st st' : State} {ret : Int}
    (h : MunmapOutcome addr length st ret st') (hinv : RefInv st) {f : FileRef}
    (hf : f ∈ st.frefs) : Kept f st' ∨ FreedOnce f st st' ∧ ret = 0 := by
  have hrel := h.releases hinv
  have hinv' := h.refInv hinv
  cases h with
  | refused hsame _ _ => exact Or.inl ⟨f, hsame.frefs_eq.symm ▸ hf, rfl, rfl⟩
  | unmapped _ _ _ =>
      rcases hrel.kept_or_freed hinv hinv' hf with hkept | hfreed
      · exact Or.inl hkept
      · exact Or.inr ⟨hfreed, rfl⟩

theorem msyncLoop_releases {start stop : Nat} {regs : List Region} {result ret : Int}
    {ans : PwriteAnswers} {st st' : State} (hinv : RefInv st)
    (hmem : ∀ r ∈ regs, r ∈ st.regs)
    (h : msyncLoop start stop regs result ans st = .ok (ret, st')) : Releases st st' := by
  induction regs generalizing result ans st with
  | nil =>
      simp only [msyncLoop, Except.ok.injEq, Prod.mk.injEq] at h
      rw [← h.2]
      exact Releases.refl st
  | cons r rest ih =>
      have hrest : ∀ q ∈ rest, q ∈ st.regs := fun q hq => hmem q (List.mem_cons_of_mem r hq)
      have hr := hmem r List.mem_cons_self
      simp only [msyncLoop] at h
      split at h
      · split at h
        · rename_i hshared
          have hfref := isSharedWritable_fref hshared
          obtain ⟨⟨all, ans₁, st₁⟩, hwrite, hloop⟩ := bind_eq_ok h
          have hlogs := writeback_onlyLogs hwrite
          have hinv₁ := writeback_refInv hinv hr hfref hwrite
          obtain ⟨own, hown, hback⟩ := writeback_wroteBack hfref hwrite
          have hfirst : Releases st st₁ :=
            .of_frefs_eq hlogs.frefs_eq hlogs.nextPtr_eq hown (hback.usesOwn hinv hr)
          exact hfirst.trans (ih hinv₁ (by rw [hlogs.regs_eq]; exact hrest) hloop)
        · exact ih hinv hrest h
      · simp only [Except.ok.injEq, Prod.mk.injEq] at h
        rw [← h.2]
        exact Releases.refl st

theorem msync_releases {addr length flags : BitVec 32} {ans : Answers} {st st' : State}
    {ret : Int} (hinv : RefInv st) (h : msync addr length flags ans st = .ok (ret, st')) :
    Releases st st' := by
  rcases msync_cases h with ⟨e, _, rfl⟩ | ⟨_, _, rfl⟩ | ⟨_, _, hloop⟩
  · exact (setErrno_sameTable e st).releases (.of_eq rfl)
  · exact Releases.refl st'
  · exact msyncLoop_releases hinv (fun r hr => List.mem_of_mem_drop hr) hloop

/-! Runs -/

theorem init_refInv : RefInv State.init := by
  refine ⟨⟨List.nodup_nil, by simp [State.init], by simp [State.init], ?_, .refl _, ?_, rfl⟩,
    by simp [State.init]⟩
  · intro p hp
    exact absurd hp (Nat.lt_irrefl 0)
  · intro p
    simp [State.init, closeCount]

/-- The step lemma of the reference counts. -/
theorem Step.refInv {host : State → Nat → Nat → Prop} {st st' : State} {l : Label}
    (h : Step host st l st') (hinv : RefInv st) : RefInv st' := by
  cases h with
  | call hexec _ =>
      rcases Call.exec_cases hexec with ⟨_, _, _, _, _, _, _, _, houtcome⟩ |
        ⟨_, _, _, _, _, houtcome⟩ | ⟨_, _, _, _, _, _, hrun⟩
      · exact houtcome.refInv hinv
      · exact houtcome.refInv hinv
      · exact msync_refInv hinv hrun
  | store mem => exact hinv.congr (fun _ => rfl) hinv.onlyFiles rfl rfl rfl (fun _ => rfl) rfl

/-- A step writes to and closes the descriptors of references only, each through its
own. -/
theorem Step.usesOwn {host : State → Nat → Nat → Prop} {st st' : State} {l : Label}
    (h : Step host st l st') (hinv : RefInv st) :
    ∃ new, st'.calls = st.calls ++ new ∧ UsesOwn st new := by
  cases h with
  | call hexec _ =>
      rcases Call.exec_cases hexec with ⟨_, _, _, _, _, _, _, _, houtcome⟩ |
        ⟨_, _, _, _, _, houtcome⟩ | ⟨_, _, _, _, _, _, hrun⟩
      · rcases houtcome.releases hinv with hrel | ⟨_, more, hmore, hplain⟩
        · exact hrel.calls
        · exact ⟨more, hmore, usesOwn_plain hplain⟩
      · exact (houtcome.releases hinv).calls
      · exact (msync_releases hinv hrun).calls
  | store mem => exact ⟨[], by simp, by simp [UsesOwn]⟩

/-- A step gives no reference another descriptor. -/
theorem Step.fref_old {host : State → Nat → Nat → Prop} {st st' : State} {l : Label}
    (h : Step host st l st') (hinv : RefInv st) {f' : FileRef} (hf' : f' ∈ st'.frefs)
    (hold : f'.ptr < st.nextPtr) : ∃ f ∈ st.frefs, f.ptr = f'.ptr ∧ f.fd = f'.fd := by
  cases h with
  | call hexec _ =>
      rcases Call.exec_cases hexec with ⟨_, _, _, _, _, _, _, _, houtcome⟩ |
        ⟨_, _, _, _, _, houtcome⟩ | ⟨_, _, _, _, _, _, hrun⟩
      · rcases houtcome.releases hinv with hrel | ⟨⟨newfd, hfrefs⟩, _⟩
        · exact hrel.old f' hf'
        · rw [hfrefs] at hf'
          rcases List.mem_cons.mp hf' with rfl | hf'
          · exact absurd hold (Nat.lt_irrefl _)
          · exact ⟨f', hf', rfl, rfl⟩
      · exact (houtcome.releases hinv).old f' hf'
      · exact (msync_releases hinv hrun).old f' hf'
  | store mem => exact ⟨f', hf', rfl, rfl⟩

/-- A step keeps a reference or frees it with its last fragment; what frees it
is a `munmap`, if `sbrk` behaves. -/
theorem Step.kept_or_freed {host : State → Nat → Nat → Prop} {st st' : State} {l : Label}
    (h : Step host st l st') (hinv : RefInv st) {f : FileRef} (hf : f ∈ st.frefs) :
    Kept f st' ∨ FreedOnce f st st' ∧
      (PoolInv st → (∀ s base len, host s base len → SbrkOk s base len) →
        ∃ addr length, l = .call (.munmap addr length) (.code 0)) := by
  cases h with
  | call hexec hgrown =>
      rcases Call.exec_cases hexec with ⟨_, _, _, _, _, _, rfl, rfl, houtcome⟩ |
        ⟨addr, length, _, rfl, rfl, houtcome⟩ | ⟨_, _, _, _, rfl, rfl, hrun⟩
      · rcases houtcome.kept_or_freed hinv hf with hkept | hfreed
        · exact Or.inl hkept
        · refine Or.inr ⟨hfreed, fun hpool hhost => ?_⟩
          have hmem := houtcome.kept hpool
            (fun base len hg => hhost _ _ _ (hgrown base len hg)) hf
          exact absurd (List.mem_map.mpr ⟨f, hmem, rfl⟩) hfreed.gone
      · rcases houtcome.kept_or_freed hinv hf with hkept | ⟨hfreed, rfl⟩
        · exact Or.inl hkept
        · exact Or.inr ⟨hfreed, fun _ _ => ⟨addr, length, rfl⟩⟩
      · have hlogs := msync_onlyLogs hrun
        exact Or.inl ⟨f, hlogs.frefs_eq.symm ▸ hf, rfl, rfl⟩
  | store mem => exact Or.inl ⟨f, hf, rfl, rfl⟩

/-- In every state of every run the counts are right, and each step of the run
keeps a reference with its descriptor or frees both, once, with the last
fragment of the mapping. -/
theorem run_refInv {host : State → Nat → Nat → Prop} {labels : List Label} {st : State}
    (hrun : Run (Step host) State.init labels st) :
    RefInv st ∧ ∀ l st', Step host st l st' → ∀ f ∈ st.frefs,
      Kept f st' ∨ FreedOnce f st st' ∧
        ((∀ s base len, host s base len → SbrkOk s base len) →
          ∃ addr length, l = .call (.munmap addr length) (.code 0)) := by
  have hinv := hrun.preserves (fun h hstep => Step.refInv hstep h) init_refInv
  refine ⟨hinv, fun l st' hstep f hf => ?_⟩
  rcases hstep.kept_or_freed hinv hf with hkept | ⟨hfreed, hmunmap⟩
  · exact Or.inl hkept
  · refine Or.inr ⟨hfreed, fun hhost => hmunmap ?_ hhost⟩
    exact run_poolInv (hrun.mono fun h => h.mono hhost)

namespace FileRefWitness

/-- Three shared pages of a file of five bytes. -/
def shared : State :=
  (Call.mmap 0x30000 3 1 5 0).after
    { memoryGrow := some 2, preads := [.ok [1, 2, 3, 4, 5], .ok []], dup := .ok 7 }
    State.init

/-- The same with the middle page unmapped. -/
def shattered : State := (Call.munmap 0x30000 0x10000).after {} shared

def trace : List Label :=
  [.call (.mmap 0x30000 3 1 5 0) (.addr (some 0x20000)),
    .call (.munmap 0x30000 0x10000) (.code 0)]

theorem shared_step : Step SbrkOk State.init
    (.call (.mmap 0x30000 3 1 5 0) (.addr (some 0x20000))) shared :=
  Call.step_of_grown_cons (by decide +kernel)
    (show shared.grown = (0x20000, 0x30000) :: State.init.grown by decide +kernel)
    ⟨by decide, by simp [State.init], by simp [State.init], Or.inl (by simp [State.init])⟩

theorem shattered_run : Run (Step SbrkOk) State.init trace shattered :=
  (Run.single shared_step).snoc (Call.step_of_grown_eq (by decide +kernel) (by decide +kernel))

/-- Both fragments count, and unmapping the last page keeps the descriptor. -/
theorem shattered_refInv : shattered.frefs = [⟨0, 7, 2⟩] ∧ RefInv shattered ∧
    Step SbrkOk shattered (.call (.munmap 0x40000 0x10000) (.code 0))
      ((Call.munmap 0x40000 0x10000).after {} shattered) ∧
    Kept ⟨0, 7, 2⟩ ((Call.munmap 0x40000 0x10000).after {} shattered) := by
  obtain ⟨hinv, hstep⟩ := run_refInv shattered_run
  have hrefs : shattered.frefs = [⟨0, 7, 2⟩] := by decide +kernel
  have hlast : Step SbrkOk shattered (.call (.munmap 0x40000 0x10000) (.code 0))
      ((Call.munmap 0x40000 0x10000).after {} shattered) :=
    Call.step_of_grown_eq (by decide +kernel) (by decide +kernel)
  refine ⟨hrefs, hinv, hlast, ?_⟩
  rcases hstep _ _ hlast ⟨0, 7, 2⟩ (by simp [hrefs]) with hkept | ⟨hfreed, _⟩
  · exact hkept
  · have hused : refCount 0 ((Call.munmap 0x40000 0x10000).after {} shattered).regs = 1 := by
      decide +kernel
    exact absurd (hused.symm.trans hfreed.unused) Nat.one_ne_zero

end FileRefWitness

end Mman

end WasixLibc
