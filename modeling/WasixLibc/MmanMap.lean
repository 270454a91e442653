/-
What `mmap` can do.

`MmapOutcome` has one constructor for each way the call ends; every invariant
of the table is checked against it.
-/
import WasixLibc.MmanAcquire

namespace WasixLibc

namespace Mman

open SpanList ListZipper

/-- The table and the descriptors are untouched. -/
structure SameTable (st st' : State) : Prop where
  regs_eq : st'.regs = st.regs
  frefs_eq : st'.frefs = st.frefs
  nextPtr_eq : st'.nextPtr = st.nextPtr
  openFds_eq : st'.openFds = st.openFds
  grown_eq : st'.grown = st.grown
  dangling_eq : st'.dangling = st.dangling

theorem SameTable.refl (st : State) : SameTable st st := ⟨rfl, rfl, rfl, rfl, rfl, rfl⟩

theorem SameTable.trans {a b c : State} (hab : SameTable a b) (hbc : SameTable b c) :
    SameTable a c where
  regs_eq := hbc.regs_eq.trans hab.regs_eq
  frefs_eq := hbc.frefs_eq.trans hab.frefs_eq
  nextPtr_eq := hbc.nextPtr_eq.trans hab.nextPtr_eq
  openFds_eq := hbc.openFds_eq.trans hab.openFds_eq
  grown_eq := hbc.grown_eq.trans hab.grown_eq
  dangling_eq := hbc.dangling_eq.trans hab.dangling_eq

/-! Filling a file mapping -/

/-- Neither a `pwrite` nor a `close`. -/
def HostCall.Plain : HostCall → Prop
  | .pwrite .. => False
  | .close .. => False
  | _ => True

/-- `st'` records plain calls after those of `st`. -/
def PlainCalls (st st' : State) : Prop :=
  ∃ more, st'.calls = st.calls ++ more ∧ ∀ call ∈ more, call.Plain

theorem PlainCalls.trans {a b c : State} (hab : PlainCalls a b) (hbc : PlainCalls b c) :
    PlainCalls a c := by
  obtain ⟨more, hmore, hplain⟩ := hab
  obtain ⟨rest, hrest, hplain'⟩ := hbc
  refine ⟨more ++ rest, by rw [hrest, hmore, List.append_assoc], ?_⟩
  intro call hcall
  rcases List.mem_append.mp hcall with hcall | hcall
  · exact hplain call hcall
  · exact hplain' call hcall

theorem PlainCalls.of_eq {st st' : State} (h : st'.calls = st.calls) : PlainCalls st st' :=
  ⟨[], by simpa using h, by simp⟩

theorem PlainCalls.single {st st' : State} (call : HostCall)
    (h : st'.calls = st.calls ++ [call]) (hplain : call.Plain) : PlainCalls st st' :=
  ⟨[call], h, by simpa using hplain⟩

/-- `calls` are the calls of a loop that read `bytes` into `body`, from file
offset `off` on, until the file ended or `remaining` bytes were read. -/
inductive PreadTrace (fd : Int) : Nat → Nat → Int → List HostCall → List UInt8 → Prop
  | full {body : Nat} {off : Int} : PreadTrace fd body 0 off [] []
  | eof {body remaining : Nat} {off : Int} :
      PreadTrace fd body (remaining + 1) off
        [.pread fd body (remaining + 1) off (.ok [])] []
  | again {body remaining : Nat} {off : Int} {calls : List HostCall}
      {bytes : List UInt8} : PreadTrace fd body (remaining + 1) off calls bytes →
      PreadTrace fd body (remaining + 1) off
        (.pread fd body (remaining + 1) off (.err .eintr) :: calls) bytes
  | chunk {body remaining : Nat} {off : Int} {part rest : List UInt8}
      {calls : List HostCall} : part ≠ [] → part.length ≤ remaining + 1 →
      PreadTrace fd (body + part.length) (remaining + 1 - part.length)
        (off + part.length) calls rest →
      PreadTrace fd body (remaining + 1) off
        (.pread fd body (remaining + 1) off (.ok part) :: calls) (part ++ rest)

theorem storeBytes_nil (buf : Nat) (st : State) : (storeBytes buf [] st).mem = st.mem := by
  funext a
  simp [storeBytes]

/-- Two stores one after the other. -/
theorem storeBytes_append (buf : Nat) (part rest : List UInt8) (st : State) :
    (storeBytes (buf + part.length) rest (storeBytes buf part st)).mem =
      (storeBytes buf (part ++ rest) st).mem := by
  funext a
  simp only [storeBytes]
  by_cases hlow : buf ≤ a
  · by_cases hhigh : buf + part.length ≤ a
    · have hidx : part.length ≤ a - buf := by omega
      have hsub : a - (buf + part.length) = a - buf - part.length := by omega
      simp [hlow, hhigh, List.getElem?_append_right hidx, hsub,
        List.getElem?_eq_none hidx]
    · have hidx : a - buf < part.length := by omega
      simp [hlow, hhigh, List.getElem?_append_left hidx]
  · have hhigh : ¬ buf + part.length ≤ a := by omega
    simp [hlow, hhigh]

theorem storeBytes_congr {buf : Nat} {bytes : List UInt8} {st st' : State}
    (h : st'.mem = st.mem) :
    (storeBytes buf bytes st').mem = (storeBytes buf bytes st).mem := by
  simp only [storeBytes, h]

/-- A store of at most `len` bytes changes nothing else. -/
theorem storeBytes_frame {buf len x : Nat} {bytes : List UInt8} {st : State}
    (hlen : bytes.length ≤ len) (hx : ¬ (buf ≤ x ∧ x < buf + len)) :
    (storeBytes buf bytes st).mem x = st.mem x := by
  simp only [storeBytes]
  by_cases hlow : buf ≤ x
  · have hidx : bytes.length ≤ x - buf := by omega
    simp [hlow, List.getElem?_eq_none hidx]
  · simp [hlow]

/-- The loop of `mmap` that reads the file. -/
theorem preadLoop_spec {fd : Int} {ans : PreadAnswers} {body remaining total : Nat}
    {off : Int} {st st' : State} {res : Option Nat}
    (h : preadLoop fd ans body remaining off total st = .ok (res, st')) :
    ∃ calls bytes, st'.calls = st.calls ++ calls ∧ (∀ call ∈ calls, call.Plain) ∧
      SameTable st st' ∧ bytes.length ≤ remaining ∧
      st'.mem = (storeBytes body bytes st).mem ∧
      ∀ n, res = some n →
        n = total + bytes.length ∧ PreadTrace fd body remaining off calls bytes := by
  fun_induction preadLoop fd ans body remaining off total st with
  | case1 ans body off total st =>
      simp only [Except.ok.injEq, Prod.mk.injEq] at h
      obtain ⟨rfl, rfl⟩ := h
      refine ⟨[], [], by simp, by simp, SameTable.refl st, Nat.le_refl _,
        (storeBytes_nil body st).symm, ?_⟩
      intro n hn
      exact ⟨(Option.some.inj hn).symm, .full⟩
  | case2 => cases h
  | case3 ans body remaining off total st st₁ ih =>
      obtain ⟨calls, bytes, hcalls, hplain, htable, hlen, hmem, hres⟩ := ih h
      have hstep : SameTable st st₁ := ⟨rfl, rfl, rfl, rfl, rfl, rfl⟩
      refine ⟨.pread fd body (remaining + 1) off (.err .eintr) :: calls, bytes, ?_,
        List.forall_mem_cons.mpr ⟨trivial, hplain⟩, hstep.trans htable, hlen,
        hmem.trans (storeBytes_congr rfl), ?_⟩
      · rw [hcalls]
        simp only [st₁, State.record, State.setErrno, List.append_assoc,
          List.singleton_append]
      · intro n hn
        obtain ⟨hcount, htrace⟩ := hres n hn
        exact ⟨hcount, .again htrace⟩
  | case4 e ans body remaining off total st st₁ =>
      simp only [Except.ok.injEq, Prod.mk.injEq] at h
      obtain ⟨rfl, rfl⟩ := h
      refine ⟨[.pread fd body (remaining + 1) off (.err e)], [], rfl,
        by simp [HostCall.Plain], ⟨rfl, rfl, rfl, rfl, rfl, rfl⟩, Nat.zero_le _,
        (storeBytes_nil body st).symm, ?_⟩
      intro n hn
      cases hn
  | case5 answer ans body remaining off total st part n st₁ hempty =>
      simp only [Except.ok.injEq, Prod.mk.injEq] at h
      obtain ⟨rfl, rfl⟩ := h
      have hpart : part = [] := List.length_eq_zero_iff.mp hempty
      refine ⟨[.pread fd body (remaining + 1) off (.ok [])], [], ?_,
        by simp [HostCall.Plain], ⟨rfl, rfl, rfl, rfl, rfl, rfl⟩, Nat.zero_le _, ?_, ?_⟩
      · simp only [st₁, storeBytes, State.record, hpart]
      · simp only [st₁, hpart]
        exact storeBytes_congr rfl
      · intro n' hn
        exact ⟨(Option.some.inj hn).symm, .eof⟩
  | case6 answer ans body remaining off total st part n st₁ hsome ih =>
      obtain ⟨calls, bytes, hcalls, hplain, htable, hlen, hmem, hres⟩ := ih h
      have hstep : SameTable st st₁ := ⟨rfl, rfl, rfl, rfl, rfl, rfl⟩
      have hpart : part.length ≤ remaining + 1 := List.length_take_le _ _
      have hne : part ≠ [] := fun hnil => hsome (by simp only [n, hnil, List.length_nil])
      refine ⟨.pread fd body (remaining + 1) off (.ok part) :: calls, part ++ bytes, ?_,
        List.forall_mem_cons.mpr ⟨trivial, hplain⟩, hstep.trans htable, ?_, ?_, ?_⟩
      · rw [hcalls]
        simp only [st₁, storeBytes, State.record, List.append_assoc,
          List.singleton_append]
      · rw [List.length_append]
        omega
      · rw [hmem]
        exact storeBytes_append body part bytes _
      · intro n' hn
        obtain ⟨hcount, htrace⟩ := hres n' hn
        refine ⟨?_, .chunk hne hpart htrace⟩
        rw [hcount, List.length_append]
        omega

/-! The outcomes -/

def Acquired (st st' : State) (idx : Nat) (live : Region) : Prop :=
  Reused st st' idx live ∨ Grown st st' idx live

/-- The loop read `bytes` into the `len` bytes at `base`. -/
structure Filled (fd : Int) (base len : Nat) (offset : Int) (bytes : List UInt8)
    (st st' : State) : Prop where
  table : SameTable st st'
  length_le : bytes.length ≤ len
  mem_eq : st'.mem = (storeBytes base bytes st).mem
  trace : ∃ calls, st'.calls = st.calls ++ calls ∧
    PreadTrace fd base len offset calls bytes ∧ ∀ call ∈ calls, call.Plain

/-- Shared writable mappings are the ones that keep a `file_ref`. -/
def keepsRef (prot flags : BitVec 32) : Prop :=
  flags &&& MAP_SHARED ≠ 0 ∧ prot &&& PROT_WRITE ≠ 0

/-- The ways `mmap` ends. -/
inductive MmapOutcome (length prot flags : BitVec 32) (fd offset : Int) (st : State) :
    Option Nat → State → Prop
  | refused {st' : State} : SameTable st st' → st'.mem = st.mem → PlainCalls st st' →
      MmapOutcome length prot flags fd offset st none st'
  | anonymous {st' : State} {base idx : Nat} :
      mmapCheck length prot flags fd offset = none → flags &&& MAP_ANON ≠ 0 →
      Acquired st st' idx (liveRegion base (pageCeil length.toNat) .rAnon prot flags) →
      MmapOutcome length prot flags fd offset st (some base) st'
  | file {st₁ st₂ : State} {base idx : Nat} {bytes : List UInt8} :
      mmapCheck length prot flags fd offset = none → flags &&& MAP_ANON = 0 →
      Acquired st st₁ idx (liveRegion base (pageCeil length.toNat) .rFile prot flags) →
      Filled fd base (pageCeil length.toNat) offset bytes st₁ st₂ →
      ¬ keepsRef prot flags →
      MmapOutcome length prot flags fd offset st (some base)
        (updateAt idx (Region.backedBy offset bytes.length) st₂)
  | shared {st₁ st₂ : State} {base idx newfd : Nat} {bytes : List UInt8} :
      mmapCheck length prot flags fd offset = none → flags &&& MAP_ANON = 0 →
      Acquired st st₁ idx (liveRegion base (pageCeil length.toNat) .rFile prot flags) →
      Filled fd base (pageCeil length.toNat) offset bytes st₁ st₂ →
      keepsRef prot flags →
      MmapOutcome length prot flags fd offset st (some base)
        (updateAt idx (fun r => { r with fref := some st₂.nextPtr })
          (addRef newfd ((updateAt idx (Region.backedBy offset bytes.length) st₂).record
            (.dup fd (.ok newfd)))))
  | undone {st₁ st₂ st₃ st' : State} {base idx n : Nat} {off : Int}
      {ans : PwriteAnswers} {e : Errno} :
      mmapCheck length prot flags fd offset = none →
      Acquired st st₁ idx (liveRegion base (pageCeil length.toNat) .rFile prot flags) →
      n ≤ pageCeil length.toNat → SameTable (updateAt idx (Region.backedBy off n) st₁) st₂ →
      (∀ x, ¬ Holds Region.base Region.limit
        (liveRegion base (pageCeil length.toNat) .rFile prot flags) x →
        st₂.mem x = st₁.mem x) →
      PlainCalls st₁ st₂ →
      unmapRange base (wrap (base + pageCeil length.toNat)) ans st₂ = .ok st₃ →
      st' = st₃.setErrno e →
      MmapOutcome length prot flags fd offset st none st'

/-- A failure exit of `mmap`, taken from the state `st₁` in which the new region was
entered at index `idx`: whatever part of it is filled, its range is unmapped. -/
inductive Undone (idx base len : Nat) (st₁ : State) : State → Prop
  | intro {st₂ st₃ : State} {n : Nat} {off : Int} {ans : PwriteAnswers} {e : Errno} :
      n ≤ len → SameTable (updateAt idx (Region.backedBy off n) st₁) st₂ →
      (∀ x, ¬ (base ≤ x ∧ x < base + len) → st₂.mem x = st₁.mem x) →
      PlainCalls st₁ st₂ → unmapRange base (wrap (base + len)) ans st₂ = .ok st₃ →
      Undone idx base len st₁ (st₃.setErrno e)

theorem Undone.outcome {length prot flags : BitVec 32} {fd offset : Int}
    {st st₁ st' : State} {idx base : Nat}
    (h : Undone idx base (pageCeil length.toNat) st₁ st')
    (hcheck : mmapCheck length prot flags fd offset = none)
    (hacq : Acquired st st₁ idx
      (liveRegion base (pageCeil length.toNat) .rFile prot flags)) :
    MmapOutcome length prot flags fd offset st none st' := by
  obtain ⟨hn, htable, hframe, hplain, hrun⟩ := h
  exact .undone hcheck hacq hn htable hframe hplain hrun rfl

theorem Acquired.table {st st' : State} {idx : Nat} {live : Region}
    (h : Acquired st st' idx live) :
    ∃ pre rest, st'.regs = pre ++ live :: rest ∧ idx = pre.length := by
  rcases h with h | h
  · obtain ⟨pre, _, left, post, _, hregs, hidx, _⟩ := h.table
    exact ⟨pre, left ++ post, hregs, hidx⟩
  · obtain ⟨pre, post, _, hregs, hidx, _⟩ := h.table
    exact ⟨pre, post, hregs, hidx⟩

theorem Acquired.placed {st st' : State} {idx : Nat} {live : Region}
    (h : Acquired st st' idx live) : Placed st st' live := by
  rcases h with h | h
  · exact h.toPlaced
  · exact h.toPlaced

theorem Acquired.plainCalls {st st' : State} {idx : Nat} {live : Region}
    (h : Acquired st st' idx live) : PlainCalls st st' := by
  rcases h with h | h
  · exact .of_eq h.calls_eq
  · exact .single _ h.calls_eq trivial

/-- The read address of the new region. -/
theorem Acquired.base_eq {st st' : State} {idx : Nat} {live : Region}
    (h : Acquired st st' idx live) :
    ((st'.regs[idx]?).map Region.base).getD 0 = live.base := by
  obtain ⟨pre, rest, hregs, rfl⟩ := h.table
  rw [hregs, getElem?_boundary]
  rfl

theorem Filled.mem_frame {fd : Int} {base len : Nat} {offset : Int} {bytes : List UInt8}
    {st st' : State} (h : Filled fd base len offset bytes st st') {x : Nat}
    (hx : ¬ (base ≤ x ∧ x < base + len)) : st'.mem x = st.mem x := by
  rw [h.mem_eq]
  exact storeBytes_frame h.length_le hx

theorem Filled.plainCalls {fd : Int} {base len : Nat} {offset : Int}
    {bytes : List UInt8} {st st' : State}
    (h : Filled fd base len offset bytes st st') : PlainCalls st st' := by
  obtain ⟨calls, hcalls, _, hplain⟩ := h.trace
  exact ⟨calls, hcalls, hplain⟩

theorem pageCeil_dvd (n : Nat) : PAGE ∣ pageCeil n := Nat.dvd_mul_left _ _

theorem pageCeil_lt (n : Nat) : pageCeil n < 4294967296 := by
  have hlt : wrap (PAGE - 1 + n) < 4294967296 := Nat.mod_lt _ (by decide)
  exact Nat.lt_of_le_of_lt (Nat.div_mul_le_self _ _) hlt

/-- What the checks of `mmap` let through. -/
theorem mmapCheck_none {length prot flags : BitVec 32} {fd offset : Int}
    (h : mmapCheck length prot flags fd offset = none) :
    0 < length.toNat ∧ length.toNat ≤ pageCeil length.toNat ∧
      (flags &&& MAP_ANON = 0 → 0 ≤ fd ∧ 0 ≤ offset ∧ offset % PAGE = 0) := by
  unfold mmapCheck at h
  split at h
  · cases h
  split at h
  · cases h
  split at h
  · cases h
  rename_i hzero
  split at h
  · cases h
  split at h
  · cases h
  rename_i hfd
  split at h
  · cases h
  rename_i hoff
  split at h
  · cases h
  rename_i hceil
  refine ⟨?_, Nat.le_of_not_lt hceil, fun hfile => ?_⟩
  · apply Nat.pos_of_ne_zero
    intro hnat
    exact hzero (BitVec.eq_of_toNat_eq (by simpa using hnat))
  · have hneg : ¬ fd < 0 := fun hlt => hfd ⟨hfile, hlt⟩
    have hoff' : ¬ (offset < 0 ∨ offset % PAGE ≠ 0) := fun hbad => hoff ⟨hfile, hbad⟩
    rw [not_or, not_not] at hoff'
    exact ⟨Int.le_of_not_gt hneg, Int.le_of_not_gt hoff'.1, hoff'.2⟩

theorem pageCeil_pos_of_check {length prot flags : BitVec 32} {fd offset : Int}
    (h : mmapCheck length prot flags fd offset = none) : 0 < pageCeil length.toNat :=
  Nat.lt_of_lt_of_le (mmapCheck_none h).1 (mmapCheck_none h).2.1

theorem undoMap_eq_ok {base len : Nat} {saved : Errno} {pwrites : PwriteAnswers}
    {st st' : State} {ret : Option Nat}
    (h : undoMap base len saved pwrites st = .ok (ret, st')) :
    ∃ st₁, unmapRange base (wrap (base + len)) pwrites st = .ok st₁ ∧ ret = none ∧
      st' = st₁.setErrno saved := by
  obtain ⟨st₁, hrun, hrest⟩ := bind_eq_ok h
  simp only [Except.ok.injEq, Prod.mk.injEq] at hrest
  exact ⟨st₁, hrun, hrest.1.symm, hrest.2.symm⟩

theorem updateAt_sameTable (idx : Nat) (f : Region → Region) {st st' : State}
    (h : SameTable st st') : SameTable (updateAt idx f st) (updateAt idx f st') :=
  ⟨congrArg (List.modify · idx f) h.regs_eq, h.frefs_eq, h.nextPtr_eq, h.openFds_eq,
    h.grown_eq, h.dangling_eq⟩

/-- A region that was just acquired has nothing behind it yet. -/
theorem Acquired.updateAt_zero {st st' : State} {idx base len : Nat} {kind : Kind}
    {prot flags : BitVec 32}
    (h : Acquired st st' idx (liveRegion base len kind prot flags)) :
    updateAt idx (Region.backedBy 0 0) st' = st' := by
  obtain ⟨pre, rest, hregs, rfl⟩ := h.table
  have hsame : st'.regs.modify pre.length (Region.backedBy 0 0) = st'.regs := by
    rw [hregs, modify_boundary]
    rfl
  unfold updateAt
  rw [hsame]

theorem preadLoop_filled {fd : Int} {ans : PreadAnswers} {base len n : Nat}
    {offset : Int} {st st' : State}
    (h : preadLoop fd ans base len offset 0 st = .ok (some n, st')) :
    ∃ bytes, n = bytes.length ∧ Filled fd base len offset bytes st st' := by
  obtain ⟨calls, bytes, hcalls, hplain, htable, hlen, hmem, hres⟩ := preadLoop_spec h
  obtain ⟨hcount, htrace⟩ := hres n rfl
  exact ⟨bytes, by simpa using hcount, htable, hlen, hmem, calls, hcalls, htrace, hplain⟩

section

variable {idx base : Nat} {length prot flags : BitVec 32} {fd offset : Int}
variable {ans : Answers} {st st₁ st₂ st' : State} {ret : Option Nat}

theorem setErrno_sameTable (e : Errno) (st : State) : SameTable st (st.setErrno e) :=
  ⟨rfl, rfl, rfl, rfl, rfl, rfl⟩

theorem record_sameTable (call : HostCall) (st : State) : SameTable st (st.record call) :=
  ⟨rfl, rfl, rfl, rfl, rfl, rfl⟩

theorem capregs_sameTable (cap : Nat) (st : State) :
    SameTable st { st with capregs := cap } :=
  ⟨rfl, rfl, rfl, rfl, rfl, rfl⟩

theorem dupFailed_sameTable (fd : Int) (e : Errno) (st : State) :
    SameTable st ((st.record (.dup fd (.err e))).setErrno e) :=
  ⟨rfl, rfl, rfl, rfl, rfl, rfl⟩

theorem attachRef_cases {bytes : List UInt8}
    (hfill : Filled fd base (pageCeil length.toNat) offset bytes st₁ st₂)
    (h : attachRef idx base (pageCeil length.toNat) fd ans
      (updateAt idx (Region.backedBy offset bytes.length) st₂) = .ok (ret, st')) :
    (ret = none ∧ Undone idx base (pageCeil length.toNat) st₁ st') ∨
      ∃ newfd, ret = some base ∧
        st' = updateAt idx (fun r => { r with fref := some st₂.nextPtr })
          (addRef newfd ((updateAt idx (Region.backedBy offset bytes.length) st₂).record
            (.dup fd (.ok newfd)))) := by
  have htable := updateAt_sameTable idx (Region.backedBy offset bytes.length) hfill.table
  unfold attachRef at h
  split at h
  · split at h
    · rename_i e _
      obtain ⟨st₃, hrun, rfl, rfl⟩ := undoMap_eq_ok h
      have hsame := htable.trans (dupFailed_sameTable fd e _)
      refine Or.inl ⟨rfl, .intro hfill.length_le hsame (fun x => hfill.mem_frame) ?_ hrun⟩
      exact hfill.plainCalls.trans (.single (.dup fd (.err e)) rfl trivial)
    · rename_i newfd _
      simp only [Except.ok.injEq, Prod.mk.injEq] at h
      obtain ⟨rfl, rfl⟩ := h
      exact Or.inr ⟨newfd, rfl, rfl⟩
  · obtain ⟨st₃, hrun, rfl, rfl⟩ := undoMap_eq_ok h
    have hsame := htable.trans (setErrno_sameTable .enomem _)
    refine Or.inl ⟨rfl, .intro hfill.length_le hsame (fun x => hfill.mem_frame) ?_ hrun⟩
    exact hfill.plainCalls.trans (.of_eq rfl)

theorem populate_outcome
    (hcheck : mmapCheck length prot flags fd offset = none)
    (hanon : flags &&& MAP_ANON = 0)
    (hacq : Acquired st st₁ idx
      (liveRegion base (pageCeil length.toNat) .rFile prot flags))
    (h : populate idx base (pageCeil length.toNat) prot flags fd offset ans st₁ =
      .ok (ret, st')) :
    (ret = none ∧ Undone idx base (pageCeil length.toNat) st₁ st') ∨
      ret = some base ∧ MmapOutcome length prot flags fd offset st ret st' := by
  obtain ⟨⟨total, st₂⟩, hread, hrest⟩ := bind_eq_ok h
  cases total with
  | none =>
      obtain ⟨calls, bytes, hcalls, hplain, htable, hlen, hmem, _⟩ := preadLoop_spec hread
      obtain ⟨st₃, hrun, rfl, rfl⟩ := undoMap_eq_ok hrest
      have hsame : SameTable (updateAt idx (Region.backedBy 0 0) st₁) st₂ := by
        rw [hacq.updateAt_zero]
        exact htable
      refine Or.inl ⟨rfl, .intro (Nat.zero_le _) hsame ?_ ⟨calls, hcalls, hplain⟩ hrun⟩
      · intro x hx
        rw [hmem]
        exact storeBytes_frame hlen hx
  | some total =>
      obtain ⟨bytes, rfl, hfill⟩ := preadLoop_filled hread
      dsimp only at hrest
      split at hrest
      · rename_i hkeeps
        rcases attachRef_cases hfill hrest with hundone | ⟨newfd, rfl, rfl⟩
        · exact Or.inl hundone
        · exact Or.inr ⟨rfl, .shared hcheck hanon hacq hfill hkeeps⟩
      · rename_i hkeeps
        simp only [Except.ok.injEq, Prod.mk.injEq] at hrest
        obtain ⟨rfl, rfl⟩ := hrest
        exact Or.inr ⟨rfl, .file hcheck hanon hacq hfill hkeeps⟩

/-- `reserve` only changes the capacity. -/
theorem reserve_spec {extra : Nat} {realloc done : Bool}
    (h : reserve extra realloc st = (done, st')) :
    ∃ cap, st' = { st with capregs := cap } := by
  by_cases hfit : st.regs.length + extra ≤ st.capregs
  · simp only [reserve, hfit, ↓reduceIte] at h
    exact ⟨st.capregs, (Prod.mk.inj h).2.symm⟩
  · simp only [reserve, hfit, ↓reduceIte] at h
    cases realloc with
    | true => exact ⟨_, (Prod.mk.inj h).2.symm⟩
    | false => exact ⟨st.capregs, (Prod.mk.inj h).2.symm⟩

/-! A capacity change is invisible to what is acquired after it. -/

theorem Reused.of_capregs {cap : Nat} {live : Region}
    (h : Reused { st with capregs := cap } st' idx live) : Reused st st' idx live :=
  ⟨⟨h.frefs_eq, h.nextPtr_eq, h.openFds_eq, h.dangling_eq, h.mem_frame⟩,
    h.table, h.grown_eq, h.calls_eq, h.zero⟩

theorem Grown.of_capregs {cap : Nat} {live : Region}
    (h : Grown { st with capregs := cap } st' idx live) : Grown st st' idx live :=
  ⟨⟨h.frefs_eq, h.nextPtr_eq, h.openFds_eq, h.dangling_eq, h.mem_frame⟩,
    h.table, h.grown_eq, h.calls_eq, h.mem_eq, h.base_dvd⟩

theorem Acquired.of_capregs {cap : Nat} {live : Region}
    (h : Acquired { st with capregs := cap } st' idx live) : Acquired st st' idx live :=
  h.imp Reused.of_capregs Grown.of_capregs

/-- Every way `mmap` ends is one of the outcomes. -/
theorem mmap_outcome
    (h : mmap length prot flags fd offset ans st = .ok (ret, st')) :
    MmapOutcome length prot flags fd offset st ret st' := by
  unfold mmap at h
  split at h
  · simp only [Except.ok.injEq, Prod.mk.injEq] at h
    obtain ⟨rfl, rfl⟩ := h
    exact .refused ⟨rfl, rfl, rfl, rfl, rfl, rfl⟩ rfl (.of_eq rfl)
  · rename_i hcheck
    obtain ⟨hpos, hceil, _⟩ := mmapCheck_none hcheck
    have hlen := pageCeil_lt length.toNat
    dsimp only at h
    split at h
    · rename_i hreserve
      obtain ⟨cap, rfl⟩ := reserve_spec hreserve
      simp only [Except.ok.injEq, Prod.mk.injEq] at h
      obtain ⟨rfl, rfl⟩ := h
      exact .refused ⟨rfl, rfl, rfl, rfl, rfl, rfl⟩ rfl (.of_eq rfl)
    · rename_i hreserve
      obtain ⟨cap, rfl⟩ := reserve_spec hreserve
      obtain ⟨⟨idx, st₁⟩, hacquire, hrest⟩ := bind_eq_ok h
      cases idx with
      | none =>
          obtain ⟨hlogs, hdangling, hcalls⟩ :=
            acquirePages_none (Nat.lt_of_lt_of_le hpos hceil) hlen hacquire
          simp only [Except.ok.injEq, Prod.mk.injEq] at hrest
          obtain ⟨rfl, rfl⟩ := hrest
          refine .refused ?_ hlogs.mem_eq (.single _ hcalls trivial)
          exact ⟨hlogs.regs_eq, hlogs.frefs_eq, hlogs.nextPtr_eq, hlogs.openFds_eq,
            hlogs.grown_eq, hdangling⟩
      | some idx =>
          obtain ⟨base, hacq⟩ :=
            acquirePages_spec (Nat.lt_of_lt_of_le hpos hceil) hlen hacquire
          have hacq' := Acquired.of_capregs hacq
          have hbase := hacq'.base_eq
          dsimp only at hrest
          rw [hbase] at hrest
          by_cases hanon : flags &&& MAP_ANON = 0
          · simp only [hanon, ne_eq, not_true_eq_false, decide_false, Bool.false_eq_true,
              ↓reduceIte] at hrest hacq'
            rcases populate_outcome hcheck hanon hacq' hrest with ⟨rfl, hundone⟩ | ⟨_, houtcome⟩
            · exact hundone.outcome hcheck hacq'
            · exact houtcome
          · simp only [hanon, ne_eq, not_false_eq_true, decide_true, ↓reduceIte,
              Except.ok.injEq, Prod.mk.injEq] at hrest hacq'
            obtain ⟨rfl, rfl⟩ := hrest
            exact .anonymous hcheck hanon hacq'

end

/-! The table after an outcome -/

theorem liveRegion_ok {base len : Nat} {kind : Kind} {prot flags : BitVec 32}
    (hkind : kind ≠ .rFree) (hbase : PAGE ∣ base) (hlen : PAGE ∣ len) (hpos : 0 < len)
    (hlimit : base + len ≤ 4294967296) : (liveRegion base len kind prot flags).Ok :=
  ⟨hbase, hlen, hpos, hlimit, fun hfree => absurd hfree hkind,
    fun _ => rfl, fun _ => Nat.zero_le _⟩

/-- A region that was acquired is well formed and leaves the table so. -/
theorem Acquired.tableOk {st st' : State} {idx base len : Nat} {kind : Kind}
    {prot flags : BitVec 32}
    (h : Acquired st st' idx (liveRegion base len kind prot flags))
    (hok : TableOk st.regs) (hkind : kind ≠ .rFree) (hlen : PAGE ∣ len) (hpos : 0 < len)
    (hfits : st'.grown = (base, len) :: st.grown → Fits base len st.regs) :
    (liveRegion base len kind prot flags).Ok ∧ TableOk st'.regs := by
  rcases h with h | h
  · have hlive : (liveRegion base len kind prot flags).Ok := by
      obtain ⟨pre, r, left, post, hregs, _, _, hfront⟩ := h.table
      have hr := hok.regions r (by rw [hregs]; simp)
      have hrlimit := hr.limit_le
      unfold Region.limit at hrlimit
      cases hfront with
      | whole _ hbase hsame =>
          simp only [liveRegion] at hbase hsame
          exact liveRegion_ok hkind (hbase ▸ hr.base_dvd) hlen hpos (by omega)
      | rest _ hbase hlt =>
          simp only [liveRegion] at hbase hlt
          exact liveRegion_ok hkind (hbase ▸ hr.base_dvd) hlen hpos (by omega)
    exact ⟨hlive, (h.refines hok hlive).2⟩
  · have hfit := hfits h.grown_eq
    have hlive : (liveRegion base len kind prot flags).Ok :=
      liveRegion_ok hkind h.base_dvd hlen hpos hfit.limit_le
    exact ⟨hlive, h.tableOk hok hlive hfit⟩

/-- `live` became `live'` in place: what is known once the file is read. -/
structure Installed (st st' : State) (idx : Nat) (live live' : Region) : Prop where
  table : ∃ pre rest, st.regs = pre ++ live :: rest ∧ st'.regs = pre ++ live' :: rest ∧
    idx = pre.length
  grown_eq : st'.grown = st.grown
  base_eq : live'.base = live.base
  len_eq : live'.len = live.len
  kind_eq : live'.kind = live.kind
  data_le : live'.dataLen ≤ live'.len

theorem Acquired.installed_refl {st st' : State} {idx base len : Nat} {kind : Kind}
    {prot flags : BitVec 32}
    (h : Acquired st st' idx (liveRegion base len kind prot flags)) :
    Installed st' st' idx (liveRegion base len kind prot flags)
      (liveRegion base len kind prot flags) := by
  obtain ⟨pre, rest, hregs, hidx⟩ := h.table
  exact ⟨⟨pre, rest, hregs, hregs, hidx⟩, rfl, rfl, rfl, rfl, Nat.zero_le _⟩

theorem Acquired.installed_backedBy {st st₁ st₂ : State} {idx base len n : Nat}
    {kind : Kind} {prot flags : BitVec 32} {off : Int}
    (h : Acquired st st₁ idx (liveRegion base len kind prot flags)) (hn : n ≤ len)
    (htable : SameTable (updateAt idx (Region.backedBy off n) st₁) st₂) :
    Installed st₁ st₂ idx (liveRegion base len kind prot flags)
      ((liveRegion base len kind prot flags).backedBy off n) := by
  obtain ⟨pre, rest, hregs, hidx⟩ := h.table
  refine ⟨⟨pre, rest, hregs, ?_, hidx⟩, htable.grown_eq, rfl, rfl, rfl, hn⟩
  rw [htable.regs_eq]
  simp only [updateAt, hregs, hidx, modify_boundary]

theorem Installed.fref {st st₁ st₂ : State} {idx : Nat} {live live' : Region}
    (h : Installed st st₁ idx live live') (ptr : Option Nat) (hgrown : st₂.grown = st₁.grown)
    (hregs : st₂.regs = st₁.regs.modify idx fun r => { r with fref := ptr }) :
    Installed st st₂ idx live { live' with fref := ptr } := by
  obtain ⟨pre, rest, hold, hnew, hidx⟩ := h.table
  refine ⟨⟨pre, rest, hold, ?_, hidx⟩, hgrown.trans h.grown_eq, h.base_eq, h.len_eq,
    h.kind_eq, h.data_le⟩
  rw [hregs, hnew, hidx, modify_boundary]

/-- One region is replaced by another one over the same addresses. -/
theorem TableOk.replace {pre rest : List Region} {r r' : Region}
    (hok : TableOk (pre ++ r :: rest)) (hr' : r'.Ok) (hbase : r'.base = r.base)
    (hlimit : r'.limit = r.limit) :
    Refines (pre ++ r :: rest) (pre ++ r' :: rest) ∧ TableOk (pre ++ r' :: rest) := by
  have htile : Tiles Region.base Region.limit r.base [r'] r.limit :=
    ⟨hbase, hlimit ▸ hok.base_pos r (by simp), hlimit⟩
  have hfine : Refines (pre ++ r :: rest) (pre ++ r' :: rest) :=
    (Subdivides.refl_of_pos hok.append_left.base_pos).append
      (.cons htile (Subdivides.refl_of_pos hok.append_right.tail.base_pos))
  refine ⟨hfine, hfine.ordered hok.ordered, ?_⟩
  intro q hq
  rcases List.mem_append.mp hq with hq | hq
  · exact hok.append_left.regions q hq
  · rcases List.mem_cons.mp hq with rfl | hq
    · exact hr'
    · exact hok.append_right.tail.regions q hq

/-- The table is as well formed with the final region as with the first. -/
theorem Installed.tableOk {st st' : State} {idx : Nat} {live live' : Region}
    (h : Installed st st' idx live live') (hok : TableOk st.regs)
    (hlive : live.kind ≠ .rFree) :
    Refines st.regs st'.regs ∧ TableOk st'.regs ∧ TouchOld st.regs st'.regs := by
  obtain ⟨pre, rest, hregs, hregs', _⟩ := h.table
  have hliveok := hok.regions live (by rw [hregs]; simp)
  have hlimit : live'.limit = live.limit := by
    simp only [Region.limit, h.base_eq, h.len_eq]
  have hliveok' : live'.Ok :=
    ⟨h.base_eq ▸ hliveok.base_dvd, h.len_eq ▸ hliveok.len_dvd, h.len_eq ▸ hliveok.len_pos,
      hlimit ▸ hliveok.limit_le, fun hfree => absurd (h.kind_eq ▸ hfree) hlive,
      fun hfree => absurd (h.kind_eq ▸ hfree) hlive, fun _ => h.data_le⟩
  obtain ⟨hfine, hok'⟩ := (hregs ▸ hok).replace hliveok' h.base_eq hlimit
  rw [hregs, hregs']
  refine ⟨hfine, hok', ?_⟩
  have hfree : ∀ q ∈ pre ++ live' :: rest, q.kind = .rFree → q ∈ pre ++ live :: rest := by
    intro q hq hqfree
    simp only [List.mem_append, List.mem_cons] at hq ⊢
    rcases hq with hq | rfl | hq
    · exact Or.inl hq
    · exact absurd (h.kind_eq ▸ hqfree) hlive
    · exact Or.inr (Or.inr hq)
  intro a ha b hb htouch
  exact ⟨a, hfree a ha htouch.1, b, hfree b hb htouch.2.1, htouch, Nat.le_refl _⟩

/-- The call put a new region at `base` into the table. -/
def NewRegion (length prot flags : BitVec 32) (st st' : State) (base : Nat) : Prop :=
  0 < pageCeil length.toNat ∧ ∃ st₁ idx kind live', kind ≠ .rFree ∧
    Acquired st st₁ idx (liveRegion base (pageCeil length.toNat) kind prot flags) ∧
    Installed st₁ st' idx (liveRegion base (pageCeil length.toNat) kind prot flags) live'

/-- The region of a file is new whatever part of it the file backs. -/
theorem Acquired.newRegion_backedBy {length prot flags : BitVec 32} {st st₁ st₂ : State}
    {idx base n : Nat} {off : Int}
    (h : Acquired st st₁ idx (liveRegion base (pageCeil length.toNat) .rFile prot flags))
    (hpos : 0 < pageCeil length.toNat) (hn : n ≤ pageCeil length.toNat)
    (htable : SameTable (updateAt idx (Region.backedBy off n) st₁) st₂) :
    NewRegion length prot flags st st₂ base :=
  ⟨hpos, st₁, idx, .rFile, _, by decide, h, h.installed_backedBy hn htable⟩

/-- As far as the table goes, a call fails early, enters a region, or enters a
region and unmaps it again. -/
theorem MmapOutcome.table_cases {length prot flags : BitVec 32} {fd offset : Int}
    {st st' : State} {ret : Option Nat}
    (h : MmapOutcome length prot flags fd offset st ret st') :
    (ret = none ∧ SameTable st st') ∨
      (∃ base, ret = some base ∧ NewRegion length prot flags st st' base) ∨
      ∃ base st₂ ans st₃ e, ret = none ∧ NewRegion length prot flags st st₂ base ∧
        unmapRange base (wrap (base + pageCeil length.toNat)) ans st₂ = .ok st₃ ∧
        st' = st₃.setErrno e := by
  cases h with
  | refused htable _ _ => exact Or.inl ⟨rfl, htable⟩
  | anonymous hcheck _ hacq =>
      refine Or.inr (Or.inl ⟨_, rfl, pageCeil_pos_of_check hcheck, _, _, _, _, ?_, hacq,
        hacq.installed_refl⟩)
      decide
  | file hcheck _ hacq hfill _ =>
      exact Or.inr (Or.inl ⟨_, rfl, hacq.newRegion_backedBy (pageCeil_pos_of_check hcheck)
        hfill.length_le (updateAt_sameTable _ _ hfill.table)⟩)
  | shared hcheck _ hacq hfill _ =>
      have hinstalled := hacq.installed_backedBy hfill.length_le
        (updateAt_sameTable _ (Region.backedBy offset _) hfill.table)
      refine Or.inr (Or.inl ⟨_, rfl, pageCeil_pos_of_check hcheck, _, _, _, _, ?_, hacq,
        hinstalled.fref _ rfl rfl⟩)
      decide
  | undone hcheck hacq hn htable _ _ hrun heq =>
      have hnew := hacq.newRegion_backedBy (pageCeil_pos_of_check hcheck) hn htable
      exact Or.inr (Or.inr ⟨_, _, _, _, _, rfl, hnew, hrun, heq⟩)

/-- What a new region `[base, base + len)` does to the table. -/
structure Entered (st st' : State) (base len : Nat) : Prop where
  tableOk : TableOk st'.regs
  base_dvd : PAGE ∣ base
  limit_le : base + len ≤ 4294967296
  covered : ∀ x, Covered st'.regs x ↔ (base ≤ x ∧ x < base + len) ∨ Covered st.regs x
  touchOld : TouchOld st.regs st'.regs
  growth : (st'.grown = st.grown ∧
      ∀ x, base ≤ x → x < base + len → Covered st.regs x) ∨
    st'.grown = (base, len) :: st.grown

theorem NewRegion.entered {length prot flags : BitVec 32} {st st' : State} {base : Nat}
    (h : NewRegion length prot flags st st' base) (hok : TableOk st.regs)
    (hfits : st'.grown = (base, pageCeil length.toNat) :: st.grown →
      Fits base (pageCeil length.toNat) st.regs) :
    Entered st st' base (pageCeil length.toNat) := by
  obtain ⟨hpos, st₁, idx, kind, live', hkind, hacq, hinstalled⟩ := h
  have hgrown := hinstalled.grown_eq
  obtain ⟨hlive, hok₁⟩ := hacq.tableOk hok hkind (pageCeil_dvd _) hpos
    fun hg => hfits (hgrown.trans hg)
  obtain ⟨hsame, hok', htouch⟩ := hinstalled.tableOk hok₁ hkind
  refine ⟨hok', hlive.base_dvd, hlive.limit_le, ?_, ?_, ?_⟩
  · intro x
    refine (hsame.covers_iff x).trans ?_
    rcases hacq with hacq | hacq
    · refine ((hacq.refines hok hlive).1.covers_iff x).trans ?_
      exact (or_iff_right_of_imp fun hx => hacq.covered hok hlive hx).symm
    · exact hacq.covered x
  · refine TouchOld.trans ?_ htouch
    rcases hacq with hacq | hacq
    · exact hacq.touchOld hok hlive hkind
    · exact hacq.touchOld hkind
  · rw [hgrown]
    rcases hacq with hacq | hacq
    · exact Or.inl ⟨hacq.grown_eq, fun x hlow hhigh => hacq.covered hok hlive ⟨hlow, hhigh⟩⟩
    · exact Or.inr hacq.grown_eq

end Mman

end WasixLibc
