/-
`waitpid` and the status word it stores.

The word has the exit code in the bits from 8 on and a signal in the low bits;
the macros that read it test overlapping bits.
-/
import Mathlib.Tactic.Common
import WasixLibc.SystemTypes

namespace WasixLibc

namespace WaitStatus

/-! The macros -/

abbrev WNOHANG : BitVec 32 := 1
abbrev WUNTRACED : BitVec 32 := 2

def W_EXITCODE (ret sig : BitVec 32) : BitVec 32 := ret <<< 8 ||| sig

def W_STOPCODE (sig : BitVec 32) : BitVec 32 := sig <<< 8 ||| 0x7f

def WEXITSTATUS (s : BitVec 32) : BitVec 32 := (s &&& 0xff00) >>> 8

def WTERMSIG (s : BitVec 32) : BitVec 32 := s &&& 0x7f

def WSTOPSIG (s : BitVec 32) : BitVec 32 := WEXITSTATUS s

def WIFEXITED (s : BitVec 32) : Bool := WTERMSIG s == 0

/-- The cast to `short` keeps the low 16 bits of the shifted product. -/
def WIFSTOPPED (s : BitVec 32) : Bool :=
  (0x7f00#16).slt ((((s &&& 0xffff) * 0x10001).sshiftRight 8).setWidth 16)

/-- `1U` makes the difference and the comparison unsigned. -/
def WIFSIGNALED (s : BitVec 32) : Bool := decide ((s &&& 0xffff) - 1 < 0xff)

/-! `waitpid` -/

abbrev NON_BLOCKING : BitVec 32 := 1
abbrev WAKE_STOPPED : BitVec 32 := 2

/-- `__wasi_join_status_t`; `other` is a tag the header does not know. -/
inductive JoinStatus where
  | nothing
  | exitNormal (code : BitVec 16)
  | exitSignal (exitCode : BitVec 16) (signal : BitVec 8)
  | stopped (signal : BitVec 8)
  | other (tag : BitVec 8)
deriving Repr, DecidableEq

/-- What `proc_join` returns and leaves in its arguments. -/
structure JoinAnswer where
  error : Errno
  pid : Option (BitVec 32)
  status : JoinStatus

/-- What a call returns, the `errno` it sets, and the store it makes. -/
structure Waited where
  ret : BitVec 32
  errno : Option Errno := none
  store : Option (BitVec 32 × BitVec 32) := none
deriving Repr, DecidableEq

def joinFlags (options : BitVec 32) : BitVec 32 :=
  (if options &&& WNOHANG ≠ 0 then NON_BLOCKING else 0) |||
    (if options &&& WUNTRACED ≠ 0 then WAKE_STOPPED else 0)

def joinPid (pid : BitVec 32) : Option (BitVec 32) :=
  if pid = -1 then none else some (if pid.slt 0 then -pid else pid)

/-- `proc_join` is asked for the process and the flags. -/
def waitpid (procJoin : Option (BitVec 32) → BitVec 32 → JoinAnswer)
    (pid status options : BitVec 32) : Waited :=
  let answer := procJoin (joinPid pid) (joinFlags options)
  if answer.error ≠ 0 then { ret := -1, errno := some answer.error }
  else
    match answer.pid with
    | none => { ret := -1, errno := some ECHILD }
    | some pid =>
        match answer.status with
        | .nothing =>
            if options &&& WNOHANG ≠ 0 then { ret := 0 }
            else { ret := pid, store := some (status, 0) }
        | .exitNormal code =>
            { ret := pid, store := some (status, W_EXITCODE (code.setWidth 32) 0) }
        | .exitSignal exitCode signal =>
            { ret := pid
              store := some (status, W_EXITCODE (exitCode.setWidth 32) (signal.setWidth 32)) }
        | .stopped signal =>
            { ret := pid, store := some (status, W_STOPCODE (signal.setWidth 32)) }
        | .other _ => { ret := -1, errno := some EUNKNOWN }

/-! What the macros read -/

section

variable (s : BitVec 32)

theorem toNat_WEXITSTATUS : (WEXITSTATUS s).toNat = s.toNat / 256 % 256 := by
  have hshift : (WEXITSTATUS s).toNat = (s.toNat >>> 8) &&& (2 ^ 8 - 1) :=
    Nat.shiftRight_and_distrib
  rw [hshift, Nat.and_two_pow_sub_one_eq_mod, Nat.shiftRight_eq_div_pow]

theorem toNat_WTERMSIG : (WTERMSIG s).toNat = s.toNat % 128 :=
  Nat.and_two_pow_sub_one_eq_mod s.toNat 7

theorem WIFEXITED_iff : WIFEXITED s = true ↔ s.toNat % 128 = 0 := by
  rw [WIFEXITED, beq_iff_eq, ← BitVec.toNat_inj, toNat_WTERMSIG]
  rfl

theorem WIFSIGNALED_iff : WIFSIGNALED s = true ↔
    0 < s.toNat % 65536 ∧ s.toNat % 65536 < 256 := by
  have hlow : (s &&& 0xffff).toNat = s.toNat % 65536 :=
    Nat.and_two_pow_sub_one_eq_mod s.toNat 16
  rw [WIFSIGNALED, decide_eq_true_eq, BitVec.lt_def, BitVec.toNat_sub, hlow]
  show (4294967296 - 1 + s.toNat % 65536) % 4294967296 < 255 ↔ _
  omega

/-- The low 16 bits of a shifted word do not depend on the bits shifted in. -/
theorem toNat_sshiftRight_low (x : BitVec 32) :
    ((x.sshiftRight 8).setWidth 16).toNat = x.toNat / 256 % 65536 := by
  have hsame : (x.sshiftRight 8).setWidth 16 = (x >>> 8).setWidth 16 := by
    apply BitVec.eq_of_getLsbD_eq
    intro i hi
    have hin : 8 + i < 32 := by omega
    simp only [BitVec.getLsbD_setWidth, BitVec.getLsbD_sshiftRight, BitVec.getLsbD_ushiftRight, hin,
      ↓reduceIte]
    have hle : ¬ 32 ≤ i := by omega
    simp [hle]
  rw [hsame, BitVec.toNat_setWidth, BitVec.toNat_ushiftRight, Nat.shiftRight_eq_div_pow]

/-- The product puts the low byte above the high one. -/
theorem WIFSTOPPED_iff : WIFSTOPPED s = true ↔
    s.toNat % 256 = 127 ∧ 0 < s.toNat / 256 % 256 := by
  have hlow : (s &&& 0xffff).toNat = s.toNat % 65536 :=
    Nat.and_two_pow_sub_one_eq_mod s.toNat 16
  have hproduct : ((s &&& 0xffff) * 0x10001).toNat = s.toNat % 65536 * 65537 := by
    rw [BitVec.toNat_mul, hlow]
    show s.toNat % 65536 * 65537 % 4294967296 = _
    omega
  rw [WIFSTOPPED, BitVec.slt_iff_toInt_lt, BitVec.toInt_eq_toNat_cond (BitVec.setWidth _ _),
    toNat_sshiftRight_low, hproduct]
  have hbytes : s.toNat % 65536 = s.toNat / 256 % 256 * 256 + s.toNat % 256 := by omega
  have hlo : s.toNat % 256 < 256 := Nat.mod_lt _ (by decide)
  have hhi : s.toNat / 256 % 256 < 256 := Nat.mod_lt _ (by decide)
  rw [hbytes]
  generalize s.toNat / 256 % 256 = hi at *
  generalize s.toNat % 256 = lo at *
  have hproduct : (hi * 256 + lo) * 65537 = 256 * (hi * 65537 + lo * 256) + lo := by omega
  have hshift : (256 * (hi * 65537 + lo * 256) + lo) / 256 = hi * 65537 + lo * 256 := by omega
  have hswap : (hi * 65537 + lo * 256) % 65536 = lo * 256 + hi := by omega
  rw [hproduct, hshift, hswap]
  show (32512 : Int) < _ ↔ _
  split <;> omega

end

/-! What the code stores -/

theorem toNat_W_EXITCODE (code : BitVec 16) (sig : BitVec 8) :
    (W_EXITCODE (code.setWidth 32) (sig.setWidth 32)).toNat = code.toNat * 256 + sig.toNat := by
  have hcode := code.isLt
  have hsig := sig.isLt
  have hshift : (code.setWidth 32 <<< 8).toNat = code.toNat <<< 8 := by
    rw [BitVec.toNat_shiftLeft, BitVec.toNat_setWidth, Nat.shiftLeft_eq, Nat.shiftLeft_eq]
    omega
  have hlow : (sig.setWidth 32).toNat = sig.toNat := by
    rw [BitVec.toNat_setWidth]
    omega
  rw [W_EXITCODE, BitVec.toNat_or, hshift, hlow, ← Nat.shiftLeft_add_eq_or_of_lt hsig,
    Nat.shiftLeft_eq]

theorem W_STOPCODE_eq (sig : BitVec 8) :
    W_STOPCODE (sig.setWidth 32) =
      W_EXITCODE ((sig.setWidth 16).setWidth 32) ((0x7f#8).setWidth 32) := by
  have hsig : (sig.setWidth 16).setWidth 32 = sig.setWidth 32 := by
    apply BitVec.eq_of_toNat_eq
    have hlt := sig.isLt
    rw [BitVec.toNat_setWidth, BitVec.toNat_setWidth, BitVec.toNat_setWidth]
    omega
  rw [hsig]
  rfl

/-- `s` says what the host reported of a finished or stopped child: one of the
three classes holds, and the macro of that class reads the code or signal. -/
def Describes (s : BitVec 32) : JoinStatus → Prop
  | .exitNormal code =>
      WIFEXITED s ∧ ¬ WIFSIGNALED s ∧ ¬ WIFSTOPPED s ∧ (WEXITSTATUS s).toNat = code.toNat % 256
  | .exitSignal _ signal =>
      ¬ WIFEXITED s ∧ WIFSIGNALED s ∧ ¬ WIFSTOPPED s ∧ (WTERMSIG s).toNat = signal.toNat
  | .stopped signal =>
      ¬ WIFEXITED s ∧ ¬ WIFSIGNALED s ∧ WIFSTOPPED s ∧ (WSTOPSIG s).toNat = signal.toNat
  | _ => True

/-- The signals a host reports: a death by one of 1 to 126, a stop by any but
0. -/
def JoinStatus.Valid : JoinStatus → Prop
  | .exitSignal _ signal => 0 < signal.toNat ∧ signal.toNat < 127
  | .stopped signal => 0 < signal.toNat
  | _ => True

theorem describes_exitNormal (code : BitVec 16) :
    Describes (W_EXITCODE (code.setWidth 32) 0) (.exitNormal code) := by
  have hword : (W_EXITCODE (code.setWidth 32) 0).toNat = code.toNat * 256 := by
    have hzero : (0 : BitVec 32) = (0#8).setWidth 32 := by decide
    rw [hzero, toNat_W_EXITCODE]
    exact Nat.add_zero _
  unfold Describes
  rw [WIFEXITED_iff, WIFSIGNALED_iff, WIFSTOPPED_iff, toNat_WEXITSTATUS, hword]
  omega

theorem describes_stopped {signal : BitVec 8} (hvalid : (JoinStatus.stopped signal).Valid) :
    Describes (W_STOPCODE (signal.setWidth 32)) (.stopped signal) := by
  have hlt := signal.isLt
  have hpos : 0 < signal.toNat := hvalid
  have hword : (W_STOPCODE (signal.setWidth 32)).toNat = signal.toNat * 256 + 127 := by
    have hwide : (signal.setWidth 16).toNat = signal.toNat :=
      BitVec.toNat_setWidth_of_le (by decide)
    rw [W_STOPCODE_eq, toNat_W_EXITCODE, hwide]
    rfl
  unfold Describes WSTOPSIG
  rw [WIFEXITED_iff, WIFSIGNALED_iff, WIFSTOPPED_iff, toNat_WEXITSTATUS, hword]
  omega

/-- A death is told apart from the other classes only if the low byte of the
exit code is zero. -/
theorem describes_exitSignal_iff {exitCode : BitVec 16} {signal : BitVec 8}
    (hvalid : (JoinStatus.exitSignal exitCode signal).Valid) :
    Describes (W_EXITCODE (exitCode.setWidth 32) (signal.setWidth 32))
      (.exitSignal exitCode signal) ↔ exitCode.toNat % 256 = 0 := by
  have hpos : 0 < signal.toNat := hvalid.1
  have hlt : signal.toNat < 127 := hvalid.2
  unfold Describes
  rw [WIFEXITED_iff, WIFSIGNALED_iff, WIFSTOPPED_iff, toNat_WTERMSIG, toNat_W_EXITCODE]
  omega

/-! The call -/

/-- A child that finished or stopped. -/
def JoinStatus.IsEvent : JoinStatus → Prop
  | .exitNormal _ | .exitSignal _ _ | .stopped _ => True
  | _ => False

/-- What a call owes to the answer of the host. -/
structure Reports (status options : BitVec 32) (answer : JoinAnswer) (w : Waited) : Prop where
  nonnull : ∀ addr value, w.store = some (addr, value) → addr = status ∧ addr ≠ 0
  encodes : ∀ pid, answer.error = 0 → answer.pid = some pid → answer.status.IsEvent →
    w.ret = pid ∧ w.errno = none ∧
      (status ≠ 0 → ∃ value, w.store = some (status, value) ∧ Describes value answer.status)
  nothing : answer.error = 0 → answer.status = .nothing → options &&& WNOHANG ≠ 0 → w.ret = 0

/-- The answers that `waitpid` does not pass on. -/
inductive Misreported (status options : BitVec 32) : JoinAnswer → Prop
  | unnamed : options &&& WNOHANG ≠ 0 → Misreported status options ⟨0, none, .nothing⟩
  | null {pid : BitVec 32} {report : JoinStatus} : status = 0 →
      report.IsEvent ∨ report = .nothing ∧ options &&& WNOHANG = 0 →
      Misreported status options ⟨0, some pid, report⟩
  | coded {pid : BitVec 32} {exitCode : BitVec 16} {signal : BitVec 8} :
      exitCode.toNat % 256 ≠ 0 → status ≠ 0 →
      Misreported status options ⟨0, some pid, .exitSignal exitCode signal⟩

section

variable {status options pid value : BitVec 32} {report : JoinStatus}

/-- A call that stores the word for an event. -/
theorem reports_event_iff (hevent : report.IsEvent) :
    Reports status options ⟨0, some pid, report⟩ { ret := pid, store := some (status, value) } ↔
      status ≠ 0 ∧ Describes value report := by
  constructor
  · intro h
    have hstatus := (h.nonnull status value rfl).2
    obtain ⟨value', hstore, hdescribes⟩ := (h.encodes pid rfl rfl hevent).2.2 hstatus
    obtain rfl : value = value' := (Prod.mk.inj (Option.some.inj hstore)).2
    exact ⟨hstatus, hdescribes⟩
  · rintro ⟨hstatus, hdescribes⟩
    refine ⟨fun addr value' hstore => ?_, fun pid' _ hpid _ => ?_, fun _ hnothing => ?_⟩
    · obtain rfl := (Prod.mk.inj (Option.some.inj hstore)).1
      exact ⟨rfl, hstatus⟩
    · exact ⟨Option.some.inj hpid, rfl, fun _ => ⟨value, rfl, hdescribes⟩⟩
    · obtain rfl : report = .nothing := hnothing
      exact hevent.elim

/-- Storing it is right for every event but a death with a code. -/
theorem misreported_event_iff (hevent : report.IsEvent) :
    ¬ Misreported status options ⟨0, some pid, report⟩ ↔
      status ≠ 0 ∧ ∀ exitCode signal, report = .exitSignal exitCode signal →
        exitCode.toNat % 256 = 0 := by
  constructor
  · intro hnot
    have hstatus : status ≠ 0 := fun hzero => hnot (.null hzero (Or.inl hevent))
    refine ⟨hstatus, ?_⟩
    rintro exitCode signal rfl
    by_contra hcode
    exact hnot (.coded hcode hstatus)
  · rintro ⟨hstatus, hcoded⟩ hmis
    cases hmis with
    | null hzero _ => exact hstatus hzero
    | coded hcode _ => exact hcode (hcoded _ _ rfl)

/-- A failed call tells nothing of a child. -/
theorem not_misreported_failed {answer : JoinAnswer} (herror : answer.error ≠ 0) :
    ¬ Misreported status options answer := by
  intro hmis
  cases hmis <;> exact herror rfl

theorem reports_failed {answer : JoinAnswer} {errno : Errno} (herror : answer.error ≠ 0) :
    Reports status options answer { ret := -1, errno := some errno } := by
  refine ⟨fun _ _ hstore => ?_, fun _ h _ _ => absurd h herror, fun h _ _ => absurd h herror⟩
  cases hstore

/-- An answer without a process is a failure. -/
theorem reports_unnamed_iff :
    Reports status options ⟨0, none, report⟩ { ret := -1, errno := some ECHILD } ↔
      ¬ Misreported status options ⟨0, none, report⟩ := by
  constructor
  · rintro h hmis
    cases hmis with
    | unnamed hnohang =>
        have hret : (-1 : BitVec 32) = 0 := h.nothing rfl rfl hnohang
        exact absurd hret (by decide)
  · intro hnot
    refine ⟨fun _ _ hstore => ?_, fun _ _ hpid _ => ?_, fun _ hnothing hnohang => ?_⟩
    · cases hstore
    · cases hpid
    · obtain rfl : report = .nothing := hnothing
      exact absurd (.unnamed hnohang) hnot

/-- With `WNOHANG`, a child that still runs is no event and no failure. -/
theorem reports_nothing :
    Reports status options ⟨0, some pid, .nothing⟩ { ret := 0 } := by
  refine ⟨fun _ _ hstore => ?_, fun _ _ _ hevent => hevent.elim, fun _ _ _ => rfl⟩
  cases hstore

theorem not_misreported_nothing (hnohang : options &&& WNOHANG ≠ 0) :
    ¬ Misreported status options ⟨0, some pid, .nothing⟩ := by
  intro hmis
  cases hmis with
  | null _ hkind =>
      rcases hkind with hevent | ⟨_, hnone⟩
      · exact hevent.elim
      · exact hnohang hnone

/-- Without it, zero is. -/
theorem reports_nothing_iff (hnohang : options &&& WNOHANG = 0) :
    Reports status options ⟨0, some pid, .nothing⟩ { ret := pid, store := some (status, 0) } ↔
      ¬ Misreported status options ⟨0, some pid, .nothing⟩ := by
  constructor
  · rintro h hmis
    cases hmis with
    | null hzero _ => exact (h.nonnull status 0 rfl).2 hzero
  · intro hnot
    refine ⟨fun addr value hstore => ?_, fun _ _ _ hevent => hevent.elim,
      fun _ _ hwnohang => absurd hnohang hwnohang⟩
    obtain rfl := (Prod.mk.inj (Option.some.inj hstore)).1
    exact ⟨rfl, fun hzero => hnot (.null hzero (Or.inr ⟨rfl, hnohang⟩))⟩

theorem reports_other {tag : BitVec 8} :
    Reports status options ⟨0, some pid, .other tag⟩ { ret := -1, errno := some EUNKNOWN } := by
  refine ⟨fun _ _ hstore => ?_, fun _ _ _ hevent => hevent.elim, fun _ hnothing => ?_⟩
  · cases hstore
  · cases hnothing

theorem not_misreported_other {tag : BitVec 8} :
    ¬ Misreported status options ⟨0, some pid, .other tag⟩ := by
  intro hmis
  cases hmis with
  | null _ hkind =>
      rcases hkind with hevent | ⟨hnone, _⟩
      · exact hevent.elim
      · cases hnone

end

/-- For every process, pointer and option set and every answer, the call does
what it owes exactly if the answer is not one of those. -/
theorem waitpid_reports_iff {procJoin : Option (BitVec 32) → BitVec 32 → JoinAnswer}
    {pid status options : BitVec 32}
    (hvalid : (procJoin (joinPid pid) (joinFlags options)).status.Valid) :
    Reports status options (procJoin (joinPid pid) (joinFlags options))
        (waitpid procJoin pid status options) ↔
      ¬ Misreported status options (procJoin (joinPid pid) (joinFlags options)) := by
  unfold waitpid
  generalize procJoin (joinPid pid) (joinFlags options) = answer at *
  obtain ⟨error, answered, report⟩ := answer
  dsimp only at hvalid ⊢
  by_cases herror : error = 0
  · subst herror
    rw [if_neg (not_not.mpr rfl)]
    cases answered with
    | none => exact reports_unnamed_iff
    | some answered =>
        cases report with
        | nothing =>
            dsimp only
            by_cases hnohang : options &&& WNOHANG = 0
            · rw [if_neg (not_not.mpr hnohang)]
              exact reports_nothing_iff hnohang
            · rw [if_pos hnohang]
              exact iff_of_true reports_nothing (not_misreported_nothing hnohang)
        | exitNormal code =>
            have hevent : (JoinStatus.exitNormal code).IsEvent := trivial
            rw [misreported_event_iff hevent]
            refine (reports_event_iff hevent).trans (and_congr_right fun _ => ?_)
            refine ⟨fun _ _ _ h => ?_, fun _ => describes_exitNormal code⟩
            cases h
        | exitSignal exitCode signal =>
            have hevent : (JoinStatus.exitSignal exitCode signal).IsEvent := trivial
            rw [misreported_event_iff hevent]
            refine (reports_event_iff hevent).trans (and_congr_right fun _ => ?_)
            rw [describes_exitSignal_iff hvalid]
            refine ⟨fun hcode _ _ h => ?_, fun h => h _ _ rfl⟩
            obtain ⟨rfl, _⟩ := JoinStatus.exitSignal.inj h
            exact hcode
        | stopped signal =>
            have hevent : (JoinStatus.stopped signal).IsEvent := trivial
            rw [misreported_event_iff hevent]
            refine (reports_event_iff hevent).trans (and_congr_right fun _ => ?_)
            refine ⟨fun _ _ _ h => ?_, fun _ => describes_stopped hvalid⟩
            cases h
        | other tag => exact iff_of_true reports_other not_misreported_other
  · rw [if_pos herror]
    exact iff_of_true (reports_failed herror) (not_misreported_failed herror)

namespace WaitWitness

/-- A child that exits with 0x1ff, waited for with a pointer. -/
theorem exit_reports : Reports 0x1000 0 ⟨0, some 7, .exitNormal 0x1ff⟩
      (waitpid (fun _ _ => ⟨0, some 7, .exitNormal 0x1ff⟩) (-1) 0x1000 0) ∧
    WEXITSTATUS (W_EXITCODE 0x1ff 0) = 0xff := by
  refine ⟨(@waitpid_reports_iff (fun _ _ => ⟨0, some 7, .exitNormal 0x1ff⟩) (-1) 0x1000 0
    trivial).mpr ?_, by decide⟩
  rintro (_ | ⟨hzero, _⟩)
  exact absurd hzero (by decide)

/-- A death by signal 9 with exit code 137, a null pointer, and a host that has
nothing to report for any child. -/
theorem not_reports :
    waitpid (fun pid _ => ⟨0, pid, .exitSignal 137 9⟩) 7 0x1000 0 =
        { ret := 7, store := some (0x1000, 0x8909) } ∧
      WIFEXITED 0x8909 = false ∧ WIFSIGNALED 0x8909 = false ∧ WIFSTOPPED 0x8909 = false ∧
      ¬ Reports 0x1000 0 ⟨0, some 7, .exitSignal 137 9⟩
        (waitpid (fun pid _ => ⟨0, pid, .exitSignal 137 9⟩) 7 0x1000 0) ∧
      ¬ Reports 0 0 ⟨0, some 7, .exitNormal 0⟩
        (waitpid (fun pid _ => ⟨0, pid, .exitNormal 0⟩) 7 0 0) ∧
      ¬ Reports 0x1000 WNOHANG ⟨0, none, .nothing⟩
        (waitpid (fun pid _ => ⟨0, pid, .nothing⟩) (-1) 0x1000 WNOHANG) := by
  refine ⟨by decide, by decide, by decide, by decide, fun h => ?_, fun h => ?_, fun h => ?_⟩
  · obtain ⟨_, _, hstore⟩ := h.encodes 7 rfl rfl trivial
    obtain ⟨value, hvalue, _, hsignaled, _⟩ := hstore (by decide)
    obtain rfl : (0x8909 : BitVec 32) = value := (Prod.mk.inj (Option.some.inj hvalue)).2
    exact absurd hsignaled (by decide)
  · exact (h.nonnull 0 0 (by decide)).2 rfl
  · exact absurd (h.nothing rfl rfl (by decide)) (by decide)

end WaitWitness

end WaitStatus

end WasixLibc
