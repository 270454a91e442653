/-
Signal numbers and signal sets.

Only the first `_NSIG / 8` bytes of a `sigset_t` are ever read or written, so a
set is the 64 bits they hold: signal `sig` is bit `sig - 1`.  The two words of
a 32-bit target are the low and the high half.
-/
import Mathlib.Data.List.Basic

namespace WasixLibc

namespace Signal

abbrev NSIG : Nat := 65

abbrev SIGHUP : Nat := 1
abbrev SIGINT : Nat := 2
abbrev SIGQUIT : Nat := 3
abbrev SIGILL : Nat := 4
abbrev SIGTRAP : Nat := 5
abbrev SIGABRT : Nat := 6
abbrev SIGBUS : Nat := 7
abbrev SIGFPE : Nat := 8
abbrev SIGKILL : Nat := 9
abbrev SIGUSR1 : Nat := 10
abbrev SIGSEGV : Nat := 11
abbrev SIGUSR2 : Nat := 12
abbrev SIGPIPE : Nat := 13
abbrev SIGALRM : Nat := 14
abbrev SIGTERM : Nat := 15
abbrev SIGSTKFLT : Nat := 16
abbrev SIGCHLD : Nat := 17
abbrev SIGCONT : Nat := 18
abbrev SIGSTOP : Nat := 19
abbrev SIGTSTP : Nat := 20
abbrev SIGTTIN : Nat := 21
abbrev SIGTTOU : Nat := 22
abbrev SIGURG : Nat := 23
abbrev SIGXCPU : Nat := 24
abbrev SIGXFSZ : Nat := 25
abbrev SIGVTALRM : Nat := 26
abbrev SIGPROF : Nat := 27
abbrev SIGWINCH : Nat := 28
abbrev SIGIO : Nat := 29
abbrev SIGPWR : Nat := 30
abbrev SIGSYS : Nat := 31

/-! The signals libc uses internally -/

abbrev SIGTIMER : Nat := 32
abbrev SIGCANCEL : Nat := 33
abbrev SIGSYNCCALL : Nat := 34

/-- The signals of the application: neither out of range nor internal. -/
def AppSig (sig : Nat) : Prop := 1 ≤ sig ∧ sig < NSIG ∧ ¬ (SIGTIMER ≤ sig ∧ sig ≤ SIGSYNCCALL)

instance (sig : Nat) : Decidable (AppSig sig) := inferInstanceAs (Decidable (_ ∧ _ ∧ _))

/-- `sig-32U < 3 || sig-1U >= _NSIG-1`, the arguments no entry point takes. -/
def badSig (sig : BitVec 32) : Bool := decide (sig - 32 < 3) || decide (64 ≤ sig - 1)

theorem badSig_eq_false_iff (sig : BitVec 32) : badSig sig = false ↔ AppSig sig.toNat := by
  simp only [badSig, AppSig, NSIG, SIGTIMER, SIGSYNCCALL, Bool.or_eq_false_iff,
    decide_eq_false_iff_not]
  bv_omega

abbrev Sigset := BitVec 64

/-- `__sigset_test`. -/
def sigsetTest (set : Sigset) (sig : Nat) : Bool := set.getLsbD (sig - 1)

/-- `__sigset_add`. -/
def sigsetAdd (set : Sigset) (sig : Nat) : Sigset := set ||| BitVec.twoPow 64 (sig - 1)

/-- `__sigset_del`. -/
def sigsetDel (set : Sigset) (sig : Nat) : Sigset := set &&& ~~~BitVec.twoPow 64 (sig - 1)

/-- `__sigset_or`. -/
def sigsetOr (dst bits : Sigset) : Sigset := dst ||| bits

/-- `__sigset_andnot`. -/
def sigsetAndnot (dst bits : Sigset) : Sigset := dst &&& ~~~bits

/-- `__sigset_copy`. -/
def sigsetCopy (_dst bits : Sigset) : Sigset := bits

/-- What `sigfillset` stores; also `app_mask`. -/
abbrev sigfillset : Sigset := 0xfffffffc7fffffff

abbrev allMask : Sigset := 0xffffffffffffffff

/-- `0x380000000`, the internal signals. -/
abbrev internalMask : Sigset := 0x380000000

@[simp] theorem sigsetTest_or (dst bits : Sigset) (sig : Nat) :
    sigsetTest (sigsetOr dst bits) sig = (sigsetTest dst sig || sigsetTest bits sig) := by
  simp [sigsetTest, sigsetOr]

theorem sigsetTest_add {sig other : Nat} (h : 1 ≤ sig) (hother : 1 ≤ other)
    (hlt : other < NSIG) (set : Sigset) :
    sigsetTest (sigsetAdd set other) sig = (sigsetTest set sig || decide (sig = other)) := by
  have hsame : other - 1 = sig - 1 ↔ sig = other := by omega
  have hbound : other - 1 < 64 := by
    have hsize : other < 65 := hlt
    omega
  simp [sigsetTest, sigsetAdd, BitVec.getLsbD_twoPow, hsame, hbound]

theorem sigsetTest_del {sig other : Nat} (h : 1 ≤ sig) (hlt : sig < NSIG)
    (hother : 1 ≤ other) (set : Sigset) :
    sigsetTest (sigsetDel set other) sig = (sigsetTest set sig && decide (sig ≠ other)) := by
  have hsame : other - 1 = sig - 1 ↔ sig = other := by omega
  have hbound : sig - 1 < 64 := by
    have hsize : sig < 65 := hlt
    omega
  simp only [sigsetTest, sigsetDel, BitVec.getLsbD_and, BitVec.getLsbD_not,
    BitVec.getLsbD_twoPow, hbound, hsame, decide_true, Bool.true_and]
  by_cases heq : sig = other
  · have hbound' : other - 1 < 64 := by omega
    simp [heq, hbound']
  · simp [heq]

/-- The scan of `__sig_deliver_pending`: the first application signal that is
pending and not blocked. -/
def nextPending (sigpending sigmask : Sigset) : Option Nat :=
  (List.range' 1 (NSIG - 1)).find? fun sig =>
    !decide (SIGTIMER ≤ sig ∧ sig ≤ SIGSYNCCALL) &&
      (sigsetTest sigpending sig && !sigsetTest sigmask sig)

theorem mem_scan_iff {sig : Nat} : sig ∈ List.range' 1 (NSIG - 1) ↔ 1 ≤ sig ∧ sig < NSIG := by
  rw [List.mem_range'_1]
  rfl

theorem nextPending_eq_some {sigpending sigmask : Sigset} {sig : Nat}
    (h : nextPending sigpending sigmask = some sig) :
    AppSig sig ∧ sigsetTest sigpending sig = true ∧ sigsetTest sigmask sig = false := by
  have hfound := List.find?_some h
  have hrange := mem_scan_iff.mp (List.mem_of_find?_eq_some h)
  simp only [Bool.and_eq_true, Bool.not_eq_true', decide_eq_false_iff_not] at hfound
  exact ⟨⟨hrange.1, hrange.2, hfound.1⟩, hfound.2⟩

/-- Nothing found means that every pending application signal is blocked. -/
theorem nextPending_eq_none {sigpending sigmask : Sigset}
    (h : nextPending sigpending sigmask = none) {sig : Nat} (happ : AppSig sig)
    (hpending : sigsetTest sigpending sig = true) : sigsetTest sigmask sig = true := by
  have hmem : sig ∈ List.range' 1 (NSIG - 1) := mem_scan_iff.mpr ⟨happ.1, happ.2.1⟩
  have hnot := List.find?_eq_none.mp h sig hmem
  simpa [happ.2.2, hpending] using hnot

end Signal

end WasixLibc
