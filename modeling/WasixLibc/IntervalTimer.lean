/-
`setitimer`, `alarm` and `ualarm`.

A timer has a time to the first signal and a period; the host is asked for one
interval and whether the signal repeats.
-/
import WasixLibc.Nanoseconds

namespace WasixLibc

namespace IntervalTimer

open Select.Timeval (nanoseconds nanoseconds_even toNat_ts ValidTime)

abbrev SIGALRM : BitVec 8 := 14

structure Itimerval where
  itInterval : Timeval
  itValue : Timeval
deriving Repr, DecidableEq

/-- The arguments of `proc_raise_interval`. -/
structure RaiseInterval where
  sig : BitVec 8
  interval : BitVec 64
  repeats : Bool
deriving Repr, DecidableEq

/-- What `setitimer` returns, the `errno` it sets, what it asks of the host, and
what is behind its last argument. -/
structure Called where
  ret : BitVec 32
  errno : Option (BitVec 16)
  requests : List RaiseInterval
  old : Itimerval
deriving Repr, DecidableEq

/-- `raise` is the answer of the host.  Neither the timer asked for nor the old
value is looked at. -/
def setitimer (raise : RaiseInterval → BitVec 16) (new old : Itimerval) : Called :=
  let ts := new.itInterval.tvSec * 1000000000 + new.itInterval.tvUsec * 1000
  let request := { sig := SIGALRM, interval := ts, repeats := true }
  let ret := raise request
  if ret ≠ 0 then { ret := -1, errno := some ret, requests := [request], old := old }
  else { ret := 0, errno := none, requests := [request], old := old }

def zeroTimer : Itimerval := ⟨⟨0, 0⟩, ⟨0, 0⟩⟩

/-- The value returned, and what was asked. -/
def alarm (raise : RaiseInterval → BitVec 16) (seconds : BitVec 32) :
    BitVec 32 × List RaiseInterval :=
  let it := { zeroTimer with itValue := ⟨seconds.setWidth 64, 0⟩ }
  let called := setitimer raise it zeroTimer
  (called.old.itValue.tvSec.setWidth 32 + if called.old.itValue.tvUsec = 0 then 0 else 1,
    called.requests)

/-- `itOld` is what the stack holds at the local that nothing initialises. -/
def ualarm (raise : RaiseInterval → BitVec 16) (itOld : Itimerval) (value interval : BitVec 32) :
    BitVec 32 × List RaiseInterval :=
  let it := ⟨⟨0, interval.setWidth 64⟩, ⟨0, value.setWidth 64⟩⟩
  let called := setitimer raise it itOld
  ((called.old.itValue.tvSec * 1000000 + called.old.itValue.tvUsec).setWidth 32, called.requests)

/-! What a timer is -/

/-- When a signal comes, in nanoseconds: never, or after `first` and then every
`period`, where 0 is once. -/
inductive Schedule where
  | disarmed
  | armed (first period : Nat)
deriving Repr, DecidableEq

def RaiseInterval.schedule (r : RaiseInterval) : Schedule :=
  if r.interval = 0 then .disarmed
  else .armed r.interval.toNat (if r.repeats then r.interval.toNat else 0)

/-- The schedule of `SIGALRM` after some requests, each of which replaces the one
before. -/
def scheduled (requests : List RaiseInterval) : Option Schedule :=
  (requests.filter fun r => r.sig == SIGALRM).getLast?.map RaiseInterval.schedule

/-- The schedule that a timer of the two times asks for, times above the largest
timestamp taken for it. -/
def wanted (first period : Nat) : Schedule :=
  if first = 0 then .disarmed else .armed (min first longest) (min period longest)

/-- The timer is set, or one that does not fit is refused. -/
def SetsTimer (new : Itimerval) (called : Called) : Prop :=
  scheduled called.requests = some (wanted (nanoseconds new.itValue) (nanoseconds new.itInterval)) ∨
    (longest < nanoseconds new.itValue ∨ longest < nanoseconds new.itInterval) ∧
      called.ret = -1 ∧ called.requests = []

/-- The two times are one that fits, or there is no first time and the period is
a multiple of `2 ^ 64` nanoseconds. -/
def OneTime (new : Itimerval) : Prop :=
  nanoseconds new.itValue = nanoseconds new.itInterval ∧ nanoseconds new.itValue ≤ longest ∨
    nanoseconds new.itValue = 0 ∧ nanoseconds new.itInterval % 18446744073709551616 = 0

section

variable {raise : RaiseInterval → BitVec 16}

theorem setitimer_requests (new old : Itimerval) :
    (setitimer raise new old).requests =
      [{ sig := SIGALRM
         interval := new.itInterval.tvSec * 1000000000 + new.itInterval.tvUsec * 1000
         repeats := true }] := by
  unfold setitimer
  dsimp only
  split <;> rfl

theorem setitimer_old (new old : Itimerval) : (setitimer raise new old).old = old := by
  unfold setitimer
  dsimp only
  split <;> rfl

theorem schedule_of_repeats (ts : BitVec 64) :
    RaiseInterval.schedule ⟨SIGALRM, ts, true⟩ = wanted ts.toNat ts.toNat := by
  have hlt := ts.isLt
  have hmin : min ts.toNat longest = ts.toNat := by
    unfold longest
    omega
  unfold RaiseInterval.schedule wanted
  rw [hmin]
  by_cases hzero : ts = 0
  · subst hzero
    rfl
  · have hpos : ¬ ts.toNat = 0 := fun h => hzero (BitVec.eq_of_toNat_eq h)
    rw [if_neg hzero, if_neg hpos, if_pos rfl]

/-- The host is asked for the period, reduced to 64 bits, and for nothing
else. -/
theorem setitimer_scheduled {new : Itimerval} (old : Itimerval)
    (hsec : 0 ≤ new.itInterval.tvSec.toInt) (husec : 0 ≤ new.itInterval.tvUsec.toInt) :
    scheduled (setitimer raise new old).requests =
      some (wanted (nanoseconds new.itInterval % 18446744073709551616)
        (nanoseconds new.itInterval % 18446744073709551616)) := by
  rw [setitimer_requests, ← toNat_ts hsec husec, ← schedule_of_repeats]
  rfl

/-- Two schedules of one time and of two times. -/
theorem wanted_eq_iff {time first period : Nat} (htime : time ≤ longest) :
    wanted time time = wanted first period ↔
      time = 0 ∧ first = 0 ∨
        time ≠ 0 ∧ first ≠ 0 ∧ time = min first longest ∧ time = min period longest := by
  have hmin : min time longest = time := Nat.min_eq_left htime
  unfold wanted
  rw [hmin]
  by_cases hzero : time = 0
  · rw [if_pos hzero]
    by_cases hfirst : first = 0
    · simp [hzero, hfirst]
    · simp [hzero, hfirst]
  · rw [if_neg hzero]
    by_cases hfirst : first = 0
    · simp [hzero, hfirst]
    · simp [hzero, hfirst]

theorem setsTimer_iff {new : Itimerval} (old : Itimerval) (hvalue : ValidTime new.itValue)
    (hinterval : ValidTime new.itInterval) :
    SetsTimer new (setitimer raise new old) ↔ OneTime new := by
  have hevenValue := nanoseconds_even hvalue.1 hvalue.2.1
  have hevenInterval := nanoseconds_even hinterval.1 hinterval.2.1
  have hasked : (setitimer raise new old).requests ≠ [] := by
    rw [setitimer_requests]
    exact List.cons_ne_nil _ _
  have htime : nanoseconds new.itInterval % 18446744073709551616 ≤ longest := by
    unfold longest
    omega
  unfold SetsTimer OneTime
  rw [setitimer_scheduled old hinterval.1 hinterval.2.1, Option.some.injEq, wanted_eq_iff htime]
  simp only [hasked, and_false, or_false]
  unfold longest at *
  omega

/-! `alarm` and `ualarm` -/

/-- `alarm(n)` asks for one signal after `n` seconds, or for none. -/
def Alarms (raise : RaiseInterval → BitVec 16) (seconds : BitVec 32) : Prop :=
  scheduled (alarm raise seconds).2 = some (wanted (seconds.toNat * 1000000000) 0)

instance (raise : RaiseInterval → BitVec 16) (seconds : BitVec 32) :
    Decidable (Alarms raise seconds) := inferInstanceAs (Decidable (_ = _))

theorem alarms_iff {seconds : BitVec 32} : Alarms raise seconds ↔ seconds = 0 := by
  have hperiod : scheduled (alarm raise seconds).2 = some .disarmed := by
    unfold alarm
    dsimp only
    rw [setitimer_requests]
    show some (if (0 : BitVec 64) * 1000000000 + 0 * 1000 = 0 then Schedule.disarmed else _) = _
    rw [if_pos (by decide)]
  unfold Alarms wanted
  rw [hperiod, Option.some.injEq]
  constructor
  · intro h
    by_contra hne
    have hpos : ¬ seconds.toNat * 1000000000 = 0 := by
      have hnat : seconds.toNat ≠ 0 := fun hzero => hne (BitVec.eq_of_toNat_eq hzero)
      omega
    rw [if_neg hpos] at h
    cases h
  · rintro rfl
    exact (if_pos (Nat.zero_mul _)).symm

/-- `ualarm` asks for a signal after the value and then every interval, in
microseconds. -/
def Ualarms (raise : RaiseInterval → BitVec 16) (itOld : Itimerval)
    (value interval : BitVec 32) : Prop :=
  scheduled (ualarm raise itOld value interval).2 =
    some (wanted (value.toNat * 1000) (interval.toNat * 1000))

theorem setWidth_toInt (x : BitVec 32) : (x.setWidth 64).toInt = x.toNat := by
  have hlt := x.isLt
  rw [BitVec.toInt_eq_toNat_cond, BitVec.toNat_setWidth]
  split <;> omega

theorem ualarms_iff {itOld : Itimerval} {value interval : BitVec 32} :
    Ualarms raise itOld value interval ↔ value = interval := by
  have hvalue := value.isLt
  have hinterval := interval.isLt
  have hmicro : nanoseconds ⟨0, interval.setWidth 64⟩ = interval.toNat * 1000 := by
    rw [nanoseconds, setWidth_toInt]
    show ((0 : Int) * 1000000000 + (interval.toNat : Int) * 1000).toNat = _
    omega
  have hscheduled : scheduled (ualarm raise itOld value interval).2 =
      some (wanted (interval.toNat * 1000) (interval.toNat * 1000)) := by
    have husec : 0 ≤ (interval.setWidth 64).toInt := by
      rw [setWidth_toInt]
      exact Int.natCast_nonneg _
    have hraw := @setitimer_scheduled raise
      ⟨⟨0, interval.setWidth 64⟩, ⟨0, value.setWidth 64⟩⟩ itOld (Int.le_refl 0) husec
    rw [hmicro, Nat.mod_eq_of_lt (by omega)] at hraw
    exact hraw
  unfold Ualarms
  rw [hscheduled, Option.some.injEq, wanted_eq_iff (by unfold longest; omega), ← BitVec.toNat_inj]
  unfold longest
  omega

/-- What `ualarm` returns is what the stack holds. -/
theorem ualarm_returns (itOld : Itimerval) (value interval : BitVec 32) :
    (ualarm raise itOld value interval).1 =
      (itOld.itValue.tvSec * 1000000 + itOld.itValue.tvUsec).setWidth 32 := by
  unfold ualarm
  dsimp only
  rw [setitimer_old]

/-- The value returned does not depend on memory that nothing initialises. -/
def UalarmDefined (raise : RaiseInterval → BitVec 16) (value interval : BitVec 32) : Prop :=
  ∀ itOld itOld' : Itimerval,
    (ualarm raise itOld value interval).1 = (ualarm raise itOld' value interval).1

theorem not_ualarmDefined (value interval : BitVec 32) :
    ¬ UalarmDefined raise value interval := by
  intro h
  have hsame := h zeroTimer { zeroTimer with itValue := ⟨0, 1⟩ }
  rw [ualarm_returns, ualarm_returns] at hsame
  exact absurd hsame (by decide)

/-- When each of the three calls does what it is for: `setitimer` with one time
only, `alarm` with 0 only, and `ualarm` never. -/
theorem interval_timers_iff {new : Itimerval} (old : Itimerval) (seconds value interval : BitVec 32)
    (hvalue : ValidTime new.itValue) (hinterval : ValidTime new.itInterval) :
    (SetsTimer new (setitimer raise new old) ↔ OneTime new) ∧
      (Alarms raise seconds ↔ seconds = 0) ∧
      (∀ itOld, Ualarms raise itOld value interval ↔ value = interval) ∧
      ¬ UalarmDefined raise value interval :=
  ⟨setsTimer_iff old hvalue hinterval, alarms_iff, fun _ => ualarms_iff,
    not_ualarmDefined value interval⟩

end

namespace TimerWitness

/-- A timer that comes every two seconds. -/
theorem every_two_seconds :
    SetsTimer ⟨⟨2, 0⟩, ⟨2, 0⟩⟩ (setitimer (fun _ => 0) ⟨⟨2, 0⟩, ⟨2, 0⟩⟩ zeroTimer) ∧
      Alarms (fun _ => 0) 0 ∧ Ualarms (fun _ => 0) zeroTimer 5 5 := by
  obtain ⟨hsets, halarms, hualarms, _⟩ :=
    @interval_timers_iff (fun _ => 0) ⟨⟨2, 0⟩, ⟨2, 0⟩⟩ zeroTimer 0 5 5 (by decide) (by decide)
  exact ⟨hsets.mpr (Or.inl ⟨rfl, by decide⟩), halarms.mpr rfl, (hualarms zeroTimer).mpr rfl⟩

/-- `alarm(5)` cancels; a timer of one second that is not to repeat is cancelled,
and one that is to be disarmed is armed. -/
theorem alarm_cancels : (alarm (fun _ => 0) 5).2 = [⟨SIGALRM, 0, true⟩] ∧
    ¬ Alarms (fun _ => 0) 5 ∧
    ¬ SetsTimer ⟨⟨0, 0⟩, ⟨1, 0⟩⟩ (setitimer (fun _ => 0) ⟨⟨0, 0⟩, ⟨1, 0⟩⟩ zeroTimer) ∧
    ¬ SetsTimer ⟨⟨1, 0⟩, ⟨0, 0⟩⟩ (setitimer (fun _ => 0) ⟨⟨1, 0⟩, ⟨0, 0⟩⟩ zeroTimer) ∧
    ¬ UalarmDefined (fun _ => 0) 5 5 := by
  refine ⟨by decide, by decide, ?_, ?_, not_ualarmDefined 5 5⟩
  · rintro (h | ⟨hlong | hlong, _⟩)
    · exact absurd h (by decide)
    · exact absurd hlong (by decide)
    · exact absurd hlong (by decide)
  · rintro (h | ⟨hlong | hlong, _⟩)
    · exact absurd h (by decide)
    · exact absurd hlong (by decide)
    · exact absurd hlong (by decide)

end TimerWitness

end IntervalTimer

end WasixLibc
