/-
The timeouts of `select` and `pselect`, which are times from now that the host
is given as a number of nanoseconds.
-/
import WasixLibc.TimedWait

namespace WasixLibc

namespace Select

/-- `__builtin_mul_overflow` and `__builtin_add_overflow` for 64 unsigned bits:
whether the exact result fails to fit, and what is stored. -/
def storeExact (exact : Int) : Bool × BitVec 64 :=
  (decide (exact < 0 ∨ 18446744073709551616 ≤ exact), BitVec.ofInt 64 exact)

/-- `timespec_to_timestamp_clamp`, or `none` where it returns false. -/
def timespecToTimestampClamp (timespec : Timespec) : Option (BitVec 64) :=
  if BitVec.slt timespec.tvNsec 0 || BitVec.sle 1000000000 timespec.tvNsec then none
  else if BitVec.sle timespec.tvSec 0 then some 1
  else
    let product := storeExact (timespec.tvSec.toInt * 1000000000)
    let sum := storeExact (product.2.toNat + timespec.tvNsec.toInt)
    if product.1 || sum.1 then some (BitVec.allOnes 64) else some sum.2

/-- The first `__nfds` descriptors of an `fd_set`. -/
abbrev FdSet := List (BitVec 32)

inductive ClockId where
  | realtime
deriving Repr, DecidableEq

inductive Subscription where
  | fdRead (userdata : BitVec 64) (fileDescriptor : BitVec 32)
  | fdWrite (userdata : BitVec 64) (fileDescriptor : BitVec 32)
  | clock (userdata : BitVec 64) (id : ClockId) (timeout precision : BitVec 64)
      (flags : BitVec 16)
deriving Repr, DecidableEq

inductive EventType where
  | clock
  | fdRead
  | fdWrite
deriving Repr, DecidableEq

structure Event where
  userdata : BitVec 64
  error : Errno
  type : EventType
deriving Repr, DecidableEq

/-- What a call hands to `poll_oneoff`, if it comes to that, and its end: an
errno, or the number of ready descriptors and the two sets. -/
structure Polled where
  subscriptions : Option (List Subscription)
  result : Except Errno (Nat × FdSet × FdSet)

/-- The subscriptions of one set; those below `nfds` are of interest. -/
def subscribe (kind : BitVec 64 → BitVec 32 → Subscription) (nfds : BitVec 32) (fds : FdSet) :
    List Subscription :=
  (fds.filter (fun fd => BitVec.slt fd nfds)).map (fun fd => kind (fd.signExtend 64) fd)

/-- The descriptors of the events of one type. -/
def readyFds (type : EventType) (events : List Event) : FdSet :=
  (events.filter (fun event => event.type = type)).map (fun event => event.userdata.setWidth 32)

def badFd (event : Event) : Bool :=
  (event.type = .fdRead || event.type = .fdWrite) && event.error = EBADF

/-- `pselect` -/
def pselect (pollOneoff : List Subscription → Except Errno (List Event)) (nfds : BitVec 32)
    (readfds writefds errorfds : Option FdSet) (timeout : Option Timespec) : Polled :=
  if BitVec.slt nfds 0 then ⟨none, .error EINVAL⟩
  else if (errorfds.getD []).length > 0 then ⟨none, .error ENOSYS⟩
  else
    let fdSubscriptions := subscribe .fdRead nfds (readfds.getD []) ++
      subscribe .fdWrite nfds (writefds.getD [])
    let clocks : Option (List Subscription) :=
      match timeout with
      | none => some []
      | some timeout =>
          (timespecToTimestampClamp timeout).map
            (fun timestamp => [.clock 0 .realtime timestamp 0 0])
    match clocks with
    | none => ⟨none, .error EINVAL⟩
    | some clocks =>
        let subscriptions := fdSubscriptions ++ clocks
        match pollOneoff subscriptions with
        | .error error =>
            ⟨some subscriptions, .error (if subscriptions.length = 0 then ENOTSUP else error)⟩
        | .ok events =>
            if events.any badFd then ⟨some subscriptions, .error EBADF⟩
            else
              let reads := readyFds .fdRead events
              let writes := readyFds .fdWrite events
              -- Two null pointers stand for one and the same empty set.
              let shared := if readfds.isNone && writefds.isNone then 2 else 1
              ⟨some subscriptions, .ok (shared * (reads.length + writes.length), reads, writes)⟩

/-- `select` -/
def select (pollOneoff : List Subscription → Except Errno (List Event)) (nfds : BitVec 32)
    (readfds writefds errorfds : Option FdSet) (timeout : Option Timeval) : Polled :=
  match timeout with
  | some timeout =>
      if BitVec.slt timeout.tvUsec 0 || BitVec.sle 1000000 timeout.tvUsec then
        ⟨none, .error EINVAL⟩
      else
        pselect pollOneoff nfds readfds writefds errorfds
          (some ⟨timeout.tvSec, timeout.tvUsec.setWidth 32 * 1000⟩)
  | none => pselect pollOneoff nfds readfds writefds errorfds none

/-! The time that is asked for -/

/-- The nanoseconds of a `timespec`. -/
def requested (timespec : Timespec) : Int :=
  timespec.tvSec.toInt * 1000000000 + timespec.tvNsec.toInt

/-- The nanoseconds of a `timeval`. -/
def requestedTimeval (timeval : Timeval) : Int :=
  timeval.tvSec.toInt * 1000000000 + timeval.tvUsec.toInt * 1000

/-- A time that has come is waited for as little as possible, and a time too
far ahead as long as possible. -/
def clamped (time : Int) : Int := if 0 < time then min time longest else 1

section Clamp

variable {timespec : Timespec}

/-- `0 <= tv_nsec < 10^9` -/
def ValidNsec (timespec : Timespec) : Prop :=
  0 ≤ timespec.tvNsec.toInt ∧ timespec.tvNsec.toInt < 1000000000

instance (timespec : Timespec) : Decidable (ValidNsec timespec) :=
  inferInstanceAs (Decidable (_ ∧ _))

/-- A whole number of seconds is waited for, except that a part of the first
second is nothing. -/
def codeTime (timespec : Timespec) : Int :=
  if 0 < timespec.tvSec.toInt then min (requested timespec) longest else 1

theorem storeExact_of_fits {exact : Int} (hnonneg : 0 ≤ exact)
    (hlt : exact < 18446744073709551616) :
    (storeExact exact).1 = false ∧ ((storeExact exact).2.toNat : Int) = exact := by
  constructor
  · simp only [storeExact, decide_eq_false_iff_not]
    omega
  · simp only [storeExact, BitVec.toNat_ofInt]
    omega

theorem storeExact_of_not_fits {exact : Int} (hle : 18446744073709551616 ≤ exact) :
    (storeExact exact).1 = true := by
  simp only [storeExact, decide_eq_true_eq]
  exact Or.inr hle

/-- What is left of the conversion of a valid `timespec`. -/
theorem timespecToTimestampClamp_of_valid (hvalid : ValidNsec timespec) :
    timespecToTimestampClamp timespec =
      if timespec.tvSec.toInt ≤ 0 then some 1
      else
        let product := storeExact (timespec.tvSec.toInt * 1000000000)
        let sum := storeExact (product.2.toNat + timespec.tvNsec.toInt)
        if product.1 || sum.1 then some (BitVec.allOnes 64) else some sum.2 := by
  have hzero : (0 : BitVec 32).toInt = 0 := rfl
  have hbillion : (1000000000 : BitVec 32).toInt = 1000000000 := rfl
  have hzero' : (0 : BitVec 64).toInt = 0 := rfl
  have hnsec : (BitVec.slt timespec.tvNsec 0 || BitVec.sle 1000000000 timespec.tvNsec) = false := by
    rw [Bool.or_eq_false_iff, BitVec.slt_eq_decide, BitVec.sle_eq_decide, hzero, hbillion]
    exact ⟨decide_eq_false (not_lt.mpr hvalid.1), decide_eq_false (not_le.mpr hvalid.2)⟩
  unfold timespecToTimestampClamp
  simp only [hnsec, Bool.false_eq_true, ↓reduceIte, BitVec.sle_iff_toInt_le, hzero']

/-- Of the two operations that can overflow, the first does so only where the
second would as well. -/
theorem timespecToTimestampClamp_spec (hvalid : ValidNsec timespec) :
    ∃ timestamp, timespecToTimestampClamp timespec = some timestamp ∧
      (timestamp.toNat : Int) = codeTime timespec := by
  rw [timespecToTimestampClamp_of_valid hvalid]
  obtain ⟨hnonneg, hlt⟩ := hvalid
  unfold codeTime requested longest
  by_cases hpositive : 0 < timespec.tvSec.toInt
  · rw [if_neg (not_le.mpr hpositive), if_pos hpositive]
    by_cases hproduct : timespec.tvSec.toInt * 1000000000 < 18446744073709551616
    · obtain ⟨hfits, hvalue⟩ := storeExact_of_fits (by omega) hproduct
      simp only [hfits, hvalue, Bool.false_or]
      by_cases hsum :
          timespec.tvSec.toInt * 1000000000 + timespec.tvNsec.toInt < 18446744073709551616
      · obtain ⟨hfits, hvalue⟩ := storeExact_of_fits (by omega) hsum
        refine ⟨_, if_neg (Bool.eq_false_iff.mp hfits), ?_⟩
        rw [hvalue]
        omega
      · refine ⟨_, if_pos (storeExact_of_not_fits (not_lt.mp hsum)), ?_⟩
        rw [BitVec.toNat_allOnes]
        omega
    · simp only [storeExact_of_not_fits (not_lt.mp hproduct), Bool.true_or, ↓reduceIte]
      refine ⟨_, rfl, ?_⟩
      rw [BitVec.toNat_allOnes]
      omega
  · rw [if_pos (not_lt.mp hpositive), if_neg hpositive]
    exact ⟨1, rfl, rfl⟩

theorem toNat_eq_codeTime (hvalid : ValidNsec timespec) {timestamp : BitVec 64}
    (hclamp : timespecToTimestampClamp timespec = some timestamp) :
    (timestamp.toNat : Int) = codeTime timespec := by
  obtain ⟨stored, hstored, hvalue⟩ := timespecToTimestampClamp_spec hvalid
  rw [hclamp, Option.some.injEq] at hstored
  rw [hstored, hvalue]

/-- There is no part of the first second that is dropped. -/
def Counted (timespec : Timespec) : Prop := timespec.tvSec ≠ 0 ∨ timespec.tvNsec.toInt ≤ 1

instance (timespec : Timespec) : Decidable (Counted timespec) :=
  inferInstanceAs (Decidable (_ ∨ _))

theorem counted_iff : Counted timespec ↔ timespec.tvSec.toInt ≠ 0 ∨ timespec.tvNsec.toInt ≤ 1 := by
  have hzero : (0 : BitVec 64).toInt = 0 := rfl
  unfold Counted
  rw [ne_eq, ne_eq, ← BitVec.toInt_inj, hzero]

theorem codeTime_eq_clamped_iff (hvalid : ValidNsec timespec) :
    codeTime timespec = clamped (requested timespec) ↔ Counted timespec := by
  obtain ⟨hnonneg, hlt⟩ := hvalid
  rw [counted_iff]
  unfold codeTime clamped requested longest
  split <;> split <;> omega

/-- The time that is asked for is converted, and clamped at both ends. -/
def Clamps (timespec : Timespec) : Prop :=
  ∃ timestamp, timespecToTimestampClamp timespec = some timestamp ∧
    (timestamp.toNat : Int) = clamped (requested timespec)

theorem clamps_iff (hvalid : ValidNsec timespec) : Clamps timespec ↔ Counted timespec := by
  rw [← codeTime_eq_clamped_iff hvalid]
  constructor
  · rintro ⟨timestamp, hclamp, hvalue⟩
    rw [← hvalue, toNat_eq_codeTime hvalid hclamp]
  · intro heq
    obtain ⟨timestamp, hclamp, hvalue⟩ := timespecToTimestampClamp_spec hvalid
    exact ⟨timestamp, hclamp, hvalue.trans heq⟩

theorem codeTime_mono {earlier later : Timespec} (hvalid : ValidNsec earlier)
    (hvalid' : ValidNsec later) (hle : requested earlier ≤ requested later) :
    codeTime earlier ≤ codeTime later := by
  obtain ⟨hnonneg, hlt⟩ := hvalid
  obtain ⟨hnonneg', hlt'⟩ := hvalid'
  unfold codeTime requested longest at *
  split <;> split <;> omega

/-- The time is not cut short, except to the longest there is. -/
def NotShorter (time : Int) (timestamp : BitVec 64) : Prop :=
  time ≤ timestamp.toNat ∨ (timestamp.toNat : Int) = longest

theorem notShorter_iff (hvalid : ValidNsec timespec) {timestamp : BitVec 64}
    (hclamp : timespecToTimestampClamp timespec = some timestamp) :
    NotShorter (requested timespec) timestamp ↔ Counted timespec := by
  unfold NotShorter
  rw [toNat_eq_codeTime hvalid hclamp, counted_iff]
  obtain ⟨hnonneg, hlt⟩ := hvalid
  unfold codeTime requested longest
  split <;> omega

end Clamp

section Host

variable (pollOneoff : List Subscription → Except Errno (List Event)) (nfds : BitVec 32)
variable (readfds writefds errorfds : Option FdSet)

def isClock : Subscription → Bool
  | .clock .. => true
  | _ => false

/-- The host is given one clock, without the flag for a time of its own, and a
timeout that is not shorter than `time`. -/
def GivesTimeout (subscriptions : List Subscription) (time : Int) : Prop :=
  ∃ timestamp, subscriptions.filter isClock = [.clock 0 .realtime timestamp 0 0] ∧
    NotShorter time timestamp

/-- `0 <= tv_usec < 10^6` -/
def ValidUsec (timeval : Timeval) : Prop :=
  0 ≤ timeval.tvUsec.toInt ∧ timeval.tvUsec.toInt < 1000000

instance (timeval : Timeval) : Decidable (ValidUsec timeval) :=
  inferInstanceAs (Decidable (_ ∧ _))

/-- Neither of the first two checks of `pselect` fails. -/
def Polls (nfds : BitVec 32) (errorfds : Option FdSet) : Prop :=
  BitVec.slt nfds 0 = false ∧ errorfds.getD [] = []

instance (nfds : BitVec 32) (errorfds : Option FdSet) : Decidable (Polls nfds errorfds) :=
  inferInstanceAs (Decidable (_ ∧ _))

theorem filter_isClock_subscribe {kind : BitVec 64 → BitVec 32 → Subscription}
    (hkind : ∀ userdata fd, isClock (kind userdata fd) = false) (fds : FdSet) :
    (subscribe kind nfds fds).filter isClock = [] := by
  rw [List.filter_eq_nil_iff]
  intro subscription hmem
  obtain ⟨fd, -, rfl⟩ := List.mem_map.mp hmem
  rw [hkind]
  exact Bool.false_ne_true

variable {nfds errorfds}

/-- The one clock of a call comes after the descriptors. -/
theorem pselect_subscriptions (hpolls : Polls nfds errorfds) {timespec : Timespec}
    {timestamp : BitVec 64} (hclamp : timespecToTimestampClamp timespec = some timestamp) :
    (pselect pollOneoff nfds readfds writefds errorfds (some timespec)).subscriptions =
      some (subscribe .fdRead nfds (readfds.getD []) ++
        subscribe .fdWrite nfds (writefds.getD []) ++
        [.clock 0 .realtime timestamp 0 0]) := by
  unfold pselect
  simp only [hpolls.1, hpolls.2, hclamp, Option.map_some, List.length_nil, gt_iff_lt,
    lt_self_iff_false, Bool.false_eq_true, ↓reduceIte]
  split
  · rfl
  · split <;> rfl

theorem givesTimeout_iff {fdSubscriptions : List Subscription}
    (hfds : fdSubscriptions.filter isClock = []) (timestamp : BitVec 64) (time : Int) :
    GivesTimeout (fdSubscriptions ++ [.clock 0 .realtime timestamp 0 0]) time ↔
      NotShorter time timestamp := by
  have hclock : (fdSubscriptions ++ [Subscription.clock 0 .realtime timestamp 0 0]).filter isClock =
      [Subscription.clock 0 .realtime timestamp 0 0] := by
    rw [List.filter_append, hfds]
    rfl
  unfold GivesTimeout
  rw [hclock]
  constructor
  · rintro ⟨timestamp', heq, hnot⟩
    cases heq
    exact hnot
  · exact fun hnot => ⟨timestamp, rfl, hnot⟩

theorem pselect_givesTimeout_iff (hpolls : Polls nfds errorfds) {timespec : Timespec}
    (hvalid : ValidNsec timespec) :
    ∃ subscriptions,
      (pselect pollOneoff nfds readfds writefds errorfds (some timespec)).subscriptions =
        some subscriptions ∧
      (GivesTimeout subscriptions (requested timespec) ↔ Counted timespec) := by
  obtain ⟨timestamp, hclamp, -⟩ := timespecToTimestampClamp_spec hvalid
  refine ⟨_, pselect_subscriptions pollOneoff readfds writefds hpolls hclamp, ?_⟩
  rw [givesTimeout_iff, notShorter_iff hvalid hclamp]
  rw [List.filter_append, filter_isClock_subscribe nfds (fun _ _ => rfl),
    filter_isClock_subscribe nfds (fun _ _ => rfl)]
  rfl

/-- The `timespec` that `select` makes of a `timeval`. -/
def ofTimeval (timeval : Timeval) : Timespec :=
  ⟨timeval.tvSec, timeval.tvUsec.setWidth 32 * 1000⟩

theorem ofTimeval_tvNsec {timeval : Timeval} (hvalid : ValidUsec timeval) :
    (ofTimeval timeval).tvNsec.toInt = timeval.tvUsec.toInt * 1000 := by
  obtain ⟨hnonneg, hlt⟩ := hvalid
  have hthousand : (1000 : BitVec 32).toInt = 1000 := rfl
  have hwidth : (timeval.tvUsec.setWidth 32).toInt = timeval.tvUsec.toInt := by
    rw [BitVec.toInt_eq_toNat_cond] at hnonneg hlt ⊢
    rw [BitVec.toInt_eq_toNat_cond, BitVec.toNat_setWidth]
    split at hnonneg <;> split at hlt <;> split <;> omega
  unfold ofTimeval
  rw [BitVec.toInt_mul, hwidth, hthousand, Int.bmod_eq_of_le (by omega) (by omega)]

theorem select_eq_pselect {timeval : Timeval} (hvalid : ValidUsec timeval) :
    select pollOneoff nfds readfds writefds errorfds (some timeval) =
      pselect pollOneoff nfds readfds writefds errorfds (some (ofTimeval timeval)) := by
  have hzero : (0 : BitVec 64).toInt = 0 := rfl
  have hmillion : (1000000 : BitVec 64).toInt = 1000000 := rfl
  refine if_neg (Bool.eq_false_iff.mp ?_)
  rw [Bool.or_eq_false_iff, BitVec.slt_eq_decide, BitVec.sle_eq_decide, hzero, hmillion]
  exact ⟨decide_eq_false (not_lt.mpr hvalid.1), decide_eq_false (not_le.mpr hvalid.2)⟩

/-- A part of the first second is a number of microseconds, which is never as
little as a nanosecond. -/
theorem select_givesTimeout_iff (hpolls : Polls nfds errorfds) {timeval : Timeval}
    (hvalid : ValidUsec timeval) :
    ∃ subscriptions,
      (select pollOneoff nfds readfds writefds errorfds (some timeval)).subscriptions =
        some subscriptions ∧
      (GivesTimeout subscriptions (requestedTimeval timeval) ↔
        timeval.tvSec ≠ 0 ∨ timeval.tvUsec = 0) := by
  have hnsec := ofTimeval_tvNsec hvalid
  have hvalid' : ValidNsec (ofTimeval timeval) := by
    unfold ValidNsec
    rw [hnsec]
    obtain ⟨hnonneg, hlt⟩ := hvalid
    omega
  have htime : requestedTimeval timeval = requested (ofTimeval timeval) := by
    unfold requestedTimeval requested
    rw [hnsec]
    rfl
  have hzero : (0 : BitVec 64).toInt = 0 := rfl
  rw [select_eq_pselect pollOneoff readfds writefds hvalid, htime]
  obtain ⟨subscriptions, hsubscriptions, hiff⟩ :=
    pselect_givesTimeout_iff pollOneoff readfds writefds hpolls hvalid'
  refine ⟨subscriptions, hsubscriptions, hiff.trans (or_congr Iff.rfl ?_)⟩
  rw [hnsec, ← BitVec.toInt_inj, hzero]
  have hnonneg := hvalid.1
  omega

end Host

/-- A time is converted, and passed on by both calls without being cut short,
exactly if it is no part of the first second; the order is kept in any case. -/
theorem relativeTimeouts_iff {timespec : Timespec} (hvalid : ValidNsec timespec)
    {timeval : Timeval} (husec : ValidUsec timeval)
    (pollOneoff : List Subscription → Except Errno (List Event)) (nfds : BitVec 32)
    (readfds writefds errorfds : Option FdSet) (hpolls : Polls nfds errorfds) :
    (Clamps timespec ↔ Counted timespec) ∧
    (∀ later, ValidNsec later → requested timespec ≤ requested later →
      ∃ timestamp timestamp', timespecToTimestampClamp timespec = some timestamp ∧
        timespecToTimestampClamp later = some timestamp' ∧ timestamp ≤ timestamp') ∧
    (∃ subscriptions,
      (pselect pollOneoff nfds readfds writefds errorfds (some timespec)).subscriptions =
        some subscriptions ∧
      (GivesTimeout subscriptions (requested timespec) ↔ Counted timespec)) ∧
    (∃ subscriptions,
      (select pollOneoff nfds readfds writefds errorfds (some timeval)).subscriptions =
        some subscriptions ∧
      (GivesTimeout subscriptions (requestedTimeval timeval) ↔
        timeval.tvSec ≠ 0 ∨ timeval.tvUsec = 0)) := by
  refine ⟨clamps_iff hvalid, ?_,
    pselect_givesTimeout_iff pollOneoff readfds writefds hpolls hvalid,
    select_givesTimeout_iff pollOneoff readfds writefds hpolls husec⟩
  intro later hvalid' hle
  obtain ⟨timestamp, hclamp, hvalue⟩ := timespecToTimestampClamp_spec hvalid
  obtain ⟨timestamp', hclamp', hvalue'⟩ := timespecToTimestampClamp_spec hvalid'
  refine ⟨timestamp, timestamp', hclamp, hclamp', ?_⟩
  have hmono := codeTime_mono hvalid hvalid' hle
  rw [BitVec.le_def]
  omega

namespace ClampWitness

/-- One and a half seconds. -/
theorem second_and_half : Clamps ⟨1, 500000000⟩ ∧
    ∃ subscriptions,
      (select (fun _ => .ok []) 0 none none none (some ⟨1, 500000⟩)).subscriptions =
        some subscriptions ∧
      GivesTimeout subscriptions 1500000000 := by
  obtain ⟨hclamps, -, -, subscriptions, hsubscriptions, hgives⟩ :=
    relativeTimeouts_iff (by decide : ValidNsec ⟨1, 500000000⟩)
      (by decide : ValidUsec ⟨1, 500000⟩) (fun _ => .ok []) 0 none none none ⟨by decide, rfl⟩
  exact ⟨hclamps.mpr (by decide), subscriptions, hsubscriptions, hgives.mpr (by decide)⟩

/-- Half a second is converted to a nanosecond. -/
theorem half_second_dropped :
    ¬ ∀ timespec, ValidNsec timespec → Clamps timespec := by
  intro h
  obtain ⟨timestamp, hclamp, hvalue⟩ := h ⟨0, 500000000⟩ (by decide)
  have hcode : timespecToTimestampClamp ⟨0, 500000000⟩ = some 1 := by decide
  rw [hcode, Option.some.injEq] at hclamp
  rw [← hclamp] at hvalue
  exact absurd hvalue (by decide)

end ClampWitness

end Select

end WasixLibc
