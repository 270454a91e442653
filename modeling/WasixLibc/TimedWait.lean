/-
Waits on a futex that have a deadline.

The deadline becomes a number of nanoseconds from now in three steps, in which
0 stands for no deadline and a result too large for 64 bits wraps.
-/
import Mathlib.Algebra.Order.Ring.Int
import Mathlib.Tactic.Ring
import WasixLibc.SystemTypes

namespace WasixLibc

namespace Futex

/-- `timestamp_to_timespec` -/
def timestampToTimespec (timestamp : BitVec 64) : Timespec where
  tvSec := timestamp / 1000000000
  tvNsec := (timestamp % 1000000000).setWidth 32

inductive Errno where
  | einval
  | ewouldblock
  | etimedout
  | eintr
  | ecanceled
deriving Repr, DecidableEq

/-- How a call ends; without an `errno` it returns 0. -/
inductive Outcome where
  | returned (errno : Option Errno)
  | trapped
deriving Repr, DecidableEq

/-- What a call meets: the clock, the futex and its value before and after the
wait, and the answer of the host. -/
structure Env where
  clock : Option (BitVec 64)
  addr : BitVec 32
  value : BitVec 32
  valueAfter : BitVec 32
  hostOk : Bool := true
  woken : Bool

/-- The timeouts of the calls to the host's `futex_wait`, `none` for no
timeout, and the end of the call. -/
abbrev Waits := List (Option (BitVec 64)) × Outcome

/-- `__wasilibc_futex_wait_wasix` -/
def futexWaitWasix (env : Env) (expected : BitVec 32) (maxWaitNs : BitVec 64) : Waits :=
  if env.addr &&& 3 ≠ 0 then ([], .returned (some .einval))
  else
    let timeout := if BitVec.slt 0 maxWaitNs then some maxWaitNs else none
    if env.value ≠ expected then ([], .returned (some .ewouldblock))
    else if !env.hostOk then ([timeout], .trapped)
    else if !env.woken && env.valueAfter == expected then
      ([timeout], .returned (some .etimedout))
    else ([timeout], .returned none)

/-- `__futex4_cp` -/
def futex4Cp (env : Env) (val : BitVec 32) (top : Option Timespec) : Waits :=
  let maxWaitNs :=
    match top with
    | some rel => rel.tvSec * 1000000000 + rel.tvNsec.signExtend 64
    | none => -1
  futexWaitWasix env val maxWaitNs

/-- The time from `now` to `deadline`. -/
def remaining (deadline now : Timespec) : Timespec :=
  let tvSec := deadline.tvSec - now.tvSec
  let tvNsec := deadline.tvNsec - now.tvNsec
  if BitVec.slt tvNsec 0 then ⟨tvSec - 1, tvNsec + 1000000000⟩ else ⟨tvSec, tvNsec⟩

/-- `if (r != EINTR && r != ETIMEDOUT && r != ECANCELED) r = 0` -/
def reported : Option Errno → Option Errno
  | some .eintr => some .eintr
  | some .etimedout => some .etimedout
  | some .ecanceled => some .ecanceled
  | _ => none

def reportedOutcome : Waits → Waits
  | (timeouts, .returned errno) => (timeouts, .returned (reported errno))
  | (timeouts, .trapped) => (timeouts, .trapped)

/-- `__timedwait_cp` -/
def timedwaitCp (env : Env) (val : BitVec 32) (deadline : Option Timespec) : Waits :=
  match deadline with
  | none => reportedOutcome (futex4Cp env val none)
  | some deadline =>
      if BitVec.ule 1000000000 deadline.tvNsec then ([], .returned (some .einval))
      else
        match env.clock with
        | none => ([], .returned (some .einval))
        | some now =>
            let rel := remaining deadline (timestampToTimespec now)
            if BitVec.slt rel.tvSec 0 then ([], .returned (some .etimedout))
            else reportedOutcome (futex4Cp env val (some rel))

/-! The time that remains -/

/-- Nanoseconds from `now` to `deadline`, as a number. -/
def ahead (deadline : Timespec) (now : BitVec 64) : Int :=
  deadline.tvSec.toInt * 1000000000 + deadline.tvNsec.toNat - now.toNat

section Remaining

variable {deadline : Timespec} {now : BitVec 64}

theorem timestampToTimespec_tvSec (now : BitVec 64) :
    (timestampToTimespec now).tvSec.toInt = (now.toNat / 1000000000 : Nat) := by
  have hdiv : (timestampToTimespec now).tvSec.toNat = now.toNat / 1000000000 := BitVec.toNat_udiv
  rw [BitVec.toInt_eq_toNat_of_lt (by omega), hdiv]

theorem timestampToTimespec_tvNsec (now : BitVec 64) :
    (timestampToTimespec now).tvNsec.toNat = now.toNat % 1000000000 := by
  have hmod : (now % 1000000000).toNat = now.toNat % 1000000000 := BitVec.toNat_umod
  unfold timestampToTimespec
  rw [BitVec.toNat_setWidth, hmod]
  omega

/-- Nanoseconds below a second do not wrap. -/
theorem toInt_sub_tvNsec {x y : BitVec 32} (hx : x.toNat < 1000000000) (hy : y.toNat < 1000000000) :
    (x - y).toInt = (x.toNat : Int) - y.toNat := by
  rw [BitVec.toInt_sub, BitVec.toInt_eq_toNat_of_lt (by omega),
    BitVec.toInt_eq_toNat_of_lt (by omega)]
  exact Int.bmod_eq_of_le (by omega) (by omega)

variable (now) in
/-- The seconds and the nanoseconds are quotient and remainder; only the
seconds can wrap. -/
theorem remaining_spec (hvalid : deadline.tvNsec.toNat < 1000000000) :
    (remaining deadline (timestampToTimespec now)).tvSec.toInt =
        (ahead deadline now / 1000000000).bmod (2 ^ 64) ∧
      (remaining deadline (timestampToTimespec now)).tvNsec.toInt =
        ahead deadline now % 1000000000 := by
  have hsec := timestampToTimespec_tvSec now
  have hnsec := timestampToTimespec_tvNsec now
  have hdiff : (deadline.tvNsec - (timestampToTimespec now).tvNsec).toInt =
      (deadline.tvNsec.toNat : Int) - (now.toNat % 1000000000 : Nat) := by
    rw [toInt_sub_tvNsec hvalid (by omega), hnsec]
  have hquot : (deadline.tvSec - (timestampToTimespec now).tvSec).toInt =
      (deadline.tvSec.toInt - (now.toNat / 1000000000 : Nat)).bmod (2 ^ 64) := by
    rw [BitVec.toInt_sub, hsec]
  have hzero : (0 : BitVec 32).toInt = 0 := rfl
  have hone : (1 : BitVec 64).toInt = 1 := rfl
  have hbillion : (1000000000 : BitVec 32).toInt = 1000000000 := rfl
  unfold remaining ahead
  simp only [BitVec.slt_iff_toInt_lt, hdiff, hzero]
  split
  · rename_i hborrow
    constructor
    · rw [BitVec.toInt_sub, hquot, hone, Int.bmod_sub_bmod]
      congr 1
      omega
    · rw [BitVec.toInt_add, hdiff, hbillion, Int.bmod_eq_of_le (by omega) (by omega)]
      omega
  · constructor
    · rw [hquot]
      congr 1
      omega
    · rw [hdiff]
      omega

theorem maxWaitNs_spec (hvalid : deadline.tvNsec.toNat < 1000000000) :
    ((remaining deadline (timestampToTimespec now)).tvSec * 1000000000 +
        (remaining deadline (timestampToTimespec now)).tvNsec.signExtend 64).toInt =
      (ahead deadline now).bmod (2 ^ 64) := by
  obtain ⟨hsec, hnsec⟩ := remaining_spec now hvalid
  have hbillion : (1000000000 : BitVec 64).toInt = 1000000000 := rfl
  rw [BitVec.toInt_add, BitVec.toInt_mul, BitVec.toInt_signExtend_of_le (by omega), hsec, hnsec,
    hbillion, Int.bmod_mul_bmod, Int.bmod_add_bmod]
  congr 1
  omega

end Remaining

/-! The timeout -/

/-- The host is called. -/
def Reaches (env : Env) (val : BitVec 32) : Prop := env.addr &&& 3 = 0 ∧ env.value = val

theorem futexWaitWasix_timeouts (env : Env) (expected : BitVec 32) (maxWaitNs : BitVec 64) :
    (futexWaitWasix env expected maxWaitNs).1 =
      if env.addr &&& 3 = 0 ∧ env.value = expected then
        [if BitVec.slt 0 maxWaitNs then some maxWaitNs else none]
      else [] := by
  unfold futexWaitWasix
  by_cases haddr : env.addr &&& 3 = 0
  · by_cases hvalue : env.value = expected
    · simp only [haddr, hvalue, ne_eq, not_true_eq_false, ↓reduceIte, and_self]
      split
      · rfl
      · split <;> rfl
    · simp only [haddr, hvalue, ne_eq, not_true_eq_false, not_false_eq_true, ↓reduceIte, and_false]
  · simp only [haddr, ne_eq, not_false_eq_true, ↓reduceIte, false_and]

theorem reportedOutcome_timeouts (waits : Waits) : (reportedOutcome waits).1 = waits.1 := by
  obtain ⟨timeouts, outcome⟩ := waits
  cases outcome <;> rfl

/-- The largest timeout there is for what is too far ahead. -/
def saturated (ns : Int) : BitVec 64 := BitVec.ofInt 64 (min ns 9223372036854775807)

/-- A deadline that has passed is reported without a wait, and a wait for any
other one has its time, or the longest there is. -/
def BoundedWait (env : Env) (val : BitVec 32) (deadline : Timespec) (now : BitVec 64) : Prop :=
  if ahead deadline now ≤ 0 then
    timedwaitCp env val (some deadline) = ([], .returned (some .etimedout))
  else
    ∀ timeout ∈ (timedwaitCp env val (some deadline)).1,
      timeout = some (saturated (ahead deadline now))

/-- The seconds that remain can be counted, and a time that is passed to the
host fits, or comes back to the longest one when it wraps. -/
def Expressible (env : Env) (val : BitVec 32) (deadline : Timespec) (now : BitVec 64) : Prop :=
  -9223372036854775808 * 1000000000 ≤ ahead deadline now ∧ ahead deadline now < 0 ∨
  0 < ahead deadline now ∧ (Reaches env val →
    ahead deadline now < 9223372036854775808 ∨
      ahead deadline now % 18446744073709551616 = 9223372036854775807)

theorem futexWaitWasix_reported_ne (env : Env) (expected : BitVec 32) (maxWaitNs : BitVec 64) :
    reportedOutcome (futexWaitWasix env expected maxWaitNs) ≠
      ([], .returned (some .etimedout)) := by
  unfold futexWaitWasix
  dsimp only
  generalize (if BitVec.slt 0 maxWaitNs then some maxWaitNs else none) = timeout
  split
  · simp [reportedOutcome, reported]
  · split
    · simp [reportedOutcome, reported]
    · split
      · simp [reportedOutcome]
      · split <;> simp [reportedOutcome]

theorem slt_zero_iff_toInt {ns : BitVec 64} : BitVec.slt 0 ns = true ↔ 0 < ns.toInt := by
  rw [BitVec.slt_iff_toInt_lt]
  rfl

/-- The timeout that is made of a wrapped number of nanoseconds. -/
theorem timeout_eq_saturated_iff {ns : BitVec 64} {d : Int} (hns : ns.toInt = d.bmod (2 ^ 64))
    (hd : 0 < d) :
    (if BitVec.slt 0 ns then some ns else none) = some (saturated d) ↔
      d < 9223372036854775808 ∨ d % 18446744073709551616 = 9223372036854775807 := by
  have hsaturated : (saturated d).toInt = min d 9223372036854775807 := by
    unfold saturated
    rw [BitVec.toInt_ofInt]
    exact Int.bmod_eq_of_le (by omega) (by omega)
  rw [Int.bmod_eq_emod] at hns
  by_cases hpositive : 0 < ns.toInt
  · rw [if_pos (slt_zero_iff_toInt.mpr hpositive), Option.some.injEq, ← BitVec.toInt_inj,
      hsaturated]
    split at hns <;> omega
  · rw [if_neg (fun hslt => hpositive (slt_zero_iff_toInt.mp hslt))]
    simp only [reduceCtorEq, false_iff]
    split at hns <;> omega

section Deadline

variable {env : Env} {val : BitVec 32} {deadline : Timespec} {now : BitVec 64}
variable (hvalid : deadline.tvNsec.toNat < 1000000000) (hclock : env.clock = some now)

include hvalid hclock

theorem timedwaitCp_eq : timedwaitCp env val (some deadline) =
    if (ahead deadline now / 1000000000).bmod (2 ^ 64) < 0 then ([], .returned (some .etimedout))
    else
      reportedOutcome
        (futex4Cp env val (some (remaining deadline (timestampToTimespec now)))) := by
  have hnsec : BitVec.ule 1000000000 deadline.tvNsec = false := by
    rw [BitVec.ule_eq_decide, decide_eq_false_iff_not]
    exact not_le.mpr hvalid
  have hzero : (0 : BitVec 64).toInt = 0 := rfl
  unfold timedwaitCp
  simp only [hnsec, hclock, BitVec.slt_iff_toInt_lt, (remaining_spec now hvalid).1, hzero,
    Bool.false_eq_true, ↓reduceIte]

theorem timedwaitCp_of_passed (hleast : -9223372036854775808 * 1000000000 ≤ ahead deadline now)
    (hpassed : ahead deadline now < 0) :
    timedwaitCp env val (some deadline) = ([], .returned (some .etimedout)) := by
  rw [timedwaitCp_eq hvalid hclock, if_pos]
  rw [Int.bmod_eq_of_le (by omega) (by omega)]
  omega

/-- A deadline too long ago comes back as one far ahead. -/
theorem timedwaitCp_of_not_passed (h : ahead deadline now < -9223372036854775808 * 1000000000 ∨
    0 ≤ ahead deadline now) :
    timedwaitCp env val (some deadline) = reportedOutcome
      (futex4Cp env val (some (remaining deadline (timestampToTimespec now)))) := by
  have hleast := BitVec.le_toInt deadline.tvSec
  have hmost := BitVec.toInt_lt (x := deadline.tvSec)
  have hnow := now.isLt
  rw [timedwaitCp_eq hvalid hclock, if_neg]
  unfold ahead at *
  rw [Int.bmod_eq_emod]
  split <;> omega

/-- A call that comes to the futex does not report a deadline that has passed
without a wait. -/
theorem timedwaitCp_ne_of_not_passed (h : ahead deadline now < -9223372036854775808 * 1000000000 ∨
    0 ≤ ahead deadline now) :
    timedwaitCp env val (some deadline) ≠ ([], .returned (some .etimedout)) := by
  rw [timedwaitCp_of_not_passed hvalid hclock h]
  exact futexWaitWasix_reported_ne env val _

/-- A deadline ahead has its time, unless that wraps on its way to the host. -/
theorem timeouts_of_ahead (hahead : 0 < ahead deadline now) :
    (∀ timeout ∈ (timedwaitCp env val (some deadline)).1,
      timeout = some (saturated (ahead deadline now))) ↔
    (Reaches env val → ahead deadline now < 9223372036854775808 ∨
      ahead deadline now % 18446744073709551616 = 9223372036854775807) := by
  rw [timedwaitCp_of_not_passed hvalid hclock (Or.inr hahead.le), reportedOutcome_timeouts]
  unfold futex4Cp Reaches
  rw [futexWaitWasix_timeouts]
  split
  · rename_i hreaches
    rw [List.forall_mem_singleton, timeout_eq_saturated_iff (maxWaitNs_spec hvalid) hahead]
    simp only [hreaches, and_self, forall_const]
  · rename_i hreaches
    simp only [hreaches, List.not_mem_nil, false_implies, implies_true]

/-- A deadline has its time exactly if that is expressible. -/
theorem boundedWait_iff : BoundedWait env val deadline now ↔ Expressible env val deadline now := by
  unfold BoundedWait Expressible
  by_cases hahead : 0 < ahead deadline now
  · rw [if_neg (not_le.mpr hahead), timeouts_of_ahead hvalid hclock hahead]
    have hnot : ¬ ahead deadline now < 0 := by omega
    simp only [hnot, and_false, hahead, true_and, false_or]
  · rw [if_pos (not_lt.mp hahead)]
    by_cases hpassed : -9223372036854775808 * 1000000000 ≤ ahead deadline now ∧
        ahead deadline now < 0
    · simp only [timedwaitCp_of_passed hvalid hclock hpassed.1 hpassed.2, hpassed.1, hpassed.2,
        and_self, true_or]
    · have hnever : timedwaitCp env val (some deadline) ≠ ([], .returned (some .etimedout)) :=
        timedwaitCp_ne_of_not_passed hvalid hclock (by omega)
      simp only [hnever, hpassed, hahead, false_and, or_self]

end Deadline

namespace WaitWitness

/-- A futex that holds 1, at second 5 of the clock. -/
def env : Env where
  clock := some 5000000000
  addr := 4096
  value := 1
  valueAfter := 0
  woken := true

/-- Half a second later. -/
theorem half_second : BoundedWait env 1 ⟨5, 500000000⟩ 5000000000 :=
  (boundedWait_iff (by decide) rfl).mpr (Or.inr ⟨by decide, fun _ => Or.inl (by decide)⟩)

/-- A deadline that is now waits without an end. -/
theorem now_waits : ¬ ∀ (env : Env) (val : BitVec 32) (deadline : Timespec) (now : BitVec 64),
    deadline.tvNsec.toNat < 1000000000 → env.clock = some now →
    BoundedWait env val deadline now := by
  intro h
  have hwait := h env 1 ⟨5, 0⟩ 5000000000 (by decide) rfl
  unfold BoundedWait at hwait
  rw [if_pos (by decide)] at hwait
  have hforever : timedwaitCp env 1 (some ⟨5, 0⟩) = ([none], .returned none) := by
    decide
  rw [hforever] at hwait
  cases hwait

end WaitWitness

end Futex

end WasixLibc
