/-
The two loops of `__wait`, with and without a count of waiters, and `__timedwait`.

The word is compared with the value that is waited for in each turn of the spinning
loop, then before each call, in the call and by the host.  The host lets a thread
sleep only when it finds the value.  When it finds another one, it is documented to
answer `EINVAL`, on which the code traps; the hosts that answer without an error are
covered as well.
-/
import WasixLibc.FutexThreads
import WasixLibc.SystemTypes

namespace WasixLibc

namespace Sync

/-- Where a thread is in `__wait` without a count of waiters. -/
inductive WaitPoint where
  /-- `*addr==val`, with so many turns of the spinning loop left. -/
  | looking (spins : Nat)
  /-- `*paddr != expected` in `__wasilibc_futex_wait_wasix` -/
  | called
  /-- The host has not compared the word yet. -/
  | entering
  | asleep
deriving Repr, DecidableEq

/-- `spins` of `__wait`. -/
abbrev SPINS : Nat := 100

/-- An access of `__wait` for a caller that is in it at `stay` and goes on with `leave`, if the
word is, or is not, the value that is waited for. -/
def WaitPoint.turn {C : Type} (same : Bool) (stay : WaitPoint → C) (leave : C) :
    WaitPoint → Option C
  | .looking spins => some <|
      if same then stay (match spins with | 0 => .called | spins + 1 => .looking spins) else leave
  | .called => some (stay (if same then .entering else .looking 0))
  | .entering => if same then some (stay .asleep) else none
  | .asleep => none

/-- A host that finds another value, and answers without an error. -/
def WaitPoint.refused {C : Type} (same : Bool) (stay : WaitPoint → C) : WaitPoint → Option C
  | .entering => if same then none else some (stay (.looking 0))
  | _ => none

/-- A thread comes to the host, and falls asleep, only where the value has been found. -/
theorem WaitPoint.turn_cases {C : Type} {same : Bool} {stay : WaitPoint → C} {leave c : C}
    {point : WaitPoint} (hturn : point.turn same stay leave = some c) :
    point ≠ .asleep ∧ (c = leave ∨
      ∃ next, c = stay next ∧ (next = .asleep ∨ next = .entering → same = true)) := by
  cases point with
  | asleep => cases hturn
  | looking spins =>
      cases hturn
      refine ⟨by simp, ?_⟩
      cases same with
      | false => exact Or.inl rfl
      | true => exact Or.inr ⟨_, rfl, fun _ => rfl⟩
  | called =>
      cases hturn
      exact ⟨by simp, Or.inr ⟨_, rfl, by cases same <;> simp⟩⟩
  | entering =>
      cases same with
      | false => cases hturn
      | true =>
          cases hturn
          exact ⟨by simp, Or.inr ⟨_, rfl, fun _ => rfl⟩⟩

theorem WaitPoint.refused_cases {C : Type} {same : Bool} {stay : WaitPoint → C} {c : C}
    {point : WaitPoint} (hrefused : point.refused same stay = some c) :
    point = .entering ∧ same = false ∧ c = stay (.looking 0) := by
  cases point with
  | entering =>
      cases same with
      | true => cases hrefused
      | false =>
          cases hrefused
          exact ⟨rfl, rfl, rfl⟩
  | _ => cases hrefused

/-- The thread is in `__wait`, and neither sleeps nor is at the mercy of the host. -/
def WaitPoint.free : WaitPoint → Bool
  | .looking _ | .called => true
  | .entering | .asleep => false

/-- Such a thread leaves in two turns once the word has another value. -/
theorem WaitPoint.leaves_alone {S C T : Type} {p : FutexProgram S C T} {t : T} {memory : S}
    {stay : WaitPoint → C} {leave : C} {point : WaitPoint}
    (hrun : ∀ point : WaitPoint,
      p.run t memory (stay point) = (point.turn false stay leave).map fun c => (memory, c))
    (hfree : point.free = true) :
    ∃ n ≤ 2, p.alone t n memory (stay point) = some (memory, leave) := by
  cases point with
  | looking spins => exact ⟨1, by decide, by simp [FutexProgram.alone, hrun, turn]⟩
  | called => exact ⟨2, by decide, by simp [FutexProgram.alone, hrun, turn]⟩
  | entering => cases hfree
  | asleep => cases hfree

/-- Where a thread is in `__wait` with a count of waiters. -/
inductive CountedWait where
  /-- `!*waiters`, with so many turns of the spinning loop left after this one. -/
  | spinWaiters (spins : Nat)
  | spinLook (spins : Nat)
  | inc
  | test
  /-- `*paddr != expected` in `__wasilibc_futex_wait_wasix` -/
  | called
  /-- The host has not compared the word yet. -/
  | entering
  | asleep
  | dec
deriving Repr, DecidableEq

/-- The first turn of the spinning loop. -/
abbrev CountedWait.start : CountedWait := .spinWaiters 99

/-- An access of `__wait` for a caller that is in it at `stay` and goes on with `leave`, and the
count of waiters after it. -/
def CountedWait.turn {C : Type} (same : Bool) (waiters : Nat) (stay : CountedWait → C)
    (leave : C) : CountedWait → Option (Nat × C)
  | .spinWaiters spins => some (waiters, stay (if waiters ≠ 0 then .inc else .spinLook spins))
  | .spinLook spins => some (waiters,
      if same then stay (match spins with | 0 => .inc | spins + 1 => .spinWaiters spins)
      else leave)
  | .inc => some ((waiters + 1) % 0x100000000, stay .test)
  | .test => some (waiters, stay (if same then .called else .dec))
  | .called => some (waiters, stay (if same then .entering else .test))
  | .entering => if same then some (waiters, stay .asleep) else none
  | .asleep => none
  | .dec => some ((waiters + 0xffffffff) % 0x100000000, leave)

/-- A host that finds another value, and answers without an error. -/
def CountedWait.refused {C : Type} (same : Bool) (stay : CountedWait → C) :
    CountedWait → Option C
  | .entering => if same then none else some (stay .test)
  | _ => none

theorem CountedWait.refused_cases {C : Type} {same : Bool} {stay : CountedWait → C} {c : C}
    {point : CountedWait} (hrefused : point.refused same stay = some c) :
    point = .entering ∧ same = false ∧ c = stay .test := by
  cases point with
  | entering =>
      cases same with
      | true => cases hrefused
      | false =>
          cases hrefused
          exact ⟨rfl, rfl, rfl⟩
  | _ => cases hrefused

/-- The thread is in `__wait`, and neither sleeps nor is at the mercy of the host. -/
def CountedWait.free : CountedWait → Bool
  | .entering | .asleep => false
  | _ => true

theorem CountedWait.not_free {point : CountedWait} (hkept : ¬point.free = true) :
    point = .asleep ∨ point = .entering := by
  cases point with
  | asleep => exact Or.inl rfl
  | entering => exact Or.inr rfl
  | _ => exact absurd rfl hkept

/-- Such a thread leaves in four accesses once the word has another value. -/
theorem CountedWait.leaves_alone {S C T : Type} {p : FutexProgram S C T} {t : T}
    {memory : Nat → S} {stay : CountedWait → C} {leave : C} {point : CountedWait}
    (hrun : ∀ (waiters : Nat) (point : CountedWait), p.run t (memory waiters) (stay point) =
      (point.turn false waiters stay leave).map fun next => (memory next.1, next.2))
    (hfree : point.free = true) (waiters : Nat) :
    ∃ n ≤ 4, ∃ waiters', p.alone t n (memory waiters) (stay point) =
      some (memory waiters', leave) := by
  have hinc : ∃ waiters', p.alone t 3 (memory waiters) (stay .inc) =
      some (memory waiters', leave) := ⟨_, by simp [FutexProgram.alone, hrun, turn]; rfl⟩
  have htest : ∃ waiters', p.alone t 2 (memory waiters) (stay .test) =
      some (memory waiters', leave) := ⟨_, by simp [FutexProgram.alone, hrun, turn]; rfl⟩
  have hfirst : ∀ {point next : CountedWait}, point.turn false waiters stay leave =
      some (waiters, stay next) → p.alone t 1 (memory waiters) (stay point) =
        some (memory waiters, stay next) := by
    intro point next hturn
    simp [FutexProgram.alone, hrun, hturn]
  cases point with
  | entering => cases hfree
  | asleep => cases hfree
  | inc => exact ⟨3, by decide, hinc⟩
  | test => exact ⟨2, by decide, htest⟩
  | dec => exact ⟨1, by decide, _, by simp [FutexProgram.alone, hrun, turn]; rfl⟩
  | spinLook spins =>
      exact ⟨1, by decide, waiters, by simp [FutexProgram.alone, hrun, turn]⟩
  | called =>
      obtain ⟨waiters', hrest⟩ := htest
      exact ⟨1 + 2, by decide, waiters', (FutexProgram.alone_add (hfirst rfl)).trans hrest⟩
  | spinWaiters spins =>
      by_cases hnone : waiters = 0
      · refine ⟨2, by decide, waiters, ?_⟩
        simp [FutexProgram.alone, hrun, turn, hnone]
      · obtain ⟨waiters', hrest⟩ := hinc
        refine ⟨1 + 3, by decide, waiters', (FutexProgram.alone_add (hfirst ?_)).trans hrest⟩
        simp [turn, hnone]

/-- The thread is one of those in the count. -/
@[simp] def CountedWait.counted : CountedWait → Nat
  | .test | .called | .entering | .asleep | .dec => 1
  | _ => 0

/-- The thread leaves only where it has found another value, and comes to the host and falls
asleep only where the value has been found. -/
theorem CountedWait.turn_cases {C : Type} {same : Bool} {waiters waiters' : Nat}
    {stay : CountedWait → C} {leave c : C} {point : CountedWait}
    (hturn : point.turn same waiters stay leave = some (waiters', c)) :
    point ≠ .asleep ∧
      (c = leave ∧ (same = false ∨ point = .dec) ∨
        ∃ next, c = stay next ∧ (next = .dec → same = false) ∧
          (next = .asleep ∨ next = .entering → same = true ∧ point.counted = 1)) := by
  cases point with
  | asleep => cases hturn
  | dec =>
      simp only [CountedWait.turn, Option.some.injEq, Prod.mk.injEq] at hturn
      obtain ⟨-, rfl⟩ := hturn
      exact ⟨by simp, Or.inl ⟨rfl, Or.inr rfl⟩⟩
  | spinWaiters spins =>
      cases hturn
      refine ⟨by simp, Or.inr ⟨_, rfl, ?_, ?_⟩⟩ <;> split <;> simp
  | spinLook spins =>
      cases hturn
      refine ⟨by simp, ?_⟩
      cases same with
      | false => exact Or.inl ⟨rfl, Or.inl rfl⟩
      | true => exact Or.inr ⟨_, rfl, by cases spins <;> simp, by cases spins <;> simp⟩
  | inc =>
      simp only [CountedWait.turn, Option.some.injEq, Prod.mk.injEq] at hturn
      obtain ⟨-, rfl⟩ := hturn
      exact ⟨by simp, Or.inr ⟨_, rfl, by simp, by simp⟩⟩
  | test =>
      cases hturn
      exact ⟨by simp, Or.inr ⟨_, rfl, by cases same <;> simp, by cases same <;> simp⟩⟩
  | called =>
      cases hturn
      exact ⟨by simp, Or.inr ⟨_, rfl, by cases same <;> simp, by cases same <;> simp⟩⟩
  | entering =>
      cases same with
      | false => cases hturn
      | true =>
          cases hturn
          exact ⟨by simp, Or.inr ⟨_, rfl, by simp, by simp⟩⟩

/-- `r | 0x80000000` -/
def flagged (r : Nat) : Nat := if r < 0x80000000 then r + 0x80000000 else r

/-- The flag is set, and the rest is left. -/
theorem flagged_spec {r : Nat} (hr : r < 0x100000000) :
    0x80000000 ≤ flagged r ∧ flagged r < 0x100000000 ∧
      flagged r % 0x80000000 = r % 0x80000000 := by
  unfold flagged
  split <;> omega

/-- Where a thread is in `__timedwait`, which waits once. -/
inductive TimedPoint where
  /-- `*paddr != expected` in `__wasilibc_futex_wait_wasix` -/
  | called
  /-- The host has not compared the word yet. -/
  | entering
  | asleep
  /-- The host has let the thread go, and no other thread has woken it. -/
  | stirred
deriving Repr, DecidableEq

/-- An access of `__timedwait` for a caller that is in it at `stay` and goes on with `leave`
and the error.  A deadline that has passed or that is no time is left to the caller. -/
def TimedPoint.turn {C : Type} (same : Bool) (stay : TimedPoint → C) (leave : Option Nat → C) :
    TimedPoint → Option C
  | .called => some (if same then stay .entering else leave none)
  | .entering => if same then some (stay .asleep) else none
  | .asleep => none
  | .stirred => some (leave (if same then some ETIMEDOUT else none))

/-- A host that finds another value, and answers without an error. -/
def TimedPoint.refused {C : Type} (same : Bool) (leave : Option Nat → C) : TimedPoint → Option C
  | .entering => if same then none else some (leave none)
  | _ => none

theorem TimedPoint.refused_cases {C : Type} {same : Bool} {leave : Option Nat → C} {c : C}
    {point : TimedPoint} (hrefused : point.refused same leave = some c) :
    point = .entering ∧ same = false ∧ c = leave none := by
  cases point with
  | entering =>
      cases same with
      | true => cases hrefused
      | false =>
          cases hrefused
          exact ⟨rfl, rfl, rfl⟩
  | _ => cases hrefused

/-- A thread falls asleep only where the host has found the value, and the wait fails only where
the value is still there. -/
theorem TimedPoint.turn_cases {C : Type} {same : Bool} {stay : TimedPoint → C}
    {leave : Option Nat → C} {c : C} {point : TimedPoint}
    (hturn : point.turn same stay leave = some c) :
    point ≠ .asleep ∧ (c = leave none ∨ c = leave (some ETIMEDOUT) ∧ same = true ∨
      c = stay .entering ∨ c = stay .asleep ∧ same = true) := by
  cases point with
  | asleep => cases hturn
  | called => cases same <;> cases hturn <;> simp
  | entering =>
      cases same with
      | false => cases hturn
      | true =>
          cases hturn
          simp
  | stirred => cases same <;> cases hturn <;> simp

end Sync

end WasixLibc
