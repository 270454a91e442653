/-
Queues of a futex in which no wake is lost.

A thread sleeps in a queue only while something blocks it, or while another thread is
on its way that will wake one of the queue or go on itself.  A count of the waiters
tells who wakes whether there are any.
-/
import WasixLibc.FutexWait

namespace WasixLibc

namespace FutexThreads

universe v w

variable {C : Type v} {T : Type w} [Fintype T]

/-- Whoever sleeps is blocked, or will be attended to. -/
def Attended (sleeping attending : C → Nat) (blocked : Prop) (control : T → C) : Prop :=
  blocked ∨ total sleeping control = 0 ∨ 0 < total attending control

theorem Attended.of_attending {sleeping attending : C → Nat} {blocked : Prop} {control : T → C}
    {t : T} (hpos : 0 < attending (control t)) : Attended sleeping attending blocked control :=
  Or.inr (Or.inr (total_pos_iff.mpr ⟨t, hpos⟩))

theorem Attended.congr {sleeping attending : C → Nat} {blocked : Prop} {control control' : T → C}
    (h : Attended sleeping attending blocked control)
    (hsleeping : total sleeping control' = total sleeping control)
    (hattending : total attending control' = total attending control) :
    Attended sleeping attending blocked control' := by
  unfold Attended
  rwa [hsleeping, hattending]

/-- Who sleeps while nothing blocks it leaves another thread that attends to it. -/
theorem Attended.attending {sleeping attending : C → Nat} {blocked : Prop} {control : T → C}
    (h : Attended sleeping attending blocked control) (hopen : ¬ blocked) {t : T}
    (hasleep : 0 < sleeping (control t)) : ∃ u, 0 < attending (control u) := by
  rcases h with hblocked | hnone | hattending
  · exact absurd hblocked hopen
  · have hle := le_total sleeping control t
    omega
  · exact total_pos_iff.mp hattending

/-- A count of waiters before and after an access of a thread that is, or is not, one of them. -/
def Counts (waiters before waiters' after : Nat) : Prop :=
  waiters' = waiters ∧ after = before ∨
    waiters' = (waiters + 1) % 0x100000000 ∧ before = 0 ∧ after = 1 ∨
    waiters' = (waiters + 0xffffffff) % 0x100000000 ∧ before = 1 ∧ after = 0

theorem Counts.refl (waiters n : Nat) : Counts waiters n waiters n := Or.inl ⟨rfl, rfl⟩

/-- A thread that goes to `c` frees nobody, and leaves its post only when nobody sleeps or there is
another one. -/
def Keeps (sleeping attending : C → Nat) (blocked blocked' : Prop) (control : T → C) (t : T)
    (c : C) : Prop :=
  blocked' ∨ 0 < attending c ∨ sleeping c = 0 ∧
    (total sleeping control = 0 ∨ (∃ u, u ≠ t ∧ 0 < attending (control u)) ∨
      (blocked → blocked') ∧ attending (control t) = 0)

/-- A thread that has nothing to do with the queue. -/
theorem Keeps.aside {sleeping attending : C → Nat} {blocked : Prop} {control : T → C} {t : T}
    {c : C}
    (hawake : sleeping c = 0) (hidle : attending (control t) = 0) :
    Keeps sleeping attending blocked blocked control t c :=
  Or.inr (Or.inr ⟨hawake, Or.inr (Or.inr ⟨id, hidle⟩)⟩)

variable [DecidableEq T]

theorem Attended.step {sleeping attending : C → Nat} {blocked blocked' : Prop} {control : T → C}
    (h : Attended sleeping attending blocked control) {t : T} {c : C}
    (hkeeps : Keeps sleeping attending blocked blocked' control t c) :
    Attended sleeping attending blocked' (Function.update control t c) := by
  have hsleeping := total_update sleeping control t c
  have hattending := total_update attending control t c
  rcases hkeeps with hblocked | hpos | ⟨hawake, hnone | ⟨u, hut, hpos⟩ | ⟨hstays, hidle⟩⟩
  · exact Or.inl hblocked
  · refine .of_attending (t := t) ?_
    rwa [Function.update_self]
  · exact Or.inr (Or.inl (by omega))
  · refine .of_attending (t := u) ?_
    rwa [Function.update_of_ne hut]
  · rcases h with hblocked | hnone | hpos
    · exact Or.inl (hstays hblocked)
    · exact Or.inr (Or.inl (by omega))
    · exact Or.inr (Or.inr (by omega))

theorem Counts.total {counted : C → Nat} {control : T → C} {waiters waiters' : Nat} {t : T} {c : C}
    (hcard : Fintype.card T < 0x100000000) (hle : ∀ c, counted c ≤ 1)
    (h : Counts waiters (counted (control t)) waiters' (counted c))
    (hcount : total counted control = waiters) :
    FutexThreads.total counted (Function.update control t c) = waiters' := by
  have hupdate := total_update counted control t c
  have hbound := total_le_card hle control
  have hbound' := total_le_card hle (Function.update control t c)
  rcases h with ⟨hwaiters, hsame⟩ | ⟨hwaiters, hbefore, hafter⟩ | ⟨hwaiters, hbefore, hafter⟩
  · omega
  · omega
  · omega

/-- A queue with a count of its waiters. -/
structure CountedQueue (counted sleeping attending : C → Nat) (blocked : Prop) (waiters : Nat)
    (control : T → C) : Prop where
  count : total counted control = waiters
  attended : Attended sleeping attending blocked control

omit [DecidableEq T] in
theorem CountedQueue.none_sleeping {counted sleeping attending : C → Nat} {blocked : Prop}
    {control : T → C} {waiters : Nat}
    (h : CountedQueue counted sleeping attending blocked waiters control)
    (hle : ∀ c, sleeping c ≤ counted c) (hwaiters : waiters = 0) : total sleeping control = 0 := by
  have hsum : total sleeping control ≤ total counted control :=
    Finset.sum_le_sum fun t _ => hle (control t)
  rw [h.count, hwaiters] at hsum
  exact Nat.le_zero.mp hsum

theorem CountedQueue.step {counted sleeping attending : C → Nat} {blocked blocked' : Prop}
    {control : T → C} {waiters waiters' : Nat} (hcard : Fintype.card T < 0x100000000)
    (hone : ∀ c, counted c ≤ 1)
    (h : CountedQueue counted sleeping attending blocked waiters control) {t : T} {c : C}
    (hcounts : Counts waiters (counted (control t)) waiters' (counted c))
    (hkeeps : Keeps sleeping attending blocked blocked' control t c) :
    CountedQueue counted sleeping attending blocked' waiters' (Function.update control t c) where
  count := hcounts.total hcard hone h.count
  attended := h.attended.step hkeeps

/-- What a thread that goes from `c` to `c'` owes the queue, where it may have read the count. -/
def Minds (sleeping attending : C → Nat) (blocked blocked' : Prop) (waiters : Nat) (c c' : C) :
    Prop :=
  blocked' ∨ 0 < attending c' ∨ sleeping c' = 0 ∧
    (waiters = 0 ∨ (blocked → blocked') ∧ attending c = 0)

theorem Minds.aside {sleeping attending : C → Nat} {blocked : Prop} {waiters : Nat} {c c' : C}
    (hawake : sleeping c' = 0) (hidle : attending c = 0) :
    Minds sleeping attending blocked blocked waiters c c' :=
  Or.inr (Or.inr ⟨hawake, Or.inr ⟨id, hidle⟩⟩)

/-- An access of a thread that minds the queue. -/
theorem CountedQueue.access {counted sleeping attending : C → Nat} {blocked blocked' : Prop}
    {control : T → C} {waiters waiters' : Nat} (hcard : Fintype.card T < 0x100000000)
    (hone : ∀ c, counted c ≤ 1) (hle : ∀ c, sleeping c ≤ counted c)
    (h : CountedQueue counted sleeping attending blocked waiters control) {t : T} {c : C}
    (hcounts : Counts waiters (counted (control t)) waiters' (counted c))
    (hminds : Minds sleeping attending blocked blocked' waiters (control t) c) :
    CountedQueue counted sleeping attending blocked' waiters' (Function.update control t c) := by
  refine h.step hcard hone hcounts ?_
  rcases hminds with hblocked | hpos | ⟨hawake, hwaiters | hidle⟩
  · exact Or.inl hblocked
  · exact Or.inr (Or.inl hpos)
  · exact Or.inr (Or.inr ⟨hawake, Or.inl (h.none_sleeping hle hwaiters)⟩)
  · exact Or.inr (Or.inr ⟨hawake, Or.inr (Or.inr hidle)⟩)

end FutexThreads

namespace Sync

open FutexThreads

/-- `__wait` keeps to the count of its waiters. -/
theorem CountedWait.turn_counts {C : Type} {same : Bool} {waiters waiters' : Nat}
    {stay : CountedWait → C} {leave c : C} {point : CountedWait} {counted : C → Nat}
    (hstay : ∀ point : CountedWait, counted (stay point) = point.counted)
    (hleave : counted leave = 0)
    (hturn : point.turn same waiters stay leave = some (waiters', c)) :
    Counts waiters point.counted waiters' (counted c) := by
  cases point with
  | asleep => cases hturn
  | inc =>
      simp only [CountedWait.turn, Option.some.injEq, Prod.mk.injEq] at hturn
      obtain ⟨rfl, rfl⟩ := hturn
      exact Or.inr (Or.inl ⟨rfl, rfl, hstay .test⟩)
  | dec =>
      simp only [CountedWait.turn, Option.some.injEq, Prod.mk.injEq] at hturn
      obtain ⟨rfl, rfl⟩ := hturn
      exact Or.inr (Or.inr ⟨rfl, rfl, hleave⟩)
  | spinWaiters spins =>
      cases hturn
      refine Or.inl ⟨rfl, ?_⟩
      rw [hstay]
      split <;> rfl
  | spinLook spins =>
      cases hturn
      refine Or.inl ⟨rfl, ?_⟩
      cases same with
      | false => exact hleave
      | true =>
          refine (hstay _).trans ?_
          cases spins <;> rfl
  | test | called =>
      cases hturn
      refine Or.inl ⟨rfl, ?_⟩
      rw [hstay]
      cases same <;> rfl
  | entering =>
      cases same with
      | false => cases hturn
      | true =>
          cases hturn
          exact Or.inl ⟨rfl, hstay .asleep⟩

end Sync

end WasixLibc
