/-
The internal lock of libc, taken by any number of threads.

The word is a flag in its sign and the number of threads inside.  A thread that
finds the lock taken spins for a while, then counts itself and waits.  All this is
skipped while `libc.need_locks` is 0.  It is positive from the first `pthread_create`
to the exit of the last thread but one, and the lock is looked at in that time.
-/
import WasixLibc.PreopenLock
import WasixLibc.WaitQueue

namespace WasixLibc

namespace Sync

open FutexThreads
open Preopens (INT_MIN)

/-- A lock and `libc.need_locks`. -/
structure LockMemory where
  word : Int
  needLocks : Int
deriving Repr, DecidableEq

/-- Where a thread is in `__lock` and `__unlock`. -/
inductive LockPoint where
  | outside
  | check
  | fast (needLocks : Int)
  /-- `libc.need_locks = 0` -/
  | reset (current : Int)
  /-- So many turns of the spinning loop come after this one. -/
  | spin (i : Nat) (current : Int)
  | join
  | wait (current : Int) (point : WaitPoint)
  | acquire (current : Int)
  | holds
  /-- `__lock` has returned without a look at the word. -/
  | unguarded
  | unlock
  | release
  | wake
deriving Repr, DecidableEq

/-- The sum as an `int`. -/
def addInt (x y : Int) : Int := (x + y).bmod 4294967296

/-- What follows the fast path. -/
def LockPoint.tried (current : Int) : LockPoint := if current = 0 then .holds else .spin 9 current

/-- The head of the main loop of `__lock`. -/
def LockPoint.loop (current : Int) : LockPoint :=
  if current < 0 then .wait current (.looking SPINS) else .acquire current

/-- One access to the memory by `__lock` or `__unlock`. -/
def LockPoint.run (m : LockMemory) : LockPoint → Option (LockMemory × LockPoint)
  | .check => some (m, if m.needLocks = 0 then .unguarded else .fast m.needLocks)
  | .fast needLocks =>
      some (if m.word = 0 then { m with word := INT_MIN + 1 } else m,
        if needLocks < 0 then .reset m.word else .tried m.word)
  | .reset current => some ({ m with needLocks := 0 }, .tried current)
  | .spin i current =>
      let current := if current < 0 then current - (INT_MIN + 1) else current
      some (if m.word = current then ({ m with word := INT_MIN + (current + 1) }, .holds)
        else (m, match i with | 0 => .join | i + 1 => .spin i m.word))
  | .join => some ({ m with word := addInt m.word 1 }, .loop (addInt m.word 1))
  | .wait current point =>
      (point.turn (m.word = current) (.wait current) (.acquire (current - (INT_MIN + 1)))).map
        fun c => (m, c)
  | .acquire current =>
      some (if m.word = current then ({ m with word := INT_MIN + current }, .holds)
        else (m, .loop m.word))
  | .unlock => some (m, if m.word < 0 then .release else .outside)
  | .release =>
      some ({ m with word := addInt m.word (-(INT_MIN + 1)) },
        if m.word = INT_MIN + 1 then .outside else .wake)
  | .outside | .holds | .unguarded | .wake => none

@[simp] def LockPoint.asleep : LockPoint → Bool
  | .wait _ .asleep => true
  | _ => false

def LockPoint.roused : LockPoint → LockPoint
  | .wait current .asleep => .wait current (.looking 0)
  | c => c

def LockPoint.refused (m : LockMemory) : LockPoint → Option LockPoint
  | .wait current point => point.refused (m.word = current) (.wait current)
  | _ => none

def LockPoint.Calls (c c' : LockPoint) : Prop :=
  c = .outside ∧ c' = .check ∨ (c = .holds ∨ c = .unguarded) ∧ c' = .unlock

instance LockPoint.decidableCalls (c c' : LockPoint) : Decidable (c.Calls c') :=
  inferInstanceAs (Decidable (_ ∧ _ ∨ _ ∧ _))

/-- `__lock` and `__unlock` -/
def internalLock {T : Type} : FutexProgram LockMemory LockPoint T where
  run _ := LockPoint.run
  call := LockPoint.Calls
  asleep := LockPoint.asleep
  hears _ := LockPoint.asleep
  roused := LockPoint.roused
  stirred := LockPoint.roused
  refused := LockPoint.refused
  wakes c := if c = .wake then some (.one, .outside) else none

instance {T : Type} (c c' : LockPoint) :
    Decidable ((internalLock : FutexProgram LockMemory LockPoint T).call c c') :=
  inferInstanceAs (Decidable (c.Calls c'))

/-- The thread has the lock. -/
@[simp] def LockPoint.holding : LockPoint → Nat
  | .holds | .unlock | .release => 1
  | .reset current => if current = 0 then 1 else 0
  | _ => 0

/-- The thread is counted and does not have the lock. -/
@[simp] def LockPoint.queued : LockPoint → Nat
  | .wait _ _ | .acquire _ => 1
  | _ => 0

@[simp] def LockPoint.sleeping (c : LockPoint) : Nat := if c.asleep then 1 else 0

/-- The thread takes the lock or wakes another one, whatever the host does. -/
@[simp] def LockPoint.attending : LockPoint → Nat
  | .wait _ point => if point.free then 1 else 0
  | .acquire _ | .wake => 1
  | _ => 0

/-- What a thread has read is what the word can be, with `n` threads at most. -/
@[simp] def LockPoint.Sensible (n : Nat) : LockPoint → Prop
  | .fast needLocks => 0 < needLocks
  | .spin _ current => 0 ≤ current ∧ current ≤ n ∨ INT_MIN < current ∧ current ≤ INT_MIN + n
  | .wait current _ => INT_MIN + 2 ≤ current ∧ current ≤ INT_MIN + n
  | .acquire current => 0 < current ∧ current ≤ n
  | .reset _ | .unguarded => False
  | _ => True

variable {T : Type} [Fintype T]

abbrev LockState (T : Type) := FutexState LockMemory LockPoint T

/-- The invariant of the lock. -/
structure LockInv (s : LockState T) : Prop where
  needed : 0 < s.memory.needLocks
  word : s.memory.word = (INT_MIN + 1) * total LockPoint.holding s.control +
    total LockPoint.queued s.control
  single : total LockPoint.holding s.control ≤ 1
  sensible : ∀ t, (s.control t).Sensible (Fintype.card T)
  attended : Attended LockPoint.sleeping LockPoint.attending (s.memory.word < 0) s.control

/-- The threads inside are not more than there are. -/
theorem inside_le_card (control : T → LockPoint) :
    total LockPoint.holding control + total LockPoint.queued control ≤ Fintype.card T := by
  rw [← total_add]
  refine total_le_card (fun c => ?_) control
  cases c with
  | reset current =>
      simp only [LockPoint.holding, LockPoint.queued]
      split <;> omega
  | _ => simp [LockPoint.holding, LockPoint.queued]

def unlocked (needLocks : Int) : LockState T := ⟨⟨0, needLocks⟩, fun _ => .outside⟩

theorem unlocked_inv {needLocks : Int} (hneeded : 0 < needLocks) :
    LockInv (unlocked needLocks : LockState T) := by
  have hzero : ∀ weight : LockPoint → Nat, weight .outside = 0 →
      total weight (fun _ : T => LockPoint.outside) = 0 := fun weight h => by simp [total, h]
  refine ⟨hneeded, ?_, ?_, fun _ => trivial, Or.inr (Or.inl (hzero LockPoint.sleeping rfl))⟩
  · simp [unlocked, hzero LockPoint.holding rfl, hzero LockPoint.queued rfl]
  · simp [unlocked, hzero LockPoint.holding rfl]

/-- Whoever sleeps is counted. -/
theorem sleeping_le_queued (control : T → LockPoint) :
    total LockPoint.sleeping control ≤ total LockPoint.queued control := by
  refine Finset.sum_le_sum fun t _ => ?_
  cases control t with
  | wait current point => cases point <;> simp
  | _ => simp

/-- The word between the two bounds of what can be in it. -/
theorem LockInv.word_cases {s : LockState T} (h : LockInv s) :
    0 ≤ s.memory.word ∧ s.memory.word ≤ Fintype.card T ∧ total LockPoint.holding s.control = 0 ∧
        s.memory.word = total LockPoint.queued s.control ∨
      INT_MIN < s.memory.word ∧ s.memory.word ≤ INT_MIN + Fintype.card T ∧
        total LockPoint.holding s.control = 1 ∧
        s.memory.word = INT_MIN + 1 + total LockPoint.queued s.control := by
  have hword := h.word
  have hsingle := h.single
  have hinside := inside_le_card s.control
  simp only [INT_MIN] at *
  omega

variable [DecidableEq T] {s : LockState T} {t : T}

/-- A thread that is outside finds room inside. -/
theorem room_inside {control : T → LockPoint} {t : T} (hholding : (control t).holding = 0)
    (hqueued : (control t).queued = 0) :
    total LockPoint.holding control + total LockPoint.queued control + 1 ≤ Fintype.card T := by
  have hinside := inside_le_card (Function.update control t (.acquire 0))
  have hnoMore := total_update LockPoint.holding control t (.acquire 0)
  have honeMore := total_update LockPoint.queued control t (.acquire 0)
  rw [hholding, show (LockPoint.acquire 0).holding = 0 from rfl] at hnoMore
  rw [hqueued, show (LockPoint.acquire 0).queued = 1 from rfl] at honeMore
  omega

/-- A thread moves, and the word changes by what it counts for. -/
theorem LockInv.move (h : LockInv s) {word : Int} {c : LockPoint}
    (hsensible : c.Sensible (Fintype.card T))
    (hword : word + ((INT_MIN + 1) * (s.control t).holding + (s.control t).queued) =
      s.memory.word + ((INT_MIN + 1) * c.holding + c.queued))
    (hsingle : c.holding ≤ (s.control t).holding ∨
      total LockPoint.holding s.control = 0 ∧ c.holding ≤ 1)
    (hkeeps : Keeps LockPoint.sleeping LockPoint.attending (s.memory.word < 0) (word < 0)
      s.control t c) :
    LockInv ⟨{ s.memory with word }, Function.update s.control t c⟩ := by
  have hholding := total_update LockPoint.holding s.control t c
  have hqueued := total_update LockPoint.queued s.control t c
  have hsum := h.word
  have hone := h.single
  refine ⟨h.needed, ?_, ?_, ?_, h.attended.step hkeeps⟩
  · simp only [INT_MIN] at *
    omega
  · dsimp only
    omega
  · exact (Function.forall_update_iff s.control fun _ c => c.Sensible (Fintype.card T)).mpr
      ⟨hsensible, fun u _ => h.sensible u⟩

/-- A thread moves that stays inside or outside, and leaves the word. -/
theorem LockInv.pass (h : LockInv s) {c : LockPoint} (hsensible : c.Sensible (Fintype.card T))
    (hholding : c.holding = (s.control t).holding) (hqueued : c.queued = (s.control t).queued)
    (hkeeps : Keeps LockPoint.sleeping LockPoint.attending (s.memory.word < 0)
      (s.memory.word < 0) s.control t c) :
    LockInv ⟨s.memory, Function.update s.control t c⟩ :=
  h.move hsensible (by rw [hholding, hqueued]) (Or.inl (Nat.le_of_eq hholding)) hkeeps

/-- A thread that is outside takes the lock by a compare-and-swap. -/
theorem LockInv.take (h : LockInv s) (hcard : Fintype.card T < 2147483648)
    (hopen : 0 ≤ s.memory.word) (hholding : (s.control t).holding = 0)
    (hqueued : (s.control t).queued = 0) :
    LockInv ⟨{ s.memory with word := INT_MIN + (s.memory.word + 1) },
      Function.update s.control t .holds⟩ := by
  have hroom := room_inside hholding hqueued
  have hcases := h.word_cases
  have hnone : total LockPoint.holding s.control = 0 := by
    simp only [INT_MIN] at hcases
    omega
  refine h.move trivial ?_ (Or.inr ⟨hnone, Nat.le_refl 1⟩) (Or.inl ?_)
  · rw [hholding, hqueued]
    simp only [INT_MIN, LockPoint.holding, LockPoint.queued]
    omega
  · simp only [INT_MIN] at *
    omega

/-- A thread that is counted takes the lock. -/
theorem LockInv.acquire (h : LockInv s) (hcard : Fintype.card T < 2147483648)
    (hopen : 0 ≤ s.memory.word) (hholding : (s.control t).holding = 0)
    (hqueued : (s.control t).queued = 1) :
    LockInv ⟨{ s.memory with word := INT_MIN + s.memory.word },
      Function.update s.control t .holds⟩ := by
  have hcases := h.word_cases
  have hnone : total LockPoint.holding s.control = 0 := by
    simp only [INT_MIN] at hcases
    omega
  refine h.move trivial ?_ (Or.inr ⟨hnone, Nat.le_refl 1⟩) (Or.inl ?_)
  · rw [hholding, hqueued]
    simp only [INT_MIN, LockPoint.holding, LockPoint.queued]
    omega
  · simp only [INT_MIN] at *
    omega

omit [Fintype T] [DecidableEq T] in
/-- Where the main loop begins. -/
theorem LockPoint.loop_cases {word : Int} {n : Nat}
    (hword : 0 < word ∧ word ≤ n ∨ INT_MIN + 2 ≤ word ∧ word ≤ INT_MIN + n ∧ word < 0) :
    (LockPoint.loop word).Sensible n ∧ (LockPoint.loop word).holding = 0 ∧
      (LockPoint.loop word).queued = 1 ∧ (LockPoint.loop word).attending = 1 := by
  unfold LockPoint.loop
  split
  · refine ⟨?_, rfl, rfl, rfl⟩
    rw [LockPoint.Sensible]
    omega
  · refine ⟨?_, rfl, rfl, rfl⟩
    rw [LockPoint.Sensible]
    omega

/-- The fast path. -/
theorem LockInv.fast (h : LockInv s) (hcard : Fintype.card T < 2147483648) {needLocks : Int}
    (hpoint : s.control t = .fast needLocks) :
    LockInv ⟨if s.memory.word = 0 then { s.memory with word := INT_MIN + 1 } else s.memory,
      Function.update s.control t (.tried s.memory.word)⟩ := by
  unfold LockPoint.tried
  split
  · rename_i hfree
    have htaken := h.take (t := t) hcard (by omega) (by rw [hpoint]; rfl) (by rw [hpoint]; rfl)
    rw [hfree] at htaken
    exact htaken
  · have hcases := h.word_cases
    refine h.pass ?_ (by rw [hpoint]; rfl) (by rw [hpoint]; rfl)
      (.aside rfl (by rw [hpoint]; rfl))
    rw [LockPoint.Sensible]
    omega

omit [Fintype T] [DecidableEq T] in
theorem LockPoint.spin_run {m m' : LockMemory} {current : Int} {i : Nat} {c : LockPoint}
    (hrun : (LockPoint.spin i current).run m = some (m', c)) :
    c = .holds ∧ m' = { m with word := INT_MIN + (m.word + 1) } ∧
        (m.word = current ∧ 0 ≤ current ∨ m.word = current - (INT_MIN + 1) ∧ current < 0) ∨
      m' = m ∧ (c = .join ∨ ∃ i, c = .spin i m.word) := by
  simp only [LockPoint.run, Option.some.injEq] at hrun
  generalize hval : (if current < 0 then current - (INT_MIN + 1) else current) = val at hrun
  split at hrun
  · rename_i hsame
    cases hrun
    refine Or.inl ⟨rfl, by rw [hsame], ?_⟩
    rw [hsame, ← hval]
    split
    · exact Or.inr ⟨rfl, by assumption⟩
    · exact Or.inl ⟨rfl, by omega⟩
  · cases hrun
    refine Or.inr ⟨rfl, ?_⟩
    cases i with
    | zero => exact Or.inl rfl
    | succ i => exact Or.inr ⟨i, rfl⟩

/-- A turn of the spinning loop. -/
theorem LockInv.spin (h : LockInv s) (hcard : Fintype.card T < 2147483648) {i : Nat}
    {current : Int} (hpoint : s.control t = .spin i current) {m : LockMemory} {c : LockPoint}
    (hrun : (LockPoint.spin i current).run s.memory = some (m, c)) :
    LockInv ⟨m, Function.update s.control t c⟩ := by
  have hsensible := h.sensible t
  have hout : (s.control t).holding = 0 ∧ (s.control t).queued = 0 ∧
      (s.control t).attending = 0 := by
    rw [hpoint]
    exact ⟨rfl, rfl, rfl⟩
  rw [hpoint, LockPoint.Sensible] at hsensible
  obtain ⟨rfl, rfl, hfound⟩ | ⟨rfl, rfl | ⟨i, rfl⟩⟩ := LockPoint.spin_run hrun
  · refine h.take hcard ?_ hout.1 hout.2.1
    simp only [INT_MIN] at *
    omega
  · exact h.pass trivial hout.1.symm hout.2.1.symm (.aside rfl hout.2.2)
  · have hcases := h.word_cases
    refine h.pass ?_ hout.1.symm hout.2.1.symm (.aside rfl hout.2.2)
    rw [LockPoint.Sensible]
    omega

/-- A thread counts itself. -/
theorem LockInv.join (h : LockInv s) (hcard : Fintype.card T < 2147483648)
    (hpoint : s.control t = .join) :
    LockInv ⟨{ s.memory with word := addInt s.memory.word 1 },
      Function.update s.control t (.loop (addInt s.memory.word 1))⟩ := by
  have hroom := @room_inside T _ _ s.control t (by rw [hpoint]; rfl) (by rw [hpoint]; rfl)
  have hcases := h.word_cases
  have hadd : addInt s.memory.word 1 = s.memory.word + 1 := by
    unfold addInt
    simp only [INT_MIN] at hcases
    exact Int.bmod_eq_of_le (by omega) (by omega)
  rw [hadd]
  obtain ⟨hsensible, hholding, hqueued, hattending⟩ :=
    @LockPoint.loop_cases (s.memory.word + 1) (Fintype.card T) (by simp only [INT_MIN] at *; omega)
  refine h.move hsensible ?_ (Or.inl (by rw [hholding]; exact Nat.zero_le _))
    (Or.inr (Or.inl (by rw [hattending]; exact Nat.one_pos)))
  rw [hholding, hqueued, hpoint]
  simp only [LockPoint.holding, LockPoint.queued]
  omega

/-- An access of `__wait`. -/
theorem LockInv.wait (h : LockInv s) (hcard : Fintype.card T < 2147483648) {current : Int}
    {point : WaitPoint} {c : LockPoint}
    (hpoint : s.control t = .wait current point)
    (hturn : point.turn (s.memory.word = current) (LockPoint.wait current)
      (.acquire (current - (INT_MIN + 1))) = some c) :
    LockInv ⟨s.memory, Function.update s.control t c⟩ := by
  have hsensible := h.sensible t
  rw [hpoint, LockPoint.Sensible] at hsensible
  have hin : (s.control t).holding = 0 ∧ (s.control t).queued = 1 := by
    rw [hpoint]
    exact ⟨rfl, rfl⟩
  obtain ⟨-, rfl | ⟨next, rfl, hfound⟩⟩ := WaitPoint.turn_cases hturn
  · refine h.pass ?_ hin.1.symm hin.2.symm (Or.inr (Or.inl Nat.one_pos))
    rw [LockPoint.Sensible]
    simp only [INT_MIN] at *
    omega
  · refine h.pass hsensible hin.1.symm hin.2.symm ?_
    by_cases hmercy : next = .asleep ∨ next = .entering
    · have hsame : s.memory.word = current := of_decide_eq_true (hfound hmercy)
      simp only [INT_MIN] at hsensible
      exact Or.inl (by omega)
    · refine Or.inr (Or.inl ?_)
      cases next with
      | asleep => exact absurd (Or.inl rfl) hmercy
      | entering => exact absurd (Or.inr rfl) hmercy
      | _ => exact Nat.one_pos

/-- A turn of the main loop behind the wait. -/
theorem LockInv.retry (h : LockInv s) (hcard : Fintype.card T < 2147483648) {current : Int}
    (hpoint : s.control t = .acquire current) {m : LockMemory} {c : LockPoint}
    (hrun : (LockPoint.acquire current).run s.memory = some (m, c)) :
    LockInv ⟨m, Function.update s.control t c⟩ := by
  have hsensible := h.sensible t
  have hcounted := le_total LockPoint.queued s.control t
  rw [hpoint, LockPoint.Sensible] at hsensible
  have hin : (s.control t).holding = 0 ∧ (s.control t).queued = 1 := by
    rw [hpoint]
    exact ⟨rfl, rfl⟩
  rw [hin.2] at hcounted
  simp only [LockPoint.run, Option.some.injEq] at hrun
  split at hrun
  · rename_i hsame
    cases hrun
    have htaken := h.acquire (t := t) hcard (by omega) hin.1 hin.2
    rw [hsame] at htaken
    exact htaken
  · cases hrun
    have hcases := h.word_cases
    obtain ⟨hsensible', hholding, hqueued, hattending⟩ :=
      @LockPoint.loop_cases s.memory.word (Fintype.card T) (by simp only [INT_MIN] at *; omega)
    exact h.pass hsensible' (hholding.trans hin.1.symm) (hqueued.trans hin.2.symm)
      (Or.inr (Or.inl (by rw [hattending]; exact Nat.one_pos)))

/-- The thread that has the lock gives it back, and wakes whoever is counted. -/
theorem LockInv.release (h : LockInv s) (hcard : Fintype.card T < 2147483648)
    (hpoint : s.control t = .release) :
    LockInv ⟨{ s.memory with word := addInt s.memory.word (-(INT_MIN + 1)) },
      Function.update s.control t (if s.memory.word = INT_MIN + 1 then .outside else .wake)⟩ := by
  have hcases := h.word_cases
  have hheld := le_total LockPoint.holding s.control t
  have hsleepers := sleeping_le_queued s.control
  rw [hpoint, show LockPoint.release.holding = 1 from rfl] at hheld
  have hadd : addInt s.memory.word (-(INT_MIN + 1)) = s.memory.word - (INT_MIN + 1) := by
    unfold addInt
    simp only [INT_MIN] at *
    rw [Int.bmod_eq_of_le (by omega) (by omega)]
    omega
  rw [hadd]
  split
  · rename_i halone
    refine h.move trivial ?_ (Or.inl (Nat.zero_le _)) (Or.inr (Or.inr ⟨rfl, Or.inl ?_⟩))
    · rw [hpoint]
      simp only [LockPoint.holding, LockPoint.queued, INT_MIN]
      omega
    · simp only [INT_MIN] at *
      omega
  · refine h.move trivial ?_ (Or.inl (Nat.zero_le _)) (Or.inr (Or.inl Nat.one_pos))
    rw [hpoint]
    simp only [LockPoint.holding, LockPoint.queued, INT_MIN]
    omega

/-- An access of a thread keeps the invariant. -/
theorem LockInv.run (h : LockInv s) (hcard : Fintype.card T < 2147483648) {m : LockMemory}
    {c : LockPoint} (hrun : (s.control t).run s.memory = some (m, c)) :
    LockInv ⟨m, Function.update s.control t c⟩ := by
  have hsensible := h.sensible t
  cases hpoint : s.control t with
  | check =>
      rw [hpoint] at hrun
      cases hrun
      rw [if_neg (Int.ne_of_gt h.needed)]
      exact h.pass h.needed (by rw [hpoint]; rfl) (by rw [hpoint]; rfl)
        (.aside rfl (by rw [hpoint]; rfl))
  | fast needLocks =>
      rw [hpoint] at hrun hsensible
      cases hrun
      rw [if_neg (Int.not_lt.mpr (Int.le_of_lt hsensible))]
      exact h.fast hcard hpoint
  | spin i current => exact h.spin hcard hpoint (by rw [← hpoint]; exact hrun)
  | join =>
      rw [hpoint] at hrun
      cases hrun
      exact h.join hcard hpoint
  | wait current point =>
      rw [hpoint] at hrun
      obtain ⟨c, hturn, hc⟩ := Option.map_eq_some_iff.mp hrun
      cases hc
      exact h.wait hcard hpoint hturn
  | acquire current => exact h.retry hcard hpoint (by rw [← hpoint]; exact hrun)
  | unlock =>
      have hcases := h.word_cases
      have hheld := le_total LockPoint.holding s.control t
      rw [hpoint, show LockPoint.unlock.holding = 1 from rfl] at hheld
      have htaken : s.memory.word < 0 := by
        simp only [INT_MIN] at hcases
        omega
      rw [hpoint] at hrun
      simp only [LockPoint.run] at hrun
      rw [if_pos htaken] at hrun
      cases hrun
      exact h.pass trivial (by rw [hpoint]; rfl) (by rw [hpoint]; rfl) (Or.inl htaken)
  | release =>
      rw [hpoint] at hrun
      cases hrun
      exact h.release hcard hpoint
  | reset current =>
      rw [hpoint] at hsensible
      exact hsensible.elim
  | unguarded =>
      rw [hpoint] at hsensible
      exact hsensible.elim
  | outside | holds | wake =>
      rw [hpoint] at hrun
      cases hrun

/-- A thread that is let go looks again. -/
theorem LockInv.rouse (h : LockInv s) (hasleep : (s.control t).asleep = true) :
    LockInv ⟨s.memory, Function.update s.control t (s.control t).roused⟩ ∧
      (s.control t).roused.attending = 1 := by
  have hsensible := h.sensible t
  have hpass := @LockInv.pass T _ _ s t h (s.control t).roused
  generalize s.control t = point at *
  cases point with
  | wait current point =>
      cases point with
      | asleep => exact ⟨hpass hsensible rfl rfl (Or.inr (Or.inl Nat.one_pos)), rfl⟩
      | _ => cases hasleep
  | _ => cases hasleep

theorem LockInv.refuse (h : LockInv s) {c : LockPoint}
    (hrefused : (s.control t).refused s.memory = some c) :
    LockInv ⟨s.memory, Function.update s.control t c⟩ := by
  have hsensible := h.sensible t
  have hpass := @LockInv.pass T _ _ s t h c
  generalize s.control t = point at *
  cases point with
  | wait current point =>
      obtain ⟨rfl, -, rfl⟩ := WaitPoint.refused_cases hrefused
      exact hpass hsensible rfl rfl (Or.inr (Or.inl Nat.one_pos))
  | _ => cases hrefused

omit [Fintype T] [DecidableEq T] in
theorem internalLock_wakes {c c' : LockPoint} {wake : Wake}
    (hwakes : (internalLock : FutexProgram LockMemory LockPoint T).wakes c = some (wake, c')) :
    c = .wake ∧ wake = .one ∧ c' = .outside := by
  simp only [internalLock] at hwakes
  split at hwakes
  · cases hwakes
    exact ⟨by assumption, rfl, rfl⟩
  · cases hwakes

/-- A thread has woken whom it had to wake. -/
theorem LockInv.woken (h : LockInv s) (hpoint : s.control t = .wake)
    (hother : total LockPoint.sleeping s.control = 0 ∨
      ∃ u, u ≠ t ∧ 0 < (s.control u).attending) :
    LockInv ⟨s.memory, Function.update s.control t .outside⟩ := by
  refine h.pass trivial (by rw [hpoint]; rfl) (by rw [hpoint]; rfl) (Or.inr (Or.inr ⟨rfl, ?_⟩))
  rcases hother with hnone | hattending
  · exact Or.inl hnone
  · exact Or.inr (Or.inl hattending)

/-- Every step keeps the invariant. -/
theorem LockInv.step (hcard : Fintype.card T < 2147483648) {s' : LockState T}
    (hstep : FutexThreads.Step internalLock s t s') (h : LockInv s) : LockInv s' := by
  cases hstep with
  | run hrun => exact h.run hcard hrun
  | call hcall =>
      have hsensible := h.sensible t
      obtain ⟨hpoint, rfl⟩ | ⟨hpoint | hpoint, rfl⟩ := hcall
      · exact h.pass trivial (by rw [hpoint]; rfl) (by rw [hpoint]; rfl)
          (.aside rfl (by rw [hpoint]; rfl))
      · exact h.pass trivial (by rw [hpoint]; rfl) (by rw [hpoint]; rfl)
          (.aside rfl (by rw [hpoint]; rfl))
      · rw [hpoint] at hsensible
        exact hsensible.elim
  | stir hasleep hc =>
      obtain rfl : _ = (s.control t).roused := hc.elim id id
      exact (h.rouse hasleep).1
  | refuse hrefused => exact h.refuse hrefused
  | @wakeOne sleeper c hwakes hne hasleep =>
      obtain ⟨hpoint, -, rfl⟩ := internalLock_wakes hwakes
      obtain ⟨hroused, hattends⟩ := h.rouse hasleep
      refine hroused.woken (t := t) ?_ (Or.inr ⟨sleeper, hne, ?_⟩)
      · dsimp only
        rw [Function.update_of_ne hne.symm]
        exact hpoint
      · dsimp only
        rw [Function.update_self]
        omega
  | wakeNone hwakes hnone =>
      obtain ⟨hpoint, -, rfl⟩ := internalLock_wakes hwakes
      refine h.woken hpoint (Or.inl (Finset.sum_eq_zero fun u _ => if_neg ?_))
      rw [show (s.control u).asleep = false from hnone u]
      exact Bool.false_ne_true
  | wakeAll hwakes => cases (internalLock_wakes hwakes).2.1

theorem unlocked_reaches {needLocks : Int} {labels : List T}
    (hcard : Fintype.card T < 2147483648) (hneeded : 0 < needLocks)
    (hrun : Run (FutexThreads.Step internalLock) (unlocked needLocks) labels s) : LockInv s :=
  hrun.preserves (fun h hstep => h.step hcard hstep) (unlocked_inv hneeded)

/-- One thread at most has the lock, and the word says whether one has it and how many are
inside.  What the two assertions in `__lock` say holds. -/
theorem internalLock_exclusive {needLocks : Int} {labels : List T}
    (hcard : Fintype.card T < 2147483648) (hneeded : 0 < needLocks)
    (hrun : Run (FutexThreads.Step internalLock) (unlocked needLocks) labels s) :
    (∀ t u, (s.control t).holding = 1 → (s.control u).holding = 1 → t = u) ∧
    (s.memory.word < 0 ↔ ∃ t, (s.control t).holding = 1) ∧
    s.memory.word = (if s.memory.word < 0 then INT_MIN else 0) +
      total (fun c => c.holding + c.queued) s.control ∧
    (∀ t i current, s.control t = .spin i current → current < 0 → 0 ≤ current - (INT_MIN + 1)) ∧
    (∀ t current, s.control t = .acquire current → 0 < current) := by
  have h := unlocked_reaches hcard hneeded hrun
  have hword := h.word_cases
  refine ⟨?_, ?_, ?_, ?_, ?_⟩
  · intro t u ht hu
    by_contra hne
    have htwo := add_le_total LockPoint.holding s.control hne
    have hsingle := h.single
    omega
  · have hpos := @total_pos_iff LockPoint T _ LockPoint.holding s.control
    constructor
    · intro hneg
      obtain ⟨t, ht⟩ := hpos.mp (by simp only [INT_MIN] at *; omega)
      have hsingle := h.single
      have hone := le_total LockPoint.holding s.control t
      exact ⟨t, by omega⟩
    · rintro ⟨t, ht⟩
      have hone := le_total LockPoint.holding s.control t
      simp only [INT_MIN] at *
      omega
  · rw [total_add]
    split <;> simp only [INT_MIN] at * <;> omega
  · intro t i current hpoint hneg
    have hsensible := h.sensible t
    rw [hpoint, LockPoint.Sensible] at hsensible
    omega
  · intro t current hpoint
    have hsensible := h.sensible t
    rw [hpoint, LockPoint.Sensible] at hsensible
    exact hsensible.1

/-! Progress -/

/-- The lock is taken by so many accesses of a thread at `c` that nothing comes between. -/
def LockPoint.Takes (T : Type) (bound : Nat) (m : LockMemory) (c : LockPoint) : Prop :=
  ∀ t : T, ∃ n ≤ bound,
    internalLock.alone t n m c = some ({ m with word := INT_MIN + m.word }, .holds)

omit [Fintype T] [DecidableEq T] in
/-- With the lock free, a thread that is past its wait takes it in two turns of the loop. -/
theorem LockPoint.acquire_takes {m : LockMemory} (current : Int) (hopen : 0 < m.word) :
    (LockPoint.acquire current).Takes T 2 m := by
  intro t
  by_cases hsame : m.word = current
  · refine ⟨1, by decide, ?_⟩
    simp [FutexProgram.alone, internalLock, LockPoint.run, hsame]
  · refine ⟨2, by decide, ?_⟩
    simp [FutexProgram.alone, internalLock, LockPoint.run, LockPoint.loop, hsame,
      Int.not_lt.mpr (Int.le_of_lt hopen)]

omit [Fintype T] [DecidableEq T] in
/-- With the lock free, a thread takes it that is in its wait and is not at the mercy of the
host. -/
theorem LockPoint.wait_takes {m : LockMemory} {current : Int} {point : WaitPoint}
    (hopen : 0 < m.word) (hdiffers : m.word ≠ current) (hfree : point.free = true) :
    (LockPoint.wait current point).Takes T 4 m := by
  intro t
  obtain ⟨k, hk, hleaves⟩ := @WaitPoint.leaves_alone _ _ T internalLock t m
    (LockPoint.wait current) (.acquire (current - (INT_MIN + 1))) point
    (fun point => by simp [internalLock, LockPoint.run, hdiffers]) hfree
  obtain ⟨n, hn, hlast⟩ :=
    @LockPoint.acquire_takes T m (current - (INT_MIN + 1)) hopen t
  exact ⟨k + n, by omega, by rw [FutexProgram.alone_add hleaves, hlast]⟩

omit [DecidableEq T] in
/-- Whoever waits has seen the lock taken. -/
theorem LockInv.differs (h : LockInv s) (hcard : Fintype.card T < 2147483648)
    (hopen : 0 < s.memory.word) {current : Int} {point : WaitPoint}
    (hpoint : s.control t = .wait current point) : s.memory.word ≠ current := by
  have hsensible := h.sensible t
  rw [hpoint, LockPoint.Sensible] at hsensible
  simp only [INT_MIN] at hsensible
  omega

omit [DecidableEq T] in
theorem LockInv.attending_takes (h : LockInv s) (hcard : Fintype.card T < 2147483648)
    (hopen : 0 < s.memory.word) (hattending : 0 < (s.control t).attending) :
    s.control t = .wake ∨
      (s.control t).queued = 1 ∧ (s.control t).Takes T 4 s.memory := by
  cases hpoint : s.control t with
  | wake => exact Or.inl rfl
  | acquire current =>
      refine Or.inr ⟨rfl, fun u => ?_⟩
      obtain ⟨n, hn, htakes⟩ := @LockPoint.acquire_takes T s.memory current hopen u
      exact ⟨n, by omega, htakes⟩
  | wait current point =>
      rw [hpoint] at hattending
      have hfree : point.free = true := by
        by_contra hnot
        rw [LockPoint.attending, if_neg hnot] at hattending
        exact absurd hattending (Nat.lt_irrefl 0)
      exact Or.inr ⟨rfl, LockPoint.wait_takes hopen (h.differs hcard hopen hpoint) hfree⟩
  | _ =>
      rw [hpoint] at hattending
      exact absurd hattending (Nat.lt_irrefl 0)

omit [DecidableEq T] in
/-- The thread takes the lock when it is woken. -/
theorem LockInv.roused_takes (h : LockInv s) (hcard : Fintype.card T < 2147483648)
    (hopen : 0 < s.memory.word) (hasleep : (s.control t).asleep = true) :
    (s.control t).roused.Takes T 4 s.memory := by
  cases hpoint : s.control t with
  | wait current point =>
      rw [hpoint] at hasleep
      cases point with
      | asleep => exact LockPoint.wait_takes hopen (h.differs hcard hopen hpoint) rfl
      | _ => cases hasleep
  | _ =>
      rw [hpoint] at hasleep
      cases hasleep

/-- No wake is lost.  When the lock is free and threads are counted, one of them takes it by
itself, or the wake that gets one of them to take it is still to come.  Only where nobody sleeps
it may be that all of them are about to be refused by the host. -/
theorem internalLock_progress {needLocks : Int} {labels : List T}
    (hcard : Fintype.card T < 2147483648) (hneeded : 0 < needLocks)
    (hrun : Run (FutexThreads.Step internalLock) (unlocked needLocks) labels s)
    (hopen : ∀ t, (s.control t).holding = 0) (hqueued : ∃ t, (s.control t).queued = 1) :
    (∃ t, (s.control t).queued = 1 ∧ (s.control t).Takes T 4 s.memory) ∨
    ((∃ t, s.control t = .wake) ∧
      ∃ t, (s.control t).asleep = true ∧ (s.control t).roused.Takes T 4 s.memory) ∨
    (∀ t, (s.control t).asleep = false) ∧
      ∃ t current c, s.control t = .wait current .entering ∧ s.memory.word ≠ current ∧
        (s.control t).refused s.memory = some c ∧ c.Takes T 4 s.memory := by
  have h := unlocked_reaches hcard hneeded hrun
  have hword := h.word_cases
  have hnone : total LockPoint.holding s.control = 0 := Finset.sum_eq_zero fun t _ => hopen t
  obtain ⟨t, ht⟩ := hqueued
  have hcounted := le_total LockPoint.queued s.control t
  have hpos : 0 < s.memory.word := by
    simp only [INT_MIN] at *
    omega
  by_cases hsleeps : ∃ u, (s.control u).asleep = true
  · obtain ⟨sleeper, hasleep⟩ := hsleeps
    have hsleeping : 0 < (s.control sleeper).sleeping := by
      rw [LockPoint.sleeping, if_pos hasleep]
      exact Nat.one_pos
    obtain ⟨u, hu⟩ := h.attended.attending (by omega) hsleeping
    obtain hwake | htakes := h.attending_takes hcard hpos hu
    · exact Or.inr (Or.inl ⟨⟨u, hwake⟩, sleeper, hasleep, h.roused_takes hcard hpos hasleep⟩)
    · exact Or.inl ⟨u, htakes⟩
  · have hawake : ∀ u, (s.control u).asleep = false := fun u => by
      simpa using fun hasleep => hsleeps ⟨u, hasleep⟩
    by_cases hattends : 0 < (s.control t).attending
    · obtain hwake | htakes := h.attending_takes hcard hpos hattends
      · rw [hwake] at ht
        cases ht
      · exact Or.inl ⟨t, htakes⟩
    · refine Or.inr (Or.inr ⟨hawake, t, ?_⟩)
      have hdeaf := hawake t
      cases hpoint : s.control t with
      | wait current point =>
          rw [hpoint] at hattends hdeaf
          have hdiffers := h.differs hcard hpos hpoint
          cases point with
          | entering =>
              refine ⟨current, .wait current (.looking 0), rfl, hdiffers, ?_,
                LockPoint.wait_takes hpos hdiffers rfl⟩
              simp [LockPoint.refused, WaitPoint.refused, hdiffers]
          | asleep => cases hdeaf
          | _ => exact absurd Nat.one_pos hattends
      | acquire current =>
          rw [hpoint] at hattends
          exact absurd Nat.one_pos hattends
      | _ =>
          rw [hpoint] at ht
          cases ht

namespace LockWitness

/-- The second thread is counted and falls asleep while the first has the lock, which is then
given back. -/
def schedule : List (Move LockPoint Caller) :=
  [.call .first .check, .alone .first 2, .call .second .check, .alone .second 116,
    .call .first .unlock, .alone .first 2]

def taken : Option (LockState Caller) := replay internalLock (unlocked 1) (schedule.take 4)

def givenBack : Option (LockState Caller) := replay internalLock (unlocked 1) schedule

/-- The second thread has been counted and has seen the lock taken. -/
theorem taken_exclusive : ∃ s, taken = some s ∧
    (s.memory.word < 0 ↔ ∃ t, (s.control t).holding = 1) ∧ s.memory.word = INT_MIN + 2 := by
  obtain ⟨s, hs⟩ := Option.isSome_iff_exists.mp (show taken.isSome = true by decide +kernel)
  obtain ⟨labels, hrun⟩ := replay_run hs
  have hword : ∀ s ∈ taken, s.memory.word = INT_MIN + 2 := by decide +kernel
  exact ⟨s, hs, (internalLock_exclusive (by decide) (by decide) hrun).2.1, hword s hs⟩

/-- The lock is free, and the second thread sleeps until the first wakes it. -/
theorem given_back_progress : ∃ s, givenBack = some s ∧ (s.control .second).asleep = true ∧
    ((∃ t, (s.control t).queued = 1 ∧ (s.control t).Takes Caller 4 s.memory) ∨
    ((∃ t, s.control t = .wake) ∧
      ∃ t, (s.control t).asleep = true ∧ (s.control t).roused.Takes Caller 4 s.memory) ∨
    (∀ t, (s.control t).asleep = false) ∧
      ∃ t current c, s.control t = .wait current .entering ∧ s.memory.word ≠ current ∧
        (s.control t).refused s.memory = some c ∧ c.Takes Caller 4 s.memory) := by
  obtain ⟨s, hs⟩ := Option.isSome_iff_exists.mp (show givenBack.isSome = true by decide +kernel)
  obtain ⟨labels, hrun⟩ := replay_run hs
  have hopen : ∀ s ∈ givenBack, ∀ t, (s.control t).holding = 0 := by decide +kernel
  have hqueued : ∀ s ∈ givenBack, ∃ t, (s.control t).queued = 1 := by decide +kernel
  have hasleep : ∀ s ∈ givenBack, (s.control .second).asleep = true := by decide +kernel
  exact ⟨s, hs, hasleep s hs,
    internalLock_progress (by decide) (by decide) hrun (hopen s hs) (hqueued s hs)⟩

end LockWitness

end Sync

end WasixLibc
