/-
Registration of preopened directories under the lock of the table.

One thread makes the calls.  The lock is not recursive, and nobody else wakes
the thread, so an attempt to take the lock while it is held never ends.  What
the rest of the program does between two calls may change whether locks are
needed.
-/
import WasixLibc.PreopenTable

namespace WasixLibc

namespace Preopens

abbrev AT_FDCWD : BitVec 32 := -2

def INT_MIN : Int := -2147483648

/-- How a call can end without returning. -/
inductive RegisterFault where
  | deadlock
  | assertion
  | overflow
deriving Repr, DecidableEq

/-- The lock word and `libc.need_locks`. -/
structure LockState where
  word : Int := 0
  needLocks : Int := 0
deriving Repr, DecidableEq

/-- The loops of `__lock` after the fast path; `current` is the value the last
`a_cas` has found, and `none` is a wait for a wakeup that does not come. -/
def spin : Nat → Int → Int → Option Int
  | 0, _, word =>
      if word + 1 < 0 then none else some (INT_MIN + (word + 1))
  | i + 1, current, word =>
      let current := if current < 0 then current - (INT_MIN + 1) else current
      if word = current then some (INT_MIN + (current + 1)) else spin i word word

/-- `__lock` -/
def lock (l : LockState) : Except RegisterFault LockState :=
  if l.needLocks = 0 then .ok l
  else
    let needLocks := if l.needLocks < 0 then 0 else l.needLocks
    if l.word = 0 then .ok ⟨INT_MIN + 1, needLocks⟩
    else
      match spin 10 l.word l.word with
      | some word => .ok ⟨word, needLocks⟩
      | none => .error .deadlock

/-- `__unlock` -/
def unlock (l : LockState) : LockState :=
  if l.word < 0 then { l with word := l.word - (INT_MIN + 1) } else l

/-- The array, in slots that are `none` while they are zero. -/
structure Table where
  preopens : List (Option Preopen) := []
  numPreopens : Nat := 0
  preopenCapacity : Nat := 0

def Table.entries (t : Table) : List (Option Preopen) := t.preopens.take t.numPreopens

/-- A call, with what the allocator answers and `libc.need_locks` at its
start. -/
structure RegisterCall where
  fd : BitVec 32
  relPrefix : Str
  needLocks : Int
  callocOk : Bool := true
  strdupOk : Bool := true
  fd_ne : fd ≠ -1
  fd_ne_cwd : fd ≠ AT_FDCWD
  nul_not_mem : NUL ∉ relPrefix

def RegisterCall.entry (call : RegisterCall) : Preopen :=
  .register call.fd call.relPrefix call.fd_ne call.nul_not_mem

/-- `assert_invariants` -/
def assertInvariants (t : Table) : Except RegisterFault Unit :=
  if t.numPreopens ≤ t.preopenCapacity ∧ ∀ pre ∈ t.entries, pre.isSome then .ok ()
  else .error .assertion

/-- `memcpy` of `n` slots. -/
def memcpy (dst src : List (Option Preopen)) (n : Nat) :
    Except RegisterFault (List (Option Preopen)) :=
  if n ≤ dst.length ∧ n ≤ src.length then .ok (src.take n ++ dst.drop n) else .error .overflow

/-- `resize`: 0 on success and -1 on failure. -/
def resize (call : RegisterCall) (t : Table) (l : LockState) :
    Except RegisterFault (Int × Table × LockState) := do
  let l ← lock l
  let newCapacity := if t.preopenCapacity = 0 then 4 else t.preopenCapacity * 2
  if call.callocOk then
    let newPreopens ← memcpy (List.replicate newCapacity none) t.preopens t.numPreopens
    let t := { t with preopens := newPreopens, preopenCapacity := newCapacity }
    assertInvariants t
    return (0, t, unlock l)
  else return (-1, t, unlock l)

/-- `preopens[num_preopens++] = …` -/
def store (pre : Preopen) (t : Table) : Except RegisterFault Table :=
  if t.numPreopens < t.preopens.length then
    .ok { t with
      preopens := t.preopens.set t.numPreopens (some pre)
      numPreopens := t.numPreopens + 1 }
  else .error .overflow

/-- The part of `internal_register_preopened_fd` behind the growth. -/
def storeEntry (call : RegisterCall) (t : Table) (l : LockState) :
    Except RegisterFault (Int × Table × LockState) :=
  if call.strdupOk then do
    let t ← store call.entry t
    assertInvariants t
    return (0, t, unlock l)
  else .ok (-1, t, unlock l)

/-- `internal_register_preopened_fd` -/
def registerPreopenedFd (call : RegisterCall) (t : Table) (l : LockState) :
    Except RegisterFault (Int × Table × LockState) := do
  let l ← lock l
  assertInvariants t
  if t.numPreopens = t.preopenCapacity then
    let (ret, t, l) ← resize call t l
    if ret = 0 then storeEntry call t l else return (-1, t, unlock l)
  else storeEntry call t l

/-- A call in a run: the lock word is as the last call has left it. -/
def register (call : RegisterCall) (t : Table) (word : Int) :
    Except RegisterFault (Int × Table × LockState) :=
  registerPreopenedFd call t ⟨word, call.needLocks⟩

/-! The lock -/

theorem lock_of_zero {l : LockState} (h : l.needLocks = 0) : lock l = .ok l := if_pos h

theorem lock_free {l : LockState} (hneed : l.needLocks ≠ 0) (hword : l.word = 0) :
    lock l = .ok ⟨INT_MIN + 1, if l.needLocks < 0 then 0 else l.needLocks⟩ := by
  unfold lock
  rw [if_neg hneed, if_pos hword]

/-- A thread that holds the lock waits for itself. -/
theorem lock_held {l : LockState} (hneed : l.needLocks ≠ 0) (hword : l.word = INT_MIN + 1) :
    lock l = .error .deadlock := by
  unfold lock
  rw [if_neg hneed, if_neg (by rw [hword]; decide), hword]
  rfl

theorem unlock_word {l : LockState} (hword : l.word = 0 ∨ l.word = INT_MIN + 1) :
    (unlock l).word = 0 := by
  unfold unlock INT_MIN at *
  rcases hword with hword | hword
  · rw [if_neg (by omega), hword]
  · rw [if_pos (by omega)]
    exact Int.sub_eq_zero.mpr hword

/-! The table -/

/-- The entries are the front of an array of the stored capacity. -/
structure Table.Fits (t : Table) : Prop where
  length : t.preopens.length = t.preopenCapacity
  le : t.numPreopens ≤ t.preopenCapacity
  filled : ∀ pre ∈ t.entries, pre.isSome

theorem Table.Fits.asserted {t : Table} (h : t.Fits) : assertInvariants t = .ok () :=
  if_pos ⟨h.le, h.filled⟩

theorem Table.empty_fits : Table.Fits {} := ⟨rfl, le_rfl, by simp [Table.entries]⟩

/-- What a call that returns leaves behind. -/
structure Returned (call : RegisterCall) (t : Table) (ret : Int) (t' : Table) (l' : LockState) :
    Prop where
  released : l'.word = 0
  entries : ret = 0 ∧ t'.entries = t.entries ++ [some call.entry] ∨
    ret = -1 ∧ t'.entries = t.entries

theorem store_spec {t : Table} (pre : Preopen) (hfits : t.Fits)
    (hroom : t.numPreopens < t.preopenCapacity) :
    ∃ t', store pre t = .ok t' ∧ t'.Fits ∧ t'.entries = t.entries ++ [some pre] := by
  have hlength := hfits.length
  have hin : t.numPreopens < t.preopens.length := by omega
  have hentries : (t.preopens.set t.numPreopens (some pre)).take (t.numPreopens + 1) =
      t.preopens.take t.numPreopens ++ [some pre] := by
    rw [List.take_succ_eq_append_getElem (by rwa [List.length_set]), List.getElem_set_self,
      List.take_set_of_le le_rfl]
  refine ⟨_, if_pos hin, ⟨?_, hroom, ?_⟩, hentries⟩
  · simpa using hlength
  · intro slot hslot
    change slot ∈ (t.preopens.set _ _).take _ at hslot
    rw [hentries, List.mem_append, List.mem_singleton] at hslot
    rcases hslot with hold | rfl
    · exact hfits.filled slot hold
    · rfl

/-- Growth carries the entries over and leaves room behind them. -/
theorem grow_spec {t : Table} (hfits : t.Fits) (hfull : t.numPreopens = t.preopenCapacity)
    {newCapacity : Nat} (hnew : t.preopenCapacity < newCapacity) :
    ∃ slots, memcpy (List.replicate newCapacity none) t.preopens t.numPreopens = .ok slots ∧
      Table.Fits { t with preopens := slots, preopenCapacity := newCapacity } ∧
      slots.take t.numPreopens = t.entries := by
  have hlength := hfits.length
  have htake : ∀ rest, (t.preopens.take t.numPreopens ++ rest).take t.numPreopens = t.entries := by
    intro rest
    rw [List.take_append_of_le_length (by rw [List.length_take]; omega), List.take_take,
      Nat.min_self]
    rfl
  have hroom : t.numPreopens ≤ (List.replicate newCapacity (none : Option Preopen)).length := by
    rw [List.length_replicate]
    omega
  refine ⟨_, if_pos ⟨hroom, by omega⟩, ⟨?_, ?_, ?_⟩, htake _⟩
  · simp only [List.length_append, List.length_take, List.length_drop, List.length_replicate]
    omega
  · exact hfull ▸ hnew.le
  · intro slot hslot
    rw [Table.entries, htake] at hslot
    exact hfits.filled slot hslot

theorem storeEntry_spec (call : RegisterCall) {t : Table} {l : LockState} (hfits : t.Fits)
    (hroom : t.numPreopens < t.preopenCapacity) (hword : l.word = 0 ∨ l.word = INT_MIN + 1) :
    ∃ ret t' l', storeEntry call t l = .ok (ret, t', l') ∧ t'.Fits ∧
      Returned call t ret t' l' := by
  unfold storeEntry
  split
  · obtain ⟨t', hstore, hfits', hentries⟩ := store_spec call.entry hfits hroom
    rw [hstore]
    simp only [bind, Except.bind, hfits'.asserted]
    exact ⟨_, _, _, rfl, hfits', unlock_word hword, Or.inl ⟨rfl, hentries⟩⟩
  · exact ⟨_, _, _, rfl, hfits, unlock_word hword, Or.inr ⟨rfl, rfl⟩⟩

/-- A growth that does not have to lock. -/
theorem resize_spec (call : RegisterCall) {t : Table} {l : LockState} (hfits : t.Fits)
    (hfull : t.numPreopens = t.preopenCapacity) (hneed : l.needLocks = 0)
    (hword : l.word = 0 ∨ l.word = INT_MIN + 1) :
    ∃ ret t' l', resize call t l = .ok (ret, t', l') ∧ t'.Fits ∧ t'.entries = t.entries ∧
      l'.word = 0 ∧ (ret = 0 ∧ t'.numPreopens < t'.preopenCapacity ∨ ret = -1) := by
  have hnew : t.preopenCapacity < if t.preopenCapacity = 0 then 4 else t.preopenCapacity * 2 := by
    split <;> omega
  unfold resize
  simp only [lock_of_zero hneed, bind, Except.bind]
  split
  · obtain ⟨slots, hcopy, hfits', hentries⟩ := grow_spec hfits hfull hnew
    simp only [hcopy, hfits'.asserted]
    exact ⟨_, _, _, rfl, hfits', hentries, unlock_word hword, Or.inl ⟨rfl, by rwa [hfull]⟩⟩
  · exact ⟨_, _, _, rfl, hfits, rfl, unlock_word hword, Or.inr rfl⟩

/-! A call -/

/-- The call returns, with the lock released and at most one entry more. -/
def Keeps (call : RegisterCall) (t : Table) (word : Int) : Prop :=
  ∃ ret t' l', register call t word = .ok (ret, t', l') ∧ Returned call t ret t' l'

/-- No lock is taken for the growth, or there is none. -/
def Unnested (call : RegisterCall) (t : Table) : Prop :=
  call.needLocks ≤ 0 ∨ t.numPreopens < t.preopenCapacity

theorem register_of_unnested {call : RegisterCall} {t : Table} (hfits : t.Fits)
    (h : Unnested call t) :
    ∃ ret t' l', register call t 0 = .ok (ret, t', l') ∧ t'.Fits ∧ Returned call t ret t' l' := by
  obtain ⟨l, hlock, hword, hneed⟩ : ∃ l, lock ⟨0, call.needLocks⟩ = .ok l ∧
      (l.word = 0 ∨ l.word = INT_MIN + 1) ∧ (call.needLocks ≤ 0 → l.needLocks = 0) := by
    by_cases hzero : call.needLocks = 0
    · exact ⟨_, lock_of_zero hzero, Or.inl rfl, fun _ => hzero⟩
    · refine ⟨_, lock_free hzero rfl, Or.inr rfl, fun hle => if_pos ?_⟩
      exact Int.lt_iff_le_and_ne.mpr ⟨hle, hzero⟩
  unfold register registerPreopenedFd
  simp only [hlock, bind, Except.bind, hfits.asserted]
  by_cases hfull : t.numPreopens = t.preopenCapacity
  · rw [if_pos hfull]
    obtain ⟨ret, t', l', hresize, hfits', hentries, hword', hret⟩ :=
      resize_spec call hfits hfull (hneed (h.resolve_right (by omega))) hword
    simp only [hresize]
    rcases hret with ⟨rfl, hroom⟩ | rfl
    · obtain ⟨ret, t'', l'', hstore, hfits'', hreturned⟩ :=
        storeEntry_spec call hfits' hroom (Or.inl hword')
      refine ⟨ret, t'', l'', hstore, hfits'', hreturned.released, ?_⟩
      rw [← hentries]
      exact hreturned.entries
    · exact ⟨_, _, _, rfl, hfits', unlock_word (Or.inl hword'), Or.inr ⟨rfl, hentries⟩⟩
  · rw [if_neg hfull]
    exact storeEntry_spec call hfits (lt_of_le_of_ne hfits.le hfull) hword

theorem register_of_nested {call : RegisterCall} {t : Table} (hfits : t.Fits)
    (h : ¬ Unnested call t) : register call t 0 = .error .deadlock := by
  rw [Unnested, not_or, Int.not_le, not_lt] at h
  obtain ⟨hneed, hcapacity⟩ := h
  have hfull : t.numPreopens = t.preopenCapacity := le_antisymm hfits.le hcapacity
  have hne : call.needLocks ≠ 0 := by omega
  have houter : lock ⟨0, call.needLocks⟩ = .ok ⟨INT_MIN + 1, call.needLocks⟩ := by
    rw [lock_free hne rfl, if_neg (Int.not_lt.mpr (Int.le_of_lt hneed))]
  have hinner : resize call t ⟨INT_MIN + 1, call.needLocks⟩ = .error .deadlock := by
    unfold resize
    rw [lock_held hne rfl]
    rfl
  unfold register registerPreopenedFd
  simp only [houter, bind, Except.bind, hfits.asserted, hfull, ↓reduceIte, hinner]

theorem register_keeps_iff {call : RegisterCall} {t : Table} (hfits : t.Fits) :
    Keeps call t 0 ↔ Unnested call t := by
  constructor
  · rintro ⟨ret, t', l', hrun, _⟩
    by_contra hnested
    rw [register_of_nested hfits hnested] at hrun
    cases hrun
  · intro h
    obtain ⟨ret, t', l', hrun, _, hreturned⟩ := register_of_unnested hfits h
    exact ⟨ret, t', l', hrun, hreturned⟩

/-! Sequences of calls -/

/-- Every call keeps the discipline in the state the calls before it leave. -/
def Disciplined : List RegisterCall → Table → Int → Prop
  | [], _, _ => True
  | call :: calls, t, word => Keeps call t word ∧
      ∀ ret t' l', register call t word = .ok (ret, t', l') → Disciplined calls t' l'.word

/-- No call has to lock while it finds the table full. -/
def AllUnnested : List RegisterCall → Table → Int → Prop
  | [], _, _ => True
  | call :: calls, t, word => Unnested call t ∧
      ∀ ret t' l', register call t word = .ok (ret, t', l') → AllUnnested calls t' l'.word

theorem disciplined_iff_of_fits (calls : List RegisterCall) {t : Table} (hfits : t.Fits) :
    Disciplined calls t 0 ↔ AllUnnested calls t 0 := by
  induction calls generalizing t with
  | nil => rfl
  | cons call calls ih =>
      unfold Disciplined AllUnnested
      rw [register_keeps_iff hfits]
      refine and_congr_right fun hunnested => ?_
      obtain ⟨ret, t', l', hrun, hfits', hreturned⟩ := register_of_unnested hfits hunnested
      simp only [hrun, Except.ok.injEq, Prod.mk.injEq]
      constructor
      · rintro hnext _ _ _ ⟨rfl, rfl, rfl⟩
        rw [hreturned.released, ← ih hfits', ← hreturned.released]
        exact hnext _ _ _ ⟨rfl, rfl, rfl⟩
      · rintro hnext _ _ _ ⟨rfl, rfl, rfl⟩
        rw [hreturned.released, ih hfits', ← hreturned.released]
        exact hnext _ _ _ ⟨rfl, rfl, rfl⟩

/-- From the empty table on. -/
theorem disciplined_iff (calls : List RegisterCall) :
    Disciplined calls {} 0 ↔ AllUnnested calls {} 0 :=
  disciplined_iff_of_fits calls Table.empty_fits

namespace RegisterWitness

/-- The first call, while there is a second thread. -/
def call : RegisterCall where
  fd := 3
  relPrefix := [97]
  needLocks := 1
  fd_ne := by decide
  fd_ne_cwd := by decide
  nul_not_mem := by decide

theorem growth_deadlocks : ¬ ∀ calls : List RegisterCall, (∀ c ∈ calls, c.needLocks ≠ 0) →
    Disciplined calls {} 0 := by
  intro h
  obtain ⟨⟨ret, t', l', hrun, _⟩, _⟩ := h [call] (by decide)
  have hblocked : register call {} 0 = .error .deadlock := rfl
  rw [hblocked] at hrun
  cases hrun

end RegisterWitness

end Preopens

end WasixLibc
