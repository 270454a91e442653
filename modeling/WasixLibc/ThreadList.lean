/-
The list of threads.

Creation, exit and fork change the list, the count of threads and the flag that
asks for locks, each under the lock of the list, and so one after the other.  Which
threads run is told by the events alone.
-/
import Mathlib.Data.Finset.Card
import WasixLibc.LabelledRun
import WasixLibc.LinkedRing
import WasixLibc.SystemTypes

namespace WasixLibc

namespace Threads

/-- The address of a `struct pthread`. -/
abbrev Thread := Nat

/-- What the lock guards; `mapped` are the threads of which the block at `map_base` is
allocated. -/
structure ThreadList where
  links : Links Thread
  threadsMinus1 : Int
  needLocks : Int
  mapped : Finset Thread

/-- The main thread alone. -/
def ThreadList.init (main : Thread) : ThreadList where
  links := { next := fun _ => main, prev := fun _ => main }
  threadsMinus1 := 0
  needLocks := 0
  mapped := ∅

/-- `if (!libc.threads_minus_1++) libc.need_locks = 1` -/
def ThreadList.raise (s : ThreadList) : ThreadList :=
  { s with
    threadsMinus1 := s.threadsMinus1 + 1
    needLocks := if s.threadsMinus1 = 0 then 1 else s.needLocks }

/-- `if (!--libc.threads_minus_1) libc.need_locks = …` -/
def ThreadList.lower (needLocks : Int) (s : ThreadList) : ThreadList :=
  { s with
    threadsMinus1 := s.threadsMinus1 - 1
    needLocks := if s.threadsMinus1 - 1 = 0 then needLocks else s.needLocks }

/-- A call to `pthread_create`: whether it allocates the block for the thread,
what the allocator says, and what the host returns. -/
structure CreateCall where
  self : Thread
  new : Thread
  hasMap : Bool
  mallocOk : Bool
  spawn : Int

/-- The state after a call, what it returns, and what it writes to `*res`. -/
structure CreateResult where
  state : ThreadList
  ret : Nat
  res : Option Thread

/-- The section of `__pthread_create` under the lock. -/
def spawnAndLink (call : CreateCall) (s : ThreadList) : ThreadList :=
  let s := s.raise
  if 0 ≤ call.spawn then
    { s with links := s.links.insertAfter call.self call.new }
  else s.lower 0

/-- `__pthread_create` -/
def pthreadCreate (call : CreateCall) (s : ThreadList) : CreateResult :=
  if call.hasMap && !call.mallocOk then ⟨s, EAGAIN, none⟩
  else
    let s := if call.hasMap then { s with mapped := insert call.new s.mapped } else s
    let s := spawnAndLink call s
    if call.spawn < 0 then
      ⟨if call.hasMap then { s with mapped := s.mapped.erase call.new } else s, EAGAIN, none⟩
    else ⟨s, 0, some call.new⟩

/-- The section of `__pthread_exit` under the lock; `none` if the process exits
instead. -/
def pthreadExit (self : Thread) (s : ThreadList) : Option ThreadList :=
  if s.links.next self = self then none
  else
    let s := s.lower (-1)
    some { s with links := s.links.unlink self }

/-- What `_Fork` does in the child. -/
def forkChild (self : Thread) (s : ThreadList) : ThreadList :=
  { s with
    links := (s.links.setPrev self self).setNext self self
    threadsMinus1 := 0
    needLocks := if s.needLocks ≠ 0 then -1 else s.needLocks }

/-- What the fast path of `__lock` does to the flag. -/
def lockFlag (s : ThreadList) : ThreadList :=
  { s with needLocks := if s.needLocks < 0 then 0 else s.needLocks }

inductive ThreadEvent where
  | create (call : CreateCall)
  | exit (self : Thread)
  | forkParent (self : Thread)
  | forkChild (self : Thread)
  | lock (self : Thread)
  | free (thread : Thread)

/-- The host starts the thread: it is asked to once there is a block, and says so. -/
def CreateCall.Starts (call : CreateCall) : Prop :=
  (call.hasMap = true → call.mallocOk = true) ∧ 0 ≤ call.spawn

instance (call : CreateCall) : Decidable call.Starts := inferInstanceAs (Decidable (_ ∧ _))

/-- The threads that run after an event. -/
def ThreadEvent.alive (live : Finset Thread) : ThreadEvent → Finset Thread
  | .create call => if call.Starts then insert call.new live else live
  | .exit self => live.erase self
  | .forkChild self => {self}
  | .forkParent _ | .lock _ | .free _ => live

/-- The list, and the threads that run. -/
structure Process where
  list : ThreadList
  live : Finset Thread

def Process.init (main : Thread) : Process := ⟨.init main, {main}⟩

/-- The calling thread runs, and a new thread is put where nothing is. -/
structure CreateCall.Admissible (call : CreateCall) (p : Process) : Prop where
  self_mem : call.self ∈ p.live
  new_not_live : call.new ∉ p.live
  new_not_mapped : call.new ∉ p.list.mapped

/-- `_Fork` does not take the lock of the list, so the child may find the list
and the counters in any condition. -/
inductive ListStep : Process → ThreadEvent → ThreadList → Prop
  | create {p : Process} {call : CreateCall} (hcall : call.Admissible p) :
      ListStep p (.create call) (pthreadCreate call p.list).state
  | exit {p : Process} {s' : ThreadList} {self : Thread} (hself : self ∈ p.live)
      (hexit : pthreadExit self p.list = some s') : ListStep p (.exit self) s'
  | forkParent {p : Process} {self : Thread} (hself : self ∈ p.live) :
      ListStep p (.forkParent self) p.list
  | forkChild {p : Process} {self : Thread} (hself : self ∈ p.live) (links : Links Thread)
      (threadsMinus1 needLocks : Int) :
      ListStep p (.forkChild self) (forkChild self
        { p.list with links := links, threadsMinus1 := threadsMinus1, needLocks := needLocks })
  | lock {p : Process} {self : Thread} (hself : self ∈ p.live) :
      ListStep p (.lock self) (lockFlag p.list)
  | free {p : Process} {thread : Thread} (hthread : thread ∉ p.live) :
      ListStep p (.free thread) { p.list with mapped := p.list.mapped.erase thread }

/-- The code changes the list, and the event says which threads run. -/
def ThreadStep (p : Process) (event : ThreadEvent) (p' : Process) : Prop :=
  ListStep p event p'.list ∧ p'.live = event.alive p.live

/-- The links go around the live threads, which are counted, and more than one
of them asks for locks. -/
structure ThreadList.WellLinked (s : ThreadList) (live : Finset Thread) : Prop where
  ring : ∃ c : Cycle Thread, s.links.Ring c ∧ c.toFinset = live
  count : s.threadsMinus1 = live.card - 1
  needLocks : 2 ≤ live.card → 0 < s.needLocks

/-- A call has left everything as it was. -/
structure CreateResult.Unchanged (result : CreateResult) (s : ThreadList) : Prop where
  links : result.state.links = s.links
  threadsMinus1 : result.state.threadsMinus1 = s.threadsMinus1
  mapped : result.state.mapped = s.mapped
  res : result.res = none

/-! Steps -/

section Steps

variable {s s' : ThreadList} {live : Finset Thread} {call : CreateCall} {self : Thread}
variable {p p' : Process}

theorem raise_needLocks (s : ThreadList) :
    s.raise.needLocks = if s.threadsMinus1 = 0 then 1 else s.needLocks := rfl

theorem lower_needLocks (needLocks : Int) (s : ThreadList) :
    (s.lower needLocks).needLocks =
      if s.threadsMinus1 - 1 = 0 then needLocks else s.needLocks := rfl

/-- The ring seen from one of its threads. -/
theorem ThreadList.WellLinked.exists_ring (h : s.WellLinked live) (hself : self ∈ live) :
    ∃ l : List Thread, s.links.Ring (self :: l : List Thread) ∧
      (self :: l).toFinset = live ∧ l.length + 1 = live.card := by
  obtain ⟨c, hring, hlive⟩ := h.ring
  have hmem : self ∈ c := by
    have hmem' : self ∈ c.toMultiset.toFinset := by
      rw [Cycle.toFinset_toMultiset, hlive]
      exact hself
    induction c using Quotient.inductionOn' with
    | _ l => simpa using hmem'
  obtain ⟨l, rfl⟩ := Links.exists_cons_of_mem hmem
  rw [Cycle.coe_toFinset] at hlive
  refine ⟨l, hring, hlive, ?_⟩
  rw [← hlive, List.toFinset_card_of_nodup (Cycle.nodup_coe_iff.mp hring.nodup), List.length_cons]

theorem init_wellLinked (main : Thread) : (ThreadList.init main).WellLinked {main} where
  ring := ⟨([main] : List Thread), Links.ring_singleton rfl rfl, by
    rw [Cycle.coe_toFinset]
    rfl⟩
  count := by simp [ThreadList.init]
  needLocks := by simp

theorem spawnAndLink_mapped (call : CreateCall) (s : ThreadList) :
    (spawnAndLink call s).mapped = s.mapped := by
  unfold spawnAndLink
  dsimp only
  split <;> rfl

/-- A spawn that fails takes the count back. -/
theorem spawnAndLink_failed (h : s.WellLinked live) (hspawn : call.spawn < 0) :
    (spawnAndLink call s).WellLinked live ∧ (spawnAndLink call s).links = s.links ∧
      (spawnAndLink call s).threadsMinus1 = s.threadsMinus1 := by
  have hcount := h.count
  have hsection : spawnAndLink call s = s.raise.lower 0 := if_neg (by omega)
  rw [hsection]
  refine ⟨⟨h.ring, ?_, ?_⟩, rfl, ?_⟩
  · simp only [ThreadList.lower, ThreadList.raise]
    omega
  · intro htwo
    have hraised : s.raise.threadsMinus1 = s.threadsMinus1 + 1 := rfl
    rw [lower_needLocks, raise_needLocks, if_neg (by omega), if_neg (by omega)]
    exact h.needLocks htwo
  · simp only [ThreadList.lower, ThreadList.raise]
    omega

/-- A spawn that succeeds links the thread in. -/
theorem spawnAndLink_linked (h : s.WellLinked live) (hself : call.self ∈ live)
    (hnew : call.new ∉ live) (hspawn : 0 ≤ call.spawn) :
    (spawnAndLink call s).WellLinked (insert call.new live) := by
  have hcount := h.count
  have hcard := Finset.card_insert_of_notMem hnew
  obtain ⟨l, hring, hlive, hlength⟩ := h.exists_ring hself
  have hfresh : call.new ∉ call.self :: l := by
    rw [← List.mem_toFinset, hlive]
    exact hnew
  have hsection : spawnAndLink call s =
      { s.raise with links := s.links.insertAfter call.self call.new } := if_pos hspawn
  rw [hsection]
  refine ⟨⟨_, hring.insertAfter hfresh, ?_⟩, ?_, ?_⟩
  · rw [Cycle.coe_toFinset, List.toFinset_cons, List.toFinset_cons, Finset.insert_comm, ← hlive,
      List.toFinset_cons]
  · simp only [ThreadList.raise, hcard]
    omega
  · intro _
    simp only [ThreadList.raise]
    split
    · exact Int.one_pos
    · exact h.needLocks (by omega)

/-- The blocks that are allocated do not matter for the list. -/
theorem ThreadList.WellLinked.withMapped (h : s.WellLinked live) (mapped : Finset Thread) :
    ThreadList.WellLinked { s with mapped := mapped } live := ⟨h.ring, h.count, h.needLocks⟩

/-- How a call ends: without a block, without a thread, or with both. -/
theorem pthreadCreate_cases (call : CreateCall) (s : ThreadList) :
    ¬call.Starts ∧ pthreadCreate call s = ⟨s, EAGAIN, none⟩ ∨
    (¬call.Starts ∧ call.spawn < 0 ∧ ∃ mapped mapped' : Finset Thread,
      pthreadCreate call s =
        ⟨{ spawnAndLink call { s with mapped } with mapped := mapped' }, EAGAIN, none⟩ ∧
      (call.new ∉ s.mapped → mapped' = s.mapped)) ∨
    call.Starts ∧ ∃ mapped : Finset Thread,
      pthreadCreate call s = ⟨spawnAndLink call { s with mapped }, 0, some call.new⟩ := by
  have hfailed : call.spawn < 0 → ¬call.Starts :=
    fun hspawn hstarts => absurd hspawn (Int.not_lt.mpr hstarts.2)
  unfold pthreadCreate
  cases hhas : call.hasMap with
  | true =>
      cases hmalloc : call.mallocOk with
      | false =>
          refine Or.inl ⟨fun hstarts => ?_, rfl⟩
          have hblock := hstarts.1 hhas
          rw [hmalloc] at hblock
          cases hblock
      | true =>
          refine Or.inr ?_
          by_cases hspawn : call.spawn < 0
          · refine Or.inl ⟨hfailed hspawn, hspawn, insert call.new s.mapped,
              (insert call.new s.mapped).erase call.new, ?_, Finset.erase_insert⟩
            simp [hspawn, spawnAndLink_mapped]
          · refine Or.inr ⟨⟨fun _ => hmalloc, by omega⟩, insert call.new s.mapped, ?_⟩
            simp [hspawn]
  | false =>
      refine Or.inr ?_
      by_cases hspawn : call.spawn < 0
      · refine Or.inl ⟨hfailed hspawn, hspawn, s.mapped, (spawnAndLink call s).mapped, ?_,
          fun _ => spawnAndLink_mapped call s⟩
        simp [hspawn]
      · refine Or.inr ⟨⟨fun hmap => absurd (hmap.symm.trans hhas) (by decide), by omega⟩,
          s.mapped, ?_⟩
        simp [hspawn]

theorem pthreadCreate_wellLinked (h : p.list.WellLinked p.live) (hcall : call.Admissible p) :
    (pthreadCreate call p.list).state.WellLinked ((ThreadEvent.create call).alive p.live) := by
  dsimp only [ThreadEvent.alive]
  rcases pthreadCreate_cases call p.list with ⟨hstarts, heq⟩ |
    ⟨hstarts, hspawn, mapped, mapped', heq, -⟩ | ⟨hstarts, mapped, heq⟩
  · rw [heq, if_neg hstarts]
    exact h
  · rw [heq, if_neg hstarts]
    exact (spawnAndLink_failed (h.withMapped mapped) hspawn).1.withMapped mapped'
  · rw [heq, if_pos hstarts]
    exact spawnAndLink_linked (h.withMapped mapped) hcall.self_mem hcall.new_not_live hstarts.2

/-- A call that fails has given back what it took, and has not started a thread. -/
theorem pthreadCreate_unchanged (h : s.WellLinked live) (hnew : call.new ∉ s.mapped)
    (hfailed : (pthreadCreate call s).ret ≠ 0) :
    (pthreadCreate call s).Unchanged s ∧ ¬call.Starts := by
  rcases pthreadCreate_cases call s with ⟨hstarts, heq⟩ |
    ⟨hstarts, hspawn, mapped, mapped', heq, hmapped⟩ | ⟨hstarts, mapped, heq⟩
  · rw [heq]
    exact ⟨⟨rfl, rfl, rfl, rfl⟩, hstarts⟩
  · obtain ⟨-, hlinks, hcount⟩ := spawnAndLink_failed (h.withMapped mapped) hspawn
    rw [heq]
    exact ⟨⟨hlinks, hcount, hmapped hnew, rfl⟩, hstarts⟩
  · rw [heq] at hfailed
    exact absurd rfl hfailed

/-- A thread that is not alone leaves the ring. -/
theorem pthreadExit_wellLinked (h : s.WellLinked live) (hself : self ∈ live)
    (hexit : pthreadExit self s = some s') : s'.WellLinked (live.erase self) := by
  have hcount := h.count
  obtain ⟨l, hring, hlive, hlength⟩ := h.exists_ring hself
  unfold pthreadExit at hexit
  split at hexit
  · cases hexit
  · rename_i hnext
    rw [hring.next_self_iff] at hnext
    obtain rfl := Option.some.inj hexit
    obtain ⟨b, rest, rfl⟩ := List.exists_cons_of_ne_nil hnext
    have hcard := Finset.card_erase_add_one hself
    have hnodup := Cycle.nodup_coe_iff.mp hring.nodup
    have hleft : (b :: rest).toFinset = live.erase self := by
      have houtside : self ∉ (b :: rest).toFinset := by
        rw [List.mem_toFinset]
        exact (List.nodup_cons.mp hnodup).1
      calc (b :: rest).toFinset = (insert self (b :: rest).toFinset).erase self :=
            (Finset.erase_insert houtside).symm
        _ = live.erase self := by rw [← List.toFinset_cons, hlive]
    refine ⟨⟨_, hring.unlink, ?_⟩, ?_, ?_⟩
    · rw [Cycle.coe_toFinset]
      exact hleft
    · simp only [ThreadList.lower]
      omega
    · intro htwo
      rw [lower_needLocks, if_neg (by omega)]
      exact h.needLocks (by omega)

/-- The child is alone, whatever it finds. -/
theorem forkChild_wellLinked (self : Thread) (s : ThreadList) :
    (forkChild self s).WellLinked {self} where
  ring := by
    refine ⟨([self] : List Thread), Links.ring_singleton ?_ ?_, ?_⟩
    · exact Function.update_self ..
    · exact Function.update_self ..
    · rw [Cycle.coe_toFinset]
      rfl
  count := by simp [forkChild]
  needLocks := by simp

theorem step_wellLinked {event : ThreadEvent} (h : p.list.WellLinked p.live)
    (hstep : ThreadStep p event p') : p'.list.WellLinked p'.live := by
  obtain ⟨hlist, hlive⟩ := hstep
  rw [hlive]
  generalize p'.list = s' at hlist
  cases hlist with
  | create hcall => exact pthreadCreate_wellLinked h hcall
  | exit hself hexit => exact pthreadExit_wellLinked h hself hexit
  | forkParent hself => exact h
  | forkChild hself links threadsMinus1 needLocks => exact forkChild_wellLinked _ _
  | lock hself =>
      refine ⟨h.ring, h.count, fun htwo => ?_⟩
      have hneed := h.needLocks htwo
      simp only [lockFlag]
      split
      · omega
      · exact hneed
  | free hthread => exact h.withMapped _

/-- In every run the list is well linked, and a call that fails changes
nothing. -/
theorem run_wellLinked {main : Thread} {events : List ThreadEvent}
    (hrun : Run ThreadStep (Process.init main) events p) :
    p.live = events.foldl ThreadEvent.alive {main} ∧ p.list.WellLinked p.live ∧
      ∀ call : CreateCall, call.Admissible p → (pthreadCreate call p.list).ret ≠ 0 →
        (pthreadCreate call p.list).Unchanged p.list ∧ ¬call.Starts := by
  have hlinked : p.list.WellLinked p.live := by
    induction hrun with
    | nil => exact init_wellLinked main
    | snoc _ hstep ih => exact step_wellLinked ih hstep
  have hlive : p.live = events.foldl ThreadEvent.alive {main} := by
    refine hrun.preserves_trace (fun ih hstep => ?_) rfl
    rw [List.foldl_append, ← ih]
    exact hstep.2
  exact ⟨hlive, hlinked, fun call hcall hfailed =>
    pthreadCreate_unchanged hlinked hcall.new_not_mapped hfailed⟩

end Steps

namespace ListWitness

/-- The main thread 0 creates thread 1. -/
def call : CreateCall where
  self := 0
  new := 1
  hasMap := true
  mallocOk := true
  spawn := 7

def created : Process := ⟨(pthreadCreate call (.init 0)).state, {0, 1}⟩

theorem created_wellLinked : created.live = [ThreadEvent.create call].foldl ThreadEvent.alive {0} ∧
    created.list.WellLinked created.live ∧
    ∀ call' : CreateCall, call'.Admissible created → (pthreadCreate call' created.list).ret ≠ 0 →
      (pthreadCreate call' created.list).Unchanged created.list ∧ ¬call'.Starts :=
  run_wellLinked (Run.single ⟨.create ⟨by decide, by decide, by decide⟩, by decide⟩)

end ListWitness

end Threads

end WasixLibc
