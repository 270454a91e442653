/-
The user data and the event bits of epoll registrations, on their way to the
host and back.

The 64 bits of the union are spread over several fields of the host.  What
comes back is taken from the first of these fields that is not zero.
-/
import WasixLibc.FlagTable
import WasixLibc.SystemTypes
import Mathlib.Data.List.Forall2

namespace WasixLibc

namespace Epoll

/-- The union is its eight bytes, of which the pointer, the descriptor and
`u32` are the lower four. -/
structure EpollEvent where
  events : BitVec 32
  data : BitVec 64
deriving Repr, DecidableEq

/-- `__wasi_epoll_data_t` -/
structure HostData where
  ptr : BitVec 32
  fd : BitVec 32
  data1 : BitVec 32
  data2 : BitVec 64
deriving Repr, DecidableEq

/-- `__wasi_epoll_event_t` -/
structure HostEvent where
  events : BitVec 32
  data : HostData
deriving Repr, DecidableEq

def EPOLLIN : BitVec 32 := 0x001
def EPOLLPRI : BitVec 32 := 0x002
def EPOLLOUT : BitVec 32 := 0x004
def EPOLLERR : BitVec 32 := 0x008
def EPOLLHUP : BitVec 32 := 0x010
def EPOLLRDHUP : BitVec 32 := 0x2000
def EPOLLONESHOT : BitVec 32 := 1 <<< 30
def EPOLLET : BitVec 32 := 1 <<< 31

/-- The bits of `__wasi_epoll_type_t`. -/
def TYPE_EPOLLIN : BitVec 32 := 1 <<< 0
def TYPE_EPOLLOUT : BitVec 32 := 1 <<< 1
def TYPE_EPOLLRDHUP : BitVec 32 := 1 <<< 2
def TYPE_EPOLLPRI : BitVec 32 := 1 <<< 3
def TYPE_EPOLLERR : BitVec 32 := 1 <<< 4
def TYPE_EPOLLHUP : BitVec 32 := 1 <<< 5
def TYPE_EPOLLET : BitVec 32 := 1 <<< 6
def TYPE_EPOLLONESHOT : BitVec 32 := 1 <<< 7

/-- The tests of `epoll_ctl` in their order; those of `epoll_pwait` go the
other way. -/
def eventTable : List (BitVec 32 × BitVec 32) :=
  [(EPOLLIN, TYPE_EPOLLIN), (EPOLLOUT, TYPE_EPOLLOUT), (EPOLLRDHUP, TYPE_EPOLLRDHUP),
    (EPOLLPRI, TYPE_EPOLLPRI), (EPOLLERR, TYPE_EPOLLERR), (EPOLLHUP, TYPE_EPOLLHUP),
    (EPOLLET, TYPE_EPOLLET), (EPOLLONESHOT, TYPE_EPOLLONESHOT)]

def toHostEvents (events : BitVec 32) : BitVec 32 := FlagTable.translate eventTable events

def fromHostEvents (events : BitVec 32) : BitVec 32 :=
  FlagTable.translate (eventTable.map Prod.swap) events

/-- The member `u32` of the union. -/
def low (data : BitVec 64) : BitVec 32 := data.extractLsb' 0 32

/-- The bytes that the smaller members of the union do not have. -/
def high (data : BitVec 64) : BitVec 32 := data.extractLsb' 32 32

/-- What a registration sends to the host. -/
def hostEvent (fd2 : BitVec 32) (ev : EpollEvent) : HostEvent where
  events := toHostEvents ev.events
  data :=
    { ptr := low ev.data
      fd := fd2
      data1 := low ev.data
      data2 := ev.data }

/-- `epoll_ctl`; the argument `ctl` is the call of the host. -/
def epollCtl (ctl : BitVec 32 → BitVec 32 → BitVec 32 → Option HostEvent → Errno)
    (fd op fd2 : BitVec 32) (ev : Option EpollEvent) : Errno :=
  ctl fd op fd2 (ev.map (hostEvent fd2))

/-- An assignment to one of the smaller members of the union. -/
def setLow (data : BitVec 64) (value : BitVec 32) : BitVec 64 := high data ++ value

/-- The data that an event is given, of which `old` was there before. -/
def receivedData (old : BitVec 64) (data : HostData) : BitVec 64 :=
  if data.ptr ≠ 0 then setLow old data.ptr
  else if data.fd ≠ 0 then setLow old data.fd
  else if data.data1 ≠ 0 then setLow old data.data1
  else data.data2

def received (old : EpollEvent) (ev2 : HostEvent) : EpollEvent where
  events := fromHostEvents ev2.events
  data := receivedData old.data ev2.data

/-- The loop over the events that are ready. -/
def receiveAll : List EpollEvent → List HostEvent → List EpollEvent
  | old :: ev, ev2 :: ready => received old ev2 :: receiveAll ev ready
  | ev, _ => ev

/-- The timeout in nanoseconds, all ones for none. -/
def waitTimeout (toMs : BitVec 32) : BitVec 64 :=
  if BitVec.slt toMs 0 then BitVec.allOnes 64 else toMs.signExtend 64 * 1000000

/-- The number of events there is room for. -/
def maxevents (cnt : BitVec 32) : BitVec 32 := if BitVec.slt 64 cnt then 64 else cnt

/-- `epoll_pwait`, which returns the array `ev` as well; the argument `wait` is
the call of the host. -/
def epollPwait (wait : BitVec 32 → BitVec 32 → BitVec 64 → Except Errno (List HostEvent))
    (fd : BitVec 32) (ev : List EpollEvent) (cnt toMs : BitVec 32) :
    Except Errno Nat × List EpollEvent :=
  match wait fd (maxevents cnt) (waitTimeout toMs) with
  | .error error => (.error error, ev)
  | .ok ready => (.ok ready.length, receiveAll ev ready)

/-- `epoll_wait` -/
def epollWait (wait : BitVec 32 → BitVec 32 → BitVec 64 → Except Errno (List HostEvent))
    (fd : BitVec 32) (ev : List EpollEvent) (cnt toMs : BitVec 32) :
    Except Errno Nat × List EpollEvent := epollPwait wait fd ev cnt toMs

/-! Event bits -/

theorem eventTable_singleBits : FlagTable.SingleBits eventTable :=
  .of_check (by decide)

/-- The supported bits are kept. -/
theorem fromHostEvents_toHostEvents (events : BitVec 32) :
    fromHostEvents (toHostEvents events) = events &&&
      (EPOLLIN ||| EPOLLOUT ||| EPOLLRDHUP ||| EPOLLPRI ||| EPOLLERR ||| EPOLLHUP ||| EPOLLET |||
        EPOLLONESHOT) :=
  FlagTable.translate_swap_translate eventTable_singleBits events

/-! User data -/

theorem high_setLow (data : BitVec 64) (value : BitVec 32) :
    high (setLow data value) = high data := BitVec.extractLsb'_append_eq_left

theorem low_setLow (data : BitVec 64) (value : BitVec 32) : low (setLow data value) = value :=
  BitVec.extractLsb'_append_eq_right

theorem high_append_low (data : BitVec 64) : high data ++ low data = data :=
  BitVec.extractLsb'_append_extractLsb'

theorem eq_iff_halves {data data' : BitVec 64} :
    data = data' ↔ high data = high data' ∧ low data = low data' := by
  constructor
  · rintro rfl
    exact ⟨rfl, rfl⟩
  · rintro ⟨hhigh, hlow⟩
    rw [← high_append_low data, ← high_append_low data', hhigh, hlow]

/-- A member of the union is read back as the whole union if the other half was
there already. -/
theorem setLow_eq_iff {old data : BitVec 64} {value : BitVec 32} :
    setLow old value = data ↔ high old = high data ∧ value = low data := by
  rw [eq_iff_halves, high_setLow, low_setLow]

/-- A registration, and the bits with which the host reports it ready. -/
structure Registration where
  fd2 : BitVec 32
  ev : EpollEvent
  ready : BitVec 32

/-- What `epoll_ctl` hands to the host for a registration, whatever the host makes of it. -/
def Registration.Hands (registration : Registration) (sent : HostEvent) : Prop :=
  ∀ (ctl : BitVec 32 → BitVec 32 → BitVec 32 → Option HostEvent → Errno) (fd op : BitVec 32),
    epollCtl ctl fd op registration.fd2 (some registration.ev) =
      ctl fd op registration.fd2 (some sent)

/-- The report of a registration has the data that were handed to the host for it. -/
def Registration.Echo (registration : Registration) (ev2 : HostEvent) : Prop :=
  ∃ sent : HostEvent, registration.Hands sent ∧ ev2 = ⟨registration.ready, sent.data⟩

theorem Registration.hands_iff {registration : Registration} {sent : HostEvent} :
    registration.Hands sent ↔ sent = hostEvent registration.fd2 registration.ev := by
  constructor
  · intro hhands
    -- a host that takes no other event
    have hctl := hhands (fun _ _ _ event => if event = some sent then 0 else EINVAL) 0 0
    by_contra hother
    unfold epollCtl at hctl
    dsimp only at hctl
    rw [Option.map_some, if_neg fun heq => hother (Option.some.inj heq).symm, if_pos rfl] at hctl
    exact absurd hctl (by decide)
  · rintro rfl ctl fd op
    rfl

theorem Registration.echo_iff {registration : Registration} {ev2 : HostEvent} :
    registration.Echo ev2 ↔
      ev2 = ⟨registration.ready, (hostEvent registration.fd2 registration.ev).data⟩ := by
  unfold Registration.Echo
  simp only [hands_iff, exists_eq_left]

/-- The lower half of the data is not zero and the array has the upper half
already, or there is nothing else that could stand for the lower half. -/
def Kept (registration : Registration) (old : EpollEvent) : Prop :=
  low registration.ev.data ≠ 0 ∧ high old.data = high registration.ev.data ∨
    low registration.ev.data = 0 ∧ registration.fd2 = 0

theorem received_data_eq_iff {registration : Registration} {ev2 : HostEvent}
    (hecho : registration.Echo ev2) (old : EpollEvent) :
    (received old ev2).data = registration.ev.data ↔ Kept registration old := by
  rw [Registration.echo_iff.mp hecho]
  unfold received receivedData hostEvent Kept
  dsimp only
  split
  · rename_i hlow
    simp only [setLow_eq_iff, hlow, and_true, not_false_eq_true, true_and, false_and, or_false,
      ne_eq]
  · rename_i hlow
    rw [not_not] at hlow
    split
    · rename_i hfd
      simp only [setLow_eq_iff, hlow, hfd, and_false, ne_eq, not_true_eq_false, false_and, or_self]
    · rename_i hfd
      rw [not_not] at hfd
      simp only [hlow, hfd, ne_eq, not_true_eq_false, and_self, or_true]

theorem getElem?_receiveAll {ev : List EpollEvent} {ready : List HostEvent} {c : Nat}
    {old : EpollEvent} {ev2 : HostEvent} (hold : ev[c]? = some old)
    (hready : ready[c]? = some ev2) :
    (receiveAll ev ready)[c]? = some (received old ev2) := by
  induction ev, ready using receiveAll.induct generalizing c with
  | case1 old' ev ev2' ready ih =>
      cases c with
      | zero =>
          cases hold
          cases hready
          rfl
      | succ c => exact ih hold hready
  | case2 ev ready hnot =>
      cases ev with
      | nil => cases hold
      | cons old' ev =>
          cases ready with
          | nil => cases hready
          | cons ev2' ready => exact absurd rfl (hnot old' ev ev2' ready rfl)

/-- Every event of a wait has the bits of its report, and the data of its
registration exactly if these are kept. -/
theorem epollWait_userData_iff
    (wait : BitVec 32 → BitVec 32 → BitVec 64 → Except Errno (List HostEvent))
    (fd : BitVec 32) (ev : List EpollEvent) (cnt toMs : BitVec 32)
    (registrations : List Registration) (ready : List HostEvent)
    (hready : wait fd (maxevents cnt) (waitTimeout toMs) = .ok ready)
    (hecho : List.Forall₂ Registration.Echo registrations ready) :
    (∀ mask, fromHostEvents (toHostEvents mask) = mask &&&
      (EPOLLIN ||| EPOLLOUT ||| EPOLLRDHUP ||| EPOLLPRI ||| EPOLLERR ||| EPOLLHUP ||| EPOLLET |||
        EPOLLONESHOT)) ∧
    (epollWait wait fd ev cnt toMs).1 = .ok registrations.length ∧
    ∀ (c : Nat) (registration : Registration) (old : EpollEvent),
      registrations[c]? = some registration → ev[c]? = some old →
      ∃ event : EpollEvent, (epollWait wait fd ev cnt toMs).2[c]? = some event ∧
        event.events = fromHostEvents registration.ready ∧
        (event.data = registration.ev.data ↔ Kept registration old) := by
  have hwait : epollWait wait fd ev cnt toMs =
      (.ok registrations.length, receiveAll ev ready) := by
    unfold epollWait epollPwait
    rw [hready, hecho.length_eq]
  rw [hwait]
  refine ⟨fromHostEvents_toHostEvents, rfl, ?_⟩
  intro c registration old hregistration hold
  obtain ⟨hc, rfl⟩ := List.getElem?_eq_some_iff.mp hregistration
  have hc' : c < ready.length := hecho.length_eq ▸ hc
  have hreport : registrations[c].Echo ready[c] := hecho.get hc hc'
  refine ⟨_, getElem?_receiveAll hold (List.getElem?_eq_getElem hc'), ?_,
    received_data_eq_iff hreport old⟩
  rw [Registration.echo_iff.mp hreport]
  rfl

namespace EpollWitness

/-- A pointer, whose upper half is nothing, for descriptor 5. -/
def pointer : Registration where
  fd2 := 5
  ev := ⟨EPOLLIN, 0x10010⟩
  ready := TYPE_EPOLLIN

/-- What the host reports for it. -/
def reported : List HostEvent := [⟨TYPE_EPOLLIN, ⟨0x10010, 5, 0x10010, 0x10010⟩⟩]

/-- It comes back in an array of zeros. -/
theorem pointer_kept :
    ∃ event : EpollEvent,
      (epollWait (fun _ _ _ => .ok reported) 3 [⟨0, 0⟩] 1 0).2[0]? = some event ∧
      event.data = 0x10010 := by
  obtain ⟨-, -, hevents⟩ := epollWait_userData_iff (fun _ _ _ => .ok reported) 3 [⟨0, 0⟩] 1 0
    [pointer] reported rfl (.cons ⟨_, fun _ _ _ => rfl, rfl⟩ .nil)
  obtain ⟨event, hevent, -, hdata⟩ := hevents 0 pointer ⟨0, 0⟩ rfl rfl
  exact ⟨event, hevent, hdata.mpr (Or.inl (by decide))⟩

/-- The number 0, for descriptor 7. -/
def zero : Registration where
  fd2 := 7
  ev := ⟨EPOLLOUT, 0⟩
  ready := TYPE_EPOLLOUT

/-- The descriptor comes back in its place. -/
theorem zero_replaced :
    ¬ ∀ (wait : BitVec 32 → BitVec 32 → BitVec 64 → Except Errno (List HostEvent))
        (fd : BitVec 32) (ev : List EpollEvent) (cnt toMs : BitVec 32)
        (registrations : List Registration) (ready : List HostEvent),
        wait fd (maxevents cnt) (waitTimeout toMs) = .ok ready →
        List.Forall₂ Registration.Echo registrations ready →
        ∀ (c : Nat) (registration : Registration) (old : EpollEvent),
          registrations[c]? = some registration → ev[c]? = some old →
          ((epollWait wait fd ev cnt toMs).2[c]?.map EpollEvent.data) =
            some registration.ev.data := by
  intro h
  have hecho : zero.Echo ⟨TYPE_EPOLLOUT, ⟨0, 7, 0, 0⟩⟩ := ⟨_, fun _ _ _ => rfl, rfl⟩
  have hdata := h (fun _ _ _ => .ok [⟨TYPE_EPOLLOUT, ⟨0, 7, 0, 0⟩⟩]) 3 [⟨0, 0⟩] 1 0 [zero] _ rfl
    (.cons hecho .nil) 0 zero ⟨0, 0⟩ rfl rfl
  exact absurd hdata (by decide)

end EpollWitness

end Epoll

end WasixLibc
