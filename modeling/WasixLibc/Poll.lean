/-
`poll`, which asks the host for a readable and a writable event of each entry.

An entry takes part in the wait through its address, so that what comes back
for it is told from what comes back for another entry of the same descriptor.
-/
import WasixLibc.ClampedTimeout
import WasixLibc.FlagTable

namespace WasixLibc

namespace Poll

open Select (EventType ClockId)

def POLLRDNORM : BitVec 16 := 0x1
def POLLWRNORM : BitVec 16 := 0x2
def POLLERR : BitVec 16 := 0x1000
def POLLHUP : BitVec 16 := 0x2000
def POLLNVAL : BitVec 16 := 0x4000

/-- `__WASI_EVENTRWFLAGS_FD_READWRITE_HANGUP` -/
def FD_READWRITE_HANGUP : BitVec 16 := 1

/-- `struct pollfd` -/
structure PollFd where
  fd : BitVec 32
  events : BitVec 16
  revents : BitVec 16
deriving Repr, DecidableEq

/-- A null pointer, or the address of an entry of the array, as its index. -/
abbrev Userdata := Option Nat

inductive Subscription where
  | fdRead (userdata : Userdata) (fileDescriptor : BitVec 32)
  | fdWrite (userdata : Userdata) (fileDescriptor : BitVec 32)
  | clock (userdata : Userdata) (id : ClockId) (timeout : BitVec 64)
deriving Repr, DecidableEq

/-- `__wasi_event_t` -/
structure Event where
  userdata : Userdata
  error : Errno
  type : EventType
  flags : BitVec 16
deriving Repr, DecidableEq

/-- The subscriptions for one entry. -/
def subscribe (i : Nat) (pollfd : PollFd) : List Subscription :=
  (if pollfd.events &&& POLLRDNORM ≠ 0 then [.fdRead (some i) pollfd.fd] else []) ++
    (if pollfd.events &&& POLLWRNORM ≠ 0 then [.fdWrite (some i) pollfd.fd] else [])

/-- The subscriptions for the entries from an index on; `none` if there is one
that asks for neither event. -/
def subscribeAll : Nat → List PollFd → Option (List Subscription)
  | _, [] => some []
  | i, pollfd :: fds =>
      if BitVec.slt pollfd.fd 0 then subscribeAll (i + 1) fds
      else if subscribe i pollfd = [] then none
      else (subscribeAll (i + 1) fds).map (subscribe i pollfd ++ ·)

/-- The extra subscription for the timeout. -/
def subscribeTimeout (timeout : BitVec 32) : List Subscription :=
  if BitVec.slt timeout 0 then []
  else
    [.clock none .realtime (if timeout ≠ 0 then timeout.signExtend 64 * 1000000 else 1)]

def subscriptions (fds : List PollFd) (timeout : BitVec 32) : Option (List Subscription) :=
  (subscribeAll 0 fds).map (· ++ subscribeTimeout timeout)

/-- What an event sets in `revents`. -/
def translate (event : Event) : BitVec 16 :=
  if event.error = EBADF then POLLNVAL
  else if event.error = EPIPE then POLLHUP
  else if event.error ≠ 0 then POLLERR
  else
    let hangup := if event.flags &&& FD_READWRITE_HANGUP ≠ 0 then POLLHUP else 0
    match event.type with
    | .fdRead => POLLRDNORM ||| hangup
    | .fdWrite => POLLWRNORM ||| hangup
    | .clock => 0

/-- The event is one of a descriptor, and points to an entry. -/
def target (event : Event) : Option Nat :=
  if event.type = .fdRead ∨ event.type = .fdWrite then event.userdata else none

def setRevents (fds : List PollFd) (event : Event) : List PollFd :=
  match target event with
  | some i =>
      fds.modify i fun pollfd => { pollfd with revents := pollfd.revents ||| translate event }
  | none => fds

def clearRevents (pollfd : PollFd) : PollFd := { pollfd with revents := 0 }

/-- `POLLHUP` contradicts with `POLLWRNORM`. -/
def settle (revents : BitVec 16) : BitVec 16 :=
  if revents &&& POLLHUP ≠ 0 then revents &&& ~~~POLLWRNORM else revents

def settleRevents (pollfd : PollFd) : PollFd := { pollfd with revents := settle pollfd.revents }

/-- `poll`: the return value, or an errno, and the array afterwards. -/
def poll (pollOneoff : List Subscription → Except Errno (List Event)) (fds : List PollFd)
    (timeout : BitVec 32) : Except Errno Nat × List PollFd :=
  match subscriptions fds timeout with
  | none => (.error ENOSYS, fds)
  | some subscriptions =>
      match pollOneoff subscriptions with
      | .error error => (.error (if subscriptions.length = 0 then ENOTSUP else error), fds)
      | .ok events =>
          let fds := (events.foldl setRevents (fds.map clearRevents)).map settleRevents
          (.ok (fds.countP (·.revents ≠ 0)), fds)

/-! What the host gives -/

def Subscription.userdata : Subscription → Userdata
  | .fdRead userdata _ | .fdWrite userdata _ | .clock userdata _ _ => userdata

def Subscription.type : Subscription → EventType
  | .fdRead .. => .fdRead
  | .fdWrite .. => .fdWrite
  | .clock .. => .clock

/-- The event is one of a subscription. -/
def Event.DrawnFrom (event : Event) (subscriptions : List Subscription) : Prop :=
  ∃ subscription ∈ subscriptions, event.userdata = subscription.userdata ∧
    event.type = subscription.type

/-- The host returns events of the subscriptions it is given. -/
def Answers (pollOneoff : List Subscription → Except Errno (List Event)) (fds : List PollFd)
    (timeout : BitVec 32) : Prop :=
  ∀ given events, subscriptions fds timeout = some given → pollOneoff given = .ok events →
    ∀ event ∈ events, event.DrawnFrom given

/-- Two answers differ in the order of the events at most. -/
inductive SameEvents : Except Errno (List Event) → Except Errno (List Event) → Prop where
  | error (error : Errno) : SameEvents (.error error) (.error error)
  | ok {events events' : List Event} (hperm : events.Perm events') :
      SameEvents (.ok events) (.ok events')

/-! What the caller gets -/

/-- The flags that an entry need not ask for. -/
def UNREQUESTED : BitVec 16 := POLLERR ||| POLLHUP ||| POLLNVAL

/-- The flags of the first argument are flags of the second one. -/
def Within (flags allowed : BitVec 16) : Prop :=
  ∀ i, flags.getLsbD i = true → allowed.getLsbD i = true

/-- The union of the translations of the events of an entry. -/
def unionOf (events : List Event) (i : Nat) : BitVec 16 :=
  events.foldl (fun flags event =>
    if decide (target event = some i) then flags ||| translate event else flags) 0

/-- What is reported in the array about the events. -/
structure Reported (events : List Event) (fds fds' : List PollFd) : Prop where
  length : fds'.length = fds.length
  entry : ∀ (i : Nat) (pollfd : PollFd), fds[i]? = some pollfd →
    fds'[i]? = some { pollfd with revents := settle (unionOf events i) }
  requested : ∀ (i : Nat) (pollfd : PollFd), fds[i]? = some pollfd →
    Within (settle (unionOf events i)) (pollfd.events ||| UNREQUESTED)
  negative : ∀ (i : Nat) (pollfd : PollFd), fds[i]? = some pollfd → BitVec.slt pollfd.fd 0 →
    settle (unionOf events i) = 0

/-! The subscriptions -/

theorem mem_subscribe {i : Nat} {pollfd : PollFd} {subscription : Subscription}
    (h : subscription ∈ subscribe i pollfd) :
    subscription = .fdRead (some i) pollfd.fd ∧ pollfd.events &&& POLLRDNORM ≠ 0 ∨
      subscription = .fdWrite (some i) pollfd.fd ∧ pollfd.events &&& POLLWRNORM ≠ 0 := by
  unfold subscribe at h
  obtain h | h := List.mem_append.mp h
  · split at h
    · rename_i hread
      exact .inl ⟨List.mem_singleton.mp h, hread⟩
    · cases h
  · split at h
    · rename_i hwrite
      exact .inr ⟨List.mem_singleton.mp h, hwrite⟩
    · cases h

/-- Every subscription to a descriptor is one of an entry. -/
theorem mem_subscribeAll {fds : List PollFd} {k : Nat} {given : List Subscription}
    (hgiven : subscribeAll k fds = some given) {subscription : Subscription}
    (h : subscription ∈ given) :
    ∃ i pollfd, fds[i]? = some pollfd ∧ BitVec.slt pollfd.fd 0 = false ∧
      subscription ∈ subscribe (k + i) pollfd := by
  have hindex : ∀ {k i : Nat}, k + 1 + i = k + (i + 1) := by omega
  induction fds generalizing k given with
  | nil =>
      cases hgiven
      cases h
  | cons pollfd fds ih =>
      unfold subscribeAll at hgiven
      split at hgiven
      · obtain ⟨i, found, hfound, hfd, hmem⟩ := ih hgiven h
        exact ⟨i + 1, found, hfound, hfd, hindex ▸ hmem⟩
      · rename_i hfd
        split at hgiven
        · cases hgiven
        · obtain ⟨others, hothers, rfl⟩ := Option.map_eq_some_iff.mp hgiven
          obtain h | h := List.mem_append.mp h
          · exact ⟨0, pollfd, rfl, Bool.eq_false_iff.mpr hfd, h⟩
          · obtain ⟨i, found, hfound, hfd, hmem⟩ := ih hothers h
            exact ⟨i + 1, found, hfound, hfd, hindex ▸ hmem⟩

/-- An event of an entry is one that the entry asks for. -/
theorem target_drawn {fds : List PollFd} {timeout : BitVec 32} {given : List Subscription}
    (hgiven : subscriptions fds timeout = some given) {event : Event} (h : event.DrawnFrom given)
    {i : Nat} (htarget : target event = some i) :
    ∃ pollfd, fds[i]? = some pollfd ∧ BitVec.slt pollfd.fd 0 = false ∧
      (event.type = .fdRead ∧ pollfd.events &&& POLLRDNORM ≠ 0 ∨
        event.type = .fdWrite ∧ pollfd.events &&& POLLWRNORM ≠ 0) := by
  unfold target at htarget
  split at htarget
  · rename_i htype
    obtain ⟨subscription, hmem, huserdata, htype'⟩ := h
    obtain ⟨entries, hentries, rfl⟩ := Option.map_eq_some_iff.mp hgiven
    obtain hmem | hmem := List.mem_append.mp hmem
    · obtain ⟨j, pollfd, hfound, hfd, hsubscribe⟩ := mem_subscribeAll hentries hmem
      rw [Nat.zero_add] at hsubscribe
      rw [huserdata] at htarget
      obtain ⟨rfl, hread⟩ | ⟨rfl, hwrite⟩ := mem_subscribe hsubscribe
      · obtain rfl : j = i := Option.some.inj htarget
        exact ⟨pollfd, hfound, hfd, .inl ⟨htype', hread⟩⟩
      · obtain rfl : j = i := Option.some.inj htarget
        exact ⟨pollfd, hfound, hfd, .inr ⟨htype', hwrite⟩⟩
    · unfold subscribeTimeout at hmem
      split at hmem
      · cases hmem
      · rw [List.mem_singleton.mp hmem] at htype'
        rw [htype'] at htype
        obtain htype | htype := htype
        · cases htype
        · cases htype
  · cases htarget

/-! The flags -/

theorem getLsbD_unionOf (events : List Event) (i b : Nat) :
    (unionOf events i).getLsbD b = true ↔
      ∃ event ∈ events, target event = some i ∧ (translate event).getLsbD b = true := by
  unfold unionOf
  rw [FlagTable.getLsbD_foldl_or]
  simp

/-- The order of the events does not matter. -/
theorem unionOf_perm {events events' : List Event} (hperm : events.Perm events') (i : Nat) :
    unionOf events i = unionOf events' i := by
  apply BitVec.eq_of_getLsbD_eq
  intro b _
  rw [Bool.eq_iff_iff, getLsbD_unionOf, getLsbD_unionOf]
  simp only [hperm.mem_iff]

theorem Within.or {flags flags' allowed : BitVec 16} (h : Within flags allowed)
    (h' : Within flags' allowed) : Within (flags ||| flags') allowed := by
  intro b hb
  rw [BitVec.getLsbD_or, Bool.or_eq_true] at hb
  exact hb.elim (h b) (h' b)

theorem within_or_right {flags allowed more : BitVec 16} (h : Within flags allowed) :
    Within flags (more ||| allowed) := by
  intro b hb
  rw [BitVec.getLsbD_or, h b hb, Bool.or_true]

/-- A flag that an entry asks for. -/
theorem within_of_twoPow {events : BitVec 16} {n : Nat} (hn : events &&& BitVec.twoPow 16 n ≠ 0) :
    Within (BitVec.twoPow 16 n) events := by
  intro b hb
  rw [BitVec.and_twoPow] at hn
  split at hn
  · rename_i hset
    rw [BitVec.getLsbD_twoPow, Bool.and_eq_true, decide_eq_true_eq, decide_eq_true_eq] at hb
    rw [← hb.2]
    exact hset
  · exact absurd rfl hn

theorem within_settle (flags : BitVec 16) : Within (settle flags) flags := by
  intro b hb
  unfold settle at hb
  split at hb
  · rw [BitVec.getLsbD_and, Bool.and_eq_true] at hb
    exact hb.1
  · exact hb

theorem within_of_and {flags allowed : BitVec 16} (h : flags &&& allowed = flags) :
    Within flags allowed := by
  intro b hb
  rw [← h, BitVec.getLsbD_and, Bool.and_eq_true] at hb
  exact hb.2

/-- An event of an entry sets no flag that the entry does not ask for, but
those that say that something is wrong. -/
theorem within_translate {event : Event} {events : BitVec 16}
    (h : event.type = .fdRead ∧ events &&& POLLRDNORM ≠ 0 ∨
      event.type = .fdWrite ∧ events &&& POLLWRNORM ≠ 0) :
    Within (translate event) (events ||| UNREQUESTED) := by
  have hrequested : ∀ {flag : BitVec 16}, Within flag events →
      Within flag (events ||| UNREQUESTED) := by
    intro flag hflag b hb
    rw [BitVec.getLsbD_or, hflag b hb, Bool.true_or]
  have hhangup : Within (if event.flags &&& FD_READWRITE_HANGUP ≠ 0 then POLLHUP else 0)
      (events ||| UNREQUESTED) := by
    split
    · exact within_or_right (within_of_and (by decide))
    · exact within_or_right (within_of_and (by decide))
  unfold translate
  split
  · exact within_or_right (within_of_and (by decide))
  split
  · exact within_or_right (within_of_and (by decide))
  split
  · exact within_or_right (within_of_and (by decide))
  obtain ⟨htype, hread⟩ | ⟨htype, hwrite⟩ := h
  · simp only [htype]
    exact (hrequested (@within_of_twoPow events 0 hread)).or hhangup
  · simp only [htype]
    exact (hrequested (@within_of_twoPow events 1 hwrite)).or hhangup

/-! The array -/

theorem getElem?_setRevents (fds : List PollFd) (event : Event) (i : Nat) :
    (setRevents fds event)[i]? = fds[i]?.map fun pollfd => { pollfd with
      revents :=
        if decide (target event = some i) then pollfd.revents ||| translate event
        else pollfd.revents } := by
  unfold setRevents
  cases htarget : target event with
  | none => simp
  | some j =>
      simp only [List.getElem?_modify, Option.some.injEq, decide_eq_true_eq]
      split
      · rfl
      · simp

theorem getElem?_foldl_setRevents (events : List Event) (fds : List PollFd) (i : Nat) :
    (events.foldl setRevents fds)[i]? = fds[i]?.map fun pollfd => { pollfd with
      revents := events.foldl (fun flags event =>
        if decide (target event = some i) then flags ||| translate event else flags)
        pollfd.revents } := by
  induction events generalizing fds with
  | nil => simp
  | cons event events ih =>
      rw [List.foldl_cons, ih, getElem?_setRevents, Option.map_map]
      rfl

/-- The array after a call that succeeds. -/
theorem getElem?_reported (events : List Event) (fds : List PollFd) (i : Nat) :
    ((events.foldl setRevents (fds.map clearRevents)).map settleRevents)[i]? =
      fds[i]?.map fun pollfd => { pollfd with revents := settle (unionOf events i) } := by
  rw [List.getElem?_map, getElem?_foldl_setRevents, List.getElem?_map, Option.map_map,
    Option.map_map]
  rfl

theorem reported_perm {events events' : List Event} (hperm : events.Perm events')
    (fds : List PollFd) :
    (events.foldl setRevents (fds.map clearRevents)).map settleRevents =
      (events'.foldl setRevents (fds.map clearRevents)).map settleRevents := by
  apply List.ext_getElem?
  intro i
  rw [getElem?_reported, getElem?_reported, unionOf_perm hperm i]

theorem length_reported (events : List Event) (fds : List PollFd) :
    ((events.foldl setRevents (fds.map clearRevents)).map settleRevents).length = fds.length := by
  have hlength : ∀ (fds : List PollFd), (events.foldl setRevents fds).length = fds.length := by
    induction events with
    | nil => exact fun _ => rfl
    | cons event events ih =>
        intro fds
        rw [List.foldl_cons, ih]
        unfold setRevents
        split
        · exact List.length_modify _ _ _
        · rfl
  rw [List.length_map, hlength, List.length_map]

section Contract

variable {pollOneoff : List Subscription → Except Errno (List Event)} {fds : List PollFd}
variable {timeout : BitVec 32} {given : List Subscription} {events : List Event}

theorem reported (hgiven : subscriptions fds timeout = some given)
    (hdrawn : ∀ event ∈ events, event.DrawnFrom given) :
    Reported events fds
      ((events.foldl setRevents (fds.map clearRevents)).map settleRevents) where
  length := length_reported events fds
  entry := by
    intro i pollfd hfound
    rw [getElem?_reported, hfound]
    rfl
  requested := by
    intro i pollfd hfound b hb
    obtain ⟨event, hevent, htarget, hbit⟩ := (getLsbD_unionOf events i b).mp (within_settle _ b hb)
    obtain ⟨found, hfound', -, hasked⟩ := target_drawn hgiven (hdrawn event hevent) htarget
    rw [hfound, Option.some.injEq] at hfound'
    rw [← hfound'] at hasked
    exact within_translate hasked b hbit
  negative := by
    intro i pollfd hfound hnegative
    have hzero : unionOf events i = 0 := by
      apply BitVec.eq_of_getLsbD_eq
      intro b _
      rw [Bool.eq_iff_iff, getLsbD_unionOf, iff_false_right (FlagTable.getLsbD_zero b)]
      rintro ⟨event, hevent, htarget, -⟩
      obtain ⟨found, hfound', hfd, -⟩ := target_drawn hgiven (hdrawn event hevent) htarget
      rw [hfound, Option.some.injEq] at hfound'
      rw [← hfound', hnegative] at hfd
      cases hfd
    rw [hzero]
    rfl

/-- A call that fails leaves the array as it is; one that succeeds reports the
events of each entry, and counts the entries with any; the order in which the
host returns the events is of no account. -/
theorem poll_contract (hanswers : Answers pollOneoff fds timeout) :
    (∀ error, (poll pollOneoff fds timeout).1 = .error error →
      (poll pollOneoff fds timeout).2 = fds) ∧
    (∀ n, (poll pollOneoff fds timeout).1 = .ok n → ∃ given events,
      subscriptions fds timeout = some given ∧ pollOneoff given = .ok events ∧
      Reported events fds (poll pollOneoff fds timeout).2 ∧
      n = (poll pollOneoff fds timeout).2.countP (·.revents ≠ 0)) ∧
    ∀ pollOneoff', (∀ given, SameEvents (pollOneoff given) (pollOneoff' given)) →
      poll pollOneoff' fds timeout = poll pollOneoff fds timeout := by
  unfold poll
  cases hgiven : subscriptions fds timeout with
  | none => exact ⟨fun _ _ => rfl, nofun, fun _ _ => rfl⟩
  | some given =>
      dsimp only
      cases hevents : pollOneoff given with
      | error error =>
          refine ⟨fun _ _ => rfl, nofun, fun pollOneoff' hsame => ?_⟩
          have hboth := hsame given
          rw [hevents] at hboth
          generalize pollOneoff' given = answer at hboth
          cases hboth
          rfl
      | ok events =>
          refine ⟨nofun, fun n hn => ?_, fun pollOneoff' hsame => ?_⟩
          · have hdrawn := hanswers given events hgiven hevents
            exact ⟨given, events, rfl, hevents, reported hgiven hdrawn, (Except.ok.inj hn).symm⟩
          · have hboth := hsame given
            rw [hevents] at hboth
            generalize pollOneoff' given = answer at hboth
            cases hboth with
            | ok hperm =>
                dsimp only
                rw [reported_perm hperm fds]

end Contract

namespace ContractWitness

/-- A descriptor to read, none at all, and the first one again, to write. -/
def fds : List PollFd := [⟨4, 1, 0⟩, ⟨-1, 0, 7⟩, ⟨4, 3, 0⟩]

/-- The last entry can be read and has hung up, and the time is over. -/
def pollOneoff (_ : List Subscription) : Except Errno (List Event) :=
  .ok [⟨none, 0, .clock, 0⟩, ⟨some 2, 0, .fdWrite, 1⟩, ⟨some 2, 0, .fdRead, 0⟩]

theorem answers : Answers pollOneoff fds 5 := by
  intro given events hgiven hevents
  cases hgiven
  cases hevents
  unfold Event.DrawnFrom
  decide

theorem hung_up : poll pollOneoff fds 5 = (.ok 1, [⟨4, 1, 0⟩, ⟨-1, 0, 0⟩, ⟨4, 3, 0x2001⟩]) ∧
    ∀ pollOneoff', (∀ given, SameEvents (pollOneoff given) (pollOneoff' given)) →
      poll pollOneoff' fds 5 = poll pollOneoff fds 5 :=
  ⟨rfl, (poll_contract answers).2.2⟩

end ContractWitness

end Poll

end WasixLibc
