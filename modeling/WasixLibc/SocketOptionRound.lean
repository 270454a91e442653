/-
Time-valued socket options, set and read back.
-/
import WasixLibc.SocketOption

namespace WasixLibc

namespace SocketOption

open Select.Timeval (nanoseconds nanoseconds_eq nanoseconds_even toNat_ts ValidTime)

/-- The host keeps the last time of each option.  Nothing is known of the number
beside the tag of none. -/
structure SockHost.Stores {σ : Type} (host : SockHost σ) : Prop where
  accepts : ∀ s socket option tm, (host.sockSetOptTime s socket option tm).1 = 0
  answers : ∀ s socket option tm,
    (host.sockGetOptTime (host.sockSetOptTime s socket option tm).2 socket option).1 = 0
  keepsTag : ∀ s socket option tm,
    (host.sockGetOptTime (host.sockSetOptTime s socket option tm).2 socket option).2.tag = tm.tag
  keepsSome : ∀ s socket option tm, tm.tag = OPTION_SOME →
    (host.sockGetOptTime (host.sockSetOptTime s socket option tm).2 socket option).2.some = tm.some

/-- A socket at a host that stores times, and the memory and the lengths of the
two calls, with room for `size` bytes. -/
structure Site (size : Nat) where
  State : Type
  host : SockHost State
  stores : host.Stores
  state : State
  socket : BitVec 32
  valueIn : ByteMemory
  valueOut : ByteMemory
  lenIn : BitVec 32
  lenOut : BitVec 32
  fitsIn : size ≤ lenIn.toNat
  fitsOut : size ≤ lenOut.toNat

namespace Site

variable {size : Nat}

/-- `setsockopt` of the value that `store` puts into memory. -/
def set (site : Site size) (option : BitVec 32) (store : ByteMemory → ByteMemory) :
    Set site.State :=
  setsockopt site.host site.state site.socket SOL_SOCKET option (store site.valueIn) site.lenIn

/-- `getsockopt` of the same option, afterwards. -/
def get (site : Site size) (option : BitVec 32) (store : ByteMemory → ByteMemory) : Got :=
  getsockopt site.host (site.set option store).state site.socket SOL_SOCKET option site.valueOut
    site.lenOut

/-- The timestamp that the host has afterwards. -/
def stored (site : Site size) (option : BitVec 32) (store : ByteMemory → ByteMemory) :
    OptionTimestamp :=
  (site.host.sockGetOptTime (site.set option store).state site.socket (option.setWidth 8)).2

/-- Both calls succeed, and the second gives a value that satisfies `P`. -/
def Gives (site : Site size) (option : BitVec 32) (store : ByteMemory → ByteMemory)
    (P : ByteMemory → Prop) : Prop :=
  (site.set option store).ret = 0 ∧ (site.get option store).ret = 0 ∧
    P (site.get option store).value

/-- The value is refused, or the host has the nearest timestamp. -/
def Limits (site : Site size) (option : BitVec 32) (store : ByteMemory → ByteMemory)
    (nearest : Nat) : Prop :=
  (site.set option store).ret = -1 ∨ (site.stored option store).some.toNat = nearest

end Site

/-- A linger that is on reads back as it is, and one that is off as off with a
time that does not depend on the host; a negative time is not a timestamp. -/
def LingerKept (l : Linger) : Prop :=
  (l.lOnoff = 0 → ∃ time, ∀ site : Site 8,
    site.Gives SO_LINGER l.store (fun m => Linger.load m = ⟨0, time⟩)) ∧
  (l.lOnoff ≠ 0 → 0 ≤ l.lLinger.toInt → ∀ site : Site 8,
    site.Gives SO_LINGER l.store (fun m => Linger.load m = l)) ∧
  (l.lOnoff ≠ 0 → l.lLinger.toInt < 0 → ∀ site : Site 8,
    site.Limits SO_LINGER l.store 0 ∨ site.Limits SO_LINGER l.store longest)

/-- A timeout that fits reads back as it is. -/
def TimeoutKept (option : BitVec 32) (tv : Timeval) : Prop :=
  (nanoseconds tv ≤ longest → ∀ site : Site 16,
    site.Gives option (storeTimeval tv) (fun m => loadTimeval m = tv)) ∧
  (longest < nanoseconds tv → ∀ site : Site 16, site.Limits option (storeTimeval tv) longest)

/-! The two calls on the options that are times -/

section Calls

variable {σ : Type} {host : SockHost σ} {s : σ} {socket option optionLen : BitVec 32}
  {optionValue : ByteMemory}

theorem renamed_socket (option : BitVec 32) : renamed SOL_SOCKET option = (SOL_SOCKET, option) := by
  unfold renamed
  rw [if_neg (fun h => absurd h.1 (by decide)), if_neg (fun h => absurd h.1 (by decide))]

theorem timeOptions_spec : ∀ option ∈ timeOptions,
    option ∉ flagOptions ∧ option ≠ SO_ERROR ∧ option ≠ SO_LINGER := by
  intro option hoption
  obtain rfl | rfl | rfl | rfl : option = SO_RCVTIMEO ∨ option = SO_SNDTIMEO ∨
      option = SO_CONNTIMEO ∨ option = SO_ACCPTIMEO := by simpa [timeOptions] using hoption
  all_goals decide

theorem setsockopt_linger (hlen : 8 ≤ optionLen.toNat) :
    setsockopt host s socket SOL_SOCKET SO_LINGER optionValue optionLen =
      answered (host.sockSetOptTime s socket (SO_LINGER.setWidth 8)
        (Linger.load optionValue).toTime) := by
  unfold setsockopt
  rw [renamed_socket]
  dsimp only
  rw [if_neg (not_not_intro rfl), if_neg (by decide), if_pos rfl, if_pos hlen]

theorem setsockopt_timeout (hoption : option ∈ timeOptions) (hlen : 16 ≤ optionLen.toNat) :
    setsockopt host s socket SOL_SOCKET option optionValue optionLen =
      answered (host.sockSetOptTime s socket (option.setWidth 8)
        (timevalToTime (loadTimeval optionValue))) := by
  obtain ⟨hflag, _, hlinger⟩ := timeOptions_spec option hoption
  unfold setsockopt
  rw [renamed_socket]
  dsimp only
  rw [if_neg (not_not_intro rfl), if_neg hflag, if_neg hlinger, if_pos hoption, if_pos hlen]

theorem getsockopt_linger :
    getsockopt host s socket SOL_SOCKET SO_LINGER optionValue optionLen =
      replied (host.sockGetOptTime s socket (SO_LINGER.setWidth 8)) optionValue optionLen
        (fun tm => (Linger.ofTime tm).store (fun _ => 0)) 8 := by
  unfold getsockopt
  rw [renamed_socket]
  dsimp only
  rw [if_neg (not_not_intro rfl), if_neg (by decide), if_neg (by decide), if_pos rfl]

theorem getsockopt_timeout (hoption : option ∈ timeOptions) :
    getsockopt host s socket SOL_SOCKET option optionValue optionLen =
      replied (host.sockGetOptTime s socket (option.setWidth 8)) optionValue optionLen
        (fun tm => storeTimeval (timevalOfTime tm) (fun _ => 0)) 16 := by
  obtain ⟨hflag, herror, hlinger⟩ := timeOptions_spec option hoption
  unfold getsockopt
  rw [renamed_socket]
  dsimp only
  rw [if_neg (not_not_intro rfl), if_neg hflag, if_neg herror, if_neg hlinger, if_pos hoption]

theorem answered_of_zero {answer : BitVec 16 × σ} (h : answer.1 = 0) :
    answered answer = ⟨0, none, answer.2⟩ := if_neg (not_not_intro h)

/-- What is copied out whole is what the caller loads. -/
theorem replied_of_zero {α : Type} {reply : BitVec 16 × α} {bytes : α → ByteMemory} {size : Nat}
    (h : reply.1 = 0) (hlen : size ≤ optionLen.toNat) :
    replied reply optionValue optionLen bytes size =
      ⟨0, none, optionValue.copy 0 (bytes reply.2) 0 size, BitVec.ofNat 32 size⟩ := by
  unfold replied copyOut
  rw [if_neg (not_not_intro h), if_neg (by omega)]

theorem load_copy (l : Linger) (m : ByteMemory) :
    Linger.load (m.copy 0 (l.store (fun _ => 0)) 0 8) = l := by
  conv_rhs => rw [← l.load_store (fun _ => 0)]
  unfold Linger.load
  rw [ByteMemory.load32_copy (by omega) (by omega), ByteMemory.load32_copy (by omega) (by omega)]

theorem loadTimeval_copy (tv : Timeval) (m : ByteMemory) :
    loadTimeval (m.copy 0 (storeTimeval tv (fun _ => 0)) 0 16) = tv := by
  conv_rhs => rw [← loadTimeval_storeTimeval tv (fun _ => 0)]
  unfold loadTimeval
  rw [ByteMemory.load64_copy (by omega) (by omega), ByteMemory.load64_copy (by omega) (by omega)]

end Calls

/-! At a site -/

namespace Site

theorem set_linger (site : Site 8) (l : Linger) :
    site.set SO_LINGER l.store = ⟨0, none, (site.host.sockSetOptTime site.state site.socket
      (SO_LINGER.setWidth 8) l.toTime).2⟩ := by
  unfold Site.set
  rw [setsockopt_linger site.fitsIn, l.load_store]
  exact answered_of_zero (site.stores.accepts _ _ _ _)

theorem gives_linger (site : Site 8) (l back : Linger) :
    site.Gives SO_LINGER l.store (fun m => Linger.load m = back) ↔
      Linger.ofTime (site.stored SO_LINGER l.store) = back := by
  have hget : site.get SO_LINGER l.store = ⟨0, none, site.valueOut.copy 0
      ((Linger.ofTime (site.stored SO_LINGER l.store)).store (fun _ => 0)) 0 8, 8⟩ := by
    unfold Site.get Site.stored
    rw [getsockopt_linger, set_linger]
    exact replied_of_zero (site.stores.answers _ _ _ _) site.fitsOut
  unfold Site.Gives
  rw [hget, set_linger]
  simp only [load_copy, true_and]

theorem set_timeout (site : Site 16) {option : BitVec 32} (hoption : option ∈ timeOptions)
    (tv : Timeval) :
    site.set option (storeTimeval tv) = ⟨0, none, (site.host.sockSetOptTime site.state site.socket
      (option.setWidth 8) (timevalToTime tv)).2⟩ := by
  unfold Site.set
  rw [setsockopt_timeout hoption site.fitsIn, loadTimeval_storeTimeval]
  exact answered_of_zero (site.stores.accepts _ _ _ _)

theorem gives_timeout (site : Site 16) {option : BitVec 32} (hoption : option ∈ timeOptions)
    (tv back : Timeval) :
    site.Gives option (storeTimeval tv) (fun m => loadTimeval m = back) ↔
      timevalOfTime (site.stored option (storeTimeval tv)) = back := by
  have hget : site.get option (storeTimeval tv) = ⟨0, none, site.valueOut.copy 0
      (storeTimeval (timevalOfTime (site.stored option (storeTimeval tv))) (fun _ => 0)) 0 16,
      16⟩ := by
    unfold Site.get Site.stored
    rw [getsockopt_timeout hoption, set_timeout site hoption]
    exact replied_of_zero (site.stores.answers _ _ _ _) site.fitsOut
  unfold Site.Gives
  rw [hget, set_timeout site hoption]
  simp only [loadTimeval_copy, true_and]

/-- What a host that stores the time `tm` has of it. -/
def Holds (kept tm : OptionTimestamp) : Prop :=
  kept.tag = tm.tag ∧ (tm.tag = OPTION_SOME → kept.some = tm.some)

theorem holds_linger (site : Site 8) (l : Linger) :
    Holds (site.stored SO_LINGER l.store) l.toTime := by
  unfold Site.stored
  rw [set_linger]
  exact ⟨site.stores.keepsTag _ _ _ _, site.stores.keepsSome _ _ _ _⟩

theorem holds_timeout (site : Site 16) {option : BitVec 32} (hoption : option ∈ timeOptions)
    (tv : Timeval) : Holds (site.stored option (storeTimeval tv)) (timevalToTime tv) := by
  unfold Site.stored
  rw [set_timeout site hoption]
  exact ⟨site.stores.keepsTag _ _ _ _, site.stores.keepsSome _ _ _ _⟩

end Site

/-! A host that gives a number of its own beside none -/

def told (payload : BitVec 64) (tm : OptionTimestamp) : OptionTimestamp :=
  if tm.tag = OPTION_SOME then tm else ⟨tm.tag, payload⟩

/-- `payload` is what comes beside the tag of none. -/
def plainHost (payload : BitVec 64) : SockHost (BitVec 32 → BitVec 8 → OptionTimestamp) where
  sockSetOptFlag s _ _ _ := (0, s)
  sockSetOptTime s socket option tm :=
    (0, fun socket' option' =>
      if socket' = socket ∧ option' = option then tm else s socket' option')
  sockSetOptSize s _ _ _ := (0, s)
  sockGetOptFlag _ _ _ := (0, 0)
  sockGetOptTime s socket option := (0, told payload (s socket option))
  sockGetOptSize _ _ _ := (0, 0)
  fdFdstatGet _ _ := (0, FILETYPE_SOCKET_STREAM)

theorem plainHost_get (payload : BitVec 64) (s : BitVec 32 → BitVec 8 → OptionTimestamp)
    (socket : BitVec 32) (option : BitVec 8) (tm : OptionTimestamp) :
    (plainHost payload).sockGetOptTime ((plainHost payload).sockSetOptTime s socket option tm).2
        socket option = (0, told payload tm) := by
  unfold plainHost
  dsimp only
  rw [if_pos ⟨rfl, rfl⟩]

theorem told_tag (payload : BitVec 64) (tm : OptionTimestamp) : (told payload tm).tag = tm.tag := by
  unfold told
  split <;> rfl

theorem plainHost_stores (payload : BitVec 64) : (plainHost payload).Stores where
  accepts _ _ _ _ := rfl
  answers _ _ _ _ := rfl
  keepsTag s socket option tm := by
    rw [plainHost_get]
    exact told_tag payload tm
  keepsSome s socket option tm htag := by
    rw [plainHost_get, told, if_pos htag]

def plainSite (payload : BitVec 64) {size : Nat} (len : BitVec 32) (h : size ≤ len.toNat) :
    Site size where
  State := BitVec 32 → BitVec 8 → OptionTimestamp
  host := plainHost payload
  stores := plainHost_stores payload
  state _ _ := ⟨OPTION_NONE, 0⟩
  socket := 3
  valueIn _ := 0
  valueOut _ := 0
  lenIn := len
  lenOut := len
  fitsIn := h
  fitsOut := h

theorem plainSite_linger (payload : BitVec 64) (l : Linger) :
    (plainSite payload 8 (Nat.le_refl 8)).stored SO_LINGER l.store = told payload l.toTime := by
  unfold Site.stored
  rw [Site.set_linger]
  exact congrArg Prod.snd (plainHost_get payload _ _ _ _)

/-! When a value is kept -/

theorem signExtend_toNat {x : BitVec 32} (h : 0 ≤ x.toInt) : (x.signExtend 64).toNat = x.toNat := by
  have hlt := x.isLt
  have hmsb : x.msb = false := by
    rw [BitVec.msb_eq_toInt]
    simpa using h
  rw [BitVec.signExtend_eq_setWidth_of_msb_false hmsb, BitVec.toNat_setWidth]
  omega

/-- The seconds come back from the nanoseconds. -/
theorem seconds_back {x : BitVec 32} (h : 0 ≤ x.toInt) :
    (x.signExtend 64 * 1000000000 / 1000000000).setWidth 32 = x := by
  have hgiga : (1000000000 : BitVec 64).toNat = 1000000000 := by decide
  have hlt := x.isLt
  have hfits : x.toNat * 1000000000 % 2 ^ 64 = x.toNat * 1000000000 := Nat.mod_eq_of_lt (by omega)
  apply BitVec.eq_of_toNat_eq
  rw [BitVec.toNat_setWidth, BitVec.toNat_udiv, BitVec.toNat_mul, signExtend_toNat h, hgiga, hfits,
    Nat.mul_div_cancel _ (by decide), Nat.mod_eq_of_lt hlt]

theorem negative_toNat {x : BitVec 32} (h : x.toInt < 0) :
    (x.signExtend 64).toNat = 18446744069414584320 + x.toNat ∧ 2147483648 ≤ x.toNat := by
  have hlt := x.isLt
  have hint : (x.signExtend 64).toInt = x.toInt := BitVec.toInt_signExtend_of_le (by decide)
  have hlong := (x.signExtend 64).isLt
  rw [BitVec.toInt_eq_toNat_cond, BitVec.toInt_eq_toNat_cond] at hint
  rw [BitVec.toInt_eq_toNat_cond] at h
  split at h <;> split at hint <;> omega

/-- A negative number of seconds makes a number that is neither limit. -/
theorem seconds_wrap {x : BitVec 32} (h : x.toInt < 0) :
    (x.signExtend 64 * 1000000000).toNat ≠ 0 ∧ (x.signExtend 64 * 1000000000).toNat ≠ longest := by
  have hgiga : (1000000000 : BitVec 64).toNat = 1000000000 := by decide
  have hlt := x.isLt
  obtain ⟨htoNat, hle⟩ := negative_toNat h
  have hwrap : (x.signExtend 64 * 1000000000).toNat =
      18446744073709551616 - (4294967296 - x.toNat) * 1000000000 := by
    rw [BitVec.toNat_mul, htoNat, hgiga]
    omega
  rw [hwrap]
  unfold longest
  omega

section Linger

variable {l : Linger}

theorem toTime_tag_of_pos (h : 0 < l.lOnoff.toInt) : l.toTime.tag = OPTION_SOME := if_pos h

theorem toTime_tag_of_not_pos (h : ¬ 0 < l.lOnoff.toInt) : l.toTime.tag = OPTION_NONE := if_neg h

theorem ofTime_of_some {tm : OptionTimestamp} (htag : tm.tag = OPTION_SOME) :
    Linger.ofTime tm = ⟨1, (tm.some / 1000000000).setWidth 32⟩ := by
  unfold Linger.ofTime
  rw [if_pos htag]

theorem ofTime_of_none {tm : OptionTimestamp} (htag : tm.tag = OPTION_NONE) :
    Linger.ofTime tm = ⟨0, (tm.some / 1000000000).setWidth 32⟩ := by
  unfold Linger.ofTime
  rw [if_neg (by rw [htag]; decide)]

/-- A linger that is on comes back as on, for as long. -/
theorem linger_back (hon : 0 < l.lOnoff.toInt) (htime : 0 ≤ l.lLinger.toInt) (site : Site 8) :
    Linger.ofTime (site.stored SO_LINGER l.store) = ⟨1, l.lLinger⟩ := by
  obtain ⟨htag, hsome⟩ := site.holds_linger l
  have hone := toTime_tag_of_pos hon
  rw [ofTime_of_some (htag.trans hone), hsome hone]
  unfold Linger.toTime
  dsimp only
  rw [seconds_back htime]

/-- One that is off comes back with whatever time the host has beside none. -/
theorem linger_payload (hoff : ¬ 0 < l.lOnoff.toInt) (payload : BitVec 64) :
    Linger.ofTime ((plainSite payload 8 (Nat.le_refl 8)).stored SO_LINGER l.store) =
      ⟨0, (payload / 1000000000).setWidth 32⟩ := by
  have hnone := toTime_tag_of_not_pos hoff
  have htold : told payload l.toTime = ⟨OPTION_NONE, payload⟩ := by
    unfold told
    rw [if_neg (by rw [hnone]; decide), hnone]
  rw [plainSite_linger, htold, ofTime_of_none rfl]

theorem linger_payload_differs (time : BitVec 32) :
    ∃ payload : BitVec 64, (payload / 1000000000).setWidth 32 ≠ time := by
  by_cases hzero : time = 0
  · subst hzero
    exact ⟨1000000000, by decide⟩
  · exact ⟨0, fun h => hzero (h.symm.trans (by decide))⟩

theorem lingerKept_of_on (hone : l.lOnoff = 1) (htime : 0 ≤ l.lLinger.toInt) : LingerKept l := by
  have hpos : 0 < l.lOnoff.toInt := by
    rw [hone]
    decide
  refine ⟨fun hoff => ?_, fun _ _ site => ?_, fun _ hneg => absurd htime (by omega)⟩
  · rw [hone] at hoff
    exact absurd hoff (by decide)
  · apply (site.gives_linger l l).mpr
    rw [linger_back hpos htime, ← hone]

theorem not_lingerKept_of_off (hoff : l.lOnoff = 0) : ¬ LingerKept l := by
  rintro ⟨hkept, _, _⟩
  obtain ⟨time, hgives⟩ := hkept hoff
  obtain ⟨payload, hne⟩ := linger_payload_differs time
  have hread := (Site.gives_linger _ l _).mp (hgives (plainSite payload 8 (Nat.le_refl 8)))
  have hnot : ¬ 0 < l.lOnoff.toInt := by
    rw [hoff]
    decide
  rw [linger_payload hnot] at hread
  exact hne (congrArg Linger.lLinger hread)

/-- A flag that is neither 0 nor 1 comes back as one of the two. -/
theorem not_lingerKept_of_flag (hoff : l.lOnoff ≠ 0) (hone : l.lOnoff ≠ 1)
    (htime : 0 ≤ l.lLinger.toInt) : ¬ LingerKept l := by
  rintro ⟨_, hkept, _⟩
  have hread := (Site.gives_linger _ l _).mp (hkept hoff htime (plainSite 0 8 (Nat.le_refl 8)))
  by_cases hpos : 0 < l.lOnoff.toInt
  · rw [linger_back hpos htime] at hread
    exact hone (congrArg Linger.lOnoff hread).symm
  · rw [linger_payload hpos] at hread
    exact hoff (congrArg Linger.lOnoff hread).symm

theorem not_lingerKept_of_negative (hoff : l.lOnoff ≠ 0) (htime : l.lLinger.toInt < 0) :
    ¬ LingerKept l := by
  rintro ⟨_, _, hkept⟩
  have hlimits := hkept hoff htime (plainSite 5 8 (Nat.le_refl 8))
  have hret : ((plainSite 5 8 (Nat.le_refl 8)).set SO_LINGER l.store).ret ≠ -1 := by
    rw [Site.set_linger]
    exact (by decide : (0 : BitVec 32) ≠ -1)
  have htime' : (told 5 l.toTime).some.toNat ≠ 0 ∧ (told 5 l.toTime).some.toNat ≠ longest := by
    by_cases hpos : 0 < l.lOnoff.toInt
    · unfold told
      rw [if_pos (toTime_tag_of_pos hpos)]
      exact seconds_wrap htime
    · unfold told
      rw [if_neg (by rw [toTime_tag_of_not_pos hpos]; decide)]
      exact ⟨(by decide : (5 : BitVec 64).toNat ≠ 0), (by decide : (5 : BitVec 64).toNat ≠ longest)⟩
  unfold Site.Limits at hlimits
  rw [plainSite_linger] at hlimits
  obtain (h | h) | (h | h) := hlimits
  · exact hret h
  · exact htime'.1 h
  · exact hret h
  · exact htime'.2 h

theorem lingerKept_iff : LingerKept l ↔ l.lOnoff = 1 ∧ 0 ≤ l.lLinger.toInt := by
  constructor
  · intro hkept
    have hon : l.lOnoff ≠ 0 := fun hoff => not_lingerKept_of_off hoff hkept
    have htime : 0 ≤ l.lLinger.toInt := by
      by_contra hneg
      exact not_lingerKept_of_negative hon (by omega) hkept
    refine ⟨?_, htime⟩
    by_contra hone
    exact not_lingerKept_of_flag hon hone htime hkept
  · exact fun ⟨hone, htime⟩ => lingerKept_of_on hone htime

end Linger

section Timeout

variable {option : BitVec 32} {tv : Timeval}

theorem timevalToTime_tag (hvalid : ValidTime tv) :
    (timevalToTime tv).tag = OPTION_SOME ∨ tv = ⟨0, 0⟩ := by
  by_cases hpos : 0 < tv.tvSec.toInt ∨ 0 < tv.tvUsec.toInt
  · exact Or.inl (if_pos hpos)
  · obtain ⟨hsec, husec, _⟩ := hvalid
    have hsec0 : tv.tvSec = 0 := BitVec.eq_of_toInt_eq (show _ = (0 : Int) by omega)
    have husec0 : tv.tvUsec = 0 := BitVec.eq_of_toInt_eq (show _ = (0 : Int) by omega)
    obtain ⟨sec, usec⟩ := tv
    exact Or.inr (by rw [show sec = 0 from hsec0, show usec = 0 from husec0])

theorem timevalOfTime_of_some {tm : OptionTimestamp} (htag : tm.tag = OPTION_SOME) :
    timevalOfTime tm = ⟨tm.some / 1000000000, tm.some % 1000000000 / 1000⟩ := if_pos htag

/-- Seconds and microseconds come back from a sum that fits. -/
theorem timeval_back (hvalid : ValidTime tv) (hfits : nanoseconds tv ≤ longest) :
    (⟨(tv.tvSec * 1000000000 + tv.tvUsec * 1000) / 1000000000,
      (tv.tvSec * 1000000000 + tv.tvUsec * 1000) % 1000000000 / 1000⟩ : Timeval) = tv := by
  obtain ⟨hsec, husec, hlt⟩ := hvalid
  have hgiga : (1000000000 : BitVec 64).toNat = 1000000000 := by decide
  have hkilo : (1000 : BitVec 64).toNat = 1000 := by decide
  have hts := toNat_ts hsec husec
  have husec' : tv.tvUsec.toNat < 1000000 := by
    rw [Select.Timeval.toInt_eq_toNat husec] at hlt
    omega
  unfold longest at hfits
  rw [Nat.mod_eq_of_lt (by omega), nanoseconds_eq hsec husec] at hts
  have hquot : (tv.tvSec * 1000000000 + tv.tvUsec * 1000) / 1000000000 = tv.tvSec := by
    apply BitVec.eq_of_toNat_eq
    rw [BitVec.toNat_udiv, hts, hgiga]
    omega
  have hrem : (tv.tvSec * 1000000000 + tv.tvUsec * 1000) % 1000000000 / 1000 = tv.tvUsec := by
    apply BitVec.eq_of_toNat_eq
    rw [BitVec.toNat_udiv, BitVec.toNat_umod, hts, hgiga, hkilo]
    omega
  rw [hquot, hrem]

theorem timeoutKept_of_fits (hoption : option ∈ timeOptions) (hvalid : ValidTime tv)
    (hfits : nanoseconds tv ≤ longest) : TimeoutKept option tv := by
  refine ⟨fun _ site => ?_, fun hlong => absurd hfits (by omega)⟩
  apply (site.gives_timeout hoption tv tv).mpr
  obtain ⟨htag, hsome⟩ := site.holds_timeout hoption tv
  rcases timevalToTime_tag hvalid with hon | hzero
  · rw [timevalOfTime_of_some (htag.trans hon), hsome hon]
    exact timeval_back hvalid hfits
  · have hnone : (timevalToTime tv).tag = OPTION_NONE := by
      rw [hzero]
      decide
    unfold timevalOfTime
    rw [if_neg (by rw [htag, hnone]; decide), hzero]

/-- A sum that does not fit is reduced, to an even number. -/
theorem not_timeoutKept_of_long (hoption : option ∈ timeOptions) (hvalid : ValidTime tv)
    (hlong : longest < nanoseconds tv) : ¬ TimeoutKept option tv := by
  rintro ⟨_, hkept⟩
  have hsite := (plainSite 0 16 (Nat.le_refl 16)).holds_timeout hoption tv
  have hlimits := hkept hlong (plainSite 0 16 (Nat.le_refl 16))
  have heven := nanoseconds_even hvalid.1 hvalid.2.1
  rcases hlimits with hret | hstored
  · rw [Site.set_timeout _ hoption] at hret
    exact absurd hret (by decide : (0 : BitVec 32) ≠ -1)
  · rcases timevalToTime_tag hvalid with hon | hzero
    · rw [hsite.2 hon] at hstored
      have hts := toNat_ts hvalid.1 hvalid.2.1
      rw [show (timevalToTime tv).some = tv.tvSec * 1000000000 + tv.tvUsec * 1000 from rfl,
        hts] at hstored
      unfold longest at hstored
      omega
    · rw [hzero] at hlong
      exact absurd hlong (by decide)

theorem timeoutKept_iff (hoption : option ∈ timeOptions) (hvalid : ValidTime tv) :
    TimeoutKept option tv ↔ nanoseconds tv ≤ longest := by
  constructor
  · intro hkept
    by_contra hlong
    exact not_timeoutKept_of_long hoption hvalid (by omega) hkept
  · exact timeoutKept_of_fits hoption hvalid

end Timeout

/-- A linger is kept when it is on, with the flag 1, and not negative; a timeout
when it fits. -/
theorem time_options_kept_iff (l : Linger) {option : BitVec 32} (hoption : option ∈ timeOptions)
    {tv : Timeval} (hvalid : ValidTime tv) :
    (LingerKept l ↔ l.lOnoff = 1 ∧ 0 ≤ l.lLinger.toInt) ∧
      (TimeoutKept option tv ↔ nanoseconds tv ≤ longest) :=
  ⟨lingerKept_iff, timeoutKept_iff hoption hvalid⟩

namespace OptionWitness

/-- A linger of ten seconds and a timeout of one and a half. -/
theorem ten_seconds_kept :
    LingerKept ⟨1, 10⟩ ∧ TimeoutKept SO_RCVTIMEO ⟨1, 500000⟩ := by
  obtain ⟨hlinger, htimeout⟩ :=
    @time_options_kept_iff ⟨1, 10⟩ SO_RCVTIMEO (List.mem_cons_self) ⟨1, 500000⟩ (by decide)
  exact ⟨hlinger.mpr (by decide), htimeout.mpr (by decide)⟩

/-- A linger that was set off comes back with the 7 seconds of a number that the
host left beside none, and a timeout of 584 years as 0.29 seconds. -/
theorem off_linger_not_kept :
    (plainSite 7000000000 8 (Nat.le_refl 8)).Gives SO_LINGER (Linger.store ⟨0, 0⟩)
        (fun m => Linger.load m = ⟨0, 7⟩) ∧ ¬ LingerKept ⟨0, 0⟩ ∧
      (plainSite 0 16 (Nat.le_refl 16)).Gives SO_RCVTIMEO (storeTimeval ⟨18446744074, 0⟩)
        (fun m => loadTimeval m = ⟨0, 290448⟩) ∧ ¬ TimeoutKept SO_RCVTIMEO ⟨18446744074, 0⟩ := by
  have hrcvtimeo : SO_RCVTIMEO ∈ timeOptions := List.mem_cons_self
  have hlong : longest < nanoseconds ⟨18446744074, 0⟩ := by decide
  refine ⟨?_, not_lingerKept_of_off rfl, ?_, not_timeoutKept_of_long hrcvtimeo (by decide) hlong⟩
  · apply (Site.gives_linger _ _ _).mpr
    rw [linger_payload (by decide)]
    decide
  · apply (Site.gives_timeout _ hrcvtimeo _ _).mpr
    obtain ⟨htag, hsome⟩ :=
      (plainSite 0 16 (Nat.le_refl 16)).holds_timeout hrcvtimeo ⟨18446744074, 0⟩
    have hon : (timevalToTime ⟨18446744074, 0⟩).tag = OPTION_SOME := by decide
    rw [timevalOfTime_of_some (htag.trans hon), hsome hon]
    decide

end OptionWitness

end SocketOption

end WasixLibc
