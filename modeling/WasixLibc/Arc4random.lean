/-
Random bytes from a generator that hands out parts of its blocks.

Short requests are served from a reserve, whole blocks go straight to the
caller.  Either way the bytes are those of one stream.
-/
import WasixLibc.BlockReserve
import WasixLibc.LabelledRun

namespace WasixLibc

namespace Arc4random

abbrev Byte := BitVec 8

abbrev Word := BitVec 32

abbrev Key := Vector Byte 32

/-- The state of the cipher. -/
abbrev St := Vector Word 16

def rotl32 (x : Word) (b : Nat) : Word := (x <<< b) ||| (x >>> (32 - b))

/-- `CHACHA20_QUARTERROUND` -/
def quarterround (st : St) (a b c d : Fin 16) : St :=
  let st := st.set a (st[a] + st[b])
  let st := st.set d (rotl32 (st[d] ^^^ st[a]) 16)
  let st := st.set c (st[c] + st[d])
  let st := st.set b (rotl32 (st[b] ^^^ st[c]) 12)
  let st := st.set a (st[a] + st[b])
  let st := st.set d (rotl32 (st[d] ^^^ st[a]) 8)
  let st := st.set c (st[c] + st[d])
  st.set b (rotl32 (st[b] ^^^ st[c]) 7)

def doubleround (st : St) : St :=
  let st := quarterround st 0 4 8 12
  let st := quarterround st 1 5 9 13
  let st := quarterround st 2 6 10 14
  let st := quarterround st 3 7 11 15
  let st := quarterround st 0 5 10 15
  let st := quarterround st 1 6 11 12
  let st := quarterround st 2 7 8 13
  quarterround st 3 4 9 14

/-- `CHACHA20_ROUNDS` -/
def rounds (st : St) : St := Nat.repeat doubleround 10 st

/-- The bytes of the words, the lowest of each first. -/
def bytes (ks : St) : Vector Byte 64 :=
  Vector.ofFn (fun i => (ks[i.val / 4] >>> (8 * (i.val % 4))).setWidth 8)

/-- The word of four bytes. -/
def word (b0 b1 b2 b3 : Byte) : Word := b3 ++ b2 ++ b1 ++ b0

/-- `chacha20_update`: the rounds change the state itself. -/
def chacha20Update (st : St) : Vector Byte 64 × St :=
  let after := rounds st
  let ks := Vector.ofFn (fun i : Fin 16 => st[i] + after[i])
  (bytes ks, after.set 12 (after[12] + 1))

def constants : Vector Word 4 := #v[0x61707865, 0x3320646e, 0x79622d32, 0x6b206574]

/-- `chacha20_init` -/
def chacha20Init (key : Key) : St :=
  constants ++
    Vector.ofFn (fun i : Fin 8 =>
      word key[4 * i.val] key[4 * i.val + 1] key[4 * i.val + 2] key[4 * i.val + 3]) ++
    Vector.replicate 4 (0 : Word)

/-- The loop of `chacha20_rng` and what follows it. -/
def chacha20Blocks (len : Nat) (st : St) : List Byte :=
  if 64 ≤ len then
    (chacha20Update st).1.toList ++ chacha20Blocks (len - 64) (chacha20Update st).2
  else if 0 < len then (chacha20Update st).1.toList.take len
  else []
termination_by len

/-- `chacha20_rng`: the first block is the next key, and is then overwritten. -/
def chacha20Rng (len : Nat) (key : Key) : List Byte × Key :=
  let (out, st) := chacha20Update (chacha20Init key)
  (chacha20Blocks len st ++ out.toList.drop len, Vector.ofFn (fun i : Fin 32 => out[i.val]))

theorem length_chacha20Blocks (len : Nat) (st : St) : (chacha20Blocks len st).length = len := by
  induction len using Nat.strongRecOn generalizing st with
  | _ len ih =>
      rw [chacha20Blocks]
      split
      · rw [List.length_append, Vector.length_toList, ih (len - 64) (by omega)]
        omega
      · split
        · rw [List.length_take, Vector.length_toList]
          omega
        · rw [List.length_nil]
          omega

/-- A block of the reserve and the key after it. -/
def nextBlock (key : Key) : Vector Byte 512 × Key :=
  (⟨(chacha20Rng 512 key).1.toArray, by
    unfold chacha20Rng
    simp [length_chacha20Blocks]⟩, (chacha20Rng 512 key).2)

section Buffer

/-! `arc4random_buf` for any block size, of which `RNG_RESERVE_LEN` is one. -/

variable {size : Nat} [Fact (0 < size)] (next : Key → Vector Byte size × Key)

/-- The inner loop: blocks for the caller, what remains to be made, and the
key. -/
def wholeBlocks (remaining : Nat) (key : Key) : List Byte × Nat × Key :=
  if size ≤ remaining then
    have : 0 < size := Fact.out
    let block := next key
    let rest := wholeBlocks (remaining - size) block.2
    (block.1.toList ++ rest.1, rest.2)
  else ([], remaining, key)
termination_by remaining
decreasing_by omega

/-- What is done where the reserve is used up. -/
def renew (remaining : Nat) (s : Reserve Key Byte size) : List Byte × Nat × Reserve Key Byte size :=
  if s.off = size then
    let whole := wholeBlocks next remaining s.key
    let s := { s with key := whole.2.2 }
    if whole.2.1 = 0 then (whole.1, 0, s) else (whole.1, whole.2.1, s.refill next)
  else ([], remaining, s)

theorem wholeBlocks_remaining_lt (remaining : Nat) (key : Key) :
    (wholeBlocks next remaining key).2.1 < size ∧
      (wholeBlocks next remaining key).2.1 ≤ remaining := by
  have hsize : 0 < size := Fact.out
  induction remaining using Nat.strongRecOn generalizing key with
  | _ remaining ih =>
      rw [wholeBlocks]
      split
      · obtain ⟨hlt, hle⟩ := ih (remaining - size) (by omega) (next key).2
        exact ⟨hlt, Nat.le_trans hle (Nat.sub_le _ _)⟩
      · rename_i hlt
        exact ⟨Nat.not_le.mp hlt, Nat.le_refl _⟩

theorem renew_remaining (remaining : Nat) (s : Reserve Key Byte size) :
    (renew next remaining s).2.1 ≤ remaining ∧
      ((renew next remaining s).2.1 ≠ 0 →
        (renew next remaining s).2.2.off < size) := by
  obtain ⟨-, hle⟩ := wholeBlocks_remaining_lt next remaining s.key
  unfold renew
  split
  · dsimp only
    split
    · exact ⟨Nat.zero_le _, fun hne => absurd rfl hne⟩
    · exact ⟨hle, fun _ => (Fact.out : 0 < size)⟩
  · rename_i hoff
    exact ⟨Nat.le_refl _, fun _ => Nat.lt_of_le_of_ne s.offLe hoff⟩

/-- The outer loop. -/
def fillBuffer (remaining : Nat) (s : Reserve Key Byte size) :
    List Byte × Reserve Key Byte size :=
  if hzero : remaining = 0 then ([], s)
  else
    let renewed := renew next remaining s
    if hrest : renewed.2.1 = 0 then (renewed.1, renewed.2.2)
    else
      let partialLen := min renewed.2.1 (size - renewed.2.2.off)
      let part := renewed.2.2.take 0 partialLen (by have := renewed.2.2.offLe; omega)
      let rest := fillBuffer (renewed.2.1 - partialLen) part.2
      (renewed.1 ++ part.1 ++ rest.1, rest.2)
termination_by remaining
decreasing_by
  obtain ⟨hle, hoff⟩ := renew_remaining next remaining s
  have hlt := hoff hrest
  omega

variable {s : Reserve Key Byte size}

/-- Blocks for the caller are what the empty reserve would have been filled
with. -/
theorem wholeBlocks_eq_draws (remaining : Nat) (hempty : s.off = size) (herased : s.Erased 0) :
    s.draws next 0 (remaining - (wholeBlocks next remaining s.key).2.1) =
      ((wholeBlocks next remaining s.key).1,
        { s with key := (wholeBlocks next remaining s.key).2.2 }) := by
  have hsize : 0 < size := Fact.out
  induction remaining using Nat.strongRecOn generalizing s with
  | _ remaining ih =>
      rw [wholeBlocks]
      split
      · rename_i hlarge
        obtain ⟨hlt, hle⟩ :=
          wholeBlocks_remaining_lt next (remaining - size) (next s.key).2
        have hrest := ih (remaining - size) (by omega)
          (s := { s with key := (next s.key).2 }) hempty herased
        have hsplit : remaining - (wholeBlocks next (remaining - size) (next s.key).2).2.1 =
            size + (remaining - size -
              (wholeBlocks next (remaining - size) (next s.key).2).2.1) := by
          omega
        dsimp only at hrest ⊢
        rw [hsplit, Reserve.draws_add, Reserve.draws_block hempty herased, hrest]
      · dsimp only
        rw [Nat.sub_self]
        rfl

/-- What is drawn so far and what is still to be drawn make up the whole. -/
theorem renew_eq_draws (remaining : Nat) (herased : s.Erased 0) :
    s.draws next 0 remaining =
      ((renew next remaining s).1 ++
          ((renew next remaining s).2.2.draws next 0
            (renew next remaining s).2.1).1,
        ((renew next remaining s).2.2.draws next 0
          (renew next remaining s).2.1).2) := by
  unfold renew
  split
  · rename_i hempty
    obtain ⟨hlt, hle⟩ := wholeBlocks_remaining_lt next remaining s.key
    have hwhole := wholeBlocks_eq_draws next remaining hempty herased
    generalize wholeBlocks next remaining s.key = whole at *
    have hsplit : remaining = remaining - whole.2.1 + whole.2.1 := by omega
    rw [hsplit, Reserve.draws_add, hwhole]
    dsimp only
    split
    · rename_i hdone
      rw [hdone]
    · rename_i hmore
      let drained : Reserve Key Byte size := { s with key := whole.2.2 }
      have hfill : drained.draws next 0 whole.2.1 = (drained.refill next).draws next 0 whole.2.1 :=
        Reserve.draws_of_empty hempty (Nat.pos_of_ne_zero hmore)
      rw [hfill]
  · rfl

theorem renew_erased (remaining : Nat) (herased : s.Erased 0) :
    (renew next remaining s).2.2.Erased 0 := by
  unfold renew
  split
  · dsimp only
    split
    · exact herased
    · exact fun i _ hlt => absurd hlt (Nat.not_lt_zero i)
  · exact herased

/-- A request is the next bytes of the stream. -/
theorem fillBuffer_eq_draws (remaining : Nat) (herased : s.Erased 0) :
    fillBuffer next remaining s = s.draws next 0 remaining := by
  induction remaining using Nat.strongRecOn generalizing s with
  | _ remaining ih =>
      rw [fillBuffer]
      split
      · rename_i hzero
        rw [hzero]
        rfl
      · obtain ⟨hle, hoff⟩ := renew_remaining next remaining s
        have herased' := renew_erased next remaining herased
        rw [renew_eq_draws next remaining herased]
        dsimp only
        split
        · rename_i hrest
          simp only [hrest, Reserve.draws, List.append_nil]
        · rename_i hrest
          have hlt := hoff hrest
          have hpart := Nat.min_le_left (renew next remaining s).2.1
            (size - (renew next remaining s).2.2.off)
          rw [ih _ (by omega) (Reserve.take_erased herased' _),
            Reserve.draws_of_left hlt (by omega) hpart, List.append_assoc]

end Buffer

instance fact_reserveLen_pos : Fact (0 < 512) := ⟨by decide⟩

/-- `struct rng_state`; the reserve is `RNG_RESERVE_LEN` bytes long. -/
structure RngState extends Reserve Key Byte 512 where
  initialized : Bool

/-- The answer of the host's `random_get`: an error and what the buffer holds
afterwards. -/
structure RandomGet where
  error : BitVec 16
  buffer : Key

/-- `__getentropy`: whether it returns 0, and the buffer afterwards. -/
def getentropy (answer : RandomGet) (buffer : Key) (len : Nat) : Bool × Key :=
  if 256 < len then (false, buffer) else (answer.error = 0, answer.buffer)

/-- The first part of `arc4random_buf`; without `NDEBUG` the assertion stops
the program. -/
def seed (ndebug : Bool) (answer : RandomGet) (s : RngState) : Option RngState :=
  if s.initialized then some s
  else
    let entropy := getentropy answer s.key 32
    if !entropy.1 && !ndebug then none
    else some { s with key := entropy.2, off := 512, offLe := Nat.le_refl 512, initialized := true }

/-- `arc4random_buf` -/
def arc4randomBuf (ndebug : Bool) (answer : RandomGet) (s : RngState) (len : Nat) :
    Option (List Byte × RngState) :=
  (seed ndebug answer s).map (fun s =>
    let filled := fillBuffer nextBlock len s.toReserve
    (filled.1, { toReserve := filled.2, initialized := s.initialized }))

/-- The number that a buffer of four bytes holds. -/
def ofBuffer : List Byte → Word
  | [b0, b1, b2, b3] => word b0 b1 b2 b3
  | _ => 0

/-- `arc4random` -/
def arc4random (ndebug : Bool) (answer : RandomGet) (s : RngState) : Option (Word × RngState) :=
  (arc4randomBuf ndebug answer s 4).map (fun drawn => (ofBuffer drawn.1, drawn.2))

/-- The loop of `arc4random_uniform`, up to a number of attempts. -/
def uniformLoop (ndebug : Bool) (answer : RandomGet) (min : Word) :
    Nat → RngState → Option (Word × RngState)
  | 0, _ => none
  | attempts + 1, s =>
      match arc4random ndebug answer s with
      | none => none
      | some (r, s) => if r < min then uniformLoop ndebug answer min attempts s else some (r, s)

/-- `arc4random_uniform` -/
def arc4randomUniform (ndebug : Bool) (answer : RandomGet) (attempts : Nat) (s : RngState)
    (upperBound : Word) : Option (Word × RngState) :=
  if upperBound < 2 then some (0, s)
  else
    (uniformLoop ndebug answer ((1 + ~~~upperBound) % upperBound) attempts s).map
      (fun drawn => (drawn.1 % upperBound, drawn.2))

/-! Runs of calls -/

inductive Call where
  | buf (len : Nat)
  | random
  | uniform (upperBound : Word)
deriving DecidableEq

/-- A call that leaves the state `t`. -/
inductive Returns (ndebug : Bool) (answer : RandomGet) (s : RngState) : Call → RngState → Prop
  | buf {len : Nat} {out : List Byte} {t : RngState} :
      arc4randomBuf ndebug answer s len = some (out, t) → Returns ndebug answer s (.buf len) t
  | random {v : Word} {t : RngState} :
      arc4random ndebug answer s = some (v, t) → Returns ndebug answer s .random t
  | uniform {attempts : Nat} {upperBound r : Word} {t : RngState} :
      arc4randomUniform ndebug answer attempts s upperBound = some (r, t) →
      Returns ndebug answer s (.uniform upperBound) t

/-- The static state of a thread. -/
def initial : RngState where
  off := 0
  offLe := Nat.zero_le 512
  key := Vector.replicate 32 0
  reserve := Vector.replicate 512 0
  initialized := false

/-- What every call of `arc4random_buf` keeps is kept by every call. -/
theorem Returns.preserves {ndebug : Bool} {answer : RandomGet} {P : RngState → Prop}
    (hbuf : ∀ {s len out t}, P s → arc4randomBuf ndebug answer s len = some (out, t) → P t)
    {s t : RngState} {call : Call} (h : Returns ndebug answer s call t) (hs : P s) : P t := by
  have hrandom : ∀ {s v t}, P s → arc4random ndebug answer s = some (v, t) → P t := by
    intro s v t hs h
    obtain ⟨drawn, hdrawn, heq⟩ := Option.map_eq_some_iff.mp h
    cases heq
    exact hbuf hs hdrawn
  have hloop : ∀ {min attempts s r t}, P s →
      uniformLoop ndebug answer min attempts s = some (r, t) → P t := by
    intro min attempts
    induction attempts with
    | zero => intro s r t _ h; cases h
    | succ attempts ih =>
        intro s r t hs h
        unfold uniformLoop at h
        split at h
        · cases h
        · rename_i r' s' hcall
          have hs' := hrandom hs hcall
          split at h
          · exact ih hs' h
          · cases h
            exact hs'
  cases h with
  | buf h => exact hbuf hs h
  | random h => exact hrandom hs h
  | uniform h =>
      unfold arc4randomUniform at h
      split at h
      · cases h
        exact hs
      · obtain ⟨drawn, hdrawn, heq⟩ := Option.map_eq_some_iff.mp h
        cases heq
        exact hloop hs hdrawn

/-- A step of a thread's run: a call, with the answer its seeding gets. -/
def CallStep (ndebug : Bool) (s : RngState) (label : Call × RandomGet) (t : RngState) : Prop :=
  Returns ndebug label.2 s label.1 t

/-- What was handed out is cleared, and nothing is there before the seeding. -/
structure RngState.Sound (s : RngState) : Prop where
  erased : s.Erased 0
  blank : s.initialized = false → ∀ i (hi : i < 512), s.reserve[i] = 0

theorem initial_sound : initial.Sound where
  erased := fun i _ hlt => absurd hlt (Nat.not_lt_zero i)
  blank := fun _ _ hi => Vector.getElem_replicate hi

section Chunks

variable {ndebug : Bool} {answer : RandomGet} {s t : RngState} {len : Nat} {out : List Byte}

theorem seed_sound (hs : s.Sound) (h : seed ndebug answer s = some t) :
    t.Sound ∧ t.initialized = true := by
  unfold seed at h
  split at h
  · rename_i hinit
    cases h
    exact ⟨hs, hinit⟩
  · rename_i hinit
    dsimp only at h
    split at h
    · cases h
    · cases h
      refine ⟨⟨?_, fun hnot => Bool.noConfusion hnot⟩, rfl⟩
      exact fun i hi _ => hs.blank (Bool.eq_false_iff.mpr hinit) i hi

variable (len) in
/-- A request is the next bytes of the stream of the seeded state. -/
theorem arc4randomBuf_eq_draws (hs : s.Sound) (hseed : seed ndebug answer s = some t) :
    arc4randomBuf ndebug answer s len =
      some ((t.draws nextBlock 0 len).1,
        { toReserve := (t.draws nextBlock 0 len).2, initialized := true }) := by
  obtain ⟨ht, hinit⟩ := seed_sound hs hseed
  unfold arc4randomBuf
  rw [hseed, Option.map_some]
  dsimp only
  rw [fillBuffer_eq_draws nextBlock len ht.erased, hinit]

theorem arc4randomBuf_sound (hs : s.Sound) (h : arc4randomBuf ndebug answer s len = some (out, t)) :
    t.Sound := by
  cases hseed : seed ndebug answer s with
  | none =>
      unfold arc4randomBuf at h
      rw [hseed] at h
      cases h
  | some seeded =>
      rw [arc4randomBuf_eq_draws len hs hseed] at h
      cases h
      exact ⟨Reserve.draws_erased (seed_sound hs hseed).1.erased,
        fun hnot => Bool.noConfusion hnot⟩

theorem run_sound {labels : List (Call × RandomGet)}
    (hrun : Run (CallStep ndebug) initial labels s) : s.Sound :=
  hrun.preserves (fun hs hstep => hstep.preserves arc4randomBuf_sound hs) initial_sound

/-- Two requests in a row are one, and leave the same state. -/
theorem run_chunks {labels : List (Call × RandomGet)}
    (hrun : Run (CallStep ndebug) initial labels s) (hinit : s.initialized = true)
    (answers : Fin 3 → RandomGet) (a b : Nat) :
    s.Erased 0 ∧ ∃ first mid second final,
      arc4randomBuf ndebug (answers 0) s a = some (first, mid) ∧
      arc4randomBuf ndebug (answers 1) mid b = some (second, final) ∧
      arc4randomBuf ndebug (answers 2) s (a + b) = some (first ++ second, final) ∧
      first.length = a ∧ second.length = b ∧ mid.Erased 0 ∧ final.Erased 0 := by
  have hs := run_sound hrun
  have hseed : ∀ (answer : RandomGet) {s : RngState}, s.initialized = true →
      seed ndebug answer s = some s := fun answer s hinit => if_pos hinit
  have hfirst := arc4randomBuf_eq_draws a hs (hseed (answers 0) hinit)
  have hmid := arc4randomBuf_sound hs hfirst
  have hsecond := arc4randomBuf_eq_draws b hmid (hseed (answers 1) rfl)
  have hfinal := arc4randomBuf_sound hmid hsecond
  have hwhole := arc4randomBuf_eq_draws (a + b) hs (hseed (answers 2) hinit)
  rw [Reserve.draws_add] at hwhole
  exact ⟨hs.erased, _, _, _, _, hfirst, hsecond, hwhole, Reserve.length_draws,
    Reserve.length_draws, hmid.erased, hfinal.erased⟩

end Chunks

namespace ChunkWitness

def entropy : RandomGet where
  error := 0
  buffer := Vector.replicate 32 7

/-- The state that a first request of nothing leaves. -/
def seeded : RngState where
  off := 512
  offLe := Nat.le_refl 512
  key := Vector.replicate 32 7
  reserve := Vector.replicate 512 0
  initialized := true

theorem seeded_reached : Run (CallStep true) initial [(.buf 0, entropy)] seeded := by
  have hseed : seed true entropy initial = some seeded := rfl
  have hnothing : arc4randomBuf true entropy initial 0 = some ([], seeded) := by
    rw [arc4randomBuf_eq_draws 0 initial_sound hseed]
    rfl
  exact Run.single (.buf hnothing)

/-- Three bytes and 600 more are 603 bytes. -/
theorem seeded_chunks :
    ∃ first mid second final,
      arc4randomBuf true entropy seeded 3 = some (first, mid) ∧
      arc4randomBuf true entropy mid 600 = some (second, final) ∧
      arc4randomBuf true entropy seeded 603 = some (first ++ second, final) := by
  obtain ⟨-, first, mid, second, final, hfirst, hsecond, hwhole, -⟩ :=
    run_chunks seeded_reached rfl (fun _ => entropy) 3 600
  exact ⟨first, mid, second, final, hfirst, hsecond, hwhole⟩

end ChunkWitness

end Arc4random

end WasixLibc
