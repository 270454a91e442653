/-
The buffer of a directory stream.

Both readers of a directory keep one: a cookie behind the last entry they have
taken, and the bytes the host wrote the last time it was asked.
-/
import WasixLibc.DirentHost

namespace WasixLibc

namespace Dirent

/-- The part of a directory stream that is about its buffer. -/
structure Cursor where
  cookie : BitVec 64
  buffer : List UInt8
  bufferProcessed : Nat
  bufferSize : Nat
  bufferUsed : Nat

namespace Cursor

/-- `memcpy(&entry, buffer + buffer_processed, sizeof(entry))` -/
def header (c : Cursor) : Header :=
  readHeader ((c.buffer.drop c.bufferProcessed).take HEADER_SIZE)

/-- The `d_namlen` bytes behind the header. -/
def name (c : Cursor) (dNamlen : Nat) : Name :=
  (c.buffer.drop (c.bufferProcessed + HEADER_SIZE)).take dNamlen

/-- The buffer after a call to the host that wrote `data`. -/
def fill (c : Cursor) (data : List UInt8) : Cursor :=
  { c with
    buffer := data ++ c.buffer.drop data.length
    bufferUsed := data.length
    bufferProcessed := 0 }

/-- The buffer after `realloc`. -/
def grow (c : Cursor) (size : Nat) : Cursor :=
  { c with
    buffer := c.buffer.take size ++ List.replicate (size - c.buffer.length) 0
    bufferSize := size }

/-- The cursor behind an entry. -/
def advance (c : Cursor) (entry : Header) : Cursor :=
  { c with
    cookie := entry.dNext
    bufferProcessed := c.bufferProcessed + (HEADER_SIZE + entry.dNamlen.toNat) }

def unread (c : Cursor) : List UInt8 := (c.buffer.take c.bufferUsed).drop c.bufferProcessed

/-- The buffer is there, and `rest` is what follows the cookie. -/
structure Based (listing : Listing) (c : Cursor) (rest : List Entry) : Prop where
  after : listing.after c.cookie = rest
  header_le : HEADER_SIZE < c.bufferSize
  length : c.buffer.length = c.bufferSize

/-- What is unread of the buffer is the front of `rest`. -/
structure At (listing : Listing) (c : Cursor) (rest : List Entry) : Prop
    extends Based listing c rest where
  used_le : c.bufferUsed ≤ c.bufferSize
  processed_le : c.bufferProcessed ≤ c.bufferUsed
  window : Window Entry.encode rest (c.bufferUsed = c.bufferSize) c.unread

variable {listing : Listing} {c : Cursor} {rest : List Entry} {e : Entry}

theorem At.length_unread (h : At listing c rest) :
    c.unread.length = c.bufferUsed - c.bufferProcessed := by
  have hlength := h.length
  have hused := h.used_le
  unfold unread
  rw [List.length_drop, List.length_take]
  omega

/-- What is behind the processed bytes starts with the unread ones. -/
theorem At.drop_processed (h : At listing c rest) :
    c.buffer.drop c.bufferProcessed = c.unread ++ c.buffer.drop c.bufferUsed := by
  have hlength := h.length
  have hused := h.used_le
  have hprocessed := h.processed_le
  unfold unread
  calc c.buffer.drop c.bufferProcessed
      = (c.buffer.take c.bufferUsed ++ c.buffer.drop c.bufferUsed).drop c.bufferProcessed := by
        rw [List.take_append_drop]
    _ = _ := List.drop_append_of_le_length (by rw [List.length_take]; omega)

theorem At.header_eq (h : At listing c (e :: rest))
    (hleft : HEADER_SIZE ≤ c.bufferUsed - c.bufferProcessed) : c.header = e.header := by
  rw [← h.length_unread] at hleft
  unfold header
  rw [h.drop_processed, List.take_append_of_le_length hleft,
    h.window.take_eq hleft (by rw [e.length_encode]; omega), e.take_encode,
    readHeader_headerBytes]

/-- The whole of the next entry is in the buffer. -/
def Ready (c : Cursor) (e : Entry) : Prop := e.encode.length ≤ c.bufferUsed - c.bufferProcessed

theorem At.name_eq (h : At listing c (e :: rest)) (hready : c.Ready e) :
    c.name e.header.dNamlen.toNat = e.name := by
  unfold Ready at hready
  rw [← h.length_unread] at hready
  obtain ⟨unread', hunread, _⟩ := h.window.record hready
  unfold name
  rw [e.toNat_dNamlen, ← List.drop_drop, h.drop_processed, hunread, Entry.encode,
    List.append_assoc, List.append_assoc, ← e.length_headerBytes, List.drop_left, List.take_left]

theorem At.advance (h : At listing c (e :: rest)) (hready : c.Ready e) :
    At listing (c.advance e.header) rest := by
  have hlength := e.length_encode
  unfold Ready at hready
  have hunreadLength := h.length_unread
  obtain ⟨unread', hunread, hwindow⟩ := h.window.record (hunreadLength.symm ▸ hready)
  refine ⟨⟨Listing.after_dNext h.after, h.header_le, h.length⟩, h.used_le, ?_, ?_⟩
  · simp only [Cursor.advance, e.toNat_dNamlen]
    have hprocessed := h.processed_le
    omega
  · have hdrop : (c.advance e.header).unread = unread' := by
      unfold unread Cursor.advance at *
      rw [e.toNat_dNamlen, ← hlength, ← List.drop_drop, hunread, List.drop_left]
    rw [hdrop]
    exact hwindow

/-- What the host writes to the buffer is the front of `rest`. -/
theorem Based.fill (h : Based listing c rest) :
    At listing (c.fill (fdReaddir listing c.cookie c.bufferSize)) rest := by
  have hdata : fdReaddir listing c.cookie c.bufferSize =
      (rest.flatMap Entry.encode).take c.bufferSize := by
    unfold fdReaddir
    rw [h.after]
  have hle : (fdReaddir listing c.cookie c.bufferSize).length ≤ c.bufferSize := by
    rw [hdata, List.length_take]
    omega
  refine ⟨⟨h.after, h.header_le, ?_⟩, hle, Nat.zero_le _, ?_⟩
  · simp only [Cursor.fill, List.length_append, List.length_drop, h.length]
    omega
  · have hunread : (c.fill (fdReaddir listing c.cookie c.bufferSize)).unread =
        fdReaddir listing c.cookie c.bufferSize := by
      simp only [unread, Cursor.fill, List.drop_zero, List.take_left]
    rw [hunread]
    simp only [Cursor.fill, hdata]
    exact Window.of_fill rest c.bufferSize

/-- A buffer that was filled just now holds the next entry, unless it is too
small. -/
theorem Based.fill_ready (h : Based listing c (e :: rest))
    (hsize : e.encode.length ≤ c.bufferSize) :
    (c.fill (fdReaddir listing c.cookie c.bufferSize)).Ready e := by
  unfold Ready Cursor.fill fdReaddir
  rw [h.after, List.flatMap_cons]
  simp only [List.length_take, List.length_append]
  omega

/-- Enough of it is there for the header. -/
theorem Based.fill_header (h : Based listing c (e :: rest)) :
    HEADER_SIZE ≤ (c.fill (fdReaddir listing c.cookie c.bufferSize)).bufferUsed -
      (c.fill (fdReaddir listing c.cookie c.bufferSize)).bufferProcessed := by
  have hlength := e.length_encode
  have hsize := h.header_le
  unfold Cursor.fill fdReaddir
  rw [h.after, List.flatMap_cons]
  simp only [List.length_take, List.length_append]
  omega

theorem Based.grow (h : Based listing c rest) {size : Nat} (hsize : c.bufferSize ≤ size) :
    Based listing (c.grow size) rest where
  after := h.after
  header_le := Nat.lt_of_lt_of_le h.header_le hsize
  length := by
    have hlength := h.length
    simp only [Cursor.grow, List.length_append, List.length_take, List.length_replicate]
    omega

/-- Everything is marked as processed, so that the host is asked next. -/
theorem Based.exhaust (h : Based listing c rest) {cookie : BitVec 64} {rest' : List Entry}
    (hafter : listing.after cookie = rest') :
    At listing { c with
      cookie := cookie
      bufferUsed := c.bufferSize
      bufferProcessed := c.bufferSize } rest' := by
  refine ⟨⟨hafter, h.header_le, h.length⟩, le_rfl, le_rfl, ?_⟩
  have hunread : unread { c with
      cookie := cookie
      bufferUsed := c.bufferSize
      bufferProcessed := c.bufferSize } = [] := by
    unfold unread
    rw [List.drop_eq_nil_iff, List.length_take]
    exact Nat.min_le_left _ _
  rw [hunread]
  exact Window.of_full rfl

/-- A header that is cut off is the end of a full buffer, or of the listing. -/
theorem At.eq_nil_of_not_full (h : At listing c rest)
    (hshort : c.bufferUsed - c.bufferProcessed < HEADER_SIZE)
    (hused : c.bufferUsed < c.bufferSize) :
    rest = [] := by
  cases rest with
  | nil => rfl
  | cons e rest =>
      have hfull := h.window.full_of_short (by rw [h.length_unread, e.length_encode]; omega)
      omega

/-- Nothing is left to read at the end of the listing. -/
theorem At.used_eq_processed (h : At listing c []) : c.bufferUsed = c.bufferProcessed := by
  have hunread := congrArg List.length h.window.eq_nil_of_nil
  have hprocessed := h.processed_le
  rw [h.length_unread, List.length_nil] at hunread
  omega

/-! Progress -/

instance (c : Cursor) (e : Entry) : Decidable (c.Ready e) := inferInstanceAs (Decidable (_ ≤ _))

/-- How many refills it takes at most until something else happens. -/
def stage (c : Cursor) : List Entry → Nat
  | [] => if c.bufferUsed < c.bufferSize then 0 else 1
  | e :: _ =>
      if c.Ready e then 0
      else if HEADER_SIZE ≤ c.bufferUsed - c.bufferProcessed then 1 else 2

theorem Based.stage_fill (h : Based listing c rest)
    (hshort : c.bufferUsed - c.bufferProcessed < HEADER_SIZE)
    (hfull : c.bufferUsed = c.bufferSize) :
    (c.fill (fdReaddir listing c.cookie c.bufferSize)).stage rest < c.stage rest := by
  cases rest with
  | nil =>
      have hdata : fdReaddir listing c.cookie c.bufferSize = [] := by
        unfold fdReaddir
        rw [h.after]
        exact List.take_nil
      have hsize : 0 < c.bufferSize := Nat.zero_lt_of_lt h.header_le
      rw [hdata]
      simp only [stage, Cursor.fill, List.length_nil, hsize, hfull, ↓reduceIte, Nat.lt_irrefl,
        Nat.one_pos]
  | cons e rest =>
      have hnot : ¬ c.Ready e := by
        unfold Ready
        rw [e.length_encode]
        omega
      simp only [stage, h.fill_header, hnot, Nat.not_le.mpr hshort, ↓reduceIte]
      split <;> omega

/-- The next entry is cut off, and the refill makes it whole. -/
theorem stage_cut (hheader : HEADER_SIZE ≤ c.bufferUsed - c.bufferProcessed)
    (hready : ¬ c.Ready e) {c' : Cursor} (hready' : c'.Ready e) :
    c'.stage (e :: rest) < c.stage (e :: rest) := by
  simp only [stage, hready, hready', hheader, ↓reduceIte, Nat.one_pos]

theorem stage_le (c : Cursor) (rest : List Entry) : c.stage rest ≤ 2 := by
  unfold stage
  split
  · split <;> omega
  · split
    · omega
    · split <;> omega

end Cursor

end Dirent

end WasixLibc
