/-
`qsort` of the C library.

The orders of the trees are the bits of two words, lowest order first, and an
exchange of several elements is done at once, 256 bytes at a time.  A pointer
that leaves the object, an index that leaves a table and a read of what was
never written end the call with `none`.
-/
import Mathlib.Tactic.Ring
import WasixLibc.ByteMemory
import WasixLibc.Smoothsort

namespace WasixLibc

namespace Qsort

/-- `size_t p[2]` -/
abbrev Words := Nat × Nat

/-- Shifts of a word: the instructions take the number of bits modulo 32. -/
def shiftLeft (x n : Nat) : Nat := x * 2 ^ (n % 32) % 0x100000000

def shiftRight (x n : Nat) : Nat := x / 2 ^ (n % 32)

def shl (p : Words) (n : Nat) : Words :=
  if 32 ≤ n then (shiftLeft 0 (n - 32), shiftLeft p.1 (n - 32) ||| shiftRight 0 (32 - (n - 32)))
  else (shiftLeft p.1 n, shiftLeft p.2 n ||| shiftRight p.1 (32 - n))

def shr (p : Words) (n : Nat) : Words :=
  if 32 ≤ n then (shiftRight p.2 (n - 32) ||| shiftLeft 0 (32 - (n - 32)), shiftRight 0 (n - 32))
  else (shiftRight p.1 n ||| shiftLeft p.2 (32 - n), shiftRight p.2 n)

/-- `a_ctz_l`, which is `__builtin_ctz`: for the word 0 that is undefined, and `ctz0` here. -/
def ntz (ctz0 x : Nat) : Nat := ((List.range 32).find? fun i => x.testBit i).getD ctz0

def pntz (ctz0 : Nat) (p : Words) : Nat :=
  if ntz ctz0 ((p.1 + 0xffffffff) % 0x100000000) ≠ 0 then
    ntz ctz0 ((p.1 + 0xffffffff) % 0x100000000)
  else if 32 + ntz ctz0 p.2 ≠ 32 then 32 + ntz ctz0 p.2
  else 0

/-- The arguments of a call; pointers are counted from `base`. -/
structure Job where
  nel : Nat
  width : Nat
  cmp : List (BitVec 8) → List (BitVec 8) → Int

def Job.size (q : Job) : Nat := q.width * q.nel

/-- The bytes of an element. -/
def bytes (m : ByteMemory) (o n : Nat) : List (BitVec 8) := (List.range n).map fun j => m (o + j)

/-- `p - n` -/
def back (p n : Nat) : Option Nat := if n ≤ p then some (p - n) else none

def Job.compare (q : Job) (m : ByteMemory) (x y : Nat) : Option Int :=
  if x + q.width ≤ q.size ∧ y + q.width ≤ q.size then
    some (q.cmp (bytes m x q.width) (bytes m y q.width))
  else none

/-- `ar[i++] = p` -/
def push (ar : List Nat) (p : Nat) : Option (List Nat) :=
  if ar.length < 57 then some (ar ++ [p]) else none

/-- The copies of one round of `cycle`, from `ar[0]` on. -/
def moveChunk (l : Nat) (tmp : ByteMemory) : List Nat → ByteMemory → ByteMemory
  | [], m => m
  | [p], m => m.copy p tmp 0 l
  | p :: p' :: ar, m => moveChunk l tmp (p' :: ar) (m.copy p m p' l)

def cycleRounds : Nat → Nat → List Nat → ByteMemory → ByteMemory
  | 0, _, _, m => m
  | fuel + 1, width, ar, m =>
      if width = 0 then m
      else
        let l := min 256 width
        cycleRounds fuel (width - l) (ar.map (· + l))
          (moveChunk l (fun j => m (ar.headD 0 + j)) ar m)

def Job.cycle (q : Job) (ar : List Nat) (m : ByteMemory) : Option ByteMemory :=
  if ar.length < 2 then some m
  else if ar.length < 57 ∧ ∀ p ∈ ar, p + q.width ≤ q.size then
    some (cycleRounds q.width q.width ar m)
  else none

section Trees

variable (q : Job) (ctz0 : Nat) (lp : List Nat)

/-- The loop of `sift`, with `ar[0]` at `key`. -/
def siftLoop (m : ByteMemory) (key : Nat) : Nat → Nat → List Nat → Option (List Nat)
  | pshift + 2, head, ar => do
      let rt ← back head q.width
      let step ← lp[pshift]?
      let lf ← back rt step
      let left ← q.compare m key lf
      let stop ← if 0 ≤ left then (q.compare m key rt).map fun right => decide (0 ≤ right)
        else some false
      if stop then some ar
      else
        let sides ← q.compare m lf rt
        if 0 ≤ sides then (push ar lf).bind (siftLoop m key (pshift + 1) lf)
        else (push ar rt).bind (siftLoop m key pshift rt)
  | _, _, ar => some ar

def sift (head pshift : Nat) (m : ByteMemory) : Option ByteMemory := do
  let ar ← siftLoop q lp m head pshift head [head]
  q.cycle ar m

/-- Whether one of the roots below is not smaller than `stepson`. -/
def childLarger (m : ByteMemory) (head stepson pshift : Nat) : Option Bool := do
  let rt ← back head q.width
  let step ← lp[pshift - 2]?
  let lf ← back rt step
  let right ← q.compare m rt stepson
  if 0 ≤ right then some true
  else (q.compare m lf stepson).map fun left => decide (0 ≤ left)

/-- Where the loop of `trinkle` ends. -/
structure Stop where
  head : Nat
  pshift : Nat
  trusty : Bool
  ar : List Nat

/-- The tests of a round of `trinkle`: the root that moves right, if one does. -/
def trinkleTest (m : ByteMemory) (key pshift : Nat) (trusty : Bool) (head : Nat) :
    Option (Option Nat) := do
  let step ← lp[pshift]?
  let stepson ← back head step
  let order ← q.compare m stepson key
  if order ≤ 0 then some none
  else
    let child ← if trusty = false ∧ 1 < pshift then childLarger q lp m head stepson pshift
      else some false
    if child then some none else some (some stepson)

/-- The loop of `trinkle`, with so much room in `ar`. -/
def trinkleLoop (m : ByteMemory) (key : Nat) : Nat → Words → Nat → Bool → Nat → List Nat →
    Option Stop
  | room, p, pshift, trusty, head, ar =>
      if p = (1, 0) then some ⟨head, pshift, trusty, ar⟩
      else
        match trinkleTest q lp m key pshift trusty head with
        | none => none
        | some none => some ⟨head, pshift, trusty, ar⟩
        | some (some stepson) =>
            match room with
            | 0 => none
            | room + 1 => (push ar stepson).bind
                (trinkleLoop m key room (shr p (pntz ctz0 p)) (pshift + pntz ctz0 p) false stepson)

def trinkle (head : Nat) (p : Words) (pshift : Nat) (trusty : Bool) (m : ByteMemory) :
    Option ByteMemory := do
  let s ← trinkleLoop q ctz0 lp m head 57 p pshift trusty head [head]
  if s.trusty then some m
  else
    let m ← q.cycle s.ar m
    sift q lp s.head s.pshift m

/-- The variables of `qsort`. -/
structure State where
  p : Words
  pshift : Nat
  head : Nat
  m : ByteMemory

/-- The body of the first loop. -/
def addElement (s : State) : Option State := do
  if s.p.1 &&& 3 = 3 then
    let m ← sift q lp s.head s.pshift s.m
    let p := shr s.p 2
    some ⟨(p.1 ||| 1, p.2), s.pshift + 2, s.head + q.width, m⟩
  else if s.pshift = 0 then none
  else
    let step ← lp[s.pshift - 1]?
    let m ← if q.size - q.width - s.head ≤ step then
        trinkle q ctz0 lp s.head s.p s.pshift false s.m
      else sift q lp s.head s.pshift s.m
    let p := if s.pshift = 1 then shl s.p 1 else shl s.p (s.pshift - 1)
    some ⟨(p.1 ||| 1, p.2), if s.pshift = 1 then 0 else 1, s.head + q.width, m⟩

def addLoop : Nat → State → Option State
  | fuel, s =>
      if s.head < q.size - q.width then
        match fuel with
        | 0 => none
        | fuel + 1 => (addElement q ctz0 lp s).bind (addLoop fuel)
      else some s

/-- The body of the second loop. -/
def takeElement (s : State) : Option State := do
  if s.pshift ≤ 1 then
    let head ← back s.head q.width
    some ⟨shr s.p (pntz ctz0 s.p), s.pshift + pntz ctz0 s.p, head, s.m⟩
  else
    let p := shl s.p 2
    let p := shr (p.1 ^^^ 7, p.2) 1
    let step ← lp[s.pshift - 2]?
    let above ← back s.head step
    let lf ← back above q.width
    let m ← trinkle q ctz0 lp lf p (s.pshift - 1) true s.m
    let p := shl p 1
    let p := (p.1 ||| 1, p.2)
    let rt ← back s.head q.width
    let m ← trinkle q ctz0 lp rt p (s.pshift - 2) true m
    some ⟨p, s.pshift - 2, rt, m⟩

def takeLoop : Nat → State → Option ByteMemory
  | fuel, s =>
      if s.pshift ≠ 1 ∨ s.p ≠ (1, 0) then
        match fuel with
        | 0 => none
        | fuel + 1 => (takeElement q ctz0 lp s).bind (takeLoop fuel)
      else some s.m

/-- The loop that fills `lp`, with room for so many more and the last two sizes. -/
def lpLoop (q : Job) : Nat → Nat → Nat → List Nat → Option (List Nat)
  | 0, _, _, _ => none
  | room + 1, x, y, lp =>
      let z := (x + y + q.width) % 0x100000000
      if z < q.size then lpLoop q room y z (lp ++ [z]) else some (lp ++ [z])

end Trees

def qsort (q : Job) (ctz0 : Nat) (m : ByteMemory) : Option ByteMemory :=
  if q.size = 0 then some m
  else do
    let lp ← lpLoop q 46 q.width q.width [q.width, q.width]
    let s ← addLoop q ctz0 lp q.nel ⟨(1, 0), 1, 0, m⟩
    let m ← trinkle q ctz0 lp s.head s.p s.pshift false s.m
    takeLoop q ctz0 lp q.nel { s with m }

end Qsort

end WasixLibc
