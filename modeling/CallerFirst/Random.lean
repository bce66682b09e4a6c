/-!
# Seeded random numbers

The Mersenne twister, seeded by the words of a number, and draws from the 32-bit integers.
-/

namespace CallerFirst

/-- State of the twister: 624 words, and the number of them used up. -/
structure Twister where
  words : Array UInt32
  used : Nat

namespace Twister

def size : Nat := 624

def mixed (w : UInt32) : UInt32 :=
  w ^^^ (w >>> 30)

def word (words : Array UInt32) (i : Nat) : UInt32 :=
  words.getD i 0

def grow (seed : UInt32) : Array UInt32 :=
  (List.range (size - 1)).foldl (fun words i =>
    words.push (1812433253 * mixed (word words i) + (i + 1).toUInt32)) #[seed]

/-- One round of mixing: changes word `i`, and comes back to the front behind the last. -/
def mixStep (change : UInt32 → Nat → UInt32 → UInt32) (state : Array UInt32 × Nat) :
    Array UInt32 × Nat :=
  let (words, i) := state
  let words := words.setIfInBounds i (change (word words i) i (mixed (word words (i - 1))))
  if i + 1 ≥ size then (words.setIfInBounds 0 (word words (size - 1)), 1) else (words, i + 1)

def ofKey (key : List UInt32) : Twister :=
  let length := key.length
  let first := (List.range (max size length)).foldl (fun state k =>
    let j := k % length
    mixStep (fun w _ m => (w ^^^ (m * 1664525)) + key.getD j 0 + j.toUInt32) state)
    (grow 19650218, 1)
  let second := (List.range (size - 1)).foldl (fun state _ =>
    mixStep (fun w i m => (w ^^^ (m * 1566083941)) - i.toUInt32) state) first
  { words := second.1.setIfInBounds 0 0x80000000, used := size }

/-- Words of a number, lowest first, at least one. -/
def keyOf (n : Nat) : List UInt32 :=
  go (n.log2 / 32 + 1) n
where
  go : Nat → Nat → List UInt32
    | 0, _ => []
    | fuel + 1, n => n.toUInt32 :: go fuel (n / 0x100000000)

/-- The twister of a seed; the sign does not matter. -/
def ofSeed (seed : Int) : Twister :=
  ofKey (keyOf seed.natAbs)

def twisted (words : Array UInt32) (i : Nat) : UInt32 :=
  let y := (word words i &&& 0x80000000) ||| (word words ((i + 1) % size) &&& 0x7fffffff)
  let v := word words ((i + 397) % size) ^^^ (y >>> 1)
  if y &&& 1 == 0 then v else v ^^^ 0x9908b0df

def twist (words : Array UInt32) : Array UInt32 :=
  (List.range size).foldl (fun words i => words.setIfInBounds i (twisted words i)) words

def temper (y : UInt32) : UInt32 :=
  let y := y ^^^ (y >>> 11)
  let y := y ^^^ ((y <<< 7) &&& 0x9d2c5680)
  let y := y ^^^ ((y <<< 15) &&& 0xefc60000)
  y ^^^ (y >>> 18)

def next (t : Twister) : UInt32 × Twister :=
  let t := if t.used ≥ size then { words := twist t.words, used := 0 } else t
  (temper (word t.words t.used), { t with used := t.used + 1 })

/-- 33 random bits: a word, and the top bit of the next. -/
def bits33 (t : Twister) : Nat × Twister :=
  let (low, t) := t.next
  let (high, t) := t.next
  (low.toNat + (high >>> 31).toNat * 0x100000000, t)

/-- A number below 2^32: draws of 33 bits until one is small enough. -/
def below : (attempts : Nat) → Twister → Nat × Twister
  | 0, t => (0, t)
  | attempts + 1, t =>
    let (n, t) := t.bits33
    if n < 0x100000000 then (n, t) else below attempts t

def draw (attempts : Nat) (t : Twister) : Int × Twister :=
  let (n, t) := below attempts t
  (n - 0x80000000, t)

def draws (attempts : Nat) (t : Twister) : Nat → List Int
  | 0 => []
  | n + 1 =>
    let (x, t) := t.draw attempts
    x :: draws attempts t n

/-- Attempts for one draw. Each has an even chance, so they do not run out. -/
def enough : Nat := 4096

end Twister

end CallerFirst
