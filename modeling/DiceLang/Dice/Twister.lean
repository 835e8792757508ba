import DiceLang.Rolling

/-!
# Dice that are seeded

The Mersenne Twister: 624 words of 32 bits, from which as many random words are read off and which
are then replaced by the next 624.  A seed of any size fixes the first of them.

A roll is found by rejection: as many random bits as the number of sides has are drawn until they
form a number below it.
-/

namespace DiceLang

/-- The words of the generator and how many of them have been read off. -/
structure Twister where
  words : Array UInt32
  used : Nat

namespace Twister

/-- The number of words. -/
def size : Nat := 624

/-- How far the word that is mixed in stands ahead. -/
def shift : Nat := 397

/-- The word at an index. -/
def word (words : Array UInt32) (i : Nat) : UInt32 := words.getD i 0

/-- Folds the high bits of a word into its low ones. -/
def fold (w : UInt32) : UInt32 := w ^^^ (w >>> 30)

/-- The words that grow from a single one. -/
def spread (first : UInt32) : Array UInt32 :=
  (List.range (size - 1)).foldl
    (fun words i => words.push (1812433253 * fold (word words i) + UInt32.ofNat (i + 1)))
    #[first]

/-- One step of a pass over the words from the second one on: replaces the word at `i`, and after
the last one copies it to the front and starts again at the second. -/
def passStep (mix : UInt32 → UInt32 → UInt32) (state : Array UInt32 × Nat) :
    Array UInt32 × Nat :=
  let (words, i) := state
  let words := words.setIfInBounds i (mix (word words i) (fold (word words (i - 1))))
  if i + 1 < size then (words, i + 1)
  else (words.setIfInBounds 0 (word words (size - 1)), 1)

/-- Stirs a key into the words, going around the key as often as needed. -/
def stirKey (key : List UInt32) (state : Array UInt32 × Nat) : Array UInt32 × Nat :=
  let keys := key.toArray
  (List.range (max size keys.size)).foldl
    (fun state k =>
      let j := k % keys.size
      passStep (fun w neighbour =>
        (w ^^^ (neighbour * 1664525)) + word keys j + UInt32.ofNat j) state)
    state

/-- Stirs the words once more, each with its own index. -/
def stirIndex (state : Array UInt32 × Nat) : Array UInt32 × Nat :=
  (List.range (size - 1)).foldl
    (fun state _ =>
      passStep (fun w neighbour => (w ^^^ (neighbour * 1566083941)) - UInt32.ofNat state.2) state)
    state

/-- The generator that a key of one or more words sets up. -/
def ofKey (key : List UInt32) : Twister :=
  let stirred := stirIndex (stirKey key (spread 19650218, 1))
  ⟨stirred.1.setIfInBounds 0 0x80000000, size⟩

/-- The words of 32 bits of a number above the lowest one, the least significant first. -/
def highWords (n : Nat) : List UInt32 :=
  if n < UInt32.size then []
  else UInt32.ofNat (n / UInt32.size) :: highWords (n / UInt32.size)
termination_by n
decreasing_by simp only [UInt32.size] at *; omega

/-- The generator that an integer seeds.  The sign of the seed does not matter. -/
def ofSeed (seed : Int) : Twister :=
  ofKey (UInt32.ofNat seed.natAbs :: highWords seed.natAbs)

/-- The next generation of words. -/
def renew (words : Array UInt32) : Array UInt32 :=
  (List.range size).foldl
    (fun words i =>
      let joined :=
        (word words i &&& 0x80000000) ||| (word words ((i + 1) % size) &&& 0x7fffffff)
      let mask : UInt32 := if joined &&& 1 = 0 then 0 else 0x9908b0df
      words.setIfInBounds i (word words ((i + shift) % size) ^^^ (joined >>> 1) ^^^ mask))
    words

/-- Evens out the bits of a word before it is handed out. -/
def temper (w : UInt32) : UInt32 :=
  let w := w ^^^ (w >>> 11)
  let w := w ^^^ ((w <<< 7) &&& 0x9d2c5680)
  let w := w ^^^ ((w <<< 15) &&& 0xefc60000)
  w ^^^ (w >>> 18)

/-- The next random word. -/
def next (twister : Twister) : UInt32 × Twister :=
  if twister.used < size then
    (temper (word twister.words twister.used), { twister with used := twister.used + 1 })
  else
    let words := renew twister.words
    (temper (word words 0), ⟨words, 1⟩)

/-- So many random bits as a number.  Words are filled from the least significant on, and the last
one gives its highest bits. -/
def bits (twister : Twister) (count : Nat) : Nat × Twister :=
  let (w, after) := twister.next
  if count ≤ 32 then
    (w.toNat >>> (32 - count), after)
  else
    let (high, after) := after.bits (count - 32)
    (w.toNat + UInt32.size * high, after)
termination_by count

/-- How often a number that is too large is drawn again.  Each draw succeeds with a chance of more
than one half, so the limit is never met in practice. -/
def rejectionLimit : Nat := 4096

/-- A random number below `n`.  When the tries are used up the last draw is reduced. -/
def below (n : Nat) : (tries : Nat) → Twister → Nat × Twister
  | 0, twister =>
    let (drawn, after) := twister.bits (n.log2 + 1)
    (drawn % n, after)
  | tries + 1, twister =>
    let (drawn, after) := twister.bits (n.log2 + 1)
    if drawn < n then (drawn, after) else below n tries after

/-- Rolls a die with so many sides. -/
def draw (sides : Int) (twister : Twister) : Except Mishap Int × Twister :=
  let (drawn, after) := below sides.toNat rejectionLimit twister
  (.ok (drawn + 1), after)

instance : Dice Twister := ⟨draw⟩

end Twister

end DiceLang
