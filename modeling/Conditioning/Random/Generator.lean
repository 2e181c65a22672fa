/-!
# The random generator

A generator is one word of 64 bits.  A call scrambles the word by three
shifted exclusive ors and hands out an odd multiple of the result, so a seed
fixes the whole stream.  The zero word would reproduce itself for ever; seed
zero therefore stands for another word.

A run gives each subject a stream of its own.  The seed of such a stream is a
word of the run's generator put through a finalising hash, so that consecutive
seeds have nothing in common.
-/

namespace Conditioning

/-- A generator is its current word. -/
structure Generator where
  /-- The word that the next call scrambles. -/
  state : UInt64
deriving DecidableEq, Repr

namespace Generator

/-- The odd constant nearest to 2^64 over the golden ratio. -/
def golden : UInt64 := 0x9E3779B97F4A7C15

/-- The generator of a seed; seed zero is replaced. -/
def ofSeed (seed : UInt64) : Generator :=
  ⟨if seed == 0 then golden else seed⟩

/-- One step of the word: three shifted exclusive ors. -/
def scramble (x : UInt64) : UInt64 :=
  let x := x ^^^ (x >>> 12)
  let x := x ^^^ (x <<< 25)
  x ^^^ (x >>> 27)

/-- The next word of the stream. -/
def word (g : Generator) : UInt64 × Generator :=
  let x := scramble g.state
  (x * 0x2545F4914F6CDD1D, ⟨x⟩)

/-- The number in `[0, 1)` that the upper 53 bits of a word stand for. -/
def unitOfWord (x : UInt64) : Float :=
  (x >>> 11).toFloat * (1.0 / 9007199254740992.0)

/-- The next number in `[0, 1)`. -/
def unit (g : Generator) : Float × Generator :=
  (unitOfWord g.word.1, g.word.2)

/-- The finalising hash of seeds. -/
def finalise (z : UInt64) : UInt64 :=
  let z := (z ^^^ (z >>> 30)) * 0xBF58476D1CE4E5B9
  let z := (z ^^^ (z >>> 27)) * 0x94D049BB133111EB
  z ^^^ (z >>> 31)

/-- The seed of an independent stream. -/
def split (g : Generator) : UInt64 × Generator :=
  (finalise (g.word.1 + golden), g.word.2)

/-- The seeds of `n` independent streams, drawn one after the other. -/
def splits : Nat → Generator → List UInt64 × Generator
  | 0, g => ([], g)
  | n + 1, g =>
    let rest := splits n g.split.2
    (g.split.1 :: rest.1, rest.2)

@[simp] theorem splits_zero (g : Generator) : splits 0 g = ([], g) := rfl

theorem splits_succ (n : Nat) (g : Generator) :
    splits (n + 1) g = (g.split.1 :: (splits n g.split.2).1, (splits n g.split.2).2) := rfl

theorem length_splits (n : Nat) (g : Generator) : (splits n g).1.length = n := by
  induction n generalizing g with
  | zero => rfl
  | succ n ih => simp [splits_succ, ih]

end Generator

end Conditioning
