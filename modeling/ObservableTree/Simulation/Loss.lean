import ObservableTree.Json.Number

/-!
# Lost packets

Whether a packet is lost is drawn from a linear generator on 64-bit words. The word is compared as a
fraction: it is rounded to 53 significant bits and divided by two to the 64.

* `LossRate` — the share of packets that are lost, as a binary fraction;
* `LossRate.ofBits` — from the bits of a 64-bit floating point number;
* `nextWord` — the generator, `LossRate.loses` — whether a word means loss.
-/

namespace ObservableTree

/-- The share of packets that are lost: `numerator` over two to the `places`. -/
structure LossRate where
  numerator : Nat
  places : Nat
deriving DecidableEq

namespace LossRate

/-- No packet is lost. -/
def zero : LossRate := ⟨0, 0⟩

/-- The whole. -/
def one : LossRate := ⟨1, 0⟩

/-- The share that a floating point number stands for, by its bits. What lies below zero or beyond
one is moved to that bound, and what is not a number means no loss. -/
def ofBits (bits : UInt64) : LossRate :=
  let exponent := bits.toNat / powerOfTwo 52 % powerOfTwo 11
  let fraction := bits.toNat % powerOfTwo 52
  if powerOfTwo 63 ≤ bits.toNat then zero
  else if exponent = 2047 ∧ fraction ≠ 0 then zero
  else if 1023 ≤ exponent then one
  else if exponent = 0 then ⟨fraction, 1074⟩
  else ⟨powerOfTwo 52 + fraction, 1075 - exponent⟩

/-- Whether any packet can be lost. -/
def isPositive (r : LossRate) : Bool := decide (0 < r.numerator)

/-- Whether a word, as a fraction, lies below the share. -/
def loses (r : LossRate) (word : UInt64) : Bool :=
  decide (roundTo53 word.toNat * powerOfTwo r.places < r.numerator * powerOfTwo 64)

end LossRate

/-- The word after a word. -/
def nextWord (word : UInt64) : UInt64 := word * 6364136223846793005 + 1

end ObservableTree
