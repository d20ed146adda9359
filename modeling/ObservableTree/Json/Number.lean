import ObservableTree.Text

/-!
# Number literals

A number is written as an optional minus sign, digits without a needless leading zero, an optional
fraction and an optional exponent. A reader that keeps numbers with 53 significant bits refuses
those that are too large for it, and collects the digits in a 64-bit register first: digits that
the register has no room for only count by their place.

Whether a number is too large is decided in exact arithmetic on natural numbers:

* `roundTo53` — the nearest number with at most 53 significant bits, on a tie the one whose last bit is
  zero;
* `overflowLimit` — the least number that such a format with an eleven-bit exponent cannot hold;
* `NumberLiteral.read?` — the parts of a literal;
* `NumberLiteral.significand`, `NumberLiteral.scale` — the register, and the power of ten that
  belongs to it;
* `NumberLiteral.overflows` — whether the number is too large to keep.
-/

namespace ObservableTree

/-! ### Numbers with 53 significant bits -/

/-- Two to a power. -/
def powerOfTwo (n : Nat) : Nat := Nat.pow 2 n

/-- The nearest multiple of a power of two, the even one on a tie. -/
def roundToMultiple (bits n : Nat) : Nat :=
  let unit := powerOfTwo bits
  let low := n / unit
  let rest := n % unit
  if 2 * rest < unit then low * unit
  else if unit < 2 * rest then (low + 1) * unit
  else (low + low % 2) * unit

/-- The nearest number with at most 53 significant bits, the even one on a tie. -/
def roundTo53 (n : Nat) : Nat :=
  if n < powerOfTwo 53 then n else roundToMultiple (Nat.log2 n - 52) n

/-- The least number that rounds beyond the largest finite one. -/
def overflowLimit : Nat := powerOfTwo 1024 - powerOfTwo 970

/-! ### Literals -/

/-- The parts of a number literal. -/
structure NumberLiteral where
  isNegative : Bool
  whole : List Char
  fraction : List Char
  /-- Whether the exponent is negative, and its digits. -/
  exponent : Option (Bool × List Char)
deriving DecidableEq

namespace NumberLiteral

/-! ### Reading -/

/-- Digits in front of a text, of which there must be one. -/
def readDigits? (cs : List Char) : Option (List Char × List Char) :=
  if leadingDigits 10 cs = [] then none
  else some (leadingDigits 10 cs, cs.dropWhile (isDigitIn 10))

/-- A sign and what follows it. A plus sign is allowed only where `plus` says so. -/
def readSign (plus : Bool) : List Char → Bool × List Char
  | '-' :: rest => (true, rest)
  | '+' :: rest => if plus then (false, rest) else (false, '+' :: rest)
  | cs => (false, cs)

/-- A point and the digits behind it, nothing if there is no point. -/
def readFraction? : List Char → Option (List Char × List Char)
  | '.' :: rest => readDigits? rest
  | cs => some ([], cs)

/-- An exponent, nothing if there is no mark of one. -/
def readExponent? (cs : List Char) : Option (Option (Bool × List Char) × List Char) :=
  match cs with
  | 'e' :: rest | 'E' :: rest =>
    let signed := readSign true rest
    (readDigits? signed.2).map fun (ds, rest) => (some (signed.1, ds), rest)
  | _ => some (none, cs)

/-- The parts of a literal, if the whole text is one. -/
def read? (cs : List Char) : Option NumberLiteral := do
  let signed := readSign false cs
  let (whole, rest) ← readDigits? signed.2
  if whole.head? = some '0' ∧ 1 < whole.length then none
  let (fraction, rest) ← readFraction? rest
  let (exponent, rest) ← readExponent? rest
  if rest = [] then some ⟨signed.1, whole, fraction, exponent⟩ else none

/-! ### Size -/

/-- The largest number that the register for the digits holds. -/
def lastSignificand : Nat := 18446744073709551615

/-- Appends digits to the register until there is no room for one; returns the register and the
number of digits that it took. -/
def absorb (register : Nat) : List Char → Nat × Nat
  | [] => (register, 0)
  | c :: cs =>
    let next := register * 10 + (digitValue? 10 c).getD 0
    if next ≤ lastSignificand then
      let more := absorb next cs
      (more.1, more.2 + 1)
    else (register, 0)

/-- The register after the whole digits, and how many it took. -/
def absorbWhole (n : NumberLiteral) : Nat × Nat := absorb 0 n.whole

/-- The register after all digits, and how many of the fraction it took. Room that the whole digits
left unused is open to the fraction. -/
def absorbFraction (n : NumberLiteral) : Nat × Nat := absorb n.absorbWhole.1 n.fraction

/-- The digits that the register holds. -/
def significand (n : NumberLiteral) : Nat := n.absorbFraction.1

/-- The written exponent. -/
def writtenExponent (n : NumberLiteral) : Int :=
  match n.exponent with
  | none => 0
  | some (negative, ds) => if negative then -(digitsValue 10 ds : Int) else digitsValue 10 ds

/-- The power of ten that belongs to the register. -/
def scale (n : NumberLiteral) : Int :=
  n.writtenExponent + (n.whole.length - n.absorbWhole.2 : Nat) - n.absorbFraction.2

/-- Whether the number, with 53 significant bits for the register and for the power of ten, is too
large to keep. -/
def overflows (n : NumberLiteral) : Bool :=
  n.significand != 0 && decide (0 ≤ n.scale) &&
    (decide (308 < n.scale) ||
      decide (overflowLimit ≤ roundTo53 n.significand * roundTo53 (Nat.pow 10 n.scale.toNat)))

end NumberLiteral

end ObservableTree
