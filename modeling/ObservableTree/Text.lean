/-!
# Text

Bodies travel as bytes and are read as text, and numbers are spelled in a base up to sixteen: addresses
spell their groups in base sixteen and wrapped octets in base ten.

* `utf8` — the bytes of a string, `readUtf8?` — the string that bytes spell, if they spell one;
* `readUtf8?_utf8`, `utf8_append` — reading undoes writing, and strings are written one by one;
* `numeral` — the digits of a number, lower case, with no leading zero;
* `digitValue?` — what a character counts for in a base, in either case;
* `leadingDigits` — the digits that a text starts with;
* `readNumeral?` — the number that those digits spell, if there are neither too few nor too many.
-/

namespace ObservableTree

/-! ### Bytes -/

/-- The bytes of a string. -/
def utf8 (s : String) : List UInt8 := s.toUTF8.data.toList

/-- The string that bytes spell, if they spell one. -/
def readUtf8? (bytes : List UInt8) : Option String := String.fromUTF8? ⟨bytes.toArray⟩

theorem fromUTF8?_toUTF8 (s : String) : String.fromUTF8? s.toUTF8 = some s := by
  rw [String.fromUTF8?, String.toUTF8_eq_toByteArray, dif_pos s.isValidUTF8]
  rfl

theorem readUtf8?_utf8 (s : String) : readUtf8? (utf8 s) = some s := by
  rw [readUtf8?, utf8, Array.toArray_toList]
  exact fromUTF8?_toUTF8 s

theorem utf8_append (s t : String) : utf8 (s ++ t) = utf8 s ++ utf8 t := by
  simp only [utf8, String.toUTF8_eq_toByteArray, String.toByteArray_append, ByteArray.data_append,
    Array.toList_append]

theorem utf8_length (s : String) : (utf8 s).length = s.utf8ByteSize := by
  simp only [utf8, String.toUTF8_eq_toByteArray, Array.length_toList, ByteArray.size_data,
    String.size_toByteArray]

/-! ### Numerals -/

/-- The digits of a number, the most significant first. -/
def numeral (base n : Nat) : List Char := Nat.toDigits base n

/-- What a character counts for as a digit, if it is one in this base. -/
def digitValue? (base : Nat) (c : Char) : Option Nat :=
  let n :=
    if '0' ≤ c ∧ c ≤ '9' then c.toNat - '0'.toNat
    else if 'a' ≤ c ∧ c ≤ 'f' then c.toNat - 'a'.toNat + 10
    else if 'A' ≤ c ∧ c ≤ 'F' then c.toNat - 'A'.toNat + 10
    else base
  if n < base then some n else none

/-- Whether a character is a digit in this base. -/
def isDigitIn (base : Nat) (c : Char) : Bool := (digitValue? base c).isSome

/-- The number that a row of digits spells. -/
def digitsValue (base : Nat) (ds : List Char) : Nat :=
  ds.foldl (fun n c => n * base + (digitValue? base c).getD 0) 0

/-- The digits that a text starts with. -/
def leadingDigits (base : Nat) (cs : List Char) : List Char := cs.takeWhile (isDigitIn base)

/-- The number in front of a text and what follows it. All digits in front belong to the number,
which is refused when it has none, more than `limit`, or a needless leading zero where those are
not allowed. -/
def readNumeral? (base limit : Nat) (leadingZeros : Bool) (cs : List Char) :
    Option (Nat × List Char) :=
  let ds := leadingDigits base cs
  if ds = [] ∨ limit < ds.length then none
  else if leadingZeros = false ∧ ds.head? = some '0' ∧ 1 < ds.length then none
  else some (digitsValue base ds, cs.dropWhile (isDigitIn base))

theorem leadingDigits_append_rest (base : Nat) (cs : List Char) :
    leadingDigits base cs ++ cs.dropWhile (isDigitIn base) = cs :=
  List.takeWhile_append_dropWhile

theorem isDigitIn_of_mem_leadingDigits {base : Nat} {cs : List Char} {c : Char}
    (h : c ∈ leadingDigits base cs) : isDigitIn base c = true := by
  have hall := List.all_takeWhile (p := isDigitIn base) (l := cs)
  exact List.all_eq_true.mp hall c h

theorem digitValue?_lt {base : Nat} {c : Char} {n : Nat} (h : digitValue? base c = some n) :
    n < base := by
  obtain ⟨hlt, heq⟩ := Option.ite_none_right_eq_some.mp h
  exact Option.some.inj heq ▸ hlt

end ObservableTree
