import ObservableTree.Address.Text

/-!
# A bounded buffer for address text

The text of an address is put together in a fixed space of 45 bytes, enough for the longest form:

* `AddressText` — the bytes written so far, with the bound in the type;
* `AddressText.append?` — writes a string as a whole or not at all, and
  `AddressText.write` — leaves the buffer as it is where it does not fit;
* `AddressText.text` — what the bytes spell;
* `Address.toText` — the buffer that holds an address.
-/

namespace ObservableTree

/-- The space for the text of an address, in bytes. -/
def addressTextCapacity : Nat := 45

/-- Text of at most 45 bytes. -/
structure AddressText where
  bytes : ByteArray
  fits : bytes.size ≤ addressTextCapacity

namespace AddressText

/-- The buffer with nothing in it. -/
def empty : AddressText := ⟨ByteArray.empty, Nat.zero_le _⟩

/-- Writes a string behind what is there, if it fits as a whole. -/
def append? (t : AddressText) (s : String) : Option AddressText :=
  if h : (t.bytes ++ s.toUTF8).size ≤ addressTextCapacity then some ⟨t.bytes ++ s.toUTF8, h⟩
  else none

/-- Writes a string if it fits as a whole, and says whether it did. -/
def write (t : AddressText) (s : String) : AddressText × Bool :=
  match t.append? s with
  | some u => (u, true)
  | none => (t, false)

/-- The number of bytes written. -/
def length (t : AddressText) : Nat := t.bytes.size

/-- Whether nothing was written. -/
def isEmpty (t : AddressText) : Bool := t.length == 0

/-- What the bytes spell, the empty text if they spell nothing. -/
def text (t : AddressText) : String := (String.fromUTF8? t.bytes).getD ""

/-- The bytes as a list. -/
def octets (t : AddressText) : List UInt8 := t.bytes.data.toList

theorem length_le (t : AddressText) : t.length ≤ addressTextCapacity := t.fits

theorem append?_isSome_iff (t : AddressText) (s : String) :
    (t.append? s).isSome ↔ t.length + s.utf8ByteSize ≤ addressTextCapacity := by
  unfold append? length
  split <;> rename_i h <;>
    simpa [ByteArray.size_append, String.toUTF8_eq_toByteArray] using h

end AddressText

/-- The text of an address in its buffer. -/
def Address.toText (a : Address) : AddressText := (AddressText.empty.append? a.text).getD .empty

end ObservableTree
