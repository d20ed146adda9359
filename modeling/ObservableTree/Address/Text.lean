import ObservableTree.Address.Basic
import ObservableTree.Text

/-!
# The text of an address

Addresses have one canonical text: groups in base sixteen, joined by colons, where the longest run
of at least two zero groups (the first such run on a tie) is replaced by a pair of colons. An
address that only wraps a 32-bit one is written with that part in dotted decimal.

* `longestRun` — where the longest run of zero groups starts and how long it is;
* `Address.wrapped?` — the two groups of a wrapped 32-bit address;
* `Address.chars`, `Address.text` — the canonical text;
* `Address.padded` — the text, moved right to a given width.
-/

namespace ObservableTree

/-- The number of zero groups in front. -/
def zerosInFront (gs : List UInt16) : Nat := (gs.takeWhile (· == 0)).length

/-- Start and length of the longest run of zero groups, the first one on a tie. -/
def longestRun : List UInt16 → Nat × Nat
  | [] => (0, 0)
  | g :: gs =>
    let here := zerosInFront (g :: gs)
    let later := longestRun gs
    if later.2 ≤ here then (0, here) else (later.1 + 1, later.2)

/-- Groups in base sixteen with colons between them. -/
def colonGroups : List UInt16 → List Char
  | [] => []
  | [g] => numeral 16 g.toNat
  | g :: gs => numeral 16 g.toNat ++ ':' :: colonGroups gs

/-- The two octets of a group in decimal, with a point between them. -/
def dottedGroup (g : UInt16) : List Char :=
  numeral 10 (g >>> 8).toNat ++ '.' :: numeral 10 (g &&& 255).toNat

namespace Address

/-- The last two groups of an address that wraps a 32-bit one. -/
def wrapped? (a : Address) : Option (UInt16 × UInt16) :=
  match a.groups with
  | [0, 0, 0, 0, 0, 65535, high, low] => some (high, low)
  | _ => none

/-- The canonical text of an address. -/
def chars (a : Address) : List Char :=
  match a.wrapped? with
  | some (high, low) =>
    [':', ':', 'f', 'f', 'f', 'f', ':'] ++ dottedGroup high ++ '.' :: dottedGroup low
  | none =>
    let run := longestRun a.groups
    if 1 < run.2 then
      colonGroups (a.groups.take run.1) ++ [':', ':'] ++ colonGroups (a.groups.drop (run.1 + run.2))
    else colonGroups a.groups

/-- The canonical text of an address. -/
def text (a : Address) : String := String.ofList a.chars

/-- The text of an address with blanks in front of it up to a width. -/
def padded (a : Address) (width : Nat) : String :=
  "".pushn ' ' (width - a.chars.length) ++ a.text

/-- The text of an address under its type's name. -/
def labelled (a : Address) : String := "Address(" ++ a.text ++ ")"

instance : ToString Address := ⟨text⟩

end Address

end ObservableTree
