import ObservableTree.Address.Basic
import ObservableTree.Text

/-!
# Reading an address

An address is read from any of its texts, not only the canonical one: groups have one to four
digits of either case, a pair of colons stands for one or more zero groups, and the last two
groups may be four decimal octets.

* `readGroup?`, `readDotted?` — one group, and two groups in dotted decimal;
* `readGroups` — as many groups as a text starts with, up to a limit;
* `Address.parse?` — the address that a whole text spells.
-/

namespace ObservableTree

/-! ### Groups -/

/-- A group of one to four digits in base sixteen. -/
def readGroup? (cs : List Char) : Option (UInt16 × List Char) :=
  (readNumeral? 16 4 true cs).map fun (n, rest) => (UInt16.ofNat n, rest)

/-- An octet in decimal, with no needless leading zero. -/
def readOctet? (cs : List Char) : Option (UInt8 × List Char) :=
  match readNumeral? 10 3 false cs with
  | some (n, rest) => if n < 256 then some (UInt8.ofNat n, rest) else none
  | none => none

/-- What follows a given character in front of a text. -/
def skip? (c : Char) : List Char → Option (List Char)
  | d :: rest => if d = c then some rest else none
  | [] => none

/-- Two groups spelled as four decimal octets with points between them. -/
def readDotted? (cs : List Char) : Option ((UInt16 × UInt16) × List Char) := do
  let (a, cs) ← readOctet? cs
  let (b, cs) ← readOctet? (← skip? '.' cs)
  let (c, cs) ← readOctet? (← skip? '.' cs)
  let (d, cs) ← readOctet? (← skip? '.' cs)
  return ((Address.octetGroup a b, Address.octetGroup c d), cs)

/-- The text after the colon that parts a group from the one before it. -/
def pastColon? (isFirst : Bool) (cs : List Char) : Option (List Char) :=
  if isFirst then some cs else skip? ':' cs

/-- The groups that a text starts with: at most `limit`, whether the last two were dotted, and
what follows. Dotted octets end the row and need room for two groups. -/
def readGroups : (limit : Nat) → (isFirst : Bool) → List Char → List UInt16 × Bool × List Char
  | 0, _, cs => ([], false, cs)
  | room + 1, isFirst, cs =>
    match if room = 0 then none else (pastColon? isFirst cs).bind readDotted? with
    | some ((high, low), rest) => ([high, low], true, rest)
    | none =>
      match (pastColon? isFirst cs).bind readGroup? with
      | some (g, rest) =>
        let more := readGroups room false rest
        (g :: more.1, more.2)
      | none => ([], false, cs)

/-! ### Whole addresses -/

/-- The address that a whole text spells. A pair of colons stands for the groups that are missing,
at least one; dotted octets may only come last. -/
def Address.parse? (cs : List Char) : Option Address :=
  match readGroups 8 true cs with
  | (head, dotted, rest) =>
    if head.length = 8 then
      if rest = [] then Address.ofGroups? head else none
    else if dotted then none
    else
      match rest with
      | ':' :: ':' :: rest =>
        match readGroups (7 - head.length) true rest with
        | (tail, _, []) =>
          Address.ofGroups? (head ++ List.replicate (8 - head.length - tail.length) 0 ++ tail)
        | _ => none
      | _ => none

end ObservableTree
