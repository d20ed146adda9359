/-!
# Network addresses

A node is named by 128 bits, written and stored as eight 16-bit groups, the most significant
first:

* `Address` — the groups, with their number in the type;
* `Address.octets`, `Address.ofOctets?` — the same bits as sixteen octets;
* `Address.value` — the 128-bit number, by which addresses are ordered;
* `Address.withPrefixGroup` — the address moved under another leading group.
-/

namespace ObservableTree

/-- The 128-bit address of a node, as eight groups of sixteen bits. -/
structure Address where
  groups : List UInt16
  length_groups : groups.length = 8
deriving DecidableEq

namespace Address

/-- The address with the given groups, if there are eight. -/
def ofGroups? (gs : List UInt16) : Option Address :=
  if h : gs.length = 8 then some ⟨gs, h⟩ else none

/-- The address with these eight groups. -/
def ofGroups (g₀ g₁ g₂ g₃ g₄ g₅ g₆ g₇ : UInt16) : Address :=
  ⟨[g₀, g₁, g₂, g₃, g₄, g₅, g₆, g₇], rfl⟩

/-- The address with no bit set. -/
def unspecified : Address := ofGroups 0 0 0 0 0 0 0 0

instance : Inhabited Address := ⟨unspecified⟩

theorem ofGroups?_groups (a : Address) : ofGroups? a.groups = some a := by
  simp only [ofGroups?, a.length_groups, ↓reduceDIte]

/-! ### Octets -/

/-- The high and the low octet of a group. -/
def groupOctets (g : UInt16) : List UInt8 := [(g >>> 8).toUInt8, g.toUInt8]

/-- The group with a high and a low octet. -/
def octetGroup (high low : UInt8) : UInt16 := high.toUInt16 <<< 8 ||| low.toUInt16

/-- The sixteen octets of an address. -/
def octets (a : Address) : List UInt8 := a.groups.flatMap groupOctets

/-- Groups from octets taken two at a time. -/
def pairOctets : List UInt8 → List UInt16
  | high :: low :: rest => octetGroup high low :: pairOctets rest
  | _ => []

/-- The address with the given octets, if there are sixteen. -/
def ofOctets? (bytes : List UInt8) : Option Address :=
  if bytes.length = 16 then ofGroups? (pairOctets bytes) else none

/-! ### Order and prefix -/

/-- The 128-bit number that the groups spell. -/
def value (a : Address) : Nat := a.groups.foldl (fun n g => n * 65536 + g.toNat) 0

instance : Ord Address := ⟨fun a b => compare a.value b.value⟩

/-- This address with its leading group taken from `dag`. The link-local next hop of a default
route becomes the parent's address inside the tree. -/
def withPrefixGroup (a dag : Address) : Address :=
  ⟨dag.groups.take 1 ++ a.groups.drop 1, by
    simp only [List.length_append, List.length_take, List.length_drop, a.length_groups,
      dag.length_groups]; omega⟩

end Address

end ObservableTree
