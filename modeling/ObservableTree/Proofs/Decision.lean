import ObservableTree.Proofs.Nesting
import ObservableTree.View.Parser

/-!
# What a body is taken for

A body is decided by the value that it spells, and of this value only by two of its members:

* `Json.Spells` — the bytes of a value, and `readJson?_iff` — the reader accepts these and no others;
* `Json.HasMember` — the member of a key that counts, the last one;
* `Json.Lists` — a member lists addresses, `Json.Defective` — the ways in which it does not;
* `addresses?_iff`, `addresses?_eq_none_iff` — every member does the one or the other;
* `parse_decided` — hence the result for any bytes, and what it does not depend on.
-/

namespace ObservableTree

/-! ### Values as bytes -/

/-- Bytes are read as the string that they are the bytes of. -/
theorem readUtf8?_iff (bytes : List UInt8) (s : String) :
    readUtf8? bytes = some s ↔ bytes = utf8 s := by
  constructor
  · intro h
    unfold readUtf8? String.fromUTF8? at h
    split at h
    · rw [← Option.some.inj h]
      rfl
    · cases h
  · rintro rfl
    exact readUtf8?_utf8 s

namespace Json

/-- The bytes of a value: any spelling of its tokens, unless it is nested too deep. -/
def Spells (v : Json) (bytes : List UInt8) : Prop :=
  v.depth ≤ maxOpen ∧ ∃ cs, Written v.tokens cs ∧ bytes = utf8 (String.ofList cs)

end Json

/-- **The reader accepts the bytes of a value**, and no others. -/
theorem View.readJson?_iff (bytes : List UInt8) (v : Json) :
    View.readJson? bytes = some v ↔ v.Spells bytes := by
  constructor
  · intro h
    obtain ⟨s, hs, hv⟩ := Option.bind_eq_some_iff.mp h
    obtain ⟨hwritten, hdepth⟩ := (Json.ofChars?_iff s.toList v).mp hv
    refine ⟨hdepth, s.toList, hwritten, ?_⟩
    rw [String.ofList_toList]
    exact (readUtf8?_iff bytes s).mp hs
  · rintro ⟨hdepth, cs, hwritten, rfl⟩
    rw [View.readJson?, readUtf8?_utf8, Option.bind_some, String.toList_ofList]
    exact (Json.ofChars?_iff cs v).mpr ⟨hwritten, hdepth⟩

/-! ### The member that counts -/

namespace Json

/-- The member of a key that counts: no later one has the same key. -/
def HasMember (v : Json) (key : String) (w : Json) : Prop :=
  ∃ front back, v = .object (front ++ (key, w) :: back) ∧ ∀ m, m ∈ back → m.1 ≠ key

theorem member?_iff (v : Json) (key : String) (w : Json) :
    v.member? key = some w ↔ v.HasMember key w := by
  cases v with
  | object members =>
    constructor
    · intro h
      obtain ⟨⟨key', w'⟩, hfind, rfl⟩ := Option.map_eq_some_iff.mp h
      obtain ⟨hkey, back, front, hsplit, hback⟩ := List.find?_eq_some_iff_append.mp hfind
      have hkey : key' = key := of_decide_eq_true hkey
      subst hkey
      refine ⟨front.reverse, back.reverse, ?_, fun m hm hsame => ?_⟩
      · rw [← List.reverse_reverse members, hsplit, List.reverse_append, List.reverse_cons,
          List.append_assoc]
        rfl
      · have hother := hback m (List.mem_reverse.mp hm)
        rw [decide_eq_true hsame] at hother
        cases hother
    · rintro ⟨front, back, hobject, hback⟩
      cases hobject
      refine Option.map_eq_some_iff.mpr ⟨(key, w), ?_, rfl⟩
      refine List.find?_eq_some_iff_append.mpr
        ⟨decide_eq_true rfl, back.reverse, front.reverse, ?_, fun m hm => ?_⟩
      · rw [List.reverse_append, List.reverse_cons, List.append_assoc]
        rfl
      · rw [decide_eq_false (hback m (List.mem_reverse.mp hm))]
        rfl
  | null | bool | number | string | array =>
    refine iff_of_false (fun h => nomatch h) ?_
    rintro ⟨front, back, hobject, -⟩
    cases hobject

/-- Only one member of a key counts. -/
theorem HasMember.unique {v : Json} {key : String} {w w' : Json} (h : v.HasMember key w)
    (h' : v.HasMember key w') : w = w' := by
  rw [← member?_iff] at h h'
  exact Option.some.inj (h.symm.trans h')

/-- A string that spells an address. -/
def IsAddress (v : Json) (a : Address) : Prop :=
  ∃ s, v = .string s ∧ Address.parse? s.toList = some a

/-- The member of a key lists these addresses, one for each item and in order. -/
def Lists (v : Json) (key : String) (addresses : List Address) : Prop :=
  ∃ items, v.HasMember key (.array items) ∧ List.Forall₂ IsAddress items addresses

/-- The ways in which the member of a key may fail to list addresses. -/
inductive Defective (v : Json) (key : String) : Prop where
  | notObject (h : ∀ members, v ≠ .object members)
  | missing (members : List (String × Json)) (hv : v = .object members)
      (h : ∀ m, m ∈ members → m.1 ≠ key)
  | notArray (w : Json) (hw : v.HasMember key w) (h : ∀ items, w ≠ .array items)
  | badItem (items : List Json) (item : Json) (hitems : v.HasMember key (.array items))
      (hitem : item ∈ items) (h : ∀ a, ¬item.IsAddress a)

theorem address?_iff (v : Json) (a : Address) : v.address? = some a ↔ v.IsAddress a := by
  cases v with
  | string s =>
    constructor
    · exact fun h => ⟨s, rfl, h⟩
    · rintro ⟨s', hs, h⟩
      cases hs
      exact h
  | null | bool | number | array | object =>
    refine iff_of_false (fun h => nomatch h) ?_
    rintro ⟨s, hs, -⟩
    cases hs

theorem address?_eq_none_iff (v : Json) : v.address? = none ↔ ∀ a, ¬v.IsAddress a := by
  rw [Option.eq_none_iff_forall_ne_some]
  exact forall_congr' fun a => not_congr (address?_iff v a)

theorem mapM_address?_iff (items : List Json) (addresses : List Address) :
    items.mapM address? = some addresses ↔ List.Forall₂ IsAddress items addresses := by
  induction items generalizing addresses with
  | nil =>
    rw [List.forall₂_nil_left_iff]
    exact ⟨fun h => (Option.some.inj h).symm, fun h => congrArg some h.symm⟩
  | cons item items ih =>
    rw [List.mapM_cons, List.forall₂_cons_left_iff]
    constructor
    · intro h
      obtain ⟨a, ha, h⟩ := Option.bind_eq_some_iff.mp h
      obtain ⟨rest, hrest, h⟩ := Option.bind_eq_some_iff.mp h
      exact ⟨a, rest, (address?_iff item a).mp ha, (ih rest).mp hrest, (Option.some.inj h).symm⟩
    · rintro ⟨a, rest, ha, hrest, rfl⟩
      rw [(address?_iff item a).mpr ha, (ih rest).mpr hrest]
      rfl

theorem isAddress_of_mem {items : List Json} {addresses : List Address}
    (h : List.Forall₂ IsAddress items addresses) {item : Json} (hitem : item ∈ items) :
    ∃ a, item.IsAddress a := by
  induction h with
  | nil => cases hitem
  | cons hfirst _ ih =>
    rcases List.mem_cons.mp hitem with rfl | hrest
    · exact ⟨_, hfirst⟩
    · exact ih hrest

/-- A list of addresses is refused for one of its items. -/
theorem exists_bad_of_mapM {items : List Json} (h : items.mapM address? = none) :
    ∃ item, item ∈ items ∧ ∀ a, ¬item.IsAddress a := by
  induction items with
  | nil => cases h
  | cons item items ih =>
    cases hitem : item.address? with
    | none => exact ⟨item, List.mem_cons_self, (address?_eq_none_iff item).mp hitem⟩
    | some a =>
      have hrest : items.mapM address? = none := by
        cases hrest : items.mapM address? with
        | none => rfl
        | some rest =>
          rw [List.mapM_cons, hitem, hrest] at h
          cases h
      obtain ⟨bad, hbad, hno⟩ := ih hrest
      exact ⟨bad, List.mem_cons_of_mem item hbad, hno⟩

/-- Addresses are read from a member that lists them. -/
theorem addresses?_iff (v : Json) (key : String) (addresses : List Address) :
    v.addresses? key = some addresses ↔ v.Lists key addresses := by
  constructor
  · intro h
    obtain ⟨items, hitems, haddresses⟩ := Option.bind_eq_some_iff.mp h
    obtain ⟨w, hw, harray⟩ := Option.bind_eq_some_iff.mp hitems
    have hw' : w = .array items := by
      cases w with
      | array items' => exact congrArg array (Option.some.inj harray)
      | null | bool | number | string | object => cases harray
    subst hw'
    exact ⟨items, (member?_iff v key _).mp hw, (mapM_address?_iff items addresses).mp haddresses⟩
  · rintro ⟨items, hw, haddresses⟩
    rw [addresses?, (member?_iff v key _).mpr hw, Option.bind_some]
    exact (mapM_address?_iff items addresses).mpr haddresses

/-- A member that is defective lists no addresses. -/
theorem Defective.not_lists {v : Json} {key : String} (h : v.Defective key)
    (addresses : List Address) : ¬v.Lists key addresses := by
  rintro ⟨items, hmember, haddresses⟩
  have hmember' := hmember
  obtain ⟨front, back, hobject, -⟩ := hmember'
  cases h with
  | notObject h => exact h _ hobject
  | missing members hv h =>
    have hmem : (key, array items) ∈ members := by
      have hsame := object.inj (hv.symm.trans hobject)
      rw [hsame]
      exact List.mem_append_right front List.mem_cons_self
    exact h _ hmem rfl
  | notArray w hw h => exact h items (hw.unique hmember)
  | badItem items' item hitems hitem h =>
    have hsame := array.inj (hitems.unique hmember)
    subst hsame
    obtain ⟨a, ha⟩ := isAddress_of_mem haddresses hitem
    exact h a ha

/-- A member that addresses are not read from is defective. -/
theorem defective_of_addresses? {v : Json} {key : String} (h : v.addresses? key = none) :
    v.Defective key := by
  cases v with
  | object members =>
    cases hmember : (object members).member? key with
    | none =>
      refine .missing members rfl fun m hm hsame => ?_
      rw [member?, Option.map_eq_none_iff, List.find?_eq_none] at hmember
      exact hmember m (List.mem_reverse.mpr hm) (decide_eq_true hsame)
    | some w =>
      have hw := (member?_iff _ key w).mp hmember
      cases w with
      | array items =>
        have hitems : items.mapM address? = none := by
          rwa [addresses?, hmember] at h
        obtain ⟨item, hitem, hno⟩ := exists_bad_of_mapM hitems
        exact .badItem items item hw hitem hno
      | null | bool | number | string | object =>
        refine .notArray _ hw fun items harray => ?_
        cases harray
  | null | bool | number | string | array =>
    refine .notObject fun members hobject => ?_
    cases hobject

/-- **A member either lists addresses or is defective.** -/
theorem defective_iff (v : Json) (key : String) :
    v.Defective key ↔ ∀ addresses, ¬v.Lists key addresses := by
  refine ⟨Defective.not_lists, fun h => defective_of_addresses? ?_⟩
  rw [Option.eq_none_iff_forall_ne_some]
  exact fun addresses hread => h addresses ((addresses?_iff v key addresses).mp hread)

theorem addresses?_eq_none_iff (v : Json) (key : String) :
    v.addresses? key = none ↔ v.Defective key := by
  rw [defective_iff, Option.eq_none_iff_forall_ne_some]
  exact forall_congr' fun addresses => not_congr (addresses?_iff v key addresses)

end Json

/-! ### The decision -/

namespace View

theorem parse_of_spells {bytes : List UInt8} {v : Json} (h : v.Spells bytes) :
    parse bytes = ofJson v := by
  rw [parse, (readJson?_iff bytes v).mpr h]

theorem parse_of_no_value {bytes : List UInt8} (h : ∀ v : Json, ¬v.Spells bytes) :
    parse bytes = .error .notJson := by
  have hnone : readJson? bytes = none := by
    rw [Option.eq_none_iff_forall_ne_some]
    exact fun v hv => h v ((readJson?_iff bytes v).mp hv)
  rw [parse, hnone]

theorem ofJson_of_badParents {v : Json} (h : v.Defective parentLabel) :
    ofJson v = .error .badParents := by
  rw [ofJson, (Json.addresses?_eq_none_iff v parentLabel).mpr h]

section

variable {v : Json} {parents : List Address} (hparents : v.Lists parentLabel parents)

include hparents

theorem ofJson_of_manyParents (hmany : 2 ≤ parents.length) : ofJson v = .error .manyParents := by
  rw [ofJson, (Json.addresses?_iff v parentLabel parents).mpr hparents]
  exact if_pos hmany

/-- With at most one parent, the list of children decides. -/
theorem ofJson_of_parents (hfew : parents.length ≤ 1) :
    ofJson v =
      match v.addresses? childLabel with
      | none => .error .badChildren
      | some children => .ok ⟨parents.head?, children⟩ := by
  rw [ofJson, (Json.addresses?_iff v parentLabel parents).mpr hparents]
  exact if_neg (Nat.not_lt.mpr hfew)

theorem ofJson_of_badChildren (hfew : parents.length ≤ 1) (h : v.Defective childLabel) :
    ofJson v = .error .badChildren := by
  rw [ofJson_of_parents hparents hfew, (Json.addresses?_eq_none_iff v childLabel).mpr h]

theorem ofJson_of_lists (hfew : parents.length ≤ 1) {children : List Address}
    (h : v.Lists childLabel children) : ofJson v = .ok ⟨parents.head?, children⟩ := by
  rw [ofJson_of_parents hparents hfew, (Json.addresses?_iff v childLabel children).mpr h]

end

/-- A view depends on the two members only that count for it. -/
theorem ofJson_congr {v w : Json}
    (h : ∀ key, key = parentLabel ∨ key = childLabel →
      ∀ x, v.HasMember key x ↔ w.HasMember key x) : ofJson w = ofJson v := by
  have hmember : ∀ key, key = parentLabel ∨ key = childLabel →
      w.addresses? key = v.addresses? key := by
    intro key hkey
    have hsame : w.member? key = v.member? key := by
      refine Option.ext fun x => ?_
      rw [Json.member?_iff, Json.member?_iff]
      exact (h key hkey x).symm
    rw [Json.addresses?, Json.addresses?, hsame]
  rw [ofJson, ofJson, hmember parentLabel (.inl rfl), hmember childLabel (.inr rfl)]

/-- **What a body is taken for.** Bytes that spell no value are not JSON. Else the member for the
parents is examined, then how many it lists, then the member for the children; each either lists
addresses or is defective. Two bodies with the same two members are taken for the same, whatever
else they hold and however they are spelled. -/
theorem parse_decided (bytes : List UInt8) :
    ((∀ v : Json, ¬v.Spells bytes) → parse bytes = .error .notJson) ∧
    (∀ v : Json, v.Spells bytes →
      (v.Defective parentLabel → parse bytes = .error .badParents) ∧
      ∀ parents, v.Lists parentLabel parents →
        (2 ≤ parents.length → parse bytes = .error .manyParents) ∧
        (parents.length ≤ 1 → v.Defective childLabel → parse bytes = .error .badChildren) ∧
        ∀ children, parents.length ≤ 1 → v.Lists childLabel children →
          parse bytes = .ok ⟨parents.head?, children⟩) ∧
    (∀ (v : Json) (key : String), v.Defective key ↔ ∀ addresses, ¬v.Lists key addresses) ∧
    ∀ (bytes' : List UInt8) (v w : Json), v.Spells bytes → w.Spells bytes' →
      (∀ key, key = parentLabel ∨ key = childLabel →
        ∀ x, v.HasMember key x ↔ w.HasMember key x) →
      parse bytes' = parse bytes := by
  refine ⟨parse_of_no_value, fun v hv => ?_, Json.defective_iff, ?_⟩
  · rw [parse_of_spells hv]
    refine ⟨ofJson_of_badParents, fun parents hparents => ⟨?_, ?_, ?_⟩⟩
    · exact ofJson_of_manyParents hparents
    · exact ofJson_of_badChildren hparents
    · exact fun children hfew => ofJson_of_lists hparents hfew
  · intro bytes' v w hv hw hsame
    rw [parse_of_spells hv, parse_of_spells hw]
    exact ofJson_congr hsame

/-- Blanks, escapes, members that do not count and one that is given twice: the second body is taken
for what the first one is taken for. -/
theorem parse_decided_of_escapes :
    let texts : List String → Json := fun ss => .array (ss.map .string)
    let v : Json := .object [("parent", texts ["::1"]), ("child", texts ["fe80::5"])]
    let w : Json := .object
      [("parent", .null), ("x", .array [.bool true, .object []]), ("child", texts ["fe80::5"]),
        ("parent", texts ["::1"])]
    let plain := utf8 "\x7b\"parent\":[\"::1\"],\"child\":[\"fe80::5\"]\x7d"
    let other := utf8 ("\x7b \"parent\":null,\"x\":[true , \x7b\x7d]," ++
      "\"child\":[\"fe80\\u003a:5\"],\t\"par\\u0065nt\" : [\"::1\"] \x7d\n")
    v.Spells plain ∧ w.Spells other ∧ (∀ v : Json, ¬v.Spells []) ∧ parse [] = .error .notJson ∧
      parse plain = .ok ⟨some (.ofGroups 0 0 0 0 0 0 0 1), [.ofGroups 65152 0 0 0 0 0 0 5]⟩ ∧
      parse other = parse plain := by
  intro texts v w plain other
  have hplain : v.Spells plain := (readJson?_iff plain v).mp (by unfold plain v texts; rfl)
  have hother : w.Spells other := (readJson?_iff other w).mp (by unfold other w texts; rfl)
  have hnone : ∀ v : Json, ¬v.Spells [] := by
    intro v hv
    have hread : readJson? [] = some v := (readJson?_iff [] v).mpr hv
    cases hread
  have hparents : v.Lists parentLabel [.ofGroups 0 0 0 0 0 0 0 1] :=
    (Json.addresses?_iff v parentLabel _).mp (by decide +kernel)
  have hchildren : v.Lists childLabel [.ofGroups 65152 0 0 0 0 0 0 5] :=
    (Json.addresses?_iff v childLabel _).mp (by decide +kernel)
  have hsame : ∀ key, key = parentLabel ∨ key = childLabel →
      ∀ x, v.HasMember key x ↔ w.HasMember key x := by
    intro key hkey x
    rw [← Json.member?_iff, ← Json.member?_iff]
    rcases hkey with rfl | rfl
    · rfl
    · rfl
  have hok := (((parse_decided plain).2.1 v hplain).2 _ hparents).2.2 _ (by decide) hchildren
  exact ⟨hplain, hother, hnone, (parse_decided []).1 hnone, hok,
    (parse_decided plain).2.2.2 other v w hplain hother hsame⟩

end View

end ObservableTree
