import Mathlib.Data.Finmap
import ObservableTree.Proofs.Lookup

/-!
# A map of bounded size

Who uses the table of neighbors need not know of slots: it is a finite map from addresses to
instants that takes no more addresses than there are slots.

* `NeighborTable.toMap` — what the slots in use say, read as a map;
* `lookup_toMap`, `card_toMap` — the look-ups and the number of slots in use are those of the map;
* `toMap_observe`, `toMap_sweep` — an observation inserts an address, and a sweep erases one;
* `observe_known`, `observe_room`, `observe_full` — what becomes of an observation;
* `TableCall`, `NeighborTable.afterAll` — a run of observations and sweeps from a table of free slots;
* `afterAll_bounded_map` — after any such run the table is such a map, and so are its next steps.
-/

namespace ObservableTree

namespace NeighborTable

variable {t : NeighborTable} {a : Address} {now : Instant} {threshold : Span}

/-! ### The map -/

/-- When each neighbor that has a slot was last heard. -/
def toMap (t : NeighborTable) : Finmap fun _ : Address => Instant :=
  (t.entries.map fun e => ⟨e.address, e.lastSeen⟩).toFinmap

/-- The look-up in the table is the look-up in the map. -/
theorem lookup_toMap (t : NeighborTable) (a : Address) : t.toMap.lookup a = t.lastSeen? a := by
  rw [toMap, Finmap.dlookup_list_toFinmap, lastSeen?]
  induction t.entries with
  | nil => rfl
  | cons e rest ih =>
    by_cases h : e.address = a
    · subst h
      simp
    · have hne : a ≠ e.address := fun hsame => h hsame.symm
      rw [List.map_cons, List.dlookup_cons_ne _ _ hne, ih, List.find?_cons_of_neg (by simpa using h)]

theorem mem_toMap_iff : a ∈ t.toMap ↔ t.contains a = true := by
  rw [← Finmap.lookup_isSome, lookup_toMap]
  rfl

/-- The map has an entry exactly if the table has it. -/
theorem lookup_toMap_iff (h : t.Distinct) {e : Entry} :
    t.toMap.lookup e.address = some e.lastSeen ↔ e ∈ t.entries := by
  rw [toMap, Finmap.dlookup_list_toFinmap, ← Option.mem_def, List.mem_dlookup_iff]
  · simp only [List.mem_map, Sigma.mk.injEq, heq_eq_eq]
    constructor
    · rintro ⟨d, hd, haddress, hseen⟩
      have hsame : d = e := by
        cases d
        cases e
        simp_all
      exact hsame ▸ hd
    · intro he
      exact ⟨e, he, rfl, rfl⟩
  · show ((t.entries.map fun e => (⟨e.address, e.lastSeen⟩ : Sigma fun _ => Instant)).map
      Sigma.fst).Nodup
    rw [List.map_map]
    exact h

/-- A map that has the entries of the table is its map. -/
theorem eq_toMap_of_lookup (h : t.Distinct) {m : Finmap fun _ : Address => Instant}
    (hm : ∀ e : Entry, m.lookup e.address = some e.lastSeen ↔ e ∈ t.entries) : m = t.toMap := by
  apply Finmap.ext_lookup
  intro a
  apply Option.ext
  intro seen
  exact (hm ⟨a, seen⟩).trans (lookup_toMap_iff h).symm

/-- The map has as many addresses as there are slots in use. -/
theorem card_toMap (h : t.Distinct) : t.toMap.keys.card = t.length := by
  have hkeys : t.toMap.keys = (t.entries.map Entry.address).toFinset := by
    ext a
    rw [Finmap.mem_keys, mem_toMap_iff, contains_iff, List.mem_toFinset, List.mem_map]
  rw [hkeys, List.toFinset_card_of_nodup h, List.length_map]
  rfl

theorem toMap_eq_empty_iff (h : t.Distinct) : t.toMap = ∅ ↔ t.isEmpty = true := by
  rw [isEmpty, beq_iff_eq, ← card_toMap h, Finset.card_eq_zero, Finset.eq_empty_iff_forall_notMem]
  constructor
  · intro hempty a
    rw [hempty, Finmap.mem_keys]
    exact Finmap.notMem_empty
  · intro hnone
    apply Finmap.ext_lookup
    intro a
    rw [Finmap.lookup_empty, Finmap.lookup_eq_none, ← Finmap.mem_keys]
    exact hnone a

/-- Every slot is in use exactly if the map has as many addresses as there are slots. -/
theorem isFull_iff_card (h : t.Distinct) : t.isFull = true ↔ t.toMap.keys.card = t.capacity := by
  rw [card_toMap h, isFull, List.all_eq_true]
  exact List.filterMap_length_eq_length.symm

theorem card_toMap_le (h : t.Distinct) : t.toMap.keys.card ≤ t.capacity := by
  rw [card_toMap h]
  exact List.length_filterMap_le id t.slots

/-- No two slots in use hold the same address. -/
theorem Distinct.slots (h : t.Distinct) :
    t.slots.Pairwise fun x y => ∀ e ∈ x, ∀ d ∈ y, e.address ≠ d.address :=
  List.pairwise_filterMap.mp (List.pairwise_map.mp h)

/-! ### Observations and sweeps -/

theorem observe_known (h : a ∈ t.toMap) (now : Instant) : (t.observe a now).2 = .refreshed := by
  rw [observe, if_pos (mem_toMap_iff.mp h)]

theorem observe_room (h : a ∉ t.toMap) (hroom : t.isFull ≠ true) (now : Instant) :
    (t.observe a now).2 = .inserted := by
  rw [observe, if_neg fun hknown => h (mem_toMap_iff.mpr hknown), if_neg hroom]

theorem observe_full (h : a ∉ t.toMap) (hfull : t.isFull = true) (now : Instant) :
    t.observe a now = (t, .dropped) := by
  rw [observe, if_neg fun hknown => h (mem_toMap_iff.mpr hknown), if_pos hfull]

/-- An observation that is not dropped inserts its address, or gives it another instant. -/
theorem toMap_observe (h : t.Distinct) (hkept : (t.observe a now).2 ≠ .dropped) :
    (t.observe a now).1.toMap = t.toMap.insert a now := by
  refine (eq_toMap_of_lookup (h.observe a now) fun e => ?_).symm
  rw [mem_entries_observe h hkept]
  by_cases haddress : e.address = a
  · subst haddress
    rw [Finmap.lookup_insert]
    constructor
    · intro hnow
      exact .inl (by cases hnow; rfl)
    · rintro (he | ⟨-, hother⟩)
      · exact congrArg (fun d => some d.lastSeen) he.symm
      · exact absurd rfl hother
  · rw [Finmap.lookup_insert_of_ne _ haddress, lookup_toMap_iff h]
    constructor
    · intro he
      exact .inr ⟨he, haddress⟩
    · rintro (rfl | ⟨he, -⟩)
      · exact absurd rfl haddress
      · exact he

/-- A sweep that finds an entry erases its address. -/
theorem toMap_sweep (h : t.Distinct) {d : Entry} (hfound : (t.sweep now threshold).2 = some d) :
    (t.sweep now threshold).1.toMap = t.toMap.erase d.address := by
  refine (eq_toMap_of_lookup (h.sweep now threshold) fun e => ?_).symm
  rw [mem_entries_sweep h hfound]
  by_cases haddress : e.address = d.address
  · rw [haddress, Finmap.lookup_erase]
    simp
  · rw [Finmap.lookup_erase_ne haddress, lookup_toMap_iff h]
    exact (and_iff_left haddress).symm

/-- A sweep finds nothing exactly if every address of the map was heard within the threshold. -/
theorem sweep_eq_none_iff (h : t.Distinct) :
    (t.sweep now threshold).2 = none ↔
      ∀ a seen, t.toMap.lookup a = some seen → now - seen ≤ threshold := by
  have hfresh : ∀ e : Entry, ¬isStale now threshold e = true ↔ now - e.lastSeen ≤ threshold := by
    intro e
    rw [isStale, decide_eq_true_iff]
    exact Nat.not_lt
  show t.entries.find? (isStale now threshold) = none ↔ _
  rw [List.find?_eq_none]
  constructor
  · intro hall a seen hseen
    exact (hfresh ⟨a, seen⟩).mp (hall _ ((lookup_toMap_iff h).mp hseen))
  · intro hall e he
    exact (hfresh e).mpr (hall e.address e.lastSeen ((lookup_toMap_iff h).mpr he))

end NeighborTable

/-! ### Runs -/

/-- A use of the table that may change it. -/
inductive TableCall where
  | observe (a : Address) (now : Instant)
  | sweep (now : Instant) (threshold : Span)

namespace NeighborTable

variable {t : NeighborTable} {a : Address} {now : Instant} {threshold : Span}

/-- The table after a call. -/
def after (t : NeighborTable) : TableCall → NeighborTable
  | .observe a now => (t.observe a now).1
  | .sweep now threshold => (t.sweep now threshold).1

/-- The table after a run of calls. -/
def afterAll (t : NeighborTable) (cs : List TableCall) : NeighborTable := cs.foldl after t

theorem Distinct.after (h : t.Distinct) (c : TableCall) : (t.after c).Distinct := by
  cases c with
  | observe a now => exact h.observe a now
  | sweep now threshold => exact h.sweep now threshold

theorem after_capacity (t : NeighborTable) (c : TableCall) : (t.after c).capacity = t.capacity := by
  cases c with
  | observe a now => exact observe_capacity t a now
  | sweep now threshold => exact sweep_capacity t now threshold

theorem Distinct.afterAll (h : t.Distinct) (cs : List TableCall) : (t.afterAll cs).Distinct := by
  induction cs generalizing t with
  | nil => exact h
  | cons c cs ih => exact ih (h.after c)

theorem afterAll_capacity (t : NeighborTable) (cs : List TableCall) :
    (t.afterAll cs).capacity = t.capacity := by
  induction cs generalizing t with
  | nil => rfl
  | cons c cs ih => exact (ih (t.after c)).trans (after_capacity t c)

/-- **A map of bounded size.** After any run of observations and sweeps, with any addresses, instants
and thresholds, from a table of free slots: no two slots in use hold the same address, and there are
as many slots as before. An observation of an address of the map gives it another instant; one of
another address inserts it, if the map has fewer addresses than there are slots, and is dropped and
changes nothing if not. A sweep finds nothing, and then changes nothing, exactly if every address was
heard within the threshold; else it erases the address of one entry that was not, the first in the
order of the slots, and changes no other slot. And whatever is asked of the table, the answer is that
of the map. -/
theorem afterAll_bounded_map (n : Nat) (cs : List TableCall) :
    let t := (ofCapacity n).afterAll cs
    let m := t.toMap
    ((t.slots.Pairwise fun x y => ∀ e ∈ x, ∀ d ∈ y, e.address ≠ d.address) ∧ t.capacity = n) ∧
    (∀ a now,
      (a ∈ m → (t.observe a now).2 = .refreshed ∧ (t.observe a now).1.toMap = m.insert a now) ∧
      (a ∉ m → m.keys.card < n →
        (t.observe a now).2 = .inserted ∧ (t.observe a now).1.toMap = m.insert a now) ∧
      (a ∉ m → ¬m.keys.card < n → t.observe a now = (t, .dropped))) ∧
    (∀ now threshold,
      ((t.sweep now threshold).2 = none ↔
        ∀ a seen, m.lookup a = some seen → now - seen ≤ threshold) ∧
      ((t.sweep now threshold).2 = none → (t.sweep now threshold).1 = t) ∧
      ∀ e, (t.sweep now threshold).2 = some e →
        (m.lookup e.address = some e.lastSeen ∧ threshold < now - e.lastSeen ∧
          (t.sweep now threshold).1.toMap = m.erase e.address) ∧
        ∃ front back, t.slots = front ++ some e :: back ∧
          (∀ d, some d ∈ front → now - d.lastSeen ≤ threshold) ∧
          (t.sweep now threshold).1.slots = front ++ none :: back) ∧
    (t.length = m.keys.card ∧ (t.isEmpty = true ↔ m = ∅) ∧ (t.isFull = true ↔ m.keys.card = n)) ∧
    (∀ a, (t.contains a = true ↔ a ∈ m) ∧ t.lastSeen? a = m.lookup a) ∧
    (t.entries.map Entry.address).Nodup ∧
      ∀ e, e ∈ t.entries ↔ m.lookup e.address = some e.lastSeen := by
  intro t m
  have hdistinct : t.Distinct := (distinct_ofCapacity n).afterAll cs
  have hcapacity : t.capacity = n := (afterAll_capacity _ cs).trans (ofCapacity_capacity n)
  have hfull : t.isFull = true ↔ m.keys.card = n := hcapacity ▸ isFull_iff_card hdistinct
  have hle : m.keys.card ≤ n := hcapacity ▸ card_toMap_le hdistinct
  refine ⟨⟨hdistinct.slots, hcapacity⟩, fun a now => ⟨?_, ?_, ?_⟩, fun now threshold => ⟨?_, ?_, ?_⟩,
    ⟨(card_toMap hdistinct).symm, (toMap_eq_empty_iff hdistinct).symm, hfull⟩,
    fun a => ⟨mem_toMap_iff.symm, (lookup_toMap t a).symm⟩, hdistinct,
    fun e => (lookup_toMap_iff hdistinct).symm⟩
  · intro hknown
    have hkind := observe_known hknown now
    exact ⟨hkind, toMap_observe hdistinct (by rw [hkind]; exact nofun)⟩
  · intro hunknown hroom
    have hkind := observe_room hunknown (fun h => by have := hfull.mp h; omega) now
    exact ⟨hkind, toMap_observe hdistinct (by rw [hkind]; exact nofun)⟩
  · intro hunknown hnone
    exact observe_full hunknown (hfull.mpr (by omega)) now
  · exact sweep_eq_none_iff hdistinct
  · exact sweep_eq_of_none
  · intro e hfound
    obtain ⟨front, back, hslots, hstale, hfront, hresult⟩ := sweep_found hfound
    have he : e ∈ t.entries := List.mem_of_find?_eq_some hfound
    refine ⟨⟨(lookup_toMap_iff hdistinct).mpr he, of_decide_eq_true hstale,
      toMap_sweep hdistinct hfound⟩, front, back, hslots, fun d hd => ?_, hresult⟩
    exact Nat.not_lt.mp (of_decide_eq_false (hfront d hd))

/-- Two slots, the first of them taken by the address with no bit set: a third address is dropped, and a
sweep erases the first address and leaves the second. -/
theorem afterAll_bounded_map_of_two :
    let near : UInt16 → Address := fun n => .ofGroups 65152 0 0 0 0 0 0 n
    let t := (ofCapacity 2).afterAll [.observe .unspecified (.ofMillis 3), .observe (near 1) (.ofMillis 8),
      .observe (near 2) (.ofMillis 8)]
    t.toMap.keys.card = 2 ∧ near 2 ∉ t.toMap ∧ t.observe (near 2) (.ofMillis 9) = (t, .dropped) ∧
      (t.sweep (.ofMillis 9) (.ofMillis 5)).2 = some ⟨.unspecified, .ofMillis 3⟩ ∧
      (t.sweep (.ofMillis 9) (.ofMillis 5)).1.toMap = t.toMap.erase .unspecified := by
  intro near t
  obtain ⟨-, hobserve, hsweep, ⟨hlength, -, -⟩, hlookup, -⟩ := afterAll_bounded_map 2
    [.observe .unspecified (.ofMillis 3), .observe (near 1) (.ofMillis 8),
      .observe (near 2) (.ofMillis 8)]
  have hcard : t.toMap.keys.card = 2 := hlength.symm.trans (by decide +kernel)
  have hnone : ¬t.toMap.keys.card < 2 := by
    rw [hcard]
    decide
  have hunknown : near 2 ∉ t.toMap := by
    rw [← (hlookup (near 2)).1]
    decide +kernel
  have hfound : (t.sweep (.ofMillis 9) (.ofMillis 5)).2 = some ⟨.unspecified, .ofMillis 3⟩ := by
    decide +kernel
  obtain ⟨⟨-, -, herased⟩, -⟩ := (hsweep (.ofMillis 9) (.ofMillis 5)).2.2 _ hfound
  exact ⟨hcard, hunknown, (hobserve (near 2) (.ofMillis 9)).2.2 hunknown hnone, hfound, herased⟩

end NeighborTable

end ObservableTree
