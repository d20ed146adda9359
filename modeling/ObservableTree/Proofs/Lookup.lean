import Mathlib.Data.List.Nodup
import ObservableTree.Proofs.Slots

/-!
# The table as a map

No neighbor has two slots, so the table maps the address of a neighbor to when it was last heard. An
observation sets the value at one address, unless the table is full, and a sweep takes one address
out:

* `observe_entries`, `sweep_found`, `sweep_entries` — one place in the row of entries;
* `NeighborTable.Distinct` — each address has one entry, which both keep;
* `mem_entries_observe`, `mem_entries_sweep` — the entries afterwards.
-/

namespace ObservableTree

namespace NeighborTable

variable {t : NeighborTable} {a : Address} {now : Instant} {threshold : Span}

/-! ### The row of entries -/

theorem entries_of_slots {front back : List (Option Entry)} {x : Option Entry}
    (h : t.slots = front ++ x :: back) :
    t.entries = front.filterMap id ++ (x.toList ++ back.filterMap id) := by
  rw [entries, h, List.filterMap_append]
  cases x <;> rfl

/-- The three outcomes of an observation in the row of entries. -/
theorem observe_entries (t : NeighborTable) (a : Address) (now : Instant) :
    ((t.observe a now).2 = .refreshed ∧ ∃ front e back, t.entries = front ++ e :: back ∧
        e.address = a ∧ (t.observe a now).1.entries = front ++ ⟨a, now⟩ :: back) ∨
      ((t.observe a now).2 = .inserted ∧ (∀ e ∈ t.entries, e.address ≠ a) ∧
        ∃ front back, t.entries = front ++ back ∧
          (t.observe a now).1.entries = front ++ ⟨a, now⟩ :: back) ∨
      ((t.observe a now).2 = .dropped ∧ (∀ e ∈ t.entries, e.address ≠ a) ∧
        (t.observe a now).1 = t) := by
  rcases observe_cases t a now with ⟨hkind, front, e, back, hslots, hea, hresult⟩ |
    ⟨hkind, hunknown, front, back, hslots, hresult⟩ | hdropped
  · exact .inl ⟨hkind, _, e, _, entries_of_slots hslots, hea, entries_of_slots hresult⟩
  · exact .inr (.inl ⟨hkind, hunknown, _, _, entries_of_slots hslots, entries_of_slots hresult⟩)
  · exact .inr (.inr hdropped)

/-- A sweep that finds an entry has found the first that is stale, and frees its slot. -/
theorem sweep_found {e : Entry} (h : (t.sweep now threshold).2 = some e) :
    ∃ front back, t.slots = front ++ some e :: back ∧ isStale now threshold e = true ∧
      (∀ d, some d ∈ front → isStale now threshold d = false) ∧
      (t.sweep now threshold).1.slots = front ++ none :: back := by
  have hmem : e ∈ t.entries := List.mem_of_find?_eq_some h
  have hstale : isStale now threshold e = true := List.find?_some h
  rcases sweep_slots t now threshold with ⟨-, hfresh⟩ | ⟨front, d, back, hslots, hd, hfront, hresult⟩
  · rw [hfresh e hmem] at hstale
    cases hstale
  · have hentries : t.entries = front.filterMap id ++ d :: back.filterMap id :=
      entries_of_slots hslots
    have hearlier : ∀ c ∈ front.filterMap id, ¬isStale now threshold c = true := by
      intro c hc
      rw [Bool.not_eq_true]
      exact hfront c (by simpa using hc)
    have hfound : t.entries.find? (isStale now threshold) = some d := by
      rw [hentries, List.find?_append, List.find?_eq_none.mpr hearlier, List.find?_cons_of_pos hd]
      rfl
    cases Option.some.inj (hfound.symm.trans h)
    exact ⟨front, back, hslots, hd, hfront, hresult⟩

/-- A sweep that frees a slot takes its entry out of the row. -/
theorem sweep_entries {e : Entry} (h : (t.sweep now threshold).2 = some e) :
    ∃ front back, t.entries = front ++ e :: back ∧
      (t.sweep now threshold).1.entries = front ++ back := by
  obtain ⟨front, back, hslots, -, -, hresult⟩ := sweep_found h
  exact ⟨_, _, entries_of_slots hslots, entries_of_slots hresult⟩

/-! ### One entry for each address -/

/-- No two entries are about the same neighbor. -/
def Distinct (t : NeighborTable) : Prop := (t.entries.map Entry.address).Nodup

theorem distinct_ofCapacity (n : Nat) : (ofCapacity n).Distinct := by
  have hempty : (ofCapacity n).entries = [] := by simp [entries, ofCapacity]
  simp [Distinct, hempty]

/-- In a row with distinct addresses, an entry is told from the others by its address. -/
theorem mem_others_iff {front back : List Entry} {d e : Entry}
    (h : ((front ++ d :: back).map Entry.address).Nodup) :
    e ∈ front ++ back ↔ e ∈ front ++ d :: back ∧ e.address ≠ d.address := by
  rw [List.map_append, List.map_cons, List.nodup_middle, List.nodup_cons, ← List.map_append] at h
  constructor
  · intro he
    refine ⟨List.mem_append.mpr ((List.mem_append.mp he).imp_right (List.mem_cons_of_mem d)), ?_⟩
    intro haddress
    exact h.1 (haddress ▸ List.mem_map_of_mem he)
  · rintro ⟨he, haddress⟩
    rcases List.mem_append.mp he with hfront | hback
    · exact List.mem_append_left _ hfront
    · rcases List.mem_cons.mp hback with rfl | hback
      · exact absurd rfl haddress
      · exact List.mem_append_right _ hback

theorem Distinct.observe (h : t.Distinct) (a : Address) (now : Instant) :
    (t.observe a now).1.Distinct := by
  rcases observe_entries t a now with ⟨-, front, e, back, hentries, hea, hresult⟩ |
    ⟨-, hunknown, front, back, hentries, hresult⟩ | ⟨-, -, hsame⟩
  · rw [Distinct, hentries] at h
    rw [Distinct, hresult]
    simpa [hea] using h
  · rw [Distinct, hentries, List.map_append] at h
    rw [Distinct, hresult, List.map_append, List.map_cons, List.nodup_middle, List.nodup_cons]
    refine ⟨?_, h⟩
    rw [← List.map_append, ← hentries]
    intro hmem
    obtain ⟨e, he, hea⟩ := List.mem_map.mp hmem
    exact hunknown e he hea
  · rw [hsame]
    exact h

theorem Distinct.sweep (h : t.Distinct) (now : Instant) (threshold : Span) :
    (t.sweep now threshold).1.Distinct := by
  cases hfound : (t.sweep now threshold).2 with
  | none =>
    rw [sweep_eq_of_none hfound]
    exact h
  | some e =>
    obtain ⟨front, back, hentries, hresult⟩ := sweep_entries hfound
    rw [Distinct, hentries] at h
    rw [Distinct, hresult]
    exact h.sublist (((List.Sublist.refl front).append (List.sublist_cons_self e back)).map _)

/-! ### The map afterwards -/

/-- An observation that is not dropped sets the value at its address. -/
theorem mem_entries_observe (h : t.Distinct) (hkept : (t.observe a now).2 ≠ .dropped) {e : Entry} :
    e ∈ (t.observe a now).1.entries ↔ e = ⟨a, now⟩ ∨ e ∈ t.entries ∧ e.address ≠ a := by
  have hplace : ∀ front back : List Entry,
      e ∈ front ++ ⟨a, now⟩ :: back ↔ e = ⟨a, now⟩ ∨ e ∈ front ++ back := by
    intro front back
    simp only [List.mem_append, List.mem_cons]
    exact or_left_comm
  rcases observe_entries t a now with ⟨-, front, d, back, hentries, hda, hresult⟩ |
    ⟨-, hunknown, front, back, hentries, hresult⟩ | ⟨hdropped, -, -⟩
  · rw [Distinct, hentries] at h
    rw [hresult, hplace, mem_others_iff h, hentries, hda]
  · rw [hresult, hplace, ← hentries]
    exact or_congr_right ⟨fun he => ⟨he, hunknown e he⟩, And.left⟩
  · exact absurd hdropped hkept

/-- A sweep that frees a slot takes its address out. -/
theorem mem_entries_sweep (h : t.Distinct) {d e : Entry}
    (hfound : (t.sweep now threshold).2 = some d) :
    e ∈ (t.sweep now threshold).1.entries ↔ e ∈ t.entries ∧ e.address ≠ d.address := by
  obtain ⟨front, back, hentries, hresult⟩ := sweep_entries hfound
  rw [Distinct, hentries] at h
  rw [hresult, hentries, mem_others_iff h]

end NeighborTable

end ObservableTree
