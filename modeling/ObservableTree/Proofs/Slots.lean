import ObservableTree.Neighbor.Table

/-!
# One slot at a time

An observation and a sweep change at most one slot, and the other neighbors stay where they are:

* `replaceFirst` — what the operations on slots have in common;
* `observe_cases`, `observe_slots` — an observation leaves the table as it is, or puts its entry into
  one slot, which was free or held the same neighbor;
* `sweep_slots` — a sweep frees the first slot that is stale, or finds none;
* `entry_of_replaced` — where an entry stands when one slot was replaced.
-/

namespace ObservableTree

namespace NeighborTable

/-! ### Replacing the first slot that fits -/

/-- Puts something into the first slot that satisfies a test. -/
def replaceFirst (fits : Option Entry → Bool) (new : Option Entry) :
    List (Option Entry) → List (Option Entry)
  | [] => []
  | x :: rest => if fits x then new :: rest else x :: replaceFirst fits new rest

theorem refreshIn_eq (a : Address) (now : Instant) (slots : List (Option Entry)) :
    refreshIn a now slots =
      replaceFirst (fun x => x.any fun e => e.address = a) (some ⟨a, now⟩) slots := by
  fun_induction refreshIn a now slots with
  | case1 => rfl
  | case2 e rest h => simp [replaceFirst, h]
  | case3 e rest h ih => simp [replaceFirst, h, ih]
  | case4 rest ih => simp [replaceFirst, ih]

theorem claimIn_eq (e : Entry) (slots : List (Option Entry)) :
    claimIn e slots = replaceFirst Option.isNone (some e) slots := by
  fun_induction claimIn e slots with
  | case1 => rfl
  | case2 d rest ih => simp [replaceFirst, ih]
  | case3 rest => simp [replaceFirst]

theorem freeIn_eq (stale : Entry → Bool) (slots : List (Option Entry)) :
    freeIn stale slots = replaceFirst (fun x => x.any stale) none slots := by
  fun_induction freeIn stale slots with
  | case1 => rfl
  | case2 e rest h => simp [replaceFirst, h]
  | case3 e rest h ih => simp [replaceFirst, h, ih]
  | case4 rest ih => simp [replaceFirst, ih]

theorem replaceFirst_split (fits : Option Entry → Bool) (new : Option Entry)
    {slots : List (Option Entry)} (h : ∃ x ∈ slots, fits x = true) :
    ∃ front old back, slots = front ++ old :: back ∧ fits old = true ∧
      (∀ x ∈ front, fits x = false) ∧ replaceFirst fits new slots = front ++ new :: back := by
  induction slots with
  | nil =>
    obtain ⟨x, hx, -⟩ := h
    exact absurd hx List.not_mem_nil
  | cons x rest ih =>
    by_cases hx : fits x = true
    · refine ⟨[], x, rest, rfl, hx, fun y hy => absurd hy List.not_mem_nil, ?_⟩
      rw [replaceFirst, if_pos hx]
      rfl
    · have hrest : ∃ y ∈ rest, fits y = true := by
        obtain ⟨y, hy, hfits⟩ := h
        rcases List.mem_cons.mp hy with rfl | hy
        · exact absurd hfits hx
        · exact ⟨y, hy, hfits⟩
      obtain ⟨front, old, back, hslots, hold, hfront, hresult⟩ := ih hrest
      refine ⟨x :: front, old, back, by rw [hslots]; rfl, hold, ?_, ?_⟩
      · intro y hy
        rcases List.mem_cons.mp hy with rfl | hy
        · exact Bool.eq_false_iff.mpr hx
        · exact hfront y hy
      · rw [replaceFirst, if_neg hx, hresult]
        rfl

/-! ### Observing and sweeping -/

theorem contains_iff {t : NeighborTable} {a : Address} :
    t.contains a = true ↔ ∃ e ∈ t.entries, e.address = a := by
  simp [contains, lastSeen?, List.find?_isSome]

theorem isFull_iff {t : NeighborTable} : t.isFull = true ↔ none ∉ t.slots := by
  rw [isFull, List.all_eq_true]
  constructor
  · intro h hnone
    exact absurd (h none hnone) (by decide)
  · intro h x hx
    cases x with
    | none => exact absurd hx h
    | some e => rfl

/-- **The three outcomes** of an observation: it replaces the entry of the neighbor, or it fills the
first free slot, or it leaves a full table as it is. -/
theorem observe_cases (t : NeighborTable) (a : Address) (now : Instant) :
    ((t.observe a now).2 = .refreshed ∧ ∃ front e back, t.slots = front ++ some e :: back ∧
        e.address = a ∧ (t.observe a now).1.slots = front ++ some ⟨a, now⟩ :: back) ∨
      ((t.observe a now).2 = .inserted ∧ (∀ e ∈ t.entries, e.address ≠ a) ∧
        ∃ front back, t.slots = front ++ none :: back ∧
          (t.observe a now).1.slots = front ++ some ⟨a, now⟩ :: back) ∨
      ((t.observe a now).2 = .dropped ∧ (∀ e ∈ t.entries, e.address ≠ a) ∧
        (t.observe a now).1 = t) := by
  unfold observe
  by_cases hknown : t.contains a = true
  · rw [if_pos hknown, refreshIn_eq]
    obtain ⟨e, he, hea⟩ := contains_iff.mp hknown
    obtain ⟨front, old, back, hslots, hold, -, hresult⟩ :=
      replaceFirst_split (fun x => x.any fun e => e.address = a) (some ⟨a, now⟩)
        ⟨some e, mem_entries.mp he, decide_eq_true hea⟩
    cases old with
    | none => cases hold
    | some d => exact .inl ⟨rfl, front, d, back, hslots, of_decide_eq_true hold, hresult⟩
  · have hunknown : ∀ e ∈ t.entries, e.address ≠ a := by
      intro e he hea
      exact hknown (contains_iff.mpr ⟨e, he, hea⟩)
    rw [if_neg hknown]
    by_cases hfull : t.isFull = true
    · rw [if_pos hfull]
      exact .inr (.inr ⟨rfl, hunknown, rfl⟩)
    · rw [if_neg hfull, claimIn_eq]
      rw [isFull_iff, Classical.not_not] at hfull
      obtain ⟨front, old, back, hslots, hold, -, hresult⟩ :=
        replaceFirst_split Option.isNone (some ⟨a, now⟩) ⟨none, hfull, rfl⟩
      rw [Option.isNone_iff_eq_none.mp hold] at hslots
      exact .inr (.inl ⟨rfl, hunknown, front, back, hslots, hresult⟩)

/-- An observation leaves the table as it is, or puts its entry into one slot, which was free or
held the same neighbor. -/
theorem observe_slots (t : NeighborTable) (a : Address) (now : Instant) :
    (t.observe a now).1 = t ∨
      ∃ front old back, t.slots = front ++ old :: back ∧ (∀ e, old = some e → e.address = a) ∧
        (t.observe a now).1.slots = front ++ some ⟨a, now⟩ :: back := by
  rcases observe_cases t a now with ⟨-, front, e, back, hslots, hea, hresult⟩ |
    ⟨-, -, front, back, hslots, hresult⟩ | ⟨-, -, hsame⟩
  · refine .inr ⟨front, some e, back, hslots, ?_, hresult⟩
    intro d hd
    rw [← Option.some.inj hd]
    exact hea
  · exact .inr ⟨front, none, back, hslots, by simp, hresult⟩
  · exact .inl hsame

/-- A sweep frees the first slot that is stale, or finds none and leaves the table as it is. -/
theorem sweep_slots (t : NeighborTable) (now : Instant) (threshold : Span) :
    ((t.sweep now threshold).1 = t ∧ ∀ e ∈ t.entries, isStale now threshold e = false) ∨
      ∃ front e back, t.slots = front ++ some e :: back ∧ isStale now threshold e = true ∧
        (∀ d, some d ∈ front → isStale now threshold d = false) ∧
        (t.sweep now threshold).1.slots = front ++ none :: back := by
  by_cases hstale : ∃ e ∈ t.entries, isStale now threshold e = true
  · obtain ⟨e, he, hes⟩ := hstale
    obtain ⟨front, old, back, hslots, hold, hfront, hresult⟩ :=
      replaceFirst_split (fun x => x.any (isStale now threshold)) none
        ⟨some e, mem_entries.mp he, hes⟩
    cases old with
    | none => cases hold
    | some d =>
      refine .inr ⟨front, d, back, hslots, hold, fun c hc => hfront (some c) hc, ?_⟩
      rw [sweep, freeIn_eq, hresult]
  · have hnone : ∀ e ∈ t.entries, isStale now threshold e = false := by
      intro e he
      rw [← Bool.not_eq_true]
      exact fun h => hstale ⟨e, he, h⟩
    refine .inl ⟨sweep_eq_of_none ?_, hnone⟩
    exact List.find?_eq_none.mpr fun e he => by rw [hnone e he]; decide

/-! ### Places -/

/-- An entry of a row in which one slot was replaced stands in front of that slot, in it, or behind
it. -/
theorem entry_of_replaced {front back before behind : List (Option Entry)} {new : Option Entry}
    {e : Entry} (h : front ++ new :: back = before ++ some e :: behind) :
    (∃ middle, front = before ++ some e :: middle) ∨ (before = front ∧ new = some e) ∨
      ∃ middle, before = front ++ new :: middle ∧ back = middle ++ some e :: behind := by
  rcases List.append_eq_append_iff.mp h with ⟨middle, hbefore, hback⟩ | ⟨middle, hfront, hbehind⟩
  · cases middle with
    | nil =>
      rw [List.append_nil] at hbefore
      exact .inr (.inl ⟨hbefore, (List.cons.inj hback).1⟩)
    | cons x middle =>
      obtain ⟨hx, hback⟩ := List.cons.inj hback
      exact .inr (.inr ⟨middle, by rw [hbefore, hx], hback⟩)
  · cases middle with
    | nil =>
      rw [List.append_nil] at hfront
      exact .inr (.inl ⟨hfront.symm, (List.cons.inj hbehind).1.symm⟩)
    | cons x middle =>
      obtain ⟨hx, -⟩ := List.cons.inj hbehind
      exact .inl ⟨middle, by rw [hfront, hx]⟩

theorem mem_entries_of_observe {t : NeighborTable} {a : Address} {now : Instant} {e : Entry}
    (h : e ∈ (t.observe a now).1.entries) : e ∈ t.entries ∨ e = ⟨a, now⟩ := by
  rcases observe_slots t a now with hsame | ⟨front, old, back, hslots, -, hresult⟩
  · exact .inl (hsame ▸ h)
  · rw [mem_entries, hresult, List.mem_append, List.mem_cons] at h
    rw [mem_entries, hslots, List.mem_append, List.mem_cons]
    rcases h with hfront | hnew | hback
    · exact .inl (.inl hfront)
    · exact .inr (Option.some.inj hnew)
    · exact .inl (.inr (.inr hback))

theorem mem_entries_of_sweep {t : NeighborTable} {now : Instant} {threshold : Span} {e : Entry}
    (h : e ∈ (t.sweep now threshold).1.entries) : e ∈ t.entries := by
  rcases sweep_slots t now threshold with ⟨hsame, -⟩ | ⟨front, d, back, hslots, -, -, hresult⟩
  · exact hsame ▸ h
  · rw [mem_entries, hresult, List.mem_append, List.mem_cons] at h
    rw [mem_entries, hslots, List.mem_append, List.mem_cons]
    rcases h with hfront | hfreed | hback
    · exact .inl hfront
    · cases hfreed
    · exact .inr (.inr hback)

end NeighborTable

end ObservableTree
