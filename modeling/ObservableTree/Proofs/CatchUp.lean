import ObservableTree.Proofs.Staleness
import ObservableTree.Proofs.Sweeping

/-!
# Making up for missed sweeps

A call of the timers that comes late sweeps again and again. Each sweep that frees a slot uses up one
period, and the first that finds nothing puts the next one off to a period from now. What all of them
do together can be told from the state before the call:

* `NeighborTable.freeFirst` — the first slots that are stale, as many as said, are freed at once;
* `Resource.staleEntries`, `Resource.periodsDue` — what there is to evict, and how many sweeps are due;
* `sweepPasses_of_le`, `sweepPasses_of_drained` — the loop while there is something to evict, and after
  the pass that finds nothing;
* `sweepPasses_end`, `lt_sweepAfter`, `sweepPasses_due` — the end of the loop;
* `sweepDue_closed_form` — when the loop ends, and what it leaves.
-/

namespace ObservableTree

/-! ### Freeing several slots -/

namespace NeighborTable

variable {stale : Entry → Bool}

/-- Frees the first slots whose entries satisfy a test, as many as said. -/
def freeFirst (stale : Entry → Bool) : Nat → List (Option Entry) → List (Option Entry)
  | _, [] => []
  | n, x :: rest =>
    if x.any stale = true ∧ 0 < n then none :: freeFirst stale (n - 1) rest
    else x :: freeFirst stale n rest

theorem freeFirst_zero (slots : List (Option Entry)) : freeFirst stale 0 slots = slots := by
  induction slots with
  | nil => rfl
  | cons x rest ih => simp [freeFirst, ih]

/-- Freeing one more slot. -/
theorem freeIn_freeFirst (n : Nat) (slots : List (Option Entry)) :
    freeIn stale (freeFirst stale n slots) = freeFirst stale (n + 1) slots := by
  induction slots generalizing n with
  | nil => rfl
  | cons x rest ih =>
    cases x with
    | none => simp [freeFirst, freeIn, ih]
    | some e =>
      by_cases he : stale e = true
      · cases n with
        | zero => simp [freeFirst, freeIn, he, freeFirst_zero]
        | succ n => simp [freeFirst, freeIn, he, ih]
      · simp [freeFirst, freeIn, he, ih]

/-- The entries that are left to free. -/
theorem filter_freeFirst (n : Nat) (slots : List (Option Entry)) :
    ((freeFirst stale n slots).filterMap id).filter stale =
      ((slots.filterMap id).filter stale).drop n := by
  induction slots generalizing n with
  | nil => simp [freeFirst]
  | cons x rest ih =>
    rw [freeFirst]
    cases x with
    | none =>
      rw [if_neg fun h => Bool.false_ne_true h.1, List.filterMap_cons_none rfl,
        List.filterMap_cons_none rfl]
      exact ih n
    | some e =>
      rw [List.filterMap_cons_some (f := id) rfl, List.filter_cons]
      by_cases he : stale e = true
      · cases n with
        | zero =>
          rw [if_neg fun h => Nat.lt_irrefl 0 h.2, freeFirst_zero,
            List.filterMap_cons_some (f := id) rfl, List.filter_cons]
          rfl
        | succ n =>
          rw [if_pos ⟨he, Nat.succ_pos n⟩, if_pos he, List.filterMap_cons_none rfl,
            List.drop_succ_cons]
          exact ih n
      · rw [if_neg fun h => he h.1, if_neg he, List.filterMap_cons_some (f := id) rfl,
          List.filter_cons, if_neg he]
        exact ih n

/-- A slot is freed if it is stale and fewer than so many are stale in front of it, and else it stays
as it was. -/
theorem freeFirst_getElem? (n : Nat) (slots : List (Option Entry)) (i : Nat) :
    (freeFirst stale n slots)[i]? =
      if slots[i]?.join.any stale = true ∧ (slots.take i).countP (Option.any stale) < n then some none
      else slots[i]? := by
  induction slots generalizing n i with
  | nil => simp [freeFirst]
  | cons x rest ih =>
    rw [freeFirst]
    cases i with
    | zero => by_cases hx : x.any stale = true ∧ 0 < n <;> simp [hx]
    | succ i =>
      have hcount : ((x :: rest).take (i + 1)).countP (Option.any stale) =
          (rest.take i).countP (Option.any stale) + if x.any stale = true then 1 else 0 := by
        rw [List.take_succ_cons, List.countP_cons]
      rw [List.getElem?_cons_succ, hcount]
      by_cases hx : x.any stale = true
      · by_cases hn : 0 < n
        · have hless : (rest.take i).countP (Option.any stale) < n - 1 ↔
              (rest.take i).countP (Option.any stale) + 1 < n := by omega
          rw [if_pos ⟨hx, hn⟩, List.getElem?_cons_succ, ih, if_pos hx]
          simp only [hless]
        · have hzero : n = 0 := by omega
          subst hzero
          rw [if_neg fun h => hn h.2, List.getElem?_cons_succ, freeFirst_zero]
          simp
      · rw [if_neg fun h => hx h.1, List.getElem?_cons_succ, ih, if_neg hx, Nat.add_zero]

end NeighborTable

/-! ### The loop -/

namespace Resource

open NeighborTable

variable {cfg : Settings} {r : Resource cfg} {now : Instant}

/-- The tracked entries that were silent for too long, in slot order. -/
def staleEntries (r : Resource cfg) (now : Instant) : List Entry :=
  r.tracked.filter (isStale now cfg.staleness)

/-- The number of sweeps that are due at an instant: one when the next sweep is due, and one more for
each whole period since. -/
def periodsDue (r : Resource cfg) (now : Instant) : Nat :=
  if now < r.nextSweep then 0
  else (now.millis - r.nextSweep.millis) / cfg.sweepPeriod.millis + 1

/-- The sweep behind those that have freed so many slots. -/
theorem sweep_freeFirst (r : Resource cfg) (now : Instant) (n : Nat) :
    NeighborTable.sweep ⟨freeFirst (isStale now cfg.staleness) n r.table.slots⟩ now cfg.staleness =
      (⟨freeFirst (isStale now cfg.staleness) (n + 1) r.table.slots⟩, (r.staleEntries now)[n]?) := by
  have hfound : ((freeFirst (isStale now cfg.staleness) n r.table.slots).filterMap id).find?
      (isStale now cfg.staleness) = (r.staleEntries now)[n]? := by
    rw [← List.head?_filter, filter_freeFirst, List.head?_drop]
    rfl
  show (_, _) = _
  rw [freeIn_freeFirst]
  exact congrArg (Prod.mk _) hfound

/-- **While there is something to evict**, each pass evicts the next entry and puts the next sweep off
by a period. -/
theorem sweepPasses_of_le {n : Nat} (h : n ≤ (r.staleEntries now).length) :
    r.sweepPasses now n =
      ⟨⟨freeFirst (isStale now cfg.staleness) n r.table.slots⟩,
        .ofMillis (r.nextSweep.millis + n * cfg.sweepPeriod.millis), (r.staleEntries now).take n⟩ := by
  induction n with
  | zero =>
    rw [freeFirst_zero, Nat.zero_mul, Nat.add_zero, Instant.ofMillis_self]
    rfl
  | succ n ih =>
    have hnext : (r.staleEntries now)[n]? = some (r.staleEntries now)[n] :=
      List.getElem?_eq_getElem h
    have htake : (r.staleEntries now).take (n + 1) =
        (r.staleEntries now).take n ++ [(r.staleEntries now)[n]] := by
      rw [List.take_add_one, hnext]
      rfl
    rw [sweepPasses_succ, ih (Nat.le_of_succ_le h)]
    simp only [sweepPass, sweep_freeFirst, hnext, Instant.ofMillis_after]
    rw [htake, Nat.succ_mul, Nat.add_assoc]

/-- **When there is nothing left to evict**, the next pass puts the next sweep off to a period from
now. -/
theorem sweepPasses_of_drained (r : Resource cfg) (now : Instant) :
    r.sweepPasses now ((r.staleEntries now).length + 1) =
      ⟨⟨freeFirst (isStale now cfg.staleness) (r.staleEntries now).length r.table.slots⟩,
        now + cfg.sweepPeriod, r.staleEntries now⟩ := by
  have hnone : (r.staleEntries now)[(r.staleEntries now).length]? = none :=
    List.getElem?_eq_none (Nat.le_refl _)
  have hswept := sweep_freeFirst r now (r.staleEntries now).length
  rw [hnone] at hswept
  rw [sweepPasses_succ, sweepPasses_of_le (Nat.le_refl _), List.take_length]
  simp only [sweepPass, hswept, table_of_sweep_none hswept]

/-! ### The end of the loop -/

/-- So many periods have passed since the next sweep was due. -/
theorem mul_le_of_lt_periodsDue {j : Nat} (h : j < r.periodsDue now) :
    r.nextSweep.millis + j * cfg.sweepPeriod.millis ≤ now.millis := by
  unfold periodsDue at h
  by_cases hbefore : now < r.nextSweep
  · rw [if_pos hbefore] at h
    exact absurd h (Nat.not_lt_zero j)
  · rw [if_neg hbefore] at h
    rw [Instant.lt_iff, Nat.not_lt] at hbefore
    have hle := Nat.mul_le_of_le_div _ _ _ (Nat.le_of_lt_succ h)
    omega

/-- With one period for each sweep that is due, the next one lies beyond the instant. -/
theorem lt_mul_periodsDue (hperiod : 0 < cfg.sweepPeriod.millis) (r : Resource cfg) (now : Instant) :
    now.millis < r.nextSweep.millis + r.periodsDue now * cfg.sweepPeriod.millis := by
  unfold periodsDue
  by_cases hbefore : now < r.nextSweep
  · rw [if_pos hbefore, Nat.zero_mul]
    exact hbefore
  · have hlt := Nat.lt_mul_div_succ (now.millis - r.nextSweep.millis) hperiod
    rw [Nat.mul_comm] at hlt
    rw [if_neg hbefore]
    omega

/-- The instant of the next sweep when the loop ends. -/
def sweepAfter (r : Resource cfg) (now : Instant) : Instant :=
  if r.periodsDue now = 0 then r.nextSweep
  else if r.periodsDue now ≤ (r.staleEntries now).length then
    .ofMillis (r.nextSweep.millis + r.periodsDue now * cfg.sweepPeriod.millis)
  else now + cfg.sweepPeriod

/-- **The end of the loop**: the first of the stale entries have been evicted, one for each sweep that
was due, or all of them. -/
theorem sweepPasses_end (r : Resource cfg) (now : Instant) :
    r.sweepPasses now (min (r.periodsDue now) ((r.staleEntries now).length + 1)) =
      ⟨⟨freeFirst (isStale now cfg.staleness) (min (r.periodsDue now) (r.staleEntries now).length)
          r.table.slots⟩, r.sweepAfter now,
        (r.staleEntries now).take (min (r.periodsDue now) (r.staleEntries now).length)⟩ := by
  unfold sweepAfter
  by_cases hfew : r.periodsDue now ≤ (r.staleEntries now).length
  · rw [Nat.min_eq_left hfew, Nat.min_eq_left (Nat.le_succ_of_le hfew), sweepPasses_of_le hfew,
      if_pos hfew]
    by_cases hnone : r.periodsDue now = 0
    · rw [if_pos hnone, hnone, Nat.zero_mul, Nat.add_zero, Instant.ofMillis_self]
    · rw [if_neg hnone]
  · have hmany : (r.staleEntries now).length < r.periodsDue now := Nat.lt_of_not_le hfew
    have hsome : ¬r.periodsDue now = 0 := by omega
    rw [Nat.min_eq_right (Nat.le_of_lt hmany), Nat.min_eq_right hmany, sweepPasses_of_drained,
      List.take_length, if_neg hsome, if_neg hfew]

theorem lt_sweepAfter (hperiod : 0 < cfg.sweepPeriod.millis) (hlast : now < .last)
    (r : Resource cfg) : now < r.sweepAfter now := by
  have hend := lt_mul_periodsDue hperiod r now
  unfold sweepAfter
  split
  · next hnone =>
    rw [hnone, Nat.zero_mul] at hend
    exact hend
  · split
    · rw [Instant.lt_last_iff] at hlast
      show now.millis < min _ lastMilli
      omega
    · exact Instant.lt_after hlast hperiod

/-- Until then the next sweep is due. -/
theorem sweepPasses_due {j : Nat}
    (h : j < min (r.periodsDue now) ((r.staleEntries now).length + 1)) :
    (r.sweepPasses now j).nextSweep ≤ now := by
  rw [Nat.lt_min] at h
  rw [sweepPasses_of_le (Nat.le_of_lt_succ h.2)]
  exact Nat.le_trans (Nat.min_le_left _ _) (mul_le_of_lt_periodsDue h.1)

/-- **The sweeps of one call, in closed form.** Let some entries be stale at the instant of the call, and
let a sweep be due for the next sweep and one for each whole period since. Then the loop ends after as
many passes as sweeps are due, but after no more than one for each stale entry and one; the call does
what the loop does. Evicted are the first of the stale entries, in the order of the slots, one for
each sweep that is due, or all of them. A slot is freed exactly if its entry is one of these, and every
other slot stays as it was; so no entry that was heard within the threshold is lost. The next sweep is
as it was if none is due; it is put off by a period for each sweep that is due if there are as many
stale entries, and to a period from now if not; and it always lies beyond the instant of the call. -/
theorem sweepDue_closed_form (r : Resource cfg) (now : Instant)
    (hperiod : 0 < cfg.sweepPeriod.millis) (hlast : now < .last) :
    let stale := r.staleEntries now
    let due := r.periodsDue now
    let passes := min due (stale.length + 1)
    let loop := r.sweepPasses now passes
    ((∀ j < passes, (r.sweepPasses now j).nextSweep ≤ now) ∧ now < loop.nextSweep) ∧
    r.sweepDue? now =
      some ({ r with table := loop.table, nextSweep := loop.nextSweep }, loop.evicted) ∧
    ((r.onTimer now).state.table = loop.table ∧ (r.onTimer now).state.nextSweep = loop.nextSweep) ∧
    loop.evicted = stale.take (min due stale.length) ∧
    (∀ i : Nat, loop.table.slots[i]? =
      if r.table.slots[i]?.join.any (isStale now cfg.staleness) = true ∧
        (r.table.slots.take i).countP (Option.any (isStale now cfg.staleness)) < min due stale.length
      then some none else r.table.slots[i]?) ∧
    (∀ (i : Nat) (e : Entry), r.table.slots[i]? = some (some e) → now - e.lastSeen ≤ cfg.staleness →
      loop.table.slots[i]? = some (some e)) ∧
    loop.nextSweep.millis =
      if due = 0 then r.nextSweep.millis
      else if due ≤ stale.length then
        min (r.nextSweep.millis + due * cfg.sweepPeriod.millis) lastMilli
      else min (now.millis + cfg.sweepPeriod.millis) lastMilli := by
  intro stale due passes loop
  have hend : loop = _ := sweepPasses_end r now
  have hgo : ∀ j < passes, (r.sweepPasses now j).nextSweep ≤ now := fun j hj => sweepPasses_due hj
  have hstop : now < loop.nextSweep := by
    rw [hend]
    exact lt_sweepAfter hperiod hlast r
  have hrounds : passes ≤ r.table.length + 1 := by
    have hstale : stale.length ≤ r.table.length := List.length_filter_le _ r.tracked
    omega
  have hloop : sweepRounds cfg now (r.table.length + 1) ⟨r.table, r.nextSweep, []⟩ = some loop :=
    sweepRounds_of_passes hrounds hgo hstop
  have hcall : r.sweepDue? now =
      some ({ r with table := loop.table, nextSweep := loop.nextSweep }, loop.evicted) := by
    rw [sweepDue?, hloop]
    rfl
  have hslots : loop.table.slots =
      freeFirst (isStale now cfg.staleness) (min due stale.length) r.table.slots := by rw [hend]
  have htimer : (r.onTimer now).state.table = loop.table ∧
      (r.onTimer now).state.nextSweep = loop.nextSweep := by
    rw [onTimer]
    rcases onTimer?_of_swept hcall with ⟨-, hx⟩ | ⟨-, hx⟩
    · rw [hx]
      exact ⟨rfl, rfl⟩
    · rw [hx]
      exact ⟨rfl, rfl⟩
  refine ⟨⟨hgo, hstop⟩, hcall, htimer, by rw [hend], ?_, ?_, ?_⟩
  · intro i
    rw [hslots]
    exact freeFirst_getElem? _ r.table.slots i
  · intro i e he hheard
    have hfresh : ¬isStale now cfg.staleness e = true := by
      rw [isStale, decide_eq_true_iff]
      exact Nat.not_lt.mpr hheard
    rw [hslots, freeFirst_getElem?, he, if_neg fun h => hfresh h.1]
  · rw [hend]
    show (r.sweepAfter now).millis = _
    unfold sweepAfter
    split
    · rfl
    · split <;> rfl

/-- Three of four neighbors are stale, but only two sweeps are due: the first two of the three lose
their slots, one in front of and one behind the neighbor that was heard and a free slot, and the next
sweep is put off by two periods. -/
theorem sweepDue_closed_form_of_three :
    let cfg : Settings := ⟨5, .ofMillis 5, .ofMillis 5, .ofMillis 2⟩
    let near : UInt16 → Nat → Entry := fun n seen => ⟨.ofGroups 65152 0 0 0 0 0 0 n, .ofMillis seen⟩
    let r : Resource cfg := { startingAt cfg (.ofMillis 5) with
      table := ⟨[some (near 1 0), some (near 2 9), none, some (near 3 4), some (near 4 1)]⟩ }
    let now : Instant := .ofMillis 10
    0 < cfg.sweepPeriod.millis ∧ now < .last ∧
      (r.periodsDue now = 2 ∧ r.staleEntries now = [near 1 0, near 3 4, near 4 1]) ∧
      ∃ swept, r.sweepDue? now = some (swept, [near 1 0, near 3 4]) ∧ swept.nextSweep.millis = 11 := by
  intro cfg near r now
  have hperiod : 0 < cfg.sweepPeriod.millis := by decide
  have hlast : now < .last := by decide
  have hdue : r.periodsDue now = 2 := by decide
  have hstale : r.staleEntries now = [near 1 0, near 3 4, near 4 1] := by decide
  obtain ⟨-, hcall, -, hevicted, -, -, hnext⟩ := sweepDue_closed_form r now hperiod hlast
  refine ⟨hperiod, hlast, ⟨hdue, hstale⟩, _,
    hcall.trans (congrArg (fun evicted => some (_, evicted)) ?_), ?_⟩
  · rw [hevicted, hdue, hstale]
    rfl
  · show (r.sweepPasses now _).nextSweep.millis = _
    rw [hnext, hdue, hstale]
    decide

end Resource

end ObservableTree
