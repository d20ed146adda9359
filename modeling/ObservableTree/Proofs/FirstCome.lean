import ObservableTree.Proofs.BoundedMap

/-!
# First come, first tracked

Where nothing is swept, nobody makes room. The neighbors that are tracked are then those who were heard
first, however often the others are heard later:

* `firstHeard`, `lastHeard?` — who was heard, in the order of first appearance, and when each was heard
  last; `heardBefore` — what was heard before an address was heard for the first time;
* `NeighborTable.observeAll` — a run of observations;
* `packed` — entries in the front slots, and free slots behind them, which observations keep;
* `observeAll_eq` — the slots after a run of observations from a table of free slots;
* `observe_dropped_iff`, `beyond_iff_heardBefore` — an observation is dropped if all slots went to others
  before its address was heard for the first time;
* `observeAll_first_come` — hence the table lists those who came first, and the others are dropped.
-/

namespace ObservableTree

/-! ### What was heard -/

/-- Who was heard, in the order of first appearance. -/
def firstHeard (heard : List Entry) : List Address := (heard.map Entry.address).eraseDups

/-- When an address was heard last. -/
def lastHeard? (heard : List Entry) (a : Address) : Option Instant :=
  (heard.reverse.find? fun e => e.address = a).map Entry.lastSeen

variable {heard front back : List Entry} {e : Entry} {a : Address} {n : Nat}

theorem mem_firstHeard_iff : a ∈ firstHeard heard ↔ ∃ e ∈ heard, e.address = a := by
  rw [firstHeard, List.mem_eraseDups, List.mem_map]

/-- Whoever is heard anew comes behind all that were heard before. -/
theorem firstHeard_new (h : ∀ d ∈ front, d.address ≠ e.address) (back : List Entry) :
    ∃ later, firstHeard (front ++ e :: back) = firstHeard front ++ e.address :: later := by
  have hnew : e.address ∉ front.map Entry.address := by
    intro hmem
    obtain ⟨d, hd, hsame⟩ := List.mem_map.mp hmem
    exact h d hd hsame
  rw [firstHeard, List.map_append, List.eraseDups_append, List.map_cons, List.removeAll,
    List.filter_cons_of_pos (by simpa using hnew), List.eraseDups_cons]
  exact ⟨_, rfl⟩

theorem firstHeard_snoc_of_new (h : e.address ∉ firstHeard heard) :
    firstHeard (heard ++ [e]) = firstHeard heard ++ [e.address] := by
  rw [firstHeard, List.mem_eraseDups] at h
  rw [firstHeard, List.map_append, List.eraseDups_append, List.map_singleton, List.removeAll,
    List.filter_cons_of_pos (by simpa using h)]
  rfl

theorem firstHeard_snoc_of_known (h : e.address ∈ firstHeard heard) :
    firstHeard (heard ++ [e]) = firstHeard heard := by
  rw [firstHeard, List.mem_eraseDups] at h
  rw [firstHeard, List.map_append, List.eraseDups_append, List.map_singleton, List.removeAll,
    List.filter_cons_of_neg (by simpa using h)]
  exact List.append_nil _

theorem firstHeard_length_le (heard : List Entry) (e : Entry) :
    (firstHeard heard).length ≤ (firstHeard (heard ++ [e])).length := by
  by_cases h : e.address ∈ firstHeard heard
  · rw [firstHeard_snoc_of_known h]
  · rw [firstHeard_snoc_of_new h, List.length_append]
    exact Nat.le_add_right _ _

theorem firstHeard_nodup (heard : List Entry) : (firstHeard heard).Nodup := by
  induction heard using List.reverseRecOn with
  | nil => exact List.nodup_nil
  | append_singleton heard e ih =>
    by_cases h : e.address ∈ firstHeard heard
    · rw [firstHeard_snoc_of_known h]
      exact ih
    · rw [firstHeard_snoc_of_new h, ← List.concat_eq_append]
      exact List.Nodup.concat h ih

theorem lastHeard?_snoc (heard : List Entry) (e : Entry) (a : Address) :
    lastHeard? (heard ++ [e]) a = if e.address = a then some e.lastSeen else lastHeard? heard a := by
  rw [lastHeard?, List.reverse_append, List.reverse_singleton, List.singleton_append]
  by_cases h : e.address = a
  · rw [if_pos h, List.find?_cons_of_pos (by simpa using h), Option.map_some]
  · rw [if_neg h, List.find?_cons_of_neg (by simpa using h), lastHeard?]

theorem lastHeard?_isSome (h : a ∈ firstHeard heard) : (lastHeard? heard a).isSome := by
  rw [lastHeard?, Option.isSome_map, List.find?_isSome]
  obtain ⟨e, he, hea⟩ := mem_firstHeard_iff.mp h
  exact ⟨e, List.mem_reverse.mpr he, decide_eq_true hea⟩

/-! ### Who came before -/

/-- The observations in front of the first one of an address. -/
def heardBefore (heard : List Entry) (a : Address) : List Entry :=
  heard.takeWhile fun d => d.address ≠ a

theorem heardBefore_append (front : List Entry) (e : Entry) (back : List Entry) :
    heardBefore (front ++ e :: back) e.address = heardBefore front e.address := by
  induction front with
  | nil => exact List.takeWhile_cons_of_neg (by simp)
  | cons d front ih =>
    rw [heardBefore, List.cons_append, List.takeWhile_cons, heardBefore, List.takeWhile_cons]
    split
    · exact congrArg (d :: ·) ih
    · rfl

theorem ne_of_mem_heardBefore {d : Entry} (h : d ∈ heardBefore heard a) : d.address ≠ a := by
  have hall := List.all_eq_true.mp (List.all_takeWhile (l := heard)) d h
  simpa using hall

/-- What is behind the others in front of an address starts with that address. -/
theorem heardBefore_split (heard : List Entry) (a : Address) :
    heard = heardBefore heard a ∨
      ∃ first rest, heard = heardBefore heard a ++ first :: rest ∧ first.address = a := by
  have hall : heardBefore heard a ++ heard.dropWhile (fun d => d.address ≠ a) = heard :=
    List.takeWhile_append_dropWhile
  cases hrest : heard.dropWhile fun d => d.address ≠ a with
  | nil =>
    rw [hrest, List.append_nil] at hall
    exact .inl hall.symm
  | cons first rest =>
    have hfirst := List.head?_dropWhile_not (fun d : Entry => decide (d.address ≠ a)) heard
    rw [hrest] at hall hfirst
    exact .inr ⟨first, rest, hall.symm, by simpa using hfirst⟩

/-- Whoever is heard anew is among the first if there is a slot left behind those heard before. -/
theorem mem_take_firstHeard_iff (h : ∀ d ∈ front, d.address ≠ e.address) (back : List Entry) :
    e.address ∈ (firstHeard (front ++ e :: back)).take n ↔ (firstHeard front).length < n := by
  obtain ⟨later, hall⟩ := firstHeard_new h back
  have hnew : e.address ∉ firstHeard front := by
    rw [mem_firstHeard_iff]
    exact fun ⟨d, hd, hsame⟩ => h d hd hsame
  rw [hall, List.take_append, List.mem_append]
  constructor
  · rintro (hfront | hlater)
    · exact absurd (List.mem_of_mem_take hfront) hnew
    · by_contra hnone
      rw [Nat.sub_eq_zero_of_le (Nat.not_lt.mp hnone)] at hlater
      cases hlater
  · intro hroom
    obtain ⟨k, hk⟩ := Nat.exists_eq_add_of_lt hroom
    refine .inr ?_
    have hroom' : n - (firstHeard front).length = k + 1 := by omega
    rw [hroom', List.take_succ_cons]
    exact List.mem_cons_self

/-- Whoever finds no slot is behind the last slot from the first observation on. -/
theorem beyond_iff_heardBefore (n : Nat) (heard : List Entry) (a : Address) :
    (a ∉ (firstHeard heard).take n ∧ n ≤ (firstHeard heard).length) ↔
      n ≤ (firstHeard (heardBefore heard a)).length := by
  rcases heardBefore_split heard a with hnone | ⟨first, rest, hsplit, hfirst⟩
  · have hnew : a ∉ firstHeard heard := by
      rw [mem_firstHeard_iff, hnone]
      exact fun ⟨d, hd, hsame⟩ => ne_of_mem_heardBefore hd hsame
    rw [← hnone]
    exact and_iff_right fun h => hnew (List.mem_of_mem_take h)
  · have hothers : ∀ d ∈ heardBefore heard a, d.address ≠ first.address := by
      rw [hfirst]
      exact fun d hd => ne_of_mem_heardBefore hd
    obtain ⟨later, hall⟩ := firstHeard_new hothers rest
    have hplace := mem_take_firstHeard_iff (n := n) hothers rest
    rw [← hsplit] at hall hplace
    rw [← hfirst, hplace, hfirst, hall, List.length_append]
    omega

/-! ### Slots that fill from the front -/

namespace NeighborTable

/-- Entries in the front slots, and free slots behind them. -/
def packed (entries : List Entry) (free : Nat) : List (Option Entry) :=
  entries.map some ++ List.replicate free none

theorem entries_packed (entries : List Entry) (free : Nat) :
    (⟨packed entries free⟩ : NeighborTable).entries = entries := by
  show (packed entries free).filterMap id = entries
  simp [packed]

theorem refreshIn_replicate (a : Address) (now : Instant) (free : Nat) :
    refreshIn a now (List.replicate free none) = List.replicate free none := by
  induction free with
  | zero => rfl
  | succ free ih => rw [List.replicate_succ, refreshIn, ih]

/-- In packed slots, the entry of an address is refreshed where it stands. -/
theorem refreshIn_packed {entries : List Entry} (h : (entries.map Entry.address).Nodup) (a : Address)
    (now : Instant) (free : Nat) :
    refreshIn a now (packed entries free) =
      packed (entries.map fun d => if d.address = a then ⟨a, now⟩ else d) free := by
  induction entries with
  | nil => exact refreshIn_replicate a now free
  | cons d entries ih =>
    obtain ⟨hother, hrest⟩ := List.nodup_cons.mp h
    show refreshIn a now (some d :: packed entries free) =
      some (if d.address = a then ⟨a, now⟩ else d) :: packed _ free
    rw [refreshIn]
    by_cases hd : d.address = a
    · have hsame : (entries.map fun c => if c.address = a then (⟨a, now⟩ : Entry) else c) = entries := by
        rw [List.map_congr_left (g := id), List.map_id]
        intro c hc
        exact if_neg fun hca => hother (List.mem_map.mpr ⟨c, hc, hca.trans hd.symm⟩)
      rw [if_pos hd, if_pos hd, hsame]
    · rw [if_neg hd, if_neg hd, ih hrest]

/-- In packed slots, a new entry comes behind the others. -/
theorem claimIn_packed (e : Entry) (entries : List Entry) (free : Nat) :
    claimIn e (packed entries (free + 1)) = packed (entries ++ [e]) free := by
  induction entries with
  | nil => rfl
  | cons d entries ih =>
    show claimIn e (some d :: packed entries (free + 1)) = some d :: packed (entries ++ [e]) free
    rw [claimIn, ih]

theorem isFull_packed (entries : List Entry) (free : Nat) :
    (⟨packed entries free⟩ : NeighborTable).isFull = true ↔ free = 0 := by
  rw [isFull_iff]
  show none ∉ packed entries free ↔ _
  simp [packed]

theorem contains_packed (entries : List Entry) (free : Nat) (a : Address) :
    (⟨packed entries free⟩ : NeighborTable).contains a = true ↔ a ∈ entries.map Entry.address := by
  rw [contains_iff, entries_packed, List.mem_map]

/-! ### Runs of observations -/

/-- The table after a run of observations. -/
def observeAll (t : NeighborTable) (heard : List Entry) : NeighborTable :=
  t.afterAll (heard.map fun e => .observe e.address e.lastSeen)

theorem observeAll_snoc (t : NeighborTable) (heard : List Entry) (e : Entry) :
    t.observeAll (heard ++ [e]) = ((t.observeAll heard).observe e.address e.lastSeen).1 := by
  rw [observeAll, afterAll, List.map_append, List.foldl_append]
  rfl

/-- Those who came first, as many as there are slots, with the time of their last observation. -/
def firstCome (n : Nat) (heard : List Entry) : List Entry :=
  ((firstHeard heard).take n).map fun a => ⟨a, (lastHeard? heard a).getD .boot⟩

theorem firstCome_addresses (n : Nat) (heard : List Entry) :
    (firstCome n heard).map Entry.address = (firstHeard heard).take n := by
  rw [firstCome, List.map_map]
  exact List.map_id _

/-- An observation of one who came first gives the entry another time. -/
theorem firstCome_snoc_of_mem (h : e.address ∈ (firstHeard heard).take n) :
    firstCome n (heard ++ [e]) = (firstCome n heard).map fun d =>
      if d.address = e.address then ⟨e.address, e.lastSeen⟩ else d := by
  rw [firstCome, firstHeard_snoc_of_known (List.mem_of_mem_take h), firstCome, List.map_map]
  refine List.map_congr_left fun a _ => ?_
  show (⟨a, (lastHeard? (heard ++ [e]) a).getD .boot⟩ : Entry) = if a = e.address then _ else _
  rw [lastHeard?_snoc]
  by_cases ha : a = e.address
  · rw [if_pos ha, if_pos ha.symm, ha]
    rfl
  · rw [if_neg ha, if_neg fun h => ha h.symm]

/-- An observation of anyone else leaves the entries of those who came first as they are, and comes
behind them if there is room. -/
theorem firstCome_snoc_of_notMem (h : e.address ∉ (firstHeard heard).take n) :
    firstCome n (heard ++ [e]) =
      if (firstHeard heard).length < n then firstCome n heard ++ [e] else firstCome n heard := by
  have hold : ((firstHeard heard).take n).map (fun a =>
      (⟨a, (lastHeard? (heard ++ [e]) a).getD .boot⟩ : Entry)) = firstCome n heard := by
    refine List.map_congr_left fun a ha => ?_
    have hne : e.address ≠ a := fun hsame => h (hsame ▸ ha)
    rw [lastHeard?_snoc, if_neg hne]
  by_cases hroom : (firstHeard heard).length < n
  · -- with room for more, everyone who was heard is among the first
    have hall : (firstHeard heard).take n = firstHeard heard :=
      List.take_of_length_le (Nat.le_of_lt hroom)
    have hmore : (firstHeard heard ++ [e.address]).length ≤ n := by
      rw [List.length_append]
      exact hroom
    rw [hall] at h hold
    rw [if_pos hroom, ← hold, firstCome, firstHeard_snoc_of_new h, List.take_of_length_le hmore,
      List.map_append, List.map_singleton, lastHeard?_snoc, if_pos rfl]
    rfl
  · rw [if_neg hroom, ← hold, firstCome]
    congr 1
    by_cases hknown : e.address ∈ firstHeard heard
    · rw [firstHeard_snoc_of_known hknown]
    · rw [firstHeard_snoc_of_new hknown, List.take_append_of_le_length (Nat.not_lt.mp hroom)]

/-- **The slots after a run of observations** hold those who came first, in this order. -/
theorem observeAll_eq (n : Nat) (heard : List Entry) :
    (ofCapacity n).observeAll heard = ⟨packed (firstCome n heard) (n - (firstHeard heard).length)⟩ := by
  induction heard using List.reverseRecOn with
  | nil =>
    have hnone : firstCome n [] = [] := congrArg (List.map _) List.take_nil
    rw [hnone]
    rfl
  | append_singleton heard e ih =>
    rw [observeAll_snoc, ih, observe]
    have hdistinct : ((firstCome n heard).map Entry.address).Nodup := by
      rw [firstCome_addresses]
      exact (firstHeard_nodup heard).take
    have hcontains := contains_packed (firstCome n heard) (n - (firstHeard heard).length) e.address
    have hfull := isFull_packed (firstCome n heard) (n - (firstHeard heard).length)
    rw [firstCome_addresses] at hcontains
    by_cases hknown : e.address ∈ (firstHeard heard).take n
    · rw [if_pos (hcontains.mpr hknown), refreshIn_packed hdistinct, ← firstCome_snoc_of_mem hknown,
        firstHeard_snoc_of_known (List.mem_of_mem_take hknown)]
    · rw [if_neg fun h => hknown (hcontains.mp h), firstCome_snoc_of_notMem hknown]
      by_cases hroom : (firstHeard heard).length < n
      · have hnew : e.address ∉ firstHeard heard := by
          rwa [List.take_of_length_le (Nat.le_of_lt hroom)] at hknown
        have hfree : n - (firstHeard heard).length = n - ((firstHeard heard).length + 1) + 1 := by
          omega
        rw [if_neg fun h => Nat.sub_ne_zero_of_lt hroom (hfull.mp h), if_pos hroom,
          firstHeard_snoc_of_new hnew, List.length_append, List.length_singleton, hfree]
        exact congrArg NeighborTable.mk (claimIn_packed e _ _)
      · have hmore := firstHeard_length_le heard e
        have hfree : n - (firstHeard (heard ++ [e])).length = n - (firstHeard heard).length := by
          omega
        rw [if_pos (hfull.mpr (by omega)), if_neg hroom, hfree]

/-- An observation is dropped if its address is not among the first, and these take all slots. -/
theorem observe_dropped_iff (n : Nat) (heard : List Entry) (e : Entry) :
    (((ofCapacity n).observeAll heard).observe e.address e.lastSeen).2 = .dropped ↔
      e.address ∉ (firstHeard heard).take n ∧ n ≤ (firstHeard heard).length := by
  have hcontains := contains_packed (firstCome n heard) (n - (firstHeard heard).length) e.address
  have hfull := isFull_packed (firstCome n heard) (n - (firstHeard heard).length)
  rw [firstCome_addresses] at hcontains
  rw [Nat.sub_eq_zero_iff_le] at hfull
  rw [observeAll_eq, observe, ← hcontains, ← hfull]
  split
  · rename_i hknown
    exact iff_of_false (by simp) fun h => h.1 hknown
  · rename_i hunknown
    split
    · rename_i hall
      exact ⟨fun _ => ⟨hunknown, hall⟩, fun _ => rfl⟩
    · rename_i hroom
      exact iff_of_false (by simp) fun h => hroom h.2

/-- **First come, first tracked.** After any run of observations from a table of free slots, the table
lists those who were heard first, as many as there are slots, in the order of their first appearance and
each with the time of the last observation. An observation on the way is dropped exactly if at least as
many others as there are slots were heard before its address was heard for the first time. -/
theorem observeAll_first_come (n : Nat) (heard : List Entry) :
    let t := (ofCapacity n).observeAll heard
    t.entries.map Entry.address = (firstHeard heard).take n ∧
    (∀ e ∈ t.entries, lastHeard? heard e.address = some e.lastSeen) ∧
    ∀ front e back, heard = front ++ e :: back →
      ((((ofCapacity n).observeAll front).observe e.address e.lastSeen).2 = .dropped ↔
        n ≤ (firstHeard (heardBefore heard e.address)).length) := by
  intro t
  have hentries : t.entries = firstCome n heard := by
    show ((ofCapacity n).observeAll heard).entries = _
    rw [observeAll_eq, entries_packed]
  refine ⟨by rw [hentries, firstCome_addresses], ?_, ?_⟩
  · intro e he
    rw [hentries, firstCome] at he
    obtain ⟨a, ha, rfl⟩ := List.mem_map.mp he
    obtain ⟨seen, hseen⟩ := Option.isSome_iff_exists.mp (lastHeard?_isSome (List.mem_of_mem_take ha))
    show lastHeard? heard a = some ((lastHeard? heard a).getD .boot)
    rw [hseen, Option.getD_some]
  · rintro front e back rfl
    rw [observe_dropped_iff, beyond_iff_heardBefore, heardBefore_append]

/-- Two slots and three neighbors. The first is heard again behind the others, which leaves it in front; the
third finds no slot, when it is heard first and when it is heard again. -/
theorem observeAll_first_come_of_two :
    let near : UInt16 → Address := fun n => .ofGroups 65152 0 0 0 0 0 0 n
    let heard : List Entry := [⟨near 7, .ofMillis 1⟩, ⟨near 5, .ofMillis 2⟩, ⟨near 9, .ofMillis 4⟩,
      ⟨near 7, .ofMillis 6⟩, ⟨near 9, .ofMillis 5⟩]
    let t := (ofCapacity 2).observeAll heard
    heard = heard.take 4 ++ ⟨near 9, .ofMillis 5⟩ :: [] ∧ ⟨near 7, .ofMillis 6⟩ ∈ t.entries ∧
      t.entries.map Entry.address = [near 7, near 5] ∧
      lastHeard? heard (near 7) = some (.ofMillis 6) ∧
      (((ofCapacity 2).observeAll (heard.take 4)).observe (near 9) (.ofMillis 5)).2 = .dropped := by
  intro near heard t
  obtain ⟨haddresses, hseen, hdropped⟩ := observeAll_first_come 2 heard
  have hmem : ⟨near 7, .ofMillis 6⟩ ∈ t.entries := by decide +kernel
  exact ⟨rfl, hmem, haddresses.trans (by decide +kernel), hseen _ hmem,
    (hdropped (heard.take 4) ⟨near 9, .ofMillis 5⟩ [] rfl).mpr (by decide +kernel)⟩

end NeighborTable

end ObservableTree
