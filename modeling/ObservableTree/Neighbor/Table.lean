import ObservableTree.Time
import ObservableTree.Address.Basic

/-!
# The neighbors heard lately

Routes can outlive the link they go through, so a node records when it last heard each neighbor.
The record has a fixed number of slots and is only used to decide what is shown.

* `NeighborTable` — the slots, each free or holding an entry;
* `NeighborTable.entries` — the entries in slot order, `NeighborTable.lastSeen?` — the look-up;
* `NeighborTable.observe` — records traffic: a known neighbor is refreshed, a new one takes the
  first free slot, and a full table ignores it;
* `NeighborTable.sweep` — frees the first slot whose neighbor was silent for too long;
* `observe_capacity`, `sweep_capacity` — neither changes the number of slots.
-/

namespace ObservableTree

/-- A neighbor and when it was last heard. -/
structure Entry where
  address : Address
  lastSeen : Instant
deriving DecidableEq

/-- What became of an observation. -/
inductive Observation where
  | refreshed
  | inserted
  | dropped
deriving DecidableEq

/-- The name of an outcome. -/
def Observation.name : Observation → String
  | refreshed => "Refreshed"
  | inserted => "Inserted"
  | dropped => "Dropped"

/-- Slots for neighbors, `none` where one is free. -/
structure NeighborTable where
  slots : List (Option Entry)
deriving DecidableEq

namespace NeighborTable

/-- A table of free slots. -/
def ofCapacity (n : Nat) : NeighborTable := ⟨List.replicate n none⟩

/-- The number of slots. -/
def capacity (t : NeighborTable) : Nat := t.slots.length

/-- The entries in slot order. -/
def entries (t : NeighborTable) : List Entry := t.slots.filterMap id

/-- The number of slots in use. -/
def length (t : NeighborTable) : Nat := t.entries.length

/-- Whether no slot is in use. -/
def isEmpty (t : NeighborTable) : Bool := t.length == 0

/-- Whether every slot is in use. -/
def isFull (t : NeighborTable) : Bool := t.slots.all Option.isSome

/-- When a neighbor was last heard, if it has a slot. -/
def lastSeen? (t : NeighborTable) (a : Address) : Option Instant :=
  (t.entries.find? fun e => e.address = a).map Entry.lastSeen

/-- Whether routes through a neighbor are shown. -/
def contains (t : NeighborTable) (a : Address) : Bool := (t.lastSeen? a).isSome

/-! ### Observing -/

/-- Sets the time of the first slot that holds an address. -/
def refreshIn (a : Address) (now : Instant) : List (Option Entry) → List (Option Entry)
  | [] => []
  | some e :: rest =>
    if e.address = a then some ⟨a, now⟩ :: rest else some e :: refreshIn a now rest
  | none :: rest => none :: refreshIn a now rest

/-- Puts an entry into the first free slot. -/
def claimIn (e : Entry) : List (Option Entry) → List (Option Entry)
  | [] => []
  | some d :: rest => some d :: claimIn e rest
  | none :: rest => some e :: rest

/-- Records traffic from a neighbor. -/
def observe (t : NeighborTable) (a : Address) (now : Instant) : NeighborTable × Observation :=
  if t.contains a then (⟨refreshIn a now t.slots⟩, .refreshed)
  else if t.isFull then (t, .dropped)
  else (⟨claimIn ⟨a, now⟩ t.slots⟩, .inserted)

/-! ### Sweeping -/

/-- Whether an entry was silent for longer than a threshold. -/
def isStale (now : Instant) (threshold : Span) (e : Entry) : Bool :=
  decide (threshold < now - e.lastSeen)

/-- Frees the first slot whose entry satisfies a test. -/
def freeIn (stale : Entry → Bool) : List (Option Entry) → List (Option Entry)
  | [] => []
  | some e :: rest => if stale e then none :: rest else some e :: freeIn stale rest
  | none :: rest => none :: freeIn stale rest

/-- Frees the first slot that is stale, if there is one, and returns its entry. -/
def sweep (t : NeighborTable) (now : Instant) (threshold : Span) : NeighborTable × Option Entry :=
  (⟨freeIn (isStale now threshold) t.slots⟩, t.entries.find? (isStale now threshold))

/-! ### Small facts -/

theorem refreshIn_length (a : Address) (now : Instant) (slots : List (Option Entry)) :
    (refreshIn a now slots).length = slots.length := by
  fun_induction refreshIn a now slots with
  | case1 => rfl
  | case2 => rfl
  | case3 _ _ _ ih => simp only [List.length_cons, ih]
  | case4 _ ih => simp only [List.length_cons, ih]

theorem claimIn_length (e : Entry) (slots : List (Option Entry)) :
    (claimIn e slots).length = slots.length := by
  fun_induction claimIn e slots with
  | case1 => rfl
  | case2 _ _ ih => simp only [List.length_cons, ih]
  | case3 => rfl

theorem freeIn_length (stale : Entry → Bool) (slots : List (Option Entry)) :
    (freeIn stale slots).length = slots.length := by
  fun_induction freeIn stale slots with
  | case1 => rfl
  | case2 => rfl
  | case3 _ _ _ ih => simp only [List.length_cons, ih]
  | case4 _ ih => simp only [List.length_cons, ih]

theorem ofCapacity_capacity (n : Nat) : (ofCapacity n).capacity = n := List.length_replicate

theorem observe_capacity (t : NeighborTable) (a : Address) (now : Instant) :
    (t.observe a now).1.capacity = t.capacity := by
  unfold observe
  split
  · exact refreshIn_length a now t.slots
  · split
    · rfl
    · exact claimIn_length ⟨a, now⟩ t.slots

theorem sweep_capacity (t : NeighborTable) (now : Instant) (threshold : Span) :
    (t.sweep now threshold).1.capacity = t.capacity := freeIn_length _ t.slots

theorem freeIn_eq_self {stale : Entry → Bool} {slots : List (Option Entry)}
    (h : ∀ e, some e ∈ slots → stale e = false) : freeIn stale slots = slots := by
  fun_induction freeIn stale slots with
  | case1 => rfl
  | case2 e rest hstale => simp [h e] at hstale
  | case3 e rest _ ih => rw [ih (fun d hd => h d (List.mem_cons_of_mem _ hd))]
  | case4 rest ih => rw [ih (fun d hd => h d (List.mem_cons_of_mem _ hd))]

theorem mem_entries {t : NeighborTable} {e : Entry} : e ∈ t.entries ↔ some e ∈ t.slots := by
  simp [entries]

/-- A sweep that finds nothing changes nothing. -/
theorem sweep_eq_of_none {t : NeighborTable} {now : Instant} {threshold : Span}
    (h : (t.sweep now threshold).2 = none) : (t.sweep now threshold).1 = t := by
  have hslots : freeIn (isStale now threshold) t.slots = t.slots := freeIn_eq_self fun e he => by
    simpa using List.find?_eq_none.mp h e (mem_entries.mpr he)
  cases t with
  | mk slots => exact congrArg NeighborTable.mk hslots

theorem table_of_sweep_none {t swept : NeighborTable} {now : Instant} {threshold : Span}
    (h : t.sweep now threshold = (swept, none)) : swept = t := by
  have hsame := sweep_eq_of_none (congrArg Prod.snd h)
  rwa [h] at hsame

end NeighborTable

end ObservableTree
