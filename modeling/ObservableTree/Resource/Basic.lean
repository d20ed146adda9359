import ObservableTree.Debounce
import ObservableTree.Neighbor.Table
import ObservableTree.Trace

/-!
# The published resource

* `Settings` — how many neighbors a node tracks and how long it waits, `Settings.stock` — for a stack
  with twenty routes, `Settings.small` — for one with four;
* `Resource` — the table of neighbors, the timer for notifications, whether the next read starts
  afresh, and when the next sweep is due; the settings are a parameter of the type;
* `Resource.nextWake` — the earliest instant at which the timers have work to do;
* `Reaction` — what a handler gives back: a value, the state after it, the number of notifications
  to send, and traces;
* `Reaction.andThen` — one handler after another.
-/

namespace ObservableTree

/-! ### Sizes and periods -/

/-- Table size and timing of a node. -/
structure Settings where
  /-- Slots for neighbors; the table follows the number of routes the node can hold. -/
  maxTracked : Nat
  /-- The quiet time after a route change before subscribers are told. -/
  debounce : Span
  /-- A neighbor silent for longer than this is no longer shown. -/
  staleness : Span
  /-- The time between two sweeps. -/
  sweepPeriod : Span
deriving DecidableEq

namespace Settings

/-- The debounce interval of the stock settings, in seconds. -/
def stockDebounceSecs : Nat := 30

/-- Settings for a stack with twenty routes. -/
def stock : Settings where
  maxTracked := 20
  debounce := Span.ofSecs stockDebounceSecs
  staleness := Span.ofSecs stockDebounceSecs
  sweepPeriod := Span.ofSecs 1

/-- Settings for a leaf-heavy network with four routes. -/
def small : Settings := { stock with maxTracked := 4 }

end Settings

/-! ### The resource -/

/-- The state of a published resource. -/
structure Resource (cfg : Settings) where
  table : NeighborTable
  debounce : Debounce
  /-- Subscribers were told and nobody has read since: the next read starts afresh. -/
  fresh : Bool
  /-- The number of notifications so far, in 32 bits. -/
  noticeNumber : UInt32
  nextSweep : Instant
deriving DecidableEq

namespace Resource

variable {cfg : Settings}

/-- A resource that starts at a given instant: the first sweep is due a period later. -/
def startingAt (cfg : Settings) (now : Instant) : Resource cfg where
  table := .ofCapacity cfg.maxTracked
  debounce := .ofInterval cfg.debounce
  fresh := false
  noticeNumber := 0
  nextSweep := now + cfg.sweepPeriod

/-- The neighbors heard lately, in slot order. -/
def tracked (r : Resource cfg) : List Entry := r.table.entries

/-- Whether routes through a neighbor are shown. -/
def isReachable (r : Resource cfg) (nextHop : Address) : Bool := r.table.contains nextHop

/-- When subscribers will be told, if a change is pending. -/
def pendingNotice (r : Resource cfg) : Option Instant := r.debounce.deadline

/-- The earliest instant at which the timers have work to do. -/
def nextWake (r : Resource cfg) : Instant :=
  match r.debounce.deadline with
  | some fireAt => fireAt.earlier r.nextSweep
  | none => r.nextSweep

theorem nextWake_of_idle {r : Resource cfg} (h : r.debounce.deadline = none) :
    r.nextWake = r.nextSweep := by
  simp only [nextWake, h]

theorem nextWake_of_armed {r : Resource cfg} {t : Instant} (h : r.debounce.deadline = some t) :
    r.nextWake.millis = min t.millis r.nextSweep.millis := by
  simp only [nextWake, h, Instant.earlier_millis]

end Resource

/-! ### Reactions -/

/-- What a handler gives back. -/
structure Reaction (cfg : Settings) (α : Type) where
  value : α
  state : Resource cfg
  notices : Nat
  traces : List Trace

namespace Reaction

variable {cfg : Settings} {α β : Type}

/-- A value and nothing else. -/
def still (r : Resource cfg) (a : α) : Reaction cfg α := ⟨a, r, 0, []⟩

/-- Goes on with the value and the state of a reaction. -/
def andThen (x : Reaction cfg α) (f : α → Resource cfg → Reaction cfg β) : Reaction cfg β :=
  let y := f x.value x.state
  ⟨y.value, y.state, x.notices + y.notices, x.traces ++ y.traces⟩

/-- The same reaction with another value. -/
def map (f : α → β) (x : Reaction cfg α) : Reaction cfg β :=
  ⟨f x.value, x.state, x.notices, x.traces⟩

theorem andThen_state (x : Reaction cfg α) (f : α → Resource cfg → Reaction cfg β) :
    (x.andThen f).state = (f x.value x.state).state := rfl

theorem andThen_traces (x : Reaction cfg α) (f : α → Resource cfg → Reaction cfg β) :
    (x.andThen f).traces = x.traces ++ (f x.value x.state).traces := rfl

theorem andThen_notices (x : Reaction cfg α) (f : α → Resource cfg → Reaction cfg β) :
    (x.andThen f).notices = x.notices + (f x.value x.state).notices := rfl

theorem still_andThen (r : Resource cfg) (a : α) (f : α → Resource cfg → Reaction cfg β) :
    (still r a).andThen f = f a r := by
  simp only [andThen, still, Nat.zero_add, List.nil_append]

theorem andThen_assoc {γ : Type} (x : Reaction cfg α) (f : α → Resource cfg → Reaction cfg β)
    (g : β → Resource cfg → Reaction cfg γ) :
    (x.andThen f).andThen g = x.andThen fun a r => (f a r).andThen g := by
  simp only [andThen, Nat.add_assoc, List.append_assoc]

end Reaction

end ObservableTree
