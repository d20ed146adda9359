import ObservableTree.Routing
import ObservableTree.Time

/-!
# What a simulation records

* `Snapshot` — the published state at an instant, `Snapshot.hiddenRoutes?` — how many routes it does
  not show;
* `Metrics` — counters and snapshots, with queries over the snapshots;
* `Outcome` — what a run gives back.
-/

namespace ObservableTree

/-! ### Snapshots -/

/-- The published state at an instant. -/
structure Snapshot where
  time : Instant
  parent : Option Address
  routes : List Route
  tracked : List Address
  visible : List Address
  pending : Option Instant
deriving DecidableEq

namespace Snapshot

/-- The number of routes that are not shown, nothing if more are shown than there are. -/
def hiddenRoutes? (s : Snapshot) : Option Nat :=
  if s.visible.length ≤ s.routes.length then some (s.routes.length - s.visible.length) else none

/-- Whether a destination is shown. -/
def shows (s : Snapshot) (destination : Address) : Bool := s.visible.any fun a => a = destination

end Snapshot

/-! ### Metrics -/

/-- Counters of a simulation and its snapshots in order. -/
structure Metrics where
  packetsObserved : Nat
  packetsDropped : Nat
  routeChanges : Nat
  notifications : Nat
  fetches : Nat
  exchanges : Nat
  bytesServed : Nat
  fetchErrors : Nat
  snapshots : List Snapshot
deriving DecidableEq

namespace Metrics

/-- Nothing has been counted. -/
def zero : Metrics := ⟨0, 0, 0, 0, 0, 0, 0, 0, []⟩

/-- One snapshot more. -/
def record (m : Metrics) (s : Snapshot) : Metrics := { m with snapshots := m.snapshots ++ [s] }

/-- The latest snapshot. -/
def latest? (m : Metrics) : Option Snapshot := m.snapshots.getLast?

/-- The first snapshot at an instant or later. -/
def snapshotAt? (m : Metrics) (time : Instant) : Option Snapshot :=
  m.snapshots.find? fun s => decide (time ≤ s.time)

/-- The first instant at which a destination that had been shown was not shown. -/
def hiddenSince? (m : Metrics) (destination : Address) : Option Instant :=
  ((m.snapshots.dropWhile fun s => !s.shows destination).find? fun s =>
    !s.shows destination).map Snapshot.time

/-- Reads for one retrieval on average. -/
def exchangesPerFetch (m : Metrics) : Float :=
  if m.fetches = 0 then 0 else m.exchanges.toUInt64.toFloat / m.fetches.toUInt64.toFloat

end Metrics

/-! ### Outcomes -/

/-- What a run gives back: the instant it ended at, the metrics so far, and whether nothing was left
to happen. -/
structure Outcome where
  endTime : Instant
  metrics : Metrics
  exhausted : Bool
deriving DecidableEq

namespace Outcome

/-- The children shown in the last snapshot. -/
def finalChildren (o : Outcome) : List Address := (o.metrics.latest?.map Snapshot.visible).getD []

/-- The parent in the last snapshot. -/
def finalParent (o : Outcome) : Option Address := o.metrics.latest?.bind Snapshot.parent

end Outcome

end ObservableTree
