import ObservableTree.Simulation.Run

/-!
# Scenarios

A scenario says how a simulation starts and what is done to the network and when. What is given
without a time happens at boot, through the same actions as all else.

* `Scenario` — the choices, with the stock ones in `Scenario.stock`;
* `Scenario.build` — the simulation that a scenario starts with;
* `Scenario.router` — a router with a parent and children one hop away, all of them sending.
-/

namespace ObservableTree

/-- How a simulation starts, and what is done when. -/
structure Scenario where
  seed : UInt64
  lossRate : LossRate
  fetchDelay : Span
  dagPrefix : Option Address
  observers : List Nat
  actions : List (Instant × Action)
  snapshotInterval : Option Span
deriving DecidableEq

namespace Scenario

/-- An idle network without observers. -/
def stock : Scenario where
  seed := 42
  lossRate := .zero
  fetchDelay := Simulation.stockFetchDelay
  dagPrefix := none
  observers := []
  actions := []
  snapshotInterval := none

/-- One action more. -/
def actionAt (c : Scenario) (time : Instant) (action : Action) : Scenario :=
  { c with actions := c.actions ++ [(time, action)] }

/-- A neighbor that sends from boot on. -/
def neighbor (c : Scenario) (a : Address) (interval : Span) : Scenario :=
  c.actionAt .boot (.startTraffic a interval)

/-- A route from boot on. -/
def route (c : Scenario) (r : Route) : Scenario := c.actionAt .boot (.addRoute r)

/-- A parent from boot on. -/
def parent (c : Scenario) (a : Address) : Scenario := c.actionAt .boot (.setParent a)

/-! ### Building -/

/-- Schedules the prefix of the tree, if there is one, at boot. -/
def withPrefix {cfg : Settings} (c : Scenario) (s : Simulation cfg) : Simulation cfg :=
  if c.dagPrefix.isSome then s.schedule .boot (.action (.setPrefix c.dagPrefix)) else s

/-- The simulation that a scenario starts with. -/
def build (c : Scenario) (cfg : Settings) : Simulation cfg :=
  let idle := { Simulation.ofSeed cfg c.seed with lossRate := c.lossRate, fetchDelay := c.fetchDelay }
  let timed := (c.snapshotInterval.map idle.snapshotEvery).getD idle
  let observed := c.observers.foldl Simulation.addObserver (c.withPrefix timed)
  c.actions.foldl (fun s a => s.schedule a.1 (.action a.2)) observed

/-! ### Routers -/

/-- The address of a neighbor, by its number. -/
def neighborAddress (n : UInt16) : Address := .ofGroups 0xfe80 0 0 0 0x0212 0x7400 n n

/-- The address of a destination behind a neighbor, by its number. -/
def childAddress (n : UInt16) : Address := .ofGroups 0xaaaa 0 0 0 0x0212 0x7400 n n

/-- The prefix of the router's tree. -/
def routerPrefix : Address := .ofGroups 0xaaaa 0 0 0 0 0 0 0

/-- The interval at which the neighbors of a router send. -/
def routerInterval : Span := .ofSecs 10

/-- A router with a parent, neighbor zero, and so many children, each with its own neighbor. -/
def router (children : Nat) : Scenario :=
  (List.range children).foldl
    (fun c k =>
      let n := UInt16.ofNat (k + 1)
      (c.neighbor (neighborAddress n) routerInterval).route ⟨childAddress n, neighborAddress n⟩)
    (({ stock with dagPrefix := some routerPrefix }.parent (neighborAddress 0)).neighbor
      (neighborAddress 0) routerInterval)

end Scenario

end ObservableTree
