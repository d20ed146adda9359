import ObservableTree.Node.Basic
import ObservableTree.Observer
import ObservableTree.Simulation.Agenda
import ObservableTree.Simulation.Metrics
import ObservableTree.Simulation.Loss

/-!
# The state of a simulation

One node publishes its view while neighbors send packets, routes change and observers fetch the
document.

* `Note` — an entry of the log: a trace of the node, or something that the simulation itself reports,
  `Note.line` — and its line;
* `Traffic` — what one neighbor sends;
* `Simulation` — the node, its routes, the neighbors and observers, the agenda and the records;
* `Simulation.schedule` — puts an event on the agenda under the next running number;
* `Simulation.rescheduleTimer` — keeps one live timer, at the instant the node next has work to do;
* `Simulation.advance` — moves time on, never back;
* `Simulation.takeSnapshot` — records the published state.
-/

namespace ObservableTree

/-! ### The log -/

/-- One entry of a simulation's log. -/
inductive Note where
  /-- Something that the node did. -/
  | trace (t : Trace)
  /-- An observer has the document. -/
  | retrieved (observer exchanges children : Nat)
  /-- An observer did not get the document. -/
  | retrievalFailed (observer : Nat) (cause : FetchError)
  /-- The node's queue was full and an event is lost. -/
  | queueFull (event : TopologyEvent)
deriving DecidableEq

namespace Note

/-- The name under which a simulation writes its own lines. -/
def target : String := "dagsim::sim"

/-- The line for a note. -/
def line : Note → LogLine
  | trace t => t.line
  | retrieved observer exchanges children =>
    ⟨.debug, target, "retrieval complete",
      [("observer", toString observer), ("exchanges", toString exchanges),
        ("children", toString children)]⟩
  | retrievalFailed observer cause =>
    ⟨.warn, target, "retrieval failed",
      [("observer", toString observer), ("error", cause.message)]⟩
  | queueFull event =>
    ⟨.warn, target, "event channel full", [("rejected", "Full(" ++ event.labelled ++ ")")]⟩

end Note

/-! ### The state -/

/-- What a neighbor sends: a packet after each interval while it is alive. Each start of its traffic
begins another generation, and packets of earlier ones are discarded. -/
structure Traffic where
  interval : Span
  alive : Bool
  generation : UInt32
deriving DecidableEq

/-- A simulated network around one node. The log has its last entry first. -/
structure Simulation (cfg : Settings) where
  node : Node cfg
  routing : Routing
  traffic : List (Address × Traffic)
  observers : List Observer
  now : Instant
  agenda : Agenda
  metrics : Metrics
  nextNumber : Nat
  timerGeneration : Nat
  scheduledWake : Option Instant
  randomWord : UInt64
  lossRate : LossRate
  fetchDelay : Span
  snapshotInterval : Option Span
  nextSnapshot : Option Instant
  log : List Note
deriving DecidableEq

namespace Simulation

variable {cfg : Settings} {α : Type}

/-- The delay between a notification and the retrievals, unless a scenario sets another one. -/
def stockFetchDelay : Span := .ofMillis 100

/-! ### The agenda -/

/-- Schedules an event under the next running number. -/
def schedule (s : Simulation cfg) (time : Instant) (event : Event) : Simulation cfg :=
  { s with agenda := s.agenda.insert ⟨time, s.nextNumber, event⟩, nextNumber := s.nextNumber + 1 }

/-- The instant at which the timers have to be called, now if it has passed. -/
def wake (s : Simulation cfg) : Instant := s.node.resource.nextWake.later s.now

/-- Schedules a timer where there is none at the instant it is needed. The timer it replaces stays
on the agenda under an older generation. -/
def rescheduleTimer (s : Simulation cfg) : Simulation cfg :=
  if s.scheduledWake = some s.wake then s
  else
    { s with timerGeneration := s.timerGeneration + 1, scheduledWake := some s.wake }.schedule s.wake
      (.timer (s.timerGeneration + 1))

/-- Moves time on to an instant, unless it has passed. -/
def advance (s : Simulation cfg) (time : Instant) : Simulation cfg :=
  if s.now < time then { s with now := time, node := { s.node with clock := s.node.clock.set time } }
  else s

/-! ### The node -/

/-- Adds an entry to the log. -/
def jot (s : Simulation cfg) (n : Note) : Simulation cfg := { s with log := n :: s.log }

/-- The effect of a reaction of the node's resource. -/
def absorb (s : Simulation cfg) (x : Reaction cfg α) : Simulation cfg :=
  { s with node := s.node.absorb x, log := (x.traces.map Note.trace).reverse ++ s.log }

/-- Records the published state. -/
def takeSnapshot (s : Simulation cfg) : Simulation cfg :=
  let r := s.node.resource
  { s with
      metrics := s.metrics.record
        { time := s.now
          parent := s.routing.parent
          routes := s.routing.routes
          tracked := r.tracked.map Entry.address
          visible := (s.routing.routes.filter fun x => r.isReachable x.nextHop).map Route.destination
          pending := r.pendingNotice } }

/-- What a neighbor sends, if it ever sent anything. -/
def traffic? (s : Simulation cfg) (neighbor : Address) : Option Traffic :=
  (s.traffic.find? fun p => p.1 = neighbor).map Prod.snd

/-- Sets what a neighbor sends. -/
def setTraffic (s : Simulation cfg) (neighbor : Address) (t : Traffic) : Simulation cfg :=
  { s with traffic := (neighbor, t) :: s.traffic.filter fun p => p.1 ≠ neighbor }

/-- Whether a neighbor sends packets. -/
def isAlive (s : Simulation cfg) (neighbor : Address) : Bool :=
  (s.traffic? neighbor).any Traffic.alive

/-! ### Setting up -/

/-- A simulation of an idle network, with the word that the losses are drawn from. -/
def ofSeed (cfg : Settings) (seed : UInt64) : Simulation cfg :=
  let idle : Simulation cfg :=
    { node := .ofClock cfg ⟨.atOnce, .boot⟩
      routing := .empty
      traffic := []
      observers := []
      now := .boot
      agenda := .empty
      metrics := .zero
      nextNumber := 0
      timerGeneration := 0
      scheduledWake := none
      randomWord := seed
      lossRate := .zero
      fetchDelay := stockFetchDelay
      snapshotInterval := none
      nextSnapshot := none
      log := [] }
  idle.rescheduleTimer

/-- Takes snapshots at an interval from now on. -/
def snapshotEvery (s : Simulation cfg) (interval : Span) : Simulation cfg :=
  { s with snapshotInterval := some interval, nextSnapshot := some (s.now + interval) }

/-- Registers an observer behind the others. -/
def addObserver (s : Simulation cfg) (blockSize : Nat) : Simulation cfg :=
  { s with observers := s.observers ++ [.ofBlockSize blockSize] }

/-- What a run up to now gives back. -/
def outcome (s : Simulation cfg) : Outcome := ⟨s.now, s.metrics, s.agenda.isEmpty⟩

/-! ### Small facts -/

theorem rescheduleTimer_node (s : Simulation cfg) : s.rescheduleTimer.node = s.node := by
  unfold rescheduleTimer; split <;> rfl

theorem rescheduleTimer_now (s : Simulation cfg) : s.rescheduleTimer.now = s.now := by
  unfold rescheduleTimer; split <;> rfl

theorem advance_millis (s : Simulation cfg) (time : Instant) :
    (s.advance time).now.millis = max s.now.millis time.millis := by
  unfold advance
  split
  · rename_i h
    exact (Nat.max_eq_right (Nat.le_of_lt h)).symm
  · rename_i h
    exact (Nat.max_eq_left (Nat.le_of_not_lt h)).symm

end Simulation

end ObservableTree
