import ObservableTree.Resource.Read

/-!
# A node and its surroundings

A node hosts the resource and gives it a clock, a queue for events, and a way to tell subscribers.

* `Clock` — an instant that is set or moved on from outside, and what it does with a sleeper;
* `Notifier` — notifications raised, and how many of them nobody has taken up yet;
* `Node.send` — an event into the queue, which refuses it when sixteen are waiting;
* `Node.absorb` — the effect of a handler's reaction on the node.
-/

namespace ObservableTree

/-! ### Clocks -/

/-- How a clock treats one who sleeps until a deadline. -/
inductive SleepRule where
  /-- The sleeper goes on at once; the one who moves the clock calls the timers itself. -/
  | atOnce
  /-- The sleeper goes on when the clock has reached the deadline. -/
  | atDeadline
deriving DecidableEq

/-- A clock that is moved from outside. -/
structure Clock where
  rule : SleepRule
  now : Instant
deriving DecidableEq

namespace Clock

/-- The clock at another instant. -/
def set (c : Clock) (t : Instant) : Clock := { c with now := t }

/-- The clock a span later. -/
def advance (c : Clock) (d : Span) : Clock := { c with now := c.now + d }

/-- Whether a sleeper goes on. -/
def wakes (c : Clock) (deadline : Instant) : Bool :=
  match c.rule with
  | .atOnce => true
  | .atDeadline => decide (deadline ≤ c.now)

end Clock

/-! ### Notifications -/

/-- Notifications that nobody has taken up yet, and all that were raised. -/
structure Notifier where
  pending : Nat
  total : Nat
deriving DecidableEq

namespace Notifier

/-- No notification. -/
def silent : Notifier := ⟨0, 0⟩

/-- So many notifications more. -/
def raise (n : Notifier) (count : Nat) : Notifier := ⟨n.pending + count, n.total + count⟩

/-- Takes up what is pending. -/
def take (n : Notifier) : Nat × Notifier := (n.pending, { n with pending := 0 })

end Notifier

/-! ### Nodes -/

/-- The number of events that may wait in the queue. -/
def inboxCapacity : Nat := 16

/-- A resource with its clock, its queue of events and its notifications. -/
structure Node (cfg : Settings) where
  resource : Resource cfg
  clock : Clock
  inbox : List TopologyEvent
  notifier : Notifier
deriving DecidableEq

namespace Node

variable {cfg : Settings} {α : Type}

/-- A node with nothing but a clock. -/
def ofClock (cfg : Settings) (c : Clock) : Node cfg := ⟨.startingAt cfg c.now, c, [], .silent⟩

/-- Puts an event into the queue, unless it is full. -/
def send? (n : Node cfg) (event : TopologyEvent) : Option (Node cfg) :=
  if n.inbox.length < inboxCapacity then some { n with inbox := n.inbox ++ [event] } else none

/-- The node after a reaction of its resource. -/
def absorb (n : Node cfg) (x : Reaction cfg α) : Node cfg :=
  { n with resource := x.state, notifier := n.notifier.raise x.notices }

theorem absorb_inbox (n : Node cfg) (x : Reaction cfg α) : (n.absorb x).inbox = n.inbox := rfl

end Node

end ObservableTree
