import ObservableTree.Time
import ObservableTree.Routing

/-!
# What is going to happen

A simulated network is a list of events with the instants they are due at. Events of one instant
happen in the order in which they were scheduled, which a running number tells.

* `Action`, `Event`, `Scheduled` — what a scenario does, what happens, and when;
* `Scheduled.urgency` — compares two scheduled events: the one that is due first is the greater;
* `Scheduled.atMost` — one is no more urgent than the other, `Scheduled.sameDue` — nor less;
* `Agenda` — scheduled events, the most urgent first, with `insert` and `next?`.
-/

namespace ObservableTree

/-- What a scenario does to the network. -/
inductive Action where
  | addRoute (route : Route)
  | removeRoute (destination : Address)
  | setParent (parent : Address)
  | clearParent
  | setPrefix (dagPrefix : Option Address)
  | startTraffic (neighbor : Address) (interval : Span)
  | stopTraffic (neighbor : Address)
  | takeSnapshot
deriving DecidableEq

/-- What happens at an instant. The generation of a packet tells the session that it belongs to,
and the generation of a timer whether it has been replaced. -/
inductive Event where
  | packet (source : Address) (generation : UInt32)
  | routeChange (change : RouteChange) (route : Route)
  | timer (generation : Nat)
  | fetch (observer : Nat)
  | action (action : Action)
deriving DecidableEq

/-- An event with the instant it is due at and its running number. -/
structure Scheduled where
  time : Instant
  number : Nat
  event : Event
deriving DecidableEq

namespace Scheduled

/-- Compares how urgent two events are. Whichever is due earlier is the greater, and of two events
of one instant the one with the lower number. -/
def urgency (a b : Scheduled) : Ordering :=
  (compare b.time.millis a.time.millis).then (compare b.number a.number)

/-- Whether two events are due at one instant with one number. -/
def sameDue (a b : Scheduled) : Bool := a.time == b.time && a.number == b.number

/-- The comparison where two events might not compare. Any two do. -/
def urgency? (a b : Scheduled) : Option Ordering := some (a.urgency b)

/-- Whether an event is no more urgent than another one. -/
def atMost (a b : Scheduled) : Bool := (a.urgency? b).any Ordering.isLE

end Scheduled

/-! ### The agenda -/

/-- Scheduled events, the most urgent first. -/
structure Agenda where
  entries : List Scheduled
deriving DecidableEq

namespace Agenda

/-- Nothing is scheduled. -/
def empty : Agenda := ⟨[]⟩

/-- Puts an event in front of all those that are less urgent. -/
def insertIn (e : Scheduled) : List Scheduled → List Scheduled
  | [] => [e]
  | d :: rest => if e.urgency d = .gt then e :: d :: rest else d :: insertIn e rest

/-- Schedules an event. -/
def insert (q : Agenda) (e : Scheduled) : Agenda := ⟨insertIn e q.entries⟩

/-- The agenda of several events, scheduled one after another. -/
def ofList (es : List Scheduled) : Agenda := es.foldl insert empty

/-- The most urgent event, and the agenda without it. -/
def next? (q : Agenda) : Option (Scheduled × Agenda) :=
  match q.entries with
  | [] => none
  | e :: rest => some (e, ⟨rest⟩)

/-- Whether nothing is scheduled. -/
def isEmpty (q : Agenda) : Bool := q.entries.isEmpty

theorem insertIn_perm (e : Scheduled) (es : List Scheduled) :
    (insertIn e es).Perm (e :: es) := by
  fun_induction insertIn e es with
  | case1 => exact List.Perm.refl _
  | case2 => exact List.Perm.refl _
  | case3 d rest _ ih => exact (ih.cons d).trans (List.Perm.swap e d rest)

end Agenda

end ObservableTree
