import ObservableTree.Simulation.Step

/-!
# Running a simulation

* `Simulation.stepUntil?` — takes the next event that is due up to an instant;
* `Event.weight`, `Simulation.weight` — a bound for the number of events that can still happen up
  to an instant, when traffic has intervals and sweeps have a period: every event weighs more than
  all that it schedules;
* `Simulation.runUntil`, `Simulation.runFor` — all events up to an instant, and a snapshot there.
-/

namespace ObservableTree

/-! ### Weights -/

/-- The weight of a timer with so many milliseconds left: it may make all observers fetch, and
leaves a timer with less time left. -/
def timerWeight (observers left : Nat) : Nat := left * (observers + 1)

/-- The weight of an event with so many milliseconds left. Each of them may leave one timer. -/
def Event.weight (observers left : Nat) : Event → Nat
  | .fetch _ => 1
  | .timer _ => timerWeight observers left
  | .routeChange _ _ => 1 + timerWeight observers left
  | .packet _ _ => left * (1 + timerWeight observers left)
  | .action _ =>
    1 + timerWeight observers left + (1 + timerWeight observers left)
      + left * (1 + timerWeight observers left)

/-- The weight of a scheduled event up to an instant, nothing if it is due later. -/
def Scheduled.weight (observers : Nat) (stop : Instant) (e : Scheduled) : Nat :=
  if stop < e.time then 0
  else e.event.weight observers (stop.millis + 1 - e.time.millis)

namespace Simulation

variable {cfg : Settings}

/-- The weight of all that is scheduled up to an instant. -/
def weight (s : Simulation cfg) (stop : Instant) : Nat :=
  s.agenda.entries.foldr (fun e n => e.weight s.observers.length stop + n) 0

/-! ### Runs -/

/-- The next event, if it is due up to an instant. -/
def stepUntil? (s : Simulation cfg) (stop : Instant) : Option (Simulation cfg) :=
  match s.agenda.next? with
  | none => none
  | some (e, rest) =>
    if stop < e.time then none
    else some (({ s with agenda := rest }.advance e.time).process e.event).snapshotIfDue

/-- Up to so many events that are due up to an instant. -/
def steps (stop : Instant) : (count : Nat) → Simulation cfg → Simulation cfg
  | 0, s => s
  | count + 1, s =>
    match s.stepUntil? stop with
    | none => s
    | some s' => steps stop count s'

/-- All events up to an instant; then time moves on to it, and a snapshot is taken. -/
def runUntil (s : Simulation cfg) (stop : Instant) : Simulation cfg :=
  ((steps stop (s.weight stop) s).advance stop).takeSnapshot

/-- All events of a span from now on. -/
def runFor (s : Simulation cfg) (d : Span) : Simulation cfg := s.runUntil (s.now + d)

theorem steps_of_none {s : Simulation cfg} {stop : Instant} (h : s.stepUntil? stop = none)
    (count : Nat) : steps stop count s = s := by
  cases count with
  | zero => rfl
  | succ count => simp only [steps, h]

theorem steps_add (stop : Instant) (m n : Nat) (s : Simulation cfg) :
    steps stop (m + n) s = steps stop n (steps stop m s) := by
  induction m generalizing s with
  | zero => rw [Nat.zero_add]; rfl
  | succ m ih =>
    rw [Nat.succ_add]
    cases h : s.stepUntil? stop with
    | none => simp only [steps, h, steps_of_none h]
    | some s' => simp only [steps, h, ih]

end Simulation

end ObservableTree
