import ObservableTree.Time

/-!
# Waiting for quiet

While a network forms, routes come and go within seconds. Each change arms this timer anew, and it
fires once, when a whole interval has passed without a change.

* `Debounce` — the interval, the deadline if the timer is armed, and the changes since it last
  fired;
* `Debounce.arm` — a change: the deadline moves to an interval from now;
* `Debounce.poll` — fires if the deadline has passed, and reports how many changes it covers.
-/

namespace ObservableTree

/-- The largest count of changes that the timer keeps; counting stops there. -/
def lastCount : Nat := 4294967295

/-- A timer that each change starts anew and that fires once. -/
structure Debounce where
  interval : Span
  deadline : Option Instant
  coalesced : Nat
deriving DecidableEq

namespace Debounce

/-- An idle timer. -/
def ofInterval (interval : Span) : Debounce := ⟨interval, none, 0⟩

/-- Whether the timer is waiting to fire. -/
def isArmed (d : Debounce) : Bool := d.deadline.isSome

/-- The deadline that a change at this instant sets. -/
def fireAt (d : Debounce) (now : Instant) : Instant := now + d.interval

/-- Records a change, which replaces any deadline. -/
def arm (d : Debounce) (now : Instant) : Debounce :=
  { d with deadline := some (d.fireAt now), coalesced := min (d.coalesced + 1) lastCount }

/-- Whether the deadline has passed. -/
def isDue (d : Debounce) (now : Instant) : Bool := d.deadline.any (fun t => decide (t ≤ now))

/-- Fires if the deadline has passed, and then reports the number of changes that this covers. -/
def poll (d : Debounce) (now : Instant) : Debounce × Option Nat :=
  if d.isDue now then ({ d with deadline := none, coalesced := 0 }, some d.coalesced)
  else (d, none)

theorem arm_interval (d : Debounce) (now : Instant) : (d.arm now).interval = d.interval := rfl

theorem isDue_iff {d : Debounce} {now : Instant} :
    d.isDue now = true ↔ ∃ fireAt, d.deadline = some fireAt ∧ fireAt ≤ now := by
  simp only [isDue, Option.any_eq_true, decide_eq_true_iff]

theorem poll_of_due (now : Instant) {d : Debounce} (h : d.isDue now = true) :
    d.poll now = (⟨d.interval, none, 0⟩, some d.coalesced) := if_pos h

theorem poll_of_not_due (now : Instant) {d : Debounce} (h : ¬d.isDue now = true) :
    d.poll now = (d, none) := if_neg h

end Debounce

end ObservableTree
