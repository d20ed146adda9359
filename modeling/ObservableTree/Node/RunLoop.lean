import ObservableTree.Node.Basic

/-!
# The run loop

A node serves its queue and its timers in a loop. Each turn looks up when the timers next have work
to do and then waits for whichever comes first, an event in the queue or that instant. A loop that
waits keeps the instant it looked up, even if another one would be looked up by now.

* `Turn`, `Node.turn` — what one turn does: handle an event, call the timers, or wait;
* `Node.turns` — as many turns as are given, up to the first that waits;
* `Node.poll` — all turns that can be taken now.
-/

namespace ObservableTree

/-- A loop between two of its turns: the node, and the instant that the loop is waiting for. -/
structure RunLoop (cfg : Settings) where
  node : Node cfg
  wake : Instant
deriving DecidableEq

namespace RunLoop

variable {cfg : Settings}

/-- A loop that looks up its instant. -/
def start (n : Node cfg) : RunLoop cfg := ⟨n, n.resource.nextWake⟩

/-- A loop that goes on in a node that may have changed. -/
def resume (n : Node cfg) (kept : Option Instant) : RunLoop cfg :=
  match kept with
  | some wake => ⟨n, wake⟩
  | none => start n

/-- The loop after a reaction of the resource, with the instant looked up anew. -/
def after (n : Node cfg) (x : Reaction cfg Unit) : RunLoop cfg × List Trace :=
  (start (n.absorb x), x.traces)

/-- One turn, nothing if the loop has to wait. The queue is looked at first. -/
def turn (l : RunLoop cfg) : Option (RunLoop cfg × List Trace) :=
  match l.node.inbox with
  | event :: rest =>
    some (after { l.node with inbox := rest } (l.node.resource.onEvent event l.node.clock.now))
  | [] =>
    if l.node.clock.wakes l.wake then
      some (after l.node (l.node.resource.onTimer l.node.clock.now))
    else none

/-- So many turns, or fewer if the loop has to wait. -/
def turns : (count : Nat) → RunLoop cfg → RunLoop cfg × List Trace
  | 0, l => (l, [])
  | count + 1, l =>
    match l.turn with
    | some (l', traces) =>
      let more := turns count l'
      (more.1, traces ++ more.2)
    | none => (l, [])

/-- The turns that can be taken now: one for each event that waits, and at most one for the timers,
since these have no more work to do at the instant they were called at. -/
def poll (l : RunLoop cfg) : RunLoop cfg × List Trace := turns (l.node.inbox.length + 2) l

theorem turn_cons {l : RunLoop cfg} {event : TopologyEvent} {rest : List TopologyEvent}
    (h : l.node.inbox = event :: rest) :
    l.turn = some (after { l.node with inbox := rest }
      (l.node.resource.onEvent event l.node.clock.now)) := by
  simp only [turn, h]

end RunLoop

end ObservableTree
