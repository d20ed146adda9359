import ObservableTree.Exchange.Format
import ObservableTree.Exchange.Offset
import ObservableTree.Neighbor.Table
import ObservableTree.Routing

/-!
# Traces and log lines

A node traces what its handlers do. The traces are complete: they suffice to rebuild the table of
neighbors, the deadline of the timer and whether the next read starts afresh. Each of them makes a line
of a log, with a level, the part of the program that it comes from, a message and named fields:

`WARN source: query rejected error=block offset beyond end of representation status=4.02`

* `Trace` — one thing that a node did;
* `LogLine` — a line in its parts, `LogLine.text` — as written;
* `Trace.line` — the line for a trace.
-/

namespace ObservableTree

/-- One thing that a node did. -/
inductive Trace where
  /-- Traffic from a neighbor, and what the table made of it. -/
  | packetObserved (now : Instant) (source : Address) (outcome : Observation)
  /-- A neighbor took a free slot; `occupied` slots are now in use. -/
  | neighborTracked (now : Instant) (address : Address) (occupied : Nat)
  /-- The table is full and a neighbor is not tracked. -/
  | neighborDropped (now : Instant) (address : Address)
  /-- A sweep freed the slot of a silent neighbor. -/
  | neighborEvicted (now : Instant) (entry : Entry)
  /-- A change that does not alter the children. -/
  | changeIgnored (change : RouteChange)
  /-- A change armed the timer. -/
  | debounceArmed (now : Instant) (change : RouteChange) (destination : Address) (fireAt : Instant)
  /-- The timer fired and subscribers were told. -/
  | notificationFired (now : Instant) (coalesced : Nat)
  /-- A part of the document was served. -/
  | chunkServed (resumeFrom written total : Nat) (next : Offset) (fresh : Bool)
  /-- A read was refused. -/
  | queryRejected (cause : Refusal)
deriving DecidableEq

/-! ### Lines -/

/-- How much a line matters. -/
inductive LogLevel where
  | debug
  | info
  | warn
deriving DecidableEq

/-- The name of a level. -/
def LogLevel.name : LogLevel → String
  | debug => "DEBUG"
  | info => "INFO"
  | warn => "WARN"

/-- A line of a log. -/
structure LogLine where
  level : LogLevel
  target : String
  message : String
  fields : List (String × String)
deriving DecidableEq

/-- A line as written, with a blank in front of each field. -/
def LogLine.text (l : LogLine) : String :=
  l.level.name ++ " " ++ l.target ++ ": " ++ l.message ++
    String.join (l.fields.map fun f => " " ++ f.1 ++ "=" ++ f.2)

namespace Trace

/-- The name under which a node writes its lines. -/
def target : String := "dagview"

/-- A line under the node's name. -/
def lineOf (level : LogLevel) (message : String) (fields : List (String × String)) : LogLine :=
  ⟨level, target, message, fields⟩

/-- The line for a trace. -/
def line : Trace → LogLine
  | packetObserved now source outcome =>
    lineOf .debug "packet observed"
      [("timestamp", now.text), ("from", source.text), ("outcome", outcome.name)]
  | neighborTracked now address occupied =>
    lineOf .info "neighbor tracked"
      [("timestamp", now.text), ("address", address.text), ("occupied", toString occupied)]
  | neighborDropped now address =>
    lineOf .warn "reachability table full, neighbor not tracked"
      [("timestamp", now.text), ("address", address.text)]
  | neighborEvicted now entry =>
    lineOf .info "stale neighbor evicted"
      [("timestamp", now.text), ("address", entry.address.text), ("last_seen", entry.lastSeen.text)]
  | changeIgnored change => lineOf .debug "route change ignored" [("notification", change.name)]
  | debounceArmed now change destination fireAt =>
    lineOf .debug "notification debounced"
      [("timestamp", now.text), ("notification", change.name), ("route", destination.text),
        ("fire_at", fireAt.text)]
  | notificationFired now coalesced =>
    lineOf .info "subscribers notified"
      [("timestamp", now.text), ("coalesced", toString coalesced)]
  | chunkServed resumeFrom written total next fresh =>
    lineOf .debug "chunk served"
      [("resume_from", toString resumeFrom), ("written", toString written),
        ("total", toString total), ("next", next.labelled), ("fresh", toString fresh)]
  | queryRejected cause =>
    lineOf .warn "query rejected" [("error", cause.message), ("status", cause.status.text)]

end Trace

end ObservableTree
