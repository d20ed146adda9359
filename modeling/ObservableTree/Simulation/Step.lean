import ObservableTree.Simulation.Basic

/-!
# One event

* `Simulation.submit` — an event goes through the node's queue, as from the hooks of a real node;
* `Simulation.deliverPacket`, `reportChange`, `fireTimer`, `fetch`, `execute` — what each kind of
  event does;
* `Simulation.process` — one event, after which the timer is put in order.
-/

namespace ObservableTree

namespace Simulation

variable {cfg : Settings}

/-! ### Packets and route changes -/

/-- Handles what waits in the node's queue, oldest first. -/
def drainInbox (s : Simulation cfg) : Simulation cfg :=
  s.node.inbox.foldl (fun s event => s.absorb (s.node.resource.onEvent event s.now))
    { s with node := { s.node with inbox := [] } }

/-- Puts an event into the node's queue, where it is lost if the queue is full, and has the queue
handled. -/
def submit (s : Simulation cfg) (event : TopologyEvent) : Simulation cfg :=
  match s.node.send? event with
  | some n => { s with node := n }.drainInbox
  | none => (s.jot (.queueFull event)).drainInbox

/-- Draws whether a packet is lost. No word is drawn where nothing can be lost. -/
def drawLoss (s : Simulation cfg) : Simulation cfg × Bool :=
  if s.lossRate.isPositive then
    ({ s with randomWord := nextWord s.randomWord }, s.lossRate.loses (nextWord s.randomWord))
  else (s, false)

/-- A packet of a session that goes on: it is lost or handed to the node, and the next one is
scheduled. -/
def deliverPacket (s : Simulation cfg) (source : Address) (generation : UInt32) :
    Simulation cfg :=
  match s.traffic? source with
  | none => s
  | some t =>
    if t.alive = false ∨ t.generation ≠ generation then s
    else
      let drawn := s.drawLoss
      let m := drawn.1.metrics
      let handed :=
        if drawn.2 then { drawn.1 with metrics := { m with packetsDropped := m.packetsDropped + 1 } }
        else
          { drawn.1 with metrics := { m with packetsObserved := m.packetsObserved + 1 } }.submit
            (.packet source)
      handed.schedule (handed.now + t.interval) (.packet source generation)

/-- Reports a change of the routes to the node. -/
def reportChange (s : Simulation cfg) (change : RouteChange) (route : Route) : Simulation cfg :=
  { s with metrics := { s.metrics with routeChanges := s.metrics.routeChanges + 1 } }.submit
    (.routeChanged change route s.routing.routes.length)

/-! ### Timers and retrievals -/

/-- A notification: every observer will fetch the document after the delay. -/
def announce (s : Simulation cfg) : Simulation cfg :=
  (List.range s.observers.length).foldl
    (fun s' observer => s'.schedule (s.now + s.fetchDelay) (.fetch observer))
    { s with metrics := { s.metrics with notifications := s.metrics.notifications + 1 } }

/-- So many notifications. -/
def announceAll : (count : Nat) → Simulation cfg → Simulation cfg
  | 0, s => s
  | count + 1, s => announceAll count s.announce

/-- Calls the node's timers, unless the timer was replaced, and passes notifications on. -/
def fireTimer (s : Simulation cfg) (generation : Nat) : Simulation cfg :=
  if generation ≠ s.timerGeneration then s
  else
    let called := { s with scheduledWake := none }.absorb (s.node.resource.onTimer s.now)
    let taken := called.node.notifier.take
    announceAll taken.1 { called with node := { called.node with notifier := taken.2 } }

/-- Counts and logs what an observer got. -/
def noteRetrieval (s : Simulation cfg) (observer : Nat) :
    Except FetchError Retrieval → Simulation cfg
  | .ok x =>
    { s with
        metrics :=
          { s.metrics with
              fetches := s.metrics.fetches + 1
              exchanges := s.metrics.exchanges + x.exchanges
              bytesServed := s.metrics.bytesServed + x.bodyLength } }.jot
      (.retrieved observer x.exchanges x.view.children.length)
  | .error cause =>
    { s with metrics := { s.metrics with fetchErrors := s.metrics.fetchErrors + 1 } }.jot
      (.retrievalFailed observer cause)

/-- An observer fetches the document. -/
def fetch (s : Simulation cfg) (observer : Nat) : Simulation cfg :=
  match s.observers[observer]? with
  | none => s
  | some o =>
    let x := o.fetch s.node.resource (.steady s.routing) s.now
    { s.absorb x with observers := s.observers.set observer x.value.1 }.noteRetrieval observer
      x.value.2

/-! ### Actions -/

/-- Has a change of the routes reported, after all that is already due now. -/
def scheduleChange (s : Simulation cfg) (change : RouteChange) (route : Route) : Simulation cfg :=
  s.schedule s.now (.routeChange change route)

/-- A neighbor starts to send, now and after each interval. -/
def startTraffic (s : Simulation cfg) (neighbor : Address) (interval : Span) : Simulation cfg :=
  let generation := ((s.traffic? neighbor).map Traffic.generation).getD 0 + 1
  (s.setTraffic neighbor ⟨interval, true, generation⟩).schedule s.now (.packet neighbor generation)

/-- A neighbor falls silent. -/
def stopTraffic (s : Simulation cfg) (neighbor : Address) : Simulation cfg :=
  match s.traffic? neighbor with
  | none => s
  | some t => s.setTraffic neighbor { t with alive := false }

/-- What an action does. -/
def execute (s : Simulation cfg) (action : Action) : Simulation cfg :=
  match action with
  | .addRoute route =>
    { s with routing := s.routing.addRoute route }.scheduleChange .routeAdded route
  | .removeRoute destination =>
    match s.routing.route? destination with
    | none => s
    | some route =>
      { s with routing := s.routing.removeRoute destination }.scheduleChange .routeRemoved route
  | .setParent parent =>
    { s with routing := s.routing.setParent (some parent) }.scheduleChange .defaultRouteAdded
      ⟨.unspecified, parent⟩
  | .clearParent =>
    match s.routing.parent with
    | none => s
    | some parent =>
      { s with routing := s.routing.setParent none }.scheduleChange .defaultRouteRemoved
        ⟨.unspecified, parent⟩
  | .setPrefix dagPrefix => { s with routing := s.routing.setPrefix dagPrefix }
  | .startTraffic neighbor interval => s.startTraffic neighbor interval
  | .stopTraffic neighbor => s.stopTraffic neighbor
  | .takeSnapshot => s.takeSnapshot

/-! ### Events -/

/-- What an event does. -/
def happen (s : Simulation cfg) (event : Event) : Simulation cfg :=
  match event with
  | .packet source generation => s.deliverPacket source generation
  | .routeChange change route => s.reportChange change route
  | .timer generation => s.fireTimer generation
  | .fetch observer => s.fetch observer
  | .action action => s.execute action

/-- One event, after which the timer is put in order. -/
def process (s : Simulation cfg) (event : Event) : Simulation cfg := (s.happen event).rescheduleTimer

/-- Takes the snapshot that is due, if one is. -/
def snapshotIfDue (s : Simulation cfg) : Simulation cfg :=
  match s.nextSnapshot with
  | none => s
  | some due =>
    if due ≤ s.now then
      { s.takeSnapshot with
          nextSnapshot := (s.snapshotInterval.map fun interval => due + interval).or (some due) }
    else s

theorem fireTimer_of_stale {s : Simulation cfg} {generation : Nat}
    (h : generation ≠ s.timerGeneration) : s.fireTimer generation = s := if_pos h

end Simulation

end ObservableTree
