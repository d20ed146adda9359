import ObservableTree.Proofs.Agenda
import ObservableTree.Proofs.Freshness
import ObservableTree.Simulation.Step

/-!
# What an event does

Each kind of event does something else, but what it means for the course of a simulation can be said
for all of them at once:

* `Simulation.told` — the inputs that the node gets, `Simulation.notices` — the notifications that
  it raises on them;
* `Simulation.news`, `scheduleAll_perm` — what is put on the agenda, each event under its number,
  `scheduleAll_induction` — one after another, `follows_of_mem_news` — what follows from which event;
* `Simulation.Effect` — that no more than this is done to the node, the agenda and the timer;
* `happen_effect` — every event has this effect.

A node is *idle* when nothing waits in its queue and no notification waits to be taken up, as it is
between two events.
-/

namespace ObservableTree

/-! ### Reads without inputs -/

namespace Resource

variable {cfg : Settings}

/-- The same resource, or with its notification settled. -/
def SettledAtMost (r q : Resource cfg) : Prop := q = r ∨ q = { r with fresh := false }

theorem SettledAtMost.trans {r q p : Resource cfg} (hrq : SettledAtMost r q)
    (hqp : SettledAtMost q p) : SettledAtMost r p := by
  rcases hrq with rfl | rfl
  · exact hqp
  · rcases hqp with rfl | rfl
    · exact .inr rfl
    · exact .inr rfl

theorem read_quiet (r : Resource cfg) (g : Routing) (q : Request) (buffer : List UInt8)
    (offset : Offset) :
    let x := r.read g q buffer offset []
    x.notices = 0 ∧ SettledAtMost r x.state := by
  have hinputs : (Call.read .boot g q buffer offset []).inputs = [] := by
    show (if q.acceptsJson = false then [] else if buffer = [] then [] else []) = ([] : List Input)
    rw [ite_self, ite_self]
  obtain ⟨hnotices, -⟩ := read_cases r .boot g q buffer offset []
  have hstate := call_state r (.read .boot g q buffer offset [])
  rw [hinputs] at hnotices hstate
  exact ⟨hnotices, hstate⟩

/-- A row of reads without inputs at most settles the notification. -/
theorem readOn_quiet (g : Routing) (block left count : Nat) (body : List UInt8) (offset : Offset)
    (r : Resource cfg) :
    let x := readOn (.steady g) block left count body offset r
    x.notices = 0 ∧ SettledAtMost r x.state := by
  induction left generalizing count body offset r with
  | zero => exact ⟨rfl, .inl rfl⟩
  | succ left ih =>
    obtain ⟨hnotices, hstate⟩ := read_quiet r g .any (List.replicate block 0) offset
    rw [readOn]
    dsimp only [Surroundings.steady]
    rw [Reaction.andThen_notices, Reaction.andThen_state, hnotices, Nat.zero_add]
    split
    · exact ⟨rfl, hstate⟩
    · split
      · exact ⟨rfl, hstate⟩
      · obtain ⟨hmore, hlast⟩ := ih _ _ _ _
        exact ⟨hmore, hstate.trans hlast⟩

end Resource

/-- What can follow from an event: packets, reports of changes, and retrievals. -/
def Event.IsSequel : Event → Prop
  | .packet _ _ | .routeChange _ _ | .fetch _ => True
  | .timer _ | .action _ => False

namespace Simulation

variable {cfg : Settings} {s : Simulation cfg}

/-! ### What the node gets, and what comes of it -/

/-- The inputs that the node gets from an event. -/
def told (s : Simulation cfg) : Event → List Input
  | .packet source generation =>
    match s.traffic? source with
    | none => []
    | some t =>
      if t.alive = false ∨ t.generation ≠ generation then []
      else if s.drawLoss.2 then [] else [.event (.packet source) s.now]
  | .routeChange change route =>
    [.event (.routeChanged change route s.routing.routes.length) s.now]
  | .timer generation => if generation ≠ s.timerGeneration then [] else [.timer s.now]
  | .fetch _ | .action _ => []

/-- The notifications that the node raises on an event. -/
def notices (s : Simulation cfg) (event : Event) : Nat :=
  (s.node.resource.reactAll (s.told event)).notices

/-- The retrievals that a notification makes the observers schedule. -/
def fetches (s : Simulation cfg) : List (Instant × Event) :=
  (List.range s.observers.length).map fun observer => (s.now + s.fetchDelay, .fetch observer)

/-- What an action puts on the agenda. -/
def actionNews (s : Simulation cfg) : Action → List (Instant × Event)
  | .addRoute route => [(s.now, .routeChange .routeAdded route)]
  | .removeRoute destination =>
    (s.routing.route? destination).toList.map fun route => (s.now, .routeChange .routeRemoved route)
  | .setParent parent => [(s.now, .routeChange .defaultRouteAdded ⟨.unspecified, parent⟩)]
  | .clearParent =>
    s.routing.parent.toList.map fun parent =>
      (s.now, .routeChange .defaultRouteRemoved ⟨.unspecified, parent⟩)
  | .startTraffic neighbor _ =>
    [(s.now, .packet neighbor (((s.traffic? neighbor).map Traffic.generation).getD 0 + 1))]
  | .setPrefix _ | .stopTraffic _ | .takeSnapshot => []

/-- What an event puts on the agenda, in order. -/
def news (s : Simulation cfg) : Event → List (Instant × Event)
  | .packet source generation =>
    match s.traffic? source with
    | none => []
    | some t =>
      if t.alive = false ∨ t.generation ≠ generation then []
      else [(s.now + t.interval, .packet source generation)]
  | .timer generation => (List.replicate (s.notices (.timer generation)) s.fetches).flatten
  | .action action => s.actionNews action
  | .routeChange _ _ | .fetch _ => []

/-- Schedules several events, one after another. -/
def scheduleAll (s : Simulation cfg) (events : List (Instant × Event)) : Simulation cfg :=
  events.foldl (fun s e => s.schedule e.1 e.2) s

theorem scheduleAll_append (s : Simulation cfg) (es fs : List (Instant × Event)) :
    s.scheduleAll (es ++ fs) = (s.scheduleAll es).scheduleAll fs := List.foldl_append

/-- Scheduled events with running numbers from a number on. -/
def numbered (n : Nat) : List (Instant × Event) → List Scheduled
  | [] => []
  | e :: es => ⟨e.1, n, e.2⟩ :: numbered (n + 1) es

/-- Nothing waits in the node's queue, and no notification waits to be taken up. -/
structure Idle (s : Simulation cfg) : Prop where
  inbox : s.node.inbox = []
  pending : s.node.notifier.pending = 0

/-- The effect of an event: the node gets the inputs that are meant for it, what follows is put on
the agenda, and the timer that has been called is no longer awaited. -/
structure Effect (s : Simulation cfg) (event : Event) (s' : Simulation cfg) : Prop where
  idle : s'.Idle
  resource : Resource.SettledAtMost (s.node.resource.reactAll (s.told event)).state s'.node.resource
  total : s'.node.notifier.total = s.node.notifier.total + s.notices event
  counted : s'.metrics.notifications = s.metrics.notifications + s.notices event
  now : s'.now = s.now
  agenda : s'.agenda = (s.scheduleAll (s.news event)).agenda
  nextNumber : s'.nextNumber = s.nextNumber + (s.news event).length
  timerGeneration : s'.timerGeneration = s.timerGeneration
  scheduledWake :
    s'.scheduledWake = if event = .timer s.timerGeneration then none else s.scheduledWake
  observers : s'.observers.length = s.observers.length
  fetchDelay : s'.fetchDelay = s.fetchDelay
  traffic : (∃ action, event = .action action) ∨ s'.traffic = s.traffic

/-- The node gets nothing, an event, or a call of its timers. -/
theorem told_cases (s : Simulation cfg) (event : Event) :
    s.told event = [] ∨ (∃ e, s.told event = [.event e s.now]) ∨
      (event = .timer s.timerGeneration ∧ s.told event = [.timer s.now]) := by
  cases event with
  | packet source generation =>
    rw [told]
    split
    · exact .inl rfl
    · split
      · exact .inl rfl
      · split
        · exact .inl rfl
        · exact .inr (.inl ⟨_, rfl⟩)
  | routeChange change route => exact .inr (.inl ⟨_, rfl⟩)
  | timer generation =>
    rw [told]
    split
    · exact .inl rfl
    · next hlive => exact .inr (.inr ⟨by rw [Decidable.not_not.mp hlive], rfl⟩)
  | fetch | action => exact .inl rfl

/-! ### Scheduling -/

/-- **One event after another.** What scheduling each of them preserves holds when all are scheduled. -/
theorem scheduleAll_induction {P : Simulation cfg → Prop} {events : List (Instant × Event)} (h : P s)
    (hstep : ∀ t e, t.now = s.now → e ∈ events → P t → P (t.schedule e.1 e.2)) :
    P (s.scheduleAll events) := by
  induction events generalizing s with
  | nil => exact h
  | cons e events ih =>
    exact ih (hstep s e rfl List.mem_cons_self h) fun t d hnow hd =>
      hstep t d hnow (List.mem_cons_of_mem e hd)

theorem scheduleAll_frame (s : Simulation cfg) (events : List (Instant × Event)) :
    s.scheduleAll events =
      { s with
          agenda := (s.scheduleAll events).agenda
          nextNumber := (s.scheduleAll events).nextNumber } := by
  induction events generalizing s with
  | nil => rfl
  | cons e events ih => exact ih (s.schedule e.1 e.2)

/-- What is scheduled depends on nothing but the agenda and the running number. -/
theorem scheduleAll_congr {s' : Simulation cfg} (hagenda : s'.agenda = s.agenda)
    (hnumber : s'.nextNumber = s.nextNumber) (events : List (Instant × Event)) :
    (s'.scheduleAll events).agenda = (s.scheduleAll events).agenda := by
  induction events generalizing s s' with
  | nil => exact hagenda
  | cons e events ih =>
    refine ih ?_ ?_
    · show s'.agenda.insert ⟨e.1, s'.nextNumber, e.2⟩ = s.agenda.insert ⟨e.1, s.nextNumber, e.2⟩
      rw [hagenda, hnumber]
    · exact congrArg (· + 1) hnumber

theorem scheduleAll_perm (s : Simulation cfg) (events : List (Instant × Event)) :
    (s.scheduleAll events).agenda.entries.Perm
      (numbered s.nextNumber events ++ s.agenda.entries) := by
  induction events generalizing s with
  | nil => exact List.Perm.refl _
  | cons e events ih =>
    have hfirst := Agenda.insertIn_perm ⟨e.1, s.nextNumber, e.2⟩ s.agenda.entries
    exact (ih (s.schedule e.1 e.2)).trans ((hfirst.append_left _).trans List.perm_middle)

theorem scheduleAll_sorted (h : s.agenda.Sorted) (events : List (Instant × Event)) :
    (s.scheduleAll events).agenda.Sorted :=
  scheduleAll_induction (P := fun t => t.agenda.Sorted) h fun _ _ _ _ ht => Agenda.insert_sorted ht _

theorem mem_of_mem_numbered {n : Nat} {events : List (Instant × Event)} {e : Scheduled}
    (h : e ∈ numbered n events) : (e.time, e.event) ∈ events := by
  induction events generalizing n with
  | nil => cases h
  | cons x events ih =>
    rcases List.mem_cons.mp h with rfl | hrest
    · exact List.mem_cons_self
    · exact List.mem_cons_of_mem x (ih hrest)

theorem scheduleAll_nextNumber (s : Simulation cfg) (events : List (Instant × Event)) :
    (s.scheduleAll events).nextNumber = s.nextNumber + events.length := by
  induction events generalizing s with
  | nil => rfl
  | cons e events ih =>
    rw [List.length_cons, Nat.add_comm events.length, ← Nat.add_assoc]
    exact ih (s.schedule e.1 e.2)

/-- One thing that can follow from an event, and when. -/
inductive Follows (s : Simulation cfg) : Event → Instant × Event → Prop
  /-- A session goes on, an interval later. -/
  | packet {source : Address} {t : Traffic} (h : s.traffic? source = some t) (alive : t.alive = true) :
    Follows s (.packet source t.generation) (s.now + t.interval, .packet source t.generation)
  /-- An observer fetches, some time after a notification. -/
  | retrieval {generation observer : Nat} (h : observer < s.observers.length) :
    Follows s (.timer generation) (s.now + s.fetchDelay, .fetch observer)
  /-- A session starts, at once. -/
  | start (source : Address) (interval : Span) (generation : UInt32) :
    Follows s (.action (.startTraffic source interval)) (s.now, .packet source generation)
  /-- The node is told of a change, at once. -/
  | report (action : Action) (change : RouteChange) (route : Route) :
    Follows s (.action action) (s.now, .routeChange change route)

/-- Nothing else is put on the agenda. -/
theorem follows_of_mem_news {event : Event} {x : Instant × Event} (h : x ∈ s.news event) :
    s.Follows event x := by
  cases event with
  | packet source generation =>
    rw [news] at h
    split at h
    · cases h
    · next t ht =>
      split at h
      · cases h
      · next hlive =>
        obtain ⟨halive, hgeneration⟩ := not_or.mp hlive
        obtain rfl := Decidable.not_not.mp hgeneration
        rw [List.mem_singleton.mp h]
        exact .packet ht (eq_true_of_ne_false halive)
  | timer generation =>
    obtain ⟨row, hrow, hx⟩ := List.mem_flatten.mp h
    rw [List.eq_of_mem_replicate hrow] at hx
    obtain ⟨observer, hobserver, rfl⟩ := List.mem_map.mp hx
    exact .retrieval (List.mem_range.mp hobserver)
  | routeChange | fetch => cases h
  | action action =>
    cases action with
    | startTraffic =>
      rw [List.mem_singleton.mp h]
      exact .start _ _ _
    | addRoute | setParent =>
      rw [List.mem_singleton.mp h]
      exact .report _ _ _
    | removeRoute | clearParent =>
      obtain ⟨y, -, rfl⟩ := List.mem_map.mp h
      exact .report _ _ _
    | setPrefix | stopTraffic | takeSnapshot => cases h

/-- No event puts a timer or an action on the agenda. -/
theorem isSequel_of_mem_news {event : Event} {x : Instant × Event} (h : x ∈ s.news event) :
    x.2.IsSequel := by
  cases follows_of_mem_news h <;> trivial

/-! ### Packets and route changes -/

theorem drawLoss_frame (s : Simulation cfg) :
    s.drawLoss.1 = { s with randomWord := s.drawLoss.1.randomWord } := by
  unfold drawLoss
  split <;> rfl

/-- An idle node handles an event at once, whatever has been counted and drawn. -/
theorem submit_of_idle (h : s.Idle) (m : Metrics) (word : UInt64) (event : TopologyEvent) :
    { s with metrics := m, randomWord := word }.submit event =
      { s with metrics := m, randomWord := word }.absorb (s.node.resource.onEvent event s.now) := by
  have hroom : s.node.inbox.length < inboxCapacity := by
    rw [h.inbox]
    decide
  have hsent : s.node.send? event = some { s.node with inbox := [event] } := by
    rw [Node.send?, if_pos hroom, h.inbox]
    rfl
  have hnode : { s.node with inbox := [] } = s.node := by
    rw [← h.inbox]
  rw [submit, hsent]
  show Simulation.absorb
    { s with metrics := m, randomWord := word, node := { s.node with inbox := [] } } _ = _
  rw [hnode]

/-- Events raise no notification, only the timers do. -/
theorem reactAll_event_notices (r : Resource cfg) (event : TopologyEvent) (now : Instant) :
    (r.reactAll [.event event now]).notices = 0 := by
  show (r.onEvent event now).notices + 0 = 0
  rw [Resource.onEvent_notices]

/-- An event without notifications: the node takes in what is meant for it, and the timer goes on
waiting. -/
theorem effect_of_quiet {event : Event} {s' : Simulation cfg} (h : s.Idle)
    (hquiet : s.notices event = 0) (hlive : event ≠ .timer s.timerGeneration)
    (hnode : s'.node = s.node.absorb (s.node.resource.reactAll (s.told event)))
    (hcounted : s'.metrics.notifications = s.metrics.notifications)
    (hnow : s'.now = s.now)
    (hagenda : s'.agenda = (s.scheduleAll (s.news event)).agenda)
    (hnumber : s'.nextNumber = s.nextNumber + (s.news event).length)
    (hgeneration : s'.timerGeneration = s.timerGeneration)
    (hwake : s'.scheduledWake = s.scheduledWake)
    (hobservers : s'.observers.length = s.observers.length)
    (hdelay : s'.fetchDelay = s.fetchDelay)
    (htraffic : (∃ action, event = .action action) ∨ s'.traffic = s.traffic) :
    Effect s event s' where
  idle := by
    refine ⟨by rw [hnode, Node.absorb_inbox, h.inbox], ?_⟩
    rw [hnode]
    show s.node.notifier.pending + s.notices event = 0
    rw [h.pending, hquiet]
  resource := by
    rw [hnode]
    exact .inl rfl
  total := by
    rw [hnode]
    rfl
  counted := by rw [hcounted, hquiet, Nat.add_zero]
  now := hnow
  agenda := hagenda
  nextNumber := hnumber
  timerGeneration := hgeneration
  scheduledWake := by rw [if_neg hlive, hwake]
  observers := hobservers
  fetchDelay := hdelay
  traffic := htraffic

/-- Nothing happens. -/
theorem effect_of_void {event : Event} (h : s.Idle) (htold : s.told event = [])
    (hnews : s.news event = []) (hlive : event ≠ .timer s.timerGeneration) :
    Effect s event s := by
  have hquiet : s.notices event = 0 := by
    rw [notices, htold]
    rfl
  have hnode : s.node = s.node.absorb (s.node.resource.reactAll (s.told event)) := by
    rw [htold]
    rfl
  refine effect_of_quiet h hquiet hlive hnode rfl rfl ?_ ?_ rfl rfl rfl rfl (.inr rfl)
  all_goals
    rw [hnews]
    rfl

theorem deliverPacket_effect (h : s.Idle) (source : Address) (generation : UInt32) :
    Effect s (.packet source generation) (s.deliverPacket source generation) := by
  have hlive : Event.packet source generation ≠ .timer s.timerGeneration := nofun
  cases htraffic : s.traffic? source with
  | none =>
    have hvoid : s.deliverPacket source generation = s := by rw [deliverPacket, htraffic]
    rw [hvoid]
    exact effect_of_void h (by rw [told, htraffic]) (by rw [news, htraffic]) hlive
  | some t =>
    by_cases hdead : t.alive = false ∨ t.generation ≠ generation
    · have hvoid : s.deliverPacket source generation = s := by
        rw [deliverPacket, htraffic]
        exact if_pos hdead
      rw [hvoid]
      refine effect_of_void h ?_ ?_ hlive
      · rw [told, htraffic]
        exact if_pos hdead
      · rw [news, htraffic]
        exact if_pos hdead
    · have hnews : s.news (.packet source generation) =
          [(s.now + t.interval, .packet source generation)] := by
        rw [news, htraffic]
        exact if_neg hdead
      have htold : s.told (.packet source generation) =
          if s.drawLoss.2 then [] else [.event (.packet source) s.now] := by
        rw [told, htraffic]
        exact if_neg hdead
      have hframe := drawLoss_frame s
      rw [deliverPacket, htraffic]
      dsimp only
      rw [if_neg hdead, hframe]
      cases hlost : s.drawLoss.2 with
      | true =>
        rw [hlost, if_pos rfl] at htold
        rw [if_pos rfl]
        have hquiet : s.notices (.packet source generation) = 0 := by
          rw [notices, htold]
          rfl
        refine effect_of_quiet h hquiet hlive (by rw [htold]; rfl) rfl rfl ?_ ?_ rfl rfl rfl
          rfl (.inr rfl)
        all_goals
          rw [hnews]
          rfl
      | false =>
        rw [hlost, if_neg Bool.false_ne_true] at htold
        rw [if_neg Bool.false_ne_true, submit_of_idle h]
        have hquiet : s.notices (.packet source generation) = 0 := by
          rw [notices, htold, reactAll_event_notices]
        refine effect_of_quiet h hquiet hlive (by rw [htold]; rfl) rfl rfl ?_ ?_ rfl rfl rfl
          rfl (.inr rfl)
        all_goals
          rw [hnews]
          rfl

theorem reportChange_effect (h : s.Idle) (change : RouteChange) (route : Route) :
    Effect s (.routeChange change route) (s.reportChange change route) := by
  rw [reportChange, submit_of_idle h]
  have hquiet : s.notices (.routeChange change route) = 0 := reactAll_event_notices _ _ _
  exact effect_of_quiet h hquiet nofun rfl rfl rfl rfl rfl rfl rfl rfl rfl (.inr rfl)

/-! ### Actions -/

theorem execute_effect (h : s.Idle) (action : Action) :
    Effect s (.action action) (s.execute action) := by
  cases action with
  | addRoute | setParent | setPrefix | startTraffic | takeSnapshot =>
    exact effect_of_quiet h rfl nofun rfl rfl rfl rfl rfl rfl rfl rfl rfl (.inl ⟨_, rfl⟩)
  | removeRoute destination =>
    cases hroute : s.routing.route? destination with
    | none =>
      have hvoid : s.execute (.removeRoute destination) = s := by
        simp only [execute, hroute]
      rw [hvoid]
      exact effect_of_void h rfl (by simp only [news, actionNews, hroute]; rfl) nofun
    | some route => 
      have hnews : s.news (.action (.removeRoute destination)) =
          [(s.now, .routeChange .routeRemoved route)] := by
        simp only [news, actionNews, hroute, Option.toList_some, List.map_cons, List.map_nil]
      simp only [execute, hroute]
      refine effect_of_quiet h rfl nofun rfl rfl rfl ?_ ?_ rfl rfl rfl rfl (.inl ⟨_, rfl⟩)
      all_goals
        rw [hnews]
        rfl
  | clearParent =>
    cases hparent : s.routing.parent with
    | none =>
      have hvoid : s.execute .clearParent = s := by
        simp only [execute, hparent]
      rw [hvoid]
      exact effect_of_void h rfl (by simp only [news, actionNews, hparent]; rfl) nofun
    | some parent =>
      have hnews : s.news (.action .clearParent) =
          [(s.now, .routeChange .defaultRouteRemoved ⟨.unspecified, parent⟩)] := by
        simp only [news, actionNews, hparent, Option.toList_some, List.map_cons, List.map_nil]
      simp only [execute, hparent]
      refine effect_of_quiet h rfl nofun rfl rfl rfl ?_ ?_ rfl rfl rfl rfl (.inl ⟨_, rfl⟩)
      all_goals
        rw [hnews]
        rfl
  | stopTraffic neighbor =>
    cases htraffic : s.traffic? neighbor with
    | none =>
      have hvoid : s.execute (.stopTraffic neighbor) = s := by
        simp only [execute, stopTraffic, htraffic]
      rw [hvoid]
      exact effect_of_void h rfl rfl nofun
    | some t =>
      simp only [execute, stopTraffic, htraffic]
      exact effect_of_quiet h rfl nofun rfl rfl rfl rfl rfl rfl rfl rfl rfl (.inl ⟨_, rfl⟩)

/-! ### Retrievals and timers -/

theorem fetch_effect (h : s.Idle) (observer : Nat) :
    Effect s (.fetch observer) (s.fetch observer) := by
  cases hobserver : s.observers[observer]? with
  | none =>
    have hvoid : s.fetch observer = s := by rw [fetch, hobserver]
    rw [hvoid]
    exact effect_of_void h rfl rfl nofun
  | some o =>
    rw [fetch, hobserver]
    dsimp only
    have hquiet := Resource.readOn_quiet s.routing o.blockSize maxExchanges 0 [] .done
      s.node.resource
    generalize hx : o.fetch s.node.resource (.steady s.routing) s.now = x
    have hnotices : x.notices = 0 := hx ▸ hquiet.1
    have hstate : Resource.SettledAtMost s.node.resource x.state := hx ▸ hquiet.2
    obtain ⟨⟨o', result⟩, r', count, traces⟩ := x
    cases hnotices
    cases result with
    | ok | error =>
      exact
        { idle := ⟨h.inbox, h.pending⟩
          resource := hstate
          total := rfl
          counted := rfl
          now := rfl
          agenda := rfl
          nextNumber := rfl
          timerGeneration := rfl
          scheduledWake := rfl
          observers := List.length_set
          fetchDelay := rfl
          traffic := .inr rfl }

theorem scheduleAll_metrics (s : Simulation cfg) (m : Metrics) (events : List (Instant × Event)) :
    { s.scheduleAll events with metrics := m } = { s with metrics := m }.scheduleAll events := by
  induction events generalizing s with
  | nil => rfl
  | cons e events ih => exact ih (s.schedule e.1 e.2)

theorem announce_eq (s : Simulation cfg) :
    s.announce =
      { s with metrics := { s.metrics with notifications := s.metrics.notifications + 1 } }.scheduleAll
        s.fetches := by
  rw [announce, scheduleAll, fetches, List.foldl_map]

/-- Several notifications make the observers schedule as many rows of retrievals. -/
theorem announceAll_eq (count : Nat) (s : Simulation cfg) :
    announceAll count s =
      { s with metrics := { s.metrics with
          notifications := s.metrics.notifications + count } }.scheduleAll
        (List.replicate count s.fetches).flatten := by
  induction count generalizing s with
  | zero => rfl
  | succ count ih =>
    have hframe := scheduleAll_frame
      { s with metrics := { s.metrics with notifications := s.metrics.notifications + 1 } } s.fetches
    have hfetches : s.announce.fetches = s.fetches := by
      rw [announce_eq, hframe]
      rfl
    have hmetrics : s.announce.metrics =
        { s.metrics with notifications := s.metrics.notifications + 1 } := by
      rw [announce_eq, hframe]
    rw [announceAll, ih, hfetches, hmetrics, announce_eq, scheduleAll_metrics,
      List.replicate_succ, List.flatten_cons, scheduleAll_append, Nat.add_right_comm, Nat.add_assoc]

theorem fireTimer_effect (h : s.Idle) (generation : Nat) :
    Effect s (.timer generation) (s.fireTimer generation) := by
  by_cases hstale : generation ≠ s.timerGeneration
  · rw [fireTimer_of_stale hstale]
    have htold : s.told (.timer generation) = [] := if_pos hstale
    have hnotices : s.notices (.timer generation) = 0 := by
      rw [notices, htold]
      rfl
    refine effect_of_void h htold ?_ fun hsame => hstale (Event.timer.inj hsame)
    rw [news, hnotices]
    rfl
  · rw [ne_eq, Decidable.not_not] at hstale
    subst hstale
    have htold : s.told (.timer s.timerGeneration) = [.timer s.now] := if_neg (not_not_intro rfl)
    have hnotices : s.notices (.timer s.timerGeneration) =
        (s.node.resource.onTimer s.now).notices := by
      rw [notices, htold]
      rfl
    have htaken : ({ s with scheduledWake := none }.absorb
        (s.node.resource.onTimer s.now)).node.notifier.take.1 =
          s.notices (.timer s.timerGeneration) := by
      show s.node.notifier.pending + (s.node.resource.onTimer s.now).notices = _
      rw [h.pending, hnotices, Nat.zero_add]
    rw [fireTimer, if_neg (not_not_intro rfl)]
    dsimp only
    rw [htaken, announceAll_eq, scheduleAll_frame]
    exact
      { idle := ⟨h.inbox, rfl⟩
        resource := by
          rw [htold]
          exact .inl rfl
        total := congrArg (s.node.notifier.total + ·) hnotices.symm
        counted := rfl
        now := rfl
        agenda := by
          refine scheduleAll_congr ?_ ?_ _
          · rfl
          · rfl
        nextNumber := scheduleAll_nextNumber _ (s.news (.timer s.timerGeneration))
        timerGeneration := rfl
        scheduledWake := (if_pos rfl).symm
        observers := rfl
        fetchDelay := rfl
        traffic := .inr rfl }

/-- **Every event has its effect.** -/
theorem happen_effect (h : s.Idle) (event : Event) : Effect s event (s.happen event) := by
  cases event with
  | packet source generation => exact deliverPacket_effect h source generation
  | routeChange change route => exact reportChange_effect h change route
  | timer generation => exact fireTimer_effect h generation
  | fetch observer => exact fetch_effect h observer
  | action action => exact execute_effect h action

end Simulation

end ObservableTree
