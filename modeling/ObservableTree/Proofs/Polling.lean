import ObservableTree.Node.RunLoop
import ObservableTree.Proofs.Wake

/-!
# Polling the run loop

The loop of a node goes on only when it is polled, and until then it keeps the instant that it has
looked up. Still, each poll amounts to one row of calls: every event that waits, in order, and then
the timers if they have work to do by now.

* `Node.errands` — this row of calls;
* `errands_cons`, `turns_start` — the loop makes these calls, one in each turn, and then waits;
* `Host`, `Host.move` — a node whose loop is polled now and then, while events are sent and the clock
  is moved;
* `Host.Current` — the instant that the loop keeps is the one it would look up;
* `move_step` — one move; `poll_batched` — any row of moves, and what the next poll does.
-/

namespace ObservableTree

/-- The event that an input brings. -/
def Input.event? : Input → Option TopologyEvent
  | .event e _ => some e
  | .timer _ => none

/-! ### What a node has to do -/

namespace Node

variable {cfg : Settings} {n : Node cfg}

/-- What a node has to do at the instant that its clock shows: the events in its queue, and then the
timers, if there is work for them after these events. -/
def errands (n : Node cfg) : List Input :=
  let events := n.inbox.map fun event => Input.event event n.clock.now
  if (n.resource.reactAll events).state.nextWake ≤ n.clock.now then
    events ++ [.timer n.clock.now]
  else events

/-- The node when this has been done. -/
def settled (n : Node cfg) : Node cfg :=
  { n.absorb (n.resource.reactAll n.errands) with inbox := [] }

/-- The node when the first event of its queue has been handled. -/
def served (n : Node cfg) (event : TopologyEvent) (rest : List TopologyEvent) : Node cfg :=
  { n with inbox := rest }.absorb (n.resource.onEvent event n.clock.now)

theorem absorb_andThen {α β : Type} (n : Node cfg) (x : Reaction cfg α)
    (f : α → Resource cfg → Reaction cfg β) :
    n.absorb (x.andThen f) = (n.absorb x).absorb (f x.value x.state) := by
  simp [absorb, Notifier.raise, Reaction.andThen, Nat.add_assoc]

theorem errands_events (n : Node cfg) : n.errands.filterMap Input.event? = n.inbox := by
  have hevents : (n.inbox.map fun event => Input.event event n.clock.now).filterMap Input.event? =
      n.inbox := by
    induction n.inbox with
    | nil => rfl
    | cons event rest ih => simp [Input.event?, ih]
  unfold errands
  dsimp only
  split
  · rw [List.filterMap_append, hevents]
    exact List.append_nil _
  · exact hevents

theorem errands_of_due (h : n.inbox = []) (hdue : n.resource.nextWake ≤ n.clock.now) :
    n.errands = [.timer n.clock.now] := by
  rw [errands, h]
  exact if_pos hdue

theorem errands_of_quiet (h : n.inbox = []) (hquiet : n.clock.now < n.resource.nextWake) :
    n.errands = [] := by
  rw [errands, h]
  exact if_neg (Nat.not_le.mpr hquiet)

theorem errands_cons {event : TopologyEvent} {rest : List TopologyEvent}
    (h : n.inbox = event :: rest) :
    n.errands = .event event n.clock.now :: (n.served event rest).errands := by
  unfold errands
  rw [h]
  exact (apply_ite (List.cons (Input.event event n.clock.now)) _ _ _).symm

theorem settled_cons {event : TopologyEvent} {rest : List TopologyEvent}
    (h : n.inbox = event :: rest) : n.settled = (n.served event rest).settled := by
  rw [settled, errands_cons h, Resource.reactAll, absorb_andThen]
  rfl

/-- When a node has done what it has to do, there is no work left for the present instant. -/
theorem lt_nextWake_settled (hperiod : 0 < cfg.sweepPeriod.millis) (hlast : n.clock.now < .last) :
    n.clock.now < n.settled.resource.nextWake := by
  show n.clock.now < (n.resource.reactAll n.errands).state.nextWake
  unfold errands
  dsimp only
  split
  · rw [Resource.reactAll_append]
    exact Resource.lt_nextWake_onTimer hperiod hlast _
  · next hquiet => exact Nat.lt_of_not_le hquiet

end Node

/-! ### The turns of one poll -/

namespace RunLoop

variable {cfg : Settings} {n : Node cfg} {l : RunLoop cfg}

theorem turns_of_waiting (h : l.turn = none) (count : Nat) : l.turns count = (l, []) := by
  cases count with
  | zero => rfl
  | succ count => simp only [turns, h]

theorem turns_of_turn {l' : RunLoop cfg} {traces : List Trace} (h : l.turn = some (l', traces))
    (count : Nat) :
    l.turns (count + 1) = ((l'.turns count).1, traces ++ (l'.turns count).2) := by
  simp only [turns, h]

theorem turn_start_eq_none (hrule : n.clock.rule = .atDeadline) (h : n.inbox = [])
    (hquiet : n.clock.now < n.resource.nextWake) : (start n).turn = none := by
  have hlater : ¬n.resource.nextWake ≤ n.clock.now := Nat.not_le.mpr hquiet
  simp [turn, start, h, Clock.wakes, hrule, hlater]

theorem turn_start_of_due (hrule : n.clock.rule = .atDeadline) (h : n.inbox = [])
    (hdue : n.resource.nextWake ≤ n.clock.now) :
    (start n).turn = some (after n (n.resource.onTimer n.clock.now)) := by
  simp [turn, start, h, Clock.wakes, hrule, hdue]

/-- At the last instant that a clock can show, the timers always have work to do, and the loop never
comes to wait. -/
theorem turn_turns_of_last (hrule : n.clock.rule = .atDeadline) (hlast : n.clock.now = .last)
    (count : Nat) : ((start n).turns count).1.turn.isSome := by
  have hturn : ∀ n : Node cfg, n.clock.rule = .atDeadline → n.clock.now = .last →
      ∃ n' traces, (start n).turn = some (start n', traces) ∧ n'.clock = n.clock := by
    intro n hrule hlast
    cases hinbox : n.inbox with
    | nil =>
      have hdue : n.resource.nextWake ≤ n.clock.now := by
        rw [hlast]
        exact n.resource.nextWake.bounded
      exact ⟨_, _, turn_start_of_due hrule hinbox hdue, rfl⟩
    | cons event rest => exact ⟨_, _, turn_cons hinbox, rfl⟩
  induction count generalizing n with
  | zero =>
    obtain ⟨n', traces, hnext, -⟩ := hturn n hrule hlast
    rw [turns, hnext]
    rfl
  | succ count ih =>
    obtain ⟨n', traces, hnext, hclock⟩ := hturn n hrule hlast
    rw [turns_of_turn hnext]
    exact ih (by rw [hclock, hrule]) (by rw [hclock, hlast])

variable (hperiod : 0 < cfg.sweepPeriod.millis)

include hperiod

/-- **The turns of one poll.** The loop does what the node has to do, and then it waits. -/
theorem turns_start (hrule : n.clock.rule = .atDeadline) (hlast : n.clock.now < .last) {count : Nat}
    (hcount : n.inbox.length < count) :
    (start n).turns count = (start n.settled, (n.resource.reactAll n.errands).traces) := by
  obtain ⟨count, rfl⟩ := Nat.exists_eq_succ_of_ne_zero (Nat.ne_of_gt (Nat.zero_lt_of_lt hcount))
  induction hinbox : n.inbox generalizing n count with
  | nil =>
    have hlater := n.lt_nextWake_settled hperiod hlast
    rcases Nat.lt_or_ge n.clock.now.millis n.resource.nextWake.millis with hquiet | hdue
    · have hsettled : n.settled = n := by
        rw [Node.settled, Node.errands_of_quiet hinbox hquiet, ← hinbox]
        rfl
      rw [turns_of_waiting (turn_start_eq_none hrule hinbox hquiet), hsettled,
        Node.errands_of_quiet hinbox hquiet]
      rfl
    · -- the timers are called, and then there is nothing left to do
      have hsettled : n.settled = n.absorb (n.resource.onTimer n.clock.now) := by
        rw [Node.settled, Node.errands_of_due hinbox hdue, Resource.reactAll, Node.absorb_andThen,
          ← hinbox]
        rfl
      rw [hsettled] at hlater
      have hwaits := turn_start_eq_none (n := n.absorb (n.resource.onTimer n.clock.now)) hrule
        hinbox hlater
      rw [turns_of_turn (turn_start_of_due hrule hinbox hdue), turns_of_waiting hwaits, hsettled,
        Node.errands_of_due hinbox hdue]
      rfl
  | cons event rest ih =>
    have hturn : (start n).turn =
        some (start (n.served event rest), (n.resource.onEvent event n.clock.now).traces) :=
      turn_cons hinbox
    rw [hinbox, List.length_cons] at hcount
    obtain ⟨count, rfl⟩ := Nat.exists_eq_succ_of_ne_zero (show count ≠ 0 by omega)
    have hrest := ih (n := n.served event rest) hrule hlast count
      (by show rest.length < _; omega) rfl
    rw [turns_of_turn hturn, hrest, Node.settled_cons hinbox, Node.errands_cons hinbox]
    rfl

theorem poll_start (hrule : n.clock.rule = .atDeadline) (hlast : n.clock.now < .last) :
    (start n).poll = (start n.settled, (n.resource.reactAll n.errands).traces) :=
  turns_start hperiod hrule hlast (Nat.lt_add_of_pos_right Nat.two_pos)

end RunLoop

/-! ### Moves -/

/-- A node, and the instant that its loop keeps, if it has been polled. -/
structure Host (cfg : Settings) where
  node : Node cfg
  kept : Option Instant

namespace Host

/-- What happens around a loop: an event is sent, the clock is set or moved on, the loop is
polled. -/
inductive Move where
  | send (event : TopologyEvent)
  | set (t : Instant)
  | advance (d : Span)
  | poll
deriving DecidableEq

/-- The clock after a move. -/
def Move.clock (c : Clock) : Move → Clock
  | .set t => c.set t
  | .advance d => c.advance d
  | .send _ | .poll => c

/-- The loop is not polled at the last instant that a clock can show. A poll there never comes back
(`RunLoop.turn_turns_of_last`). -/
def InTime (c : Clock) : List Move → Prop
  | [] => True
  | m :: ms => (m = .poll → c.now < .last) ∧ InTime (m.clock c) ms

instance decidableInTime (c : Clock) : (ms : List Move) → Decidable (InTime c ms)
  | [] => inferInstanceAs (Decidable True)
  | m :: ms =>
    have := decidableInTime (m.clock c) ms
    inferInstanceAs (Decidable ((m = .poll → c.now < .last) ∧ InTime (m.clock c) ms))

variable {cfg : Settings} {h : Host cfg}

/-- The loop that a poll goes on with. -/
def loop (h : Host cfg) : RunLoop cfg := .resume h.node h.kept

/-- The node and its loop after a move. An event that the queue refuses is gone. -/
def move (h : Host cfg) : Move → Host cfg
  | .send event => { h with node := (h.node.send? event).getD h.node }
  | .set t => { h with node := { h.node with clock := h.node.clock.set t } }
  | .advance d => { h with node := { h.node with clock := h.node.clock.advance d } }
  | .poll => ⟨h.loop.poll.1.node, some h.loop.poll.1.wake⟩

/-- The node and its loop after a row of moves. -/
def moves (h : Host cfg) (ms : List Move) : Host cfg := ms.foldl move h

/-- The event that the queue accepts in a move. -/
def accepts (h : Host cfg) : Move → List TopologyEvent
  | .send event => if (h.node.send? event).isSome then [event] else []
  | _ => []

/-- The events that the queue accepts in a row of moves. -/
def accepted (h : Host cfg) : List Move → List TopologyEvent
  | [] => []
  | m :: ms => h.accepts m ++ (h.move m).accepted ms

/-- What there is to do for the node in a move. -/
def duties (h : Host cfg) : Move → List Input
  | .poll => h.node.errands
  | _ => []

/-- What there is to do for the node in a row of moves. -/
def done (h : Host cfg) : List Move → List Input
  | [] => []
  | m :: ms => h.duties m ++ (h.move m).done ms

/-- The instant that the loop keeps is the one it would look up. -/
structure Current (h : Host cfg) : Prop where
  rule : h.node.clock.rule = .atDeadline
  kept : ∀ wake, h.kept = some wake → wake = h.node.resource.nextWake

theorem Current.loop_eq (hcurrent : h.Current) : h.loop = .start h.node := by
  unfold loop RunLoop.resume
  cases hkept : h.kept with
  | none => rfl
  | some wake =>
    rw [hcurrent.kept wake hkept]
    rfl

section

variable (hperiod : 0 < cfg.sweepPeriod.millis)

include hperiod

theorem Current.poll_eq (hcurrent : h.Current) (hlast : h.node.clock.now < .last) :
    h.loop.poll =
      (.start h.node.settled, (h.node.resource.reactAll h.node.errands).traces) := by
  rw [hcurrent.loop_eq]
  exact RunLoop.poll_start hperiod hcurrent.rule hlast

/-- **One move.** The instant that the loop keeps stays the one it would look up, the resource does
what there is to do, and the queue takes in the event at its end and gives out from its front. -/
theorem move_step (hcurrent : h.Current) {m : Move} (hm : m = .poll → h.node.clock.now < .last) :
    (h.move m).Current ∧ (h.move m).node.clock = m.clock h.node.clock ∧
      (h.move m).node.resource = (h.node.resource.reactAll (h.duties m)).state ∧
      h.node.inbox ++ h.accepts m =
        (h.duties m).filterMap Input.event? ++ (h.move m).node.inbox := by
  cases m with
  | send event =>
    by_cases hroom : h.node.inbox.length < inboxCapacity
    · have hsent : h.node.send? event = some { h.node with inbox := h.node.inbox ++ [event] } :=
        if_pos hroom
      simp only [move, accepts, duties, hsent]
      exact ⟨⟨hcurrent.rule, hcurrent.kept⟩, rfl, rfl, rfl⟩
    · have hfull : h.node.send? event = none := if_neg hroom
      simp only [move, accepts, duties, hfull]
      exact ⟨⟨hcurrent.rule, hcurrent.kept⟩, rfl, rfl, List.append_nil _⟩
  | set t => exact ⟨⟨hcurrent.rule, hcurrent.kept⟩, rfl, rfl, List.append_nil _⟩
  | advance d => exact ⟨⟨hcurrent.rule, hcurrent.kept⟩, rfl, rfl, List.append_nil _⟩
  | poll =>
    rw [move, hcurrent.poll_eq hperiod (hm rfl)]
    refine ⟨⟨hcurrent.rule, ?_⟩, rfl, rfl, ?_⟩
    · intro wake hwake
      cases hwake
      rfl
    · have hevents := h.node.errands_events
      simp [accepts, duties, hevents, RunLoop.start, Node.settled]

/-- **A row of moves.** -/
theorem moves_step (hcurrent : h.Current) (ms : List Move) (hms : InTime h.node.clock ms) :
    (h.moves ms).Current ∧
      (h.moves ms).node.resource = (h.node.resource.reactAll (h.done ms)).state ∧
      h.node.inbox ++ h.accepted ms =
        (h.done ms).filterMap Input.event? ++ (h.moves ms).node.inbox := by
  induction ms generalizing h with
  | nil => exact ⟨hcurrent, rfl, List.append_nil _⟩
  | cons m ms ih =>
    obtain ⟨hm, hms⟩ := hms
    obtain ⟨hafter, hclock, hresource, hqueue⟩ := move_step hperiod hcurrent hm
    rw [← hclock] at hms
    obtain ⟨hend, hrest, hmore⟩ := ih hafter hms
    refine ⟨hend, ?_, ?_⟩
    · rw [done, Resource.reactAll_append, Reaction.andThen_state, ← hresource]
      exact hrest
    · rw [accepted, done, List.filterMap_append, ← List.append_assoc, hqueue, List.append_assoc,
        hmore, List.append_assoc]
      rfl

end

/-- **Polling.** Send events to a node, move its clock and poll its loop in any order, with no poll
at the last instant. So far the resource has done what the polls found to do, one after another, and
the events in it and those that still wait are the events that the queue had and has accepted since,
in their order. And a poll at this instant handles every event that waits and then calls the timers
if they have work to do by now, and nothing else; it takes at most one turn for each event and one
more, and it leaves a loop that waits for a later instant. -/
theorem poll_batched (hperiod : 0 < cfg.sweepPeriod.millis) (n : Node cfg)
    (hrule : n.clock.rule = .atDeadline) (ms : List Move) (hms : InTime n.clock ms) :
    let start : Host cfg := ⟨n, none⟩
    let h := start.moves ms
    let x := h.node.resource.reactAll h.node.errands
    (h.node.resource = (n.resource.reactAll (start.done ms)).state ∧
      n.inbox ++ start.accepted ms =
        (start.done ms).filterMap Input.event? ++ h.node.inbox) ∧
    (h.node.clock.now < .last →
      h.loop.poll = (.start { h.node.absorb x with inbox := [] }, x.traces) ∧
      h.loop.poll.1.turn = none ∧
      (∀ count, h.node.inbox.length < count → h.loop.turns count = h.loop.poll) ∧
      h.node.clock.now < h.loop.poll.1.node.resource.nextWake) := by
  intro start h x
  have hstart : start.Current := ⟨hrule, nofun⟩
  obtain ⟨hcurrent, hresource, hqueue⟩ := moves_step hperiod hstart ms hms
  refine ⟨⟨hresource, hqueue⟩, ?_⟩
  intro hlast
  have hlater := h.node.lt_nextWake_settled hperiod hlast
  rw [hcurrent.poll_eq hperiod hlast]
  refine ⟨rfl, ?_, ?_, hlater⟩
  · exact RunLoop.turn_start_eq_none hcurrent.rule rfl hlater
  · intro count hcount
    rw [hcurrent.loop_eq]
    exact RunLoop.turns_start hperiod hcurrent.rule hlast hcount

/-- A packet and a route are sent and handled at boot. When the clock has moved on by three
milliseconds, the next poll handles one more packet and tells subscribers. -/
theorem poll_batched_of_route :
    let cfg : Settings := ⟨2, .ofMillis 3, .ofMillis 9, .ofMillis 9⟩
    let hop : Address := .ofGroups 65152 0 0 0 0 0 0 1
    let n : Node cfg := .ofClock cfg ⟨.atDeadline, .boot⟩
    let ms : List Move := [.send (.packet hop),
      .send (.routeChanged .routeAdded ⟨.ofGroups 8193 0 0 0 0 0 0 1, hop⟩ 1), .poll,
      .advance (.ofMillis 3), .send (.packet hop)]
    let start : Host cfg := ⟨n, none⟩
    let h := start.moves ms
    InTime n.clock ms ∧ h.node.clock.now < .last ∧
      h.node.errands = [.event (.packet hop) (.ofMillis 3), .timer (.ofMillis 3)] ∧
      h.loop.poll.2 = (h.node.resource.reactAll h.node.errands).traces ∧
      h.loop.poll.1.turn = none := by
  intro cfg hop n ms start
  have hms : InTime n.clock ms := by decide
  have hlast : (start.moves ms).node.clock.now < .last := by decide +kernel
  have hpoll := (poll_batched (by decide) n rfl ms hms).2 hlast
  have herrands : (start.moves ms).node.errands =
      [.event (.packet hop) (.ofMillis 3), .timer (.ofMillis 3)] := by decide +kernel
  refine ⟨hms, hlast, herrands, ?_, ?_⟩
  · rw [hpoll.1]
  · exact hpoll.2.1

end Host

end ObservableTree
