import ObservableTree.Proofs.Termination

/-!
# Running in two parts

A run may stop on its way and go on later. Between two events time then moves on to the stop, which
no event takes notice of, since the next one sets the time anew; and the record has one snapshot more,
which nothing ever looks at:

* `Simulation.withPast` — the same simulation with further snapshots in its record;
* `happen_withPast`, `steps_withPast` — nothing that happens depends on them;
* `steps_advance` — nor on whether time has moved on between two events;
* `runUntil_of_settled` — a run is decided by the state in which nothing is due any more;
* `runUntil_runUntil` — a run in two parts comes to the same as one run, with one snapshot more.
-/

namespace ObservableTree

namespace Simulation

variable {cfg : Settings} {s : Simulation cfg} {stop : Instant}

/-! ### Further snapshots -/

/-- What a snapshot records. -/
def snapshot (s : Simulation cfg) : Snapshot :=
  let r := s.node.resource
  { time := s.now
    parent := s.routing.parent
    routes := s.routing.routes
    tracked := r.tracked.map Entry.address
    visible := (s.routing.routes.filter fun x => r.isReachable x.nextHop).map Route.destination
    pending := r.pendingNotice }

theorem takeSnapshot_eq (s : Simulation cfg) :
    s.takeSnapshot = { s with metrics := s.metrics.record s.snapshot } := rfl

/-- The same simulation with further snapshots in front of those that were taken. -/
def withPast (s : Simulation cfg) (past : List Snapshot) : Simulation cfg :=
  { s with metrics := { s.metrics with snapshots := past ++ s.metrics.snapshots } }

/-- The same simulation without the snapshots that were taken. -/
def forget (s : Simulation cfg) : Simulation cfg :=
  { s with metrics := { s.metrics with snapshots := [] } }

theorem forget_withPast (s : Simulation cfg) : s.forget.withPast s.metrics.snapshots = s := by
  rw [withPast, forget, List.append_nil]

theorem takeSnapshot_eq_withPast (s : Simulation cfg) :
    s.takeSnapshot = s.forget.withPast (s.metrics.snapshots ++ [s.snapshot]) := by
  rw [withPast, forget, List.append_nil]
  rfl

theorem advance_forget (s : Simulation cfg) (time : Instant) :
    (s.advance time).forget = s.forget.advance time := by
  unfold advance
  show _ = if s.now < time then _ else s.forget
  split
  · rfl
  · rfl

variable (past : List Snapshot)

theorem scheduleAll_withPast (s : Simulation cfg) (events : List (Instant × Event)) :
    (s.withPast past).scheduleAll events = (s.scheduleAll events).withPast past := by
  induction events generalizing s with
  | nil => rfl
  | cons e events ih => exact ih (s.schedule e.1 e.2)

theorem rescheduleTimer_withPast (s : Simulation cfg) :
    (s.withPast past).rescheduleTimer = s.rescheduleTimer.withPast past := by
  unfold rescheduleTimer
  show (if s.scheduledWake = some s.wake then s.withPast past else _) = _
  split
  · rfl
  · rfl

theorem advance_withPast (s : Simulation cfg) (time : Instant) :
    (s.withPast past).advance time = (s.advance time).withPast past := by
  unfold advance
  show (if s.now < time then _ else s.withPast past) = _
  split
  · rfl
  · rfl

theorem takeSnapshot_withPast (s : Simulation cfg) :
    (s.withPast past).takeSnapshot = s.takeSnapshot.withPast past := by
  rw [takeSnapshot_eq, takeSnapshot_eq, withPast, withPast]
  simp only [Metrics.record, List.append_assoc]
  rfl

theorem snapshotIfDue_withPast (s : Simulation cfg) :
    (s.withPast past).snapshotIfDue = s.snapshotIfDue.withPast past := by
  have hnext : (s.withPast past).nextSnapshot = s.nextSnapshot := rfl
  have hnow : (s.withPast past).now = s.now := rfl
  rw [snapshotIfDue, snapshotIfDue, hnext, hnow]
  cases s.nextSnapshot with
  | none => rfl
  | some due =>
    dsimp only
    split
    · rw [takeSnapshot_withPast]
      rfl
    · rfl

theorem drainInbox_withPast (s : Simulation cfg) :
    (s.withPast past).drainInbox = s.drainInbox.withPast past := by
  have hfold : ∀ (events : List TopologyEvent) (s : Simulation cfg),
      events.foldl (fun s event => s.absorb (s.node.resource.onEvent event s.now))
          (s.withPast past) =
        (events.foldl (fun s event => s.absorb (s.node.resource.onEvent event s.now)) s).withPast
          past := by
    intro events
    induction events with
    | nil => exact fun _ => rfl
    | cons event events ih =>
      exact fun s => ih (s.absorb (s.node.resource.onEvent event s.now))
  exact hfold s.node.inbox { s with node := { s.node with inbox := [] } }

theorem submit_withPast (s : Simulation cfg) (event : TopologyEvent) :
    (s.withPast past).submit event = (s.submit event).withPast past := by
  have hnode : (s.withPast past).node = s.node := rfl
  rw [submit, submit, hnode]
  cases s.node.send? event with
  | none => exact drainInbox_withPast past (s.jot (.queueFull event))
  | some n => exact drainInbox_withPast past { s with node := n }

theorem drawLoss_of_positive (h : s.lossRate.isPositive = true) :
    s.drawLoss = ({ s with randomWord := nextWord s.randomWord },
      s.lossRate.loses (nextWord s.randomWord)) := if_pos h

theorem drawLoss_of_zero (h : s.lossRate.isPositive = false) : s.drawLoss = (s, false) := by
  rw [drawLoss, if_neg (by rw [h]; exact Bool.false_ne_true)]

theorem drawLoss_withPast (s : Simulation cfg) :
    (s.withPast past).drawLoss = (s.drawLoss.1.withPast past, s.drawLoss.2) := by
  -- the word and the loss are kept closed, or they would be computed
  have hpair : ∀ word lost, (({ s.withPast past with randomWord := word }, lost) : _ × Bool) =
      (({ s with randomWord := word } : Simulation cfg).withPast past, lost) := fun _ _ => rfl
  cases hpositive : s.lossRate.isPositive with
  | true =>
    have hpositive' : (s.withPast past).lossRate.isPositive = true := hpositive
    rw [drawLoss_of_positive hpositive', drawLoss_of_positive hpositive]
    exact hpair _ _
  | false =>
    have hzero : (s.withPast past).lossRate.isPositive = false := hpositive
    rw [drawLoss_of_zero hzero, drawLoss_of_zero hpositive]

theorem deliverPacket_withPast (s : Simulation cfg) (source : Address) (generation : UInt32) :
    (s.withPast past).deliverPacket source generation =
      (s.deliverPacket source generation).withPast past := by
  have htraffic : (s.withPast past).traffic? source = s.traffic? source := rfl
  rw [deliverPacket, deliverPacket, htraffic, drawLoss_withPast]
  generalize s.drawLoss = drawn
  obtain ⟨s₁, lost⟩ := drawn
  cases s.traffic? source with
  | none => rfl
  | some t =>
    dsimp only
    split
    · rfl
    · cases lost with
      | true => rfl
      | false =>
        have hsubmit := submit_withPast past { s₁ with metrics :=
          { s₁.metrics with packetsObserved := s₁.metrics.packetsObserved + 1 } } (.packet source)
        exact congrArg
          (fun x : Simulation cfg => x.schedule (x.now + t.interval) (.packet source generation))
          hsubmit

theorem announceAll_withPast (count : Nat) (s : Simulation cfg) :
    announceAll count (s.withPast past) = (announceAll count s).withPast past := by
  rw [announceAll_eq, announceAll_eq, ← scheduleAll_withPast]
  rfl

theorem fireTimer_withPast (s : Simulation cfg) (generation : Nat) :
    (s.withPast past).fireTimer generation = (s.fireTimer generation).withPast past := by
  have hgeneration : (s.withPast past).timerGeneration = s.timerGeneration := rfl
  rw [fireTimer, fireTimer, hgeneration]
  split
  · rfl
  · let called := { s with scheduledWake := none }.absorb (s.node.resource.onTimer s.now)
    exact announceAll_withPast past called.node.notifier.take.1
      { called with node := { called.node with notifier := called.node.notifier.take.2 } }

theorem noteRetrieval_withPast (s : Simulation cfg) (observer : Nat)
    (result : Except FetchError Retrieval) :
    (s.withPast past).noteRetrieval observer result =
      (s.noteRetrieval observer result).withPast past := by
  cases result with
  | ok => rfl
  | error => rfl

theorem fetch_withPast (s : Simulation cfg) (observer : Nat) :
    (s.withPast past).fetch observer = (s.fetch observer).withPast past := by
  have hobservers : (s.withPast past).observers = s.observers := rfl
  rw [fetch, fetch, hobservers]
  cases s.observers[observer]? with
  | none => rfl
  | some o =>
    let x := o.fetch s.node.resource (.steady s.routing) s.now
    exact noteRetrieval_withPast past
      { s.absorb x with observers := s.observers.set observer x.value.1 } observer x.value.2

theorem execute_withPast (s : Simulation cfg) (action : Action) :
    (s.withPast past).execute action = (s.execute action).withPast past := by
  have hrouting : (s.withPast past).routing = s.routing := rfl
  cases action with
  | addRoute | setParent | setPrefix | startTraffic => rfl
  | removeRoute destination =>
    simp only [execute, hrouting]
    cases s.routing.route? destination with
    | none => rfl
    | some route => rfl
  | clearParent =>
    simp only [execute, hrouting]
    cases s.routing.parent with
    | none => rfl
    | some parent => rfl
  | stopTraffic neighbor =>
    have htraffic : (s.withPast past).traffic? neighbor = s.traffic? neighbor := rfl
    simp only [execute, stopTraffic, htraffic]
    cases s.traffic? neighbor with
    | none => rfl
    | some t => rfl
  | takeSnapshot => exact takeSnapshot_withPast past s

/-- **One event** does not depend on the snapshots that were taken. -/
theorem happen_withPast (s : Simulation cfg) (event : Event) :
    (s.withPast past).happen event = (s.happen event).withPast past := by
  cases event with
  | packet source generation => exact deliverPacket_withPast past s source generation
  | routeChange change route =>
    exact submit_withPast past
      { s with metrics := { s.metrics with routeChanges := s.metrics.routeChanges + 1 } }
      (.routeChanged change route s.routing.routes.length)
  | timer generation => exact fireTimer_withPast past s generation
  | fetch observer => exact fetch_withPast past s observer
  | action action => exact execute_withPast past s action

theorem handle_withPast (s : Simulation cfg) (event : Event) :
    handle (s.withPast past, event) = (handle (s, event)).withPast past := by
  show (((s.withPast past).happen event).rescheduleTimer).snapshotIfDue = _
  rw [happen_withPast, rescheduleTimer_withPast, snapshotIfDue_withPast]
  rfl

theorem due?_withPast (s : Simulation cfg) (stop : Instant) :
    (s.withPast past).due? stop = (s.due? stop).map fun x => (x.1.withPast past, x.2) := by
  have hagenda : (s.withPast past).agenda = s.agenda := rfl
  rw [due?, due?, hagenda]
  cases s.agenda.next? with
  | none => rfl
  | some x =>
    dsimp only
    split
    · rfl
    · rw [Option.map_some]
      exact congrArg (fun y => some (y, x.1.event)) (advance_withPast past { s with agenda := x.2 } _)

theorem stepUntil?_withPast (s : Simulation cfg) (stop : Instant) :
    (s.withPast past).stepUntil? stop = (s.stepUntil? stop).map (·.withPast past) := by
  rw [stepUntil?_eq, stepUntil?_eq, due?_withPast, Option.map_map, Option.map_map]
  refine congrArg (Option.map · (s.due? stop)) (funext fun x => ?_)
  exact handle_withPast past x.1 x.2

theorem steps_withPast (stop : Instant) (count : Nat) (s : Simulation cfg) :
    steps stop count (s.withPast past) = (steps stop count s).withPast past := by
  induction count generalizing s with
  | zero => rfl
  | succ count ih =>
    rw [steps, steps, stepUntil?_withPast]
    cases s.stepUntil? stop with
    | none => rfl
    | some s' => exact ih s'

/-! ### Time between two events -/

variable {a b : Instant}

theorem advance_of_lt (h : s.now < a) :
    s.advance a = { s with now := a, node := { s.node with clock := s.node.clock.set a } } :=
  if_pos h

theorem advance_of_ge (h : a ≤ s.now) : s.advance a = s := if_neg (Nat.not_lt.mpr h)

theorem advance_advance (s : Simulation cfg) (hab : a ≤ b) :
    (s.advance a).advance b = s.advance b := by
  rcases Nat.lt_or_ge s.now.millis a.millis with hlater | hpassed
  · rcases Nat.eq_or_lt_of_le hab with hsame | hless
    · obtain rfl := Instant.ext_millis hsame
      apply advance_of_ge
      rw [advance_of_lt hlater]
      exact Nat.le_refl _
    · rw [advance_of_lt hlater, advance_of_lt (Nat.lt_trans hlater hless)]
      exact advance_of_lt hless
  · rw [advance_of_ge hpassed]

/-- An event that is due later sets the time anew. -/
theorem due?_advance (h : ∀ e ∈ s.agenda.entries, a < e.time) (b : Instant) :
    (s.advance a).due? b = s.due? b := by
  have hagenda : (s.advance a).agenda = s.agenda := by rw [advance_frame]
  unfold due?
  rw [hagenda]
  cases hnext : s.agenda.next? with
  | none => rfl
  | some x =>
    obtain ⟨e, rest⟩ := x
    have he : e ∈ s.agenda.entries := by
      rw [Agenda.next?_eq_some_iff.mp hnext]
      exact List.mem_cons_self
    have hrest : { s.advance a with agenda := rest } = { s with agenda := rest }.advance a := by
      unfold advance
      split
      · rfl
      · rfl
    dsimp only
    rw [hrest, advance_advance _ (Nat.le_of_lt (h e he))]

/-- Whether time has moved on meanwhile makes no difference once it moves on further. -/
theorem steps_advance (h : ∀ e ∈ s.agenda.entries, a < e.time) (hab : a ≤ b) (count : Nat) :
    (steps b count (s.advance a)).advance b = (steps b count s).advance b ∧
      (steps b count (s.advance a)).due? b = (steps b count s).due? b := by
  have hdue := due?_advance h b
  have hstep : (s.advance a).stepUntil? b = s.stepUntil? b := by
    rw [stepUntil?_eq, stepUntil?_eq, hdue]
  cases count with
  | zero => exact ⟨advance_advance s hab, hdue⟩
  | succ count =>
    rw [steps, steps, hstep]
    cases s.stepUntil? b with
    | none => exact ⟨advance_advance s hab, hdue⟩
    | some s' => exact ⟨rfl, rfl⟩

/-! ### Runs -/

/-- There is one state in which nothing is due any more. -/
theorem steps_unique {m n : Nat} (hm : (steps stop m s).due? stop = none)
    (hn : (steps stop n s).due? stop = none) : steps stop m s = steps stop n s := by
  rcases Nat.le_total m n with hle | hle
  · obtain ⟨more, rfl⟩ := Nat.exists_eq_add_of_le hle
    rw [steps_add, steps_of_none (stepUntil?_of_none hm)]
  · obtain ⟨more, rfl⟩ := Nat.exists_eq_add_of_le hle
    rw [steps_add, steps_of_none (stepUntil?_of_none hn)]

/-- The events up to an instant are the first ones of a longer run. -/
theorem steps_of_le (hab : a ≤ b) (count : Nat) (s : Simulation cfg) :
    ∃ m, steps a count s = steps b m s := by
  induction count generalizing s with
  | zero => exact ⟨0, rfl⟩
  | succ count ih =>
    cases hdue : s.due? a with
    | none => exact ⟨0, steps_of_none (stepUntil?_of_none hdue) _⟩
    | some x =>
      obtain ⟨time, number, rest, hentries, htime, hx⟩ := due?_eq_some_iff.mp hdue
      have hdue' : s.due? b = some x :=
        due?_eq_some_iff.mpr ⟨time, number, rest, hentries, Nat.le_trans htime hab, hx⟩
      have ha : s.stepUntil? a = some (handle x) := stepUntil?_of_some hdue
      have hb : s.stepUntil? b = some (handle x) := stepUntil?_of_some hdue'
      obtain ⟨m, hm⟩ := ih (handle x)
      refine ⟨m + 1, ?_⟩
      simp only [steps, ha, hb]
      exact hm

section

variable (hperiod : 0 < cfg.sweepPeriod.millis)

include hperiod

/-- **A run is decided** by the state in which nothing is due any more, however it was come to. -/
theorem runUntil_of_settled (hstop : stop < .last) (h : s.OnTime) (hpaced : s.Paced) {count : Nat}
    (hnone : (steps stop count s).due? stop = none) :
    s.runUntil stop = ((steps stop count s).advance stop).takeSnapshot := by
  have hend := due?_steps hperiod hstop h hpaced (Nat.le_refl _)
  rw [runUntil, steps_unique hend hnone]

theorem runUntil_withPast (hstop : stop < .last) (h : (s.withPast past).OnTime)
    (hpaced : (s.withPast past).Paced) {count : Nat}
    (hnone : (steps stop count s).due? stop = none) :
    (s.withPast past).runUntil stop =
      ((steps stop count s).advance stop).takeSnapshot.withPast past := by
  have hnone' : (steps stop count (s.withPast past)).due? stop = none := by
    rw [steps_withPast, due?_withPast, hnone, Option.map_none]
  rw [runUntil_of_settled hperiod hstop h hpaced hnone', steps_withPast, advance_withPast,
    takeSnapshot_withPast]

/-- The first events of a run may happen before it. -/
theorem runUntil_steps (hab : a ≤ b) (hb : b < .last) (h : s.OnTime) (hpaced : s.Paced)
    (count : Nat) : (steps a count s).runUntil b = s.runUntil b := by
  have ha : a < .last := Nat.lt_of_le_of_lt hab hb
  obtain ⟨htime, hlater⟩ := steps_paced hperiod ha h hpaced count
  have hnone := due?_steps hperiod hb htime hlater (Nat.le_refl _)
  obtain ⟨m, hm⟩ := steps_of_le hab count s
  rw [runUntil_of_settled hperiod hb htime hlater hnone]
  rw [hm, ← steps_add] at hnone ⊢
  exact (runUntil_of_settled hperiod hb h hpaced hnone).symm

/-- A run begins with the events that are due up to an instant on its way. -/
theorem exists_settled (hab : a ≤ b) (hb : b < .last) (h : s.OnTime) (hpaced : s.Paced) :
    ∃ m : Simulation cfg, m.OnTime ∧ m.Paced ∧ m.due? a = none ∧
      s.runUntil a = (m.advance a).takeSnapshot ∧ s.runUntil b = m.runUntil b := by
  have ha : a < .last := Nat.lt_of_le_of_lt hab hb
  obtain ⟨htime, hlater⟩ := steps_paced hperiod ha h hpaced (s.weight a)
  exact ⟨steps a (s.weight a) s, htime, hlater,
    due?_steps hperiod ha h hpaced (Nat.le_refl _), rfl,
    (runUntil_steps hperiod hab hb h hpaced (s.weight a)).symm⟩

/-- Where nothing is due up to an instant, it makes no difference for the rest of a run whether it
stops there, except for the snapshot. -/
theorem runUntil_of_stopped {m : Simulation cfg} (hab : a ≤ b) (hb : b < .last) (h : m.OnTime)
    (hpaced : m.Paced) (hnone : m.due? a = none) :
    ∃ last : Simulation cfg, m.runUntil b = last.withPast m.metrics.snapshots ∧
      (m.advance a).takeSnapshot.runUntil b =
        last.withPast (m.metrics.snapshots ++ [(m.advance a).snapshot]) := by
  have ha : a < .last := Nat.lt_of_le_of_lt hab hb
  have hstopped : (m.advance a).takeSnapshot =
      (m.forget.advance a).withPast (m.metrics.snapshots ++ [(m.advance a).snapshot]) := by
    have hmetrics : (m.advance a).metrics = m.metrics := by rw [advance_frame]
    rw [takeSnapshot_eq_withPast, advance_forget, hmetrics]
  -- what happens from there on, without the snapshots
  have hforget : m.forget.OnTime := h.of_same rfl rfl rfl rfl rfl
  have hforgetPaced : m.forget.Paced := ⟨hpaced.running, hpaced.planned⟩
  have hend := due?_steps hperiod hb hforget hforgetPaced (Nat.le_refl _)
  generalize m.forget.weight b = count at hend
  have hentries : ∀ e ∈ m.forget.agenda.entries, a < e.time := fun e he =>
    lt_of_due?_eq_none h.sorted hnone he
  obtain ⟨hadvance, hdue⟩ := steps_advance hentries hab count
  refine ⟨((steps b count m.forget).advance b).takeSnapshot, ?_, ?_⟩
  · have hsame := forget_withPast m
    rw [← hsame] at h hpaced
    have hrest := runUntil_withPast m.metrics.snapshots hperiod hb h hpaced hend
    rw [hsame] at hrest
    exact hrest
  · have hstoppedTime : (m.advance a).takeSnapshot.OnTime :=
      (h.advance ha hnone).1.of_same rfl rfl rfl rfl rfl
    have hstoppedPaced : (m.advance a).takeSnapshot.Paced := by
      rw [advance_frame]
      exact ⟨hpaced.running, hpaced.planned⟩
    rw [hstopped] at hstoppedTime hstoppedPaced ⊢
    rw [runUntil_withPast _ hperiod hb hstoppedTime hstoppedPaced (hdue.trans hend), hadvance]

/-- **A run in two parts.** It comes to the same as one run, except for the snapshot at the end of its
first part. -/
theorem runUntil_runUntil (hab : a ≤ b) (hb : b < .last) (h : s.OnTime) (hpaced : s.Paced) :
    let first := s.runUntil a
    let direct := s.runUntil b
    ∃ front back, first.metrics.snapshots = front ++ [first.snapshot] ∧
      direct.metrics.snapshots = front ++ back ∧
      first.runUntil b = { direct with metrics :=
        { direct.metrics with snapshots := front ++ first.snapshot :: back } } := by
  intro first direct
  obtain ⟨m, htime, hlater, hnone, hfirst, hdirect⟩ := exists_settled hperiod hab hb h hpaced
  obtain ⟨last, hwhole, hrest⟩ := runUntil_of_stopped hperiod hab hb htime hlater hnone
  have hsnapshot : first.snapshot = (m.advance a).snapshot := by
    rw [show first = _ from hfirst]
    rfl
  have hmetrics : (m.advance a).metrics = m.metrics := by rw [advance_frame]
  refine ⟨m.metrics.snapshots, last.metrics.snapshots, ?_, ?_, ?_⟩
  · rw [hsnapshot, show first = _ from hfirst, ← hmetrics]
    rfl
  · rw [show direct = _ from hdirect, hwhole]
    rfl
  · rw [hsnapshot, show first = _ from hfirst, show direct = _ from hdirect, hwhole, hrest]
    simp only [withPast, List.append_assoc, List.singleton_append]

end

/-- **Splitting a run.** A simulation is set up by a scenario, and commands are given to it in any
order, among them turns of runs, and a run is nothing but a row of turns (`runUntil_eq_turns`). If it
then runs up to an instant and from there up to another one, it is in the same state as if it had run
up to the latter at once, except that there is one snapshot more, the one that the first run ended
with. -/
theorem runUntil_split (cfg : Settings) (hperiod : 0 < cfg.sweepPeriod.millis) (c : Scenario)
    (hc : c.IsPaced) (cs : List Command) (hcs : ∀ k ∈ cs, k.InTime ∧ k.IsPaced) (a b : Instant)
    (hab : a ≤ b) (hb : b < .last) :
    let s := (c.build cfg).obeyAll cs
    let first := s.runUntil a
    let direct := s.runUntil b
    ∃ front back, first.metrics.snapshots = front ++ [first.snapshot] ∧
      direct.metrics.snapshots = front ++ back ∧
      first.runUntil b = { direct with metrics :=
        { direct.metrics with snapshots := front ++ first.snapshot :: back } } := by
  obtain ⟨htime, hpaced⟩ := build_obeyAll_paced hperiod hc hcs
  exact runUntil_runUntil hperiod hab hb htime hpaced

/-- A neighbor sends all five milliseconds and an observer fetches; the run stops between two
packets. -/
theorem runUntil_split_of_traffic :
    let cfg : Settings := ⟨2, .ofMillis 2, .ofMillis 9, .ofMillis 3⟩
    let neighbor : Address := .ofGroups 65152 0 0 0 0 0 0 1
    let c : Scenario :=
      { Scenario.stock with
          observers := [64]
          actions := [(.boot, .startTraffic neighbor (.ofMillis 5))]
          snapshotInterval := some (.ofMillis 4) }
    let cs : List Command := [.fetch (.ofMillis 8) 0, .turn (.ofMillis 1)]
    c.IsPaced ∧ (∀ k ∈ cs, k.InTime ∧ k.IsPaced) ∧
      let s := (c.build cfg).obeyAll cs
      let first := s.runUntil (.ofMillis 7)
      let direct := s.runUntil (.ofMillis 20)
      ∃ front back, first.metrics.snapshots = front ++ [first.snapshot] ∧
        direct.metrics.snapshots = front ++ back ∧
        first.runUntil (.ofMillis 20) = { direct with metrics :=
          { direct.metrics with snapshots := front ++ first.snapshot :: back } } := by
  intro cfg neighbor c cs
  have hperiod : 0 < cfg.sweepPeriod.millis := by decide
  have hc : c.IsPaced := by
    intro a ha
    rw [List.mem_singleton.mp ha]
    show 0 < (Span.ofMillis 5).millis
    decide
  have hcs : ∀ k ∈ cs, k.InTime ∧ k.IsPaced := by
    intro k hk
    rw [List.mem_cons, List.mem_singleton] at hk
    rcases hk with rfl | rfl
    · exact ⟨trivial, trivial⟩
    · refine ⟨?_, trivial⟩
      show Instant.ofMillis 1 < .last
      decide
  have hab : Instant.ofMillis 7 ≤ Instant.ofMillis 20 := by decide
  have hb : Instant.ofMillis 20 < .last := by decide
  exact ⟨hc, hcs, runUntil_split cfg hperiod c hc cs hcs _ _ hab hb⟩

end Simulation

end ObservableTree
