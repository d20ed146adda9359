import ObservableTree.Proofs.Debouncing
import ObservableTree.Proofs.Termination

/-!
# Notifications on time

Subscribers are told a quiet interval after the last report of a change that can alter the children.
The simulation calls the timers when this interval ends, not later, and makes the observers fetch the
document after the delay:

* `lastReport` — when such a change was last reported;
* `Resource.Debounced` — a pending notification is due an interval after that;
* `Simulation.heard` — what the node gets in the course of some commands;
* `debounced_heard` — what the node has heard explains what is pending;
* `Taken.called`, `Taken.announces` — a turn calls timers and raises notifications in time;
* `obeyAll_punctual` — and this holds whatever is done.
-/

namespace ObservableTree

/-! ### Reports -/

/-- When it was last reported that a route was added or removed. -/
def lastReport (heard : List Input) : Option Instant := (heard.filterMap Input.report?).getLast?

theorem lastReport_snoc (heard : List Input) (i : Input) :
    lastReport (heard ++ [i]) = i.report?.or (lastReport heard) := by
  rw [lastReport, List.filterMap_append, List.getLast?_append]
  cases hreport : i.report? with
  | none => rw [List.filterMap_cons_none hreport, List.filterMap_nil]; rfl
  | some now => rw [List.filterMap_cons_some hreport, List.filterMap_nil]; rfl

namespace Resource

variable {cfg : Settings} {r q : Resource cfg} {heard : List Input}

/-- A pending notification is due an interval after the last report. -/
structure Debounced (heard : List Input) (r : Resource cfg) : Prop where
  interval : r.debounce.interval = cfg.debounce
  deadline : ∀ fireAt, r.debounce.deadline = some fireAt →
    ∃ t, lastReport heard = some t ∧ fireAt = t + cfg.debounce

theorem debounced_startingAt (cfg : Settings) (t : Instant) :
    Debounced [] (startingAt cfg t) := ⟨rfl, nofun⟩

theorem Debounced.of_settled (h : Debounced heard r) (hsettled : SettledAtMost r q) :
    Debounced heard q := by
  rcases hsettled with rfl | rfl
  · exact h
  · exact ⟨h.interval, h.deadline⟩

/-- An input that reports nothing leaves the deadline alone. -/
theorem Debounced.of_silent (h : Debounced heard r) {i : Input} (hsilent : i.report? = none)
    (hinterval : q.debounce.interval = r.debounce.interval)
    (hdeadline : ∀ fireAt, q.debounce.deadline = some fireAt → r.debounce.deadline = some fireAt) :
    Debounced (heard ++ [i]) q := by
  refine ⟨hinterval.trans h.interval, fun fireAt hfireAt => ?_⟩
  rw [lastReport_snoc, hsilent, Option.none_or]
  exact h.deadline fireAt (hdeadline fireAt hfireAt)

/-- A report sets the deadline anew. -/
theorem Debounced.of_report (h : Debounced heard r) {i : Input} {now : Instant}
    (hreport : i.report? = some now) (harmed : q.debounce = r.debounce.arm now) :
    Debounced (heard ++ [i]) q := by
  have hdeadline : q.debounce.deadline = some (now + cfg.debounce) := by
    rw [harmed, ← h.interval]
    rfl
  refine ⟨by rw [harmed, Debounce.arm_interval, h.interval], fun fireAt hfireAt => ?_⟩
  rw [hdeadline] at hfireAt
  rw [lastReport_snoc, hreport, Option.some_or]
  exact ⟨now, rfl, (Option.some.inj hfireAt).symm⟩

/-- **One input.** -/
theorem Debounced.react (h : Debounced heard r) (i : Input) :
    Debounced (heard ++ [i]) (r.react i).state := by
  cases i with
  | timer now =>
    rcases onTimer_notice r now with ⟨-, hsame, -⟩ | ⟨-, -, hraised, -⟩
    · refine h.of_silent rfl (congrArg Debounce.interval hsame) fun fireAt hfireAt => ?_
      rw [← hsame]
      exact hfireAt
    · have hafter : (r.react (.timer now)).state.debounce = .ofInterval r.debounce.interval := hraised
      refine h.of_silent rfl (by rw [hafter]; rfl) fun fireAt hfireAt => ?_
      rw [hafter] at hfireAt
      cases hfireAt
  | event event now =>
    cases event with
    | packet source => exact h.of_silent rfl rfl fun _ hfireAt => hfireAt
    | routeChanged change route count =>
      cases change with
      | routeAdded | routeRemoved => exact h.of_report rfl rfl
      | defaultRouteAdded | defaultRouteRemoved =>
        exact h.of_silent rfl rfl fun _ hfireAt => hfireAt

theorem Debounced.reactAll (h : Debounced heard r) (is : List Input) :
    Debounced (heard ++ is) (r.reactAll is).state := by
  induction is generalizing heard r with
  | nil =>
    rw [List.append_nil]
    exact h
  | cons i is ih =>
    have hall := ih (h.react i)
    rw [List.append_assoc, List.singleton_append] at hall
    exact hall

/-- A notification that is raised when the node has work to do is raised an interval after the last
report. -/
theorem Debounced.notice (h : Debounced heard r) {now : Instant} (hnow : now = r.nextWake)
    (hlast : now < .last) (hnotices : (r.onTimer now).notices ≠ 0) :
    ∃ t, lastReport heard = some t ∧ now.millis = t.millis + cfg.debounce.millis := by
  rcases onTimer_notice r now with ⟨hnone, -⟩ | ⟨-, hdue, -⟩
  · exact absurd hnone hnotices
  · obtain ⟨fireAt, hdeadline, hlate⟩ := Debounce.isDue_iff.mp hdue
    have hearly : now ≤ fireAt :=
      (le_nextWake_iff.mp (Nat.le_of_eq (congrArg Instant.millis hnow))).2 fireAt hdeadline
    obtain ⟨t, ht, hfireAt⟩ := h.deadline fireAt hdeadline
    refine ⟨t, ht, ?_⟩
    have hsum := Instant.after_millis t cfg.debounce
    rw [← hfireAt] at hsum
    rw [Instant.le_iff] at hlate hearly
    rw [Instant.lt_last_iff] at hlast
    omega

end Resource

namespace Simulation

variable {cfg : Settings} {s : Simulation cfg}

/-! ### After an event -/

theorem rescheduleTimer_frame (s : Simulation cfg) :
    s.rescheduleTimer.fetchDelay = s.fetchDelay ∧ s.rescheduleTimer.metrics = s.metrics := by
  unfold rescheduleTimer
  split
  · exact ⟨rfl, rfl⟩
  · exact ⟨rfl, rfl⟩

/-- An event is followed by the timer and the snapshot that are due, which concern neither the node
nor the notifications. -/
theorem handle_frame (s : Simulation cfg) (event : Event) :
    (handle (s, event)).node = (s.happen event).node ∧
      (handle (s, event)).agenda = (s.happen event).rescheduleTimer.agenda ∧
      (handle (s, event)).fetchDelay = (s.happen event).fetchDelay ∧
      (handle (s, event)).metrics.notifications = (s.happen event).metrics.notifications := by
  obtain ⟨snapshots, next, hframe⟩ := snapshotIfDue_frame (s.process event)
  obtain ⟨hdelay, hmetrics⟩ := rescheduleTimer_frame (s.happen event)
  have hcounted : (s.process event).metrics.notifications = (s.happen event).metrics.notifications :=
    congrArg Metrics.notifications hmetrics
  rw [handle, hframe]
  exact ⟨rescheduleTimer_node _, rfl, hdelay, hcounted⟩

theorem handle_now (h : s.Idle) (event : Event) : (handle (s, event)).now = s.now := by
  obtain ⟨snapshots, next, hframe⟩ := snapshotIfDue_frame (s.process event)
  rw [handle, hframe]
  exact (rescheduleTimer_now _).trans (happen_effect h event).now

/-- What is left to do when an event is due takes nothing off the agenda. -/
theorem mem_handle_of_mem_happen {event : Event} {e : Scheduled}
    (he : e ∈ (s.happen event).agenda.entries) : e ∈ (handle (s, event)).agenda.entries := by
  rw [(handle_frame s event).2.1, rescheduleTimer]
  split
  · exact he
  · exact Agenda.mem_insert_iff.mpr (.inr he)

/-- What follows from an event is put on the agenda. -/
theorem mem_handle_of_news (h : s.Idle) {event : Event} {e : Scheduled}
    (he : e ∈ numbered s.nextNumber (s.news event)) : e ∈ (handle (s, event)).agenda.entries := by
  apply mem_handle_of_mem_happen
  rw [(happen_effect h event).agenda, (scheduleAll_perm s _).mem_iff]
  exact List.mem_append_left _ he

/-- An event takes nothing off the agenda. -/
theorem mem_handle (h : s.Idle) (event : Event) {e : Scheduled} (he : e ∈ s.agenda.entries) :
    e ∈ (handle (s, event)).agenda.entries := by
  apply mem_handle_of_mem_happen
  rw [(happen_effect h event).agenda, (scheduleAll_perm s _).mem_iff]
  exact List.mem_append_right _ he

/-- Where no timer is awaited, one is scheduled. -/
theorem rescheduleTimer_agenda (h : s.scheduledWake = none) :
    s.rescheduleTimer.agenda.entries.Perm
      (⟨s.wake, s.nextNumber, .timer (s.timerGeneration + 1)⟩ :: s.agenda.entries) := by
  rw [rescheduleTimer, h, if_neg (Option.some_ne_none s.wake).symm]
  exact Agenda.insertIn_perm _ _

/-! ### What the node hears -/

/-- The inputs that the node gets from a command. -/
def heardOn (s : Simulation cfg) : Command → List Input
  | .turn stop =>
    match s.due? stop with
    | some (s₀, event) => s₀.told event
    | none => []
  | _ => []

/-- The inputs that the node gets in the course of some commands. -/
def heard (s : Simulation cfg) : List Command → List Input
  | [] => []
  | c :: cs => s.heardOn c ++ (s.obey c).heard cs

/-- The node takes in what it gets, and otherwise only reads settle its notifications. -/
theorem handle_resource {s₀ : Simulation cfg} {event : Event} (h : s₀.Idle) :
    Resource.SettledAtMost (s₀.node.resource.reactAll (s₀.told event)).state
      (handle (s₀, event)).node.resource := by
  rw [(handle_frame s₀ event).1]
  exact (happen_effect h event).resource

theorem obey_resource (h : s.OnTime) {c : Command} (hc : c.InTime) :
    Resource.SettledAtMost (s.node.resource.reactAll (s.heardOn c)).state
      (s.obey c).node.resource := by
  cases c with
  | action | fetch | observe => exact .inl rfl
  | turn stop =>
    cases hdue : s.due? stop with
    | none =>
      have hheard : s.heardOn (.turn stop) = [] := by rw [heardOn, hdue]
      rw [hheard, obey_turn_of_none hdue, advance_frame]
      exact .inl rfl
    | some x =>
      obtain ⟨s₀, event⟩ := x
      have hheard : s.heardOn (.turn stop) = s₀.told event := by rw [heardOn, hdue]
      have hsame : s₀.node.resource = s.node.resource := by
        obtain ⟨time, number, rest, -, -, rfl⟩ := due?_eq_some_iff.mp hdue
        rw [advance_frame]
      rw [hheard, obey_turn_of_some hdue, ← hsame]
      exact handle_resource (h.due hc hdue).idle

/-- **What is pending** is explained by what the node has heard. -/
theorem debounced_heard (hperiod : 0 < cfg.sweepPeriod.millis) {past : List Input} (h : s.OnTime)
    (hpast : Resource.Debounced past s.node.resource) {cs : List Command}
    (hcs : ∀ k ∈ cs, k.InTime) :
    Resource.Debounced (past ++ s.heard cs) (s.obeyAll cs).node.resource := by
  induction cs generalizing s past with
  | nil =>
    rw [heard, List.append_nil]
    exact hpast
  | cons c cs ih =>
    have hc := hcs c List.mem_cons_self
    have hnext := (hpast.reactAll (s.heardOn c)).of_settled (obey_resource h hc)
    rw [heard, ← List.append_assoc]
    exact ih (h.obey hperiod hc) hnext fun k hk => hcs k (List.mem_cons_of_mem c hk)

/-! ### What a turn does -/

/-- Subscribers are told an interval after the last report, once. Every observer will fetch the
document after the delay, and apart from that only the next timer is put on the agenda. -/
structure Announces (delay : Span) (heard : List Input) (s s' : Simulation cfg) : Prop where
  inTime : ∃ t, lastReport heard = some t ∧ s.now.millis = t.millis + cfg.debounce.millis
  raised : s'.node.notifier.total = s.node.notifier.total + 1
  counted : s'.metrics.notifications = s.metrics.notifications + 1
  scheduled : s'.agenda.entries.Perm
    (⟨s'.node.resource.nextWake, s.nextNumber + s.observers.length,
        .timer (s.timerGeneration + 1)⟩ ::
      numbered s.nextNumber
        ((List.range s.observers.length).map fun observer => (s.now + delay, .fetch observer)) ++
      s.agenda.entries)

section

variable {event : Event} {past : List Input}

/-- A notification can only come from the live timer. -/
theorem live_of_notices (hnotices : s.notices event ≠ 0) :
    event = .timer s.timerGeneration ∧ s.told event = [.timer s.now] := by
  rcases told_cases s event with htold | ⟨e, htold⟩ | hlive
  · rw [notices, htold] at hnotices
    exact absurd rfl hnotices
  · rw [notices, htold, reactAll_event_notices] at hnotices
    exact absurd rfl hnotices
  · exact hlive

/-- **A notification.** -/
theorem Taken.announces (hperiod : 0 < cfg.sweepPeriod.millis) (h : Taken s event)
    (hpast : Resource.Debounced past s.node.resource) (hnotices : s.notices event ≠ 0) :
    Announces s.fetchDelay past s (handle (s, event)) := by
  obtain ⟨rfl, htold⟩ := live_of_notices hnotices
  have heffect := happen_effect h.idle (.timer s.timerGeneration)
  obtain ⟨hnode, hagenda, -, hcounted⟩ := handle_frame s (.timer s.timerGeneration)
  have hsame : s.notices (.timer s.timerGeneration) = (s.node.resource.onTimer s.now).notices := by
    rw [notices, htold]
    rfl
  have hone : s.notices (.timer s.timerGeneration) = 1 := by
    rw [hsame] at hnotices ⊢
    rcases Resource.onTimer_notice s.node.resource s.now with ⟨hnone, -⟩ | ⟨hone, -⟩
    · exact absurd hnone hnotices
    · exact hone
  have hnews : s.news (.timer s.timerGeneration) = s.fetches := by
    rw [news, hone, List.replicate_one, List.flatten_singleton]
  refine ⟨hpast.notice (h.punctual rfl) h.early (hsame ▸ hnotices), ?_, ?_, ?_⟩
  · rw [hnode, heffect.total, hone]
  · rw [hcounted, heffect.counted, hone]
  · have hnone : (s.happen (.timer s.timerGeneration)).scheduledWake = none := by
      rw [heffect.scheduledWake, if_pos rfl]
    have hlength : s.fetches.length = s.observers.length := by
      rw [fetches, List.length_map, List.length_range]
    have hadded := rescheduleTimer_agenda hnone
    rw [← hagenda, (h.happen hperiod).wake_eq, ← hnode, heffect.agenda, heffect.nextNumber,
      heffect.timerGeneration, hnews, hlength] at hadded
    exact hadded.trans ((scheduleAll_perm s s.fetches).cons _)

/-- An event without a notification. -/
theorem total_of_quiet (h : s.Idle) (hquiet : s.notices event = 0) :
    (handle (s, event)).node.notifier.total = s.node.notifier.total ∧
      (handle (s, event)).metrics.notifications = s.metrics.notifications := by
  have heffect := happen_effect h event
  obtain ⟨hnode, -, -, hcounted⟩ := handle_frame s event
  rw [hnode, hcounted, heffect.total, heffect.counted, hquiet]
  exact ⟨rfl, rfl⟩

/-- **Timers** are called at the instant at which the node has work to do. -/
theorem Taken.called (h : Taken s event) {now : Instant} (hcalled : .timer now ∈ s.told event) :
    now = s.now ∧ s.now = s.node.resource.nextWake := by
  rcases told_cases s event with htold | ⟨e, htold⟩ | ⟨hlive, htold⟩
  · rw [htold] at hcalled
    cases hcalled
  · rw [htold, List.mem_singleton] at hcalled
    cases hcalled
  · rw [htold, List.mem_singleton] at hcalled
    exact ⟨Input.timer.inj hcalled, h.punctual hlive⟩

end

/-! ### Whatever is done -/

theorem due?_frame {stop : Instant} {s₀ : Simulation cfg} {event : Event}
    (h : s.due? stop = some (s₀, event)) :
    s₀.node.resource = s.node.resource ∧ s₀.node.notifier = s.node.notifier ∧
      s₀.metrics = s.metrics ∧ s₀.fetchDelay = s.fetchDelay := by
  obtain ⟨time, number, rest, -, -, rfl⟩ := due?_eq_some_iff.mp h
  rw [advance_frame]
  exact ⟨rfl, rfl, rfl, rfl⟩

theorem obey_fetchDelay (h : s.OnTime) {c : Command} (hc : c.InTime) :
    (s.obey c).fetchDelay = s.fetchDelay := by
  cases c with
  | action | fetch | observe => rfl
  | turn stop =>
    rw [obey, turn]
    split
    · next x hdue =>
      obtain ⟨s₀, event⟩ := x
      obtain ⟨-, -, hdelay, -⟩ := handle_frame s₀ event
      rw [hdelay, (happen_effect (h.due hc hdue).idle event).fetchDelay, (due?_frame hdue).2.2.2]
    · rw [advance_frame]
      rfl

/-- A simulation before it runs. -/
theorem build_frame (c : Scenario) (cfg : Settings) :
    (c.build cfg).node.resource = .startingAt cfg .boot ∧ (c.build cfg).fetchDelay = c.fetchDelay := by
  have hstep : ∀ (s : Simulation cfg) (k : Command),
      s.node.resource = .startingAt cfg .boot ∧ s.fetchDelay = c.fetchDelay → k ∈ c.commands →
        (s.obey k).node.resource = .startingAt cfg .boot ∧ (s.obey k).fetchDelay = c.fetchDelay := by
    intro s k h hk
    rcases Scenario.mem_commands hk with rfl | ⟨blockSize, rfl⟩ | ⟨a, -, rfl⟩
    · exact h
    · exact h
    · exact h
  have hstart : (c.start cfg).node.resource = .startingAt cfg .boot ∧
      (c.start cfg).fetchDelay = c.fetchDelay := by
    have hseed : (ofSeed cfg c.seed).node.resource = .startingAt cfg .boot :=
      congrArg Node.resource (rescheduleTimer_node _)
    rw [Scenario.start]
    cases c.snapshotInterval with
    | none => exact ⟨hseed, rfl⟩
    | some interval => exact ⟨hseed, rfl⟩
  rw [Scenario.build_eq]
  exact obeyAll_induction hstep hstart fun _ hk => hk

theorem obeyAll_fetchDelay (hperiod : 0 < cfg.sweepPeriod.millis) (h : s.OnTime) {cs : List Command}
    (hcs : ∀ k ∈ cs, k.InTime) : (s.obeyAll cs).fetchDelay = s.fetchDelay := by
  have hstep : ∀ (s' : Simulation cfg) (k : Command),
      s'.OnTime ∧ s'.fetchDelay = s.fetchDelay → k.InTime →
        (s'.obey k).OnTime ∧ (s'.obey k).fetchDelay = s.fetchDelay :=
    fun s' k h hk => ⟨h.1.obey hperiod hk, (obey_fetchDelay h.1 hk).trans h.2⟩
  exact (obeyAll_induction hstep ⟨h, rfl⟩ hcs).2

/-- **Everything in time.** A simulation is set up by a scenario, and commands are given to it in any
order, among them turns of runs, so that it may be in the middle of a run. If an event is due next, it
calls the node's timers only when the time is exactly the node's next instant of work. If it makes
subscribers be told, this happens exactly an interval after the last report of a route that was added
or removed, and all observers registered then will fetch the document after exactly the delay. When a
run ends, the node has nothing left to do up to its end, and runs do end if traffic leaves time
between its packets. -/
theorem obeyAll_punctual (cfg : Settings) (hperiod : 0 < cfg.sweepPeriod.millis) (c : Scenario)
    (cs : List Command) (hcs : ∀ k ∈ cs, k.InTime) :
    let s := (c.build cfg).obeyAll cs
    let heard := (c.build cfg).heard cs
    (∀ stop < .last, ∀ s₀ event, s.due? stop = some (s₀, event) →
      Resource.SettledAtMost (s.node.resource.reactAll (s₀.told event)).state
        (s.turn stop).node.resource ∧
      (∀ now, .timer now ∈ s₀.told event → now = s₀.now ∧ s₀.now = s.node.resource.nextWake) ∧
      ((s.turn stop).node.notifier.total = s.node.notifier.total ∧
          (s.turn stop).metrics.notifications = s.metrics.notifications ∨
        Announces c.fetchDelay heard s₀ (s.turn stop))) ∧
    (∀ stop < .last, s.due? stop = none → stop < (s.turn stop).node.resource.nextWake) ∧
    (c.IsPaced → (∀ k ∈ cs, k.IsPaced) →
      ∀ stop < .last, stop < (s.runUntil stop).node.resource.nextWake) := by
  intro s heard
  have hbuilt : (c.build cfg).OnTime := build_onTime hperiod c
  have htime : s.OnTime := obeyAll_onTime hperiod hbuilt hcs
  obtain ⟨hresource, hdelay⟩ := build_frame c cfg
  have hstart : Resource.Debounced [] (c.build cfg).node.resource := by
    rw [hresource]
    exact Resource.debounced_startingAt cfg .boot
  have hpast : Resource.Debounced heard s.node.resource :=
    debounced_heard hperiod hbuilt hstart hcs
  have hend : ∀ {s' : Simulation cfg} {stop : Instant}, s'.OnTime → stop < .last →
      s'.due? stop = none → stop < (s'.turn stop).node.resource.nextWake := by
    intro s' stop htime' hstop hnone
    have hturn : s'.turn stop = (s'.advance stop).takeSnapshot := by rw [turn, hnone]
    rw [hturn]
    exact (htime'.advance hstop hnone).2
  refine ⟨fun stop hstop s₀ event hdue => ?_, fun stop hstop => hend htime hstop,
    fun hc hpaced stop hstop => ?_⟩
  · have htaken := htime.due hstop hdue
    obtain ⟨hsame, hnotifier, hmetrics, hdelay₀⟩ := due?_frame hdue
    have hturn : s.turn stop = handle (s₀, event) := by rw [turn, hdue]
    have hpast₀ := hpast
    rw [← hsame] at hpast₀
    rw [hturn, ← hsame, ← hnotifier, ← hmetrics]
    refine ⟨handle_resource htaken.idle, fun now hcalled => htaken.called hcalled, ?_⟩
    by_cases hquiet : s₀.notices event = 0
    · exact .inl (total_of_quiet htaken.idle hquiet)
    · have hkept : s₀.fetchDelay = c.fetchDelay :=
        (hdelay₀.trans (obeyAll_fetchDelay hperiod hbuilt hcs)).trans hdelay
      rw [← hkept]
      exact .inr (htaken.announces hperiod hpast₀ hquiet)
  · obtain ⟨-, hsPaced⟩ := build_obeyAll_paced hperiod hc fun k hk => ⟨hcs k hk, hpaced k hk⟩
    obtain ⟨turns, hturns, hnone⟩ := runUntil_eq_turns hperiod hstop htime hsPaced
    have hbefore : (s.obeyAll (List.replicate turns (.turn stop))).OnTime :=
      (htime.turns hperiod hstop hsPaced turns).1
    rw [hturns, obeyAll_append]
    exact hend hbefore hstop hnone

/-- A route is reported at one millisecond, and the event that is due two turns later is the timer that
tells subscribers of it at three. -/
theorem obeyAll_punctual_of_route :
    let cfg : Settings := ⟨2, .ofMillis 2, .ofMillis 9, .ofMillis 5⟩
    let route : Route := ⟨.ofGroups 8193 0 0 0 0 0 0 1, .ofGroups 65152 0 0 0 0 0 0 1⟩
    let c : Scenario :=
      { Scenario.stock with
          fetchDelay := .ofMillis 1
          observers := [64, 32]
          actions := [(.ofMillis 1, .addRoute route)] }
    let stop : Instant := .ofMillis 9
    let cs : List Command := [.turn stop, .turn stop]
    0 < cfg.sweepPeriod.millis ∧ (∀ k ∈ cs, k.InTime ∧ k.IsPaced) ∧ c.IsPaced ∧ stop < .last ∧
      let s := (c.build cfg).obeyAll cs
      stop < (s.runUntil stop).node.resource.nextWake ∧
        ∃ s₀ event, s.due? stop = some (s₀, event) ∧ s₀.now = .ofMillis 3 ∧
          Announces c.fetchDelay ((c.build cfg).heard cs) s₀ (s.turn stop) := by
  intro cfg route c stop cs
  have hperiod : 0 < cfg.sweepPeriod.millis := by decide
  have hstop : stop < .last := by decide
  have hcs : ∀ k ∈ cs, k.InTime ∧ k.IsPaced := by
    intro k hk
    rw [List.mem_cons, List.mem_singleton, or_self] at hk
    rw [hk]
    exact ⟨hstop, trivial⟩
  have hc : c.IsPaced := by
    intro a ha
    rw [List.mem_singleton.mp ha]
    trivial
  have hnow : (((c.build cfg).obeyAll cs).due? stop).map (fun x => x.1.now) =
      some (.ofMillis 3) := by decide +kernel
  have htold : (((c.build cfg).obeyAll cs).turn stop).node.notifier.total ≠
      ((c.build cfg).obeyAll cs).node.notifier.total := by decide +kernel
  obtain ⟨hdue, -, hend⟩ := obeyAll_punctual cfg hperiod c cs fun k hk => (hcs k hk).1
  refine ⟨hperiod, hcs, hc, hstop, hend hc (fun k hk => (hcs k hk).2) stop hstop, ?_⟩
  cases hnext : ((c.build cfg).obeyAll cs).due? stop with
  | none =>
    rw [hnext] at hnow
    cases hnow
  | some x =>
    obtain ⟨s₀, event⟩ := x
    rw [hnext] at hnow
    obtain ⟨-, -, hquiet | hannounced⟩ := hdue stop hstop s₀ event hnext
    · exact absurd hquiet.1 htold
    · exact ⟨s₀, event, rfl, Option.some.inj hnow, hannounced⟩

end Simulation

end ObservableTree
