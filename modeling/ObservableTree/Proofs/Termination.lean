import ObservableTree.Proofs.Timers

/-!
# Runs come to an end

Every event weighs more than all that follows from it, provided that traffic leaves time between its
packets and sweeps have a period, so the weight of what is scheduled bounds the number of events
that can still happen:

* `Simulation.Spaced` — all traffic leaves time between its packets, `Simulation.Paced` — and so
  does all that an action on the agenda will start;
* `load` — the weight of scheduled events, `Event.weight_mono` — less time left, less weight;
* `Taken.process_weight` — an event and the timer that it may leave;
* `due?_steps_of_performed` — after as many events as the weight tells, nothing is due;
* `runUntil_eq_turns` — a run is a row of turns, of which only the last one finds nothing due.
-/

namespace ObservableTree

/-! ### Weights -/

theorem timerWeight_mono {observers m n : Nat} (h : m ≤ n) :
    timerWeight observers m ≤ timerWeight observers n := Nat.mul_le_mul_right _ h

/-- The less time is left, the less an event weighs. -/
theorem Event.weight_mono {observers m n : Nat} (h : m ≤ n) (event : Event) :
    event.weight observers m ≤ event.weight observers n := by
  have htimer : timerWeight observers m ≤ timerWeight observers n := timerWeight_mono h
  have hreport : 1 + timerWeight observers m ≤ 1 + timerWeight observers n :=
    Nat.add_le_add_left htimer 1
  have hpacket : m * (1 + timerWeight observers m) ≤ n * (1 + timerWeight observers n) :=
    Nat.mul_le_mul h hreport
  cases event with
  | fetch => exact Nat.le_refl 1
  | timer => exact htimer
  | routeChange => exact hreport
  | packet => exact hpacket
  | action => exact Nat.add_le_add (Nat.add_le_add hreport hreport) hpacket

theorem Scheduled.weight_le {observers left : Nat} {stop : Instant} {e : Scheduled}
    (h : stop.millis + 1 - e.time.millis ≤ left) :
    e.weight observers stop ≤ e.event.weight observers left := by
  unfold weight
  split
  · exact Nat.zero_le _
  · exact Event.weight_mono h e.event

/-- The weight of scheduled events up to an instant. -/
def load (observers : Nat) (stop : Instant) (entries : List Scheduled) : Nat :=
  entries.foldr (fun e n => e.weight observers stop + n) 0

section

variable {observers : Nat} {stop : Instant}

theorem load_cons (e : Scheduled) (entries : List Scheduled) :
    load observers stop (e :: entries) = e.weight observers stop + load observers stop entries := rfl

theorem load_append (entries more : List Scheduled) :
    load observers stop (entries ++ more) =
      load observers stop entries + load observers stop more := by
  induction entries with
  | nil => exact (Nat.zero_add _).symm
  | cons e entries ih => rw [List.cons_append, load_cons, load_cons, ih, Nat.add_assoc]

theorem load_perm {entries more : List Scheduled} (h : entries.Perm more) :
    load observers stop entries = load observers stop more := by
  induction h with
  | nil => rfl
  | cons e _ ih => rw [load_cons, load_cons, ih]
  | swap d e entries =>
    simp only [load_cons]
    exact Nat.add_left_comm _ _ _
  | trans _ _ ih ih' => exact ih.trans ih'

theorem load_single_le {left : Nat} {time : Instant} {number : Nat} {event : Event}
    (h : stop.millis + 1 - time.millis ≤ left) :
    load observers stop [⟨time, number, event⟩] ≤ event.weight observers left :=
  Scheduled.weight_le h

end

namespace Simulation

variable {cfg : Settings} {s : Simulation cfg} {stop : Instant} {event : Event}

/-- Retrievals weigh no more than one each. -/
theorem load_fetches_le (s : Simulation cfg) (observers number : Nat) (stop : Instant) :
    load observers stop (numbered number s.fetches) ≤ s.observers.length := by
  have hrow : ∀ (ns : List Nat) (number : Nat), load observers stop
      (numbered number (ns.map fun observer => (s.now + s.fetchDelay, .fetch observer))) ≤
        ns.length := by
    intro ns
    induction ns with
    | nil => exact fun _ => Nat.le_refl 0
    | cons observer ns ih =>
      intro number
      have hone : Scheduled.weight observers stop ⟨s.now + s.fetchDelay, number, .fetch observer⟩ ≤ 1 :=
        Scheduled.weight_le (Nat.le_refl _)
      have hmore := ih (number + 1)
      rw [List.map_cons, numbered, load_cons, List.length_cons]
      dsimp only
      omega
  have hall := hrow (List.range s.observers.length) number
  rw [List.length_range] at hall
  exact hall

/-! ### Traffic -/

/-- All traffic leaves time between its packets. -/
def Spaced (s : Simulation cfg) : Prop := ∀ p ∈ s.traffic, 0 < p.2.interval.millis

/-- All traffic, and all that an action on the agenda will start, leaves time between its packets.
-/
structure Paced (s : Simulation cfg) : Prop where
  running : ∀ p ∈ s.traffic, 0 < p.2.interval.millis
  planned : ∀ e ∈ s.agenda.entries, ∀ action, e.event = .action action → action.IsPaced

theorem Spaced.interval_pos (h : s.Spaced) {source : Address} {t : Traffic}
    (ht : s.traffic? source = some t) : 0 < t.interval.millis := by
  obtain ⟨p, hp, rfl⟩ := Option.map_eq_some_iff.mp ht
  exact h p (List.mem_of_find?_eq_some hp)

theorem Spaced.setTraffic (h : s.Spaced) (neighbor : Address) {t : Traffic}
    (ht : 0 < t.interval.millis) : (s.setTraffic neighbor t).Spaced := by
  intro p hp
  rcases List.mem_cons.mp hp with rfl | hp
  · exact ht
  · exact h p (List.mem_filter.mp hp).1

theorem Spaced.execute (h : s.Spaced) {action : Action} (haction : action.IsPaced) :
    (s.execute action).Spaced := by
  cases action with
  | startTraffic neighbor interval => exact h.setTraffic neighbor haction
  | stopTraffic neighbor =>
    rw [Simulation.execute, stopTraffic]
    split
    · exact h
    · next t ht =>
      have hpos := h.interval_pos ht
      exact h.setTraffic neighbor hpos
  | removeRoute | clearParent =>
    unfold Simulation.execute
    dsimp only
    split
    · exact h
    · exact h
  | addRoute | setParent | setPrefix | takeSnapshot => exact h

/-- **One event** leaves time between the packets if the action does that it carries out. -/
theorem Spaced.happen (h : s.Spaced) (hidle : s.Idle)
    (hevent : ∀ action, event = .action action → action.IsPaced) : (s.happen event).Spaced := by
  rcases (happen_effect hidle event).traffic with ⟨action, rfl⟩ | hsame
  · exact h.execute (hevent action rfl)
  · unfold Spaced
    rw [hsame]
    exact h

/-- **One event** starts no traffic that is not planned. -/
theorem Paced.happen (h : s.Paced) (hidle : s.Idle)
    (hevent : ∀ action, event = .action action → action.IsPaced) : (s.happen event).Paced := by
  refine ⟨Spaced.happen h.running hidle hevent, fun e he action haction => ?_⟩
  rw [(happen_effect hidle event).agenda, (scheduleAll_perm s _).mem_iff, List.mem_append] at he
  rcases he with hnew | hold
  · have hsequel := isSequel_of_mem_news (mem_of_mem_numbered hnew)
    rw [haction] at hsequel
    exact hsequel.elim
  · exact h.planned e hold action haction

theorem rescheduleTimer_paced (h : s.Paced) : s.rescheduleTimer.Paced := by
  unfold rescheduleTimer
  split
  · exact h
  · refine ⟨h.running, fun e he action haction => ?_⟩
    rcases Agenda.mem_insert_iff.mp he with rfl | hold
    · cases haction
    · exact h.planned e hold action haction

theorem handle_traffic (s : Simulation cfg) (event : Event) :
    (handle (s, event)).traffic = (s.happen event).traffic := by
  obtain ⟨snapshots, next, hframe⟩ := snapshotIfDue_frame (s.process event)
  rw [handle, hframe]
  show (s.happen event).rescheduleTimer.traffic = _
  unfold rescheduleTimer
  split
  · rfl
  · rfl

theorem snapshotIfDue_paced (h : s.Paced) : s.snapshotIfDue.Paced := by
  obtain ⟨snapshots, next, hframe⟩ := snapshotIfDue_frame s
  rw [hframe]
  exact ⟨h.running, h.planned⟩

theorem Spaced.due {s₀ : Simulation cfg} (h : s.Spaced) (hdue : s.due? stop = some (s₀, event)) :
    s₀.Spaced := by
  obtain ⟨time, number, rest, -, -, rfl⟩ := due?_eq_some_iff.mp hdue
  rw [advance_frame]
  exact h

/-- What is due is planned. -/
theorem Paced.due {s₀ : Simulation cfg} (h : s.Paced) (hdue : s.due? stop = some (s₀, event)) :
    s₀.Paced ∧ ∀ action, event = .action action → action.IsPaced := by
  obtain ⟨time, number, rest, hentries, -, rfl⟩ := due?_eq_some_iff.mp hdue
  have hplanned := h.planned
  rw [hentries] at hplanned
  rw [advance_frame]
  exact ⟨⟨h.running, fun e he => hplanned e (List.mem_cons_of_mem _ he)⟩,
    hplanned _ List.mem_cons_self⟩

/-! ### One event -/

theorem happen_weight (hidle : s.Idle) (event : Event) (stop : Instant) :
    (s.happen event).weight stop =
      load s.observers.length stop (numbered s.nextNumber (s.news event)) + s.weight stop := by
  have heffect := happen_effect hidle event
  show load _ _ _ = _ + load _ _ _
  rw [heffect.observers, heffect.agenda, load_perm (scheduleAll_perm s _), load_append]

theorem snapshotIfDue_weight (s : Simulation cfg) (stop : Instant) :
    s.snapshotIfDue.weight stop = s.weight stop := by
  obtain ⟨snapshots, next, hframe⟩ := snapshotIfDue_frame s
  rw [hframe]
  rfl

/-- The timer that is needed weighs no more than the time that is left until it is due. -/
theorem rescheduleTimer_weight_le (h : s.Coherent) (stop : Instant) :
    s.rescheduleTimer.weight stop ≤
      timerWeight s.observers.length (stop.millis + 1 - s.node.resource.nextWake.millis) +
        s.weight stop := by
  unfold rescheduleTimer
  split
  · exact Nat.le_add_left _ _
  · have hinsert : load s.observers.length stop (Agenda.insertIn
        ⟨s.wake, s.nextNumber, .timer (s.timerGeneration + 1)⟩ s.agenda.entries) =
          Scheduled.weight s.observers.length stop
            ⟨s.wake, s.nextNumber, .timer (s.timerGeneration + 1)⟩ + s.weight stop :=
      load_perm (Agenda.insertIn_perm _ _)
    rw [h.wake_eq] at hinsert ⊢
    refine Nat.le_trans (Nat.le_of_eq hinsert) (Nat.add_le_add_right ?_ _)
    exact Scheduled.weight_le (Nat.le_refl _)

/-- The timer that is awaited is kept. -/
theorem rescheduleTimer_of_awaited (h : s.Coherent)
    (hawaited : s.scheduledWake = some s.node.resource.nextWake) : s.rescheduleTimer = s := by
  rw [rescheduleTimer, h.wake_eq, if_pos hawaited]

/-- Where the node has work to do at the same instant as before, the timer is kept. -/
theorem Taken.process_of_same (hperiod : 0 < cfg.sweepPeriod.millis) (h : Taken s event)
    (hother : event ≠ .timer s.timerGeneration)
    (hsame : (s.node.resource.reactAll (s.told event)).state.nextWake = s.node.resource.nextWake) :
    s.process event = s.happen event := by
  have heffect := happen_effect h.idle event
  have hawaited : (s.happen event).scheduledWake = some (s.happen event).node.resource.nextWake := by
    rw [heffect.scheduledWake, if_neg hother, h.awaited, heffect.resource.nextWake, hsame]
  exact rescheduleTimer_of_awaited (h.happen hperiod).toCoherent hawaited

theorem Taken.process_weight_of_same (hperiod : 0 < cfg.sweepPeriod.millis) (h : Taken s event)
    (hother : event ≠ .timer s.timerGeneration)
    (hsame : (s.node.resource.reactAll (s.told event)).state.nextWake = s.node.resource.nextWake)
    (stop : Instant) :
    (s.process event).weight stop =
      load s.observers.length stop (numbered s.nextNumber (s.news event)) + s.weight stop := by
  rw [h.process_of_same hperiod hother hsame, happen_weight h.idle]

/-- In general one timer more is needed. -/
theorem Taken.process_weight_le (hperiod : 0 < cfg.sweepPeriod.millis) (h : Taken s event)
    (stop : Instant) :
    (s.process event).weight stop ≤
      timerWeight s.observers.length (stop.millis + 1 -
          (s.node.resource.reactAll (s.told event)).state.nextWake.millis) +
        (load s.observers.length stop (numbered s.nextNumber (s.news event)) + s.weight stop) := by
  have heffect := happen_effect h.idle event
  have hmore := rescheduleTimer_weight_le (h.happen hperiod).toCoherent stop
  rw [heffect.observers, heffect.resource.nextWake, happen_weight h.idle] at hmore
  exact hmore

theorem told_packet_nextWake (s : Simulation cfg) (source : Address) (generation : UInt32) :
    (s.node.resource.reactAll (s.told (.packet source generation))).state.nextWake =
      s.node.resource.nextWake := by
  rw [told]
  split
  · rfl
  · split
    · rfl
    · split
      · rfl
      · rfl

section

variable {left : Nat} (hnow : stop.millis + 1 - s.now.millis ≤ left)

include hnow

theorem load_actionNews_le (observers number : Nat) (action : Action) :
    load observers stop (numbered number (s.actionNews action)) ≤
      1 + timerWeight observers left + left * (1 + timerWeight observers left) := by
  have hreport : ∀ change route,
      load observers stop [⟨s.now, number, .routeChange change route⟩] ≤
        1 + timerWeight observers left := fun _ _ => load_single_le hnow
  cases action with
  | addRoute route => exact Nat.le_trans (hreport _ _) (Nat.le_add_right _ _)
  | setParent parent => exact Nat.le_trans (hreport _ _) (Nat.le_add_right _ _)
  | startTraffic neighbor interval =>
    exact Nat.le_trans (load_single_le hnow) (Nat.le_add_left _ _)
  | removeRoute destination =>
    rw [actionNews]
    cases s.routing.route? destination with
    | none => exact Nat.zero_le _
    | some route => exact Nat.le_trans (hreport _ _) (Nat.le_add_right _ _)
  | clearParent =>
    rw [actionNews]
    cases s.routing.parent with
    | none => exact Nat.zero_le _
    | some parent => exact Nat.le_trans (hreport _ _) (Nat.le_add_right _ _)
  | setPrefix | stopTraffic | takeSnapshot => exact Nat.zero_le _

variable (hperiod : 0 < cfg.sweepPeriod.millis) (hleft : 0 < left)

include hperiod hleft

/-- A packet is followed by one with less time left. -/
theorem Taken.packet_weight {source : Address} {generation : UInt32} (hspaced : s.Spaced)
    (h : Taken s (.packet source generation)) :
    (s.process (.packet source generation)).weight stop <
      (Event.packet source generation).weight s.observers.length left + s.weight stop := by
  rw [h.process_weight_of_same hperiod nofun (told_packet_nextWake s source generation)]
  refine Nat.add_lt_add_right ?_ _
  obtain ⟨k, rfl⟩ := Nat.exists_eq_succ_of_ne_zero (Nat.ne_of_gt hleft)
  have hmore : (Event.packet source generation).weight s.observers.length k <
      (Event.packet source generation).weight s.observers.length (k + 1) := by
    have hmono : k * (1 + timerWeight s.observers.length k) ≤
        k * (1 + timerWeight s.observers.length (k + 1)) :=
      Nat.mul_le_mul_left k (Nat.add_le_add_left (timerWeight_mono (Nat.le_succ k)) 1)
    show k * (1 + timerWeight s.observers.length k) <
      (k + 1) * (1 + timerWeight s.observers.length (k + 1))
    rw [Nat.succ_mul]
    omega
  have hnone := Nat.zero_lt_of_lt hmore
  rw [news]
  split
  · exact hnone
  · next t ht =>
    split
    · exact hnone
    · have hafter := Instant.lt_after h.early (hspaced.interval_pos ht)
      rw [Instant.lt_iff] at hafter
      refine Nat.lt_of_le_of_lt (load_single_le ?_) hmore
      dsimp only
      omega

/-- A timer is followed by one with less time left, and by one retrieval for each observer. -/
theorem Taken.timer_weight {generation : Nat} (h : Taken s (.timer generation)) :
    (s.process (.timer generation)).weight stop <
      (Event.timer generation).weight s.observers.length left + s.weight stop := by
  obtain ⟨k, rfl⟩ := Nat.exists_eq_succ_of_ne_zero (Nat.ne_of_gt hleft)
  have hsplit : (Event.timer generation).weight s.observers.length (k + 1) =
      timerWeight s.observers.length k + (s.observers.length + 1) := Nat.succ_mul _ _
  rw [hsplit]
  by_cases hlive : generation = s.timerGeneration
  · subst hlive
    have htold : s.told (.timer s.timerGeneration) = [.timer s.now] := if_neg (not_not_intro rfl)
    have hmore := h.process_weight_le hperiod stop
    have hlater := Resource.lt_nextWake_onTimer hperiod h.early s.node.resource
    rw [htold] at hmore
    have htimer : timerWeight s.observers.length (stop.millis + 1 -
        (s.node.resource.reactAll [.timer s.now]).state.nextWake.millis) ≤
          timerWeight s.observers.length k := by
      apply timerWeight_mono
      rw [Instant.lt_iff] at hlater
      show stop.millis + 1 - (s.node.resource.onTimer s.now).state.nextWake.millis ≤ k
      omega
    have hfetches : load s.observers.length stop
        (numbered s.nextNumber (s.news (.timer s.timerGeneration))) ≤ s.observers.length := by
      have hnotices : s.notices (.timer s.timerGeneration) =
          (s.node.resource.onTimer s.now).notices := by
        rw [notices, htold]
        rfl
      rw [news, hnotices]
      rcases Resource.onTimer_notice s.node.resource s.now with ⟨hnone, -⟩ | ⟨hone, -⟩
      · rw [hnone]
        exact Nat.zero_le _
      · rw [hone, List.replicate_one, List.flatten_singleton]
        exact load_fetches_le s _ _ _
    omega
  · have htold : s.told (.timer generation) = [] := if_pos hlive
    have hnews : s.news (.timer generation) = [] := by
      rw [news, notices, htold]
      rfl
    have hother : Event.timer generation ≠ .timer s.timerGeneration :=
      fun hsame => hlive (Event.timer.inj hsame)
    have hsame : (s.node.resource.reactAll (s.told (.timer generation))).state.nextWake =
        s.node.resource.nextWake := by
      rw [htold]
      rfl
    rw [h.process_weight_of_same hperiod hother hsame, hnews]
    have hnone : load s.observers.length stop (numbered s.nextNumber []) = 0 := rfl
    omega

/-- **One event** weighs more than what follows from it. -/
theorem Taken.process_weight (hspaced : s.Spaced) (h : Taken s event) :
    (s.process event).weight stop < event.weight s.observers.length left + s.weight stop := by
  cases event with
  | packet source generation => exact h.packet_weight hnow hperiod hleft hspaced
  | timer generation => exact h.timer_weight hnow hperiod hleft
  | routeChange change route =>
    have hmore := h.process_weight_le hperiod stop
    have hahead := Resource.le_nextWake_onEvent h.ahead
      (.routeChanged change route s.routing.routes.length)
    have htimer : timerWeight s.observers.length (stop.millis + 1 -
        (s.node.resource.reactAll (s.told (.routeChange change route))).state.nextWake.millis) ≤
          timerWeight s.observers.length left := by
      apply timerWeight_mono
      exact Nat.le_trans (Nat.sub_le_sub_left hahead _) hnow
    have hnone : load s.observers.length stop
        (numbered s.nextNumber (s.news (.routeChange change route))) = 0 := rfl
    show _ < 1 + timerWeight s.observers.length left + _
    omega
  | fetch observer =>
    rw [h.process_weight_of_same hperiod nofun rfl]
    exact Nat.add_lt_add_right Nat.zero_lt_one _
  | action action =>
    rw [h.process_weight_of_same hperiod nofun rfl]
    refine Nat.add_lt_add_right ?_ _
    have hnews := load_actionNews_le hnow s.observers.length s.nextNumber action
    show load s.observers.length stop (numbered s.nextNumber (s.actionNews action)) <
      1 + timerWeight s.observers.length left + (1 + timerWeight s.observers.length left) +
        left * (1 + timerWeight s.observers.length left)
    omega

end

/-! ### Runs -/

theorem weight_handle_lt (hperiod : 0 < cfg.sweepPeriod.millis) (hstop : stop < .last)
    (h : s.OnTime) (hspaced : s.Spaced) {x : Simulation cfg × Event} (hdue : s.due? stop = some x) :
    (handle x).weight stop < s.weight stop := by
  obtain ⟨s₀, event⟩ := x
  have htaken := h.due hstop hdue
  have hspaced₀ := hspaced.due hdue
  obtain ⟨time, number, rest, hentries, htime, rfl⟩ := due?_eq_some_iff.mp hdue
  have hpast : stop.millis + 1 - ({ s with agenda := ⟨rest⟩ }.advance time).now.millis ≤
      stop.millis + 1 - time.millis := by
    rw [advance_millis]
    omega
  have hleft : 0 < stop.millis + 1 - time.millis := by
    rw [Instant.le_iff] at htime
    omega
  have hless := htaken.process_weight hpast hperiod hleft hspaced₀
  rw [handle, snapshotIfDue_weight]
  refine Nat.lt_of_lt_of_le hless (Nat.le_of_eq ?_)
  have hfirst : Scheduled.weight s.observers.length stop ⟨time, number, event⟩ =
      event.weight s.observers.length (stop.millis + 1 - time.millis) :=
    if_neg (Nat.not_lt.mpr htime)
  have hall : s.weight stop = load s.observers.length stop (⟨time, number, event⟩ :: rest) :=
    congrArg (load s.observers.length stop) hentries
  rw [hall, load_cons, hfirst, advance_frame]
  rfl

theorem handle_paced {x : Simulation cfg × Event} (h : s.OnTime) (hstop : stop < .last)
    (hpaced : s.Paced) (hdue : s.due? stop = some x) : (handle x).Paced := by
  obtain ⟨s₀, event⟩ := x
  obtain ⟨hpaced₀, hplanned⟩ := hpaced.due hdue
  exact snapshotIfDue_paced (rescheduleTimer_paced (hpaced₀.happen (h.due hstop hdue).idle hplanned))

/-- **One command** that is paced. -/
theorem Paced.obey (hpaced : s.Paced) (h : s.OnTime) {c : Command} (hc : c.InTime)
    (hcp : c.IsPaced) : (s.obey c).Paced := by
  cases c with
  | action time action =>
    refine ⟨hpaced.running, fun e he a ha => ?_⟩
    rcases Agenda.mem_insert_iff.mp he with rfl | hold
    · cases ha
      exact hcp
    · exact hpaced.planned e hold a ha
  | fetch time observer =>
    refine ⟨hpaced.running, fun e he a ha => ?_⟩
    rcases Agenda.mem_insert_iff.mp he with rfl | hold
    · cases ha
    · exact hpaced.planned e hold a ha
  | observe blockSize => exact ⟨hpaced.running, hpaced.planned⟩
  | turn stop =>
    rw [Simulation.obey, turn]
    split
    · next x hdue => exact handle_paced h hc hpaced hdue
    · rw [advance_frame]
      exact ⟨hpaced.running, hpaced.planned⟩

/-- What is carried out is planned. -/
theorem Paced.performed (hperiod : 0 < cfg.sweepPeriod.millis) (hpaced : s.Paced) (h : s.OnTime)
    {cs : List Command} (hcs : ∀ k ∈ cs, k.InTime ∧ k.IsPaced) :
    ∀ action ∈ s.performed cs, action.IsPaced := by
  induction cs generalizing s with
  | nil => exact nofun
  | cons c cs ih =>
    intro action haction
    obtain ⟨hc, hcp⟩ := hcs c List.mem_cons_self
    rcases List.mem_append.mp haction with hone | hmore
    · obtain ⟨stop, s₀, rfl, hdue⟩ := due?_of_mem_performedOn hone
      exact (hpaced.due hdue).2 action rfl
    · exact ih (hpaced.obey h hc hcp) (h.obey hperiod hc)
        (fun k hk => hcs k (List.mem_cons_of_mem c hk)) action hmore

/-- **One command** leaves time between the packets if the action does that is carried out. -/
theorem Spaced.obey (hspaced : s.Spaced) (h : s.OnTime) {c : Command} (hc : c.InTime)
    (hperformed : ∀ action ∈ s.performedOn c, action.IsPaced) : (s.obey c).Spaced := by
  cases c with
  | action | fetch | observe => exact hspaced
  | turn stop =>
    cases hdue : s.due? stop with
    | none =>
      rw [obey_turn_of_none hdue, advance_frame]
      exact hspaced
    | some x =>
      obtain ⟨s₀, event⟩ := x
      have hevent : ∀ action, event = .action action → action.IsPaced := by
        rintro action rfl
        exact hperformed action (mem_performedOn_turn hdue)
      unfold Spaced
      rw [obey_turn_of_some hdue, handle_traffic]
      exact (hspaced.due hdue).happen (h.due hc hdue).idle hevent

section

variable (hperiod : 0 < cfg.sweepPeriod.millis) (hstop : stop < .last)

include hperiod hstop

/-- **The end of a run.** After as many events as the weight of the agenda tells, nothing is due, if
all traffic that is started in the course of them leaves time between its packets. -/
theorem due?_steps_of_performed {count : Nat} (h : s.OnTime) (hspaced : s.Spaced)
    (hperformed : ∀ n, ∀ action ∈ s.performed (List.replicate n (.turn stop)), action.IsPaced)
    (hcount : s.weight stop ≤ count) : (steps stop count s).due? stop = none := by
  induction count generalizing s with
  | zero =>
    rw [steps]
    cases hdue : s.due? stop with
    | none => rfl
    | some x =>
      have hless := weight_handle_lt hperiod hstop h hspaced hdue
      exact absurd hcount (Nat.not_le.mpr (Nat.zero_lt_of_lt hless))
  | succ count ih =>
    cases hdue : s.due? stop with
    | none =>
      have hstep : s.stepUntil? stop = none := stepUntil?_of_none hdue
      rw [steps_of_none hstep, hdue]
    | some x =>
      have hstep : s.stepUntil? stop = some (handle x) := stepUntil?_of_some hdue
      have hless := weight_handle_lt hperiod hstop h hspaced hdue
      have hnext : (handle x).Spaced := by
        rw [← obey_turn_of_some hdue]
        exact hspaced.obey h hstop fun action ha => hperformed 1 action (List.mem_append_left _ ha)
      simp only [steps, hstep]
      refine ih (handle_onTime hperiod (h.due hstop hdue)) hnext (fun n action ha => ?_) (by omega)
      rw [← obey_turn_of_some hdue] at ha
      exact hperformed (n + 1) action (List.mem_append_right _ ha)

theorem due?_steps {count : Nat} (h : s.OnTime) (hpaced : s.Paced) (hcount : s.weight stop ≤ count) :
    (steps stop count s).due? stop = none := by
  refine due?_steps_of_performed hperiod hstop h hpaced.running (fun n => ?_) hcount
  exact hpaced.performed hperiod h fun k hk => Command.of_mem_turns hstop hk

end

theorem steps_eq_turns (stop : Instant) (count : Nat) (s : Simulation cfg) :
    ∃ turns, steps stop count s = s.obeyAll (List.replicate turns (.turn stop)) := by
  induction count generalizing s with
  | zero => exact ⟨0, rfl⟩
  | succ count ih =>
    cases hdue : s.due? stop with
    | none =>
      have hstep : s.stepUntil? stop = none := stepUntil?_of_none hdue
      exact ⟨0, steps_of_none hstep _⟩
    | some x =>
      have hstep : s.stepUntil? stop = some (handle x) := stepUntil?_of_some hdue
      obtain ⟨turns, hturns⟩ := ih (handle x)
      refine ⟨turns + 1, ?_⟩
      simp only [steps, hstep]
      rw [hturns, List.replicate_succ, ← obey_turn_of_some hdue]
      rfl

/-- **A run is a row of turns.** All except the last one find an event that is due. -/
theorem runUntil_eq_turns (hperiod : 0 < cfg.sweepPeriod.millis) (hstop : stop < .last)
    (h : s.OnTime) (hpaced : s.Paced) :
    ∃ turns, s.runUntil stop = s.obeyAll (List.replicate turns (.turn stop) ++ [.turn stop]) ∧
      (s.obeyAll (List.replicate turns (.turn stop))).due? stop = none := by
  obtain ⟨turns, hturns⟩ := steps_eq_turns stop (s.weight stop) s
  have hnone := due?_steps hperiod hstop h hpaced (Nat.le_refl _)
  rw [hturns] at hnone
  refine ⟨turns, ?_, hnone⟩
  rw [runUntil, hturns, obeyAll_append]
  show _ = turn _ stop
  rw [turn, hnone]

/-! ### Whatever is done -/

theorem start_paced (c : Scenario) (cfg : Settings) : (c.start cfg).Paced := by
  have hseed : (ofSeed cfg c.seed).Paced :=
    rescheduleTimer_paced ⟨nofun, nofun⟩
  rw [Scenario.start]
  cases c.snapshotInterval with
  | none => exact ⟨hseed.running, hseed.planned⟩
  | some interval => exact ⟨hseed.running, hseed.planned⟩

/-- **Several commands.** -/
theorem OnTime.obeyAll (hperiod : 0 < cfg.sweepPeriod.millis) (h : s.OnTime) (hpaced : s.Paced)
    {cs : List Command} (hcs : ∀ k ∈ cs, k.InTime ∧ k.IsPaced) :
    (s.obeyAll cs).OnTime ∧ (s.obeyAll cs).Paced := by
  have hstep : ∀ (s : Simulation cfg) (k : Command), s.OnTime ∧ s.Paced → k.InTime ∧ k.IsPaced →
      (s.obey k).OnTime ∧ (s.obey k).Paced := by
    rintro s k ⟨h, hpaced⟩ ⟨hk, hkp⟩
    exact ⟨h.obey hperiod hk, hpaced.obey h hk hkp⟩
  exact obeyAll_induction hstep ⟨h, hpaced⟩ hcs

/-- **Several commands**, if the traffic that is started in the course of them leaves time between
its packets. -/
theorem Spaced.obeyAll (hperiod : 0 < cfg.sweepPeriod.millis) (hspaced : s.Spaced) (h : s.OnTime)
    {cs : List Command} (hcs : ∀ k ∈ cs, k.InTime)
    (hperformed : ∀ action ∈ s.performed cs, action.IsPaced) : (s.obeyAll cs).Spaced := by
  induction cs generalizing s with
  | nil => exact hspaced
  | cons c cs ih =>
    have hc := hcs c List.mem_cons_self
    have hnext : (s.obey c).Spaced :=
      hspaced.obey h hc fun action ha => hperformed action (List.mem_append_left _ ha)
    exact ih hnext (h.obey hperiod hc) (fun k hk => hcs k (List.mem_cons_of_mem c hk))
      fun action ha => hperformed action (List.mem_append_right _ ha)

/-- Turns of a run, as many as one likes. -/
theorem OnTime.turns (hperiod : 0 < cfg.sweepPeriod.millis) (hstop : stop < .last) (h : s.OnTime)
    (hpaced : s.Paced) (count : Nat) :
    (s.obeyAll (List.replicate count (.turn stop))).OnTime ∧
      (s.obeyAll (List.replicate count (.turn stop))).Paced := by
  exact h.obeyAll hperiod hpaced fun k hk => Command.of_mem_turns hstop hk

theorem build_paced (hperiod : 0 < cfg.sweepPeriod.millis) {c : Scenario} (hc : c.IsPaced) :
    (c.build cfg).OnTime ∧ (c.build cfg).Paced := by
  rw [Scenario.build_eq]
  exact (start_onTime c cfg).obeyAll hperiod (start_paced c cfg) fun k hk =>
    ⟨c.commands_inTime k hk, hc.commands k hk⟩

theorem build_obeyAll_paced (hperiod : 0 < cfg.sweepPeriod.millis) {c : Scenario} (hc : c.IsPaced)
    {cs : List Command} (hcs : ∀ k ∈ cs, k.InTime ∧ k.IsPaced) :
    ((c.build cfg).obeyAll cs).OnTime ∧ ((c.build cfg).obeyAll cs).Paced := by
  obtain ⟨hbuilt, hpaced⟩ := build_paced hperiod hc
  exact hbuilt.obeyAll hperiod hpaced hcs

theorem steps_paced (hperiod : 0 < cfg.sweepPeriod.millis) (hstop : stop < .last) (h : s.OnTime)
    (hpaced : s.Paced) (count : Nat) :
    (steps stop count s).OnTime ∧ (steps stop count s).Paced := by
  obtain ⟨turns, hturns⟩ := steps_eq_turns stop count s
  rw [hturns]
  exact h.turns hperiod hstop hpaced turns

end Simulation

end ObservableTree
