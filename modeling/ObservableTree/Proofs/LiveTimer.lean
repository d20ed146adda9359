import ObservableTree.Proofs.Queue

/-!
# One live timer

Whenever the instant of the node's next work moves, another timer is scheduled under a new generation,
and the one before it stays on the agenda. Among all these timers there is one live one:

* `Simulation.liveTimers` — how often a timer of the present generation is on the agenda;
* `rescheduleTimer_live` — it is there once when the timer has been put in order;
* `OnTime.obey_live`, `obeyAll_live` — and once after every command;
* `Coherent.process_of_stale` — any other timer does nothing, now or when its time has come;
* `one_live_timer` — all of it, from a scenario on.
-/

namespace ObservableTree

namespace Simulation

variable {cfg : Settings} {s s₀ : Simulation cfg} {event : Event} {stop : Instant} {g : Nat}

/-! ### The live one -/

/-- How often a timer of the present generation is on the agenda. -/
def liveTimers (s : Simulation cfg) : Nat := s.queued (.timer s.timerGeneration)

/-- No event puts a timer on the agenda. -/
theorem countP_news_timer (s : Simulation cfg) (event : Event) (g : Nat) :
    (s.news event).countP (fun x => decide (x.2 = .timer g)) = 0 := by
  rw [List.countP_eq_zero]
  intro x hx htimer
  have hsequel := isSequel_of_mem_news hx
  rw [of_decide_eq_true htimer] at hsequel
  exact hsequel

/-- Taking an event off the agenda replaces no timer. -/
theorem timerGeneration_due (hdue : s.due? stop = some (s₀, event)) :
    s₀.timerGeneration = s.timerGeneration := by
  obtain ⟨time, number, rest, -, -, rfl⟩ := due?_eq_some_iff.mp hdue
  rw [advance_frame]

/-- What happens leaves the live timer on the agenda. -/
theorem happen_live (h : s.Idle) (event : Event) : (s.happen event).liveTimers = s.liveTimers := by
  rw [liveTimers, (happen_effect h event).timerGeneration, happen_queued h, countP_news_timer,
    Nat.add_zero, liveTimers]

/-- A timer that is scheduled has a generation of its own. -/
theorem rescheduleTimer_live (h : s.Coherent)
    (hkept : s.scheduledWake = some s.wake → s.liveTimers = 1) : s.rescheduleTimer.liveTimers = 1 := by
  unfold rescheduleTimer
  split
  · next hsame => exact hkept hsame
  · have hnone : s.queued (.timer (s.timerGeneration + 1)) = 0 := by
      by_contra hsome
      obtain ⟨e, he, hevent⟩ := queued_pos_iff.mp (Nat.pos_of_ne_zero hsome)
      exact Nat.not_succ_le_self _ (h.known e he _ hevent)
    show (schedule _ s.wake (.timer (s.timerGeneration + 1))).queued (.timer (s.timerGeneration + 1)) = 1
    rw [queued_schedule, if_pos rfl]
    exact congrArg (· + 1) hnone

/-- The snapshot after an event has nothing to do with timers. -/
theorem handle_live (s : Simulation cfg) (event : Event) :
    (handle (s, event)).liveTimers = (s.happen event).rescheduleTimer.liveTimers := by
  obtain ⟨snapshots, next, hframe⟩ := snapshotIfDue_frame (s.process event)
  rw [handle, hframe]
  rfl

/-- **One event.** If the live timer was called, another one takes its place. -/
theorem OnTime.handle_live (hperiod : 0 < cfg.sweepPeriod.millis) (h : s.OnTime) (hstop : stop < .last)
    (hone : s.liveTimers = 1) (hdue : s.due? stop = some (s₀, event)) :
    (handle (s₀, event)).liveTimers = 1 := by
  have htaken := h.due hstop hdue
  have hgeneration := timerGeneration_due hdue
  rw [Simulation.handle_live]
  refine rescheduleTimer_live (htaken.happen hperiod).toCoherent fun hawaited => ?_
  -- the timer is awaited, so it is not the one that was called
  have hother : event ≠ .timer s.timerGeneration := by
    rintro rfl
    rw [(happen_effect htaken.idle _).scheduledWake, hgeneration, if_pos rfl] at hawaited
    cases hawaited
  have hkept := queued_due hdue (.timer s.timerGeneration)
  rw [if_neg hother, Nat.add_zero] at hkept
  rw [happen_live htaken.idle, liveTimers, hgeneration, ← hkept]
  exact hone

/-- **One command.** -/
theorem OnTime.obey_live (hperiod : 0 < cfg.sweepPeriod.millis) (h : s.OnTime)
    (hone : s.liveTimers = 1) {c : Command} (hc : c.InTime) : (s.obey c).liveTimers = 1 := by
  have hscheduled : ∀ time event, (∀ g, event ≠ .timer g) → (s.schedule time event).liveTimers = 1 := by
    intro time event hevent
    have hqueued := queued_schedule s time event (.timer s.timerGeneration)
    rw [if_neg (hevent _)] at hqueued
    exact hqueued.trans hone
  cases c with
  | action | fetch => exact hscheduled _ _ nofun
  | observe => exact hone
  | turn stop =>
    cases hdue : s.due? stop with
    | none =>
      rw [obey_turn_of_none hdue, advance_frame]
      exact hone
    | some x =>
      rw [obey_turn_of_some hdue]
      exact h.handle_live hperiod hc hone hdue

/-- **Several commands.** -/
theorem obeyAll_live (hperiod : 0 < cfg.sweepPeriod.millis) (h : s.OnTime) (hone : s.liveTimers = 1)
    {cs : List Command} (hcs : ∀ k ∈ cs, k.InTime) : (s.obeyAll cs).liveTimers = 1 := by
  have hstep : ∀ (s : Simulation cfg) (k : Command), s.OnTime ∧ s.liveTimers = 1 → k.InTime →
      (s.obey k).OnTime ∧ (s.obey k).liveTimers = 1 :=
    fun s k h hk => ⟨h.1.obey hperiod hk, h.1.obey_live hperiod h.2 hk⟩
  exact (obeyAll_induction hstep ⟨h, hone⟩ hcs).2

theorem build_live (hperiod : 0 < cfg.sweepPeriod.millis) (c : Scenario) :
    (c.build cfg).liveTimers = 1 := by
  have hstart : (c.start cfg).liveTimers = 1 := by
    rw [Scenario.start]
    cases c.snapshotInterval with
    | none => rfl
    | some interval => rfl
  rw [Scenario.build_eq]
  exact obeyAll_live hperiod (start_onTime c cfg) hstart c.commands_inTime

/-! ### All others -/

/-- A timer that was replaced does nothing where the live one is awaited. -/
theorem Coherent.process_of_stale (h : s.Coherent)
    (hawaited : s.scheduledWake = some s.node.resource.nextWake) (hstale : g ≠ s.timerGeneration) :
    s.process (.timer g) = s := by
  show (s.fireTimer g).rescheduleTimer = s
  rw [fireTimer_of_stale hstale, rescheduleTimer_of_awaited h hawaited]

/-! ### From a scenario on -/

/-- **One live timer.** A simulation is set up by a scenario, and commands are given to it in any order,
among them turns of runs, so that it may be in the middle of a run. Then exactly one timer of the present
generation is on the agenda. It is due at the instant that the simulation remembers for it, which is the
instant at which the node next has work to do, and that instant has not passed.

Every other timer on the agenda is of an earlier generation. If it is processed, in this state or when its
time has come, the simulation stays as it is in all respects. -/
theorem one_live_timer (cfg : Settings) (hperiod : 0 < cfg.sweepPeriod.millis) (c : Scenario)
    (cs : List Command) (hcs : ∀ k ∈ cs, k.InTime) :
    let s := (c.build cfg).obeyAll cs
    s.queued (.timer s.timerGeneration) = 1 ∧
    (∀ e ∈ s.agenda.entries, e.event = .timer s.timerGeneration →
      s.scheduledWake = some e.time ∧ e.time = s.node.resource.nextWake ∧ s.now ≤ e.time) ∧
    (∀ e ∈ s.agenda.entries, ∀ g, e.event = .timer g → g ≠ s.timerGeneration →
      g < s.timerGeneration ∧ s.process (.timer g) = s) ∧
    (∀ stop s₀ g, stop < .last → s.due? stop = some (s₀, .timer g) → g ≠ s.timerGeneration →
      s₀.process (.timer g) = s₀) := by
  intro s
  have htime : s.OnTime := obeyAll_onTime hperiod (build_onTime hperiod c) hcs
  refine ⟨obeyAll_live hperiod (build_onTime hperiod c) (build_live hperiod c) hcs, ?_, ?_, ?_⟩
  · intro e he hlive
    have hplace := (htime.awaits _ htime.awaited).placed e he hlive
    rw [hplace]
    exact ⟨htime.awaited, rfl, htime.ahead⟩
  · intro e he g hevent hstale
    exact ⟨Nat.lt_of_le_of_ne (htime.known e he g hevent) hstale,
      htime.process_of_stale htime.awaited hstale⟩
  · intro stop s₀ g hstop hdue hstale
    have htaken := htime.due hstop hdue
    refine htaken.process_of_stale htaken.awaited ?_
    rw [timerGeneration_due hdue]
    exact hstale

/-- A route that is reported after one millisecond brings the node's work forward from the fifth
millisecond to the third, and then it is due after five again: by a third timer, and behind the first one,
which was replaced and comes up at the same instant. -/
theorem one_live_timer_of_three :
    let cfg : Settings := ⟨2, .ofMillis 2, .ofMillis 9, .ofMillis 5⟩
    let near : Address := .ofGroups 0xfe80 0 0 0 0 0 0 1
    let c : Scenario :=
      { Scenario.stock with actions := [(.ofMillis 1, .addRoute ⟨.unspecified, near⟩)] }
    let stop : Instant := .ofMillis 9
    let cs : List Command := List.replicate 3 (.turn stop)
    0 < cfg.sweepPeriod.millis ∧ (∀ k ∈ cs, k.InTime) ∧
      ((c.build cfg).obeyAll cs).timerGeneration = 3 ∧
      ((c.build cfg).obeyAll cs).queued (.timer 3) = 1 ∧
      ∃ s₀, ((c.build cfg).obeyAll cs).due? stop = some (s₀, .timer 1) ∧
        s₀.now = .ofMillis 5 ∧ s₀.process (.timer 1) = s₀ := by
  intro cfg near c stop cs
  have hperiod : 0 < cfg.sweepPeriod.millis := by decide
  have hstop : stop < .last := by decide
  have hcs : ∀ k ∈ cs, k.InTime := fun k hk => (Command.of_mem_turns hstop hk).1
  have hgeneration : ((c.build cfg).obeyAll cs).timerGeneration = 3 := by decide +kernel
  obtain ⟨hone, -, -, hstale⟩ := one_live_timer cfg hperiod c cs hcs
  rw [hgeneration] at hone
  have hdue : (((c.build cfg).obeyAll cs).due? stop).map (fun x => (x.1.now, x.2)) =
      some (.ofMillis 5, .timer 1) := by decide +kernel
  obtain ⟨⟨s₀, event⟩, hfirst, hevent⟩ := Option.map_eq_some_iff.mp hdue
  obtain ⟨hnow, rfl⟩ := Prod.mk.inj hevent
  refine ⟨hperiod, hcs, hgeneration, hone, s₀, hfirst, hnow, hstale stop s₀ 1 hstop hfirst ?_⟩
  rw [hgeneration]
  decide

end Simulation

end ObservableTree
