import ObservableTree.Proofs.Commands
import ObservableTree.Proofs.Wake

/-!
# One timer, and in time

The agenda may hold several timers, but all except the live one have been replaced. The live one is
due at the instant at which the node next has work to do, and no event that is due before it can
move that instant to one that has passed:

* `Simulation.Coherent` — what holds at any moment of a run;
* `OnTime` — the live timer is at its place, and time has not passed it;
* `Taken` — so it is with an event taken off the agenda: a live timer is called exactly in time;
* `Taken.happen`, `rescheduleTimer_onTime` — one event;
* `build_onTime`, `obeyAll_onTime` — whatever is done.
-/

namespace ObservableTree

namespace Resource

theorem SettledAtMost.nextWake {cfg : Settings} {r q : Resource cfg} (h : SettledAtMost r q) :
    q.nextWake = r.nextWake := by
  rcases h with rfl | rfl
  · rfl
  · rfl

end Resource

namespace Simulation

variable {cfg : Settings} {s : Simulation cfg}

/-! ### Invariants -/

/-- The live timer is on the agenda, and nowhere but at this instant. -/
structure Awaits (s : Simulation cfg) (wake : Instant) : Prop where
  present : ∃ e ∈ s.agenda.entries, e.event = .timer s.timerGeneration
  placed : ∀ e ∈ s.agenda.entries, e.event = .timer s.timerGeneration → e.time = wake

/-- Nothing waits in the node, the agenda is in order, time has not passed the node's work, and no
timer is of a generation that is yet to come. -/
structure Coherent (s : Simulation cfg) : Prop where
  idle : s.Idle
  sorted : s.agenda.Sorted
  early : s.now < .last
  ahead : s.now ≤ s.node.resource.nextWake
  known : ∀ e ∈ s.agenda.entries, ∀ g, e.event = .timer g → g ≤ s.timerGeneration

/-- The timers are in order, except that another one may be needed. -/
structure Timed (s : Simulation cfg) : Prop extends Coherent s where
  awaits : ∀ wake, s.scheduledWake = some wake → s.Awaits wake

/-- The timers are in order, and the live one is due when the node next has work to do. -/
structure OnTime (s : Simulation cfg) : Prop extends Timed s where
  awaited : s.scheduledWake = some s.node.resource.nextWake

/-- An event has been taken off the agenda in time, and if it is the live timer, just in time. -/
structure Taken (s : Simulation cfg) (event : Event) : Prop extends Coherent s where
  awaits : event ≠ .timer s.timerGeneration → s.Awaits s.node.resource.nextWake
  awaited : s.scheduledWake = some s.node.resource.nextWake
  punctual : event = .timer s.timerGeneration → s.now = s.node.resource.nextWake

/-- No more than this matters for the timers. -/
theorem OnTime.of_same {s' : Simulation cfg} (h : s.OnTime) (hnode : s'.node = s.node)
    (hagenda : s'.agenda = s.agenda) (hnow : s'.now = s.now)
    (hgeneration : s'.timerGeneration = s.timerGeneration)
    (hwake : s'.scheduledWake = s.scheduledWake) : s'.OnTime where
  idle := ⟨hnode ▸ h.idle.inbox, hnode ▸ h.idle.pending⟩
  sorted := hagenda ▸ h.sorted
  early := hnow ▸ h.early
  ahead := by
    rw [hnow, hnode]
    exact h.ahead
  known := by
    rw [hagenda, hgeneration]
    exact h.known
  awaits := by
    intro wake hsome
    rw [hwake] at hsome
    obtain ⟨hpresent, hplaced⟩ := h.awaits wake hsome
    rw [← hagenda, ← hgeneration] at hpresent hplaced
    exact ⟨hpresent, hplaced⟩
  awaited := by rw [hwake, hnode, h.awaited]

/-! ### One event -/

theorem Coherent.wake_eq (h : s.Coherent) : s.wake = s.node.resource.nextWake := by
  apply Instant.ext_millis
  rw [wake, Instant.later_millis]
  exact Nat.max_eq_left h.ahead

/-- Putting the timer in order. -/
theorem rescheduleTimer_onTime (h : s.Timed) : s.rescheduleTimer.OnTime := by
  by_cases hsame : s.scheduledWake = some s.wake
  · rw [rescheduleTimer, if_pos hsame]
    exact ⟨h, by rw [hsame, h.wake_eq]⟩
  · rw [rescheduleTimer, if_neg hsame, schedule]
    have hold : ∀ e ∈ s.agenda.entries, e.event ≠ .timer (s.timerGeneration + 1) :=
      fun e he hevent => Nat.not_succ_le_self _ (h.known e he _ hevent)
    refine ⟨⟨⟨⟨h.idle.inbox, h.idle.pending⟩, Agenda.insert_sorted h.sorted _, h.early, h.ahead, ?_⟩,
      fun wake hwake => ⟨?_, ?_⟩⟩, congrArg some h.wake_eq⟩
    · intro e he g hevent
      rcases Agenda.mem_insert_iff.mp he with rfl | he
      · cases hevent
        exact Nat.le_refl _
      · exact Nat.le_succ_of_le (h.known e he g hevent)
    · exact ⟨_, Agenda.mem_insert_iff.mpr (.inl rfl), rfl⟩
    · intro e he hevent
      rcases Agenda.mem_insert_iff.mp he with rfl | he
      · exact Option.some.inj hwake
      · exact absurd hevent (hold e he)

/-- What is due is taken off the agenda in time. -/
theorem OnTime.due {stop : Instant} {s₀ : Simulation cfg} {event : Event} (h : s.OnTime)
    (hstop : stop < .last) (hdue : s.due? stop = some (s₀, event)) : Taken s₀ event := by
  obtain ⟨time, number, rest, hentries, htime, rfl⟩ := due?_eq_some_iff.mp hdue
  obtain ⟨⟨live, hlive, hliveEvent⟩, hplaced⟩ := h.awaits _ h.awaited
  have hrest : ∀ e ∈ rest, e ∈ s.agenda.entries := by
    intro e he
    rw [hentries]
    exact List.mem_cons_of_mem _ he
  have hfirst : ⟨time, number, event⟩ ∈ s.agenda.entries := by
    rw [hentries]
    exact List.mem_cons_self
  have hsooner : time ≤ s.node.resource.nextWake := by
    rw [← hplaced live hlive hliveEvent]
    exact Agenda.le_of_sorted h.sorted hentries hlive
  have hnow := advance_millis { s with agenda := ⟨rest⟩ } time
  have hearly := h.early
  have hahead := h.ahead
  rw [Instant.le_iff] at hsooner hahead htime
  rw [Instant.lt_iff] at hearly hstop
  rw [advance_frame]
  refine ⟨⟨⟨h.idle.inbox, h.idle.pending⟩, Agenda.rest_sorted h.sorted hentries, ?_, ?_,
    fun e he => h.known e (hrest e he)⟩, fun hother => ⟨⟨live, ?_, hliveEvent⟩,
    fun e he => hplaced e (hrest e he)⟩, h.awaited, fun hsame => ?_⟩
  · rw [Instant.lt_iff]
    dsimp only at hnow ⊢
    omega
  · rw [Instant.le_iff]
    dsimp only at hnow ⊢
    omega
  · rw [hentries] at hlive
    rcases List.mem_cons.mp hlive with rfl | hlive
    · exact absurd hliveEvent hother
    · exact hlive
  · have hplace : time = s.node.resource.nextWake := hplaced _ hfirst hsame
    apply Instant.ext_millis
    rw [← hplace] at hahead ⊢
    dsimp only at hnow ⊢
    omega

/-- **One event.** Whatever happens, the node has no work to do before the present instant. -/
theorem Taken.happen {event : Event} (hperiod : 0 < cfg.sweepPeriod.millis) (h : Taken s event) :
    (s.happen event).Timed := by
  have heffect := happen_effect h.idle event
  have hentries : ∀ e, e ∈ (s.happen event).agenda.entries ↔
      e ∈ numbered s.nextNumber (s.news event) ∨ e ∈ s.agenda.entries := by
    intro e
    rw [heffect.agenda, (scheduleAll_perm s _).mem_iff, List.mem_append]
  have hold : ∀ e ∈ (s.happen event).agenda.entries, ∀ g, e.event = .timer g →
      e ∈ s.agenda.entries := by
    intro e he g hevent
    refine ((hentries e).mp he).resolve_left fun hnew => ?_
    have hsequel := isSequel_of_mem_news (mem_of_mem_numbered hnew)
    rw [hevent] at hsequel
    exact hsequel
  refine ⟨⟨heffect.idle, ?_, ?_, ?_, ?_⟩, ?_⟩
  · rw [heffect.agenda]
    exact scheduleAll_sorted h.sorted _
  · rw [heffect.now]
    exact h.early
  · rw [heffect.now, heffect.resource.nextWake]
    rcases told_cases s event with htold | ⟨e, htold⟩ | ⟨-, htold⟩
    · rw [htold]
      exact h.ahead
    · rw [htold]
      exact Resource.le_nextWake_onEvent h.ahead e
    · rw [htold]
      exact Nat.le_of_lt (Resource.lt_nextWake_onTimer hperiod h.early s.node.resource)
  · intro e he g hevent
    rw [heffect.timerGeneration]
    exact h.known e (hold e he g hevent) g hevent
  · intro wake hwake
    rw [heffect.scheduledWake] at hwake
    split at hwake
    · cases hwake
    · next hother =>
      rw [h.awaited] at hwake
      cases hwake
      obtain ⟨⟨live, hlive, hliveEvent⟩, hplaced⟩ := h.awaits hother
      refine ⟨⟨live, (hentries live).mpr (.inr hlive), ?_⟩, fun e he hevent => ?_⟩
      · rw [heffect.timerGeneration, hliveEvent]
      · rw [heffect.timerGeneration] at hevent
        exact hplaced e (hold e he _ hevent) hevent

/-! ### Whatever is done -/

theorem snapshotIfDue_onTime (h : s.OnTime) : s.snapshotIfDue.OnTime := by
  obtain ⟨snapshots, next, hframe⟩ := snapshotIfDue_frame s
  rw [hframe]
  exact h.of_same rfl rfl rfl rfl rfl

theorem handle_onTime {event : Event} (hperiod : 0 < cfg.sweepPeriod.millis) (h : Taken s event) :
    (handle (s, event)).OnTime :=
  snapshotIfDue_onTime (rescheduleTimer_onTime (h.happen hperiod))

/-- Time may move on to an instant up to which nothing is due. -/
theorem OnTime.advance {stop : Instant} (h : s.OnTime) (hstop : stop < .last)
    (hnone : s.due? stop = none) :
    (s.advance stop).OnTime ∧ stop < (s.advance stop).node.resource.nextWake := by
  obtain ⟨live, hlive, hliveEvent⟩ := (h.awaits _ h.awaited).present
  have hplace := (h.awaits _ h.awaited).placed live hlive hliveEvent
  have hlater := lt_of_due?_eq_none h.sorted hnone hlive
  have hnow := advance_millis s stop
  have hearly := h.early
  have hahead := h.ahead
  rw [hplace] at hlater
  rw [Instant.lt_iff] at hearly hstop hlater
  rw [Instant.le_iff] at hahead
  rw [advance_frame]
  refine ⟨⟨⟨⟨⟨h.idle.inbox, h.idle.pending⟩, h.sorted, ?_, ?_, h.known⟩, fun wake hwake => ?_⟩,
    h.awaited⟩, hlater⟩
  · rw [Instant.lt_iff]
    dsimp only
    omega
  · rw [Instant.le_iff]
    dsimp only
    omega
  · exact ⟨(h.awaits wake hwake).present, (h.awaits wake hwake).placed⟩

theorem OnTime.turn {stop : Instant} (hperiod : 0 < cfg.sweepPeriod.millis) (hstop : stop < .last)
    (h : s.OnTime) : (s.turn stop).OnTime := by
  unfold Simulation.turn
  split
  · next x hdue =>
    exact handle_onTime hperiod (h.due hstop hdue)
  · next hnone => exact (h.advance hstop hnone).1.of_same rfl rfl rfl rfl rfl

/-- Scheduling something that is not a timer. -/
theorem OnTime.schedule (h : s.OnTime) (time : Instant) {event : Event}
    (hevent : ∀ g, event ≠ .timer g) : (s.schedule time event).OnTime := by
  have hold : ∀ e ∈ (s.schedule time event).agenda.entries, ∀ g, e.event = .timer g →
      e ∈ s.agenda.entries := by
    intro e he g hg
    refine (Agenda.mem_insert_iff.mp he).resolve_left fun hnew => ?_
    rw [hnew] at hg
    exact hevent g hg
  refine ⟨⟨⟨⟨h.idle.inbox, h.idle.pending⟩, Agenda.insert_sorted h.sorted _, h.early, h.ahead,
    fun e he g hg => h.known e (hold e he g hg) g hg⟩, fun wake hwake => ?_⟩, h.awaited⟩
  obtain ⟨⟨live, hlive, hliveEvent⟩, hplaced⟩ := h.awaits wake hwake
  exact ⟨⟨live, Agenda.mem_insert_iff.mpr (.inr hlive), hliveEvent⟩,
    fun e he hg => hplaced e (hold e he _ hg) hg⟩

/-- **One command.** -/
theorem OnTime.obey (hperiod : 0 < cfg.sweepPeriod.millis) (h : s.OnTime) {c : Command}
    (hc : c.InTime) : (s.obey c).OnTime := by
  cases c with
  | action | fetch => exact h.schedule _ nofun
  | observe => exact h.of_same rfl rfl rfl rfl rfl
  | turn stop => exact h.turn hperiod hc

theorem start_onTime (c : Scenario) (cfg : Settings) : (c.start cfg).OnTime := by
  have hseed : (ofSeed cfg c.seed).OnTime := by
    have hearly : Instant.boot < .last := by decide
    exact rescheduleTimer_onTime ⟨⟨⟨rfl, rfl⟩, Agenda.empty_sorted, hearly,
      Resource.le_after .boot cfg.sweepPeriod, nofun⟩, nofun⟩
  rw [Scenario.start]
  cases c.snapshotInterval with
  | none => exact hseed.of_same rfl rfl rfl rfl rfl
  | some interval => exact hseed.of_same rfl rfl rfl rfl rfl

theorem obeyAll_onTime (hperiod : 0 < cfg.sweepPeriod.millis) (h : s.OnTime) {cs : List Command}
    (hcs : ∀ k ∈ cs, k.InTime) : (s.obeyAll cs).OnTime :=
  obeyAll_induction (fun _ _ h hk => h.obey hperiod hk) h hcs

/-- **The timer is in time** when a simulation has been set up, and then whatever is done to it. -/
theorem build_onTime (hperiod : 0 < cfg.sweepPeriod.millis) (c : Scenario) :
    (c.build cfg).OnTime := by
  rw [Scenario.build_eq]
  exact obeyAll_onTime hperiod (start_onTime c cfg) c.commands_inTime

end Simulation

end ObservableTree
