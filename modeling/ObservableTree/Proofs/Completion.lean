import ObservableTree.Proofs.Untouched

/-!
# Every run returns

A run takes one event after another as long as one is due. Nothing in this tells that it comes to an
end: an event may schedule others for the same instant, and packets and timers follow one another
forever. It does come to an end if the traffic that has been started, also in the course of the run,
leaves time between its packets:

* `Simulation.take?` — the simulation after exactly so many events, if that many become due;
* `exists_take?_eq_steps` — up to so many events are exactly some number of them;
* `take?_eq_none_of_lt` — no more events are taken than there are;
* `take?_last_isSome` — a run to the last instant would go on forever;
* `runUntil_returns` — a run takes finitely many events, and then nothing is due.
-/

namespace ObservableTree

namespace Simulation

variable {cfg : Settings} {s last : Simulation cfg} {stop : Instant} {count more : Nat}

/-! ### One event after another -/

/-- Takes exactly so many events that are due up to an instant, one after another, and gives nothing
if fewer of them become due. -/
def take? (stop : Instant) : (count : Nat) → Simulation cfg → Option (Simulation cfg)
  | 0, s => some s
  | count + 1, s => (s.stepUntil? stop).bind (take? stop count)

theorem take?_add (stop : Instant) (m n : Nat) (s : Simulation cfg) :
    take? stop (m + n) s = (take? stop m s).bind (take? stop n) := by
  induction m generalizing s with
  | zero =>
    rw [Nat.zero_add]
    rfl
  | succ m ih =>
    rw [Nat.succ_add, take?, take?]
    cases s.stepUntil? stop with
    | none => rfl
    | some s' => exact ih s'

/-- Up to so many events are exactly as many as become due. -/
theorem exists_take?_eq_steps (stop : Instant) (count : Nat) (s : Simulation cfg) :
    ∃ n ≤ count, take? stop n s = some (steps stop count s) := by
  induction count generalizing s with
  | zero => exact ⟨0, Nat.le_refl 0, rfl⟩
  | succ count ih =>
    cases hstep : s.stepUntil? stop with
    | none =>
      refine ⟨0, Nat.zero_le _, ?_⟩
      rw [steps_of_none hstep, take?]
    | some s' =>
      obtain ⟨n, hn, htake⟩ := ih s'
      refine ⟨n + 1, Nat.succ_le_succ hn, ?_⟩
      simp only [take?, steps, hstep, Option.bind_some, htake]

/-- When nothing more is due, no more events are taken. -/
theorem take?_eq_none_of_lt (htake : take? stop count s = some last)
    (hnone : last.due? stop = none) (hmore : count < more) : take? stop more s = none := by
  obtain ⟨n, rfl⟩ := Nat.exists_eq_add_of_lt hmore
  have hstep : last.stepUntil? stop = none := stepUntil?_of_none hnone
  rw [Nat.add_assoc, take?_add, htake, Option.bind_some, take?, hstep, Option.bind_none]

/-! ### The last instant -/

/-- The live timer is on the agenda. -/
structure Ticking (s : Simulation cfg) : Prop where
  idle : s.Idle
  live : ∃ e ∈ s.agenda.entries, e.event = .timer s.timerGeneration
  awaited : s.scheduledWake.isSome

/-- The live timer stays on the agenda until it is called, and then there is another one. -/
theorem Ticking.handle {x : Simulation cfg × Event} (h : s.Ticking) (hdue : s.due? stop = some x) :
    (handle x).Ticking := by
  obtain ⟨s₀, event⟩ := x
  obtain ⟨time, number, rest, hentries, -, hs₀⟩ := due?_eq_some_iff.mp hdue
  rw [advance_frame] at hs₀
  have hidle : s₀.Idle := by
    rw [hs₀]
    exact ⟨h.idle.inbox, h.idle.pending⟩
  have heffect := happen_effect hidle event
  have hticking : (s₀.process event).Ticking := by
    unfold process rescheduleTimer
    split
    · next hkept =>
      -- the timer is awaited, so it is not the one that was called
      have hother : event ≠ .timer s₀.timerGeneration := by
        intro hsame
        rw [heffect.scheduledWake, if_pos hsame] at hkept
        cases hkept
      obtain ⟨e, he, hlive⟩ := h.live
      have hrest : e ∈ s₀.agenda.entries := by
        rw [hentries] at he
        rw [hs₀] at hother ⊢
        rcases List.mem_cons.mp he with rfl | he
        · exact absurd hlive hother
        · exact he
      refine ⟨heffect.idle, ⟨e, ?_, ?_⟩, by rw [hkept]; rfl⟩
      · rw [heffect.agenda, (scheduleAll_perm s₀ _).mem_iff]
        exact List.mem_append_right _ hrest
      · rw [heffect.timerGeneration, hlive, hs₀]
    · exact ⟨⟨heffect.idle.inbox, heffect.idle.pending⟩,
        ⟨_, Agenda.mem_insert_iff.mpr (.inl rfl), rfl⟩, rfl⟩
  obtain ⟨snapshots, next, hframe⟩ := snapshotIfDue_frame (s₀.process event)
  rw [Simulation.handle, hframe]
  exact ⟨⟨hticking.idle.inbox, hticking.idle.pending⟩, hticking.live, hticking.awaited⟩

/-- **A run to the last instant does not return.** There is always another event that is due. -/
theorem take?_last_isSome (h : s.OnTime) (count : Nat) : (take? .last count s).isSome := by
  have hticking : ∀ {s : Simulation cfg}, s.Ticking → (take? .last count s).isSome := by
    induction count with
    | zero => exact fun _ => rfl
    | succ count ih =>
      intro s hs
      obtain ⟨live, hlive, -⟩ := hs.live
      cases hentries : s.agenda.entries with
      | nil =>
        rw [hentries] at hlive
        cases hlive
      | cons e rest =>
        have hdue := due?_eq_some_iff.mpr
          ⟨e.time, e.number, rest, hentries, e.time.le_last, rfl⟩
        rw [take?, stepUntil?_of_some hdue, Option.bind_some]
        exact ih (hs.handle hdue)
  exact hticking ⟨h.idle, (h.awaits _ h.awaited).present, by rw [h.awaited]; rfl⟩

/-! ### Runs -/

/-- **Every run returns.** A simulation is set up by a scenario, and commands are given to it in any
order, among them turns of runs, so that it may be in the middle of a run. From there it runs up to
an instant. If all traffic that is started on the way to this state, and then in the course of as
many turns as one likes, leaves time between its packets, the run takes a finite number of events,
no more than the weight of what is scheduled. Then nothing that is scheduled is due up to the end,
no further event is taken, and the run ends with its snapshot.

Runs before may not go on to the last instant that a clock can show, but such a run does not return
(`take?_last_isSome`), so that no state comes after it. -/
theorem runUntil_returns (cfg : Settings) (hperiod : 0 < cfg.sweepPeriod.millis) (c : Scenario)
    (cs : List Command) (hcs : ∀ k ∈ cs, k.InTime) (stop : Instant) (hstop : stop < .last)
    (hstarted : ∀ turns, ∀ action ∈ (c.build cfg).performed (cs ++ List.replicate turns (.turn stop)),
      action.IsPaced) :
    let s := (c.build cfg).obeyAll cs
    ∃ count last, count ≤ s.weight stop ∧ take? stop count s = some last ∧
      (∀ e ∈ last.agenda.entries, stop < e.time) ∧
      (∀ more, count < more → take? stop more s = none) ∧
      s.runUntil stop = (last.advance stop).takeSnapshot := by
  intro s
  have hbuilt : (c.build cfg).OnTime := build_onTime hperiod c
  have htime : s.OnTime := obeyAll_onTime hperiod hbuilt hcs
  have hbuiltSpaced : (c.build cfg).Spaced := by
    rw [Spaced, (build_untouched c cfg).1]
    exact nofun
  have hspaced : s.Spaced := by
    refine hbuiltSpaced.obeyAll hperiod hbuilt hcs fun action ha => hstarted 0 action ?_
    rwa [List.replicate_zero, List.append_nil]
  have hrest : ∀ turns, ∀ action ∈ s.performed (List.replicate turns (.turn stop)),
      action.IsPaced := by
    intro turns action ha
    refine hstarted turns action ?_
    rw [performed_append]
    exact List.mem_append_right _ ha
  have hnone : (steps stop (s.weight stop) s).due? stop = none :=
    due?_steps_of_performed hperiod hstop htime hspaced hrest (Nat.le_refl _)
  have hend : (steps stop (s.weight stop) s).OnTime := by
    obtain ⟨turns, hturns⟩ := steps_eq_turns stop (s.weight stop) s
    rw [hturns]
    exact obeyAll_onTime hperiod htime fun k hk => (Command.of_mem_turns hstop hk).1
  obtain ⟨count, hcount, htake⟩ := exists_take?_eq_steps stop (s.weight stop) s
  exact ⟨count, _, hcount, htake, fun e he => lt_of_due?_eq_none hend.sorted hnone he,
    fun more hmore => take?_eq_none_of_lt htake hnone hmore, rfl⟩

/-- A neighbor sends every millisecond, a route changes and two observers fetch without delay, all
at the same instants. -/
theorem runUntil_returns_of_traffic :
    let cfg : Settings := ⟨2, .zero, .ofMillis 9, .ofMillis 1⟩
    let neighbor : Address := .ofGroups 65152 0 0 0 0 0 0 1
    let route : Route := ⟨.ofGroups 8193 0 0 0 0 0 0 1, neighbor⟩
    let c : Scenario :=
      { Scenario.stock with
          fetchDelay := .zero
          observers := [64, 32]
          actions := [(.boot, .startTraffic neighbor (.ofMillis 1)), (.ofMillis 1, .addRoute route)] }
    let cs : List Command := [.fetch (.ofMillis 1) 0, .turn (.ofMillis 4)]
    let stop : Instant := .ofMillis 4
    0 < cfg.sweepPeriod.millis ∧ (∀ k ∈ cs, k.InTime) ∧ stop < .last ∧
      (∀ turns, ∀ action ∈ (c.build cfg).performed (cs ++ List.replicate turns (.turn stop)),
        action.IsPaced) ∧
      let s := (c.build cfg).obeyAll cs
      ∃ count last, count ≤ s.weight stop ∧ take? stop count s = some last ∧
        (∀ e ∈ last.agenda.entries, stop < e.time) ∧
        (∀ more, count < more → take? stop more s = none) ∧
        s.runUntil stop = (last.advance stop).takeSnapshot := by
  intro cfg neighbor route c cs stop
  have hperiod : 0 < cfg.sweepPeriod.millis := by decide
  have hstop : stop < .last := by decide
  have hcs : ∀ k ∈ cs, k.InTime ∧ k.IsPaced := by
    intro k hk
    rw [List.mem_cons, List.mem_singleton] at hk
    rcases hk with rfl | rfl
    · exact ⟨trivial, trivial⟩
    · exact ⟨hstop, trivial⟩
  have hc : c.IsPaced := by
    intro a ha
    rw [List.mem_cons, List.mem_singleton] at ha
    rcases ha with rfl | rfl
    · show 0 < (Span.ofMillis 1).millis
      decide
    · trivial
  have hbuilt : ((c.build cfg).obeyAll []).OnTime ∧ ((c.build cfg).obeyAll []).Paced :=
    build_obeyAll_paced hperiod hc nofun
  have hstarted : ∀ turns, ∀ action ∈
      (c.build cfg).performed (cs ++ List.replicate turns (.turn stop)), action.IsPaced := by
    intro turns
    refine hbuilt.2.performed hperiod hbuilt.1 fun k hk => ?_
    rcases List.mem_append.mp hk with hfirst | hturn
    · exact hcs k hfirst
    · exact Command.of_mem_turns hstop hturn
  have hall : ∀ k ∈ cs, k.InTime := fun k hk => (hcs k hk).1
  exact ⟨hperiod, hall, hstop, hstarted, runUntil_returns cfg hperiod c cs hall stop hstop hstarted⟩

end Simulation

end ObservableTree
