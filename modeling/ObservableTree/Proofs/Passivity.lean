import ObservableTree.Proofs.Unobserved
import ObservableTree.Proofs.Untouched

/-!
# Observers are passive

Two simulations of one scenario with different observers have different agendas, count time in
different steps and settle notifications at different instants. Still, all that does not concern the
retrievals themselves is the same in both of them after every run:

* `Simulation.Ahead` — nothing on the agenda lies in the past, or has a number that is yet to come;
* `Simulation.still` — what two simulations share between two events, when their clocks may show
  different instants; `due?_of_still` — the same event is due in both, but for retrievals;
* `Alike` — two simulations in the course of a run that share all this; `Alike.step` — either of them
  may go on by a retrieval, and else both go on by the same event; `Alike.settle` — to the end;
* `Twins.runUntil`, `observers_passive` — one run, and any row of runs.
-/

namespace ObservableTree

namespace Simulation

variable {cfg : Settings} {s x y : Simulation cfg} {stop : Instant} {event : Event}

/-! ### What lies ahead -/

/-- Nothing on the agenda lies in the past, and no event has a number above the running one. -/
def Ahead (s : Simulation cfg) : Prop :=
  ∀ e ∈ s.agenda.entries, s.now ≤ e.time ∧ e.number ≤ s.nextNumber

theorem Ahead.schedule (h : s.Ahead) {time : Instant} (htime : s.now ≤ time) (event : Event) :
    (s.schedule time event).Ahead := by
  intro e he
  rcases Agenda.mem_insert_iff.mp he with rfl | he
  · exact ⟨htime, Nat.le_succ _⟩
  · exact ⟨(h e he).1, Nat.le_succ_of_le (h e he).2⟩

theorem Ahead.scheduleAll (h : s.Ahead) {events : List (Instant × Event)}
    (hevents : ∀ e ∈ events, s.now ≤ e.1) : (s.scheduleAll events).Ahead :=
  scheduleAll_induction h fun _ e hnow he ht => ht.schedule (hnow ▸ hevents e he) e.2

/-- What follows from an event follows at the same instant or later. -/
theorem le_of_mem_news {e : Instant × Event} (h : e ∈ s.news event) : s.now ≤ e.1 := by
  cases follows_of_mem_news h with
  | packet | retrieval => exact Resource.le_after _ _
  | start | report => exact Nat.le_refl _

theorem Ahead.happen (h : s.Ahead) (hidle : s.Idle) (event : Event) : (s.happen event).Ahead := by
  have heffect := happen_effect hidle event
  have hlater : ∀ e ∈ s.news event, s.now ≤ e.1 := fun e he => le_of_mem_news he
  have hall := h.scheduleAll hlater
  rw [scheduleAll_frame, scheduleAll_nextNumber] at hall
  intro e he
  rw [heffect.agenda] at he
  rw [heffect.now, heffect.nextNumber]
  exact hall e he

theorem le_wake (s : Simulation cfg) : s.now ≤ s.wake := by
  rw [Instant.le_iff, wake, Instant.later_millis]
  exact Nat.le_max_right _ _

theorem rescheduleTimer_ahead (h : s.Ahead) : s.rescheduleTimer.Ahead := by
  unfold rescheduleTimer
  split
  · exact h
  · exact Ahead.schedule (s := { s with
      timerGeneration := s.timerGeneration + 1, scheduledWake := some s.wake }) h (le_wake s) _

/-- An event happens at the instant at which it is due. -/
theorem Ahead.now_advance (h : s.Ahead) {e : Scheduled} (he : e ∈ s.agenda.entries)
    (rest : Agenda) : ({ s with agenda := rest }.advance e.time).now = e.time := by
  have hpast := (h e he).1
  have hmillis := advance_millis { s with agenda := rest } e.time
  apply Instant.ext_millis
  rw [hmillis]
  exact Nat.max_eq_right hpast

/-- A sorted agenda is in order with its running numbers. -/
theorem InOrder.of_ahead (hsorted : s.agenda.Sorted) (h : s.Ahead) : s.InOrder :=
  ⟨hsorted, fun e he => (h e he).2⟩

/-! ### No snapshots at an interval -/

theorem snapshotIfDue_of_none (h : s.nextSnapshot = none) : s.snapshotIfDue = s := by
  rw [snapshotIfDue, h]

theorem handle_of_none (h : s.nextSnapshot = none) (event : Event) :
    handle (s, event) = s.process event :=
  snapshotIfDue_of_none ((process_spares s event).nextSnapshot.trans h)

/-! ### Simulations in order -/

/-- A simulation between two events: its timer is in time, traffic leaves time between its packets,
nothing lies in the past, and no snapshots are taken at an interval. -/
structure Orderly (s : Simulation cfg) : Prop where
  onTime : s.OnTime
  paced : s.Paced
  ahead : s.Ahead
  unwatched : s.nextSnapshot = none

/-- What two simulations share between two events, when their clocks may show different
instants. -/
def still (s : Simulation cfg) : Simulation cfg := { s.bare with now := .boot }

theorem still_advance (s : Simulation cfg) (time : Instant) : (s.advance time).still = s.still := by
  unfold advance
  split
  · rfl
  · rfl

theorem still_of_bare (h : x.bare = y.bare) : x.still = y.still :=
  congrArg (fun s : Simulation cfg => { s with now := .boot }) h

theorem bare_of_still (h : x.still = y.still) (hnow : x.now = y.now) : x.bare = y.bare := by
  show { x.still with now := x.now } = { y.still with now := y.now }
  rw [h, hnow]

/-- An event that is due, before it happens. It does not alter the instant at which the run will
end. -/
structure Found (s : Simulation cfg) (stop : Instant) (s₀ : Simulation cfg) (event : Event) :
    Prop where
  due : s.due? stop = some (s₀, event)
  taken : Taken s₀ event
  ahead : s₀.Ahead
  unwatched : s₀.nextSnapshot = none
  level : max s₀.now.millis stop.millis = max s.now.millis stop.millis

theorem Found.inOrder {s₀ : Simulation cfg} (h : Found s stop s₀ event) : s₀.InOrder :=
  .of_ahead h.taken.sorted h.ahead

theorem Orderly.found (hstop : stop < .last) (h : s.Orderly) {s₀ : Simulation cfg}
    (hdue : s.due? stop = some (s₀, event)) : Found s stop s₀ event := by
  have htaken := h.onTime.due hstop hdue
  obtain ⟨time, number, rest, hentries, htime, rfl⟩ := due?_eq_some_iff.mp hdue
  have hfirst : ⟨time, number, event⟩ ∈ s.agenda.entries := by
    rw [hentries]
    exact List.mem_cons_self
  have hnow := h.ahead.now_advance hfirst ⟨rest⟩
  refine ⟨hdue, htaken, ?_, ?_, ?_⟩
  · rw [advance_frame, hnow]
    intro e he
    have hmem : e ∈ s.agenda.entries := by
      rw [hentries]
      exact List.mem_cons_of_mem _ he
    exact ⟨Agenda.le_of_sorted h.onTime.sorted hentries hmem, (h.ahead e hmem).2⟩
  · rw [advance_frame]
    exact h.unwatched
  · have hpast : s.now ≤ time := (h.ahead _ hfirst).1
    rw [hnow]
    rw [Instant.le_iff] at htime hpast
    dsimp only
    omega

theorem steps_one {p : Simulation cfg × Event} (hdue : s.due? stop = some p) :
    steps stop 1 s = handle p := by
  simp only [steps, stepUntil?_of_some hdue]

/-- A retrieval leaves nothing behind. -/
theorem Found.still_fetch (hperiod : 0 < cfg.sweepPeriod.millis) {s₀ : Simulation cfg}
    {observer : Nat} (h : Found s stop s₀ (.fetch observer)) :
    (handle (s₀, .fetch observer)).still = s.still := by
  have hkept : s₀.process (.fetch observer) = s₀.fetch observer :=
    h.taken.process_of_same hperiod nofun rfl
  have hfetched : (s₀.fetch observer).still = s₀.still := still_of_bare (bare_fetch s₀ observer)
  obtain ⟨time, number, rest, hentries, -, htaken⟩ := due?_eq_some_iff.mp h.due
  have hplan : Agenda.plan s.agenda.entries = Agenda.plan rest := by
    rw [hentries]
    exact Agenda.plan_cons_of_fetch rfl rest
  rw [handle_of_none h.unwatched, hkept, hfetched, htaken, still_advance]
  show { s.still with agenda := ⟨Agenda.plan rest⟩ } = s.still
  rw [← hplan]
  rfl

/-- Any other event does the same to two simulations that share all else. -/
theorem Found.bare_handle (hperiod : 0 < cfg.sweepPeriod.millis) {x₀ y₀ : Simulation cfg}
    (hx : Found x stop x₀ event) (hy : Found y stop y₀ event) (h : x₀.bare = y₀.bare)
    (hevent : event.isFetch = false) :
    (handle (x₀, event)).bare = (handle (y₀, event)).bare := by
  have hordered : ∀ {s s₀ : Simulation cfg}, Found s stop s₀ event → (s₀.happen event).InOrder :=
    fun h => .of_ahead (h.taken.happen hperiod).sorted (h.ahead.happen h.taken.idle event)
  have hhappened :=
    bare_happen_congr hx.inOrder hy.inOrder hx.taken.idle hy.taken.idle h hevent
  rw [handle_of_none hx.unwatched, handle_of_none hy.unwatched]
  exact bare_rescheduleTimer_congr (hordered hx) (hordered hy) hhappened

/-- If an event that is no retrieval is due in one of them, then in the other one the same event is
due, or a retrieval that comes before it. -/
theorem due?_of_still (h : x.still = y.still) (hx : x.Orderly) (hy : y.Orderly)
    {x₀ : Simulation cfg} (hdue : x.due? stop = some (x₀, event)) (hevent : event.isFetch = false) :
    ∃ y₀ event', y.due? stop = some (y₀, event') ∧
      (event'.isFetch = true ∨ event' = event ∧ x₀.bare = y₀.bare) := by
  obtain ⟨time, number, rest, hentries, htime, rfl⟩ := due?_eq_some_iff.mp hdue
  have hplan : Agenda.plan y.agenda.entries = ⟨time, 0, event⟩ :: Agenda.plan rest := by
    have hsame : Agenda.plan x.agenda.entries = Agenda.plan y.agenda.entries :=
      congrArg (fun s : Simulation cfg => s.agenda.entries) h
    rw [← hsame, hentries]
    exact Agenda.plan_cons_of_other hevent rest
  obtain ⟨e, more, hothers, hsooner, hfirst⟩ :=
    Agenda.exists_of_plan_eq_cons hy.onTime.sorted hplan
  refine ⟨{ y with agenda := ⟨more⟩ }.advance e.time, e.event, due?_eq_some_iff.mpr
    ⟨e.time, e.number, more, hothers, Nat.le_trans hsooner htime, rfl⟩, ?_⟩
  rcases hfirst with hfetch | ⟨hsame, hevent', hrest⟩
  · exact .inl hfetch
  · -- the clocks may have shown different instants, now both show the one that the event is due at
    have hxnow := hx.ahead.now_advance (hentries ▸ List.mem_cons_self) ⟨rest⟩
    have hynow := hy.ahead.now_advance (hothers ▸ List.mem_cons_self) ⟨more⟩
    refine .inr ⟨hevent', bare_of_still ?_ ?_⟩
    · rw [still_advance, still_advance]
      show { x.still with agenda := ⟨Agenda.plan rest⟩ } =
        { y.still with agenda := ⟨Agenda.plan more⟩ }
      rw [h, hrest]
    · rw [hynow, hsame]
      exact hxnow

/-! ### Side by side -/

/-- Two simulations in the course of a run up to an instant, which differ in nothing but
retrievals and the instants they have come to. -/
structure Alike (stop : Instant) (x y : Simulation cfg) : Prop where
  left : x.Orderly
  right : y.Orderly
  still : x.still = y.still
  level : max x.now.millis stop.millis = max y.now.millis stop.millis

theorem Alike.symm (h : Alike stop x y) : Alike stop y x :=
  ⟨h.right, h.left, h.still.symm, h.level.symm⟩

/-- Some more events happen in one of them or in both, and less is left to happen. -/
def Advances (stop : Instant) (x y : Simulation cfg) : Prop :=
  ∃ m n, Alike stop (steps stop m x) (steps stop n y) ∧
    (steps stop m x).weight stop + (steps stop n y).weight stop < x.weight stop + y.weight stop

theorem Advances.symm (h : Advances stop x y) : Advances stop y x := by
  obtain ⟨m, n, halike, hless⟩ := h
  refine ⟨n, m, halike.symm, ?_⟩
  rw [Nat.add_comm, Nat.add_comm (y.weight stop)]
  exact hless

theorem Found.level_handle {s₀ : Simulation cfg} (h : Found s stop s₀ event) :
    max (handle (s₀, event)).now.millis stop.millis = max s.now.millis stop.millis := by
  rw [handle_of_none h.unwatched]
  show max (s₀.happen event).rescheduleTimer.now.millis stop.millis = _
  rw [rescheduleTimer_now, (happen_effect h.taken.idle event).now, h.level]

section

variable (hperiod : 0 < cfg.sweepPeriod.millis) (hstop : stop < .last)

include hperiod hstop

theorem Orderly.handle (h : s.Orderly) {s₀ : Simulation cfg}
    (hdue : s.due? stop = some (s₀, event)) : (handle (s₀, event)).Orderly := by
  have hfound := h.found hstop hdue
  have hidle := hfound.taken.idle
  refine ⟨handle_onTime hperiod hfound.taken, handle_paced h.onTime hstop h.paced hdue, ?_, ?_⟩
  · rw [handle_of_none hfound.unwatched]
    exact rescheduleTimer_ahead (hfound.ahead.happen hidle event)
  · rw [handle_of_none hfound.unwatched]
    exact (process_spares s₀ event).nextSnapshot.trans hfound.unwatched

/-- One of them goes on by a retrieval. -/
theorem Alike.fetch (h : Alike stop x y) {x₀ : Simulation cfg} (hevent : event.isFetch = true)
    (hdue : x.due? stop = some (x₀, event)) : Alike stop (Simulation.handle (x₀, event)) y := by
  have hfound := h.left.found hstop hdue
  refine ⟨h.left.handle hperiod hstop hdue, h.right, ?_, hfound.level_handle.trans h.level⟩
  cases event with
  | fetch observer => exact (hfound.still_fetch hperiod).trans h.still
  | packet | routeChange | timer | action => cases hevent

/-- Both of them go on by the same event. -/
theorem Alike.both (h : Alike stop x y) {x₀ y₀ : Simulation cfg} (hevent : event.isFetch = false)
    (hx : x.due? stop = some (x₀, event)) (hy : y.due? stop = some (y₀, event))
    (hbare : x₀.bare = y₀.bare) :
    Alike stop (Simulation.handle (x₀, event)) (Simulation.handle (y₀, event)) := by
  have hxfound := h.left.found hstop hx
  have hyfound := h.right.found hstop hy
  refine ⟨h.left.handle hperiod hstop hx, h.right.handle hperiod hstop hy,
    still_of_bare (hxfound.bare_handle hperiod hyfound hbare hevent), ?_⟩
  rw [hxfound.level_handle, hyfound.level_handle, h.level]

/-- One of them goes on by a retrieval, and less is left to happen. -/
theorem Alike.advances_of_fetch (h : Alike stop x y) {x₀ : Simulation cfg}
    (hevent : event.isFetch = true) (hdue : x.due? stop = some (x₀, event)) :
    Advances stop x y := by
  refine ⟨1, 0, ?_⟩
  rw [steps_one hdue]
  exact ⟨h.fetch hperiod hstop hevent hdue,
    Nat.add_lt_add_right (weight_handle_lt hperiod hstop h.left.onTime h.left.paced.running hdue) _⟩

/-- Both of them go on by the same event, and less is left to happen. -/
theorem Alike.advances_of_both (h : Alike stop x y) {x₀ y₀ : Simulation cfg}
    (hevent : event.isFetch = false) (hx : x.due? stop = some (x₀, event))
    (hy : y.due? stop = some (y₀, event)) (hbare : x₀.bare = y₀.bare) : Advances stop x y := by
  refine ⟨1, 1, ?_⟩
  rw [steps_one hx, steps_one hy]
  exact ⟨h.both hperiod hstop hevent hx hy hbare,
    Nat.add_lt_add (weight_handle_lt hperiod hstop h.left.onTime h.left.paced.running hx)
      (weight_handle_lt hperiod hstop h.right.onTime h.right.paced.running hy)⟩

/-- As long as an event is due in one of them, they go on. -/
theorem Alike.advances (h : Alike stop x y) {x₀ : Simulation cfg}
    (hdue : x.due? stop = some (x₀, event)) : Advances stop x y := by
  cases hevent : event.isFetch with
  | true => exact h.advances_of_fetch hperiod hstop hevent hdue
  | false =>
    obtain ⟨y₀, event', hy, hfetch | ⟨rfl, hbare⟩⟩ :=
      due?_of_still h.still h.left h.right hdue hevent
    · exact (h.symm.advances_of_fetch hperiod hstop hfetch hy).symm
    · exact h.advances_of_both hperiod hstop hevent hdue hy hbare

/-- **One step.** Either nothing is due in both of them, or they go on. -/
theorem Alike.step (h : Alike stop x y) :
    (x.due? stop = none ∧ y.due? stop = none) ∨ Advances stop x y := by
  cases hx : x.due? stop with
  | some p => exact .inr (h.advances hperiod hstop hx)
  | none =>
    cases hy : y.due? stop with
    | none => exact .inl ⟨rfl, rfl⟩
    | some q => exact .inr (h.symm.advances hperiod hstop hy).symm

/-- **To the end.** Both of them come to where nothing is due any more. -/
theorem Alike.settle (h : Alike stop x y) :
    ∃ m n, Alike stop (steps stop m x) (steps stop n y) ∧
      (steps stop m x).due? stop = none ∧ (steps stop n y).due? stop = none := by
  induction hweight : x.weight stop + y.weight stop using Nat.strongRecOn generalizing x y with
  | ind weight ih =>
    rcases h.step hperiod hstop with ⟨hx, hy⟩ | ⟨m, n, hmore, hless⟩
    · exact ⟨0, 0, h, hx, hy⟩
    · obtain ⟨m', n', hend⟩ := ih _ (hweight ▸ hless) hmore rfl
      refine ⟨m + m', n + n', ?_⟩
      rw [steps_add, steps_add]
      exact hend

end

/-! ### Runs -/

/-- The end of a run. -/
theorem Orderly.finish (hstop : stop < .last) (h : s.Orderly)
    (hnone : s.due? stop = none) : ((s.advance stop).takeSnapshot).Orderly := by
  have hentries : ∀ e ∈ s.agenda.entries, s.now ≤ e.time ∧ stop < e.time ∧ e.number ≤ s.nextNumber :=
    fun e he => ⟨(h.ahead e he).1, lt_of_due?_eq_none h.onTime.sorted hnone he, (h.ahead e he).2⟩
  have hmillis := advance_millis s stop
  have honTime := (h.onTime.advance hstop hnone).1
  rw [advance_frame] at honTime hmillis ⊢
  refine ⟨honTime.of_same rfl rfl rfl rfl rfl, ⟨h.paced.running, h.paced.planned⟩, ?_, h.unwatched⟩
  intro e he
  obtain ⟨hpast, hlater, hnumber⟩ := hentries e he
  refine ⟨?_, hnumber⟩
  rw [Instant.le_iff] at hpast ⊢
  rw [Instant.lt_iff] at hlater
  show (s.advance stop).now.millis ≤ _
  dsimp only at hmillis
  omega

/-- Two simulations that differ in nothing but retrievals. -/
structure Twins (x y : Simulation cfg) : Prop where
  left : x.Orderly
  right : y.Orderly
  bare : x.bare = y.bare

/-- **One run.** -/
theorem Twins.runUntil (hperiod : 0 < cfg.sweepPeriod.millis) (hstop : stop < .last)
    (h : Twins x y) : Twins (x.runUntil stop) (y.runUntil stop) := by
  have halike : Alike stop x y :=
    ⟨h.left, h.right, still_of_bare h.bare, by rw [now_eq h.bare]⟩
  obtain ⟨m, n, hend, hx, hy⟩ := halike.settle hperiod hstop
  rw [runUntil_of_settled hperiod hstop h.left.onTime h.left.paced hx,
    runUntil_of_settled hperiod hstop h.right.onTime h.right.paced hy]
  refine ⟨hend.left.finish hstop hx, hend.right.finish hstop hy, ?_⟩
  have hnow : ((steps stop m x).advance stop).now = ((steps stop n y).advance stop).now := by
    apply Instant.ext_millis
    rw [advance_millis, advance_millis, hend.level]
  have hstill : ((steps stop m x).advance stop).still = ((steps stop n y).advance stop).still := by
    rw [still_advance, still_advance, hend.still]
  exact congrArg takeSnapshot (bare_of_still hstill hnow)

/-- **A row of runs.** -/
theorem Twins.runs (hperiod : 0 < cfg.sweepPeriod.millis) (h : Twins x y) {stops : List Instant}
    (hstops : ∀ stop ∈ stops, stop < .last) :
    Twins (stops.foldl Simulation.runUntil x) (stops.foldl Simulation.runUntil y) := by
  induction stops generalizing x y with
  | nil => exact h
  | cons stop stops ih =>
    exact ih (h.runUntil hperiod (hstops stop List.mem_cons_self)) fun t ht =>
      hstops t (List.mem_cons_of_mem stop ht)

/-! ### Setting up -/

theorem Orderly.plan (h : s.Orderly) {time : Instant} (htime : s.now ≤ time) {action : Action}
    (haction : action.IsPaced) : (s.schedule time (.action action)).Orderly :=
  ⟨h.onTime.schedule time nofun, h.paced.obey h.onTime (c := .action time action) trivial haction,
    h.ahead.schedule htime _, h.unwatched⟩

/-- Observers are registered. -/
theorem Orderly.observed (h : s.Orderly) (blocks : List Nat) :
    (blocks.foldl addObserver s).Orderly ∧ (blocks.foldl addObserver s).bare = s.bare := by
  induction blocks generalizing s with
  | nil => exact ⟨h, rfl⟩
  | cons block blocks ih =>
    exact ih (s := s.addObserver block) ⟨h.onTime.of_same rfl rfl rfl rfl rfl,
      ⟨h.paced.running, h.paced.planned⟩, h.ahead, h.unwatched⟩

/-- Actions are scheduled at boot. -/
theorem Twins.planned (h : Twins x y) (hboot : x.now = .boot) {actions : List (Instant × Action)}
    (hactions : ∀ a ∈ actions, a.2.IsPaced) :
    Twins (actions.foldl (fun s a => s.schedule a.1 (.action a.2)) x)
      (actions.foldl (fun s a => s.schedule a.1 (.action a.2)) y) := by
  induction actions generalizing x y with
  | nil => exact h
  | cons a actions ih =>
    have hpaced := hactions a List.mem_cons_self
    have hxnow : x.now ≤ a.1 := hboot ▸ Nat.zero_le _
    have hynow : y.now ≤ a.1 := now_eq h.bare ▸ hxnow
    have hbare := bare_schedule_congr (.of_ahead h.left.onTime.sorted h.left.ahead)
      (.of_ahead h.right.onTime.sorted h.right.ahead) h.bare (Eq.refl a.1)
      (Eq.refl (Event.action a.2)) rfl
    exact ih ⟨h.left.plan hxnow hpaced, h.right.plan hynow hpaced, hbare⟩ hboot fun d hd =>
      hactions d (List.mem_cons_of_mem a hd)

section

variable {c : Scenario} (hunwatched : c.snapshotInterval = none)

include hunwatched

theorem start_orderly (cfg : Settings) : (c.start cfg).Orderly ∧ (c.start cfg).now = .boot := by
  have hahead : (ofSeed cfg c.seed).Ahead := rescheduleTimer_ahead nofun
  have hnext : (ofSeed cfg c.seed).nextSnapshot = none :=
    (rescheduleTimer_spares _).nextSnapshot
  have hnow : (ofSeed cfg c.seed).now = .boot := rescheduleTimer_now _
  have honTime := start_onTime c cfg
  have hpaced := start_paced c cfg
  rw [Scenario.start, hunwatched] at honTime hpaced ⊢
  exact ⟨⟨honTime, hpaced, hahead, hnext⟩, hnow⟩

/-- One scenario with different observers. -/
theorem build_twins (hc : c.IsPaced) (cfg : Settings) (blocks blocks' : List Nat) :
    Twins ({ c with observers := blocks }.build cfg) ({ c with observers := blocks' }.build cfg) := by
  obtain ⟨hstart, hboot⟩ := start_orderly hunwatched cfg
  have hprefixed : (c.withPrefix (c.start cfg)).Orderly ∧ (c.withPrefix (c.start cfg)).now = .boot := by
    unfold Scenario.withPrefix
    split
    · exact ⟨hstart.plan (hboot ▸ Nat.le_refl _) trivial, hboot⟩
    · exact ⟨hstart, hboot⟩
  obtain ⟨hready, hboot⟩ := hprefixed
  obtain ⟨hx, hxbare⟩ := hready.observed blocks
  obtain ⟨hy, hybare⟩ := hready.observed blocks'
  exact Twins.planned ⟨hx, hy, hxbare.trans hybare.symm⟩ ((now_eq hxbare).trans hboot) hc

end

/-- **Observers are passive.** A scenario takes no snapshots at an interval, and it is carried out
twice with different observers. After every row of runs both simulations show the same instant,
routes, neighbors, timers, notifications, packets and snapshots. -/
theorem observers_passive (cfg : Settings) (hperiod : 0 < cfg.sweepPeriod.millis) (c : Scenario)
    (hc : c.IsPaced) (hunwatched : c.snapshotInterval = none) (blocks blocks' : List Nat)
    (stops : List Instant) (hstops : ∀ stop ∈ stops, stop < .last) :
    let x := stops.foldl runUntil ({ c with observers := blocks }.build cfg)
    let y := stops.foldl runUntil ({ c with observers := blocks' }.build cfg)
    x.now = y.now ∧ x.routing = y.routing ∧
      x.node.resource.tracked = y.node.resource.tracked ∧
      x.node.resource.pendingNotice = y.node.resource.pendingNotice ∧
      x.node.resource.nextWake = y.node.resource.nextWake ∧
      x.metrics.packetsObserved = y.metrics.packetsObserved ∧
      x.metrics.packetsDropped = y.metrics.packetsDropped ∧
      x.metrics.routeChanges = y.metrics.routeChanges ∧
      x.metrics.notifications = y.metrics.notifications ∧
      x.metrics.snapshots = y.metrics.snapshots := by
  intro x y
  have hbare : x.bare = y.bare :=
    ((build_twins hunwatched hc cfg blocks blocks').runs hperiod hstops).bare
  exact ⟨now_eq hbare, eq_of_bare hbare Simulation.routing fun _ => rfl,
    eq_of_bare hbare (·.node.resource.tracked) fun _ => rfl,
    eq_of_bare hbare (·.node.resource.pendingNotice) fun _ => rfl,
    eq_of_bare hbare (·.node.resource.nextWake) fun _ => rfl,
    eq_of_bare hbare (·.metrics.packetsObserved) fun _ => rfl,
    eq_of_bare hbare (·.metrics.packetsDropped) fun _ => rfl,
    eq_of_bare hbare (·.metrics.routeChanges) fun _ => rfl,
    eq_of_bare hbare (·.metrics.notifications) fun _ => rfl,
    eq_of_bare hbare (·.metrics.snapshots) fun _ => rfl⟩

/-- A neighbor sends all five milliseconds and a route behind it comes in. Two observers are told and
one of them gets the document, or there is no observer at all. -/
theorem observers_passive_of_route :
    let cfg : Settings := ⟨2, .ofMillis 2, .ofMillis 9, .ofMillis 3⟩
    let neighbor : Address := .ofGroups 65152 0 0 0 0 0 0 1
    let route : Route := ⟨.ofGroups 43690 0 0 0 0 0 0 1, neighbor⟩
    let c : Scenario :=
      { Scenario.stock with
          fetchDelay := .ofMillis 1
          actions := [(.boot, .startTraffic neighbor (.ofMillis 5)), (.ofMillis 1, .addRoute route)] }
    let stops : List Instant := [.ofMillis 4, .ofMillis 20]
    let x := stops.foldl runUntil ({ c with observers := [64, 0] }.build cfg)
    let y := stops.foldl runUntil ({ c with observers := [] }.build cfg)
    c.IsPaced ∧ c.snapshotInterval = none ∧ (∀ stop ∈ stops, stop < .last) ∧
      x.metrics.fetches = 1 ∧ y.metrics.fetches = 0 ∧ y.metrics.notifications = 1 ∧
      x.now = y.now ∧ x.routing = y.routing ∧
      x.node.resource.tracked = y.node.resource.tracked ∧
      x.node.resource.pendingNotice = y.node.resource.pendingNotice ∧
      x.node.resource.nextWake = y.node.resource.nextWake ∧
      x.metrics.packetsObserved = y.metrics.packetsObserved ∧
      x.metrics.packetsDropped = y.metrics.packetsDropped ∧
      x.metrics.routeChanges = y.metrics.routeChanges ∧
      x.metrics.notifications = y.metrics.notifications ∧
      x.metrics.snapshots = y.metrics.snapshots := by
  intro cfg neighbor route c stops
  have hperiod : 0 < cfg.sweepPeriod.millis := by decide
  have hc : c.IsPaced := by
    intro a ha
    rw [List.mem_cons, List.mem_singleton] at ha
    rcases ha with rfl | rfl
    · show 0 < (Span.ofMillis 5).millis
      decide
    · trivial
  have hunwatched : c.snapshotInterval = none := rfl
  have hstops : ∀ stop ∈ stops, stop < .last := by decide
  have hsame := observers_passive cfg hperiod c hc hunwatched [64, 0] [] stops hstops
  refine ⟨hc, hunwatched, hstops, ?_, ?_, ?_, ?_⟩
  · decide +kernel
  · decide +kernel
  · decide +kernel
  · -- anything more would compute both simulations
    with_reducible exact hsame

end Simulation

end ObservableTree
