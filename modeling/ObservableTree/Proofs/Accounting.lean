import ObservableTree.Proofs.Ledger

/-!
# The books of a simulation

Whoever uses a simulation schedules actions, registers observers and has it run. Whatever is done
in whatever order, the counters of the simulation agree with those of the node and with the records
of the observers, and no notification goes unanswered:

* `Instruction`, `Simulation.carryOutAll` — what is done to a simulation, with whole runs;
* `runUntil_induction` — what every event of a run preserves;
* `Balanced.carryOutAll`, `Served.carryOutAll_first` — the books after some instructions;
* `accounts_agree` — all of it, from a scenario on.
-/

namespace ObservableTree

/-! ### Whatever the user does -/

/-- What a user does to a simulation that has been built. -/
inductive Instruction where
  /-- Schedules an action. -/
  | schedule (time : Instant) (action : Action)
  /-- Registers an observer. -/
  | observe (blockSize : Nat)
  /-- Runs the simulation up to an instant. -/
  | run (stop : Instant)

/-- Whether all observers are registered before the first run. -/
def ObservesFirst : List Instruction → Prop
  | [] => True
  | .run _ :: es => ∀ blockSize, .observe blockSize ∉ es
  | _ :: es => ObservesFirst es

namespace Simulation

variable {cfg : Settings} {s : Simulation cfg} {event : Event} {stop : Instant}

/-- One instruction. -/
def carryOut (s : Simulation cfg) : Instruction → Simulation cfg
  | .schedule time action => s.schedule time (.action action)
  | .observe blockSize => s.addObserver blockSize
  | .run stop => s.runUntil stop

/-- Several instructions, one after another. -/
def carryOutAll (s : Simulation cfg) (es : List Instruction) : Simulation cfg := es.foldl carryOut s

/-! ### Runs -/

theorem Idle.due {s₀ : Simulation cfg} (h : s.Idle) (hdue : s.due? stop = some (s₀, event)) :
    s₀.Idle := by
  obtain ⟨time, number, rest, -, -, rfl⟩ := due?_eq_some_iff.mp hdue
  rw [advance_frame]
  exact ⟨h.inbox, h.pending⟩

theorem Idle.finish (h : s.Idle) (stop : Instant) : (s.advance stop).takeSnapshot.Idle := by
  rw [advance_frame]
  exact ⟨h.inbox, h.pending⟩

/-- **A run, event by event.** The node is idle between two events, and what then every event
preserves, and the end of a run too, holds after the run. -/
theorem runUntil_induction {P : Simulation cfg → Prop}
    (hevent : ∀ s s₀ event, s₀.Idle → P s → s.due? stop = some (s₀, event) →
      P (handle (s₀, event)))
    (hend : ∀ s, P s → P (s.advance stop).takeSnapshot) (hidle : s.Idle) (h : P s) :
    (s.runUntil stop).Idle ∧ P (s.runUntil stop) := by
  have hturn : ∀ (s : Simulation cfg) (c : Command), s.Idle ∧ P s → c = .turn stop →
      (s.obey c).Idle ∧ P (s.obey c) := by
    rintro s c ⟨hidle, hs⟩ rfl
    cases hdue : s.due? stop with
    | none =>
      rw [obey_turn_of_none hdue]
      exact ⟨hidle.finish stop, hend s hs⟩
    | some x =>
      have hready : x.1.Idle := hidle.due hdue
      rw [obey_turn_of_some hdue]
      exact ⟨hready.handle x.2, hevent s x.1 x.2 hready hs hdue⟩
  obtain ⟨turns, hturns⟩ := steps_eq_turns stop (s.weight stop) s
  obtain ⟨hlast, hall⟩ := obeyAll_induction hturn ⟨hidle, h⟩ fun c hc =>
    List.eq_of_mem_replicate hc
  rw [runUntil, hturns]
  exact ⟨hlast.finish stop, hend _ hall⟩

theorem Idle.carryOut (h : s.Idle) (e : Instruction) : (s.carryOut e).Idle := by
  cases e with
  | schedule | observe => exact ⟨h.inbox, h.pending⟩
  | run stop =>
    exact (runUntil_induction (P := fun _ => True) (fun _ _ _ _ _ _ => trivial)
      (fun _ _ => trivial) h trivial).1

/-! ### Counters -/

theorem Balanced.due {s₀ : Simulation cfg} (h : s.Balanced)
    (hdue : s.due? stop = some (s₀, event)) : s₀.Balanced := by
  obtain ⟨time, number, rest, -, -, rfl⟩ := due?_eq_some_iff.mp hdue
  rw [advance_frame]
  exact h.of_keeps ⟨rfl, rfl, rfl, rfl, rfl⟩ h.notifications

theorem Balanced.finish (h : s.Balanced) (stop : Instant) :
    (s.advance stop).takeSnapshot.Balanced := by
  rw [advance_frame]
  exact h.of_keeps ⟨rfl, rfl, rfl, rfl, rfl⟩ h.notifications

theorem Balanced.schedule (h : s.Balanced) (time : Instant) (event : Event) :
    (s.schedule time event).Balanced := h.of_keeps ⟨rfl, rfl, rfl, rfl, rfl⟩ h.notifications

/-- Another observer has nothing on its record. -/
theorem Balanced.observe (h : s.Balanced) (blockSize : Nat) : (s.addObserver blockSize).Balanced := by
  have hsnoc : ∀ f : Observer → Nat, tally f (s.addObserver blockSize).observers =
      tally f s.observers + f (.ofBlockSize blockSize) := fun f => tally_snoc f _ _
  refine ⟨h.notifications, ?_, ?_, ?_, ?_⟩
  · rw [hsnoc, ← h.fetches]
    rfl
  · rw [hsnoc, ← h.fetchErrors]
    rfl
  · rw [hsnoc, ← h.exchanges]
    rfl
  · rw [hsnoc, ← h.bytesServed]
    rfl

/-- **One instruction.** -/
theorem Balanced.carryOut (h : s.Balanced) (hidle : s.Idle) (e : Instruction) :
    (s.carryOut e).Balanced := by
  cases e with
  | schedule time action => exact h.schedule time _
  | observe blockSize => exact h.observe blockSize
  | run stop =>
    exact (runUntil_induction (fun _ _ event hready hs hdue => (hs.due hdue).handle hready event)
      (fun _ hs => hs.finish stop) hidle h).2

theorem Balanced.carryOutAll (h : s.Balanced) (hidle : s.Idle) (es : List Instruction) :
    (s.carryOutAll es).Balanced := by
  induction es generalizing s with
  | nil => exact h
  | cons e es ih => exact ih (h.carryOut hidle e) (hidle.carryOut e)

/-! ### Retrievals on the agenda -/

theorem Served.finish (h : s.Served) (stop : Instant) : (s.advance stop).takeSnapshot.Served := by
  rw [advance_frame]
  exact ⟨h.answered, h.known⟩

/-- An action on the agenda is no retrieval. -/
theorem Served.schedule (h : s.Served) (time : Instant) (action : Action) :
    (s.schedule time (.action action)).Served := by
  refine ⟨fun i o ho => ?_, fun e he i hfetch => ?_⟩
  · rw [queuedFor_schedule, if_neg nofun, Nat.add_zero]
    exact h.answered i o ho
  · rcases Agenda.mem_insert_iff.mp he with rfl | he
    · cases hfetch
    · exact h.known e he i hfetch

/-- Before the first notification, another observer has missed none. -/
theorem Served.observe (h : s.Served) (hnone : s.metrics.notifications = 0) (blockSize : Nat) :
    (s.addObserver blockSize).Served := by
  have hlength : (s.addObserver blockSize).observers.length = s.observers.length + 1 :=
    List.length_append
  refine ⟨fun i o ho => ?_, fun e he i hfetch => ?_⟩
  · have hbound : i < s.observers.length + 1 := hlength ▸ (List.getElem?_eq_some_iff.mp ho).1
    rcases Nat.lt_succ_iff_lt_or_eq.mp hbound with hold | rfl
    · have hsame : s.observers[i]? = some o := by
        rw [← ho]
        exact (List.getElem?_append_left hold).symm
      exact h.answered i o hsame
    · have hnew : o = .ofBlockSize blockSize := by
        have hlast : (s.addObserver blockSize).observers[s.observers.length]? =
            some (.ofBlockSize blockSize) := List.getElem?_concat_length
        rw [hlast] at ho
        exact (Option.some.inj ho).symm
      have hqueued : s.queuedFor s.observers.length = 0 := by
        rw [queuedFor, List.countP_eq_zero]
        intro e he hfetch
        exact Nat.lt_irrefl _ (h.known e he _ (of_decide_eq_true hfetch))
      rw [hnew]
      show 0 + s.queuedFor s.observers.length = s.metrics.notifications
      rw [hqueued, hnone]
  · rw [hlength]
    exact Nat.lt_succ_of_lt (h.known e he i hfetch)

theorem Served.run (h : s.Served) (hidle : s.Idle) (stop : Instant) : (s.runUntil stop).Served :=
  (runUntil_induction (fun _ _ _ hready hs hdue => (hs.due hdue).handle hready)
    (fun _ hs => hs.finish stop) hidle h).2

/-- Instructions after the first run. -/
theorem Served.carryOutAll (h : s.Served) (hidle : s.Idle) {es : List Instruction}
    (hes : ∀ blockSize, .observe blockSize ∉ es) : (s.carryOutAll es).Served := by
  induction es generalizing s with
  | nil => exact h
  | cons e es ih =>
    have hrest : ∀ blockSize, .observe blockSize ∉ es :=
      fun n hn => hes n (List.mem_cons_of_mem e hn)
    refine ih ?_ (hidle.carryOut e) hrest
    cases e with
    | schedule time action => exact h.schedule time action
    | observe blockSize => exact absurd List.mem_cons_self (hes blockSize)
    | run stop => exact h.run hidle stop

/-- Instructions up to the first run and after it. -/
theorem Served.carryOutAll_first (h : s.Served) (hidle : s.Idle)
    (hnone : s.metrics.notifications = 0) {es : List Instruction} (hes : ObservesFirst es) :
    (s.carryOutAll es).Served := by
  induction es generalizing s with
  | nil => exact h
  | cons e es ih =>
    cases e with
    | schedule time action => exact ih (h.schedule time action) (hidle.carryOut _) hnone hes
    | observe blockSize => exact ih (h.observe hnone blockSize) (hidle.carryOut _) hnone hes
    | run stop => exact (h.run hidle stop).carryOutAll (hidle.carryOut (.run stop)) hes

/-! ### From a scenario on -/

/-- Nothing has happened yet. -/
theorem build_accounts (c : Scenario) (cfg : Settings) :
    (c.build cfg).Idle ∧ (c.build cfg).Balanced ∧ (c.build cfg).Served ∧
      (c.build cfg).metrics.notifications = 0 := by
  have hstep : ∀ (s : Simulation cfg) (k : Command),
      s.Idle ∧ s.Balanced ∧ s.Served ∧ s.metrics.notifications = 0 → k ∈ c.commands →
        (s.obey k).Idle ∧ (s.obey k).Balanced ∧ (s.obey k).Served ∧
          (s.obey k).metrics.notifications = 0 := by
    rintro s k ⟨hidle, hbalanced, hserved, hnone⟩ hk
    rcases Scenario.mem_commands hk with rfl | ⟨blockSize, rfl⟩ | ⟨a, -, rfl⟩
    · exact ⟨hidle.carryOut (.schedule _ _), hbalanced.schedule _ _, hserved.schedule _ _, hnone⟩
    · exact ⟨hidle.carryOut (.observe _), hbalanced.observe _, hserved.observe hnone _, hnone⟩
    · exact ⟨hidle.carryOut (.schedule _ _), hbalanced.schedule _ _, hserved.schedule _ _, hnone⟩
  have hstart : (c.start cfg).Idle ∧ (c.start cfg).Balanced ∧ (c.start cfg).Served ∧
      (c.start cfg).metrics.notifications = 0 := by
    have hseed : (ofSeed cfg c.seed).Served := by
      refine ⟨fun i o ho => ?_, fun e he i hfetch => ?_⟩
      · cases ho
      · cases List.mem_singleton.mp he
        cases hfetch
    rw [Scenario.start]
    cases c.snapshotInterval with
    | none => exact ⟨⟨rfl, rfl⟩, ⟨rfl, rfl, rfl, rfl, rfl⟩, ⟨hseed.answered, hseed.known⟩, rfl⟩
    | some interval =>
      exact ⟨⟨rfl, rfl⟩, ⟨rfl, rfl, rfl, rfl, rfl⟩, ⟨hseed.answered, hseed.known⟩, rfl⟩
  rw [Scenario.build_eq]
  exact obeyAll_induction hstep hstart fun _ hk => hk

/-- The retrievals that all observers have recorded. -/
def retrievals (s : Simulation cfg) : List Retrieval := s.observers.flatMap Observer.history

/-- **The books agree.** A simulation is set up by a scenario, and then actions are scheduled,
observers come in, and it runs, in any order. It has counted as many notifications as the node, as
many retrievals and failures as the observers have on their records, and all the reads and bytes of
these retrievals. If all observers were there before the first run, each of them has tried one
retrieval for each notification, but for those that are still on the agenda: so no notification was
lost to an observer, and none has reached it twice. And so it is for all observers together. -/
theorem accounts_agree (cfg : Settings) (c : Scenario) (es : List Instruction) :
    let s := (c.build cfg).carryOutAll es
    s.metrics.notifications = s.node.notifier.total ∧
    s.metrics.fetches = tally (fun o => o.history.length) s.observers ∧
    s.metrics.fetchErrors = tally Observer.errors s.observers ∧
    s.metrics.exchanges = tally Retrieval.exchanges s.retrievals ∧
    s.metrics.bytesServed = tally Retrieval.bodyLength s.retrievals ∧
    (ObservesFirst es →
      s.metrics.fetches + s.metrics.fetchErrors + s.queuedFetches =
        s.metrics.notifications * s.observers.length ∧
      ∀ i o, s.observers[i]? = some o →
        o.history.length + o.errors + s.queuedFor i = s.metrics.notifications) := by
  intro s
  obtain ⟨hidle, hbalanced, hserved, hnone⟩ := build_accounts c cfg
  have hbooks : s.Balanced := hbalanced.carryOutAll hidle es
  have hexchanges := hbooks.exchanges
  have hbytes := hbooks.bytesServed
  rw [← tally_flatMap] at hexchanges hbytes
  refine ⟨hbooks.notifications, hbooks.fetches, hbooks.fetchErrors, hexchanges, hbytes,
    fun hfirst => ?_⟩
  have hanswers : s.Served := hserved.carryOutAll_first hidle hnone hfirst
  refine ⟨?_, hanswers.answered⟩
  rw [← hanswers.total, hbooks.fetches, hbooks.fetchErrors, ← tally_add]
  rfl

/-- Two observers, one of them without room for a byte, and a route that comes and goes: both have
answered the first notification, one of them with a failure, and the second one is announced. -/
theorem accounts_agree_of_two :
    let cfg : Settings := ⟨2, .ofMillis 2, .ofMillis 9, .ofMillis 9⟩
    let near : Address := .ofGroups 0xfe80 0 0 0 0 0 0 1
    let far : Address := .ofGroups 0xaaaa 0 0 0 0 0 0 1
    let c : Scenario :=
      { Scenario.stock with
          fetchDelay := .ofMillis 1
          observers := [16]
          actions := [(.boot, .addRoute ⟨far, near⟩)] }
    let es : List Instruction := [.observe 0, .run (.ofMillis 3),
      .schedule (.ofMillis 4) (.removeRoute far), .run (.ofMillis 6)]
    let s := (c.build cfg).carryOutAll es
    ObservesFirst es ∧ s.metrics.notifications = 2 ∧ s.metrics.fetches = 1 ∧
      s.metrics.fetchErrors = 1 ∧ s.queuedFetches = 2 ∧
      s.metrics.fetches + s.metrics.fetchErrors + s.queuedFetches =
        s.metrics.notifications * s.observers.length := by
  intro cfg near far c es
  have hfirst : ObservesFirst es := by
    intro blockSize hobserve
    rcases List.mem_cons.mp hobserve with h | h
    · cases h
    · cases List.mem_singleton.mp h
  refine ⟨hfirst, ?_, ?_, ?_, ?_, ((accounts_agree cfg c es).2.2.2.2.2 hfirst).1⟩
  all_goals decide +kernel

end Simulation

end ObservableTree
