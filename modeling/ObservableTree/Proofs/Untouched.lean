import ObservableTree.Proofs.Splitting

/-!
# What no event touches

An event changes the node, the routes, the traffic, the observers and the agenda, each kind of event
some of them. What the simulation was set up with and the node's clock stay as they are, and the
record of snapshots only grows, by those that an action asks for:

* `Simulation.submit_frame` — handling the node's queue concerns the node and the log;
* `Simulation.taken` — the snapshots that an event takes;
* `Simulation.Spares`, `happen_spares` — what every event leaves alone;
* `obey_lossRate`, `obey_record` — what every command leaves alone;
* `build_untouched` — a simulation before it runs.
-/

namespace ObservableTree

namespace Simulation

variable {cfg : Settings} {s s' : Simulation cfg}

/-! ### The queue -/

/-- Handling what waits in the queue concerns the node, but for its clock, and the log. -/
theorem drainInbox_frame (s : Simulation cfg) :
    ∃ node log, s.drainInbox = { s with node := node, log := log } ∧
      node.clock = s.node.clock := by
  have hfold : ∀ (events : List TopologyEvent) (s : Simulation cfg), ∃ node log,
      events.foldl (fun s event => s.absorb (s.node.resource.onEvent event s.now)) s =
        { s with node := node, log := log } ∧ node.clock = s.node.clock := by
    intro events
    induction events with
    | nil => exact fun s => ⟨s.node, s.log, rfl, rfl⟩
    | cons event events ih =>
      exact fun s => ih (s.absorb (s.node.resource.onEvent event s.now))
  exact hfold s.node.inbox { s with node := { s.node with inbox := [] } }

/-- So does handing an event to the node. -/
theorem submit_frame (s : Simulation cfg) (event : TopologyEvent) :
    ∃ node log, s.submit event = { s with node := node, log := log } ∧
      node.clock = s.node.clock := by
  rw [submit, Node.send?]
  by_cases hroom : s.node.inbox.length < inboxCapacity
  · rw [if_pos hroom]
    exact drainInbox_frame { s with node := { s.node with inbox := s.node.inbox ++ [event] } }
  · rw [if_neg hroom]
    exact drainInbox_frame (s.jot (.queueFull event))

/-! ### Events -/

/-- The snapshots that an event takes. -/
def taken (s : Simulation cfg) : Event → List Snapshot
  | .action .takeSnapshot => [s.snapshot]
  | _ => []

/-- What no event touches, besides the snapshots that are taken. -/
structure Spares (snapshots : List Snapshot) (s s' : Simulation cfg) : Prop where
  clock : s'.node.clock = s.node.clock
  lossRate : s'.lossRate = s.lossRate
  snapshotInterval : s'.snapshotInterval = s.snapshotInterval
  nextSnapshot : s'.nextSnapshot = s.nextSnapshot
  record : s'.metrics.snapshots = s.metrics.snapshots ++ snapshots

theorem Spares.refl (s : Simulation cfg) : Spares [] s s :=
  ⟨rfl, rfl, rfl, rfl, (List.append_nil _).symm⟩

/-- Counting something and handing an event to the node. -/
theorem submit_spares (m : Metrics) (word : UInt64) (event : TopologyEvent)
    (hm : m.snapshots = s.metrics.snapshots) :
    Spares [] s ({ s with metrics := m, randomWord := word }.submit event) := by
  obtain ⟨node, log, hframe, hclock⟩ := submit_frame { s with metrics := m, randomWord := word } event
  rw [hframe]
  exact ⟨hclock, rfl, rfl, rfl, by rw [List.append_nil, ← hm]⟩

theorem deliverPacket_spares (s : Simulation cfg) (source : Address) (generation : UInt32) :
    Spares [] s (s.deliverPacket source generation) := by
  rw [deliverPacket]
  split
  · exact .refl s
  · split
    · exact .refl s
    · next t _ _ =>
      dsimp only
      rw [drawLoss_frame]
      cases s.drawLoss.2 with
      | true =>
        rw [if_pos rfl]
        exact ⟨rfl, rfl, rfl, rfl, (List.append_nil _).symm⟩
      | false =>
        rw [if_neg Bool.false_ne_true]
        have hsent := submit_spares (s := s)
          { s.metrics with packetsObserved := s.metrics.packetsObserved + 1 }
          s.drawLoss.1.randomWord (.packet source) rfl
        exact ⟨hsent.clock, hsent.lossRate, hsent.snapshotInterval, hsent.nextSnapshot, hsent.record⟩

theorem fireTimer_spares (s : Simulation cfg) (generation : Nat) :
    Spares [] s (s.fireTimer generation) := by
  rw [fireTimer]
  split
  · exact .refl s
  · dsimp only
    rw [announceAll_eq, scheduleAll_frame]
    exact ⟨rfl, rfl, rfl, rfl, (List.append_nil _).symm⟩

theorem fetch_spares (s : Simulation cfg) (observer : Nat) : Spares [] s (s.fetch observer) := by
  rw [fetch]
  split
  · exact .refl s
  · dsimp only
    unfold noteRetrieval
    split
    · exact ⟨rfl, rfl, rfl, rfl, (List.append_nil _).symm⟩
    · exact ⟨rfl, rfl, rfl, rfl, (List.append_nil _).symm⟩

theorem execute_spares (s : Simulation cfg) (action : Action) :
    Spares (s.taken (.action action)) s (s.execute action) := by
  cases action with
  | takeSnapshot => exact ⟨rfl, rfl, rfl, rfl, rfl⟩
  | addRoute | setParent | setPrefix | startTraffic =>
    exact ⟨rfl, rfl, rfl, rfl, (List.append_nil _).symm⟩
  | removeRoute | clearParent | stopTraffic =>
    simp only [execute, stopTraffic]
    split
    · exact .refl s
    · exact ⟨rfl, rfl, rfl, rfl, (List.append_nil _).symm⟩

/-- **Every event** leaves all this alone. -/
theorem happen_spares (s : Simulation cfg) (event : Event) :
    Spares (s.taken event) s (s.happen event) := by
  cases event with
  | packet source generation => exact deliverPacket_spares s source generation
  | routeChange change route =>
    exact submit_spares { s.metrics with routeChanges := s.metrics.routeChanges + 1 } s.randomWord _
      rfl
  | timer generation => exact fireTimer_spares s generation
  | fetch observer => exact fetch_spares s observer
  | action action => exact execute_spares s action

/-- So does putting the timer in order. -/
theorem rescheduleTimer_spares (s : Simulation cfg) : Spares [] s s.rescheduleTimer := by
  unfold rescheduleTimer
  split
  · exact .refl s
  · exact ⟨rfl, rfl, rfl, rfl, (List.append_nil _).symm⟩

theorem Spares.trans {first second : List Snapshot} {s'' : Simulation cfg} (h : Spares first s s')
    (h' : Spares second s' s'') : Spares (first ++ second) s s'' where
  clock := h'.clock.trans h.clock
  lossRate := h'.lossRate.trans h.lossRate
  snapshotInterval := h'.snapshotInterval.trans h.snapshotInterval
  nextSnapshot := h'.nextSnapshot.trans h.nextSnapshot
  record := by rw [h'.record, h.record, List.append_assoc]

theorem process_spares (s : Simulation cfg) (event : Event) :
    Spares (s.taken event) s (s.process event) := by
  have hboth := (happen_spares s event).trans (rescheduleTimer_spares _)
  rw [List.append_nil] at hboth
  exact hboth

/-! ### Commands -/

theorem due?_untouched {stop : Instant} {x : Simulation cfg × Event} (h : s.due? stop = some x) :
    x.1.lossRate = s.lossRate ∧ x.1.metrics = s.metrics ∧ x.1.traffic = s.traffic := by
  obtain ⟨time, number, rest, -, -, hx⟩ := due?_eq_some_iff.mp h
  rw [hx, advance_frame]
  exact ⟨rfl, rfl, rfl⟩

theorem handle_lossRate (s : Simulation cfg) (event : Event) :
    (handle (s, event)).lossRate = s.lossRate := by
  obtain ⟨snapshots, next, hframe⟩ := snapshotIfDue_frame (s.process event)
  rw [handle, hframe]
  exact (process_spares s event).lossRate

/-- No command changes the share of packets that are lost. -/
theorem obey_lossRate (s : Simulation cfg) (c : Command) : (s.obey c).lossRate = s.lossRate := by
  cases c with
  | action | fetch | observe => rfl
  | turn stop =>
    rw [obey, turn]
    split
    · next x hdue =>
      rw [← (due?_untouched hdue).1]
      exact handle_lossRate x.1 x.2
    · rw [advance_frame]
      rfl

/-- Whatever is recorded when an event is due shows the state of a simulation. -/
theorem handle_record (s : Simulation cfg) (event : Event) {x : Snapshot}
    (hx : x ∈ (handle (s, event)).metrics.snapshots) :
    x ∈ s.metrics.snapshots ∨ ∃ t : Simulation cfg, x = t.snapshot := by
  have hprocess : ∀ {x}, x ∈ (s.process event).metrics.snapshots →
      x ∈ s.metrics.snapshots ∨ ∃ t : Simulation cfg, x = t.snapshot := by
    intro x hx
    rw [(process_spares s event).record, List.mem_append] at hx
    refine hx.imp_right fun hnew => ⟨s, ?_⟩
    unfold taken at hnew
    split at hnew
    · exact List.mem_singleton.mp hnew
    · cases hnew
  unfold handle snapshotIfDue at hx
  dsimp only at hx
  split at hx
  · exact hprocess hx
  · split at hx
    · rcases List.mem_append.mp hx with hold | hnew
      · exact hprocess hold
      · exact .inr ⟨s.process event, List.mem_singleton.mp hnew⟩
    · exact hprocess hx

/-- Whatever a command records shows the state of a simulation. -/
theorem obey_record (s : Simulation cfg) (c : Command) {x : Snapshot}
    (hx : x ∈ (s.obey c).metrics.snapshots) :
    x ∈ s.metrics.snapshots ∨ ∃ t : Simulation cfg, x = t.snapshot := by
  cases c with
  | action | fetch | observe => exact .inl hx
  | turn stop =>
    rw [obey, turn] at hx
    split at hx
    · next y hdue =>
      rw [← (due?_untouched hdue).2.1]
      exact handle_record y.1 y.2 hx
    · rcases List.mem_append.mp hx with hold | hnew
      · rw [advance_frame] at hold
        exact .inl hold
      · exact .inr ⟨s.advance stop, List.mem_singleton.mp hnew⟩

/-- Before it runs, a simulation has no traffic and has recorded nothing. -/
theorem build_untouched (c : Scenario) (cfg : Settings) :
    (c.build cfg).traffic = [] ∧ (c.build cfg).lossRate = c.lossRate ∧
      (c.build cfg).metrics.snapshots = [] := by
  have hstep : ∀ (s : Simulation cfg) (k : Command),
      s.traffic = [] ∧ s.lossRate = c.lossRate ∧ s.metrics.snapshots = [] → k ∈ c.commands →
        (s.obey k).traffic = [] ∧ (s.obey k).lossRate = c.lossRate ∧
          (s.obey k).metrics.snapshots = [] := by
    intro s k h hk
    rcases Scenario.mem_commands hk with rfl | ⟨blockSize, rfl⟩ | ⟨a, -, rfl⟩
    · exact h
    · exact h
    · exact h
  have hstart : (c.start cfg).traffic = [] ∧ (c.start cfg).lossRate = c.lossRate ∧
      (c.start cfg).metrics.snapshots = [] := by
    rw [Scenario.start]
    cases c.snapshotInterval with
    | none => exact ⟨rfl, rfl, rfl⟩
    | some interval => exact ⟨rfl, rfl, rfl⟩
  rw [Scenario.build_eq]
  exact obeyAll_induction hstep hstart fun _ hk => hk

end Simulation

end ObservableTree
