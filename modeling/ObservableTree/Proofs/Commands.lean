import ObservableTree.Proofs.Agenda
import ObservableTree.Proofs.Events
import ObservableTree.Simulation.Scenario

/-!
# Driving a simulation

A simulation starts from a scenario. Then actions and retrievals are scheduled, observers come in,
and it runs. A run is a row of turns: events happen as long as one is due, and then time moves on to
the end of the run.

* `Simulation.due?` — the event that is due, at its instant, before it happens;
* `Command`, `Simulation.obeyAll` — what can be done to a simulation, one by one;
* `Simulation.performed` — the actions that are carried out in the course of some commands;
* `Scenario.commands` — the commands that a scenario begins with;
* `obeyAll_induction` — what every command preserves holds whatever is done.
-/

namespace ObservableTree

namespace Simulation

variable {cfg : Settings} {s : Simulation cfg}

/-! ### Turns -/

/-- The event that is due up to an instant, and the simulation at the instant at which it happens,
with the event taken off the agenda. -/
def due? (s : Simulation cfg) (stop : Instant) : Option (Simulation cfg × Event) :=
  match s.agenda.next? with
  | none => none
  | some (e, rest) =>
    if stop < e.time then none else some ({ s with agenda := rest }.advance e.time, e.event)

/-- Moving time on concerns the instant and the node's clock. -/
theorem advance_frame (s : Simulation cfg) (time : Instant) :
    s.advance time =
      { s with
          now := (s.advance time).now
          node := { s.node with clock := (s.advance time).node.clock } } := by
  unfold advance
  split
  · rfl
  · rfl

/-- A snapshot that is due concerns the record only. -/
theorem snapshotIfDue_frame (s : Simulation cfg) :
    ∃ snapshots next, s.snapshotIfDue =
      { s with metrics := { s.metrics with snapshots := snapshots }, nextSnapshot := next } := by
  unfold snapshotIfDue
  split
  · exact ⟨s.metrics.snapshots, s.nextSnapshot, rfl⟩
  · split
    · exact ⟨_, _, rfl⟩
    · exact ⟨s.metrics.snapshots, s.nextSnapshot, rfl⟩

/-- What is left to do when an event is due. -/
def handle (x : Simulation cfg × Event) : Simulation cfg := (x.1.process x.2).snapshotIfDue

theorem stepUntil?_eq (s : Simulation cfg) (stop : Instant) :
    s.stepUntil? stop = (s.due? stop).map handle := by
  unfold stepUntil? due?
  cases s.agenda.next? with
  | none => rfl
  | some x =>
    dsimp only
    split
    · rfl
    · rfl

theorem stepUntil?_of_none {stop : Instant} (h : s.due? stop = none) : s.stepUntil? stop = none := by
  rw [stepUntil?_eq, h, Option.map_none]

theorem stepUntil?_of_some {stop : Instant} {x : Simulation cfg × Event}
    (h : s.due? stop = some x) : s.stepUntil? stop = some (handle x) := by
  rw [stepUntil?_eq, h, Option.map_some]

/-- What is due is the first entry of the agenda. -/
theorem due?_eq_some_iff {stop : Instant} {s₀ : Simulation cfg} {event : Event} :
    s.due? stop = some (s₀, event) ↔
      ∃ time number rest, s.agenda.entries = ⟨time, number, event⟩ :: rest ∧ time ≤ stop ∧
        s₀ = { s with agenda := ⟨rest⟩ }.advance time := by
  unfold due?
  constructor
  · intro h
    split at h
    · cases h
    · next e rest hnext =>
      split at h
      · cases h
      · next hdue =>
        cases h
        exact ⟨e.time, e.number, rest.entries, Agenda.next?_eq_some_iff.mp hnext,
          Nat.le_of_not_lt hdue, rfl⟩
  · rintro ⟨time, number, rest, hentries, hdue, rfl⟩
    have hnext : s.agenda.next? = some (⟨time, number, event⟩, ⟨rest⟩) :=
      Agenda.next?_eq_some_iff.mpr hentries
    rw [hnext]
    exact if_neg (Nat.not_lt.mpr hdue)

/-- Nothing is due if the first entry of the agenda, and so every entry, is due later. -/
theorem lt_of_due?_eq_none {stop : Instant} (hsorted : s.agenda.Sorted)
    (h : s.due? stop = none) {e : Scheduled} (he : e ∈ s.agenda.entries) : stop < e.time := by
  cases hentries : s.agenda.entries with
  | nil =>
    rw [hentries] at he
    cases he
  | cons d rest =>
    have hfirst : d.time ≤ e.time := Agenda.le_of_sorted hsorted hentries he
    have hlater : stop < d.time := by
      refine Nat.lt_of_not_le fun hdue => ?_
      rw [due?_eq_some_iff.mpr ⟨d.time, d.number, rest, hentries, hdue, rfl⟩] at h
      cases h
    exact Nat.lt_of_lt_of_le hlater hfirst

/-- One turn of a run up to an instant: the next event that is due, or the end of the run. -/
def turn (s : Simulation cfg) (stop : Instant) : Simulation cfg :=
  match s.due? stop with
  | some x => handle x
  | none => (s.advance stop).takeSnapshot

end Simulation

/-! ### Commands -/

/-- Whether traffic that an action starts leaves time between its packets. -/
def Action.IsPaced : Action → Prop
  | .startTraffic _ interval => 0 < interval.millis
  | _ => True

/-- What can be done to a simulation from outside. -/
inductive Command where
  /-- Schedules an action. -/
  | action (time : Instant) (action : Action)
  /-- Schedules a retrieval by an observer. -/
  | fetch (time : Instant) (observer : Nat)
  /-- Registers an observer. -/
  | observe (blockSize : Nat)
  /-- Takes one turn of a run up to an instant. -/
  | turn (stop : Instant)
deriving DecidableEq

namespace Command

/-- Whether a run ends before the last instant that a clock can show. -/
def InTime : Command → Prop
  | turn stop => stop < .last
  | _ => True

/-- Whether the command schedules no traffic without time between its packets. -/
def IsPaced : Command → Prop
  | action _ a => a.IsPaced
  | _ => True

/-- The turns of a run are in time, and schedule nothing themselves. -/
theorem of_mem_turns {stop : Instant} (hstop : stop < .last) {count : Nat} {k : Command}
    (hk : k ∈ List.replicate count (turn stop)) : k.InTime ∧ k.IsPaced := by
  rw [List.eq_of_mem_replicate hk]
  exact ⟨hstop, trivial⟩

end Command

namespace Simulation

variable {cfg : Settings} {s : Simulation cfg}

/-- A command. -/
def obey (s : Simulation cfg) : Command → Simulation cfg
  | .action time action => s.schedule time (.action action)
  | .fetch time observer => s.schedule time (.fetch observer)
  | .observe blockSize => s.addObserver blockSize
  | .turn stop => s.turn stop

/-- Several commands, one after another. -/
def obeyAll (s : Simulation cfg) (cs : List Command) : Simulation cfg := cs.foldl obey s

theorem obey_turn_of_none {stop : Instant} (h : s.due? stop = none) :
    s.obey (.turn stop) = (s.advance stop).takeSnapshot := by
  rw [obey, turn, h]

theorem obey_turn_of_some {stop : Instant} {x : Simulation cfg × Event}
    (h : s.due? stop = some x) : s.obey (.turn stop) = handle x := by
  rw [obey, turn, h]

theorem obeyAll_append (s : Simulation cfg) (cs ds : List Command) :
    s.obeyAll (cs ++ ds) = (s.obeyAll cs).obeyAll ds := List.foldl_append

/-- The action that is carried out on a command, if it is a turn and an action is due. -/
def performedOn (s : Simulation cfg) : Command → List Action
  | .turn stop =>
    match s.due? stop with
    | some (_, .action action) => [action]
    | _ => []
  | _ => []

/-- The actions that are carried out in the course of some commands, in order. -/
def performed (s : Simulation cfg) : List Command → List Action
  | [] => []
  | c :: cs => s.performedOn c ++ (s.obey c).performed cs

theorem performed_append (s : Simulation cfg) (cs ds : List Command) :
    s.performed (cs ++ ds) = s.performed cs ++ (s.obeyAll cs).performed ds := by
  induction cs generalizing s with
  | nil => rfl
  | cons c cs ih =>
    rw [List.cons_append, performed, performed, ih, List.append_assoc]
    rfl

theorem mem_performedOn_turn {stop : Instant} {s₀ : Simulation cfg} {action : Action}
    (h : s.due? stop = some (s₀, .action action)) : action ∈ s.performedOn (.turn stop) := by
  rw [performedOn, h]
  exact List.mem_singleton_self action

/-- What is carried out is due. -/
theorem due?_of_mem_performedOn {c : Command} {action : Action} (h : action ∈ s.performedOn c) :
    ∃ stop s₀, c = .turn stop ∧ s.due? stop = some (s₀, .action action) := by
  cases c with
  | action | fetch | observe => cases h
  | turn stop =>
    rw [performedOn] at h
    split at h
    · next s₀ a hdue =>
      rw [List.mem_singleton.mp h]
      exact ⟨stop, s₀, rfl, hdue⟩
    · cases h

/-- **Commands one by one.** What a simulation starts with and every command preserves is not lost. -/
theorem obeyAll_induction {P : Simulation cfg → Prop} {Q : Command → Prop}
    (hstep : ∀ s c, P s → Q c → P (s.obey c)) (h : P s) {cs : List Command}
    (hcs : ∀ c ∈ cs, Q c) : P (s.obeyAll cs) := by
  induction cs generalizing s with
  | nil => exact h
  | cons c cs ih =>
    exact ih (hstep s c h (hcs c List.mem_cons_self)) fun d hd => hcs d (List.mem_cons_of_mem c hd)

end Simulation

/-! ### Scenarios -/

namespace Scenario

variable (c : Scenario) (cfg : Settings)

/-- The network of a scenario before anything has been scheduled for it. -/
def start : Simulation cfg :=
  let idle := { Simulation.ofSeed cfg c.seed with lossRate := c.lossRate, fetchDelay := c.fetchDelay }
  (c.snapshotInterval.map idle.snapshotEvery).getD idle

/-- The commands that a scenario begins with. -/
def commands : List Command :=
  (if c.dagPrefix.isSome then [.action .boot (.setPrefix c.dagPrefix)] else []) ++
    c.observers.map .observe ++ c.actions.map fun a => .action a.1 a.2

theorem build_eq : c.build cfg = (c.start cfg).obeyAll c.commands := by
  have hprefix : ∀ s : Simulation cfg, c.withPrefix s =
      s.obeyAll (if c.dagPrefix.isSome then [.action .boot (.setPrefix c.dagPrefix)] else []) := by
    intro s
    unfold withPrefix
    split
    · rfl
    · rfl
  rw [commands, Simulation.obeyAll_append, Simulation.obeyAll_append, ← hprefix,
    Simulation.obeyAll, Simulation.obeyAll, List.foldl_map, List.foldl_map]
  rfl

variable {c}

theorem mem_commands {k : Command} (h : k ∈ c.commands) :
    k = .action .boot (.setPrefix c.dagPrefix) ∨ (∃ blockSize, k = .observe blockSize) ∨
      ∃ a ∈ c.actions, k = .action a.1 a.2 := by
  rcases List.mem_append.mp h with hfront | haction
  · rcases List.mem_append.mp hfront with hprefix | hobserver
    · split at hprefix
      · exact .inl (List.mem_singleton.mp hprefix)
      · cases hprefix
    · obtain ⟨blockSize, -, rfl⟩ := List.mem_map.mp hobserver
      exact .inr (.inl ⟨blockSize, rfl⟩)
  · obtain ⟨a, ha, rfl⟩ := List.mem_map.mp haction
    exact .inr (.inr ⟨a, ha, rfl⟩)

variable (c)

theorem commands_inTime : ∀ k ∈ c.commands, k.InTime := by
  intro k hk
  rcases mem_commands hk with rfl | ⟨blockSize, rfl⟩ | ⟨a, -, rfl⟩
  all_goals trivial

/-- Whether all traffic that a scenario starts leaves time between its packets. -/
def IsPaced : Prop := ∀ a ∈ c.actions, a.2.IsPaced

variable {c}

theorem IsPaced.commands (h : c.IsPaced) : ∀ k ∈ c.commands, k.IsPaced := by
  intro k hk
  rcases mem_commands hk with rfl | ⟨blockSize, rfl⟩ | ⟨a, ha, rfl⟩
  · trivial
  · trivial
  · exact h a ha

end Scenario

end ObservableTree
