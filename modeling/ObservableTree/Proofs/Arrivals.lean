import ObservableTree.Proofs.Accounting
import ObservableTree.Proofs.Presence

/-!
# Packets that arrive

A packet *arrives* if the session that it belongs to goes on: then it is delivered or lost, one word is
drawn for that, and the next packet of the session is put on the agenda. Nothing else is drawn or
counted.

* `Simulation.Idle.obeyAll` — the node is idle whenever a command has been obeyed;
* `arrives`, `latestGeneration` — a packet of a session that goes on, and the latest session of a
  neighbor;
* `countP_news_packet`, `countP_news_start`, `countP_news_other` — what follows from an event, as far as
  the packets of one generation are concerned;
* `Draws`, `handle_draws` — what an event does to the counters of packets and to the words.
-/

namespace ObservableTree

namespace Simulation

variable {cfg : Settings} {s s₀ s' : Simulation cfg} {event e : Event} {stop : Instant} {a : Address}
  {g : UInt32}

/-! ### Between two events -/

theorem Idle.obey (h : s.Idle) (c : Command) : (s.obey c).Idle := by
  cases c with
  | action | fetch | observe => exact ⟨h.inbox, h.pending⟩
  | turn stop =>
    cases hdue : s.due? stop with
    | none =>
      rw [obey_turn_of_none hdue]
      exact h.finish stop
    | some x =>
      rw [obey_turn_of_some hdue]
      exact (h.due hdue).handle x.2

theorem Idle.obeyAll (h : s.Idle) (cs : List Command) : (s.obeyAll cs).Idle :=
  obeyAll_induction (Q := fun _ => True) (fun _ c h _ => h.obey c) h fun _ _ => trivial

theorem build_idle (c : Scenario) (cfg : Settings) : (c.build cfg).Idle := (build_accounts c cfg).1

/-- What is left to do when an event is due keeps the agenda in order. -/
theorem handle_sorted (h : s.Idle) (hsorted : s.agenda.Sorted) (event : Event) :
    (handle (s, event)).agenda.Sorted := by
  have hnews : (s.happen event).agenda.Sorted := by
    rw [(happen_effect h event).agenda]
    exact scheduleAll_sorted hsorted _
  rw [(handle_frame s event).2.1]
  unfold rescheduleTimer
  split
  · exact hnews
  · exact Agenda.insert_sorted hnews _

theorem Idle.obey_sorted (h : s.Idle) (hsorted : s.agenda.Sorted) (c : Command) :
    (s.obey c).agenda.Sorted := by
  cases c with
  | action | fetch => exact Agenda.insert_sorted hsorted _
  | observe => exact hsorted
  | turn stop =>
    cases hdue : s.due? stop with
    | none =>
      rw [obey_turn_of_none hdue, advance_frame]
      exact hsorted
    | some x =>
      rw [obey_turn_of_some hdue]
      refine handle_sorted (h.due hdue) ?_ x.2
      obtain ⟨time, number, rest, hentries, -, hx⟩ := due?_eq_some_iff.mp hdue
      rw [hx, advance_frame]
      exact Agenda.rest_sorted hsorted hentries

theorem Idle.obeyAll_sorted (h : s.Idle) (hsorted : s.agenda.Sorted) (cs : List Command) :
    (s.obeyAll cs).agenda.Sorted := by
  have hstep : ∀ (s : Simulation cfg) (c : Command), s.Idle ∧ s.agenda.Sorted → True →
      (s.obey c).Idle ∧ (s.obey c).agenda.Sorted :=
    fun s c hs _ => ⟨hs.1.obey c, hs.1.obey_sorted hs.2 c⟩
  exact (obeyAll_induction hstep ⟨h, hsorted⟩ fun _ _ => trivial).2

theorem build_sorted (c : Scenario) (cfg : Settings) : (c.build cfg).agenda.Sorted := by
  rw [Scenario.build_eq]
  exact (start_onTime c cfg).idle.obeyAll_sorted (start_onTime c cfg).sorted _

/-- Taking an event off the agenda and moving time on. -/
theorem traffic?_due (hdue : s.due? stop = some (s₀, event)) (a : Address) :
    s₀.traffic? a = s.traffic? a := by
  rw [traffic?, (due?_untouched hdue).2.2, traffic?]

/-! ### Packets of one generation -/

/-- Whether an event is a packet of a session that goes on. -/
def arrives (s : Simulation cfg) : Event → Bool
  | .packet source generation =>
    (s.traffic? source).any fun t => t.alive && decide (t.generation = generation)
  | _ => false

/-- The generation of the latest session of a neighbor, zero if there was none. -/
def latestGeneration (s : Simulation cfg) (a : Address) : UInt32 :=
  ((s.traffic? a).map Traffic.generation).getD 0

theorem arrives_packet_iff :
    s.arrives (.packet a g) = true ↔ ∃ t, s.traffic? a = some t ∧ t.alive = true ∧ t.generation = g := by
  simp only [arrives, Option.any_eq_true, Bool.and_eq_true, decide_eq_true_eq]

theorem arrives_iff_of_some {t : Traffic} (ht : s.traffic? a = some t) :
    s.arrives (.packet a g) = true ↔ ¬(t.alive = false ∨ t.generation ≠ g) := by
  rw [arrives_packet_iff, ht, not_or, Bool.not_eq_false, Classical.not_not]
  constructor
  · rintro ⟨t', ht', hlive⟩
    cases ht'
    exact hlive
  · exact fun hlive => ⟨t, rfl, hlive⟩

theorem stale_of_not_arrives {t : Traffic} (ht : s.traffic? a = some t)
    (h : s.arrives (.packet a g) = false) : t.alive = false ∨ t.generation ≠ g := by
  by_contra hlive
  rw [(arrives_iff_of_some ht).mpr hlive] at h
  cases h

/-- A packet that does not arrive is discarded. -/
theorem deliverPacket_of_stale (h : s.arrives (.packet a g) = false) : s.deliverPacket a g = s := by
  rw [deliverPacket]
  split
  · rfl
  · next t ht => exact if_pos (stale_of_not_arrives ht h)

/-- A packet that arrives is followed by the next one of its session. -/
theorem news_of_arrives {t : Traffic} (ht : s.traffic? a = some t) (halive : t.alive = true) :
    s.news (.packet a t.generation) = [(s.now + t.interval, .packet a t.generation)] := by
  rw [news, ht]
  exact if_neg (Traffic.not_stale halive)

theorem news_of_stale (h : s.arrives (.packet a g) = false) : s.news (.packet a g) = [] := by
  rw [news]
  split
  · rfl
  · next t ht => exact if_pos (stale_of_not_arrives ht h)

/-- A packet is followed by one of its own generation, if it arrives. -/
theorem countP_news_packet (s : Simulation cfg) (a : Address) (g : UInt32) :
    (s.news (.packet a g)).countP (fun x => decide (x.2 = .packet a g)) =
      if s.arrives (.packet a g) = true then 1 else 0 := by
  cases harrives : s.arrives (.packet a g) with
  | false =>
    rw [news_of_stale harrives]
    rfl
  | true =>
    obtain ⟨t, ht, halive, rfl⟩ := arrives_packet_iff.mp harrives
    rw [news_of_arrives ht halive, List.countP_singleton, if_pos rfl]
    exact if_pos (decide_eq_true rfl)

/-- A start schedules the first packet of the next generation. -/
theorem countP_news_start (s : Simulation cfg) (a : Address) (interval : Span) (g : UInt32) :
    (s.news (.action (.startTraffic a interval))).countP (fun x => decide (x.2 = .packet a g)) =
      if s.latestGeneration a + 1 = g then 1 else 0 := by
  show List.countP _ [(s.now, Event.packet a (s.latestGeneration a + 1))] = _
  rw [List.countP_singleton]
  simp only [Event.packet.injEq, true_and, decide_eq_true_eq]

/-- No other event is followed by such a packet. -/
theorem countP_news_other (hpacket : event ≠ .packet a g)
    (hstart : ∀ interval, event ≠ .action (.startTraffic a interval)) :
    (s.news event).countP (fun x => decide (x.2 = .packet a g)) = 0 := by
  rw [List.countP_eq_zero]
  intro x hx hsame
  replace hsame := of_decide_eq_true hsame
  cases follows_of_mem_news hx with
  | packet => exact hpacket hsame
  | start source interval =>
    obtain ⟨rfl, -⟩ := Event.packet.inj hsame
    exact hstart interval rfl
  | retrieval | report => cases hsame

/-! ### Words and counters -/

/-- What an event does to the words and to the counters of packets: for a packet that arrives, a word is
drawn, and it is delivered or lost. -/
structure Draws (s : Simulation cfg) (event : Event) (s' : Simulation cfg) : Prop where
  word : s'.randomWord = if s.arrives event then s.drawLoss.1.randomWord else s.randomWord
  observed : s'.metrics.packetsObserved =
    s.metrics.packetsObserved + if s.arrives event && !s.drawLoss.2 then 1 else 0
  dropped : s'.metrics.packetsDropped =
    s.metrics.packetsDropped + if s.arrives event && s.drawLoss.2 then 1 else 0

/-- Where no packet arrives, neither the words nor these counters may change. -/
theorem Draws.of_same (h : s.arrives event = false) (hword : s'.randomWord = s.randomWord)
    (hobserved : s'.metrics.packetsObserved = s.metrics.packetsObserved)
    (hdropped : s'.metrics.packetsDropped = s.metrics.packetsDropped) : Draws s event s' := by
  refine ⟨?_, ?_, ?_⟩
  all_goals
    rw [h]
    assumption

/-- Where one arrives, it is lost or not. -/
theorem Draws.of_arrives {lost : Bool} (h : s.arrives event = true) (hlost : s.drawLoss.2 = lost)
    (hword : s'.randomWord = s.drawLoss.1.randomWord)
    (hobserved : s'.metrics.packetsObserved = s.metrics.packetsObserved + if lost then 0 else 1)
    (hdropped : s'.metrics.packetsDropped = s.metrics.packetsDropped + if lost then 1 else 0) :
    Draws s event s' := by
  refine ⟨?_, ?_, ?_⟩
  · rw [h, hword, if_pos rfl]
  · rw [h, hlost, hobserved]
    cases lost with
    | true => rfl
    | false => rfl
  · rw [h, hlost, hdropped]
    cases lost with
    | true => rfl
    | false => rfl

theorem deliverPacket_draws (s : Simulation cfg) (a : Address) (g : UInt32) :
    Draws s (.packet a g) (s.deliverPacket a g) := by
  cases harrives : s.arrives (.packet a g) with
  | false =>
    rw [deliverPacket_of_stale harrives]
    exact .of_same harrives rfl rfl rfl
  | true =>
    obtain ⟨t, ht, halive, rfl⟩ := arrives_packet_iff.mp harrives
    rw [deliverPacket, ht]
    dsimp only
    rw [if_neg (Traffic.not_stale halive), drawLoss_frame]
    cases hlost : s.drawLoss.2 with
    | true =>
      rw [if_pos rfl]
      exact .of_arrives harrives hlost rfl rfl rfl
    | false =>
      rw [if_neg Bool.false_ne_true]
      obtain ⟨node, log, hframe, -⟩ := submit_frame
        { s with
            randomWord := s.drawLoss.1.randomWord
            metrics := { s.metrics with packetsObserved := s.metrics.packetsObserved + 1 } }
        (.packet a)
      rw [hframe]
      exact .of_arrives harrives hlost rfl rfl rfl

theorem fetch_draws (s : Simulation cfg) (observer : Nat) :
    Draws s (.fetch observer) (s.fetch observer) := by
  rw [fetch]
  split
  · exact .of_same rfl rfl rfl rfl
  · dsimp only
    unfold noteRetrieval
    split
    · exact .of_same rfl rfl rfl rfl
    · exact .of_same rfl rfl rfl rfl

theorem execute_draws (s : Simulation cfg) (action : Action) :
    Draws s (.action action) (s.execute action) := by
  cases action with
  | addRoute | setParent | setPrefix | startTraffic | takeSnapshot =>
    exact .of_same rfl rfl rfl rfl
  | removeRoute | clearParent | stopTraffic =>
    simp only [execute, stopTraffic]
    split
    · exact .of_same rfl rfl rfl rfl
    · exact .of_same rfl rfl rfl rfl

/-- **Every event** draws and counts for packets that arrive, and for nothing else. -/
theorem happen_draws (s : Simulation cfg) (event : Event) : Draws s event (s.happen event) := by
  cases event with
  | packet source generation => exact deliverPacket_draws s source generation
  | routeChange change route =>
    obtain ⟨node, log, hframe, -⟩ := submit_frame
      { s with metrics := { s.metrics with routeChanges := s.metrics.routeChanges + 1 } }
      (.routeChanged change route s.routing.routes.length)
    rw [happen, reportChange, hframe]
    exact .of_same rfl rfl rfl rfl
  | timer generation =>
    rw [happen, fireTimer]
    split
    · exact .of_same rfl rfl rfl rfl
    · dsimp only
      rw [announceAll_eq, scheduleAll_frame]
      exact .of_same rfl rfl rfl rfl
  | fetch observer => exact fetch_draws s observer
  | action action => exact execute_draws s action

/-- The timer and the snapshot after an event draw and count nothing of this kind. -/
theorem handle_draws (s : Simulation cfg) (event : Event) : Draws s event (handle (s, event)) := by
  have hhappened := happen_draws s event
  obtain ⟨snapshots, next, hframe⟩ := snapshotIfDue_frame (s.process event)
  have hsame : (s.process event).randomWord = (s.happen event).randomWord ∧
      (s.process event).metrics = (s.happen event).metrics := by
    unfold process rescheduleTimer
    split
    · exact ⟨rfl, rfl⟩
    · exact ⟨rfl, rfl⟩
  rw [handle, hframe]
  dsimp only
  rw [hsame.2]
  exact ⟨hsame.1.trans hhappened.word, hhappened.observed, hhappened.dropped⟩

/-- The packets that have been delivered or lost. -/
def packetsMet (s : Simulation cfg) : Nat := s.metrics.packetsObserved + s.metrics.packetsDropped

theorem Draws.packetsMet (h : Draws s event s') :
    s'.packetsMet = s.packetsMet + if s.arrives event then 1 else 0 := by
  rw [Simulation.packetsMet, Simulation.packetsMet, h.observed, h.dropped]
  cases s.arrives event with
  | false => exact Nat.add_zero _
  | true =>
    cases s.drawLoss.2 with
    | true => exact (Nat.add_assoc _ _ _).symm
    | false => exact Nat.add_right_comm _ _ _

/-- The node hears of a packet only if it arrives and is not lost. -/
theorem arrives_of_told {now : Instant} (h : .event (.packet a) now ∈ s.told event) :
    (s.arrives event && !s.drawLoss.2) = true := by
  cases event with
  | packet source generation =>
    rw [told] at h
    split at h
    · cases h
    · next t ht =>
      split at h
      · cases h
      · next hlive =>
        rw [(arrives_iff_of_some ht).mpr hlive]
        split at h
        · cases h
        · next hkept =>
          rw [Bool.not_eq_true] at hkept
          rw [hkept]
          rfl
  | timer generation =>
    rw [told] at h
    split at h
    · cases h
    · cases List.mem_singleton.mp h
  | routeChange change route => cases List.mem_singleton.mp h
  | fetch observer => cases h
  | action action => cases h

end Simulation

end ObservableTree
