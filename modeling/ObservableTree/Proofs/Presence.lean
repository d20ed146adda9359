import ObservableTree.Proofs.Punctuality
import ObservableTree.Proofs.Staleness
import ObservableTree.Proofs.Untouched

/-!
# Live traffic keeps a neighbor in view

A neighbor is evicted only when its entry is stale. While it sends at intervals that the staleness
threshold covers, and nothing is lost, its next packet is always scheduled for an instant at which
the entry is not stale yet, and time does not pass that instant without the packet. Restarting its
traffic replaces that packet by one that comes at once.

* `NeighborTable.mem_entries_sweep_of_fresh`, `Resource.mem_tracked_react` — an entry that is not
  stale outlasts everything except a packet of its own neighbor, which renews it;
* `Simulation.traffic?_happen` — what an event does to the traffic of a neighbor;
* `Simulation.Attended` — the next packet of a neighbor comes before its entry is stale;
* `attended_of_packet`, `Attended.restart`, `Attended.handle` — by the next packet, by a restart,
  and by anything else;
* `Attended.obeyAll`, `traffic_keeps_tracked` — whatever is done.
-/

namespace ObservableTree

/-! ### Tables -/

namespace NeighborTable

variable {t : NeighborTable} {a : Address} {now : Instant} {e : Entry}

/-- A packet of another neighbor leaves an entry alone. -/
theorem mem_entries_observe_of_ne (he : e ∈ t.entries) (hne : e.address ≠ a) :
    e ∈ (t.observe a now).1.entries := by
  rcases observe_slots t a now with hsame | ⟨front, old, back, hslots, hold, hresult⟩
  · exact hsame.symm ▸ he
  · rw [mem_entries, hslots, List.mem_append, List.mem_cons] at he
    rw [mem_entries, hresult, List.mem_append, List.mem_cons]
    rcases he with hfront | hhere | hback
    · exact .inl hfront
    · exact absurd (hold e hhere.symm) hne
    · exact .inr (.inr hback)

/-- A packet of a tracked neighbor is never dropped. -/
theorem contains_observe (h : t.contains a = true) (now : Instant) :
    (t.observe a now).1.contains a = true := by
  obtain ⟨e, he, hea⟩ := contains_iff.mp h
  rcases observe_cases t a now with ⟨-, front, d, back, -, -, hresult⟩ | ⟨-, hunknown, -⟩ |
    ⟨-, hunknown, -⟩
  · refine contains_iff.mpr ⟨⟨a, now⟩, ?_, rfl⟩
    rw [mem_entries, hresult]
    exact List.mem_append_right _ List.mem_cons_self
  · exact absurd hea (hunknown e he)
  · exact absurd hea (hunknown e he)

/-- A neighbor that is tracked after its packet has an entry with the time of the packet. -/
theorem mem_entries_observe_self (h : (t.observe a now).1.contains a = true) :
    ⟨a, now⟩ ∈ (t.observe a now).1.entries := by
  rcases observe_cases t a now with ⟨-, front, d, back, -, -, hresult⟩ |
    ⟨-, -, front, back, -, hresult⟩ | ⟨-, hunknown, hsame⟩
  · rw [mem_entries, hresult]
    exact List.mem_append_right _ List.mem_cons_self
  · rw [mem_entries, hresult]
    exact List.mem_append_right _ List.mem_cons_self
  · rw [hsame] at h
    obtain ⟨e, he, hea⟩ := contains_iff.mp h
    exact absurd hea (hunknown e he)

/-- A sweep frees no slot whose entry is not stale. -/
theorem mem_entries_sweep_of_fresh {threshold : Span} (he : e ∈ t.entries)
    (hfresh : isStale now threshold e = false) : e ∈ (t.sweep now threshold).1.entries := by
  rcases sweep_slots t now threshold with ⟨hsame, -⟩ | ⟨front, d, back, hslots, hstale, -, hresult⟩
  · exact hsame.symm ▸ he
  · rw [mem_entries, hslots, List.mem_append, List.mem_cons] at he
    rw [mem_entries, hresult, List.mem_append, List.mem_cons]
    rcases he with hfront | hhere | hback
    · exact .inl hfront
    · rw [Option.some.inj hhere, hstale] at hfresh
      cases hfresh
    · exact .inr (.inr hback)

end NeighborTable

/-! ### The node -/

namespace Resource

open NeighborTable

variable {cfg : Settings} {r q : Resource cfg} {e : Entry}

theorem SettledAtMost.tracked (h : SettledAtMost r q) : q.tracked = r.tracked := by
  rcases h with rfl | rfl
  · rfl
  · rfl

theorem mem_entries_sweepPass_of_fresh {now : Instant} {l : SweepLoop}
    (he : e ∈ l.table.entries) (hfresh : isStale now cfg.staleness e = false) :
    e ∈ (sweepPass cfg now l).table.entries := by
  have hkept := mem_entries_sweep_of_fresh he hfresh
  unfold sweepPass
  split <;> next hswept => rwa [hswept] at hkept

/-- **One input** leaves an entry alone that is not stale, unless it renews the entry. -/
theorem mem_tracked_react {i : Input} (he : e ∈ r.tracked)
    (hfresh : i.now.millis ≤ e.lastSeen.millis + cfg.staleness.millis)
    (hother : ∀ now, i ≠ .event (.packet e.address) now) : e ∈ (r.react i).state.tracked := by
  cases i with
  | timer now =>
    obtain ⟨_, _, hkept, -⟩ := onTimer_induction r now
      (motive := fun l => e ∈ l.table.entries)
      (fun _ _ hl => mem_entries_sweepPass_of_fresh hl (not_isStale_iff.mpr hfresh)) he
    exact hkept
  | event event now =>
    cases event with
    | packet source =>
      refine mem_entries_observe_of_ne he fun hsame => hother now ?_
      rw [hsame]
    | routeChanged change route count =>
      have htable : (r.react (.event (.routeChanged change route count) now)).state.table =
          r.table := onChange_table r change route.destination now
      rw [tracked, htable]
      exact he

theorem mem_tracked_reactAll {is : List Input} (he : e ∈ r.tracked)
    (hfresh : ∀ i ∈ is, i.now.millis ≤ e.lastSeen.millis + cfg.staleness.millis)
    (hother : ∀ now, .event (.packet e.address) now ∉ is) : e ∈ (r.reactAll is).state.tracked := by
  induction is generalizing r with
  | nil => exact he
  | cons i is ih =>
    rw [reactAll, Reaction.andThen_state]
    have hone : e ∈ (r.react i).state.tracked :=
      mem_tracked_react he (hfresh i List.mem_cons_self) fun now hsame =>
        hother now (hsame ▸ List.mem_cons_self)
    exact ih hone (fun j hj => hfresh j (List.mem_cons_of_mem i hj))
      fun now hmore => hother now (List.mem_cons_of_mem i hmore)

end Resource

/-- A packet of traffic that goes on is not discarded. -/
theorem Traffic.not_stale {t : Traffic} (h : t.alive = true) :
    ¬(t.alive = false ∨ t.generation ≠ t.generation) := by
  rw [h]
  rintro (hfalse | hother)
  · cases hfalse
  · exact hother rfl

namespace Simulation

variable {cfg : Settings} {s s₀ : Simulation cfg} {stop : Instant} {event : Event} {a : Address}
  {t : Traffic} {seen : Instant}

/-! ### Traffic -/

theorem traffic?_setTraffic_self (s : Simulation cfg) (a : Address) (t : Traffic) :
    (s.setTraffic a t).traffic? a = some t := by
  simp only [traffic?, setTraffic, List.find?_cons, decide_true, Option.map_some]

theorem traffic?_setTraffic_of_ne {b : Address} (hne : b ≠ a) (t : Traffic) :
    (s.setTraffic b t).traffic? a = s.traffic? a := by
  simp only [traffic?, setTraffic, List.find?_cons, hne, decide_false, List.find?_filter]
  congr 2
  funext p
  simp only [decide_eq_true_eq, decide_eq_decide]
  refine ⟨And.right, fun hp => ⟨?_, hp⟩⟩
  rw [hp]
  exact hne.symm

/-- The traffic of a neighbor goes on as it is unless an action starts or stops it. -/
theorem traffic?_happen (hidle : s.Idle) (a : Address) (event : Event) :
    (s.happen event).traffic? a = s.traffic? a ∨
      (∃ interval, event = .action (.startTraffic a interval) ∧
        (s.happen event).traffic? a =
          some ⟨interval, true, ((s.traffic? a).map Traffic.generation).getD 0 + 1⟩) ∨
      (event = .action (.stopTraffic a) ∧
        (s.happen event).traffic? a = (s.traffic? a).map fun t => { t with alive := false }) := by
  rcases (happen_effect hidle event).traffic with ⟨action, rfl⟩ | hsame
  · cases action with
    | startTraffic b interval =>
      by_cases hba : b = a
      · subst hba
        exact .inr (.inl ⟨interval, rfl, traffic?_setTraffic_self _ _ _⟩)
      · exact .inl (traffic?_setTraffic_of_ne hba _)
    | stopTraffic b =>
      show (s.stopTraffic b).traffic? a = _ ∨ _
      rw [happen, execute, stopTraffic]
      cases hb : s.traffic? b with
      | none => exact .inl rfl
      | some t =>
        by_cases hba : b = a
        · subst hba
          refine .inr (.inr ⟨rfl, ?_⟩)
          rw [hb]
          exact traffic?_setTraffic_self _ _ _
        · exact .inl (traffic?_setTraffic_of_ne hba _)
    | removeRoute | clearParent =>
      refine .inl ?_
      unfold happen execute
      dsimp only
      split
      · rfl
      · rfl
    | addRoute | setParent | setPrefix | takeSnapshot => exact .inl rfl
  · refine .inl ?_
    rw [traffic?, hsame, traffic?]

theorem handle_traffic? (s : Simulation cfg) (event : Event) (a : Address) :
    (handle (s, event)).traffic? a = (s.happen event).traffic? a := by
  rw [traffic?, handle_traffic, traffic?]

/-- What the node hears of a neighbor is a packet of its present traffic. -/
theorem told_packet_iff {now : Instant} (hlossless : s.lossRate.isPositive = false) :
    .event (.packet a) now ∈ s.told event ↔
      now = s.now ∧ ∃ t, event = .packet a t.generation ∧ s.traffic? a = some t ∧ t.alive = true := by
  have hdrawn : s.drawLoss.2 = false := by rw [drawLoss_of_zero hlossless]
  constructor
  · intro h
    cases event with
    | packet source generation =>
      rw [told] at h
      split at h
      · cases h
      · next t ht =>
        split at h
        · cases h
        · next hlive =>
          rw [not_or, Bool.not_eq_false, Classical.not_not] at hlive
          rw [hdrawn, if_neg Bool.false_ne_true, List.mem_singleton] at h
          cases h
          exact ⟨rfl, t, by rw [hlive.2], ht, hlive.1⟩
    | timer generation =>
      rw [told] at h
      split at h
      · cases h
      · cases List.mem_singleton.mp h
    | routeChange change route => cases List.mem_singleton.mp h
    | fetch observer => cases h
    | action action => cases h
  · rintro ⟨rfl, t, rfl, ht, halive⟩
    rw [told, ht]
    dsimp only
    rw [if_neg (Traffic.not_stale halive), hdrawn, if_neg Bool.false_ne_true]
    exact List.mem_singleton_self _

theorem now_of_mem_told {i : Input} (h : i ∈ s.told event) : i.now = s.now := by
  rcases told_cases s event with htold | ⟨e, htold⟩ | ⟨-, htold⟩
  · rw [htold] at h
    cases h
  · rw [htold] at h
    rw [List.mem_singleton.mp h]
    rfl
  · rw [htold] at h
    rw [List.mem_singleton.mp h]
    rfl

/-! ### The next packet -/

/-- A neighbor sends, nothing is lost, it has an entry of an instant, and its next packet comes
before that entry is stale. -/
structure Attended (a : Address) (t : Traffic) (seen : Instant) (s : Simulation cfg) : Prop where
  lossless : s.lossRate.isPositive = false
  sending : s.traffic? a = some t
  alive : t.alive = true
  brisk : t.interval ≤ cfg.staleness
  tracked : ⟨a, seen⟩ ∈ s.node.resource.tracked
  next : ∃ e ∈ s.agenda.entries, e.event = .packet a t.generation ∧ s.now ≤ e.time ∧
    e.time.millis ≤ seen.millis + cfg.staleness.millis

/-- So the entry is not stale. -/
theorem Attended.fresh (h : Attended a t seen s) :
    s.now.millis ≤ seen.millis + cfg.staleness.millis := by
  obtain ⟨e, -, -, hahead, hsoon⟩ := h.next
  exact Nat.le_trans hahead hsoon

/-- A packet is recorded. -/
theorem handle_packet_tracked (hidle : s.Idle) (hlossless : s.lossRate.isPositive = false)
    (ht : s.traffic? a = some t) (halive : t.alive = true) :
    (Simulation.handle (s, .packet a t.generation)).node.resource.tracked =
      (s.node.resource.table.observe a s.now).1.entries := by
  have htold : s.told (.packet a t.generation) = [.event (.packet a) s.now] := by
    have hmem := (told_packet_iff hlossless).mpr ⟨rfl, t, rfl, ht, halive⟩
    rcases told_cases s (.packet a t.generation) with hnone | ⟨e, hone⟩ | ⟨-, htimer⟩
    · rw [hnone] at hmem
      cases hmem
    · rw [hone] at hmem ⊢
      rw [List.mem_singleton.mp hmem]
    · rw [htimer] at hmem
      cases List.mem_singleton.mp hmem
  rw [(handle_resource hidle).tracked, htold]
  rfl

/-- A packet that is recorded renews the entry, and the next one comes after an interval. -/
theorem attended_of_packet (hidle : s.Idle) (hlossless : s.lossRate.isPositive = false)
    (ht : s.traffic? a = some t) (halive : t.alive = true) (hbrisk : t.interval ≤ cfg.staleness)
    (hrecorded : (s.node.resource.table.observe a s.now).1.contains a = true) :
    Attended a t s.now (Simulation.handle (s, .packet a t.generation)) := by
  have hnews : s.news (.packet a t.generation) = [(s.now + t.interval, .packet a t.generation)] := by
    rw [news, ht]
    exact if_neg (Traffic.not_stale halive)
  refine ⟨?_, ?_, halive, hbrisk, ?_, ?_⟩
  · rw [handle_lossRate]
    exact hlossless
  · rw [handle_traffic?]
    rcases traffic?_happen hidle a (.packet a t.generation) with hsame | ⟨_, hstart, -⟩ | ⟨hend, -⟩
    · rw [hsame, ht]
    · cases hstart
    · cases hend
  · rw [handle_packet_tracked hidle hlossless ht halive]
    exact NeighborTable.mem_entries_observe_self hrecorded
  · refine ⟨⟨s.now + t.interval, s.nextNumber, .packet a t.generation⟩, ?_, rfl, ?_, ?_⟩
    · apply mem_handle_of_news hidle
      rw [hnews]
      exact List.mem_cons_self
    · rw [handle_now hidle]
      exact Resource.le_after s.now t.interval
    · exact Nat.le_trans (Resource.after_millis_le s.now t.interval)
        (Nat.add_le_add_left hbrisk s.now.millis)

/-- An event that the node does not hear as a packet of a neighbor leaves its entry alone. -/
theorem Attended.handle_tracked (h : Attended a t seen s) (hidle : s.Idle)
    (hother : event ≠ .packet a t.generation) :
    ⟨a, seen⟩ ∈ (handle (s, event)).node.resource.tracked := by
  rw [(handle_resource hidle).tracked]
  refine Resource.mem_tracked_reactAll h.tracked (fun i hi => ?_) fun now hheard => ?_
  · rw [now_of_mem_told hi]
    exact h.fresh
  · obtain ⟨-, t', hevent, ht', -⟩ := (told_packet_iff h.lossless).mp hheard
    rw [h.sending] at ht'
    cases ht'
    exact hother hevent

/-- A restart makes the next packet come at once. -/
theorem Attended.restart (h : Attended a t seen s) (hidle : s.Idle) {interval : Span}
    (hbrisk : interval ≤ cfg.staleness) :
    Attended a ⟨interval, true, t.generation + 1⟩ seen
      (Simulation.handle (s, .action (.startTraffic a interval))) := by
  refine ⟨?_, ?_, rfl, hbrisk, h.handle_tracked hidle nofun, ?_⟩
  · rw [handle_lossRate]
    exact h.lossless
  · rw [handle_traffic?]
    show ((s.setTraffic a _).schedule s.now _).traffic? a = _
    rw [h.sending]
    exact traffic?_setTraffic_self s a _
  · refine ⟨⟨s.now, s.nextNumber, .packet a (t.generation + 1)⟩, ?_, rfl, ?_, h.fresh⟩
    · apply mem_handle_of_news hidle
      rw [news, actionNews, h.sending]
      exact List.mem_cons_self
    · rw [handle_now hidle]
      exact Nat.le_refl _

/-- Anything else leaves the next packet where it is. -/
theorem Attended.handle (h : Attended a t seen s) (hidle : s.Idle)
    (hpacket : event ≠ .packet a t.generation)
    (hstart : ∀ interval, event ≠ .action (.startTraffic a interval))
    (hstop : event ≠ .action (.stopTraffic a)) : Attended a t seen (Simulation.handle (s, event)) := by
  refine ⟨?_, ?_, h.alive, h.brisk, h.handle_tracked hidle hpacket, ?_⟩
  · rw [handle_lossRate]
    exact h.lossless
  · rw [handle_traffic?]
    rcases traffic?_happen hidle a event with hsame | ⟨interval, hstarted, -⟩ | ⟨hstopped, -⟩
    · rw [hsame, h.sending]
    · exact absurd hstarted (hstart interval)
    · exact absurd hstopped hstop
  · obtain ⟨e, he, hevent, hahead, hsoon⟩ := h.next
    refine ⟨e, mem_handle hidle event he, hevent, ?_, hsoon⟩
    rw [handle_now hidle]
    exact hahead

/-! ### Whatever is done -/

/-- Time does not pass the next packet. -/
theorem Attended.due (h : Attended a t seen s) (hsorted : s.agenda.Sorted)
    (hdue : s.due? stop = some (s₀, event)) :
    event = .packet a t.generation ∨ Attended a t seen s₀ := by
  obtain ⟨time, number, rest, hentries, -, rfl⟩ := due?_eq_some_iff.mp hdue
  obtain ⟨e, he, hevent, hahead, hsoon⟩ := h.next
  have hfirst : time ≤ e.time := Agenda.le_of_sorted hsorted hentries he
  rw [hentries] at he
  rcases List.mem_cons.mp he with rfl | hrest
  · exact .inl hevent
  · refine .inr ?_
    have hnow := advance_millis { s with agenda := ⟨rest⟩ } time
    rw [advance_frame]
    refine ⟨h.lossless, h.sending, h.alive, h.brisk, h.tracked, e, hrest, hevent, ?_, hsoon⟩
    rw [Instant.le_iff] at hahead hfirst ⊢
    dsimp only at hnow ⊢
    omega

/-- When a run ends, the next packet is still to come. -/
theorem Attended.advance (h : Attended a t seen s) (hsorted : s.agenda.Sorted)
    (hnone : s.due? stop = none) : Attended a t seen (s.advance stop) := by
  obtain ⟨e, he, hevent, hahead, hsoon⟩ := h.next
  have hlater : stop < e.time := lt_of_due?_eq_none hsorted hnone he
  have hnow := advance_millis s stop
  rw [advance_frame]
  refine ⟨h.lossless, h.sending, h.alive, h.brisk, h.tracked, e, he, hevent, ?_, hsoon⟩
  rw [Instant.lt_iff] at hlater
  rw [Instant.le_iff] at hahead ⊢
  dsimp only at hnow ⊢
  omega

/-- The next packet of a neighbor that has an entry renews it. -/
theorem Attended.packet (h : Attended a t seen s) (hidle : s₀.Idle)
    (hdue : s.due? stop = some (s₀, .packet a t.generation)) :
    Attended a t s₀.now (Simulation.handle (s₀, .packet a t.generation)) := by
  obtain ⟨time, number, rest, -, -, hs₀⟩ := due?_eq_some_iff.mp hdue
  rw [advance_frame] at hs₀
  have hlossless : s₀.lossRate.isPositive = false := by
    rw [hs₀]
    exact h.lossless
  have ht : s₀.traffic? a = some t := by
    rw [hs₀]
    exact h.sending
  have hknown : s₀.node.resource.table.contains a = true := by
    rw [hs₀]
    exact NeighborTable.contains_iff.mpr ⟨_, h.tracked, rfl⟩
  exact attended_of_packet hidle hlossless ht h.alive h.brisk
    (NeighborTable.contains_observe hknown s₀.now)

/-- **One command** that does not stop the traffic of a neighbor, and does not slow it down too
much. -/
theorem Attended.obey (h : Attended a t seen s) (htime : s.OnTime) {c : Command} (hc : c.InTime)
    (hstarted : ∀ interval, .startTraffic a interval ∈ s.performedOn c → interval ≤ cfg.staleness)
    (hstopped : .stopTraffic a ∉ s.performedOn c) :
    ∃ t' seen', Attended a t' seen' (s.obey c) := by
  cases c with
  | action | fetch =>
    obtain ⟨e, he, hnext⟩ := h.next
    exact ⟨t, seen, h.lossless, h.sending, h.alive, h.brisk, h.tracked, e,
      Agenda.mem_insert_iff.mpr (.inr he), hnext⟩
  | observe =>
    exact ⟨t, seen, h.lossless, h.sending, h.alive, h.brisk, h.tracked, h.next⟩
  | turn stop =>
    cases hdue : s.due? stop with
    | none =>
      have hlater := h.advance htime.sorted hdue
      rw [obey_turn_of_none hdue]
      exact ⟨t, seen, hlater.lossless, hlater.sending, hlater.alive, hlater.brisk, hlater.tracked,
        hlater.next⟩
    | some x =>
      obtain ⟨s₀, event⟩ := x
      have hidle := (htime.due hc hdue).idle
      rw [obey_turn_of_some hdue]
      by_cases hpacket : event = .packet a t.generation
      · rw [hpacket] at hdue ⊢
        exact ⟨t, s₀.now, h.packet hidle hdue⟩
      · have h₀ := (h.due htime.sorted hdue).resolve_left hpacket
        by_cases hstart : ∃ interval, event = .action (.startTraffic a interval)
        · obtain ⟨interval, rfl⟩ := hstart
          exact ⟨_, seen, h₀.restart hidle (hstarted interval (mem_performedOn_turn hdue))⟩
        · have hgoing : event ≠ .action (.stopTraffic a) := by
            rintro rfl
            exact hstopped (mem_performedOn_turn hdue)
          exact ⟨t, seen, h₀.handle hidle hpacket (fun interval hsame => hstart ⟨interval, hsame⟩)
            hgoing⟩

/-- **Several commands.** -/
theorem Attended.obeyAll (hperiod : 0 < cfg.sweepPeriod.millis) (h : Attended a t seen s)
    (htime : s.OnTime) {cs : List Command} (hcs : ∀ k ∈ cs, k.InTime)
    (hstarted : ∀ interval, .startTraffic a interval ∈ s.performed cs → interval ≤ cfg.staleness)
    (hstopped : .stopTraffic a ∉ s.performed cs) :
    ∃ t' seen', Attended a t' seen' (s.obeyAll cs) := by
  induction cs generalizing s t seen with
  | nil => exact ⟨t, seen, h⟩
  | cons c cs ih =>
    have hc := hcs c List.mem_cons_self
    obtain ⟨t', seen', hnext⟩ := h.obey htime hc
      (fun interval hmem => hstarted interval (List.mem_append_left _ hmem))
      fun hmem => hstopped (List.mem_append_left _ hmem)
    exact ih hnext (htime.obey hperiod hc) (fun k hk => hcs k (List.mem_cons_of_mem c hk))
      (fun interval hmem => hstarted interval (List.mem_append_right _ hmem))
      fun hmem => hstopped (List.mem_append_right _ hmem)

/-! ### The first packet -/

/-- What a neighbor sends, the staleness threshold covers its interval. -/
def Brisk (a : Address) (s : Simulation cfg) : Prop :=
  ∀ t, s.traffic? a = some t → t.interval ≤ cfg.staleness

theorem Brisk.obey (h : Brisk a s) (htime : s.OnTime) {c : Command} (hc : c.InTime)
    (hstarted : ∀ interval, .startTraffic a interval ∈ s.performedOn c → interval ≤ cfg.staleness) :
    Brisk a (s.obey c) := by
  cases c with
  | action | fetch | observe => exact h
  | turn stop =>
    cases hdue : s.due? stop with
    | none =>
      rw [obey_turn_of_none hdue, advance_frame]
      exact h
    | some x =>
      obtain ⟨s₀, event⟩ := x
      have hidle := (htime.due hc hdue).idle
      have hsame₀ : s₀.traffic? a = s.traffic? a := by
        rw [traffic?, (due?_untouched hdue).2.2, traffic?]
      intro t ht
      rw [obey_turn_of_some hdue, handle_traffic?] at ht
      rcases traffic?_happen hidle a event with hsame | ⟨interval, rfl, hnew⟩ | ⟨-, hnew⟩
      · rw [hsame, hsame₀] at ht
        exact h t ht
      · rw [hnew] at ht
        cases ht
        exact hstarted interval (mem_performedOn_turn hdue)
      · rw [hnew, hsame₀, Option.map_eq_some_iff] at ht
        obtain ⟨t', ht', rfl⟩ := ht
        exact h t' ht'

theorem Brisk.obeyAll (hperiod : 0 < cfg.sweepPeriod.millis) (h : Brisk a s) (htime : s.OnTime)
    {cs : List Command} (hcs : ∀ k ∈ cs, k.InTime)
    (hstarted : ∀ interval, .startTraffic a interval ∈ s.performed cs → interval ≤ cfg.staleness) :
    Brisk a (s.obeyAll cs) := by
  induction cs generalizing s with
  | nil => exact h
  | cons c cs ih =>
    have hc := hcs c List.mem_cons_self
    have hnext := h.obey htime hc fun interval hmem =>
      hstarted interval (List.mem_append_left _ hmem)
    exact ih hnext (htime.obey hperiod hc) (fun k hk => hcs k (List.mem_cons_of_mem c hk))
      fun interval hmem => hstarted interval (List.mem_append_right _ hmem)

/-- A neighbor that is tracked after the node has heard its packet is attended to from then on. -/
theorem attended_of_heard (htime : s.OnTime) (hlossless : s.lossRate.isPositive = false)
    (hbrisk : Brisk a s) {c : Command} (hc : c.InTime) {now : Instant}
    (hheard : .event (.packet a) now ∈ s.heardOn c)
    (htracked : (s.obey c).node.resource.isReachable a = true) :
    ∃ t seen, Attended a t seen (s.obey c) := by
  cases c with
  | action | fetch | observe => cases hheard
  | turn stop =>
    cases hdue : s.due? stop with
    | none =>
      rw [heardOn, hdue] at hheard
      cases hheard
    | some x =>
      obtain ⟨s₀, event⟩ := x
      have hidle := (htime.due hc hdue).idle
      rw [← (due?_untouched hdue).1] at hlossless
      have hsame₀ : s₀.traffic? a = s.traffic? a := by
        rw [traffic?, (due?_untouched hdue).2.2, traffic?]
      rw [heardOn, hdue] at hheard
      obtain ⟨-, t, rfl, ht, halive⟩ := (told_packet_iff hlossless).mp hheard
      rw [obey_turn_of_some hdue] at htracked ⊢
      refine ⟨t, s₀.now, attended_of_packet hidle hlossless ht halive (hbrisk t ?_) ?_⟩
      · rw [← hsame₀, ht]
      · obtain ⟨e, he, hea⟩ := NeighborTable.contains_iff.mp htracked
        rw [← Resource.tracked, handle_packet_tracked hidle hlossless ht halive] at he
        exact NeighborTable.contains_iff.mpr ⟨e, he, hea⟩

/-- **Live traffic keeps a neighbor in view.** A scenario loses no packets. Commands are given to
its simulation in any order, among them turns of runs, and one of them makes the node hear a packet
of a neighbor, after which the neighbor is tracked. It is tracked from then on, whatever is done,
and its entry is never stale, as long as no action is carried out that stops its traffic, and
provided that the staleness threshold covers every interval with which its traffic is started. -/
theorem traffic_keeps_tracked (cfg : Settings) (hperiod : 0 < cfg.sweepPeriod.millis) (c : Scenario)
    (hlossless : c.lossRate.isPositive = false) (cs ds : List Command) (k : Command)
    (hcs : ∀ d ∈ cs ++ k :: ds, d.InTime) (a : Address) (now : Instant)
    (hheard : .event (.packet a) now ∈ ((c.build cfg).obeyAll cs).heardOn k)
    (htracked : ((c.build cfg).obeyAll (cs ++ [k])).node.resource.isReachable a = true)
    (hstarted : ∀ interval, .startTraffic a interval ∈ (c.build cfg).performed (cs ++ k :: ds) →
      interval ≤ cfg.staleness)
    (hstopped : .stopTraffic a ∉ ((c.build cfg).obeyAll (cs ++ [k])).performed ds) :
    let s := (c.build cfg).obeyAll (cs ++ k :: ds)
    s.node.resource.isReachable a = true ∧
      ∃ seen, ⟨a, seen⟩ ∈ s.node.resource.tracked ∧
        s.now.millis ≤ seen.millis + cfg.staleness.millis := by
  intro s
  have hparts := List.forall_mem_append.mp hcs
  have hk : k.InTime := hparts.2 k List.mem_cons_self
  have hds : ∀ d ∈ ds, d.InTime := fun d hd => hparts.2 d (List.mem_cons_of_mem k hd)
  have hperformed : (c.build cfg).performed (cs ++ k :: ds) =
      (c.build cfg).performed cs ++ (((c.build cfg).obeyAll cs).performedOn k ++
        ((c.build cfg).obeyAll (cs ++ [k])).performed ds) := by
    rw [performed_append, obeyAll_append]
    rfl
  have hall : s = ((c.build cfg).obeyAll (cs ++ [k])).obeyAll ds := by
    rw [← obeyAll_append, List.append_assoc, List.singleton_append]
  rw [hperformed] at hstarted
  -- up to the packet
  obtain ⟨hidle, hlossRate, -⟩ := build_untouched c cfg
  have hbuilt : (c.build cfg).OnTime := build_onTime hperiod c
  have hbefore : ((c.build cfg).obeyAll cs).OnTime := obeyAll_onTime hperiod hbuilt hparts.1
  have hbrisk : Brisk a ((c.build cfg).obeyAll cs) := by
    have hnone : Brisk a (c.build cfg) := by
      intro t ht
      rw [traffic?, hidle] at ht
      cases ht
    exact hnone.obeyAll hperiod hbuilt hparts.1 fun interval hmem =>
      hstarted interval (List.mem_append_left _ hmem)
  have hlossless₀ : ((c.build cfg).obeyAll cs).lossRate.isPositive = false := by
    have hsame : ((c.build cfg).obeyAll cs).lossRate = c.lossRate :=
      obeyAll_induction (fun s k h _ => (obey_lossRate s k).trans h) hlossRate
        fun k hk => hk
    rw [hsame]
    exact hlossless
  -- and after it
  rw [obeyAll_append] at htracked hall hstopped hstarted
  obtain ⟨t, seen, hfirst⟩ := attended_of_heard hbefore hlossless₀ hbrisk hk hheard htracked
  obtain ⟨t', seen', hlast⟩ := hfirst.obeyAll hperiod (hbefore.obey hperiod hk) hds
    (fun interval hmem =>
      hstarted interval (List.mem_append_right _ (List.mem_append_right _ hmem))) hstopped
  rw [hall]
  exact ⟨NeighborTable.contains_iff.mpr ⟨_, hlast.tracked, rfl⟩, seen', hlast.tracked, hlast.fresh⟩

/-- There is one slot, and another neighbor sends all the time. The traffic in view is restarted, a
route is added and an observer fetches. Sweeps and packets fall on the same instants. -/
theorem traffic_keeps_tracked_of_restart :
    let cfg : Settings := ⟨1, .ofMillis 2, .ofMillis 6, .ofMillis 3⟩
    let a : Address := .ofGroups 65152 0 0 0 0 0 0 1
    let b : Address := .ofGroups 65152 0 0 0 0 0 0 2
    let c : Scenario :=
      { Scenario.stock with
          observers := [64]
          actions := [(.boot, .startTraffic a (.ofMillis 6)), (.boot, .startTraffic b (.ofMillis 1)),
            (.ofMillis 7, .startTraffic a (.ofMillis 5)),
            (.ofMillis 8, .addRoute ⟨.ofGroups 8193 0 0 0 0 0 0 1, a⟩)] }
    let stop : Instant := .ofMillis 20
    let cs : List Command := [.turn stop, .turn stop]
    let ds : List Command := .fetch (.ofMillis 9) 0 :: List.replicate 40 (.turn stop)
    c.lossRate.isPositive = false ∧
      .event (.packet a) .boot ∈ ((c.build cfg).obeyAll cs).heardOn (.turn stop) ∧
      ((c.build cfg).obeyAll (cs ++ [.turn stop])).node.resource.isReachable a = true ∧
      (∀ interval, .startTraffic a interval ∈ (c.build cfg).performed (cs ++ .turn stop :: ds) →
        interval ≤ cfg.staleness) ∧
      .stopTraffic a ∉ ((c.build cfg).obeyAll (cs ++ [.turn stop])).performed ds ∧
      let s := (c.build cfg).obeyAll (cs ++ .turn stop :: ds)
      s.now = stop ∧ s.node.resource.isReachable a = true ∧
        ∃ seen, ⟨a, seen⟩ ∈ s.node.resource.tracked ∧
          s.now.millis ≤ seen.millis + cfg.staleness.millis := by
  intro cfg a b c stop cs ds
  have hperiod : 0 < cfg.sweepPeriod.millis := by decide
  have hstop : stop < .last := by decide
  have hcs : ∀ d ∈ cs ++ .turn stop :: ds, d.InTime := by
    intro d hd
    rcases List.mem_append.mp hd with hbefore | hafter
    · rw [List.mem_cons, List.mem_singleton, or_self] at hbefore
      rw [hbefore]
      exact hstop
    · rw [List.mem_cons, List.mem_cons] at hafter
      rcases hafter with rfl | rfl | hturn
      · exact hstop
      · trivial
      · exact (Command.of_mem_turns hstop hturn).1
  have hheard : .event (.packet a) .boot ∈ ((c.build cfg).obeyAll cs).heardOn (.turn stop) := by
    decide +kernel
  have htracked : ((c.build cfg).obeyAll (cs ++ [.turn stop])).node.resource.isReachable a = true := by
    decide +kernel
  have hperformed : (c.build cfg).performed (cs ++ .turn stop :: ds) =
      [.startTraffic a (.ofMillis 6), .startTraffic b (.ofMillis 1),
        .startTraffic a (.ofMillis 5), .addRoute ⟨.ofGroups 8193 0 0 0 0 0 0 1, a⟩] := by
    decide +kernel
  have hstarted : ∀ interval, .startTraffic a interval ∈
      (c.build cfg).performed (cs ++ .turn stop :: ds) → interval ≤ cfg.staleness := by
    intro interval hmem
    rw [hperformed, List.mem_cons, List.mem_cons, List.mem_cons, List.mem_singleton] at hmem
    rcases hmem with hfirst | hother | hagain | hroute
    · rw [(Action.startTraffic.inj hfirst).2]
      decide
    · rw [(Action.startTraffic.inj hother).2]
      decide
    · rw [(Action.startTraffic.inj hagain).2]
      decide
    · cases hroute
  have hstopped : .stopTraffic a ∉
      ((c.build cfg).obeyAll (cs ++ [.turn stop])).performed ds := by
    decide +kernel
  have hend : ((c.build cfg).obeyAll (cs ++ .turn stop :: ds)).now = stop := by
    decide +kernel
  exact ⟨rfl, hheard, htracked, hstarted, hstopped, hend,
    traffic_keeps_tracked cfg hperiod c rfl cs ds (.turn stop) hcs a .boot hheard htracked hstarted
      hstopped⟩

end Simulation

end ObservableTree
