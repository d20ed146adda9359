import ObservableTree.Proofs.Arrivals
import ObservableTree.Proofs.Completion

/-!
# One chain of packets for each neighbor

Every start of a neighbor's traffic begins another session with a packet of its own, and each packet
that arrives is followed by the next one. What is left of earlier sessions is discarded when it is due.
So one session is one chain of packets, whatever else is on the agenda:

* `Action.starts`, `Action.steers` — the actions that begin a session, and those that end one;
* `Simulation.Chained` — at most one packet of the latest session is on the agenda, and one is there
  while it goes on; `Chained.obey` — so it stays, as long as the generations do not wrap;
* `packetsFrom` — the packets of a neighbor that are delivered or lost in the course of some commands;
* `Session` — the next packet of a session is due a whole number of intervals after the start;
  `Session.packet`, `Session.other`, `Session.obeyAll` — so it stays, and every packet is counted;
* `Session.count_eq` — so the time that has passed tells how many there were;
* `packets_in_one_chain` — both, from a scenario on.
-/

namespace ObservableTree

/-! ### Actions -/

/-- Whether an action starts the traffic of a neighbor. -/
def Action.starts (a : Address) : Action → Bool
  | .startTraffic neighbor _ => decide (neighbor = a)
  | _ => false

/-- Whether an action starts or stops the traffic of a neighbor. -/
def Action.steers (a : Address) : Action → Bool
  | .startTraffic neighbor _ => decide (neighbor = a)
  | .stopTraffic neighbor => decide (neighbor = a)
  | _ => false

theorem Action.starts_eq_true_iff {a : Address} {action : Action} :
    action.starts a = true ↔ ∃ interval, action = .startTraffic a interval := by
  cases action with
  | startTraffic neighbor interval =>
    simp only [starts, decide_eq_true_eq, startTraffic.injEq]
    exact ⟨fun h => ⟨interval, h, rfl⟩, fun ⟨_, h, _⟩ => h⟩
  | _ => simp [starts]

/-- Whether an event is an action that starts the traffic of a neighbor. -/
def Event.starts (a : Address) : Event → Bool
  | .action x => x.starts a
  | _ => false

theorem Event.starts_eq_true_iff {a : Address} {event : Event} :
    event.starts a = true ↔ ∃ interval, event = .action (.startTraffic a interval) := by
  cases event with
  | action action => simp only [starts, Action.starts_eq_true_iff, Event.action.injEq]
  | _ => simp [starts]

theorem Action.not_starts_of_not_steers {a : Address} {action : Action}
    (h : action.steers a = false) : action.starts a = false := by
  cases action with
  | startTraffic => exact h
  | _ => rfl

namespace Simulation

variable {cfg : Settings} {s s₀ s' last : Simulation cfg} {event : Event} {stop : Instant} {a : Address}
  {g : UInt32} {interval : Span} {starts count turns : Nat} {t₀ : Instant}

/-- The times that a neighbor's traffic is started on a command. -/
def startsOn (s : Simulation cfg) (a : Address) (c : Command) : Nat :=
  (s.performedOn c).countP (Action.starts a)

theorem startsOn_of_due (hdue : s.due? stop = some (s₀, event)) :
    s.startsOn a (.turn stop) = if event.starts a then 1 else 0 := by
  rw [startsOn, performedOn, hdue]
  cases event with
  | action action => exact List.countP_singleton
  | packet | routeChange | timer | fetch => rfl

/-! ### The latest session -/

/-- The packets of a neighbor whose traffic has been started so many times. -/
structure Chained (a : Address) (starts : Nat) (s : Simulation cfg) : Prop where
  started : (s.latestGeneration a).toNat = starts
  known : ∀ g, 0 < s.queued (.packet a g) → 0 < g.toNat ∧ g.toNat ≤ starts
  single : s.queued (.packet a (s.latestGeneration a)) ≤ 1
  alive : s.isAlive a = true → s.queued (.packet a (s.latestGeneration a)) = 1

theorem Chained.of_same (h : s.Chained a starts) (htraffic : s'.traffic? a = s.traffic? a)
    (hqueued : ∀ g, s'.queued (.packet a g) = s.queued (.packet a g)) : s'.Chained a starts := by
  have hlatest : s'.latestGeneration a = s.latestGeneration a := by
    rw [latestGeneration, htraffic, latestGeneration]
  refine ⟨hlatest ▸ h.started, fun g hg => h.known g (hqueued g ▸ hg), ?_, fun halive => ?_⟩
  · rw [hlatest, hqueued]
    exact h.single
  · rw [isAlive, htraffic] at halive
    rw [hlatest, hqueued]
    exact h.alive halive

/-- The next generation has the next number, up to the largest one. -/
theorem toNat_next (h : g.toNat + 1 < UInt32.size) : (g + 1).toNat = g.toNat + 1 := by
  rw [UInt32.toNat_add]
  exact Nat.mod_eq_of_lt h

theorem traffic?_start (s : Simulation cfg) (a : Address) (interval : Span) :
    (handle (s, .action (.startTraffic a interval))).traffic? a =
      some ⟨interval, true, s.latestGeneration a + 1⟩ := by
  rw [handle_traffic?]
  exact traffic?_setTraffic_self _ _ _

theorem latestGeneration_due (hdue : s.due? stop = some (s₀, event)) :
    s₀.latestGeneration a = s.latestGeneration a := by
  rw [latestGeneration, traffic?_due hdue, latestGeneration]

/-- A start puts one packet of the next generation on the agenda. -/
theorem queued_start (hidle : s.Idle)
    (hdue : s.due? stop = some (s₀, .action (.startTraffic a interval))) (g : UInt32) :
    (handle (s₀, .action (.startTraffic a interval))).queued (.packet a g) =
      s.queued (.packet a g) + if s.latestGeneration a + 1 = g then 1 else 0 := by
  rw [handle_queued (hidle.due hdue) _ (.packet a g) nofun, queued_due hdue, if_neg nofun,
    Nat.add_zero, countP_news_start, latestGeneration_due hdue]

/-- **A start** begins a chain of its own: no packet of the next generation is on the agenda yet. -/
theorem Chained.start (h : s.Chained a starts) (hidle : s.Idle)
    (hdue : s.due? stop = some (s₀, .action (.startTraffic a interval)))
    (hbound : starts + 1 < UInt32.size) :
    (handle (s₀, .action (.startTraffic a interval))).Chained a (starts + 1) := by
  have htraffic := traffic?_start s₀ a interval
  have hqueued := queued_start hidle hdue
  have hnumber : (s.latestGeneration a + 1).toNat = starts + 1 := by
    rw [← h.started] at hbound ⊢
    exact toNat_next hbound
  rw [latestGeneration_due hdue] at htraffic
  have hnone : s.queued (.packet a (s.latestGeneration a + 1)) = 0 := by
    by_contra hsome
    have hknown := h.known _ (Nat.pos_of_ne_zero hsome)
    omega
  have hlatest : (handle (s₀, .action (.startTraffic a interval))).latestGeneration a =
      s.latestGeneration a + 1 := by rw [latestGeneration, htraffic]; rfl
  have hone : (handle (s₀, .action (.startTraffic a interval))).queued
      (.packet a (s.latestGeneration a + 1)) = 1 := by rw [hqueued, hnone, if_pos rfl]
  refine ⟨hlatest ▸ hnumber, fun g hg => ?_, ?_, fun _ => ?_⟩
  · rw [hqueued] at hg
    by_cases hnew : s.latestGeneration a + 1 = g
    · rw [← hnew, hnumber]
      omega
    · rw [if_neg hnew] at hg
      have hknown := h.known g hg
      omega
  · rw [hlatest]
    exact Nat.le_of_eq hone
  · rw [hlatest, hone]

/-- Whatever else happens, the latest session of a neighbor is the same, and it does not begin to
live again. -/
theorem latest_of_other (hidle : s.Idle)
    (hother : ∀ interval, event ≠ .action (.startTraffic a interval)) :
    (handle (s, event)).latestGeneration a = s.latestGeneration a ∧
      ((handle (s, event)).isAlive a = true → s.isAlive a = true) := by
  rw [latestGeneration, latestGeneration, isAlive, isAlive, handle_traffic?]
  rcases traffic?_happen hidle a event with hsame | ⟨interval, hstart, -⟩ | ⟨-, hstop⟩
  · rw [hsame]
    exact ⟨rfl, id⟩
  · exact absurd hstart (hother interval)
  · rw [hstop]
    cases s.traffic? a with
    | none => exact ⟨rfl, id⟩
    | some t => exact ⟨rfl, nofun⟩

/-- Whatever else happens, no packet of a neighbor comes in addition, and none is missing but one that
was due and has not arrived. -/
theorem queued_of_other (hidle : s.Idle) (hdue : s.due? stop = some (s₀, event))
    (hother : ∀ interval, event ≠ .action (.startTraffic a interval)) (g : UInt32) :
    (handle (s₀, event)).queued (.packet a g) ≤ s.queued (.packet a g) ∧
      ((event = .packet a g → s₀.arrives event = true) →
        (handle (s₀, event)).queued (.packet a g) = s.queued (.packet a g)) := by
  rw [handle_queued (hidle.due hdue) _ (.packet a g) nofun, queued_due hdue]
  by_cases hpacket : event = .packet a g
  · subst hpacket
    rw [countP_news_packet, if_pos rfl]
    refine ⟨?_, fun harrives => ?_⟩
    · split
      · exact Nat.le_refl _
      · exact Nat.le_succ _
    · rw [if_pos (harrives rfl)]
  · rw [countP_news_other hpacket hother, if_neg hpacket]
    exact ⟨Nat.le_refl _, fun _ => rfl⟩

/-- **Another event**: a packet of the latest session is followed by one if it arrives. -/
theorem Chained.other (h : s.Chained a starts) (hidle : s.Idle)
    (hdue : s.due? stop = some (s₀, event))
    (hother : ∀ interval, event ≠ .action (.startTraffic a interval)) :
    (handle (s₀, event)).Chained a starts := by
  obtain ⟨hlatest, halive⟩ := latest_of_other (hidle.due hdue) hother
  have hsame := latestGeneration_due (a := a) hdue
  have hqueued := queued_of_other hidle hdue hother
  rw [hsame] at hlatest
  refine ⟨hlatest ▸ h.started, fun g hg => h.known g (Nat.lt_of_lt_of_le hg (hqueued g).1), ?_,
    fun hlive => ?_⟩
  · rw [hlatest]
    exact Nat.le_trans (hqueued _).1 h.single
  · have hlive₀ := halive hlive
    rw [hlatest, (hqueued _).2, h.alive]
    · rw [isAlive, ← traffic?_due hdue]
      exact hlive₀
    · -- the session goes on, so a packet of it arrives
      rintro rfl
      obtain ⟨t, ht, hgoes⟩ := Option.any_eq_true _ _ |>.mp hlive₀
      refine arrives_packet_iff.mpr ⟨t, ht, hgoes, ?_⟩
      rw [← hsame, latestGeneration, ht]
      rfl

/-- What is put on the agenda from outside is no packet. -/
theorem Chained.schedule (h : s.Chained a starts) {time : Instant}
    (hevent : ∀ g, event ≠ .packet a g) : (s.schedule time event).Chained a starts := by
  refine h.of_same rfl fun g => ?_
  rw [queued_schedule, if_neg (hevent g), Nat.add_zero]

/-- **One command.** -/
theorem Chained.obey (h : s.Chained a starts) (hidle : s.Idle) {c : Command}
    (hbound : starts + s.startsOn a c < UInt32.size) :
    (s.obey c).Chained a (starts + s.startsOn a c) := by
  cases c with
  | action | fetch => exact h.schedule fun g hevent => Event.noConfusion hevent
  | observe blockSize => exact h.of_same rfl fun g => rfl
  | turn stop =>
    cases hdue : s.due? stop with
    | none =>
      have hnone : s.startsOn a (.turn stop) = 0 := by rw [startsOn, performedOn, hdue]; rfl
      rw [obey_turn_of_none hdue, hnone, advance_frame]
      exact h.of_same rfl fun g => rfl
    | some x =>
      obtain ⟨s₀, event⟩ := x
      rw [startsOn_of_due hdue] at hbound ⊢
      rw [obey_turn_of_some hdue]
      by_cases hstart : event.starts a = true
      · rw [if_pos hstart] at hbound ⊢
        obtain ⟨interval, rfl⟩ := Event.starts_eq_true_iff.mp hstart
        exact h.start hidle hdue hbound
      · rw [if_neg hstart]
        exact h.other hidle hdue fun interval hevent =>
          hstart (Event.starts_eq_true_iff.mpr ⟨interval, hevent⟩)

/-- **Several commands**, as long as the generations do not wrap. -/
theorem Chained.obeyAll (h : s.Chained a starts) (hidle : s.Idle) {cs : List Command}
    (hbound : starts + (s.performed cs).countP (Action.starts a) < UInt32.size) :
    (s.obeyAll cs).Chained a (starts + (s.performed cs).countP (Action.starts a)) := by
  induction cs generalizing s starts with
  | nil => exact h
  | cons c cs ih =>
    have hsplit : (s.performed (c :: cs)).countP (Action.starts a) =
        s.startsOn a c + ((s.obey c).performed cs).countP (Action.starts a) := List.countP_append
    rw [hsplit, ← Nat.add_assoc] at hbound ⊢
    exact ih (h.obey hidle (by omega)) (hidle.obey c) hbound

theorem build_chained (c : Scenario) (cfg : Settings) (a : Address) : (c.build cfg).Chained a 0 := by
  have hstart : (c.start cfg).Idle ∧ (c.start cfg).Chained a 0 := by
    have hseed : (ofSeed cfg c.seed).Chained a 0 := by
      refine ⟨rfl, fun g hg => ?_, Nat.zero_le _, nofun⟩
      obtain ⟨e, he, hevent⟩ := queued_pos_iff.mp hg
      cases List.mem_singleton.mp he
      cases hevent
    rw [Scenario.start]
    cases c.snapshotInterval with
    | none => exact ⟨⟨rfl, rfl⟩, hseed.of_same rfl fun g => rfl⟩
    | some interval => exact ⟨⟨rfl, rfl⟩, hseed.of_same rfl fun g => rfl⟩
  have hstep : ∀ (s : Simulation cfg) (k : Command), s.Idle ∧ s.Chained a 0 → k ∈ c.commands →
      (s.obey k).Idle ∧ (s.obey k).Chained a 0 := by
    rintro s k ⟨hidle, h⟩ hk
    refine ⟨hidle.obey k, ?_⟩
    have hnone : s.startsOn a k = 0 := by
      rcases Scenario.mem_commands hk with rfl | ⟨blockSize, rfl⟩ | ⟨x, -, rfl⟩
      all_goals rfl
    have hnext := h.obey (c := k) hidle (by rw [hnone]; decide)
    rwa [hnone] at hnext
  rw [Scenario.build_eq]
  exact (obeyAll_induction hstep hstart fun _ hk => hk).2

/-! ### The packets of a session -/

/-- The packets of a neighbor that are delivered or lost on a command: so much the counters go up when
one of its packets is due. -/
def packetsOn (s : Simulation cfg) (a : Address) : Command → Nat
  | .turn stop =>
    match s.due? stop with
    | some (s₀, .packet source generation) =>
      if source = a then (handle (s₀, .packet source generation)).packetsMet - s₀.packetsMet else 0
    | _ => 0
  | _ => 0

/-- The packets of a neighbor that are delivered or lost in the course of some commands. -/
def packetsFrom (s : Simulation cfg) (a : Address) : List Command → Nat
  | [] => 0
  | c :: cs => s.packetsOn a c + (s.obey c).packetsFrom a cs

theorem packetsOn_of_packet (hdue : s.due? stop = some (s₀, .packet a g)) :
    s.packetsOn a (.turn stop) = if s₀.arrives (.packet a g) then 1 else 0 := by
  rw [packetsOn, hdue]
  dsimp only
  rw [if_pos rfl, (handle_draws s₀ _).packetsMet, Nat.add_sub_cancel_left]

theorem packetsOn_of_other (hdue : s.due? stop = some (s₀, event)) (hother : ∀ g, event ≠ .packet a g) :
    s.packetsOn a (.turn stop) = 0 := by
  rw [packetsOn, hdue]
  cases event with
  | packet source generation =>
    refine if_neg fun hsource => ?_
    subst hsource
    exact hother generation rfl
  | routeChange | timer | fetch | action => rfl

/-- A session of a neighbor goes on that began at an instant. So many of its packets have been delivered
or lost, and the next one is due as many intervals after the start, or at the last instant. -/
structure Session (a : Address) (g : UInt32) (interval : Span) (t₀ : Instant) (count : Nat)
    (s : Simulation cfg) : Prop where
  goes : s.traffic? a = some ⟨interval, true, g⟩
  next : ∃ e ∈ s.agenda.entries, e.event = .packet a g ∧ s.now ≤ e.time ∧
    e.time.millis = min (t₀.millis + count * interval.millis) lastMilli
  begun : t₀ ≤ s.now
  reached : ∀ k, count = k + 1 → min (t₀.millis + k * interval.millis) lastMilli ≤ s.now.millis

/-- A session begins with a packet at once. -/
theorem Session.start (hidle : s.Idle)
    (hdue : s.due? stop = some (s₀, .action (.startTraffic a interval))) :
    ∃ g, (s.obey (.turn stop)).Session a g interval (s.obey (.turn stop)).now 0 := by
  have hidle₀ := hidle.due hdue
  rw [obey_turn_of_some hdue]
  have hnow : (handle (s₀, .action (.startTraffic a interval))).now = s₀.now := handle_now hidle₀ _
  have hpacket : ⟨s₀.now, s₀.nextNumber, .packet a (s₀.latestGeneration a + 1)⟩ ∈
      (handle (s₀, .action (.startTraffic a interval))).agenda.entries :=
    mem_handle_of_news hidle₀ List.mem_cons_self
  refine ⟨s₀.latestGeneration a + 1, traffic?_start s₀ a interval, ⟨_, hpacket, rfl, ?_, ?_⟩, ?_, nofun⟩
  · exact Nat.le_of_eq (congrArg Instant.millis hnow)
  · have hbounded := s₀.now.bounded
    rw [hnow]
    dsimp only
    omega
  · exact Nat.le_refl _

/-- What is due next is not due after the next packet of the session. -/
theorem Session.now_le (h : s.Session a g interval t₀ count) (hsorted : s.agenda.Sorted)
    (hdue : s.due? stop = some (s₀, event)) : s.now ≤ s₀.now ∧
      ∃ e ∈ s.agenda.entries, e.event = .packet a g ∧ s₀.now ≤ e.time ∧
        e.time.millis = min (t₀.millis + count * interval.millis) lastMilli := by
  obtain ⟨e, he, hevent, hnow, htime⟩ := h.next
  obtain ⟨time, number, rest, hentries, -, rfl⟩ := due?_eq_some_iff.mp hdue
  have hfirst := Agenda.le_of_sorted hsorted hentries he
  have hmillis := advance_millis { s with agenda := ⟨rest⟩ } time
  simp only [Instant.le_iff] at hfirst hnow ⊢
  dsimp only at hfirst hmillis
  refine ⟨by omega, e, he, hevent, by omega, htime⟩

/-- The packet of a session that comes is the one that the session tells of, if there is only one. -/
theorem Session.due_millis (h : s.Session a g interval t₀ count) (hsingle : s.queued (.packet a g) ≤ 1)
    (hdue : s.due? stop = some (s₀, .packet a g)) :
    s₀.now.millis = min (t₀.millis + count * interval.millis) lastMilli := by
  obtain ⟨e, he, hevent, hnow, htime⟩ := h.next
  have htaken := queued_due hdue (.packet a g)
  obtain ⟨time, number, rest, hentries, -, rfl⟩ := due?_eq_some_iff.mp hdue
  have hmillis := advance_millis { s with agenda := ⟨rest⟩ } time
  have hone : e = ⟨time, number, .packet a g⟩ := by
    rw [hentries] at he
    refine (List.mem_cons.mp he).resolve_right fun hrest => ?_
    have hmore : 0 < ({ s with agenda := ⟨rest⟩ }.advance time).queued (.packet a g) := by
      rw [advance_frame]
      exact queued_pos_iff.mpr ⟨e, hrest, hevent⟩
    rw [if_pos rfl] at htaken
    omega
  subst hone
  simp only [Instant.le_iff] at hnow
  dsimp only at hmillis hnow htime
  omega

/-- **A packet of the session**: it arrives, and the next one is due an interval later. -/
theorem Session.packet (h : s.Session a g interval t₀ count) (hidle : s.Idle)
    (hsorted : s.agenda.Sorted) (hsingle : s.queued (.packet a g) ≤ 1)
    (hdue : s.due? stop = some (s₀, .packet a g)) :
    (handle (s₀, .packet a g)).Session a g interval t₀ (count + 1) := by
  have hidle₀ := hidle.due hdue
  have htraffic : s₀.traffic? a = some ⟨interval, true, g⟩ := (traffic?_due hdue a).trans h.goes
  have hnow : (handle (s₀, .packet a g)).now = s₀.now := handle_now hidle₀ _
  obtain ⟨hlater, -⟩ := h.now_le hsorted hdue
  have hplace := h.due_millis hsingle hdue
  have hpacket : ⟨s₀.now + interval, s₀.nextNumber, .packet a g⟩ ∈
      (handle (s₀, .packet a g)).agenda.entries := by
    refine mem_handle_of_news hidle₀ ?_
    rw [news_of_arrives htraffic rfl]
    exact List.mem_cons_self
  have hsucc : (count + 1) * interval.millis = count * interval.millis + interval.millis :=
    Nat.succ_mul _ _
  refine ⟨?_, ⟨_, hpacket, rfl, ?_, ?_⟩, ?_, fun k hk => ?_⟩
  · rw [handle_traffic?]
    rcases traffic?_happen hidle₀ a (.packet a g) with hsame | ⟨_, hstart, -⟩ | ⟨hstop, -⟩
    · rw [hsame, htraffic]
    · cases hstart
    · cases hstop
  · have hbounded := s₀.now.bounded
    rw [hnow, Instant.le_iff, Instant.after_millis]
    omega
  · rw [Instant.after_millis, hplace, hsucc]
    omega
  · rw [hnow]
    exact Nat.le_trans h.begun hlater
  · cases Nat.succ.inj hk
    rw [hnow]
    exact Nat.le_of_eq hplace.symm

/-- **Another event** leaves the session alone. -/
theorem Session.other (h : s.Session a g interval t₀ count) (hidle : s.Idle)
    (hsorted : s.agenda.Sorted) (hdue : s.due? stop = some (s₀, event)) (hother : event ≠ .packet a g)
    (hsteers : ∀ action, event = .action action → action.steers a = false) :
    (handle (s₀, event)).Session a g interval t₀ count := by
  have hidle₀ := hidle.due hdue
  have hnow : (handle (s₀, event)).now = s₀.now := handle_now hidle₀ _
  obtain ⟨hlater, e, he, hevent, hsooner, htime⟩ := h.now_le hsorted hdue
  have hkept : e ∈ s₀.agenda.entries := by
    obtain ⟨time, number, rest, hentries, -, rfl⟩ := due?_eq_some_iff.mp hdue
    rw [advance_frame]
    rw [hentries] at he
    refine (List.mem_cons.mp he).resolve_left fun hfirst => hother ?_
    rw [← hevent, hfirst]
  refine ⟨?_, ⟨e, mem_handle hidle₀ event hkept, hevent, hnow ▸ hsooner, htime⟩, ?_, fun k hk => ?_⟩
  · rw [handle_traffic?, ← h.goes, ← traffic?_due hdue]
    rcases traffic?_happen hidle₀ a event with hsame | ⟨_, hstart, -⟩ | ⟨hstop, -⟩
    · exact hsame
    · have hfalse := hsteers _ hstart
      simp [Action.steers] at hfalse
    · have hfalse := hsteers _ hstop
      simp [Action.steers] at hfalse
  · rw [hnow]
    exact Nat.le_trans h.begun hlater
  · rw [hnow]
    exact Nat.le_trans (h.reached k hk) hlater

/-- A packet of an earlier session does not arrive. -/
theorem Session.packetsOn_other (h : s.Session a g interval t₀ count)
    (hdue : s.due? stop = some (s₀, event)) (hother : event ≠ .packet a g) :
    s.packetsOn a (.turn stop) = 0 := by
  by_cases hpacket : ∃ g', event = .packet a g'
  · obtain ⟨g', rfl⟩ := hpacket
    rw [packetsOn_of_packet hdue, if_neg]
    intro harrives
    obtain ⟨t, ht, -, hgeneration⟩ := arrives_packet_iff.mp harrives
    rw [traffic?_due hdue, h.goes] at ht
    cases ht
    exact hother (congrArg (Event.packet a) hgeneration.symm)
  · exact packetsOn_of_other hdue fun g' hevent => hpacket ⟨g', hevent⟩

theorem Session.latest (h : s.Session a g interval t₀ count) : s.latestGeneration a = g := by
  rw [latestGeneration, h.goes]
  rfl

/-- Time may move on to an instant up to which nothing is due. -/
theorem Session.advance (h : s.Session a g interval t₀ count) (hsorted : s.agenda.Sorted)
    (hnone : s.due? stop = none) : (s.advance stop).takeSnapshot.Session a g interval t₀ count := by
  obtain ⟨e, he, hevent, hnow, htime⟩ := h.next
  have hlater := lt_of_due?_eq_none hsorted hnone he
  have hmillis := advance_millis s stop
  have hbegun := h.begun
  simp only [Instant.le_iff, Instant.lt_iff] at hnow hlater hbegun
  rw [advance_frame]
  refine ⟨h.goes, ⟨e, he, hevent, ?_, htime⟩, ?_, fun k hk => ?_⟩
  · show (s.advance stop).now.millis ≤ e.time.millis
    omega
  · show t₀.millis ≤ (s.advance stop).now.millis
    omega
  · have hreached := h.reached k hk
    show _ ≤ (s.advance stop).now.millis
    omega

/-- **One command** on which the session is not ended: its packets are counted. -/
theorem Session.obey (h : s.Session a g interval t₀ count) (hchained : s.Chained a starts)
    (hidle : s.Idle) (hsorted : s.agenda.Sorted) {c : Command}
    (hsteers : ∀ action ∈ s.performedOn c, action.steers a = false) :
    (s.obey c).Session a g interval t₀ (count + s.packetsOn a c) := by
  have hscheduled : ∀ time event, (s.schedule time event).Session a g interval t₀ count := by
    intro time event
    obtain ⟨e, he, hnext⟩ := h.next
    exact ⟨h.goes, ⟨e, Agenda.mem_insert_iff.mpr (.inr he), hnext⟩, h.begun, h.reached⟩
  cases c with
  | action | fetch => exact hscheduled _ _
  | observe => exact ⟨h.goes, h.next, h.begun, h.reached⟩
  | turn stop =>
    cases hdue : s.due? stop with
    | none =>
      have hquiet : s.packetsOn a (.turn stop) = 0 := by rw [packetsOn, hdue]
      rw [obey_turn_of_none hdue, hquiet]
      exact h.advance hsorted hdue
    | some x =>
      obtain ⟨s₀, event⟩ := x
      rw [obey_turn_of_some hdue]
      by_cases hpacket : event = .packet a g
      · subst hpacket
        have harrives : s₀.arrives (.packet a g) = true :=
          arrives_packet_iff.mpr ⟨_, (traffic?_due hdue a).trans h.goes, rfl, rfl⟩
        rw [packetsOn_of_packet hdue, if_pos harrives]
        exact h.packet hidle hsorted (h.latest ▸ hchained.single) hdue
      · rw [h.packetsOn_other hdue hpacket]
        refine h.other hidle hsorted hdue hpacket fun action hevent => ?_
        subst hevent
        exact hsteers action (mem_performedOn_turn hdue)

/-- **Several commands** in the course of which the session is not ended. -/
theorem Session.obeyAll (h : s.Session a g interval t₀ count) (hchained : s.Chained a starts)
    (hbound : starts < UInt32.size) (hidle : s.Idle) (hsorted : s.agenda.Sorted) {cs : List Command}
    (hsteers : ∀ action ∈ s.performed cs, action.steers a = false) :
    (s.obeyAll cs).Session a g interval t₀ (count + s.packetsFrom a cs) := by
  induction cs generalizing s count with
  | nil => exact h
  | cons c cs ih =>
    have hfirst : ∀ action ∈ s.performedOn c, action.steers a = false :=
      fun action ha => hsteers action (List.mem_append_left _ ha)
    have hnone : s.startsOn a c = 0 := by
      rw [startsOn, List.countP_eq_zero]
      intro action ha hstarts
      rw [Action.not_starts_of_not_steers (hfirst action ha)] at hstarts
      cases hstarts
    have hnext := hchained.obey (c := c) hidle (by omega)
    rw [hnone] at hnext
    rw [packetsFrom, ← Nat.add_assoc]
    exact ih (h.obey hchained hidle hsorted hfirst) hnext (hidle.obey c) (hidle.obey_sorted hsorted c)
      fun action ha => hsteers action (List.mem_append_right _ ha)

/-- **The number of packets** of a session when nothing more is due up to an instant. -/
theorem Session.count_eq (h : s.Session a g interval t₀ count) (hinterval : 0 < interval.millis)
    (hsorted : s.agenda.Sorted) (hnow : s.now ≤ stop) (hstop : stop < .last)
    (hnone : s.due? stop = none) :
    count = (stop.millis - t₀.millis) / interval.millis + 1 := by
  obtain ⟨e, he, -, -, htime⟩ := h.next
  have hlater := lt_of_due?_eq_none hsorted hnone he
  have hbegun := h.begun
  rw [Instant.lt_last_iff] at hstop
  simp only [Instant.le_iff, Instant.lt_iff] at hnow hlater hbegun
  cases count with
  | zero =>
    rw [Nat.zero_mul] at htime
    omega
  | succ k =>
    have hreached := h.reached k rfl
    have hsucc : (k + 1) * interval.millis = k * interval.millis + interval.millis := Nat.succ_mul _ _
    have hdiv : (stop.millis - t₀.millis) / interval.millis = k :=
      Nat.div_eq_of_lt_le (by omega) (by omega)
    rw [hdiv]

/-! ### Runs -/

theorem obeyAll_of_take? (htake : take? stop turns s = some last) :
    last = s.obeyAll (List.replicate turns (.turn stop)) := by
  induction turns generalizing s with
  | zero => exact (Option.some.inj htake).symm
  | succ turns ih =>
    rw [take?, stepUntil?_eq] at htake
    cases hdue : s.due? stop with
    | none =>
      rw [hdue] at htake
      cases htake
    | some x =>
      rw [hdue] at htake
      rw [List.replicate_succ]
      show last = (s.obey (.turn stop)).obeyAll _
      rw [obey_turn_of_some hdue]
      exact ih htake

/-- The events of a run do not go beyond its end. -/
theorem now_le_of_take? (hidle : s.Idle) (hnow : s.now ≤ stop)
    (htake : take? stop turns s = some last) : last.now ≤ stop := by
  induction turns generalizing s with
  | zero =>
    cases htake
    exact hnow
  | succ turns ih =>
    rw [take?, stepUntil?_eq] at htake
    cases hdue : s.due? stop with
    | none =>
      rw [hdue] at htake
      cases htake
    | some x =>
      rw [hdue] at htake
      have hidle₀ := hidle.due hdue
      refine ih (hidle₀.handle x.2) ?_ htake
      obtain ⟨time, number, rest, -, htime, hx⟩ := due?_eq_some_iff.mp hdue
      have hmillis := advance_millis { s with agenda := ⟨rest⟩ } time
      rw [handle_now hidle₀, hx, Instant.le_iff, hmillis]
      exact Nat.max_le.mpr ⟨hnow, htime⟩

/-- A run takes some events until nothing is due, if the traffic that is started in the course of it
leaves time between its packets. -/
theorem runUntil_takes (hperiod : 0 < cfg.sweepPeriod.millis) (hstop : stop < .last) (h : s.OnTime)
    (hspaced : s.Spaced)
    (hperformed : ∀ n, ∀ action ∈ s.performed (List.replicate n (.turn stop)), action.IsPaced) :
    ∃ turns last, take? stop turns s = some last ∧ last.due? stop = none ∧
      s.runUntil stop = (last.advance stop).takeSnapshot := by
  have hnone := due?_steps_of_performed hperiod hstop h hspaced hperformed (Nat.le_refl _)
  obtain ⟨turns, -, htake⟩ := exists_take?_eq_steps stop (s.weight stop) s
  exact ⟨turns, _, htake, hnone, rfl⟩

/-- A scenario only schedules the traffic, so that no neighbor sends without a pause yet. -/
theorem build_spaced (c : Scenario) (cfg : Settings) : (c.build cfg).Spaced := by
  rw [Spaced, (build_untouched c cfg).1]
  exact fun p hp => absurd hp List.not_mem_nil

/-! ### From a scenario on -/

/-- **One chain for each neighbor.** A simulation is set up by a scenario, and commands are given to it
in any order, among them turns of runs, so that it may be in the middle of a run. As long as a
neighbor's traffic was started fewer times than there are generations, at most one packet of its
latest session is on the agenda, and exactly one while it is alive; before its first session it has
none at all.

Therefore the packets of a session can be counted by the time. One of the commands starts it, and no
action that is carried out later, also in the course of a run up to an instant, starts or stops it.
When the run has taken all its events and nothing is due up to that instant, the number of packets
that were delivered or lost since the start is the number of whole intervals that have passed, and
one.

A run takes its events so if the traffic that was started leaves time between its packets. -/
theorem packets_in_one_chain (cfg : Settings) (c : Scenario) (cs : List Command) (a : Address)
    (hstarts : ((c.build cfg).performed cs).countP (Action.starts a) < UInt32.size) :
    let s := (c.build cfg).obeyAll cs
    (s.traffic? a = none → ∀ g, s.queued (.packet a g) = 0) ∧
    (∀ t, s.traffic? a = some t →
      s.queued (.packet a t.generation) ≤ 1 ∧
      (t.alive = true → s.queued (.packet a t.generation) = 1)) ∧
    (∀ front k back interval stop turns last, cs = front ++ k :: back →
      let begun := (c.build cfg).obeyAll (front ++ [k])
      let since := back ++ List.replicate turns (.turn stop)
      .startTraffic a interval ∈ ((c.build cfg).obeyAll front).performedOn k →
      0 < interval.millis → s.now ≤ stop → stop < .last →
      take? stop turns s = some last → last.due? stop = none →
      (∀ action ∈ begun.performed since, action.steers a = false) →
      begun.packetsFrom a since =
        (stop.millis - begun.now.millis) / interval.millis + 1) ∧
    (∀ stop, stop < .last → 0 < cfg.sweepPeriod.millis → (∀ k ∈ cs, k.InTime) →
      (∀ n, ∀ action ∈ (c.build cfg).performed (cs ++ List.replicate n (.turn stop)),
        action.IsPaced) →
      ∃ turns last, take? stop turns s = some last ∧ last.due? stop = none ∧
        s.runUntil stop = (last.advance stop).takeSnapshot) := by
  intro s
  have hbuilt := build_chained c cfg a
  have hidle := build_idle c cfg
  have hchained : s.Chained a (0 + ((c.build cfg).performed cs).countP (Action.starts a)) :=
    hbuilt.obeyAll hidle (by omega)
  refine ⟨fun hnone g => ?_, fun t ht => ?_, ?_, fun stop hstop hperiod hcs hpaced => ?_⟩
  · by_contra hsome
    have hknown := hchained.known g (Nat.pos_of_ne_zero hsome)
    have hstarted := hchained.started
    rw [latestGeneration, hnone] at hstarted
    have hzero : (0 : UInt32).toNat = 0 := rfl
    simp only [Option.map_none, Option.getD_none, hzero] at hstarted
    omega
  · have hlatest : s.latestGeneration a = t.generation := by
      rw [latestGeneration, ht]
      rfl
    rw [← hlatest]
    refine ⟨hchained.single, fun halive => hchained.alive ?_⟩
    rw [isAlive, ht]
    exact halive
  · intro front k back interval stop turns last hsplit begun since hstart hinterval hnow hstop htake
      hnone hsteers
    obtain ⟨stop', s₀, rfl, hdue⟩ := due?_of_mem_performedOn hstart
    have hbegun : begun = ((c.build cfg).obeyAll front).obey (.turn stop') :=
      obeyAll_append _ front [.turn stop']
    have hfront := hidle.obeyAll front
    obtain ⟨g, hsession⟩ := Session.start hfront hdue
    rw [← hbegun] at hsession
    -- the starts up to the session are some of all starts
    have hearlier : ((c.build cfg).performed (front ++ [.turn stop'])).countP (Action.starts a) <
        UInt32.size := by
      have happend : cs = (front ++ [.turn stop']) ++ back := by
        rw [hsplit, List.append_assoc, List.singleton_append]
      rw [happend, performed_append, List.countP_append] at hstarts
      omega
    have hchain : begun.Chained a
        (0 + ((c.build cfg).performed (front ++ [.turn stop'])).countP (Action.starts a)) :=
      hbuilt.obeyAll hidle (by omega)
    have hlast : last = begun.obeyAll since := by
      have hback : s = begun.obeyAll back := by
        rw [← obeyAll_append, List.append_assoc, List.singleton_append, ← hsplit]
      rw [obeyAll_of_take? htake, obeyAll_append, ← hback]
    have hready : begun.Idle := hidle.obeyAll _
    have hsorted : begun.agenda.Sorted := hidle.obeyAll_sorted (build_sorted c cfg) _
    have hend := hsession.obeyAll hchain (by omega) hready hsorted hsteers
    rw [← hlast, Nat.zero_add] at hend
    refine hend.count_eq hinterval ?_ (now_le_of_take? (hidle.obeyAll cs) hnow htake) hstop hnone
    rw [hlast]
    exact hready.obeyAll_sorted hsorted since
  · have hspaced : s.Spaced := by
      refine (build_spaced c cfg).obeyAll hperiod (build_onTime hperiod c) hcs fun action ha =>
        hpaced 0 action ?_
      rwa [List.replicate_zero, List.append_nil]
    refine runUntil_takes hperiod hstop (obeyAll_onTime hperiod (build_onTime hperiod c) hcs) hspaced
      fun n action ha => hpaced n action ?_
    rw [performed_append]
    exact List.mem_append_right _ ha

/-- A neighbor that sends every three milliseconds is started again after four, and then sends every
two. Its packet that was due after six is still on the agenda, but discarded. Up to the ninth
millisecond three packets of the second session come, after four, six and eight. -/
theorem packets_in_one_chain_of_restart :
    let cfg : Settings := ⟨2, .ofMillis 5, .ofMillis 9, .ofMillis 4⟩
    let neighbor : Address := .ofGroups 0xfe80 0 0 0 0 0 0 1
    let c : Scenario :=
      { Scenario.stock with
          actions := [(.boot, .startTraffic neighbor (.ofMillis 3)),
            (.ofMillis 4, .startTraffic neighbor (.ofMillis 2))] }
    let stop : Instant := .ofMillis 9
    let front : List Command := List.replicate 4 (.turn stop)
    let back : List Command := [.turn stop]
    let cs : List Command := front ++ .turn stop :: back
    let since : List Command := back ++ List.replicate 4 (.turn stop)
    ((c.build cfg).performed cs).countP (Action.starts neighbor) = 2 ∧
      ((c.build cfg).obeyAll cs).queued (.packet neighbor 1) = 1 ∧
      ((c.build cfg).obeyAll cs).queued (.packet neighbor 2) = 1 ∧
      ((c.build cfg).obeyAll (front ++ [.turn stop])).packetsFrom neighbor since = 3 := by
  intro cfg neighbor c stop front back cs since
  have hstarts : ((c.build cfg).performed cs).countP (Action.starts neighbor) = 2 := by
    decide +kernel
  have hnow : ((c.build cfg).obeyAll (front ++ [.turn stop])).now = .ofMillis 4 := by decide +kernel
  have hsteered : (((c.build cfg).obeyAll (front ++ [.turn stop])).performed since).all
      (fun action => !action.steers neighbor) = true := by decide +kernel
  have hchain := packets_in_one_chain cfg c cs neighbor (by rw [hstarts]; decide)
  refine ⟨hstarts, by decide +kernel, by decide +kernel, ?_⟩
  rw [hchain.2.2.1 front (.turn stop) back (.ofMillis 2) stop 4
    (((c.build cfg).obeyAll cs).obeyAll (List.replicate 4 (.turn stop))) rfl, hnow]
  · decide
  · decide +kernel
  · decide
  · decide +kernel
  · decide
  · decide +kernel
  · decide +kernel
  · intro action ha
    exact Bool.not_eq_true' _ |>.mp (List.all_eq_true.mp hsteered action ha)

end Simulation

end ObservableTree
