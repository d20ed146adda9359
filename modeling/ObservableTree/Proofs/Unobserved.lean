import ObservableTree.Proofs.Splitting

/-!
# A simulation without its retrievals

Retrievals take running numbers from the other events, settle the notification and count what they
got, but all that is of no account for the rest of a simulation:

* `Agenda.plan` — what is scheduled besides retrievals, without the running numbers;
  `plan_insertIn` — scheduling puts an event at the same place in it, `exists_of_plan_eq_cons` — and
  what it begins with is what happens next, but for retrievals;
* `Simulation.bare` — the simulation without its observers, their retrievals and all that they leave
  behind;
* `bare_fetch` — a retrieval is not seen in it;
* `bare_happen_congr`, `bare_rescheduleTimer_congr` — and what any other event does to it is decided
  by it alone.
-/

namespace ObservableTree

/-- Whether an event is a retrieval. -/
def Event.isFetch : Event → Bool
  | .fetch _ => true
  | _ => false

/-! ### The plan -/

namespace Agenda

/-- What is scheduled besides retrievals, all of it under the number zero. -/
def plan (es : List Scheduled) : List Scheduled :=
  (es.filter fun e => !e.event.isFetch).map fun e => { e with number := 0 }

theorem plan_cons_of_fetch {e : Scheduled} (h : e.event.isFetch = true) (es : List Scheduled) :
    plan (e :: es) = plan es := by
  simp [plan, h]

theorem plan_cons_of_other {e : Scheduled} (h : e.event.isFetch = false) (es : List Scheduled) :
    plan (e :: es) = { e with number := 0 } :: plan es := by
  simp [plan, h]

theorem mem_plan {d : Scheduled} {es : List Scheduled} (h : d ∈ plan es) :
    ∃ e ∈ es, e.time = d.time := by
  obtain ⟨e, he, rfl⟩ := List.mem_map.mp h
  exact ⟨e, (List.mem_filter.mp he).1, rfl⟩

/-- An event that is due before all others comes first. -/
theorem insertIn_of_first {e : Scheduled} {es : List Scheduled} (h : ∀ d ∈ es, e.time < d.time) :
    insertIn e es = e :: es := by
  cases es with
  | nil => rfl
  | cons d rest =>
    have hurgent : e.urgency d = .gt :=
      Scheduled.urgency_eq_gt_iff.mpr (.inl (h d List.mem_cons_self))
    rw [insertIn, if_pos hurgent]

/-- An event with a number as high as any goes behind all that is due no later. -/
theorem urgency_of_last (time : Instant) {number : Nat} (event : Event) {d : Scheduled}
    (h : d.number ≤ number) :
    Scheduled.urgency ⟨time, number, event⟩ d = .gt ↔ time < d.time := by
  rw [Scheduled.urgency_eq_gt_iff, Instant.lt_iff]
  dsimp only
  omega

theorem plan_insertIn_fetch {e : Scheduled} (h : e.event.isFetch = true) (es : List Scheduled) :
    plan (insertIn e es) = plan es := by
  induction es with
  | nil => exact plan_cons_of_fetch h []
  | cons d rest ih =>
    rw [insertIn]
    split
    · exact plan_cons_of_fetch h _
    · simp only [plan, List.filter_cons] at ih ⊢
      split
      · rw [List.map_cons, List.map_cons, ih]
      · exact ih

/-- **Scheduling** under the highest number goes by the instants alone, so the retrievals on the
agenda do not matter. -/
theorem plan_insertIn {time : Instant} {number : Nat} {event : Event}
    (h : event.isFetch = false) {es : List Scheduled} (hsorted : es.Pairwise Scheduled.Precedes)
    (hnumber : ∀ d ∈ es, d.number ≤ number) :
    plan (insertIn ⟨time, number, event⟩ es) = insertIn ⟨time, 0, event⟩ (plan es) := by
  induction es with
  | nil => exact plan_cons_of_other h []
  | cons d rest ih =>
    obtain ⟨hd, hrest⟩ := List.pairwise_cons.mp hsorted
    have hplace := urgency_of_last time event (hnumber d List.mem_cons_self)
    have hmore := ih hrest fun e he => hnumber e (List.mem_cons_of_mem d he)
    by_cases hfirst : time < d.time
    · -- in front of this entry, and so of all that is planned behind it
      have hall : ∀ e ∈ plan (d :: rest), time < e.time := by
        intro e he
        obtain ⟨c, hc, hce⟩ := mem_plan he
        rw [← hce]
        rcases List.mem_cons.mp hc with rfl | hc
        · exact hfirst
        · exact Nat.lt_of_lt_of_le hfirst (hd c hc).le
      rw [insertIn, if_pos (hplace.mpr hfirst), insertIn_of_first hall]
      exact plan_cons_of_other h _
    · rw [insertIn, if_neg fun hgt => hfirst (hplace.mp hgt)]
      cases hkind : d.event.isFetch with
      | true => rw [plan_cons_of_fetch hkind, plan_cons_of_fetch hkind, hmore]
      | false =>
        have hzero : ¬Scheduled.urgency ⟨time, 0, event⟩ ⟨d.time, 0, d.event⟩ = .gt :=
          (urgency_of_last time event (Nat.le_refl 0)).not.mpr hfirst
        rw [plan_cons_of_other hkind, plan_cons_of_other hkind, hmore, insertIn, if_neg hzero]

/-- The first event of the plan comes first on the agenda, or a retrieval comes before it. -/
theorem exists_of_plan_eq_cons {q : Agenda} (hsorted : q.Sorted) {d : Scheduled}
    {ds : List Scheduled} (h : plan q.entries = d :: ds) :
    ∃ e rest, q.entries = e :: rest ∧ e.time ≤ d.time ∧
      (e.event.isFetch = true ∨ e.time = d.time ∧ e.event = d.event ∧ plan rest = ds) := by
  cases hentries : q.entries with
  | nil =>
    rw [hentries] at h
    cases h
  | cons e rest =>
    obtain ⟨c, hc, hsame⟩ := mem_plan (h ▸ List.mem_cons_self)
    have hfirst := le_of_sorted hsorted hentries hc
    rw [hsame] at hfirst
    refine ⟨e, rest, rfl, hfirst, ?_⟩
    cases hkind : e.event.isFetch with
    | true => exact .inl rfl
    | false =>
      rw [hentries, plan_cons_of_other hkind] at h
      obtain ⟨rfl, hrest⟩ := List.cons.inj h
      exact .inr ⟨rfl, rfl, hrest⟩

end Agenda

/-! ### Without retrievals -/

/-- The counters without those of the retrievals. -/
def Metrics.unfetched (m : Metrics) : Metrics :=
  { m with fetches := 0, exchanges := 0, bytesServed := 0, fetchErrors := 0 }

namespace Resource

variable {cfg : Settings} {r q : Resource cfg}

theorem SettledAtMost.settled_eq (h : SettledAtMost r q) : q.settled = r.settled := by
  rcases h with rfl | rfl
  · rfl
  · rfl

theorem notifyDue_settled (r : Resource cfg) (now : Instant) :
    (r.settled.notifyDue now).1.settled = (r.notifyDue now).1.settled ∧
      (r.settled.notifyDue now).2 = (r.notifyDue now).2 := by
  rcases notifyDue_cases r now with ⟨hdue, hnotified⟩ | ⟨hdue, hnotified⟩
  · rcases notifyDue_cases r.settled now with ⟨-, hsettled⟩ | ⟨hnever, -⟩
    · rw [hnotified, hsettled]
      exact ⟨rfl, rfl⟩
    · exact absurd hdue hnever
  · rcases notifyDue_cases r.settled now with ⟨hsoon, -⟩ | ⟨-, hsettled⟩
    · exact absurd hsoon hdue
    · rw [hnotified, hsettled]
      exact ⟨rfl, rfl⟩

theorem onTimer_settled (r : Resource cfg) (now : Instant) :
    (r.settled.onTimer now).state.settled = (r.onTimer now).state.settled ∧
      (r.settled.onTimer now).notices = (r.onTimer now).notices := by
  have hswept : r.settled.sweepDue? now =
      (r.sweepDue? now).map fun swept => (swept.1.settled, swept.2) := by
    rw [sweepDue?, sweepDue?, Option.map_map]
    rfl
  unfold onTimer onTimer?
  rw [hswept]
  cases r.sweepDue? now with
  | none => exact ⟨rfl, rfl⟩
  | some swept =>
    obtain ⟨hstate, hfired⟩ := notifyDue_settled swept.1 now
    refine ⟨hstate, ?_⟩
    show (if (swept.1.settled.notifyDue now).2.isSome then 1 else 0) =
      if (swept.1.notifyDue now).2.isSome then 1 else 0
    rw [hfired]

/-- Whether the notification is settled makes no difference for what comes in. -/
theorem react_settled (r : Resource cfg) (i : Input) :
    (r.settled.react i).state.settled = (r.react i).state.settled ∧
      (r.settled.react i).notices = (r.react i).notices := by
  cases i with
  | timer now => exact onTimer_settled r now
  | event event now =>
    cases event with
    | packet source => exact ⟨rfl, rfl⟩
    | routeChanged change route count =>
      unfold react onEvent onChange
      dsimp only
      split
      · exact ⟨rfl, rfl⟩
      · exact ⟨rfl, rfl⟩

/-- Two resources that differ at most in this respect react alike. -/
theorem react_congr (h : r.settled = q.settled) (i : Input) :
    (r.react i).state.settled = (q.react i).state.settled ∧
      (r.react i).notices = (q.react i).notices := by
  obtain ⟨hstate, hnotices⟩ := react_settled r i
  rw [h, (react_settled q i).1] at hstate
  rw [h, (react_settled q i).2] at hnotices
  exact ⟨hstate.symm, hnotices.symm⟩

end Resource

namespace Simulation

variable {cfg : Settings} {s x y : Simulation cfg} {α : Type}

/-- The simulation without its observers, their retrievals and all that these leave behind. -/
def bare (s : Simulation cfg) : Simulation cfg :=
  { s with
      node := { s.node with resource := s.node.resource.settled, clock := s.node.clock.set .boot }
      observers := []
      agenda := ⟨Agenda.plan s.agenda.entries⟩
      metrics := s.metrics.unfetched
      nextNumber := 0
      log := [] }

/-- What the bare simulation still tells is the same. -/
theorem eq_of_bare {β : Type} (h : x.bare = y.bare) (f : Simulation cfg → β)
    (hf : ∀ s : Simulation cfg, f s.bare = f s) : f x = f y := by
  rw [← hf x, h, hf y]

theorem now_eq (h : x.bare = y.bare) : x.now = y.now := eq_of_bare h Simulation.now fun _ => rfl

/-- The agenda is in order, and no event has a number above the running one. -/
structure InOrder (s : Simulation cfg) : Prop where
  sorted : s.agenda.Sorted
  numbers : ∀ e ∈ s.agenda.entries, e.number ≤ s.nextNumber

/-! ### Scheduling -/

theorem bare_schedule_fetch {event : Event} (h : event.isFetch = true) (s : Simulation cfg)
    (time : Instant) : (s.schedule time event).bare = s.bare := by
  have hplan := Agenda.plan_insertIn_fetch (e := ⟨time, s.nextNumber, event⟩) h s.agenda.entries
  show { s.bare with agenda :=
    ⟨Agenda.plan (Agenda.insertIn ⟨time, s.nextNumber, event⟩ s.agenda.entries)⟩ } = s.bare
  rw [hplan]
  rfl

theorem bare_schedule (h : s.InOrder) {event : Event} (hevent : event.isFetch = false)
    (time : Instant) :
    (s.schedule time event).bare = { s.bare with agenda := s.bare.agenda.insert ⟨time, 0, event⟩ } := by
  show { s.bare with agenda :=
    ⟨Agenda.plan (Agenda.insertIn ⟨time, s.nextNumber, event⟩ s.agenda.entries)⟩ } = _
  rw [Agenda.plan_insertIn hevent h.sorted h.numbers]
  rfl

/-- The same event under another number. -/
theorem bare_schedule_congr (hx : x.InOrder) (hy : y.InOrder) (h : x.bare = y.bare)
    {time time' : Instant} (htime : time = time') {event event' : Event} (hsame : event = event')
    (hevent : event.isFetch = false) :
    (x.schedule time event).bare = (y.schedule time' event').bare := by
  subst hsame
  rw [bare_schedule hx hevent, bare_schedule hy hevent, h, htime]

theorem bare_scheduleAll_fetches (s : Simulation cfg) {events : List (Instant × Event)}
    (h : ∀ e ∈ events, e.2.isFetch = true) : (s.scheduleAll events).bare = s.bare := by
  induction events generalizing s with
  | nil => rfl
  | cons e events ih =>
    have hrest := ih (s.schedule e.1 e.2) fun d hd => h d (List.mem_cons_of_mem e hd)
    rw [bare_schedule_fetch (h e List.mem_cons_self)] at hrest
    exact hrest

/-! ### Counting -/

/-- The simulation with other counters. -/
def tallied (s : Simulation cfg) (f : Metrics → Metrics) : Simulation cfg :=
  { s with metrics := f s.metrics }

theorem InOrder.tallied (h : s.InOrder) (f : Metrics → Metrics) : (s.tallied f).InOrder :=
  ⟨h.sorted, h.numbers⟩

theorem Idle.tallied (h : s.Idle) (f : Metrics → Metrics) : (s.tallied f).Idle :=
  ⟨h.inbox, h.pending⟩

/-- What is counted besides retrievals. -/
theorem bare_tallied_congr (h : x.bare = y.bare) {f : Metrics → Metrics}
    (hf : ∀ m, (f m).unfetched = f m.unfetched) : (x.tallied f).bare = (y.tallied f).bare := by
  have hbare : ∀ s : Simulation cfg, (s.tallied f).bare = s.bare.tallied f := by
    intro s
    show { s.bare with metrics := (f s.metrics).unfetched } = s.bare.tallied f
    rw [hf]
    rfl
  rw [hbare, hbare, h]

/-! ### The node -/

theorem submit_eq (h : s.Idle) (event : TopologyEvent) :
    s.submit event = s.absorb (s.node.resource.onEvent event s.now) :=
  submit_of_idle h s.metrics s.randomWord event

theorem bare_absorb (s : Simulation cfg) (r : Reaction cfg α) :
    (s.absorb r).bare =
      { s.bare with node := { s.bare.node with
          resource := r.state.settled
          notifier := s.bare.node.notifier.raise r.notices } } := rfl

/-- The node gets the same input. -/
theorem bare_react_congr (h : x.bare = y.bare) {i j : Input} (hsame : i = j) :
    (x.absorb (x.node.resource.react i)).bare = (y.absorb (y.node.resource.react j)).bare := by
  subst hsame
  have hresource : x.node.resource.settled = y.node.resource.settled :=
    congrArg (fun s : Simulation cfg => s.node.resource) h
  obtain ⟨hstate, hnotices⟩ := Resource.react_congr hresource i
  rw [bare_absorb, bare_absorb, h, hstate, hnotices]

theorem bare_submit_congr (hx : x.Idle) (hy : y.Idle) (h : x.bare = y.bare)
    (event : TopologyEvent) : (x.submit event).bare = (y.submit event).bare := by
  rw [submit_eq hx, submit_eq hy]
  exact bare_react_congr h (congrArg (Input.event event) (now_eq h))

theorem bare_fetch (s : Simulation cfg) (observer : Nat) : (s.fetch observer).bare = s.bare := by
  rw [fetch]
  cases s.observers[observer]? with
  | none => rfl
  | some o =>
    dsimp only
    have hquiet := Resource.readOn_quiet s.routing o.blockSize maxExchanges 0 [] .done
      s.node.resource
    generalize hx : o.fetch s.node.resource (.steady s.routing) s.now = r
    have hnotices : r.notices = 0 := hx ▸ hquiet.1
    have hstate : Resource.SettledAtMost s.node.resource r.state := hx ▸ hquiet.2
    have habsorb : (s.absorb r).bare = s.bare := by
      rw [bare_absorb, hnotices, hstate.settled_eq]
      rfl
    cases r.value.2 with
    | ok retrieval => exact habsorb
    | error cause => exact habsorb

/-! ### Packets, changes and actions -/

theorem bare_drawLoss_congr (h : x.bare = y.bare) :
    x.drawLoss.1.bare = y.drawLoss.1.bare ∧ x.drawLoss.2 = y.drawLoss.2 := by
  have hrate : x.lossRate = y.lossRate := eq_of_bare h Simulation.lossRate fun _ => rfl
  have hword : x.randomWord = y.randomWord := eq_of_bare h Simulation.randomWord fun _ => rfl
  have hdrawn : ∀ word : UInt64, ({ x with randomWord := word } : Simulation cfg).bare =
      ({ y with randomWord := word } : Simulation cfg).bare :=
    fun word => congrArg (fun s : Simulation cfg => { s with randomWord := word }) h
  cases hpositive : y.lossRate.isPositive with
  | true =>
    rw [drawLoss_of_positive (hrate ▸ hpositive), drawLoss_of_positive hpositive]
    refine ⟨?_, ?_⟩
    · dsimp only
      rw [hword]
      exact hdrawn (nextWord y.randomWord)
    · dsimp only
      rw [hrate, hword]
  | false =>
    rw [drawLoss_of_zero (hrate ▸ hpositive), drawLoss_of_zero hpositive]
    exact ⟨h, rfl⟩

theorem InOrder.drawLoss (h : s.InOrder) : s.drawLoss.1.InOrder := by
  rw [drawLoss_frame]
  exact ⟨h.sorted, h.numbers⟩

theorem Idle.drawLoss (h : s.Idle) : s.drawLoss.1.Idle := by
  rw [drawLoss_frame]
  exact ⟨h.inbox, h.pending⟩

theorem InOrder.submit (h : s.InOrder) (hidle : s.Idle) (event : TopologyEvent) :
    (s.submit event).InOrder := by
  rw [submit_eq hidle]
  exact ⟨h.sorted, h.numbers⟩

/-- A packet that is lost or handed to the node, and the next one. -/
theorem bare_deliverPacket_congr (hx : x.InOrder) (hy : y.InOrder) (hxi : x.Idle) (hyi : y.Idle)
    (h : x.bare = y.bare) (source : Address) (generation : UInt32) :
    (x.deliverPacket source generation).bare = (y.deliverPacket source generation).bare := by
  have htraffic : x.traffic? source = y.traffic? source :=
    eq_of_bare h (·.traffic? source) fun _ => rfl
  obtain ⟨hdrawn, hlost⟩ := bare_drawLoss_congr h
  have hdx := hx.drawLoss
  have hdy := hy.drawLoss
  have hdxi := hxi.drawLoss
  have hdyi := hyi.drawLoss
  rw [deliverPacket, deliverPacket, htraffic]
  cases y.traffic? source with
  | none => exact h
  | some t =>
    dsimp only
    by_cases hdead : t.alive = false ∨ t.generation ≠ generation
    · rw [if_pos hdead, if_pos hdead]
      exact h
    · rw [if_neg hdead, if_neg hdead, hlost]
      generalize x.drawLoss.1 = dx at *
      generalize y.drawLoss.1 = dy at *
      cases y.drawLoss.2 with
      | true =>
        let lost : Metrics → Metrics := fun m => { m with packetsDropped := m.packetsDropped + 1 }
        have hcounted : (dx.tallied lost).bare = (dy.tallied lost).bare :=
          bare_tallied_congr hdrawn fun _ => rfl
        have htime := congrArg (fun now : Instant => now + t.interval) (now_eq hcounted)
        rw [if_pos rfl, if_pos rfl]
        exact bare_schedule_congr (hdx.tallied lost) (hdy.tallied lost) hcounted htime rfl rfl
      | false =>
        let seen : Metrics → Metrics := fun m => { m with packetsObserved := m.packetsObserved + 1 }
        have hcounted : (dx.tallied seen).bare = (dy.tallied seen).bare :=
          bare_tallied_congr hdrawn fun _ => rfl
        have hhanded :=
          bare_submit_congr (hdxi.tallied seen) (hdyi.tallied seen) hcounted (.packet source)
        have htime := congrArg (fun now : Instant => now + t.interval) (now_eq hhanded)
        rw [if_neg Bool.false_ne_true, if_neg Bool.false_ne_true]
        exact bare_schedule_congr ((hdx.tallied seen).submit (hdxi.tallied seen) _)
          ((hdy.tallied seen).submit (hdyi.tallied seen) _) hhanded htime rfl rfl

/-- Notifications bring about nothing but retrievals, and they are counted. -/
theorem bare_announceAll (count : Nat) (s : Simulation cfg) :
    (announceAll count s).bare =
      (s.tallied fun m => { m with notifications := m.notifications + count }).bare := by
  have hfetches : ∀ e ∈ (List.replicate count s.fetches).flatten, e.2.isFetch = true := by
    intro e he
    obtain ⟨row, hrow, he⟩ := List.mem_flatten.mp he
    rw [List.eq_of_mem_replicate hrow] at he
    obtain ⟨observer, -, rfl⟩ := List.mem_map.mp he
    rfl
  rw [announceAll_eq, bare_scheduleAll_fetches _ hfetches]
  rfl

/-- The notifications that wait are taken up and announced. -/
theorem bare_takeUp_congr (h : x.bare = y.bare) :
    (announceAll x.node.notifier.take.1
        { x with node := { x.node with notifier := x.node.notifier.take.2 } }).bare =
      (announceAll y.node.notifier.take.1
        { y with node := { y.node with notifier := y.node.notifier.take.2 } }).bare := by
  have hcount : x.node.notifier.take.1 = y.node.notifier.take.1 :=
    eq_of_bare h (·.node.notifier.take.1) fun _ => rfl
  have htaken := congrArg (fun s : Simulation cfg =>
    { s with node := { s.node with notifier := s.node.notifier.take.2 } }) h
  rw [bare_announceAll, bare_announceAll, hcount]
  exact bare_tallied_congr htaken fun _ => rfl

/-- The timers are called, and the retrievals that they bring about are not seen. -/
theorem bare_fireTimer_congr (h : x.bare = y.bare) (generation : Nat) :
    (x.fireTimer generation).bare = (y.fireTimer generation).bare := by
  have hgeneration : x.timerGeneration = y.timerGeneration :=
    eq_of_bare h Simulation.timerGeneration fun _ => rfl
  by_cases hstale : generation ≠ x.timerGeneration
  · rw [fireTimer_of_stale hstale, fireTimer_of_stale (hgeneration ▸ hstale)]
    exact h
  · have hcalled := congrArg (fun s : Simulation cfg => { s with scheduledWake := none }) h
    rw [fireTimer, if_neg hstale, fireTimer, if_neg (hgeneration ▸ hstale)]
    exact bare_takeUp_congr (bare_react_congr (x := { x with scheduledWake := none })
      (y := { y with scheduledWake := none }) hcalled (congrArg Input.timer (now_eq h)))

theorem bare_reportChange_congr (hx : x.Idle) (hy : y.Idle) (h : x.bare = y.bare)
    (change : RouteChange) (route : Route) :
    (x.reportChange change route).bare = (y.reportChange change route).bare := by
  have hevent : TopologyEvent.routeChanged change route x.routing.routes.length =
      .routeChanged change route y.routing.routes.length :=
    eq_of_bare h (fun s => TopologyEvent.routeChanged change route s.routing.routes.length) fun _ => rfl
  let changed : Metrics → Metrics := fun m => { m with routeChanges := m.routeChanges + 1 }
  have hsubmit := bare_submit_congr (hx.tallied changed) (hy.tallied changed)
    (bare_tallied_congr h fun _ => rfl) (.routeChanged change route x.routing.routes.length)
  exact hsubmit.trans (congrArg (fun event => ((y.tallied changed).submit event).bare) hevent)

/-! ### Actions -/

section

variable (hx : x.InOrder) (hy : y.InOrder) (h : x.bare = y.bare)

include hx hy h

/-- Routes change, and the change is reported at once. -/
theorem bare_scheduleChange_congr (f : Routing → Routing) (change : RouteChange) (route : Route) :
    ({ x with routing := f x.routing }.scheduleChange change route).bare =
      ({ y with routing := f y.routing }.scheduleChange change route).bare := by
  have hrouted := congrArg (fun s : Simulation cfg => { s with routing := f s.routing }) h
  exact bare_schedule_congr (x := { x with routing := f x.routing })
    (y := { y with routing := f y.routing }) ⟨hx.sorted, hx.numbers⟩ ⟨hy.sorted, hy.numbers⟩
    hrouted (now_eq h) rfl rfl

theorem bare_execute_congr (action : Action) :
    (x.execute action).bare = (y.execute action).bare := by
  have hrouting : x.routing = y.routing := eq_of_bare h Simulation.routing fun _ => rfl
  have htraffic : ∀ neighbor, x.traffic? neighbor = y.traffic? neighbor :=
    fun neighbor => eq_of_bare h (·.traffic? neighbor) fun _ => rfl
  cases action with
  | addRoute route => exact bare_scheduleChange_congr hx hy h (·.addRoute route) _ _
  | setParent parent => exact bare_scheduleChange_congr hx hy h (·.setParent (some parent)) _ _
  | removeRoute destination =>
    have hroute : x.routing.route? destination = y.routing.route? destination := by rw [hrouting]
    simp only [execute, hroute]
    cases y.routing.route? destination with
    | none => exact h
    | some route => exact bare_scheduleChange_congr hx hy h (·.removeRoute destination) _ _
  | clearParent =>
    have hparent : x.routing.parent = y.routing.parent := by rw [hrouting]
    simp only [execute, hparent]
    cases y.routing.parent with
    | none => exact h
    | some parent => exact bare_scheduleChange_congr hx hy h (·.setParent none) _ _
  | setPrefix dagPrefix =>
    exact congrArg (fun s : Simulation cfg => { s with routing := s.routing.setPrefix dagPrefix }) h
  | startTraffic neighbor interval =>
    simp only [execute, startTraffic, htraffic]
    generalize ((y.traffic? neighbor).map Traffic.generation).getD 0 + 1 = generation
    have hset := congrArg (fun s : Simulation cfg =>
      s.setTraffic neighbor ⟨interval, true, generation⟩) h
    exact bare_schedule_congr (x := x.setTraffic neighbor ⟨interval, true, generation⟩)
      (y := y.setTraffic neighbor ⟨interval, true, generation⟩) ⟨hx.sorted, hx.numbers⟩
      ⟨hy.sorted, hy.numbers⟩ hset (now_eq h) rfl rfl
  | stopTraffic neighbor =>
    simp only [execute, stopTraffic, htraffic]
    cases y.traffic? neighbor with
    | none => exact h
    | some t =>
      exact congrArg (fun s : Simulation cfg => s.setTraffic neighbor { t with alive := false }) h
  | takeSnapshot => exact congrArg takeSnapshot h

end

/-! ### One event -/

/-- **One event** that is no retrieval does the same to two simulations that differ in nothing but
retrievals. -/
theorem bare_happen_congr (hx : x.InOrder) (hy : y.InOrder) (hxi : x.Idle) (hyi : y.Idle)
    (h : x.bare = y.bare) {event : Event} (hevent : event.isFetch = false) :
    (x.happen event).bare = (y.happen event).bare := by
  cases event with
  | packet source generation => exact bare_deliverPacket_congr hx hy hxi hyi h source generation
  | routeChange change route => exact bare_reportChange_congr hxi hyi h change route
  | timer generation => exact bare_fireTimer_congr h generation
  | fetch observer => cases hevent
  | action action => exact bare_execute_congr hx hy h action

/-- Putting the timer in order. -/
theorem bare_rescheduleTimer_congr (hx : x.InOrder) (hy : y.InOrder) (h : x.bare = y.bare) :
    x.rescheduleTimer.bare = y.rescheduleTimer.bare := by
  have hwake : x.wake = y.wake := eq_of_bare h Simulation.wake fun _ => rfl
  have hscheduled : x.scheduledWake = y.scheduledWake :=
    eq_of_bare h Simulation.scheduledWake fun _ => rfl
  have hgeneration : x.timerGeneration = y.timerGeneration :=
    eq_of_bare h Simulation.timerGeneration fun _ => rfl
  by_cases hsame : x.scheduledWake = some x.wake
  · have hsame' : y.scheduledWake = some y.wake := by rw [← hscheduled, ← hwake, hsame]
    rw [rescheduleTimer, if_pos hsame, rescheduleTimer, if_pos hsame']
    exact h
  · have hother : ¬y.scheduledWake = some y.wake := by rwa [← hscheduled, ← hwake]
    have hmarked := congrArg (fun s : Simulation cfg =>
      { s with timerGeneration := s.timerGeneration + 1, scheduledWake := some s.wake }) h
    rw [rescheduleTimer, if_neg hsame, rescheduleTimer, if_neg hother]
    exact bare_schedule_congr
      (x := { x with timerGeneration := x.timerGeneration + 1, scheduledWake := some x.wake })
      (y := { y with timerGeneration := y.timerGeneration + 1, scheduledWake := some y.wake })
      ⟨hx.sorted, hx.numbers⟩ ⟨hy.sorted, hy.numbers⟩ hmarked hwake
      (congrArg (fun generation => Event.timer (generation + 1)) hgeneration) rfl

end Simulation

end ObservableTree
