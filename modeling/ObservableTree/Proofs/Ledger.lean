import ObservableTree.Proofs.Queue
import ObservableTree.Proofs.Unobserved
import ObservableTree.Proofs.Untouched

/-!
# What an event enters in the books

A simulation counts notifications, retrievals, failures, reads and bytes. The node counts its
notifications too, and every observer has a record of its own. Every event leaves them in agreement:
a retrieval is entered on both sides, and a notification puts one retrieval of each observer on the
agenda, from where it is taken when it is tried.

* `tally` — a sum over a list;
* `Simulation.Keeps`, `happen_keeps` — only retrievals touch the records of the observers;
* `Simulation.tally_fetch` — what a retrieval adds to a counter, it adds to a record;
* `Simulation.Balanced`, `Balanced.handle` — the counters agree with the records;
* `Simulation.Served`, `Owing.handle` — every observer has tried one retrieval for each notification,
  or still has it on the agenda;
* `Served.total` — and so it is for all observers together.
-/

namespace ObservableTree

/-! ### Sums -/

section

variable {α β : Type} {f g : α → Nat} {xs : List α} {x y : α} {i k : Nat}

/-- The sum of a number over a list. -/
def tally (f : α → Nat) (xs : List α) : Nat := xs.foldr (fun x n => f x + n) 0

theorem tally_cons (f : α → Nat) (x : α) (xs : List α) : tally f (x :: xs) = f x + tally f xs := rfl

theorem tally_append (f : α → Nat) (xs ys : List α) :
    tally f (xs ++ ys) = tally f xs + tally f ys := by
  induction xs with
  | nil => exact (Nat.zero_add _).symm
  | cons x xs ih => rw [List.cons_append, tally_cons, tally_cons, ih, Nat.add_assoc]

theorem tally_snoc (f : α → Nat) (xs : List α) (x : α) : tally f (xs ++ [x]) = tally f xs + f x :=
  tally_append f xs [x]

theorem tally_add (f g : α → Nat) (xs : List α) :
    tally (fun x => f x + g x) xs = tally f xs + tally g xs := by
  induction xs with
  | nil => rfl
  | cons x xs ih =>
    rw [tally_cons, tally_cons, tally_cons, ih]
    omega

theorem tally_flatMap (f : β → Nat) (g : α → List β) (xs : List α) :
    tally f (xs.flatMap g) = tally (fun x => tally f (g x)) xs := by
  induction xs with
  | nil => rfl
  | cons x xs ih => rw [List.flatMap_cons, tally_append, tally_cons, ih]

/-- Replacing an item by one that counts for more. -/
theorem tally_set (h : xs[i]? = some x) (hy : f y = f x + k) :
    tally f (xs.set i y) = tally f xs + k := by
  induction xs generalizing i with
  | nil => cases h
  | cons z xs ih =>
    cases i with
    | zero =>
      cases h
      rw [List.set_cons_zero, tally_cons, tally_cons, hy]
      omega
    | succ i => rw [List.set_cons_succ, tally_cons, tally_cons, ih h, Nat.add_assoc]

end

/-! ### Retrievals and records -/

/-- Whether an event is a retrieval of one of the first observers. -/
def Event.isFetchBelow (bound : Nat) : Event → Bool
  | .fetch i => decide (i < bound)
  | _ => false

/-- The retrievals that an observer has tried. -/
def Observer.attempts (o : Observer) : Nat := o.history.length + o.errors

theorem Observer.note_attempts (o : Observer) (result : Except FetchError Retrieval) :
    (o.note result).attempts = o.attempts + 1 := by
  cases result with
  | ok x =>
    show (o.history ++ [x]).length + o.errors = o.history.length + o.errors + 1
    rw [List.length_append, List.length_singleton]
    omega
  | error => rfl

/-- The counters after one retrieval more, or one failure more. -/
def Metrics.serve (m : Metrics) : Except FetchError Retrieval → Metrics
  | .ok x =>
    { m with
        fetches := m.fetches + 1
        exchanges := m.exchanges + x.exchanges
        bytesServed := m.bytesServed + x.bodyLength }
  | .error _ => { m with fetchErrors := m.fetchErrors + 1 }

namespace Simulation

variable {cfg : Settings} {s s' : Simulation cfg} {i : Nat} {event : Event} {stop : Instant}

/-! ### What only retrievals touch -/

/-- What nothing but a retrieval touches. -/
structure Keeps (s s' : Simulation cfg) : Prop where
  observers : s'.observers = s.observers
  fetches : s'.metrics.fetches = s.metrics.fetches
  fetchErrors : s'.metrics.fetchErrors = s.metrics.fetchErrors
  exchanges : s'.metrics.exchanges = s.metrics.exchanges
  bytesServed : s'.metrics.bytesServed = s.metrics.bytesServed

theorem Keeps.refl (s : Simulation cfg) : Keeps s s := ⟨rfl, rfl, rfl, rfl, rfl⟩

theorem Keeps.trans {s'' : Simulation cfg} (h : Keeps s s') (h' : Keeps s' s'') : Keeps s s'' where
  observers := h'.observers.trans h.observers
  fetches := h'.fetches.trans h.fetches
  fetchErrors := h'.fetchErrors.trans h.fetchErrors
  exchanges := h'.exchanges.trans h.exchanges
  bytesServed := h'.bytesServed.trans h.bytesServed

theorem submit_keeps (s : Simulation cfg) (event : TopologyEvent) : Keeps s (s.submit event) := by
  obtain ⟨node, log, hframe, -⟩ := submit_frame s event
  rw [hframe]
  exact ⟨rfl, rfl, rfl, rfl, rfl⟩

theorem deliverPacket_keeps (s : Simulation cfg) (source : Address) (generation : UInt32) :
    Keeps s (s.deliverPacket source generation) := by
  rw [deliverPacket]
  split
  · exact .refl s
  · split
    · exact .refl s
    · dsimp only
      rw [drawLoss_frame]
      cases s.drawLoss.2 with
      | true =>
        rw [if_pos rfl]
        exact ⟨rfl, rfl, rfl, rfl, rfl⟩
      | false =>
        rw [if_neg Bool.false_ne_true]
        have hsent := submit_keeps
          { s with
              randomWord := s.drawLoss.1.randomWord
              metrics := { s.metrics with packetsObserved := s.metrics.packetsObserved + 1 } }
          (.packet source)
        exact ⟨hsent.observers, hsent.fetches, hsent.fetchErrors, hsent.exchanges,
          hsent.bytesServed⟩

theorem reportChange_keeps (s : Simulation cfg) (change : RouteChange) (route : Route) :
    Keeps s (s.reportChange change route) := by
  have hsent := submit_keeps
    { s with metrics := { s.metrics with routeChanges := s.metrics.routeChanges + 1 } }
    (.routeChanged change route s.routing.routes.length)
  exact ⟨hsent.observers, hsent.fetches, hsent.fetchErrors, hsent.exchanges, hsent.bytesServed⟩

theorem fireTimer_keeps (s : Simulation cfg) (generation : Nat) :
    Keeps s (s.fireTimer generation) := by
  rw [fireTimer]
  split
  · exact .refl s
  · dsimp only
    rw [announceAll_eq, scheduleAll_frame]
    exact ⟨rfl, rfl, rfl, rfl, rfl⟩

theorem execute_keeps (s : Simulation cfg) (action : Action) : Keeps s (s.execute action) := by
  cases action with
  | addRoute | setParent | setPrefix | startTraffic | takeSnapshot => exact ⟨rfl, rfl, rfl, rfl, rfl⟩
  | removeRoute | clearParent | stopTraffic =>
    simp only [execute, stopTraffic]
    split
    · exact .refl s
    · exact ⟨rfl, rfl, rfl, rfl, rfl⟩

theorem rescheduleTimer_keeps (s : Simulation cfg) : Keeps s s.rescheduleTimer := by
  unfold rescheduleTimer
  split
  · exact .refl s
  · exact ⟨rfl, rfl, rfl, rfl, rfl⟩

theorem snapshotIfDue_keeps (s : Simulation cfg) : Keeps s s.snapshotIfDue := by
  obtain ⟨snapshots, next, hframe⟩ := snapshotIfDue_frame s
  rw [hframe]
  exact ⟨rfl, rfl, rfl, rfl, rfl⟩

/-- **No other event** touches the records of the observers. -/
theorem happen_keeps (s : Simulation cfg) (hother : ∀ i, event ≠ .fetch i) :
    Keeps s (s.happen event) := by
  cases event with
  | packet source generation => exact deliverPacket_keeps s source generation
  | routeChange change route => exact reportChange_keeps s change route
  | timer generation => exact fireTimer_keeps s generation
  | fetch i => exact absurd rfl (hother i)
  | action action => exact execute_keeps s action

/-- A retrieval is noted by its observer and by the simulation. -/
theorem fetch_of_some {o : Observer} (h : s.observers[i]? = some o) :
    ∃ result, (s.fetch i).observers = s.observers.set i (o.note result) ∧
      (s.fetch i).metrics = s.metrics.serve result := by
  refine ⟨(o.fetch s.node.resource (.steady s.routing) s.now).value.2, ?_⟩
  rw [fetch, h]
  dsimp only
  have hnoted : (o.fetch s.node.resource (.steady s.routing) s.now).value.1 =
      o.note (o.fetch s.node.resource (.steady s.routing) s.now).value.2 := rfl
  rw [hnoted]
  cases (o.fetch s.node.resource (.steady s.routing) s.now).value.2 with
  | ok x => exact ⟨rfl, rfl⟩
  | error cause => exact ⟨rfl, rfl⟩

theorem fetch_of_none (h : s.observers[i]? = none) : s.fetch i = s := by
  rw [fetch, h]

/-- A retrieval is tried by the observer that it is meant for, and by no other. -/
theorem attempts_fetch {j : Nat} {o' : Observer} (h : (s.fetch j).observers[i]? = some o') :
    ∃ o, s.observers[i]? = some o ∧ o'.attempts = o.attempts + if j = i then 1 else 0 := by
  cases hobserver : s.observers[j]? with
  | none =>
    rw [fetch_of_none hobserver] at h
    have hother : j ≠ i := by
      rintro rfl
      rw [h] at hobserver
      cases hobserver
    exact ⟨o', h, by rw [if_neg hother, Nat.add_zero]⟩
  | some o =>
    obtain ⟨result, hset, -⟩ := fetch_of_some hobserver
    rw [hset] at h
    by_cases hmeant : j = i
    · subst hmeant
      have hlength : j < s.observers.length := (List.getElem?_eq_some_iff.mp hobserver).1
      rw [List.getElem?_set_self hlength] at h
      cases h
      exact ⟨o, hobserver, by rw [if_pos rfl, Observer.note_attempts]⟩
    · rw [List.getElem?_set_ne hmeant] at h
      exact ⟨o', h, by rw [if_neg hmeant, Nat.add_zero]⟩

/-- An event makes an observer try a retrieval if it is one, and meant for this observer. -/
theorem attempts_happen {o' : Observer} (h : (s.happen event).observers[i]? = some o') :
    ∃ o, s.observers[i]? = some o ∧
      o'.attempts = o.attempts + if event = .fetch i then 1 else 0 := by
  have hkept : (∀ j, event ≠ .fetch j) → (s.happen event).observers = s.observers :=
    fun hother => (happen_keeps s hother).observers
  cases event with
  | fetch j =>
    simp only [Event.fetch.injEq]
    exact attempts_fetch h
  | packet | routeChange | timer | action =>
    rw [hkept nofun] at h
    exact ⟨o', h, by rw [if_neg nofun, Nat.add_zero]⟩

/-! ### The balance -/

/-- The counters of a simulation agree with the node and with the records of the observers. -/
structure Balanced (s : Simulation cfg) : Prop where
  notifications : s.metrics.notifications = s.node.notifier.total
  fetches : s.metrics.fetches = tally (fun o => o.history.length) s.observers
  fetchErrors : s.metrics.fetchErrors = tally Observer.errors s.observers
  exchanges :
    s.metrics.exchanges = tally (fun o => tally Retrieval.exchanges o.history) s.observers
  bytesServed :
    s.metrics.bytesServed = tally (fun o => tally Retrieval.bodyLength o.history) s.observers

theorem Balanced.of_keeps (h : s.Balanced) (hkeeps : Keeps s s')
    (hnotifications : s'.metrics.notifications = s'.node.notifier.total) : s'.Balanced where
  notifications := hnotifications
  fetches := by rw [hkeeps.fetches, hkeeps.observers, h.fetches]
  fetchErrors := by rw [hkeeps.fetchErrors, hkeeps.observers, h.fetchErrors]
  exchanges := by rw [hkeeps.exchanges, hkeeps.observers, h.exchanges]
  bytesServed := by rw [hkeeps.bytesServed, hkeeps.observers, h.bytesServed]

/-- **A retrieval is entered on both sides.** Whatever adds as much to a counter as to the record of
the observer leaves the counter in agreement with all records. -/
theorem tally_fetch (counter : Metrics → Nat) (record : Observer → Nat)
    (hentered : ∀ m o result, ∃ k, counter (Metrics.serve m result) = counter m + k ∧
      record (Observer.note o result) = record o + k)
    (h : counter s.metrics = tally record s.observers) (i : Nat) :
    counter (s.fetch i).metrics = tally record (s.fetch i).observers := by
  cases hobserver : s.observers[i]? with
  | none =>
    rw [fetch_of_none hobserver]
    exact h
  | some o =>
    obtain ⟨result, hobservers, hmetrics⟩ := fetch_of_some hobserver
    obtain ⟨k, hcounter, hrecord⟩ := hentered s.metrics o result
    rw [hobservers, hmetrics, hcounter, tally_set hobserver hrecord, h]

theorem Balanced.fetch (h : s.Balanced) (i : Nat)
    (hnotifications : (s.fetch i).metrics.notifications = (s.fetch i).node.notifier.total) :
    (s.fetch i).Balanced where
  notifications := hnotifications
  fetches := by
    refine tally_fetch Metrics.fetches (fun o => o.history.length) (fun m o result => ?_) h.fetches i
    cases result with
    | ok x => exact ⟨1, rfl, List.length_append⟩
    | error cause => exact ⟨0, rfl, rfl⟩
  fetchErrors := by
    refine tally_fetch Metrics.fetchErrors Observer.errors (fun m o result => ?_) h.fetchErrors i
    cases result with
    | ok x => exact ⟨0, rfl, rfl⟩
    | error cause => exact ⟨1, rfl, rfl⟩
  exchanges := by
    refine tally_fetch Metrics.exchanges (fun o => tally Retrieval.exchanges o.history)
      (fun m o result => ?_) h.exchanges i
    cases result with
    | ok x => exact ⟨x.exchanges, rfl, tally_snoc _ _ x⟩
    | error cause => exact ⟨0, rfl, rfl⟩
  bytesServed := by
    refine tally_fetch Metrics.bytesServed (fun o => tally Retrieval.bodyLength o.history)
      (fun m o result => ?_) h.bytesServed i
    cases result with
    | ok x => exact ⟨x.bodyLength, rfl, tally_snoc _ _ x⟩
    | error cause => exact ⟨0, rfl, rfl⟩

/-- **One event.** -/
theorem Balanced.happen (h : s.Balanced) (hidle : s.Idle) (event : Event) :
    (s.happen event).Balanced := by
  have heffect := happen_effect hidle event
  have hnotifications : (s.happen event).metrics.notifications =
      (s.happen event).node.notifier.total := by
    rw [heffect.counted, heffect.total, h.notifications]
  cases event with
  | fetch i => exact h.fetch i hnotifications
  | packet | routeChange | timer | action => exact h.of_keeps (happen_keeps s nofun) hnotifications

/-- The timer and the snapshot after an event do not touch the records either. -/
theorem handle_keeps (s : Simulation cfg) (event : Event) :
    Keeps (s.happen event) (handle (s, event)) :=
  (rescheduleTimer_keeps _).trans (snapshotIfDue_keeps _)

theorem Idle.handle (h : s.Idle) (event : Event) : (handle (s, event)).Idle := by
  have hidle := (happen_effect h event).idle
  have hnode := (handle_frame s event).1
  exact ⟨by rw [hnode, hidle.inbox], by rw [hnode, hidle.pending]⟩

theorem Balanced.handle (h : s.Balanced) (hidle : s.Idle) (event : Event) :
    (handle (s, event)).Balanced := by
  have hhappened := h.happen hidle event
  obtain ⟨hnode, -, -, hcounted⟩ := handle_frame s event
  refine hhappened.of_keeps (handle_keeps s event) ?_
  rw [hcounted, hnode, hhappened.notifications]

/-! ### The queue -/

/-- The retrievals of an observer that are still on the agenda. -/
def queuedFor (s : Simulation cfg) (i : Nat) : Nat :=
  s.agenda.entries.countP fun e => decide (e.event = .fetch i)

/-- The retrievals that are still on the agenda. -/
def queuedFetches (s : Simulation cfg) : Nat := s.agenda.entries.countP fun e => e.event.isFetch

/-- Every observer has tried one retrieval for each notification, but for those that are still on
the agenda, and nobody else has any there. -/
structure Served (s : Simulation cfg) : Prop where
  answered : ∀ i o, s.observers[i]? = some o → o.attempts + s.queuedFor i = s.metrics.notifications
  known : ∀ e ∈ s.agenda.entries, ∀ i, e.event = .fetch i → i < s.observers.length

/-- The same with an event taken off the agenda. -/
structure Owing (s : Simulation cfg) (event : Event) : Prop where
  answered : ∀ i o, s.observers[i]? = some o →
    o.attempts + s.queuedFor i + (if event = .fetch i then 1 else 0) = s.metrics.notifications
  known : ∀ e ∈ s.agenda.entries, ∀ i, e.event = .fetch i → i < s.observers.length

theorem queuedFor_schedule (s : Simulation cfg) (time : Instant) (event : Event) (i : Nat) :
    (s.schedule time event).queuedFor i = s.queuedFor i + if event = .fetch i then 1 else 0 :=
  queued_schedule s time event (.fetch i)

/-- Only notifications put retrievals on the agenda, and only for observers that there are. -/
theorem timer_of_mem_news {x : Instant × Event} (h : x ∈ s.news event) (hfetch : x.2 = .fetch i) :
    (∃ g, event = .timer g) ∧ i < s.observers.length := by
  cases follows_of_mem_news h with
  | retrieval hobserver =>
    cases hfetch
    exact ⟨⟨_, rfl⟩, hobserver⟩
  | packet | start | report => cases hfetch

/-- One row of retrievals has one for each observer. -/
theorem countP_fetches (h : i < s.observers.length) :
    s.fetches.countP (fun x => decide (x.2 = .fetch i)) = 1 := by
  have hone : (List.range s.observers.length).count i = 1 :=
    List.count_eq_one_of_mem List.nodup_range (List.mem_range.mpr h)
  rw [fetches, List.countP_map, ← hone, List.count]
  refine List.countP_congr fun j _ => ?_
  simp only [Function.comp_apply, Event.fetch.injEq, decide_eq_true_eq, beq_iff_eq]

/-- **An event** puts as many retrievals of an observer on the agenda as it raises notifications. -/
theorem countP_news (h : i < s.observers.length) (event : Event) :
    (s.news event).countP (fun x => decide (x.2 = .fetch i)) = s.notices event := by
  by_cases htimer : ∃ g, event = .timer g
  · obtain ⟨g, rfl⟩ := htimer
    rw [news]
    induction s.notices (.timer g) with
    | zero => rfl
    | succ count ih =>
      rw [List.replicate_succ, List.flatten_cons, List.countP_append, ih, countP_fetches h,
        Nat.add_comm]
  · have hquiet : s.notices event = 0 := by
      by_contra hnotices
      exact htimer ⟨_, (live_of_notices hnotices).1⟩
    rw [hquiet, List.countP_eq_zero]
    intro x hx hfetch
    exact htimer (timer_of_mem_news hx (of_decide_eq_true hfetch)).1

/-- Before it happens, an event is taken off the agenda. -/
theorem Served.due {s₀ : Simulation cfg} (h : s.Served) (hdue : s.due? stop = some (s₀, event)) :
    Owing s₀ event := by
  have htaken : ∀ i, s.queuedFor i = s₀.queuedFor i + if event = .fetch i then 1 else 0 :=
    fun i => queued_due hdue (.fetch i)
  obtain ⟨time, number, rest, hentries, -, rfl⟩ := due?_eq_some_iff.mp hdue
  rw [advance_frame] at htaken ⊢
  refine ⟨fun i o ho => ?_, fun e he => h.known e ?_⟩
  · rw [Nat.add_assoc, ← htaken]
    exact h.answered i o ho
  · rw [hentries]
    exact List.mem_cons_of_mem _ he

/-- **One event.** A retrieval that was on the agenda has been tried, and what has been announced is
on the agenda. -/
theorem Owing.happen (h : Owing s event) (hidle : s.Idle) : (s.happen event).Served := by
  have heffect := happen_effect hidle event
  have hentries : (s.happen event).agenda.entries.Perm
      (numbered s.nextNumber (s.news event) ++ s.agenda.entries) := by
    rw [heffect.agenda]
    exact scheduleAll_perm s _
  refine ⟨fun i o' ho' => ?_, fun e he i hfetch => ?_⟩
  · obtain ⟨o, ho, hattempts⟩ := attempts_happen ho'
    have hlength : i < s.observers.length := (List.getElem?_eq_some_iff.mp ho).1
    have hqueued : (s.happen event).queuedFor i = s.queuedFor i + s.notices event := by
      rw [← countP_news hlength event]
      exact happen_queued hidle event (.fetch i)
    have hanswered := h.answered i o ho
    rw [hattempts, hqueued, heffect.counted]
    omega
  · rw [heffect.observers]
    rcases List.mem_append.mp (hentries.mem_iff.mp he) with hnew | hold
    · exact (timer_of_mem_news (mem_of_mem_numbered hnew) hfetch).2
    · exact h.known e hold i hfetch

theorem Owing.handle (h : Owing s event) (hidle : s.Idle) : (handle (s, event)).Served := by
  have hhappened := h.happen hidle
  have hobservers := (handle_keeps s event).observers
  obtain ⟨-, hagenda, -, hcounted⟩ := handle_frame s event
  have hqueued : ∀ i, (Simulation.handle (s, event)).queuedFor i = (s.happen event).queuedFor i := by
    intro i
    rw [queuedFor, hagenda]
    exact rescheduleTimer_queued _ nofun
  refine ⟨fun i o ho => ?_, fun e he i hfetch => ?_⟩
  · rw [hobservers] at ho
    rw [hqueued, hcounted, hhappened.answered i o ho]
  · rw [hobservers]
    refine hhappened.known e ?_ i hfetch
    rw [hagenda, rescheduleTimer] at he
    split at he
    · exact he
    · rcases Agenda.mem_insert_iff.mp he with rfl | he
      · cases hfetch
      · exact he

/-! ### All observers together -/

theorem countP_below_succ (entries : List Scheduled) (k : Nat) :
    entries.countP (fun e => e.event.isFetchBelow (k + 1)) =
      entries.countP (fun e => e.event.isFetchBelow k) +
        entries.countP fun e => decide (e.event = .fetch k) := by
  induction entries with
  | nil => rfl
  | cons e entries ih =>
    rw [List.countP_cons, List.countP_cons, List.countP_cons, ih]
    have hone : (if e.event.isFetchBelow (k + 1) = true then 1 else 0) =
        (if e.event.isFetchBelow k = true then 1 else 0) +
          if decide (e.event = .fetch k) = true then 1 else 0 := by
      cases e.event with
      | fetch i =>
        simp only [Event.isFetchBelow, decide_eq_true_eq, Event.fetch.injEq]
        split <;> split <;> split <;> omega
      | packet | routeChange | timer | action => rfl
    omega

/-- The first observers together. -/
theorem Served.total_below (h : s.Served) {k : Nat} (hk : k ≤ s.observers.length) :
    tally Observer.attempts (s.observers.take k) +
        s.agenda.entries.countP (fun e => e.event.isFetchBelow k) =
      s.metrics.notifications * k := by
  induction k with
  | zero =>
    have hnone : s.agenda.entries.countP (fun e => e.event.isFetchBelow 0) = 0 := by
      rw [List.countP_eq_zero]
      intro e _ hbelow
      cases hevent : e.event with
      | fetch i =>
        rw [hevent] at hbelow
        exact Nat.not_lt_zero i (of_decide_eq_true hbelow)
      | packet | routeChange | timer | action =>
        rw [hevent] at hbelow
        cases hbelow
    rw [hnone, List.take_zero]
    rfl
  | succ k ih =>
    have hobserver : s.observers[k]? = some s.observers[k] := List.getElem?_eq_getElem hk
    have hanswered := h.answered k _ hobserver
    have hbelow := ih (Nat.le_of_succ_le hk)
    rw [queuedFor] at hanswered
    rw [List.take_add_one, hobserver, Option.toList_some, tally_snoc, countP_below_succ, Nat.mul_succ]
    omega

/-- **All observers** together have tried one retrieval for each notification and observer, but for
those that are still on the agenda. -/
theorem Served.total (h : s.Served) :
    tally Observer.attempts s.observers + s.queuedFetches =
      s.metrics.notifications * s.observers.length := by
  have hsame : s.queuedFetches =
      s.agenda.entries.countP fun e => e.event.isFetchBelow s.observers.length := by
    refine List.countP_congr fun e he => ?_
    cases hevent : e.event with
    | fetch i =>
      have hlength := h.known e he i hevent
      simp only [Event.isFetch, Event.isFetchBelow, hlength, decide_true]
    | packet | routeChange | timer | action => exact Iff.rfl
  have htotal := h.total_below (Nat.le_refl _)
  rw [List.take_length] at htotal
  rw [hsame, htotal]

end Simulation

end ObservableTree
