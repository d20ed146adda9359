import ObservableTree.Resource.Basic

/-!
# Packets, route changes and timers

* `Resource.onEvent` — traffic goes into the table of neighbors, and a change of the children arms
  the timer;
* `SweepLoop`, `Resource.sweepPass`, `Resource.sweepDue?` — the sweeps that are due, one eviction for
  each period that has passed, and nothing if they never end;
* `Resource.notifyDue`, `notifyDue_cases` — the notification if it is due;
* `Resource.onTimer?`, `Resource.onTimer` — the sweeps that are due, and then the notification;
* `onTimer_cases`, `onTimer_notice`, `onTimer_induction` — all that a call of the timers does;
* `Input`, `Resource.react`, `Resource.reactAll` — events and timer calls as data, one or many.
-/

namespace ObservableTree

/-- A call of one of the handlers: an event or a timer, and the instant of the call. -/
inductive Input where
  | event (event : TopologyEvent) (now : Instant)
  | timer (now : Instant)
deriving DecidableEq

namespace Resource

variable {cfg : Settings}

/-! ### Events -/

/-- What there is to trace about an observation. -/
def observationTraces (now : Instant) (source : Address) (outcome : Observation)
    (occupied : Nat) : List Trace :=
  .packetObserved now source outcome ::
    match outcome with
    | .inserted => [.neighborTracked now source occupied]
    | .dropped => [.neighborDropped now source]
    | .refreshed => []

/-- Traffic from a neighbor. -/
def onPacket (r : Resource cfg) (source : Address) (now : Instant) : Reaction cfg Unit :=
  let seen := r.table.observe source now
  { value := ()
    state := { r with table := seen.1 }
    notices := 0
    traces := observationTraces now source seen.2 seen.1.length }

/-- A change of the routes. Only one that can alter the children arms the timer. -/
def onChange (r : Resource cfg) (change : RouteChange) (destination : Address) (now : Instant) :
    Reaction cfg Unit :=
  if change.affectsChildren then
    { value := ()
      state := { r with debounce := r.debounce.arm now }
      notices := 0
      traces := [.debounceArmed now change destination (r.debounce.fireAt now)] }
  else
    { value := (), state := r, notices := 0, traces := [.changeIgnored change] }

/-- One event. -/
def onEvent (r : Resource cfg) (event : TopologyEvent) (now : Instant) : Reaction cfg Unit :=
  match event with
  | .packet source => r.onPacket source now
  | .routeChanged change route _ => r.onChange change route.destination now

/-! ### Sweeps -/

end Resource

/-- The loop over the sweeps of a call, between two of its passes. -/
structure SweepLoop where
  table : NeighborTable
  nextSweep : Instant
  evicted : List Entry
deriving DecidableEq

namespace Resource

variable {cfg : Settings}

/-- One pass of the loop. Each eviction uses up one period; a sweep that finds nothing puts the next
one off to a period from now. -/
def sweepPass (cfg : Settings) (now : Instant) (l : SweepLoop) : SweepLoop :=
  match l.table.sweep now cfg.staleness with
  | (swept, some e) => ⟨swept, l.nextSweep + cfg.sweepPeriod, l.evicted ++ [e]⟩
  | (swept, none) => ⟨swept, now + cfg.sweepPeriod, l.evicted⟩

/-- The loop goes on while the next sweep is due. It is given so many rounds, and there is no result
if it has not come to its end by then. -/
def sweepRounds (cfg : Settings) (now : Instant) : (rounds : Nat) → SweepLoop → Option SweepLoop
  | 0, l => if l.nextSweep ≤ now then none else some l
  | rounds + 1, l =>
    if l.nextSweep ≤ now then sweepRounds cfg now rounds (sweepPass cfg now l) else some l

/-- The sweeps that are due, and the entries they free. A loop that has not ended after as many rounds
as there are entries, and one more, never ends, and then there is no result: at the last instant no
sweep can be put off beyond the call, and with an empty period no sweep ever is. -/
def sweepDue? (r : Resource cfg) (now : Instant) : Option (Resource cfg × List Entry) :=
  (sweepRounds cfg now (r.table.length + 1) ⟨r.table, r.nextSweep, []⟩).map fun l =>
    ({ r with table := l.table, nextSweep := l.nextSweep }, l.evicted)

/-- What a due pass preserves holds at the end of the loop. -/
theorem sweepRounds_induction {now : Instant} {motive : SweepLoop → Prop}
    (hpass : ∀ l, l.nextSweep ≤ now → motive l → motive (sweepPass cfg now l)) {rounds : Nat}
    {l ended : SweepLoop} (hstart : motive l) (hend : sweepRounds cfg now rounds l = some ended) :
    motive ended := by
  induction rounds generalizing l with
  | zero =>
    rw [sweepRounds] at hend
    split at hend
    · cases hend
    · cases hend
      exact hstart
  | succ rounds ih =>
    rw [sweepRounds] at hend
    split at hend
    · next hdue => exact ih (hpass l hdue hstart) hend
    · cases hend
      exact hstart

/-! ### Notifications -/

/-- The notification, if it is due, with the number of changes that it covers. -/
def notifyDue (r : Resource cfg) (now : Instant) : Resource cfg × Option Nat :=
  match r.debounce.poll now with
  | (debounce, some coalesced) =>
    ({ r with debounce := debounce, fresh := true, noticeNumber := r.noticeNumber + 1 },
      some coalesced)
  | (_, none) => (r, none)

/-- **What becomes of a notification**: it is due and no longer pending, or nothing changes. -/
theorem notifyDue_cases (r : Resource cfg) (now : Instant) :
    (r.debounce.isDue now = true ∧
      r.notifyDue now =
        ({ r with
            debounce := .ofInterval r.debounce.interval
            fresh := true
            noticeNumber := r.noticeNumber + 1 }, some r.debounce.coalesced)) ∨
      (¬r.debounce.isDue now = true ∧ r.notifyDue now = (r, none)) := by
  by_cases hdue : r.debounce.isDue now = true
  · refine .inl ⟨hdue, ?_⟩
    rw [notifyDue, Debounce.poll_of_due now hdue]
    rfl
  · refine .inr ⟨hdue, ?_⟩
    rw [notifyDue, Debounce.poll_of_not_due now hdue]

/-! ### Timers -/

/-- The sweeps that are due, and then the notification if it is due. A call whose sweeps never end
does not come back. -/
def onTimer? (r : Resource cfg) (now : Instant) : Option (Reaction cfg Unit) :=
  (r.sweepDue? now).map fun swept =>
    let notified := swept.1.notifyDue now
    { value := ()
      state := notified.1
      notices := if notified.2.isSome then 1 else 0
      traces := swept.2.map (.neighborEvicted now) ++
        notified.2.toList.map (.notificationFired now) }

/-- A call of the timers as one of many inputs. Nothing is ever seen of one that does not come
back. -/
def onTimer (r : Resource cfg) (now : Instant) : Reaction cfg Unit :=
  (r.onTimer? now).getD (.still r ())

/-- A call whose sweeps have ended tells subscribers or not. -/
theorem onTimer?_of_swept {r swept : Resource cfg} {now : Instant} {evicted : List Entry}
    (h : r.sweepDue? now = some (swept, evicted)) :
    (swept.debounce.isDue now = true ∧
      r.onTimer? now = some
        { value := ()
          state :=
            { swept with
                debounce := .ofInterval swept.debounce.interval
                fresh := true
                noticeNumber := swept.noticeNumber + 1 }
          notices := 1
          traces := evicted.map (.neighborEvicted now) ++
            [.notificationFired now swept.debounce.coalesced] }) ∨
    (¬swept.debounce.isDue now = true ∧
      r.onTimer? now = some ⟨(), swept, 0, evicted.map (.neighborEvicted now)⟩) := by
  rw [onTimer?, h, Option.map_some]
  dsimp only
  rcases notifyDue_cases swept now with ⟨hdue, hnotified⟩ | ⟨hdue, hnotified⟩
  · rw [hnotified]
    exact .inl ⟨hdue, rfl⟩
  · rw [hnotified]
    exact .inr ⟨hdue, by rw [Option.toList_none, List.map_nil, List.append_nil]; rfl⟩

/-- **What a call of the timers does.** Its sweeps never end and nothing is seen of it, or they end and
the notification is due, or they end and it is not. -/
theorem onTimer_cases (r : Resource cfg) (now : Instant) :
    (r.onTimer? now = none ∧ r.onTimer now = .still r ()) ∨
    ∃ l, sweepRounds cfg now (r.table.length + 1) ⟨r.table, r.nextSweep, []⟩ = some l ∧
      r.onTimer? now = some (r.onTimer now) ∧
      ((r.debounce.isDue now = true ∧
        r.onTimer now =
          { value := ()
            state :=
              { table := l.table
                debounce := .ofInterval r.debounce.interval
                fresh := true
                noticeNumber := r.noticeNumber + 1
                nextSweep := l.nextSweep }
            notices := 1
            traces := l.evicted.map (.neighborEvicted now) ++
              [.notificationFired now r.debounce.coalesced] }) ∨
      (¬r.debounce.isDue now = true ∧
        r.onTimer now =
          ⟨(), { r with table := l.table, nextSweep := l.nextSweep }, 0,
            l.evicted.map (.neighborEvicted now)⟩)) := by
  cases hloop : sweepRounds cfg now (r.table.length + 1) ⟨r.table, r.nextSweep, []⟩ with
  | none =>
    have hnone : r.onTimer? now = none := by rw [onTimer?, sweepDue?, hloop]; rfl
    exact .inl ⟨hnone, by rw [onTimer, hnone]; rfl⟩
  | some l =>
    have hswept : r.sweepDue? now =
        some ({ r with table := l.table, nextSweep := l.nextSweep }, l.evicted) := by
      rw [sweepDue?, hloop]
      rfl
    refine .inr ⟨l, rfl, ?_⟩
    rcases onTimer?_of_swept hswept with ⟨hdue, hcall⟩ | ⟨hdue, hcall⟩
    · rw [onTimer, hcall, Option.getD_some]
      exact ⟨rfl, .inl ⟨hdue, rfl⟩⟩
    · rw [onTimer, hcall, Option.getD_some]
      exact ⟨rfl, .inr ⟨hdue, rfl⟩⟩

/-- What the timers do about a notification: nothing, or it is due and raised. -/
theorem onTimer_notice (r : Resource cfg) (now : Instant) :
    let x := r.onTimer now
    (x.notices = 0 ∧ x.state.debounce = r.debounce ∧ x.state.fresh = r.fresh ∧
        x.state.noticeNumber = r.noticeNumber) ∨
      (x.notices = 1 ∧ r.debounce.isDue now = true ∧
        x.state.debounce = .ofInterval r.debounce.interval ∧ x.state.fresh = true ∧
        x.state.noticeNumber = r.noticeNumber + 1) := by
  intro x
  rcases onTimer_cases r now with ⟨-, hx⟩ | ⟨l, -, -, ⟨hdue, hx⟩ | ⟨-, hx⟩⟩
  · rw [show x = _ from hx]
    exact .inl ⟨rfl, rfl, rfl, rfl⟩
  · rw [show x = _ from hx]
    exact .inr ⟨rfl, hdue, rfl, rfl, rfl⟩
  · rw [show x = _ from hx]
    exact .inl ⟨rfl, rfl, rfl, rfl⟩

/-- **What a due pass preserves holds after a call of the timers**, of the table, the next sweep and
the entries that are traced as evicted. -/
theorem onTimer_induction (r : Resource cfg) (now : Instant) {motive : SweepLoop → Prop}
    (hpass : ∀ l, l.nextSweep ≤ now → motive l → motive (sweepPass cfg now l))
    (hstart : motive ⟨r.table, r.nextSweep, []⟩) :
    let x := r.onTimer now
    ∃ (evicted : List Entry) (fired : Option Nat),
      motive ⟨x.state.table, x.state.nextSweep, evicted⟩ ∧
        x.traces = evicted.map (.neighborEvicted now) ++ fired.toList.map (.notificationFired now) := by
  intro x
  rcases onTimer_cases r now with ⟨-, hx⟩ | ⟨l, hend, -, ⟨-, hx⟩ | ⟨-, hx⟩⟩
  · rw [show x = _ from hx]
    exact ⟨[], none, hstart, rfl⟩
  · rw [show x = _ from hx]
    exact ⟨l.evicted, some _, sweepRounds_induction hpass hstart hend, rfl⟩
  · rw [show x = _ from hx]
    exact ⟨l.evicted, none, sweepRounds_induction hpass hstart hend, (List.append_nil _).symm⟩

/-! ### Inputs as data -/

/-- One input. -/
def react (r : Resource cfg) : Input → Reaction cfg Unit
  | .event event now => r.onEvent event now
  | .timer now => r.onTimer now

/-- Several inputs, one after another. -/
def reactAll (r : Resource cfg) : List Input → Reaction cfg Unit
  | [] => .still r ()
  | i :: is => (r.react i).andThen fun _ r' => r'.reactAll is

theorem reactAll_append (r : Resource cfg) (is js : List Input) :
    r.reactAll (is ++ js) = (r.reactAll is).andThen fun _ r' => r'.reactAll js := by
  induction is generalizing r with
  | nil => simp only [List.nil_append, reactAll, Reaction.still_andThen]
  | cons i is ih => simp only [List.cons_append, reactAll, ih, Reaction.andThen_assoc]

theorem onChange_table (r : Resource cfg) (change : RouteChange) (destination : Address)
    (now : Instant) : (r.onChange change destination now).state.table = r.table := by
  unfold onChange; split <;> rfl

theorem onEvent_nextSweep (r : Resource cfg) (event : TopologyEvent) (now : Instant) :
    (r.onEvent event now).state.nextSweep = r.nextSweep := by
  cases event with
  | packet => rfl
  | routeChanged change route => unfold onEvent onChange; dsimp only; split <;> rfl

end Resource

end ObservableTree
