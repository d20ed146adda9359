import ObservableTree.Proofs.Runs
import ObservableTree.Proofs.Sweeping

/-!
# One notification for each row of changes

The timer for notifications hears of nothing but its own calls and of routes that were added or
removed. Whatever else a resource does, and in whichever order its clock shows the instants,
subscribers are told when a whole interval has passed since the last of these changes, and they are
told of all changes since the last time. But the timer hears of a call only when the sweeps of the call
have come to their end:

* `Resource.StartedAt`, `Instant.comesBack` — whether a call of the timers comes back depends on its
  instant alone;
* `Debounce.heed`, `Debounce.firings` — the timer on its own, and what it traces when it fires;
* `onTimer?_debounce`, `react_of_concerned`, `calls_debounce` — in a resource it does just this;
* `Moment`, `Resource.chronicle`, `changesSince` — the changes since subscribers were last told;
* `Debounce.ofChanges`, `debounce_calls` — the timer holds exactly these changes;
* `run_debounced` — which calls come back, when the timer fires, what it reports, and that nothing else
  has a part in it;
* `endless_call_of_change` — a change of which no call at the last instant tells anyone.
-/

namespace ObservableTree

/-! ### Calls that come back -/

/-- Whether a call of the timers comes back, in a resource that has started at an instant `t`. -/
def Instant.comesBack (now : Instant) (cfg : Settings) (t : Instant) : Bool :=
  decide (now < t) || (decide (now < .last) && decide (0 < cfg.sweepPeriod.millis))

namespace Resource

variable {cfg : Settings} {r : Resource cfg} {t : Instant}

/-- With an empty period the next sweep stays where it was at the start. -/
def StartedAt (t : Instant) (r : Resource cfg) : Prop :=
  0 < cfg.sweepPeriod.millis ∨ r.nextSweep = t

theorem startedAt_startingAt (cfg : Settings) (t : Instant) : StartedAt t (startingAt cfg t) := by
  rcases Nat.eq_zero_or_pos cfg.sweepPeriod.millis with hzero | hpos
  · have hbound := t.bounded
    refine .inr (Instant.ext_millis ?_)
    show (t + cfg.sweepPeriod).millis = t.millis
    rw [Instant.after_millis]
    omega
  · exact .inl hpos

/-- Whether a call comes back depends on its instant alone. -/
theorem StartedAt.onTimer?_isSome (h : StartedAt t r) (now : Instant) :
    (r.onTimer? now).isSome = now.comesBack cfg t := by
  rw [Bool.eq_iff_iff, onTimer?_isSome_iff, Instant.comesBack, Bool.or_eq_true, Bool.and_eq_true,
    decide_eq_true_iff, decide_eq_true_iff, decide_eq_true_iff]
  rcases h with hperiod | hsame
  · -- whatever lies in front of another instant lies in front of the last one
    have hlast : ∀ s : Instant, now < s → now < .last ∧ 0 < cfg.sweepPeriod.millis :=
      fun s hs => ⟨Nat.lt_of_lt_of_le hs (Instant.le_last s), hperiod⟩
    exact ⟨fun hback => .inr (hback.elim (hlast _) id), fun hback => .inr (hback.elim (hlast _) id)⟩
  · rw [hsame]

theorem StartedAt.react (h : StartedAt t r) (i : Input) : StartedAt t (r.react i).state := by
  by_cases hperiod : 0 < cfg.sweepPeriod.millis
  · exact .inl hperiod
  have hsame : r.nextSweep = t := h.resolve_left hperiod
  refine .inr ?_
  cases i with
  | event event now => exact (onEvent_nextSweep r event now).trans hsame
  | timer now =>
    show (r.onTimer now).state.nextSweep = t
    rcases onTimer_cases r now with ⟨-, hx⟩ | ⟨l, hend, hsome, hcase⟩
    · rw [hx]
      exact hsame
    · -- the call comes back, so no sweep was due
      have hback : (r.onTimer? now).isSome = true := by
        rw [hsome]
        rfl
      rw [onTimer?_isSome_iff] at hback
      rw [sweepRounds_of_later (hback.resolve_right fun hmore => hperiod hmore.2)] at hend
      cases hend
      rcases hcase with ⟨-, hx⟩ | ⟨-, hx⟩
      · rw [hx]
        exact hsame
      · rw [hx]
        exact hsame

theorem StartedAt.reactAll (h : StartedAt t r) (is : List Input) :
    StartedAt t (r.reactAll is).state := by
  induction is generalizing r with
  | nil => exact h
  | cons i is ih => exact ih (h.react i)

theorem StartedAt.call (h : StartedAt t r) (c : Call) : StartedAt t (r.call c) := by
  rw [StartedAt, call_nextSweep]
  exact h.reactAll c.inputs

theorem StartedAt.calls (h : StartedAt t r) (cs : List Call) : StartedAt t (r.calls cs) := by
  induction cs generalizing r with
  | nil => exact h
  | cons c cs ih => exact ih (h.call c)

end Resource

/-! ### The timer on its own -/

/-- The instant at which an input reports that a route was added or removed. -/
def Input.report? : Input → Option Instant
  | .event (.routeChanged .routeAdded _ _) now => some now
  | .event (.routeChanged .routeRemoved _ _) now => some now
  | _ => none

/-- Whether the timer hears of an input, in a resource that has started at an instant `t`: of a call of
the timers that comes back, or of a report. -/
def Input.concernsTimer (cfg : Settings) (t : Instant) : Input → Bool
  | .timer now => now.comesBack cfg t
  | i@(.event _ _) => i.report?.isSome

/-- Whether a trace tells of a notification. -/
def Trace.isFiring : Trace → Bool
  | .notificationFired _ _ => true
  | _ => false

namespace Debounce

/-- The timer after an input that it hears of, and the number of changes that it covers if it
fires. -/
def heed (d : Debounce) : Input → Debounce × Option Nat
  | .timer now => d.poll now
  | i@(.event _ _) =>
    match i.report? with
    | some now => (d.arm now, none)
    | none => (d, none)

/-- The timer after several inputs. -/
def heedAll (d : Debounce) (is : List Input) : Debounce := is.foldl (fun d i => (d.heed i).1) d

/-- What the timer traces in the course of several inputs. -/
def firings (d : Debounce) : List Input → List Trace
  | [] => []
  | i :: is => (d.heed i).2.toList.map (.notificationFired i.now) ++ (d.heed i).1.firings is

theorem heedAll_append (d : Debounce) (is js : List Input) :
    d.heedAll (is ++ js) = (d.heedAll is).heedAll js := List.foldl_append

theorem firings_append (d : Debounce) (is js : List Input) :
    d.firings (is ++ js) = d.firings is ++ (d.heedAll is).firings js := by
  induction is generalizing d with
  | nil => rfl
  | cons i is ih =>
    rw [List.cons_append, firings, ih, firings, List.append_assoc]
    rfl

end Debounce

/-! ### The timer in a resource -/

namespace Resource

variable {cfg : Settings} {r : Resource cfg} {t : Instant}

theorem evictions_not_firings (now : Instant) (evicted : List Entry) :
    (evicted.map (Trace.neighborEvicted now)).filter Trace.isFiring = [] := by
  simp [Trace.isFiring]

/-- **A call that comes back.** The timer does what it would do on its own, and subscribers are told
when it fires. -/
theorem onTimer?_debounce {now : Instant} {x : Reaction cfg Unit} (h : r.onTimer? now = some x) :
    x.state.debounce = (r.debounce.poll now).1 ∧
      x.notices = (r.debounce.poll now).2.toList.length ∧
      x.traces.filter Trace.isFiring =
        (r.debounce.poll now).2.toList.map (.notificationFired now) := by
  rcases onTimer_cases r now with ⟨hnone, -⟩ | ⟨l, -, hsome, ⟨hdue, hx⟩ | ⟨hdue, hx⟩⟩
  · rw [hnone] at h
    cases h
  · rw [hsome, Option.some_inj] at h
    rw [← h, hx, Debounce.poll_of_due now hdue]
    refine ⟨rfl, rfl, ?_⟩
    rw [List.filter_append, evictions_not_firings]
    rfl
  · rw [hsome, Option.some_inj] at h
    rw [← h, hx, Debounce.poll_of_not_due now hdue]
    exact ⟨rfl, rfl, evictions_not_firings now l.evicted⟩

theorem onEvent_debounce_heed (r : Resource cfg) (event : TopologyEvent) (now : Instant) :
    let x := r.onEvent event now
    x.state.debounce = (r.debounce.heed (.event event now)).1 ∧ x.notices = 0 ∧
      (r.debounce.heed (.event event now)).2 = none ∧ x.traces.filter Trace.isFiring = [] := by
  cases event with
  | packet source =>
    refine ⟨rfl, rfl, rfl, ?_⟩
    show (observationTraces now source _ _).filter Trace.isFiring = []
    unfold observationTraces
    split <;> simp [Trace.isFiring]
  | routeChanged change route count => cases change <;> exact ⟨rfl, rfl, rfl, rfl⟩

/-- **One input that the timer hears of.** -/
theorem react_of_concerned (h : StartedAt t r) {i : Input} (hi : i.concernsTimer cfg t = true) :
    let x := r.react i
    let y := r.debounce.heed i
    x.state.debounce = y.1 ∧ x.notices = y.2.toList.length ∧
      x.traces.filter Trace.isFiring = y.2.toList.map (.notificationFired i.now) := by
  cases i with
  | event event now =>
    obtain ⟨hstate, hnotices, hnone, htraces⟩ := onEvent_debounce_heed r event now
    dsimp only
    rw [hnone]
    exact ⟨hstate, hnotices, htraces⟩
  | timer now =>
    have hback : (r.onTimer? now).isSome = true := (h.onTimer?_isSome now).trans hi
    obtain ⟨x, hx⟩ := Option.isSome_iff_exists.mp hback
    have hcall : r.react (.timer now) = x := by
      show r.onTimer now = x
      rw [onTimer, hx]
      rfl
    dsimp only
    rw [hcall]
    exact onTimer?_debounce hx

/-- Any other input leaves the timer alone, and nobody is told. -/
theorem react_of_unconcerned (h : StartedAt t r) {i : Input} (hi : i.concernsTimer cfg t = false) :
    let x := r.react i
    x.state.debounce = r.debounce ∧ x.notices = 0 ∧ x.traces.filter Trace.isFiring = [] := by
  cases i with
  | event event now =>
    obtain ⟨hstate, hnotices, -, htraces⟩ := onEvent_debounce_heed r event now
    refine ⟨hstate.trans ?_, hnotices, htraces⟩
    rw [Input.concernsTimer, Option.isSome_eq_false_iff, Option.isNone_iff_eq_none] at hi
    simp only [Debounce.heed, hi]
  | timer now =>
    have hnever : (r.onTimer? now).isSome = false := (h.onTimer?_isSome now).trans hi
    rw [Option.isSome_eq_false_iff, Option.isNone_iff_eq_none] at hnever
    have hcall : r.react (.timer now) = .still r () := by
      show r.onTimer now = _
      rw [onTimer, hnever]
      rfl
    dsimp only
    rw [hcall]
    exact ⟨rfl, rfl, rfl⟩

theorem reactAll_debounce (h : StartedAt t r) (is : List Input) :
    let heard := is.filter (Input.concernsTimer cfg t)
    (r.reactAll is).state.debounce = r.debounce.heedAll heard ∧
      (r.reactAll is).traces.filter Trace.isFiring = r.debounce.firings heard := by
  induction is generalizing r with
  | nil => exact ⟨rfl, rfl⟩
  | cons i is ih =>
    obtain ⟨hrest, hmore⟩ := ih (h.react i)
    dsimp only
    rw [reactAll, Reaction.andThen_state, Reaction.andThen_traces, List.filter_append]
    cases hi : i.concernsTimer cfg t with
    | true =>
      obtain ⟨hstate, -, htraces⟩ := react_of_concerned h hi
      rw [hstate] at hrest hmore
      rw [List.filter_cons_of_pos hi, htraces, hmore]
      exact ⟨hrest, rfl⟩
    | false =>
      obtain ⟨hstate, -, htraces⟩ := react_of_unconcerned h hi
      rw [hstate] at hrest hmore
      rw [List.filter_cons_of_neg (Bool.eq_false_iff.mp hi), htraces, hmore]
      exact ⟨hrest, rfl⟩

theorem traced_firings (h : StartedAt t r) (c : Call) : (r.traced c).filter Trace.isFiring =
    r.debounce.firings (c.inputs.filter (Input.concernsTimer cfg t)) := by
  obtain ⟨answers, hanswers, htraces⟩ := traced_eq r c
  have hnone : answers.filter Trace.isFiring = [] := by
    refine List.filter_eq_nil_iff.mpr fun t ht => ?_
    cases t with
    | notificationFired => exact (hanswers _ ht).elim
    | _ => exact Bool.false_ne_true
  rw [htraces, List.filter_append, hnone, List.append_nil, (reactAll_debounce h c.inputs).2]

/-- **A run of calls.** Reads leave the timer alone, except for what they let in. -/
theorem calls_debounce (h : StartedAt t r) (cs : List Call) :
    let heard := (cs.flatMap Call.inputs).filter (Input.concernsTimer cfg t)
    (r.calls cs).debounce = r.debounce.heedAll heard ∧
      (r.trail cs).filter Trace.isFiring = r.debounce.firings heard := by
  induction cs generalizing r with
  | nil => exact ⟨rfl, rfl⟩
  | cons c cs ih =>
    have hcall : (r.call c).debounce =
        r.debounce.heedAll (c.inputs.filter (Input.concernsTimer cfg t)) := by
      rw [call_debounce, (reactAll_debounce h c.inputs).1]
    obtain ⟨hrest, hmore⟩ := ih (h.call c)
    rw [hcall] at hrest hmore
    dsimp only
    rw [List.flatMap_cons, List.filter_append, Debounce.heedAll_append, Debounce.firings_append]
    refine ⟨hrest, ?_⟩
    rw [trail, List.filter_append, traced_firings h, hmore]

end Resource

/-! ### The changes since subscribers were last told -/

/-- What counts for a notification to come: a route was added or removed, or subscribers were
told. -/
inductive Moment where
  | changed (now : Instant)
  | told
deriving DecidableEq

/-- The instants of the changes since subscribers were last told. -/
def changesSince (history : List Moment) : List Instant :=
  history.foldl
    (fun changes m =>
      match m with
      | .changed now => changes ++ [now]
      | .told => [])
    []

theorem changesSince_changed (history : List Moment) (now : Instant) :
    changesSince (history ++ [.changed now]) = changesSince history ++ [now] := by
  rw [changesSince, List.foldl_append]
  rfl

theorem changesSince_told (history : List Moment) : changesSince (history ++ [.told]) = [] := by
  rw [changesSince, List.foldl_append]
  rfl

namespace Debounce

/-- The timer that has been armed by changes at these instants since it last fired. -/
def ofChanges (interval : Span) (changes : List Instant) : Debounce where
  interval := interval
  deadline := changes.getLast?.map (· + interval)
  coalesced := min changes.length lastCount

variable (interval : Span) (changes : List Instant) (now : Instant)

theorem ofChanges_nil : ofChanges interval [] = ofInterval interval := rfl

theorem arm_ofChanges :
    (ofChanges interval changes).arm now = ofChanges interval (changes ++ [now]) := by
  have hcount : min (min changes.length lastCount + 1) lastCount =
      min (changes.length + 1) lastCount := by omega
  simp only [arm, ofChanges, fireAt, List.getLast?_concat, Option.map_some, List.length_append,
    List.length_singleton, hcount]

theorem isDue_ofChanges : (ofChanges interval changes).isDue now = true ↔
    ∃ last, changes.getLast? = some last ∧ last + interval ≤ now := by
  cases hlast : changes.getLast? with
  | none => simp [isDue, ofChanges, hlast]
  | some last => simp [isDue, ofChanges, hlast]

end Debounce

namespace Resource

variable {cfg : Settings}

/-- What an input adds to the history. -/
def moments (r : Resource cfg) (i : Input) : List Moment :=
  i.report?.toList.map .changed ++ List.replicate (r.react i).notices .told

/-- The history of several inputs. -/
def story (r : Resource cfg) : List Input → List Moment
  | [] => []
  | i :: is => r.moments i ++ (r.react i).state.story is

/-- The history of a run of calls. -/
def chronicle (r : Resource cfg) : List Call → List Moment
  | [] => []
  | c :: cs => r.story c.inputs ++ (r.call c).chronicle cs

variable {r : Resource cfg} {t : Instant} {history : List Moment}

/-- **One input.** The timer keeps to the changes since subscribers were last told. -/
theorem debounce_react (hstart : StartedAt t r)
    (h : r.debounce = .ofChanges cfg.debounce (changesSince history)) (i : Input) :
    (r.react i).state.debounce = .ofChanges cfg.debounce (changesSince (history ++ r.moments i)) := by
  cases hi : i.concernsTimer cfg t with
  | false =>
    obtain ⟨hstate, hnotices, -⟩ := react_of_unconcerned hstart hi
    have hsilent : i.report? = none := by
      cases i with
      | timer now => rfl
      | event event now =>
        rwa [Input.concernsTimer, Option.isSome_eq_false_iff, Option.isNone_iff_eq_none] at hi
    rw [hstate, moments, hnotices, hsilent, h]
    simp
  | true =>
    obtain ⟨hstate, hnotices, -⟩ := react_of_concerned hstart hi
    rw [hstate, moments, hnotices, h]
    cases i with
    | timer now =>
      by_cases hdue : (Debounce.ofChanges cfg.debounce (changesSince history)).isDue now = true
      · have htold : history ++ ((Input.timer now).report?.toList.map .changed ++
            List.replicate 1 .told) = history ++ [.told] := rfl
        rw [Debounce.heed, Debounce.poll_of_due now hdue]
        show _ = Debounce.ofChanges cfg.debounce (changesSince (history ++ (_ ++ List.replicate 1 _)))
        rw [htold, changesSince_told]
        rfl
      · rw [Debounce.heed, Debounce.poll_of_not_due now hdue]
        simp [Input.report?]
    | event event now =>
      rw [Debounce.heed]
      cases Input.report? (.event event now) with
      | none => simp
      | some t => simp [Debounce.arm_ofChanges, changesSince_changed]

theorem debounce_reactAll (hstart : StartedAt t r)
    (h : r.debounce = .ofChanges cfg.debounce (changesSince history)) (is : List Input) :
    (r.reactAll is).state.debounce =
      .ofChanges cfg.debounce (changesSince (history ++ r.story is)) := by
  induction is generalizing r history with
  | nil => simpa [story, reactAll, Reaction.still] using h
  | cons i is ih =>
    rw [story, ← List.append_assoc]
    exact ih (hstart.react i) (debounce_react hstart h i)

theorem debounce_calls (hstart : StartedAt t r)
    (h : r.debounce = .ofChanges cfg.debounce (changesSince history)) (cs : List Call) :
    (r.calls cs).debounce =
      .ofChanges cfg.debounce (changesSince (history ++ r.chronicle cs)) := by
  induction cs generalizing r history with
  | nil => simpa [chronicle, calls] using h
  | cons c cs ih =>
    rw [chronicle, ← List.append_assoc]
    refine ih (hstart.call c) ?_
    rw [call_debounce]
    exact debounce_reactAll hstart h c.inputs

/-- **Debouncing.** After any run of events, timer calls and reads, and any inputs in the course of
one more read, at whatever instants, a call of the timers comes back if it is made before the resource
was started, or before the last instant and with a period between the sweeps, and in no other case.
When it comes back: if there was a change since subscribers were last told and a whole interval has
passed since the latest one, then it tells them once and reports how many changes there were, as far
as it can count; otherwise it does not tell them. And two runs with the same changes and the same timer
calls that come back, in the same order, tell subscribers the same at the same calls, whatever packets,
changes of the default route and reads there were besides. -/
theorem run_debounced (cfg : Settings) (t : Instant) (cs : List Call) (is : List Input) :
    let r := (startingAt cfg t).calls cs
    let changes := changesSince ((startingAt cfg t).chronicle cs ++ r.story is)
    (∀ now, ((r.reactAll is).state.onTimer? now).isSome = true ↔
      now < t ∨ (now < .last ∧ 0 < cfg.sweepPeriod.millis)) ∧
    (∀ now x, (r.reactAll is).state.onTimer? now = some x →
      ((∃ last, changes.getLast? = some last ∧ last + cfg.debounce ≤ now) →
        x.notices = 1 ∧ x.traces.filter Trace.isFiring =
          [.notificationFired now (min changes.length lastCount)]) ∧
      (¬(∃ last, changes.getLast? = some last ∧ last + cfg.debounce ≤ now) →
        x.notices = 0 ∧ x.traces.filter Trace.isFiring = [])) ∧
    (∀ (t' : Instant) (cs' : List Call) (is' : List Input),
      let r' := (startingAt cfg t').calls cs'
      (cs.flatMap Call.inputs ++ is).filter (Input.concernsTimer cfg t) =
          (cs'.flatMap Call.inputs ++ is').filter (Input.concernsTimer cfg t') →
        ((startingAt cfg t).trail cs ++ (r.reactAll is).traces).filter Trace.isFiring =
          ((startingAt cfg t').trail cs' ++ (r'.reactAll is').traces).filter Trace.isFiring) := by
  intro r changes
  have hstarted : ∀ t, StartedAt t (startingAt cfg t) := startedAt_startingAt cfg
  refine ⟨?_, ?_, ?_⟩
  · intro now
    rw [(((hstarted t).calls cs).reactAll is).onTimer?_isSome now, Instant.comesBack,
      Bool.or_eq_true, Bool.and_eq_true, decide_eq_true_iff, decide_eq_true_iff, decide_eq_true_iff]
  · intro now x hx
    have hstart : (startingAt cfg t).debounce = .ofChanges cfg.debounce (changesSince []) :=
      (Debounce.ofChanges_nil cfg.debounce).symm
    have htimer : (r.reactAll is).state.debounce = .ofChanges cfg.debounce changes :=
      debounce_reactAll ((hstarted t).calls cs) (debounce_calls (hstarted t) hstart cs) is
    obtain ⟨-, hnotices, htraces⟩ := onTimer?_debounce hx
    rw [htimer] at hnotices htraces
    rw [← Debounce.isDue_ofChanges]
    refine ⟨fun hdue => ?_, fun hdue => ?_⟩
    · rw [Debounce.poll_of_due now hdue] at hnotices htraces
      exact ⟨hnotices, htraces⟩
    · rw [Debounce.poll_of_not_due now hdue] at hnotices htraces
      exact ⟨hnotices, htraces⟩
  · intro t' cs' is' r' hsame
    have hone : ∀ (t : Instant) (cs : List Call) (is : List Input),
        ((startingAt cfg t).trail cs ++ (((startingAt cfg t).calls cs).reactAll is).traces).filter
            Trace.isFiring =
          (Debounce.ofInterval cfg.debounce).firings
            ((cs.flatMap Call.inputs ++ is).filter (Input.concernsTimer cfg t)) := by
      intro t cs is
      obtain ⟨hstate, htrail⟩ := calls_debounce (hstarted t) cs
      rw [List.filter_append, htrail, (reactAll_debounce ((hstarted t).calls cs) is).2, hstate,
        ← Debounce.firings_append, ← List.filter_append]
      rfl
    exact (hone t cs is).trans (hsame ▸ (hone t' cs' is').symm)

/-- Two changes, the later one at an earlier instant and in the course of a read, with a packet and
a change of the default route around them: three milliseconds after the later one subscribers are
told of both, as they are without the packet, the read and the default route. -/
theorem run_debounced_of_two :
    let cfg : Settings := ⟨2, .ofMillis 3, .ofMillis 9, .ofMillis 9⟩
    let hop : Address := .ofGroups 65152 0 0 0 0 0 0 1
    let change : RouteChange → Nat → Input := fun c n =>
      .event (.routeChanged c ⟨.ofGroups 8193 0 0 0 0 0 0 1, hop⟩ 1) (.ofMillis n)
    let cs : List Call :=
      [.input (change .routeAdded 7), .input (.event (.packet hop) (.ofMillis 1)),
        .read (.ofMillis 2) .empty .any [7, 7] .done [change .routeRemoved 4]]
    let is : List Input := [change .defaultRouteAdded 8]
    let few : List Call := [.input (change .routeAdded 7), .input (change .routeRemoved 4)]
    let r := (startingAt cfg .boot).calls cs
    (∃ x y, (r.reactAll is).state.onTimer? (.ofMillis 6) = some x ∧ x.notices = 0 ∧
        (r.reactAll is).state.onTimer? (.ofMillis 7) = some y ∧ y.notices = 1) ∧
      ((startingAt cfg .boot).trail cs ++
          (r.reactAll (is ++ [.timer (.ofMillis 7)])).traces).filter Trace.isFiring =
        ((startingAt cfg .boot).trail few ++
          (((startingAt cfg .boot).calls few).reactAll [.timer (.ofMillis 7)]).traces).filter
            Trace.isFiring := by
  intro cfg hop change cs is few r
  have hlast : (changesSince ((startingAt cfg .boot).chronicle cs ++
      ((startingAt cfg .boot).calls cs).story is)).getLast? = some (.ofMillis 4) := by
    decide +kernel
  obtain ⟨hback, htimer, -⟩ := run_debounced cfg .boot cs is
  simp only [hlast, Option.some.injEq, exists_eq_left'] at htimer
  obtain ⟨x, hx⟩ := Option.isSome_iff_exists.mp ((hback (.ofMillis 6)).mpr (by decide))
  obtain ⟨y, hy⟩ := Option.isSome_iff_exists.mp ((hback (.ofMillis 7)).mpr (by decide))
  refine ⟨⟨x, y, hx, ((htimer _ x hx).2 (by decide)).1, hy, ((htimer _ y hy).1 (by decide)).1⟩, ?_⟩
  obtain ⟨-, -, hsame⟩ := run_debounced cfg .boot cs (is ++ [.timer (.ofMillis 7)])
  have hheard : (cs.flatMap Call.inputs ++ (is ++ [Input.timer (.ofMillis 7)])).filter
      (Input.concernsTimer cfg .boot) =
        (few.flatMap Call.inputs ++ [Input.timer (.ofMillis 7)]).filter
          (Input.concernsTimer cfg .boot) := by decide +kernel
  exact hsame .boot few [.timer (.ofMillis 7)] hheard

/-- A route is added at boot, and the timers are called at the last instant, more than an interval
later. The sweeps of this call never end, however many rounds they are given, and so nobody is told. -/
theorem endless_call_of_change :
    let hop : Address := .ofGroups 65152 0 0 0 0 0 0 1
    let added : TopologyEvent := .routeChanged .routeAdded ⟨.ofGroups 8193 0 0 0 0 0 0 1, hop⟩ 1
    let cs : List Call := [.input (.event added .boot)]
    let r := (startingAt .stock .boot).calls cs
    (∃ last, (changesSince ((startingAt .stock .boot).chronicle cs)).getLast? = some last ∧
        last + Settings.stock.debounce ≤ .last) ∧
      (∀ rounds, sweepRounds .stock .last rounds ⟨r.table, r.nextSweep, []⟩ = none) ∧
      r.onTimer? .last = none := by
  intro hop added cs r
  have hstuck : ¬(Instant.last < .last ∧ 0 < Settings.stock.sweepPeriod.millis) :=
    fun h => Nat.lt_irrefl _ h.1
  have hrounds : ∀ rounds, sweepRounds .stock .last rounds ⟨r.table, r.nextSweep, []⟩ = none :=
    sweepRounds_of_stuck hstuck (Instant.le_last r.nextSweep)
  refine ⟨⟨.boot, by decide +kernel, by decide⟩, hrounds, ?_⟩
  rw [onTimer?, sweepDue?, hrounds]
  rfl

end Resource

end ObservableTree
