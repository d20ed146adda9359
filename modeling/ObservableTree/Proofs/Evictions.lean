import ObservableTree.Proofs.Wake

/-!
# One eviction for each period

A call of the timers may come early, late, or with an instant that has passed. A late one makes up
for all periods that it has missed, and after a sweep that finds nothing the next one is put off
again. Still, over a whole run no more neighbors are evicted than there were periods:

* `evictions`, `insertions` — what the traces tell of neighbors that lose or take a slot;
* `length_reactAll` — the table holds those that took a slot and have not lost it;
* `Resource.dueAfter` — the earliest instant for the next sweep after so many evictions;
* `Metered` — the next sweep is not due before this instant, and the last eviction was not made
  before its period had ended: `Metered.react` keeps this for one input, `Metered.calls` for a run;
* `le_nextSweep_calls` — the next sweep is never put to an earlier instant;
* `run_evictions_bounded` — hence the number of evictions.
-/

namespace ObservableTree

/-! ### Counting -/

/-- Whether a trace tells that a neighbor has taken a free slot. -/
def Trace.isInsertion : Trace → Bool
  | .neighborTracked _ _ _ => true
  | _ => false

/-- Whether a trace tells that a neighbor has lost its slot. -/
def Trace.isEviction : Trace → Bool
  | .neighborEvicted _ _ => true
  | _ => false

/-- The number of neighbors that have taken a slot. -/
def insertions (ts : List Trace) : Nat := ts.countP Trace.isInsertion

/-- The number of neighbors that have lost their slots. -/
def evictions (ts : List Trace) : Nat := ts.countP Trace.isEviction

theorem insertions_append (ts us : List Trace) :
    insertions (ts ++ us) = insertions ts + insertions us := List.countP_append

theorem evictions_append (ts us : List Trace) :
    evictions (ts ++ us) = evictions ts + evictions us := List.countP_append

/-- The latest instant of a call of the timers, zero if there was none. -/
def latestTimer : List Input → Nat
  | [] => 0
  | .timer now :: is => max now.millis (latestTimer is)
  | .event _ _ :: is => latestTimer is

theorem latestTimer_append (is js : List Input) :
    latestTimer (is ++ js) = max (latestTimer is) (latestTimer js) := by
  induction is with
  | nil => exact (Nat.zero_max _).symm
  | cons i is ih =>
    cases i with
    | timer now => rw [List.cons_append, latestTimer, latestTimer, ih, Nat.max_assoc]
    | event event now => exact ih

namespace Resource

variable {cfg : Settings} {r : Resource cfg} {t₀ now : Instant} {latest count rounds : Nat}
  {table : NeighborTable} {nextSweep : Instant}

/-! ### Traces of one input -/

/-- What a call of the timers traces are entries that it frees, and perhaps a notification. -/
theorem timerTraces_counts (now : Instant) (evicted : List Entry) (fired : Option Nat) :
    evictions (evicted.map (.neighborEvicted now) ++ fired.toList.map (.notificationFired now)) =
        evicted.length ∧
      insertions (evicted.map (.neighborEvicted now) ++ fired.toList.map (.notificationFired now)) =
        0 := by
  rw [evictions_append, insertions_append]
  simp [evictions, insertions, Function.comp_def, Trace.isEviction, Trace.isInsertion]

/-- **What a due pass preserves holds after a call of the timers**, of the table, the next sweep and
the number of evictions. Nobody is given a slot. -/
theorem onTimer_evictions (r : Resource cfg) (now : Instant)
    {motive : NeighborTable → Instant → Nat → Prop}
    (hpass : ∀ l, l.nextSweep ≤ now → motive l.table l.nextSweep l.evicted.length →
      motive (sweepPass cfg now l).table (sweepPass cfg now l).nextSweep
        (sweepPass cfg now l).evicted.length)
    (hstart : motive r.table r.nextSweep 0) :
    let x := r.onTimer now
    motive x.state.table x.state.nextSweep (evictions x.traces) ∧ insertions x.traces = 0 := by
  intro x
  obtain ⟨evicted, fired, hswept, htraces⟩ := onTimer_induction r now
    (motive := fun l => motive l.table l.nextSweep l.evicted.length) hpass hstart
  obtain ⟨hcounted, hnone⟩ := timerTraces_counts now evicted fired
  rw [← htraces] at hcounted hnone
  rw [hcounted]
  exact ⟨hswept, hnone⟩

/-- An event traces no eviction. -/
theorem onEvent_evictions (r : Resource cfg) (event : TopologyEvent) (now : Instant) :
    evictions (r.onEvent event now).traces = 0 := by
  cases event with
  | packet source =>
    show evictions (observationTraces now source _ _) = 0
    unfold observationTraces
    split <;> rfl
  | routeChanged change route routeCount =>
    show evictions (r.onChange change route.destination now).traces = 0
    unfold onChange
    split <;> rfl

/-- An event traces the neighbor that it gives a slot to. -/
theorem onEvent_insertions (r : Resource cfg) (event : TopologyEvent) (now : Instant) :
    (r.onEvent event now).state.table.length =
      r.table.length + insertions (r.onEvent event now).traces := by
  cases event with
  | packet source =>
    show (r.table.observe source now).1.length =
      r.table.length + insertions (observationTraces now source (r.table.observe source now).2 _)
    rcases NeighborTable.observe_cases r.table source now with
      ⟨houtcome, front, e, back, hslots, -, hresult⟩ | ⟨houtcome, -, front, back, hslots, hresult⟩ |
      ⟨houtcome, -, hsame⟩
    · rw [houtcome]
      simp [NeighborTable.length, NeighborTable.entries, hslots, hresult, observationTraces,
        insertions, Trace.isInsertion]
    · rw [houtcome]
      simp only [NeighborTable.length, NeighborTable.entries, hslots, hresult, id_eq,
        List.filterMap_append, Option.some.injEq, List.filterMap_cons_some,
        List.filterMap_cons_none, List.length_append, List.length_cons, insertions,
        observationTraces, Trace.isInsertion, Bool.false_eq_true, not_false_eq_true,
        List.countP_cons_of_neg, List.countP_singleton, ↓reduceIte]
      omega
    · rw [houtcome, hsame]
      rfl
  | routeChanged change route routeCount =>
    have htable : (r.onEvent (.routeChanged change route routeCount) now).state.table = r.table :=
      onChange_table r change route.destination now
    rw [htable]
    show _ = _ + insertions (r.onChange change route.destination now).traces
    unfold onChange
    split <;> rfl

/-- A pass frees one slot for each eviction. -/
theorem length_sweepPass (cfg : Settings) (now : Instant) (l : SweepLoop) :
    (sweepPass cfg now l).table.length + (sweepPass cfg now l).evicted.length =
      l.table.length + l.evicted.length := by
  rcases sweepPass_cases cfg now l with ⟨e, hfound, hpass⟩ | ⟨-, hpass⟩
  · have hfreed := length_of_sweep hfound
    rw [hpass, List.length_append, List.length_singleton]
    dsimp only
    omega
  · rw [hpass]

/-- **The table and the traces.** Every neighbor that takes a slot and every one that loses it is
traced. -/
theorem length_react (r : Resource cfg) (i : Input) :
    (r.react i).state.table.length + evictions (r.react i).traces =
      r.table.length + insertions (r.react i).traces := by
  cases i with
  | event event now =>
    show (r.onEvent event now).state.table.length + evictions (r.onEvent event now).traces = _
    rw [onEvent_evictions, onEvent_insertions]
    rfl
  | timer now =>
    obtain ⟨hlength, hinserted⟩ := onTimer_evictions r now
      (motive := fun table _ count => table.length + count = r.table.length)
      (fun l _ hl => (length_sweepPass cfg now l).trans hl) rfl
    show (r.onTimer now).state.table.length + evictions (r.onTimer now).traces =
      r.table.length + insertions (r.onTimer now).traces
    rw [hinserted, hlength, Nat.add_zero]

theorem length_reactAll (r : Resource cfg) (is : List Input) :
    (r.reactAll is).state.table.length + evictions (r.reactAll is).traces =
      r.table.length + insertions (r.reactAll is).traces := by
  induction is generalizing r with
  | nil => rfl
  | cons i is ih =>
    have hone := length_react r i
    have hrest := ih (r.react i).state
    rw [reactAll, Reaction.andThen_state, Reaction.andThen_traces, evictions_append,
      insertions_append]
    omega

/-! ### The next sweep -/

/-- A pass that is due never puts the next sweep to an earlier instant. -/
theorem le_nextSweep_sweepPass {l : SweepLoop} (hdue : l.nextSweep ≤ now) :
    l.nextSweep ≤ (sweepPass cfg now l).nextSweep := by
  rcases sweepPass_cases cfg now l with ⟨e, -, hpass⟩ | ⟨-, hpass⟩
  · rw [hpass]
    exact le_after l.nextSweep cfg.sweepPeriod
  · rw [hpass]
    exact Nat.le_trans hdue (le_after now cfg.sweepPeriod)

theorem le_nextSweep_react (r : Resource cfg) (i : Input) :
    r.nextSweep ≤ (r.react i).state.nextSweep := by
  cases i with
  | event event now =>
    have hsame : (r.react (.event event now)).state.nextSweep = r.nextSweep :=
      onEvent_nextSweep r event now
    rw [hsame]
    exact Nat.le_refl _
  | timer now =>
    obtain ⟨_, _, hlater, -⟩ := onTimer_induction r now
      (motive := fun l => r.nextSweep ≤ l.nextSweep)
      (fun _ hdue hl => Nat.le_trans hl (le_nextSweep_sweepPass hdue)) (Nat.le_refl _)
    exact hlater

theorem le_nextSweep_reactAll (r : Resource cfg) (is : List Input) :
    r.nextSweep ≤ (r.reactAll is).state.nextSweep := by
  induction is generalizing r with
  | nil => exact Nat.le_refl _
  | cons i is ih => exact Nat.le_trans (le_nextSweep_react r i) (ih (r.react i).state)

theorem le_nextSweep_calls (r : Resource cfg) (cs : List Call) :
    r.nextSweep ≤ (r.calls cs).nextSweep := by
  induction cs generalizing r with
  | nil => exact Nat.le_refl _
  | cons c cs ih =>
    have hone : r.nextSweep ≤ (r.call c).nextSweep := by
      rw [call_nextSweep]
      exact le_nextSweep_reactAll r c.inputs
    exact Nat.le_trans hone (ih (r.call c))

/-! ### Evictions and periods -/

/-- The earliest instant at which the next sweep can be due, counted from a start on, when there have
been so many evictions: a period for each of them, and one more. -/
def dueAfter (t₀ : Instant) (period : Span) (count : Nat) : Nat :=
  min (t₀.millis + (count + 1) * period.millis) lastMilli

/-- After so many evictions from a start on, and calls of the timers up to some instant. -/
structure Metered (t₀ : Instant) (latest count : Nat) (r : Resource cfg) : Prop where
  /-- The next sweep waits until a period for each eviction has passed, and one more. -/
  due : dueAfter t₀ cfg.sweepPeriod count ≤ r.nextSweep.millis
  /-- A period for each eviction has passed. -/
  passed : count = 0 ∨ t₀.millis + count * cfg.sweepPeriod.millis ≤ latest

theorem metered_startingAt (cfg : Settings) (t₀ : Instant) : Metered t₀ 0 0 (startingAt cfg t₀) where
  due := by
    have hnext : (startingAt cfg t₀).nextSweep.millis =
        min (t₀.millis + cfg.sweepPeriod.millis) lastMilli := Instant.after_millis t₀ cfg.sweepPeriod
    refine Nat.le_of_eq ?_
    rw [hnext, dueAfter, Nat.zero_add, Nat.one_mul]
  passed := .inl rfl

/-- **One pass.** An eviction is made when the next sweep is due and puts it off by a period, so a
period has passed for it. -/
theorem metered_sweepPass {l : SweepLoop} (hlast : now < .last) (hnow : l.nextSweep ≤ now)
    (hdue : dueAfter t₀ cfg.sweepPeriod (count + l.evicted.length) ≤ l.nextSweep.millis)
    (hpassed : count + l.evicted.length = 0 ∨
      t₀.millis + (count + l.evicted.length) * cfg.sweepPeriod.millis ≤ max latest now.millis) :
    let after := sweepPass cfg now l
    dueAfter t₀ cfg.sweepPeriod (count + after.evicted.length) ≤ after.nextSweep.millis ∧
      (count + after.evicted.length = 0 ∨
        t₀.millis + (count + after.evicted.length) * cfg.sweepPeriod.millis ≤
          max latest now.millis) := by
  intro after
  rw [Instant.lt_last_iff] at hlast
  rw [Instant.le_iff] at hnow
  rcases sweepPass_cases cfg now l with ⟨e, -, hpass⟩ | ⟨-, hpass⟩
  · -- the sweep is due before the last instant, so no sum has been cut
    have hstep : (count + l.evicted.length + 1 + 1) * cfg.sweepPeriod.millis =
        (count + l.evicted.length + 1) * cfg.sweepPeriod.millis + cfg.sweepPeriod.millis :=
      Nat.succ_mul _ _
    have hafter := Instant.after_millis l.nextSweep cfg.sweepPeriod
    have hcount : count + after.evicted.length = count + l.evicted.length + 1 := by
      rw [show after = _ from hpass, List.length_append, List.length_singleton, Nat.add_assoc]
    have hnext : after.nextSweep = l.nextSweep + cfg.sweepPeriod := by rw [show after = _ from hpass]
    rw [hcount, hnext]
    unfold dueAfter at hdue ⊢
    exact ⟨by omega, .inr (by omega)⟩
  · have hafter := le_after now cfg.sweepPeriod
    rw [show after = _ from hpass]
    exact ⟨Nat.le_trans hdue (Nat.le_trans hnow hafter), hpassed⟩

/-- **One input.** -/
theorem Metered.react (h : Metered t₀ latest count r) {i : Input}
    (hlast : ∀ now, i = .timer now → now < .last) :
    Metered t₀ (max latest (latestTimer [i])) (count + evictions (r.react i).traces)
      (r.react i).state := by
  cases i with
  | event event now =>
    have hnone : evictions (r.react (.event event now)).traces = 0 := onEvent_evictions r event now
    have hsame : (r.react (.event event now)).state.nextSweep = r.nextSweep :=
      onEvent_nextSweep r event now
    rw [hnone, Nat.add_zero, show latestTimer [.event event now] = 0 from rfl, Nat.max_zero]
    refine ⟨?_, h.passed⟩
    rw [hsame]
    exact h.due
  | timer now =>
    have hlatest : latestTimer [.timer now] = now.millis := Nat.max_zero _
    obtain ⟨⟨hdue, hpassed⟩, -⟩ := onTimer_evictions r now
      (motive := fun _ nextSweep k =>
        dueAfter t₀ cfg.sweepPeriod (count + k) ≤ nextSweep.millis ∧
          (count + k = 0 ∨
            t₀.millis + (count + k) * cfg.sweepPeriod.millis ≤ max latest now.millis))
      (fun _ hnow hl => metered_sweepPass (hlast now rfl) hnow hl.1 hl.2)
      ⟨h.due, h.passed.imp_right fun hle => Nat.le_trans hle (Nat.le_max_left _ _)⟩
    rw [hlatest]
    exact ⟨hdue, hpassed⟩

theorem Metered.reactAll (h : Metered t₀ latest count r) {is : List Input}
    (hlast : ∀ now, .timer now ∈ is → now < .last) :
    Metered t₀ (max latest (latestTimer is)) (count + evictions (r.reactAll is).traces)
      (r.reactAll is).state := by
  induction is generalizing r latest count with
  | nil =>
    rw [show latestTimer [] = 0 from rfl, Nat.max_zero]
    exact h
  | cons i is ih =>
    have hone := h.react fun now hi => hlast now (hi ▸ List.mem_cons_self)
    have hrest := ih hone fun now hnow => hlast now (List.mem_cons_of_mem i hnow)
    have hlatest : latestTimer (i :: is) = max (latestTimer [i]) (latestTimer is) :=
      latestTimer_append [i] is
    rw [Nat.max_assoc, ← hlatest, Nat.add_assoc, ← evictions_append] at hrest
    exact hrest

/-! ### Runs -/

/-- Answers tell of no neighbors. -/
theorem counts_traced (r : Resource cfg) (c : Call) :
    evictions (r.traced c) = evictions (r.reactAll c.inputs).traces ∧
      insertions (r.traced c) = insertions (r.reactAll c.inputs).traces := by
  obtain ⟨answers, hanswers, htraced⟩ := traced_eq r c
  have hsilent : ∀ t ∈ answers, t.isEviction = false ∧ t.isInsertion = false := by
    intro t ht
    have hanswer := hanswers t ht
    cases t with
    | chunkServed | queryRejected => exact ⟨rfl, rfl⟩
    | _ => exact hanswer.elim
  rw [htraced, evictions_append, insertions_append]
  constructor
  · have hnone : evictions answers = 0 :=
      List.countP_eq_zero.mpr fun t ht => Bool.eq_false_iff.mp (hsilent t ht).1
    rw [hnone, Nat.add_zero]
  · have hnone : insertions answers = 0 :=
      List.countP_eq_zero.mpr fun t ht => Bool.eq_false_iff.mp (hsilent t ht).2
    rw [hnone, Nat.add_zero]

theorem length_calls (r : Resource cfg) (cs : List Call) :
    (r.calls cs).table.length + evictions (r.trail cs) = r.table.length + insertions (r.trail cs) := by
  induction cs generalizing r with
  | nil => rfl
  | cons c cs ih =>
    obtain ⟨hevicted, hinserted⟩ := counts_traced r c
    have hone := length_reactAll r c.inputs
    have hrest := ih (r.call c)
    rw [call_table] at hrest
    rw [trail, evictions_append, insertions_append, hevicted, hinserted]
    show ((r.call c).calls cs).table.length + _ = _
    omega

theorem Metered.calls (h : Metered t₀ latest count r) {cs : List Call}
    (hlast : ∀ now, .timer now ∈ cs.flatMap Call.inputs → now < .last) :
    Metered t₀ (max latest (latestTimer (cs.flatMap Call.inputs))) (count + evictions (r.trail cs))
      (r.calls cs) := by
  induction cs generalizing r latest count with
  | nil =>
    rw [List.flatMap_nil, show latestTimer [] = 0 from rfl, Nat.max_zero]
    exact h
  | cons c cs ih =>
    rw [List.flatMap_cons] at hlast
    have hinputs := h.reactAll fun now hnow => hlast now (List.mem_append_left _ hnow)
    have hone : Metered t₀ (max latest (latestTimer c.inputs)) (count + evictions (r.traced c))
        (r.call c) := by
      rw [(counts_traced r c).1]
      refine ⟨?_, hinputs.passed⟩
      rw [call_nextSweep]
      exact hinputs.due
    have hrest := ih hone fun now hnow => hlast now (List.mem_append_right _ hnow)
    rw [Nat.max_assoc, ← latestTimer_append, Nat.add_assoc, ← evictions_append] at hrest
    rw [List.flatMap_cons]
    exact hrest

/-- A period has passed for each eviction. -/
theorem Metered.bounded (h : Metered t₀ latest count r) (hperiod : 0 < cfg.sweepPeriod.millis) :
    count ≤ (latest - t₀.millis) / cfg.sweepPeriod.millis := by
  rw [Nat.le_div_iff_mul_le hperiod]
  rcases h.passed with hnone | hpassed
  · rw [hnone, Nat.zero_mul]
    exact Nat.zero_le _
  · omega

/-- **One eviction for each period.** A resource starts at an instant, and then there are events, calls
of the timers and reads in any order, each with any instant, and reads let others in while they write
the document. Up to then no more neighbors have been evicted than there are whole periods from the
start to the latest call of the timers, and so none before the first period has passed. Evicted are
the neighbors that have taken a slot and no longer have one. And the next sweep is never put to an
earlier instant. -/
theorem run_evictions_bounded (cfg : Settings) (t₀ : Instant) (cs : List Call)
    (hperiod : 0 < cfg.sweepPeriod.millis)
    (hlast : ∀ now, .timer now ∈ cs.flatMap Call.inputs → now < .last) :
    let r := startingAt cfg t₀
    let latest := latestTimer (cs.flatMap Call.inputs)
    evictions (r.trail cs) ≤ (latest - t₀.millis) / cfg.sweepPeriod.millis ∧
    (latest < t₀.millis + cfg.sweepPeriod.millis → evictions (r.trail cs) = 0) ∧
    (r.calls cs).table.length + evictions (r.trail cs) = insertions (r.trail cs) ∧
    ∀ front back, cs = front ++ back → (r.calls front).nextSweep ≤ (r.calls cs).nextSweep := by
  intro r latest
  have hmetered := (metered_startingAt cfg t₀).calls hlast
  rw [Nat.zero_max, Nat.zero_add] at hmetered
  have hbound := hmetered.bounded hperiod
  have hempty : r.table.length = 0 := by
    show (List.filterMap id (List.replicate cfg.maxTracked none)).length = 0
    rw [List.filterMap_replicate_of_none rfl]
    rfl
  refine ⟨hbound, fun hearly => ?_, ?_, fun front back hsplit => ?_⟩
  · have hless : latest - t₀.millis < cfg.sweepPeriod.millis := by omega
    rw [Nat.div_eq_of_lt hless] at hbound
    exact Nat.le_zero.mp hbound
  · rw [length_calls, hempty, Nat.zero_add]
  · rw [hsplit]
    show _ ≤ (List.foldl call r (front ++ back)).nextSweep
    rw [List.foldl_append]
    exact le_nextSweep_calls (r.calls front) back

/-- Four neighbors that fell silent: a call of the timers that comes late, and in the middle of a read,
evicts all of them, one for each of the four periods from the start at one millisecond to its instant
at nine. Another call comes with an instant that has passed. -/
theorem run_evictions_bounded_of_four :
    let cfg : Settings := ⟨4, .ofMillis 5, .ofMillis 2, .ofMillis 2⟩
    let packet : UInt16 → Nat → Call := fun n time =>
      .input (.event (.packet (.ofGroups 0xfe80 0 0 0 0 0 0 n)) (.ofMillis time))
    let cs : List Call := [packet 1 2, packet 2 1, packet 3 0, packet 4 2,
      .read (.ofMillis 5) .empty .any [0] .done [.timer (.ofMillis 9)],
      .input (.timer (.ofMillis 5))]
    let r : Resource cfg := startingAt cfg (.ofMillis 1)
    0 < cfg.sweepPeriod.millis ∧ (∀ now, .timer now ∈ cs.flatMap Call.inputs → now < .last) ∧
      evictions (r.trail cs) = 4 ∧ latestTimer (cs.flatMap Call.inputs) = 9 ∧
      evictions (r.trail cs) ≤
        (latestTimer (cs.flatMap Call.inputs) - (Instant.ofMillis 1).millis) /
          cfg.sweepPeriod.millis := by
  intro cfg packet cs r
  have hperiod : 0 < cfg.sweepPeriod.millis := by decide
  have hlast : ∀ now, .timer now ∈ cs.flatMap Call.inputs → now < .last := by
    intro now hnow
    have hall : (cs.flatMap Call.inputs).all (fun i => decide (i.now < .last)) = true := by decide
    exact of_decide_eq_true (List.all_eq_true.mp hall _ hnow)
  have hfour : evictions (r.trail cs) = 4 := by decide +kernel
  have hnine : latestTimer (cs.flatMap Call.inputs) = 9 := by decide
  exact ⟨hperiod, hlast, hfour, hnine,
    (run_evictions_bounded cfg (.ofMillis 1) cs hperiod hlast).1⟩

end Resource

end ObservableTree
