import ObservableTree.Proofs.Runs
import ObservableTree.Proofs.Slots
import ObservableTree.View.Body

/-!
# How long a silent neighbor stays

A sweep frees one slot, the first that is stale, so a stale neighbor waits while sweeps free slots
in front of it. A slot freed or heard meanwhile is not stale again before as many periods have
passed as there are slots in front, provided that the staleness threshold covers these periods. So
every sweep that passes a neighbor by uses up one of the slots in front of it.

* `Punctual` — a run in which time does not go back and the timers are called in time;
* `Overtaken` — a neighbor that has been passed by has as many slots in front of it that are free or
  were heard since;
* `Swept` — what every input of a punctual run preserves;
* `run_silence_bounded` — no neighbor is tracked, and no child shown, beyond the threshold and a
  period for each slot.
-/

namespace ObservableTree

/-! ### Punctual runs -/

/-- The instant of the last input, if there is one. -/
def lastInstant (t : Instant) (is : List Input) : Instant := is.foldl (fun _ i => i.now) t

namespace Resource

variable {cfg : Settings}

/-- Inputs from an instant on that do not go back in time and do not let the timers' work wait. -/
def PunctualInputs (t : Instant) (r : Resource cfg) : List Input → Prop
  | [] => True
  | i :: is => t ≤ i.now ∧ i.now ≤ r.nextWake ∧ PunctualInputs i.now (r.react i).state is

/-- Calls from an instant on that do not go back in time and do not let the timers' work wait. -/
def Punctual (t : Instant) (r : Resource cfg) : List Call → Prop
  | [] => True
  | c :: cs =>
    t ≤ c.now ∧ c.now ≤ r.nextWake ∧ PunctualInputs c.now r c.inputs ∧
      Punctual (lastInstant c.now c.inputs) (r.call c) cs

instance decidablePunctualInputs (t : Instant) (r : Resource cfg) :
    (is : List Input) → Decidable (PunctualInputs t r is)
  | [] => inferInstanceAs (Decidable True)
  | i :: is =>
    have := decidablePunctualInputs i.now (r.react i).state is
    inferInstanceAs (Decidable (_ ∧ _ ∧ PunctualInputs i.now (r.react i).state is))

instance decidablePunctual (t : Instant) (r : Resource cfg) :
    (cs : List Call) → Decidable (Punctual t r cs)
  | [] => inferInstanceAs (Decidable True)
  | c :: cs =>
    have := decidablePunctual (lastInstant c.now c.inputs) (r.call c) cs
    inferInstanceAs (Decidable (_ ∧ _ ∧ PunctualInputs c.now r c.inputs ∧
      Punctual (lastInstant c.now c.inputs) (r.call c) cs))

end Resource

/-- The instant to which a run of calls has come. -/
def lastCall (t : Instant) (cs : List Call) : Instant :=
  cs.foldl (fun _ c => lastInstant c.now c.inputs) t

/-! ### Overtaking -/

namespace NeighborTable

/-- Whether a slot is free or was heard at most `span` before an instant. -/
def heardWithin (s span : Nat) : Option Entry → Bool
  | none => true
  | some e => decide (s ≤ e.lastSeen.millis + span)

/-- With the next sweep due at `s`: if the last `m` sweeps have passed an entry by although it was
stale, then `m` slots in front of it are free or were heard since the first of these sweeps. -/
def Overtaken (threshold period s : Nat) (slots : List (Option Entry)) : Prop :=
  ∀ front e back, slots = front ++ some e :: back → ∀ m,
    e.lastSeen.millis + threshold + m * period < s → m ≤ front.countP (heardWithin s (m * period))

variable {threshold period s : Nat} {slots front back : List (Option Entry)}

theorem overtaken_replicate (threshold period s n : Nat) :
    Overtaken threshold period s (List.replicate n none) := by
  intro front e back h
  have he : some e ∈ List.replicate n none := by
    rw [h]
    exact List.mem_append_right _ List.mem_cons_self
  cases List.eq_of_mem_replicate he

/-- An entry that is not stale at a sweep has been passed by no sweep before the next one. -/
theorem eq_zero_of_not_stale {seen m next : Nat} (hfresh : s ≤ seen + threshold)
    (hnext : next ≤ s + period) (hm : seen + threshold + m * period < next) : m = 0 := by
  rcases Nat.eq_zero_or_pos m with hzero | hpos
  · exact hzero
  · have hle : period ≤ m * period := Nat.le_mul_of_pos_left period hpos
    omega

/-- **Observing.** A slot that takes an entry in the present period counts as heard, and its entry
has not been passed by. -/
theorem Overtaken.observed {new : Entry} {old : Option Entry}
    (h : Overtaken threshold period s (front ++ old :: back))
    (hnow : s ≤ new.lastSeen.millis + period) :
    Overtaken threshold period s (front ++ some new :: back) := by
  intro before e behind hplace m hm
  rcases Nat.eq_zero_or_pos m with hzero | hpos
  · rw [hzero]
    exact Nat.zero_le _
  have hperiod : period ≤ m * period := Nat.le_mul_of_pos_left period hpos
  rcases entry_of_replaced hplace with ⟨middle, hfront⟩ | ⟨-, hnew⟩ | ⟨middle, hbefore, hback⟩
  · refine h before e (middle ++ old :: back) ?_ m hm
    rw [hfront, List.append_assoc, List.cons_append]
  · rw [Option.some.inj hnew] at hnow
    omega
  · have hold := h (front ++ old :: middle) e behind (by
      rw [hback, List.append_assoc, List.cons_append]) m hm
    have hheard : heardWithin s (m * period) (some new) = true := by
      rw [heardWithin, decide_eq_true_iff]
      omega
    rw [List.countP_append, List.countP_cons] at hold
    rw [hbefore, List.countP_append, List.countP_cons, if_pos hheard]
    split at hold <;> omega

/-- **Sweeping in vain.** When nothing is stale, nothing has been passed by. -/
theorem overtaken_of_fresh {next : Nat}
    (hfresh : ∀ e, some e ∈ slots → s ≤ e.lastSeen.millis + threshold)
    (hnext : next ≤ s + period) : Overtaken threshold period next slots := by
  intro before e behind hplace m hm
  have he : some e ∈ slots := by
    rw [hplace]
    exact List.mem_append_right _ List.mem_cons_self
  rw [eq_zero_of_not_stale (hfresh e he) hnext hm]
  exact Nat.zero_le _

theorem heardWithin_mono {next span : Nat} (hnext : next ≤ s + period) {x : Option Entry}
    (h : heardWithin s span x = true) : heardWithin next (span + period) x = true := by
  cases x with
  | none => rfl
  | some e =>
    rw [heardWithin, decide_eq_true_iff] at h ⊢
    omega

/-- **Sweeping.** The freed slot did not count for the entries behind it, as it was stale, and it
counts now. -/
theorem Overtaken.swept {e : Entry} {next : Nat}
    (h : Overtaken threshold period s (front ++ some e :: back))
    (hperiods : ((front ++ some e :: back).length - 1) * period ≤ threshold)
    (hstale : e.lastSeen.millis + threshold < s)
    (hfresh : ∀ d, some d ∈ front → s ≤ d.lastSeen.millis + threshold)
    (hnext : next ≤ s + period) : Overtaken threshold period next (front ++ none :: back) := by
  intro before d behind hplace m hm
  rcases entry_of_replaced hplace with ⟨middle, hfront⟩ | ⟨-, hfreed⟩ | ⟨middle, hbefore, hback⟩
  · have hd : some d ∈ front := by
      rw [hfront]
      exact List.mem_append_right _ List.mem_cons_self
    rw [eq_zero_of_not_stale (hfresh d hd) hnext hm]
    exact Nat.zero_le _
  · cases hfreed
  · cases m with
    | zero => exact Nat.zero_le _
    | succ m =>
      rw [Nat.succ_mul] at hm ⊢
      have hold := h (front ++ some e :: middle) d behind (by
        rw [hback, List.append_assoc, List.cons_append]) m (by omega)
      -- so few sweeps fit into the threshold, and the freed slot was silent for longer
      have hfew : m ≤ (front ++ some e :: back).length - 1 := by
        have hcount := List.countP_le_length (p := heardWithin s (m * period))
          (l := front ++ some e :: middle)
        rw [hback]
        simp only [List.length_append, List.length_cons] at hcount ⊢
        omega
      have hshort : m * period ≤ threshold :=
        Nat.le_trans (Nat.mul_le_mul_right period hfew) hperiods
      have hsilent : ¬heardWithin s (m * period) (some e) = true := by
        rw [heardWithin, decide_eq_true_iff]
        omega
      have hfronts : front.countP (heardWithin s (m * period)) ≤
          front.countP (heardWithin next (m * period + period)) :=
        List.countP_mono_left fun x _ hx => heardWithin_mono hnext hx
      have hmiddles : middle.countP (heardWithin s (m * period)) ≤
          middle.countP (heardWithin next (m * period + period)) :=
        List.countP_mono_left fun x _ hx => heardWithin_mono hnext hx
      rw [List.countP_append, List.countP_cons, if_neg hsilent] at hold
      have hfreed : heardWithin next (m * period + period) none = true := rfl
      rw [hbefore, List.countP_append, List.countP_cons, if_pos hfreed]
      omega

/-- An entry has fewer slots in front of it than there are, so it is not passed by that often. -/
theorem Overtaken.bounded (h : Overtaken threshold period s slots) {e : Entry}
    (he : some e ∈ slots) : s ≤ e.lastSeen.millis + threshold + slots.length * period := by
  obtain ⟨front, back, hplace⟩ := List.append_of_mem he
  rw [← Nat.not_lt]
  intro hlate
  have hcount := h front e back hplace slots.length hlate
  have hle := List.countP_le_length (p := heardWithin s (slots.length * period)) (l := front)
  have hlength : slots.length = front.length + (back.length + 1) := by
    rw [hplace, List.length_append, List.length_cons]
  omega

end NeighborTable

/-! ### What inputs preserve -/

namespace Resource

open NeighborTable

variable {cfg : Settings} {r : Resource cfg} {t u : Instant}

/-- At an instant of a punctual run: the next sweep is due within a period, and each entry that was
passed by has its slots in front of it. -/
structure Swept (t : Instant) (r : Resource cfg) : Prop where
  capacity : r.table.slots.length = cfg.maxTracked
  ahead : t ≤ r.nextSweep
  soon : r.nextSweep.millis ≤ t.millis + cfg.sweepPeriod.millis
  overtaken : Overtaken cfg.staleness.millis cfg.sweepPeriod.millis r.nextSweep.millis r.table.slots

theorem nextWake_le_nextSweep (r : Resource cfg) : r.nextWake ≤ r.nextSweep := by
  rw [Instant.le_iff]
  cases hdeadline : r.debounce.deadline with
  | none =>
    exact Nat.le_of_eq (congrArg Instant.millis (nextWake_of_idle hdeadline))
  | some fireAt =>
    rw [nextWake_of_armed hdeadline]
    exact Nat.min_le_right _ _

theorem after_millis_le (t : Instant) (d : Span) : (t + d).millis ≤ t.millis + d.millis := by
  rw [Instant.after_millis]
  exact Nat.min_le_left _ _

theorem le_after (t : Instant) (d : Span) : t ≤ t + d := by
  rw [Instant.le_iff, Instant.after_millis]
  have hbound := t.bounded
  omega

theorem swept_startingAt (cfg : Settings) (t : Instant) : Swept t (startingAt cfg t) where
  capacity := ofCapacity_capacity cfg.maxTracked
  ahead := le_after t cfg.sweepPeriod
  soon := after_millis_le t cfg.sweepPeriod
  overtaken := overtaken_replicate _ _ _ _

/-- Time may pass until the timers have work to do. -/
theorem Swept.later (h : Swept t r) (htu : t ≤ u) (hwake : u ≤ r.nextWake) : Swept u r where
  capacity := h.capacity
  ahead := Nat.le_trans hwake r.nextWake_le_nextSweep
  soon := Nat.le_trans h.soon (Nat.add_le_add_right htu _)
  overtaken := h.overtaken

/-- Only the table and the next sweep count. -/
theorem Swept.of_eq {q : Resource cfg} (h : Swept t r) (htable : q.table = r.table)
    (hsweep : q.nextSweep = r.nextSweep) : Swept t q := by
  obtain ⟨hcapacity, hahead, hsoon, hovertaken⟩ := h
  rw [← htable] at hcapacity hovertaken
  rw [← hsweep] at hahead hsoon hovertaken
  exact ⟨hcapacity, hahead, hsoon, hovertaken⟩

theorem Swept.onPacket (h : Swept t r) (source : Address) : Swept t (r.onPacket source t).state := by
  rcases observe_slots r.table source t with hsame | ⟨front, old, back, hslots, -, hresult⟩
  · exact h.of_eq hsame rfl
  · have hovertaken := h.overtaken
    rw [hslots] at hovertaken
    refine ⟨(observe_capacity r.table source t).trans h.capacity, h.ahead, h.soon, ?_⟩
    show Overtaken _ _ _ (r.table.observe source t).1.slots
    rw [hresult]
    exact hovertaken.observed h.soon

theorem Swept.onChange (h : Swept t r) (change : RouteChange) (destination : Address) :
    Swept t (r.onChange change destination t).state :=
  h.of_eq (onChange_table r change destination t)
    (onEvent_nextSweep r (.routeChanged change ⟨destination, destination⟩ 0) t)

theorem isStale_iff {threshold : Span} {e : Entry} :
    isStale t threshold e = true ↔ e.lastSeen.millis + threshold.millis < t.millis := by
  rw [isStale, decide_eq_true_iff, Span.lt_iff, Instant.since_millis]
  omega

theorem not_isStale_iff {threshold : Span} {e : Entry} :
    isStale t threshold e = false ↔ t.millis ≤ e.lastSeen.millis + threshold.millis := by
  rw [← Bool.not_eq_true, isStale_iff, Nat.not_lt]

section

variable (hperiods : (cfg.maxTracked - 1) * cfg.sweepPeriod.millis ≤ cfg.staleness.millis)

include hperiods

/-- **One pass.** It is made when the next sweep is due, and that is at its instant. -/
theorem Swept.sweepPass {l : SweepLoop} (hdue : l.nextSweep ≤ t)
    (h : Swept t ({ r with table := l.table, nextSweep := l.nextSweep } : Resource cfg)) :
    Swept t ({ r with
      table := (Resource.sweepPass cfg t l).table
      nextSweep := (Resource.sweepPass cfg t l).nextSweep } : Resource cfg) := by
  have hnow : l.nextSweep = t := Instant.ext_millis (Nat.le_antisymm hdue h.ahead)
  have htable : (Resource.sweepPass cfg t l).table = (l.table.sweep t cfg.staleness).1 := by
    unfold Resource.sweepPass
    split <;> next hswept => rw [hswept]
  have hnext : (Resource.sweepPass cfg t l).nextSweep = t + cfg.sweepPeriod := by
    unfold Resource.sweepPass
    split
    · rw [hnow]
    · rfl
  have hsoon := after_millis_le t cfg.sweepPeriod
  have hovertaken := h.overtaken
  rw [show Resource.nextSweep _ = t from hnow] at hovertaken
  rw [htable, hnext]
  refine ⟨(sweep_capacity l.table t cfg.staleness).trans h.capacity, le_after t cfg.sweepPeriod,
    hsoon, ?_⟩
  show Overtaken _ _ _ (l.table.sweep t cfg.staleness).1.slots
  rcases sweep_slots l.table t cfg.staleness with
    ⟨hsame, hfresh⟩ | ⟨front, e, back, hslots, hstale, hfresh, hresult⟩
  · rw [hsame]
    exact overtaken_of_fresh
      (fun e he => not_isStale_iff.mp (hfresh e (mem_entries.mpr he))) hsoon
  · have hcapacity : l.table.slots.length = cfg.maxTracked := h.capacity
    rw [show Resource.table _ = l.table from rfl, hslots] at hovertaken
    rw [hresult]
    refine hovertaken.swept ?_ (isStale_iff.mp hstale)
      (fun d hd => not_isStale_iff.mp (hfresh d hd)) hsoon
    rw [← hslots, hcapacity]
    exact hperiods

theorem Swept.onTimer (h : Swept t r) : Swept t (r.onTimer t).state := by
  obtain ⟨_, _, hswept, -⟩ := onTimer_induction r t
    (motive := fun l => Swept t ({ r with table := l.table, nextSweep := l.nextSweep } :
      Resource cfg)) (fun _ hdue hl => hl.sweepPass hperiods hdue) h
  exact hswept.of_eq rfl rfl

/-- **One input.** -/
theorem Swept.react {i : Input} (h : Swept i.now r) : Swept i.now (r.react i).state := by
  cases i with
  | timer now => exact h.onTimer hperiods
  | event event now =>
    cases event with
    | packet source => exact h.onPacket source
    | routeChanged change route count => exact h.onChange change route.destination

theorem Swept.reactAll (is : List Input) (h : Swept t r) (hpunctual : PunctualInputs t r is) :
    Swept (lastInstant t is) (r.reactAll is).state := by
  induction is generalizing t r with
  | nil => exact h
  | cons i is ih =>
    obtain ⟨htime, hwake, hrest⟩ := hpunctual
    exact ih ((h.later htime hwake).react hperiods) hrest

theorem Swept.calls (cs : List Call) (h : Swept t r) (hpunctual : Punctual t r cs) :
    Swept (lastCall t cs) (r.calls cs) := by
  induction cs generalizing t r with
  | nil => exact h
  | cons c cs ih =>
    obtain ⟨htime, hwake, hinputs, hrest⟩ := hpunctual
    have hc := (h.later htime hwake).reactAll hperiods c.inputs hinputs
    exact ih (hc.of_eq (call_table r c) (call_nextSweep r c)) hrest

end

theorem Swept.bounded (h : Swept t r) {e : Entry} (he : e ∈ r.tracked) :
    t.millis ≤ e.lastSeen.millis +
      (cfg.staleness.millis + cfg.maxTracked * cfg.sweepPeriod.millis) := by
  have hbound := h.overtaken.bounded (mem_entries.mp he)
  rw [h.capacity] at hbound
  have hahead := Instant.le_iff.mp h.ahead
  omega

/-! ### What entries stand for -/

/-- Every entry is the last packet that was taken from its neighbor, by now among these inputs. -/
def Heard (history : List Input) (r : Resource cfg) : Prop :=
  ∀ e ∈ r.tracked, Input.event (.packet e.address) e.lastSeen ∈ history

theorem heard_startingAt (cfg : Settings) (t : Instant) : Heard [] (startingAt cfg t) := by
  intro e he
  cases List.eq_of_mem_replicate (mem_entries.mp he)

theorem mem_entries_of_sweepPass {l : SweepLoop} {e : Entry}
    (h : e ∈ (sweepPass cfg t l).table.entries) : e ∈ l.table.entries := by
  unfold sweepPass at h
  split at h <;> next hswept => exact mem_entries_of_sweep (by rw [hswept]; exact h)

theorem Heard.react {history : List Input} (h : Heard history r) (i : Input) :
    Heard (history ++ [i]) (r.react i).state := by
  intro e he
  rw [List.mem_append]
  cases i with
  | timer now =>
    obtain ⟨_, _, hswept, -⟩ := onTimer_induction r now
      (motive := fun l => ∀ d ∈ l.table.entries, d ∈ r.tracked)
      (fun _ _ hl d hd => hl d (mem_entries_of_sweepPass hd)) fun _ hd => hd
    exact .inl (h e (hswept e he))
  | event event now =>
    cases event with
    | packet source =>
      rcases mem_entries_of_observe he with hold | hnew
      · exact .inl (h e hold)
      · rw [hnew]
        exact .inr (List.mem_singleton.mpr rfl)
    | routeChanged change route count =>
      have htable : (r.react (.event (.routeChanged change route count) now)).state.table =
          r.table := onChange_table r change route.destination now
      rw [tracked, htable] at he
      exact .inl (h e he)

theorem Heard.reactAll {history : List Input} (is : List Input) (h : Heard history r) :
    Heard (history ++ is) (r.reactAll is).state := by
  induction is generalizing history r with
  | nil => rwa [List.append_nil]
  | cons i is ih =>
    have hrest := ih (h.react i)
    rwa [List.append_assoc] at hrest

theorem Heard.calls {history : List Input} (cs : List Call) (h : Heard history r) :
    Heard (history ++ cs.flatMap Call.inputs) (r.calls cs) := by
  induction cs generalizing history r with
  | nil => rwa [List.flatMap_nil, List.append_nil]
  | cons c cs ih =>
    have hc : Heard (history ++ c.inputs) (r.call c) := by
      intro e he
      rw [tracked, call_table] at he
      exact h.reactAll c.inputs e he
    rw [List.flatMap_cons, ← List.append_assoc]
    exact ih hc

/-! ### Silence -/

/-- **Bounded silence.** When all but one of the slots can be swept within the staleness threshold
and the timers are called in time, nobody is tracked who was silent for longer than the threshold
and a period for each slot; and each child that is shown has a next hop from which a packet came
within that time. -/
theorem run_silence_bounded (cfg : Settings) (t : Instant) (cs : List Call)
    (hperiods : (cfg.maxTracked - 1) * cfg.sweepPeriod.millis ≤ cfg.staleness.millis)
    (hpunctual : Punctual t (startingAt cfg t) cs) :
    let r := (startingAt cfg t).calls cs
    let limit := cfg.staleness.millis + cfg.maxTracked * cfg.sweepPeriod.millis
    (∀ e ∈ r.tracked, (lastCall t cs).millis ≤ e.lastSeen.millis + limit) ∧
    (∀ now g, lastCall t cs ≤ now → now ≤ r.nextWake →
      ∀ child ∈ (View.shown g r.table).children, ∃ route ∈ g.routes,
        route.destination = child ∧ ∃ heard,
          .event (.packet route.nextHop) heard ∈ cs.flatMap Call.inputs ∧
          now.millis ≤ heard.millis + limit) := by
  intro r limit
  have hswept : Swept (lastCall t cs) r :=
    (swept_startingAt cfg t).calls hperiods cs hpunctual
  have hheard : Heard (cs.flatMap Call.inputs) r := (heard_startingAt cfg t).calls cs
  refine ⟨fun e he => hswept.bounded he, ?_⟩
  intro now g htime hwake child hchild
  obtain ⟨route, hroute, hdestination⟩ := List.mem_map.mp hchild
  obtain ⟨hmem, hcontains⟩ := List.mem_filter.mp hroute
  obtain ⟨e, he, haddress⟩ := contains_iff.mp hcontains
  refine ⟨route, hmem, hdestination, e.lastSeen, ?_, (hswept.later htime hwake).bounded he⟩
  rw [← haddress]
  exact hheard e he

/-- Two neighbors in two slots: the sweep at the fourth millisecond frees the one that was silent,
while a packet of the other one came in during a read. -/
theorem run_silence_bounded_of_two :
    let cfg : Settings := ⟨2, .ofMillis 5, .ofMillis 3, .ofMillis 2⟩
    let early : Address := .ofGroups 0xfe80 0 0 0 0 0 0 1
    let late : Address := .ofGroups 0xfe80 0 0 0 0 0 0 2
    let cs : List Call :=
      [.input (.event (.packet early) (.ofMillis 0)), .input (.event (.packet late) (.ofMillis 0)),
        .input (.timer (.ofMillis 2)),
        .read (.ofMillis 3) .empty .any [0] .done [.event (.packet late) (.ofMillis 3)],
        .input (.timer (.ofMillis 4))]
    Resource.Punctual .boot (startingAt cfg .boot) cs ∧
      ∀ e ∈ ((startingAt cfg .boot).calls cs).tracked, 4 ≤ e.lastSeen.millis + 7 := by
  intro cfg early late cs
  have hpunctual : Resource.Punctual .boot (startingAt cfg .boot) cs := by decide
  exact ⟨hpunctual, (run_silence_bounded cfg .boot cs (by decide) hpunctual).1⟩

end Resource

end ObservableTree
