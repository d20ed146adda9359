import ObservableTree.Proofs.Sequence

/-!
# Planned actions

Actions come onto the agenda from outside only, and whatever else happens leaves them in their order.
So a run carries them out as they stand there:

* `Event.action?`, `Simulation.planned` — the actions on the agenda with their instants, in order;
* `planned_handle` — no event adds to them, `planned_turn` — a turn takes the first one off, or none;
* `InSequence.planned_schedule` — an action that is not due before the others comes behind them, and so
  do several, `InSequence.planned_script`;
* `performed_runUntil` — a run carries out what is planned up to its end, in order,
  `InSequence.run_script` — and so a whole script.
-/

namespace ObservableTree

/-- The action that an event carries out, if it carries out one. -/
def Event.action? : Event → Option Action
  | .action a => some a
  | .packet _ _ | .routeChange _ _ | .timer _ | .fetch _ => none

/-- An action with the instant that it is scheduled for. -/
def Scheduled.planned? (e : Scheduled) : Option (Instant × Action) :=
  e.event.action?.map fun a => (e.time, a)

namespace Agenda

variable {e : Scheduled} {es : List Scheduled} {x : Instant × Action}

/-- Any other event leaves the actions in their order. -/
theorem planned_insertIn_of_none (h : e.planned? = none) (es : List Scheduled) :
    (insertIn e es).filterMap Scheduled.planned? = es.filterMap Scheduled.planned? := by
  fun_induction insertIn e es with
  | case1 => rw [List.filterMap_cons_none h]
  | case2 d rest _ => rw [List.filterMap_cons_none h]
  | case3 d rest _ ih => rw [List.filterMap_cons, List.filterMap_cons, ih]

/-- An action that is not more urgent than the others comes behind them. -/
theorem planned_insertIn_of_some (h : e.planned? = some x) (hsorted : es.Pairwise Scheduled.Precedes)
    (hlast : ∀ d ∈ es, d.planned?.isSome → e.urgency d ≠ .gt) :
    (insertIn e es).filterMap Scheduled.planned? = es.filterMap Scheduled.planned? ++ [x] := by
  induction es with
  | nil => exact List.filterMap_cons_some h
  | cons d rest ih =>
    obtain ⟨hd, hrest⟩ := List.pairwise_cons.mp hsorted
    rw [insertIn]
    split
    · next hurgent =>
      -- all from here on is less urgent, so none of it is an action
      have hnone : (d :: rest).filterMap Scheduled.planned? = [] := by
        refine List.filterMap_eq_nil_iff.mpr fun b hb => Option.not_isSome_iff_eq_none.mp fun hsome =>
          hlast b hb hsome ?_
        rw [Scheduled.urgency_eq_gt_iff] at hurgent ⊢
        rcases List.mem_cons.mp hb with rfl | hb
        · exact hurgent
        · have hafter := hd b hb
          unfold Scheduled.Precedes at hafter
          omega
      rw [List.filterMap_cons_some h, hnone]
      rfl
    · have hmore := ih hrest fun b hb => hlast b (List.mem_cons_of_mem d hb)
      rw [List.filterMap_cons, List.filterMap_cons, hmore]
      split
      · rfl
      · rfl

end Agenda

namespace Simulation

variable {cfg : Settings} {s : Simulation cfg} {stop : Instant}

/-- The actions on the agenda with their instants, in order. -/
def planned (s : Simulation cfg) : List (Instant × Action) :=
  s.agenda.entries.filterMap Scheduled.planned?

/-! ### What leaves them as they are -/

theorem planned_scheduleAll {events : List (Instant × Event)}
    (h : ∀ x ∈ events, x.2.action? = none) : (s.scheduleAll events).planned = s.planned := by
  refine scheduleAll_induction (P := fun t => t.planned = s.planned) rfl fun t e _ he ht => ?_
  have hother : (⟨e.1, t.nextNumber, e.2⟩ : Scheduled).planned? = none := by
    rw [Scheduled.planned?, h e he, Option.map_none]
  exact (Agenda.planned_insertIn_of_none hother _).trans ht

theorem planned_rescheduleTimer (s : Simulation cfg) : s.rescheduleTimer.planned = s.planned := by
  unfold rescheduleTimer
  split
  · rfl
  · exact Agenda.planned_insertIn_of_none rfl _

/-- **One event.** Nothing that happens plans an action, and nothing takes one off. -/
theorem planned_handle (hidle : s.Idle) (event : Event) : (handle (s, event)).planned = s.planned := by
  have hsequel : ∀ x ∈ s.news event, x.2.action? = none := by
    intro x hx
    cases follows_of_mem_news hx <;> rfl
  obtain ⟨snapshots, next, hframe⟩ := snapshotIfDue_frame (s.process event)
  rw [handle, hframe]
  show (s.happen event).rescheduleTimer.planned = _
  rw [planned_rescheduleTimer, planned, (happen_effect hidle event).agenda]
  exact planned_scheduleAll hsequel

/-! ### Runs -/

/-- **One turn.** The action that is carried out, if there is one, was the first one, and was due. -/
theorem planned_turn (htime : s.OnTime) (hstop : stop < .last) :
    ∃ done, s.planned = done ++ (s.turn stop).planned ∧ (∀ x ∈ done, x.1 ≤ stop) ∧
      done.map Prod.snd = s.performedOn (.turn stop) := by
  cases hdue : s.due? stop with
  | none =>
    refine ⟨[], ?_, nofun, ?_⟩
    · rw [turn, hdue, advance_frame]
      rfl
    · rw [performedOn, hdue]
      rfl
  | some x =>
    obtain ⟨s₀, event⟩ := x
    have hidle := (htime.due hstop hdue).idle
    obtain ⟨time, number, rest, hentries, hreached, hs₀⟩ := due?_eq_some_iff.mp hdue
    have hrest : (s.turn stop).planned = rest.filterMap Scheduled.planned? := by
      rw [turn, hdue]
      show (handle (s₀, event)).planned = _
      rw [planned_handle hidle, hs₀, advance_frame, planned]
    rw [hrest, planned, hentries, performedOn, hdue]
    cases event with
    | action a =>
      refine ⟨[(time, a)], List.filterMap_cons_some rfl, fun x hx => ?_, rfl⟩
      rw [List.mem_singleton.mp hx]
      exact hreached
    | packet | routeChange | timer | fetch => exact ⟨[], List.filterMap_cons_none rfl, nofun, rfl⟩

theorem planned_turns (hperiod : 0 < cfg.sweepPeriod.millis) (htime : s.OnTime)
    (hstop : stop < .last) (count : Nat) :
    ∃ done, s.planned = done ++ (s.obeyAll (List.replicate count (.turn stop))).planned ∧
      (∀ x ∈ done, x.1 ≤ stop) ∧
      done.map Prod.snd = s.performed (List.replicate count (.turn stop)) := by
  induction count generalizing s with
  | zero => exact ⟨[], rfl, nofun, rfl⟩
  | succ count ih =>
    obtain ⟨first, hfirst, hdue, hperformed⟩ := planned_turn htime hstop
    obtain ⟨more, hmore, hmoreDue, hmorePerformed⟩ := ih (htime.turn hperiod hstop)
    refine ⟨first ++ more, ?_, List.forall_mem_append.mpr ⟨hdue, hmoreDue⟩, ?_⟩
    · rw [hfirst, hmore, List.append_assoc]
      rfl
    · rw [List.map_append, hperformed, hmorePerformed]
      rfl

/-- **A run** up to the present instant or later carries out what is planned up to its end, in
order. -/
theorem performed_runUntil (hperiod : 0 < cfg.sweepPeriod.millis) (hstop : stop < .last)
    (htime : s.OnTime) (hpaced : s.Paced) (hnow : s.now ≤ stop) :
    ∃ turns, s.runUntil stop = s.obeyAll (List.replicate turns (.turn stop)) ∧
      s.performed (List.replicate turns (.turn stop)) =
        (s.planned.filter fun x => x.1 ≤ stop).map Prod.snd := by
  obtain ⟨turns, hturns, -, -, hlater⟩ := runUntil_end hperiod hstop htime hpaced hnow
  obtain ⟨done, hplanned, hdue, hperformed⟩ := planned_turns hperiod htime hstop turns
  have hleft : ∀ x ∈ (s.obeyAll (List.replicate turns (.turn stop))).planned, ¬x.1 ≤ stop := by
    intro x hx
    obtain ⟨e, he, hsome⟩ := List.mem_filterMap.mp hx
    obtain ⟨a, -, rfl⟩ := Option.map_eq_some_iff.mp hsome
    rw [← hturns] at he
    exact Nat.not_le.mpr (hlater e he)
  refine ⟨turns, hturns, ?_⟩
  rw [hplanned, List.filter_append, ← hperformed,
    List.filter_eq_self.mpr fun x hx => decide_eq_true (hdue x hx),
    List.filter_eq_nil_iff.mpr fun x hx => by rw [decide_eq_true_iff]; exact hleft x hx,
    List.append_nil]

/-! ### Scripts -/

variable {past : List Scheduled}

/-- An action that is not due before the others comes behind them. -/
theorem InSequence.planned_schedule (h : s.InSequence past) {time : Instant} {a : Action}
    (hlast : ∀ x ∈ s.planned, x.1 ≤ time) :
    (s.schedule time (.action a)).planned = s.planned ++ [(time, a)] := by
  have hordered := (List.pairwise_append.mp h.ordered).2.1
  refine Agenda.planned_insertIn_of_some rfl (hordered.imp fun hbefore => ?_) fun d hd hsome => ?_
  · rw [Scheduled.before_iff] at hbefore
    unfold Scheduled.Precedes
    omega
  · obtain ⟨x, hx⟩ := Option.isSome_iff_exists.mp hsome
    obtain ⟨b, -, rfl⟩ := Option.map_eq_some_iff.mp hx
    have htime : d.time ≤ time := hlast _ (List.mem_filterMap.mpr ⟨d, hd, hx⟩)
    have hnumber := h.number_lt (List.mem_append_right past hd)
    rw [Instant.le_iff] at htime
    rw [ne_eq, Scheduled.urgency_eq_gt_iff]
    dsimp only
    omega

/-- Several actions in the order of their instants, none of which lies in the past. -/
theorem InSequence.planned_script (h : s.InSequence past) {script : List (Instant × Action)}
    (hordered : script.Pairwise fun x y => x.1 ≤ y.1) (hahead : ∀ x ∈ script, s.now ≤ x.1)
    (hlast : ∀ x ∈ s.planned, ∀ y ∈ script, x.1 ≤ y.1) :
    (s.obeyAll (script.map fun x => .action x.1 x.2)).planned = s.planned ++ script := by
  induction script generalizing s with
  | nil => exact (List.append_nil _).symm
  | cons x script ih =>
    obtain ⟨hx, hscript⟩ := List.pairwise_cons.mp hordered
    have hfirst := h.planned_schedule (a := x.2) fun y hy => hlast y hy x List.mem_cons_self
    have hmore := ih (h.schedule (hahead x List.mem_cons_self) (.action x.2)) hscript
      (fun y hy => hahead y (List.mem_cons_of_mem x hy)) (by
        rw [hfirst]
        intro y hy z hz
        rcases List.mem_append.mp hy with hy | hy
        · exact hlast y hy z (List.mem_cons_of_mem x hz)
        · rw [List.mem_singleton.mp hy]
          exact hx z hz)
    rw [hfirst, List.append_assoc] at hmore
    exact hmore

/-- Before a run, nothing is carried out. -/
theorem performed_script (s : Simulation cfg) (script : List (Instant × Action)) :
    s.performed (script.map fun x => .action x.1 x.2) = [] := by
  induction script generalizing s with
  | nil => rfl
  | cons x script ih => exact ih (s.schedule x.1 (.action x.2))

/-- **A script** in the order of its instants is carried out by a run up to its end, where nothing else
was planned. -/
theorem InSequence.run_script (hperiod : 0 < cfg.sweepPeriod.millis) (hstop : stop < .last)
    (h : s.InSequence past) (htime : s.OnTime) (hpaced : s.Paced) (hplanned : s.planned = [])
    {script : List (Instant × Action)} (hordered : script.Pairwise fun x y => x.1 ≤ y.1)
    (hinside : ∀ x ∈ script, s.now ≤ x.1 ∧ x.1 ≤ stop) (hscript : ∀ x ∈ script, x.2.IsPaced)
    (hnow : s.now ≤ stop) :
    let cs : List Command := script.map fun x => .action x.1 x.2
    ∃ turns, (s.obeyAll cs).runUntil stop = s.obeyAll (cs ++ List.replicate turns (.turn stop)) ∧
      s.performed (cs ++ List.replicate turns (.turn stop)) = script.map Prod.snd := by
  intro cs
  have hcs : ∀ k ∈ cs, ∃ x ∈ script, k = .action x.1 x.2 := by
    intro k hk
    obtain ⟨x, hx, rfl⟩ := List.mem_map.mp hk
    exact ⟨x, hx, rfl⟩
  obtain ⟨htime', hpaced'⟩ := htime.obeyAll hperiod hpaced fun k (hk : k ∈ cs) => by
    obtain ⟨x, hx, rfl⟩ := hcs k hk
    exact ⟨trivial, hscript x hx⟩
  have hnow' : (s.obeyAll cs).now = s.now := by
    refine obeyAll_induction (P := fun s' => s'.now = s.now) ?_ rfl hcs
    intro s' k hs' hk
    obtain ⟨x, -, rfl⟩ := hk
    exact hs'
  have hall : (s.obeyAll cs).planned = script := by
    have hnone : ∀ x ∈ s.planned, ∀ y ∈ script, x.1 ≤ y.1 := by
      rw [hplanned]
      exact nofun
    rw [h.planned_script hordered (fun x hx => (hinside x hx).1) hnone, hplanned, List.nil_append]
  obtain ⟨turns, hturns, hperformed⟩ :=
    performed_runUntil hperiod hstop htime' hpaced' (hnow' ▸ hnow)
  refine ⟨turns, by rw [hturns, obeyAll_append], ?_⟩
  rw [performed_append, performed_script, List.nil_append, hperformed, hall,
    List.filter_eq_self.mpr fun x hx => decide_eq_true (hinside x hx).2]

end Simulation

end ObservableTree
