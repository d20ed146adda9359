import ObservableTree.Proofs.Punctuality

/-!
# How often an event is scheduled

An event is taken off the agenda when it is due, and what follows from it is put there. Nothing else
changes how often an event is on the agenda, except that the timer is put in order.

* `Simulation.queued` — how often an event is on the agenda;
* `queued_schedule`, `queued_due` — it is put there, it is taken off;
* `happen_queued`, `handle_queued` — what an event does to the number of another one.
-/

namespace ObservableTree

namespace Simulation

variable {cfg : Settings} {s s₀ : Simulation cfg} {event e : Event} {stop : Instant}

/-- How often an event is on the agenda. -/
def queued (s : Simulation cfg) (event : Event) : Nat :=
  s.agenda.entries.countP fun e => decide (e.event = event)

theorem queued_pos_iff : 0 < s.queued e ↔ ∃ x ∈ s.agenda.entries, x.event = e := by
  simp only [queued, List.countP_pos_iff, decide_eq_true_eq]

theorem queued_schedule (s : Simulation cfg) (time : Instant) (event e : Event) :
    (s.schedule time event).queued e = s.queued e + if event = e then 1 else 0 := by
  have hperm : (s.schedule time event).agenda.entries.Perm
      (⟨time, s.nextNumber, event⟩ :: s.agenda.entries) := Agenda.insertIn_perm _ _
  rw [queued, hperm.countP_eq, List.countP_cons]
  simp only [decide_eq_true_eq]
  rfl

/-- An event that is due is taken off the agenda. -/
theorem queued_due (hdue : s.due? stop = some (s₀, event)) (e : Event) :
    s.queued e = s₀.queued e + if event = e then 1 else 0 := by
  obtain ⟨time, number, rest, hentries, -, rfl⟩ := due?_eq_some_iff.mp hdue
  rw [advance_frame, queued, hentries, List.countP_cons]
  simp only [decide_eq_true_eq]
  rfl

theorem countP_numbered (p : Event → Bool) (n : Nat) (events : List (Instant × Event)) :
    (numbered n events).countP (fun e => p e.event) = events.countP fun x => p x.2 := by
  induction events generalizing n with
  | nil => rfl
  | cons x events ih => rw [numbered, List.countP_cons, List.countP_cons, ih]

/-- What follows from an event is put on the agenda. -/
theorem happen_queued (h : s.Idle) (event e : Event) :
    (s.happen event).queued e =
      s.queued e + (s.news event).countP fun x => decide (x.2 = e) := by
  rw [queued, (happen_effect h event).agenda, (scheduleAll_perm s _).countP_eq, List.countP_append,
    countP_numbered (fun x => decide (x = e)), Nat.add_comm]
  rfl

/-- Putting the timer in order schedules nothing but a timer. -/
theorem rescheduleTimer_queued (s : Simulation cfg) (he : ∀ g, e ≠ .timer g) :
    s.rescheduleTimer.queued e = s.queued e := by
  unfold rescheduleTimer
  split
  · rfl
  · rw [queued_schedule, if_neg (he _).symm]
    rfl

theorem handle_queued (h : s.Idle) (event e : Event) (he : ∀ g, e ≠ .timer g) :
    (handle (s, event)).queued e =
      s.queued e + (s.news event).countP fun x => decide (x.2 = e) := by
  rw [queued, (handle_frame s event).2.1, ← happen_queued h]
  exact rescheduleTimer_queued _ he

end Simulation

end ObservableTree
