import ObservableTree.Simulation.Agenda

/-!
# The agenda in order

An event goes in front of all those that are less urgent, so the agenda stays in the order in which
its events will happen, and the first one is due before all others:

* `Scheduled.Precedes` — an event is due before another one, or at the same instant with a number
  that is not greater;
* `Agenda.Sorted`, `insert_sorted` — the agenda is in this order, and scheduling keeps it so;
* `mem_insert_iff` — scheduling adds one event and keeps the others;
* `next?_eq_some_iff`, `next?_eq_none_iff` — what comes off;
* `precedes_of_sorted`, `le_of_sorted` — the first event is due before all others.
-/

namespace ObservableTree

namespace Scheduled

/-- An event is due before another one, or at the same instant with a number that is not
greater. -/
def Precedes (a b : Scheduled) : Prop :=
  a.time.millis < b.time.millis ∨ a.time.millis = b.time.millis ∧ a.number ≤ b.number

theorem urgency_eq_gt_iff {a b : Scheduled} : a.urgency b = .gt ↔
    a.time.millis < b.time.millis ∨ a.time.millis = b.time.millis ∧ a.number < b.number := by
  rw [urgency, Ordering.then_eq_gt, Nat.compare_eq_gt, Nat.compare_eq_eq, Nat.compare_eq_gt]
  omega

theorem precedes_of_urgent {a b : Scheduled} (h : a.urgency b = .gt) : a.Precedes b := by
  rw [urgency_eq_gt_iff] at h
  unfold Precedes
  omega

theorem precedes_of_not_urgent {a b : Scheduled} (h : a.urgency b ≠ .gt) : b.Precedes a := by
  rw [ne_eq, urgency_eq_gt_iff] at h
  unfold Precedes
  omega

theorem Precedes.refl (a : Scheduled) : a.Precedes a := .inr ⟨rfl, Nat.le_refl _⟩

theorem Precedes.trans {a b c : Scheduled} (hab : a.Precedes b) (hbc : b.Precedes c) :
    a.Precedes c := by
  unfold Precedes at *
  omega

theorem Precedes.le {a b : Scheduled} (h : a.Precedes b) : a.time ≤ b.time := by
  rw [Instant.le_iff]
  unfold Precedes at h
  omega

end Scheduled

namespace Agenda

/-- The events are in the order in which they will happen. -/
def Sorted (q : Agenda) : Prop := q.entries.Pairwise Scheduled.Precedes

theorem empty_sorted : empty.Sorted := List.Pairwise.nil

theorem insertIn_sorted (e : Scheduled) {es : List Scheduled}
    (h : es.Pairwise Scheduled.Precedes) : (insertIn e es).Pairwise Scheduled.Precedes := by
  induction es with
  | nil => exact List.pairwise_singleton _ e
  | cons d rest ih =>
    obtain ⟨hd, hrest⟩ := List.pairwise_cons.mp h
    rw [insertIn]
    split
    · next hurgent =>
      have hed := Scheduled.precedes_of_urgent hurgent
      refine List.pairwise_cons.mpr ⟨fun x hx => ?_, h⟩
      rcases List.mem_cons.mp hx with rfl | hx
      · exact hed
      · exact hed.trans (hd x hx)
    · next hurgent =>
      refine List.pairwise_cons.mpr ⟨fun x hx => ?_, ih hrest⟩
      rcases List.mem_cons.mp ((insertIn_perm e rest).mem_iff.mp hx) with rfl | hx
      · exact Scheduled.precedes_of_not_urgent hurgent
      · exact hd x hx

theorem insert_sorted {q : Agenda} (h : q.Sorted) (e : Scheduled) : (q.insert e).Sorted :=
  insertIn_sorted e h

theorem mem_insert_iff {q : Agenda} {d e : Scheduled} :
    d ∈ (q.insert e).entries ↔ d = e ∨ d ∈ q.entries := by
  rw [insert, (insertIn_perm e q.entries).mem_iff, List.mem_cons]

theorem next?_eq_some_iff {q rest : Agenda} {e : Scheduled} :
    q.next? = some (e, rest) ↔ q.entries = e :: rest.entries := by
  unfold next?
  cases q.entries with
  | nil => exact iff_of_false nofun nofun
  | cons d ds =>
    constructor
    · intro h
      cases h
      rfl
    · intro h
      cases h
      rfl

theorem next?_eq_none_iff {q : Agenda} : q.next? = none ↔ q.entries = [] := by
  unfold next?
  cases q.entries with
  | nil => exact iff_of_true rfl rfl
  | cons e rest => exact iff_of_false nofun nofun

/-- The first event is due before all others. -/
theorem precedes_of_sorted {q : Agenda} {rest : List Scheduled} {e d : Scheduled} (h : q.Sorted)
    (hnext : q.entries = e :: rest) (hd : d ∈ q.entries) : e.Precedes d := by
  rw [hnext] at hd
  unfold Sorted at h
  rw [hnext] at h
  rcases List.mem_cons.mp hd with rfl | hd
  · exact Scheduled.Precedes.refl _
  · exact (List.pairwise_cons.mp h).1 d hd

theorem le_of_sorted {q : Agenda} {rest : List Scheduled} {e d : Scheduled} (h : q.Sorted)
    (hnext : q.entries = e :: rest) (hd : d ∈ q.entries) : e.time ≤ d.time :=
  (precedes_of_sorted h hnext hd).le

theorem rest_sorted {q : Agenda} {rest : List Scheduled} {e : Scheduled} (h : q.Sorted)
    (hnext : q.entries = e :: rest) : (⟨rest⟩ : Agenda).Sorted := by
  unfold Sorted at h
  rw [hnext] at h
  exact (List.pairwise_cons.mp h).2

end Agenda

end ObservableTree
