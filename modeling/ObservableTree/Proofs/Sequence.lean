import ObservableTree.Proofs.Passivity
import ObservableTree.Proofs.Punctuality
import ObservableTree.Proofs.Untouched

/-!
# Events in sequence

A simulation that is never asked for something in the past takes its events in one sequence, over
all of its runs: what has happened so far and what is still on the agenda stand one behind the other
in the order of instants and running numbers.

* `Scheduled.Before` — the order, `Agenda.insertIn_before` — scheduling keeps it;
* `Occurrence`, `Simulation.occurrences` — the events that happen in the course of some commands,
  and what the simulation and the node's clock show when they do;
* `Simulation.Booked` — what has ever been on the agenda;
* `Forward` — no command asks for something in the past;
* `InSequence` — past and agenda in one order; `InSequence.obey` — one command keeps it,
  `InSequence.obeyAll` — and several do;
* `booked_iff` — whatever was on the agenda has happened or is still there;
* `obeyAll_sequential` — the discipline of a whole life.
-/

namespace ObservableTree

/-! ### The order -/

namespace Scheduled

/-- An event is due before another one, or at the same instant with a lower number. -/
def Before (a b : Scheduled) : Prop :=
  a.time < b.time ∨ a.time = b.time ∧ a.number < b.number

theorem before_iff {a b : Scheduled} : a.Before b ↔
    a.time.millis < b.time.millis ∨ a.time.millis = b.time.millis ∧ a.number < b.number := by
  have hsame : a.time = b.time ↔ a.time.millis = b.time.millis :=
    ⟨congrArg Instant.millis, Instant.ext_millis⟩
  rw [Before, hsame, Instant.lt_iff]

theorem Before.le {a b : Scheduled} (h : a.Before b) : a.time ≤ b.time := by
  rw [before_iff] at h
  rw [Instant.le_iff]
  omega

theorem Before.trans {a b c : Scheduled} (hab : a.Before b) (hbc : b.Before c) : a.Before c := by
  rw [before_iff] at *
  omega

theorem Before.ne {a b : Scheduled} (h : a.Before b) : a ≠ b := by
  rintro rfl
  rw [before_iff] at h
  omega

/-- An event with a higher number that is not due earlier comes later. -/
theorem before_of_le {a b : Scheduled} (htime : a.time ≤ b.time) (hnumber : a.number < b.number) :
    a.Before b := by
  rw [Instant.le_iff] at htime
  rw [before_iff]
  omega

end Scheduled

/-- An event under a new number is put in front of all that are due later. -/
theorem Agenda.insertIn_before {e : Scheduled} {es : List Scheduled}
    (h : es.Pairwise Scheduled.Before) (hnumber : ∀ d ∈ es, d.number < e.number) :
    (insertIn e es).Pairwise Scheduled.Before := by
  induction es with
  | nil => exact List.pairwise_singleton _ e
  | cons d rest ih =>
    obtain ⟨hd, hrest⟩ := List.pairwise_cons.mp h
    rw [insertIn]
    split
    · next hurgent =>
      have hed : e.Before d := Scheduled.before_iff.mpr (Scheduled.urgency_eq_gt_iff.mp hurgent)
      refine List.pairwise_cons.mpr ⟨fun x hx => ?_, h⟩
      rcases List.mem_cons.mp hx with rfl | hx
      · exact hed
      · exact hed.trans (hd x hx)
    · next hurgent =>
      have hde : d.Before e := by
        refine Scheduled.before_of_le ?_ (hnumber d List.mem_cons_self)
        rw [Scheduled.urgency_eq_gt_iff] at hurgent
        rw [Instant.le_iff]
        omega
      refine List.pairwise_cons.mpr
        ⟨fun x hx => ?_, ih hrest fun x hx => hnumber x (List.mem_cons_of_mem d hx)⟩
      rcases List.mem_cons.mp ((insertIn_perm e rest).mem_iff.mp hx) with rfl | hx
      · exact hde
      · exact hd x hx

/-! ### What happens -/

/-- An event that happens, with the instants that the simulation and the node's clock show. -/
structure Occurrence where
  entry : Scheduled
  now : Instant
  clock : Instant
deriving DecidableEq

/-- Whether a command asks for nothing before an instant. -/
def Command.IsForward (now : Instant) : Command → Prop
  | action time _ | fetch time _ => now ≤ time
  | observe _ => True
  | turn stop => now ≤ stop

instance (now : Instant) : (k : Command) → Decidable (k.IsForward now)
  | .action time _ => inferInstanceAs (Decidable (now ≤ time))
  | .fetch time _ => inferInstanceAs (Decidable (now ≤ time))
  | .observe _ => inferInstanceAs (Decidable True)
  | .turn stop => inferInstanceAs (Decidable (now ≤ stop))

namespace Simulation

variable {cfg : Settings} {s : Simulation cfg} {stop : Instant}

/-- The event that happens on a command, if it is a turn and one is due. -/
def occurs (s : Simulation cfg) : Command → List Occurrence
  | .turn stop =>
    match s.agenda.next? with
    | none => []
    | some (e, rest) =>
      if stop < e.time then []
      else
        let s₀ := { s with agenda := rest }.advance e.time
        [⟨e, s₀.now, s₀.node.clock.now⟩]
  | _ => []

/-- The events that happen in the course of some commands, in order. -/
def occurrences (s : Simulation cfg) : List Command → List Occurrence
  | [] => []
  | c :: cs => s.occurs c ++ (s.obey c).occurrences cs

/-- The events themselves. -/
def happened (s : Simulation cfg) (cs : List Command) : List Scheduled :=
  (s.occurrences cs).map Occurrence.entry

/-- An event has been on the agenda at first or after some of the commands. A command takes at most
one event off, before it schedules others, so this misses nothing. -/
def Booked (s : Simulation cfg) (cs : List Command) (e : Scheduled) : Prop :=
  ∃ front back, cs = front ++ back ∧ e ∈ (s.obeyAll front).agenda.entries

/-- No command asks for something that lies in the past when it is given. -/
def Forward (s : Simulation cfg) : List Command → Prop
  | [] => True
  | c :: cs => c.IsForward s.now ∧ (s.obey c).Forward cs

instance decidableForward (s : Simulation cfg) : (cs : List Command) → Decidable (s.Forward cs)
  | [] => inferInstanceAs (Decidable True)
  | c :: cs =>
    have := decidableForward (s.obey c) cs
    inferInstanceAs (Decidable (c.IsForward s.now ∧ (s.obey c).Forward cs))

theorem happened_cons (s : Simulation cfg) (c : Command) (cs : List Command) :
    s.happened (c :: cs) = s.happened [c] ++ (s.obey c).happened cs := by
  simp only [happened, occurrences, List.append_nil, List.map_append]

theorem occurrences_append (s : Simulation cfg) (cs ds : List Command) :
    s.occurrences (cs ++ ds) = s.occurrences cs ++ (s.obeyAll cs).occurrences ds := by
  induction cs generalizing s with
  | nil => rfl
  | cons c cs ih =>
    rw [List.cons_append, occurrences, occurrences, ih, List.append_assoc]
    rfl

theorem happened_append (s : Simulation cfg) (cs ds : List Command) :
    s.happened (cs ++ ds) = s.happened cs ++ (s.obeyAll cs).happened ds := by
  rw [happened, occurrences_append, List.map_append]
  rfl

theorem forward_append {cs ds : List Command} :
    s.Forward (cs ++ ds) ↔ s.Forward cs ∧ (s.obeyAll cs).Forward ds := by
  induction cs generalizing s with
  | nil => exact (and_iff_right trivial).symm
  | cons c cs ih =>
    rw [List.cons_append, Forward, Forward, ih, and_assoc]
    rfl

theorem happened_singleton (s : Simulation cfg) (c : Command) :
    s.happened [c] = (s.occurs c).map Occurrence.entry := by
  rw [happened, occurrences, occurrences, List.append_nil]

theorem occurs_of_due {time : Instant} {number : Nat} {event : Event} {rest : List Scheduled}
    (hentries : s.agenda.entries = ⟨time, number, event⟩ :: rest) (htime : time ≤ stop) :
    let s₀ := { s with agenda := ⟨rest⟩ }.advance time
    s.occurs (.turn stop) = [⟨⟨time, number, event⟩, s₀.now, s₀.node.clock.now⟩] := by
  have hnext : s.agenda.next? = some (⟨time, number, event⟩, ⟨rest⟩) :=
    Agenda.next?_eq_some_iff.mpr hentries
  rw [occurs, hnext]
  exact if_neg (Nat.not_lt.mpr htime)

theorem occurs_of_none (h : s.due? stop = none) : s.occurs (.turn stop) = [] := by
  unfold due? at h
  unfold occurs
  dsimp only
  split
  · rfl
  · next e rest hnext =>
    rw [hnext] at h
    dsimp only at h
    by_cases hlater : stop < e.time
    · exact if_pos hlater
    · rw [if_neg hlater] at h
      cases h

/-! ### In sequence -/

/-- What has happened and what is on the agenda stand in one order, and each running number that was
given out stands for one of them. -/
structure InSequence (past : List Scheduled) (s : Simulation cfg) : Prop where
  ordered : (past ++ s.agenda.entries).Pairwise Scheduled.Before
  numbers : ((past ++ s.agenda.entries).map Scheduled.number).Perm (List.range s.nextNumber)
  reached : ∀ e ∈ past, e.time ≤ s.now
  ahead : ∀ e ∈ s.agenda.entries, s.now ≤ e.time
  clock : s.node.clock.now = s.now

variable {past : List Scheduled}

/-- No more than this matters. -/
theorem InSequence.of_same {s' : Simulation cfg} (h : s.InSequence past)
    (hagenda : s'.agenda = s.agenda) (hnumber : s'.nextNumber = s.nextNumber)
    (hnow : s'.now = s.now) (hclock : s'.node.clock = s.node.clock) : s'.InSequence past where
  ordered := hagenda ▸ h.ordered
  numbers := by
    rw [hagenda, hnumber]
    exact h.numbers
  reached := hnow ▸ h.reached
  ahead := by
    rw [hagenda, hnow]
    exact h.ahead
  clock := by rw [hclock, hnow, h.clock]

/-- The running number is above all that were given out. -/
theorem InSequence.number_lt (h : s.InSequence past) {e : Scheduled}
    (he : e ∈ past ++ s.agenda.entries) : e.number < s.nextNumber :=
  List.mem_range.mp (h.numbers.mem_iff.mp (List.mem_map_of_mem he))

/-- Scheduling an event that does not lie in the past. -/
theorem InSequence.schedule (h : s.InSequence past) {time : Instant} (htime : s.now ≤ time)
    (event : Event) : (s.schedule time event).InSequence past := by
  have hperm : (past ++ (s.schedule time event).agenda.entries).Perm
      (⟨time, s.nextNumber, event⟩ :: (past ++ s.agenda.entries)) :=
    ((Agenda.insertIn_perm _ _).append_left past).trans List.perm_middle
  obtain ⟨hpast, hagenda, hcross⟩ := List.pairwise_append.mp h.ordered
  refine ⟨List.pairwise_append.mpr ⟨hpast, ?_, fun p hp e he => ?_⟩, ?_, h.reached,
    fun e he => ?_, h.clock⟩
  · exact Agenda.insertIn_before hagenda fun d hd => h.number_lt (List.mem_append_right past hd)
  · rcases Agenda.mem_insert_iff.mp he with rfl | hold
    · exact Scheduled.before_of_le (Nat.le_trans (h.reached p hp) htime)
        (h.number_lt (List.mem_append_left _ hp))
    · exact hcross p hp e hold
  · have hrange : List.range (s.schedule time event).nextNumber =
        List.range s.nextNumber ++ [s.nextNumber] := List.range_succ
    rw [hrange]
    exact (hperm.map _).trans ((h.numbers.cons _).trans (List.perm_append_singleton _ _).symm)
  · rcases Agenda.mem_insert_iff.mp he with rfl | hold
    · exact htime
    · exact h.ahead e hold

theorem InSequence.scheduleAll (h : s.InSequence past) {events : List (Instant × Event)}
    (hevents : ∀ e ∈ events, s.now ≤ e.1) : (s.scheduleAll events).InSequence past :=
  scheduleAll_induction h fun _ e hnow he ht => ht.schedule (hnow ▸ hevents e he) e.2

/-- What follows from an event is scheduled behind it. -/
theorem InSequence.happen (h : s.InSequence past) (hidle : s.Idle) (event : Event) :
    (s.happen event).InSequence past := by
  have heffect := happen_effect hidle event
  have hall := h.scheduleAll fun e (he : e ∈ s.news event) => le_of_mem_news he
  have hframe := scheduleAll_frame s (s.news event)
  refine hall.of_same heffect.agenda ?_ ?_ ?_
  · rw [heffect.nextNumber, scheduleAll_nextNumber]
  · rw [heffect.now, hframe]
  · rw [(happen_spares s event).clock, hframe]

theorem rescheduleTimer_inSequence (h : s.InSequence past) : s.rescheduleTimer.InSequence past := by
  unfold rescheduleTimer
  split
  · exact h
  · have hsame : { s with
        timerGeneration := s.timerGeneration + 1
        scheduledWake := some s.wake }.InSequence past := h.of_same rfl rfl rfl rfl
    exact hsame.schedule (le_wake s) _

theorem snapshotIfDue_inSequence (h : s.InSequence past) : s.snapshotIfDue.InSequence past := by
  obtain ⟨snapshots, next, hframe⟩ := snapshotIfDue_frame s
  rw [hframe]
  exact h.of_same rfl rfl rfl rfl

/-- Time moves on, and the clock with it. -/
theorem advance_clock (h : s.node.clock.now = s.now) (time : Instant) :
    (s.advance time).node.clock.now = (s.advance time).now := by
  unfold advance
  split
  · rfl
  · exact h

theorem InSequence.advance (h : s.InSequence past) {time : Instant}
    (htime : ∀ e ∈ s.agenda.entries, time ≤ e.time) : (s.advance time).InSequence past := by
  have hmillis := advance_millis s time
  have hclock := advance_clock h.clock time
  rw [advance_frame] at hmillis hclock ⊢
  refine ⟨h.ordered, h.numbers, fun e he => ?_, fun e he => ?_, hclock⟩
  · have hreached := h.reached e he
    rw [Instant.le_iff] at hreached ⊢
    dsimp only at hmillis ⊢
    omega
  · have hahead := h.ahead e he
    have hlater := htime e he
    rw [Instant.le_iff] at hahead hlater ⊢
    dsimp only at hmillis ⊢
    omega

/-- **Taking an event off the agenda.** It happens at the instant at which it is due, and it moves
from what is to come to what has happened. -/
theorem InSequence.take (h : s.InSequence past) {e : Scheduled} {rest : List Scheduled}
    (hentries : s.agenda.entries = e :: rest) :
    let s₀ := { s with agenda := ⟨rest⟩ }.advance e.time
    s₀.InSequence (past ++ [e]) ∧ s₀.now = e.time ∧ s₀.node.clock.now = e.time := by
  intro s₀
  have hlist : past ++ [e] ++ rest = past ++ s.agenda.entries := by
    rw [hentries, List.append_assoc, List.singleton_append]
  have hfirst : e ∈ s.agenda.entries := by
    rw [hentries]
    exact List.mem_cons_self
  have hnow : s₀.now = e.time := by
    have hahead := h.ahead e hfirst
    apply Instant.ext_millis
    rw [advance_millis]
    exact Nat.max_eq_right hahead
  have hclock : s₀.node.clock.now = s₀.now :=
    advance_clock (s := { s with agenda := ⟨rest⟩ }) h.clock e.time
  have hagenda : s₀.agenda.entries = rest := by
    rw [show s₀ = _ from advance_frame _ _]
  have hnumber : s₀.nextNumber = s.nextNumber := by
    rw [show s₀ = _ from advance_frame _ _]
  refine ⟨⟨?_, ?_, ?_, ?_, hclock⟩, hnow, hclock.trans hnow⟩
  · rw [hagenda, hlist]
    exact h.ordered
  · rw [hagenda, hlist, hnumber]
    exact h.numbers
  · intro d hd
    rw [hnow]
    rcases List.mem_append.mp hd with hold | hnew
    · exact Nat.le_trans (h.reached d hold) (h.ahead e hfirst)
    · rw [List.mem_singleton.mp hnew]
      exact Nat.le_refl _
  · intro d hd
    rw [hnow]
    rw [hagenda] at hd
    have hordered := (List.pairwise_append.mp h.ordered).2.1
    rw [hentries] at hordered
    exact ((List.pairwise_cons.mp hordered).1 d hd).le

/-! ### Commands -/

/-- **One command** keeps the sequence, and the event that happens on it happens in time. -/
theorem InSequence.obey (h : s.InSequence past) (htime : s.OnTime) {c : Command} (hc : c.InTime)
    (hforward : c.IsForward s.now) :
    (s.obey c).InSequence (past ++ s.happened [c]) ∧
      ∀ x ∈ s.occurs c, x.now = x.entry.time ∧ x.clock = x.entry.time := by
  -- a command on which nothing happens
  have hquiet : s.occurs c = [] → (s.obey c).InSequence past →
      (s.obey c).InSequence (past ++ s.happened [c]) ∧
        ∀ x ∈ s.occurs c, x.now = x.entry.time ∧ x.clock = x.entry.time := by
    intro hnone hnext
    rw [happened_singleton, hnone, List.map_nil, List.append_nil]
    exact ⟨hnext, nofun⟩
  cases c with
  | action time action => exact hquiet rfl (h.schedule hforward _)
  | fetch time observer => exact hquiet rfl (h.schedule hforward _)
  | observe blockSize => exact hquiet rfl (h.of_same rfl rfl rfl rfl)
  | turn stop =>
    cases hdue : s.due? stop with
    | none =>
      refine hquiet (occurs_of_none hdue) ?_
      rw [obey_turn_of_none hdue]
      have hlater : ∀ e ∈ s.agenda.entries, stop ≤ e.time := fun e he =>
        Nat.le_of_lt (lt_of_due?_eq_none htime.sorted hdue he)
      exact (h.advance hlater).of_same rfl rfl rfl rfl
    | some x =>
      obtain ⟨s₀, event⟩ := x
      have hidle := (htime.due hc hdue).idle
      obtain ⟨time, number, rest, hentries, hstop, rfl⟩ := due?_eq_some_iff.mp hdue
      obtain ⟨htaken, hnow, hclock⟩ := h.take hentries
      rw [happened_singleton, occurs_of_due hentries hstop, obey_turn_of_some hdue]
      refine ⟨snapshotIfDue_inSequence (rescheduleTimer_inSequence (htaken.happen hidle event)), ?_⟩
      intro x hx
      rw [List.mem_singleton.mp hx]
      exact ⟨hnow, hclock⟩

/-- **Several commands** do. -/
theorem InSequence.obeyAll (hperiod : 0 < cfg.sweepPeriod.millis) (h : s.InSequence past)
    (htime : s.OnTime) {cs : List Command} (hcs : ∀ k ∈ cs, k.InTime) (hforward : s.Forward cs) :
    (s.obeyAll cs).InSequence (past ++ s.happened cs) ∧
      ∀ x ∈ s.occurrences cs, x.now = x.entry.time ∧ x.clock = x.entry.time := by
  induction cs generalizing s past with
  | nil =>
    refine ⟨?_, nofun⟩
    show s.InSequence (past ++ [])
    rw [List.append_nil]
    exact h
  | cons c cs ih =>
    have hc := hcs c List.mem_cons_self
    obtain ⟨hnext, hone⟩ := h.obey htime hc hforward.1
    obtain ⟨hall, hmore⟩ := ih hnext (htime.obey hperiod hc)
      (fun k hk => hcs k (List.mem_cons_of_mem c hk)) hforward.2
    rw [List.append_assoc, ← happened_cons] at hall
    refine ⟨hall, fun x hx => ?_⟩
    rw [occurrences, List.mem_append] at hx
    exact hx.elim (hone x) (hmore x)

/-! ### What becomes of an event -/

/-- What is on the agenda happens or stays there. -/
theorem mem_obey (htime : s.OnTime) {c : Command} (hc : c.InTime) {e : Scheduled}
    (he : e ∈ s.agenda.entries) : e ∈ s.happened [c] ∨ e ∈ (s.obey c).agenda.entries := by
  cases c with
  | action | fetch => exact .inr (Agenda.mem_insert_iff.mpr (.inr he))
  | observe => exact .inr he
  | turn stop =>
    cases hdue : s.due? stop with
    | none =>
      rw [obey_turn_of_none hdue, advance_frame]
      exact .inr he
    | some x =>
      obtain ⟨s₀, event⟩ := x
      have hidle := (htime.due hc hdue).idle
      obtain ⟨time, number, rest, hentries, hstop, rfl⟩ := due?_eq_some_iff.mp hdue
      rw [happened_singleton, occurs_of_due hentries hstop, obey_turn_of_some hdue]
      rw [hentries] at he
      rcases List.mem_cons.mp he with rfl | hrest
      · exact .inl List.mem_cons_self
      · refine .inr (mem_handle hidle event ?_)
        rw [advance_frame]
        exact hrest

theorem mem_obeyAll (hperiod : 0 < cfg.sweepPeriod.millis) (htime : s.OnTime) {cs : List Command}
    (hcs : ∀ k ∈ cs, k.InTime) {e : Scheduled} (he : e ∈ s.agenda.entries) :
    e ∈ s.happened cs ∨ e ∈ (s.obeyAll cs).agenda.entries := by
  induction cs generalizing s with
  | nil => exact .inr he
  | cons c cs ih =>
    have hc := hcs c List.mem_cons_self
    rw [happened_cons, List.mem_append, or_assoc]
    refine (mem_obey htime hc he).imp_right fun hnext => ?_
    exact ih (htime.obey hperiod hc) (fun k hk => hcs k (List.mem_cons_of_mem c hk)) hnext

/-- What happens on a command was on the agenda before. -/
theorem mem_of_mem_happened {c : Command} {e : Scheduled} (h : e ∈ s.happened [c]) :
    e ∈ s.agenda.entries := by
  rw [happened_singleton] at h
  cases c with
  | action | fetch | observe => cases h
  | turn stop =>
    rw [occurs] at h
    split at h
    · cases h
    · next d rest hnext =>
      split at h
      · cases h
      · rw [List.map_singleton, List.mem_singleton] at h
        rw [Agenda.next?_eq_some_iff.mp hnext, h]
        exact List.mem_cons_self

/-- **Nothing is lost.** Whatever was on the agenda has happened or is still there. -/
theorem booked_iff (hperiod : 0 < cfg.sweepPeriod.millis) (htime : s.OnTime) {cs : List Command}
    (hcs : ∀ k ∈ cs, k.InTime) {e : Scheduled} :
    s.Booked cs e ↔ e ∈ s.happened cs ++ (s.obeyAll cs).agenda.entries := by
  rw [List.mem_append]
  constructor
  · rintro ⟨front, back, rfl, he⟩
    have hfront : (s.obeyAll front).OnTime :=
      obeyAll_onTime hperiod htime fun k hk => hcs k (List.mem_append_left back hk)
    have hback := mem_obeyAll hperiod hfront (fun k hk => hcs k (List.mem_append_right front hk)) he
    rw [happened_append, List.mem_append, obeyAll_append, or_assoc]
    exact .inr hback
  · rintro (he | he)
    · induction cs generalizing s with
      | nil => cases he
      | cons c cs ih =>
        rw [happened_cons, List.mem_append] at he
        rcases he with hone | hmore
        · exact ⟨[], c :: cs, rfl, mem_of_mem_happened hone⟩
        · obtain ⟨front, back, rfl, hfront⟩ := ih (htime.obey hperiod (hcs c List.mem_cons_self))
            (fun k hk => hcs k (List.mem_cons_of_mem c hk)) hmore
          exact ⟨c :: front, back, rfl, hfront⟩
    · exact ⟨cs, [], (List.append_nil cs).symm, he⟩

/-! ### Time -/

theorem le_now_obey (htime : s.OnTime) {c : Command} (hc : c.InTime) : s.now ≤ (s.obey c).now := by
  have hadvance : ∀ (s : Simulation cfg) (time : Instant), s.now ≤ (s.advance time).now := by
    intro s time
    rw [Instant.le_iff, advance_millis]
    exact Nat.le_max_left _ _
  cases c with
  | action | fetch | observe => exact Nat.le_refl _
  | turn stop =>
    rw [Simulation.obey, turn]
    split
    · next x hdue =>
      obtain ⟨s₀, event⟩ := x
      have hidle := (htime.due hc hdue).idle
      obtain ⟨time, number, rest, -, -, rfl⟩ := due?_eq_some_iff.mp hdue
      rw [handle_now hidle]
      exact hadvance { s with agenda := ⟨rest⟩ } time
    · exact hadvance s stop

/-- **Time never goes back.** -/
theorem le_now_obeyAll (hperiod : 0 < cfg.sweepPeriod.millis) (htime : s.OnTime) {cs : List Command}
    (hcs : ∀ k ∈ cs, k.InTime) : s.now ≤ (s.obeyAll cs).now := by
  have hstep : ∀ (s' : Simulation cfg) (k : Command), s'.OnTime ∧ s.now ≤ s'.now → k.InTime →
      (s'.obey k).OnTime ∧ s.now ≤ (s'.obey k).now :=
    fun s' k h hk => ⟨h.1.obey hperiod hk, Nat.le_trans h.2 (le_now_obey h.1 hk)⟩
  exact (obeyAll_induction hstep ⟨htime, Nat.le_refl _⟩ hcs).2

/-- A run does not go beyond its end. -/
theorem now_turn_le (hstop : stop < .last) (htime : s.OnTime) (hnow : s.now ≤ stop) :
    (s.turn stop).now ≤ stop := by
  rw [turn]
  split
  · next x hdue =>
    obtain ⟨s₀, event⟩ := x
    have hidle := (htime.due hstop hdue).idle
    obtain ⟨time, number, rest, -, hdueTime, rfl⟩ := due?_eq_some_iff.mp hdue
    rw [handle_now hidle, Instant.le_iff, advance_millis]
    exact Nat.max_le.mpr ⟨hnow, hdueTime⟩
  · rw [Instant.le_iff]
    exact Nat.le_trans (Nat.le_of_eq (advance_millis s stop)) (Nat.max_le.mpr ⟨hnow, Nat.le_refl _⟩)

/-- The turns of a run ask for nothing in the past. -/
theorem forward_turns (hperiod : 0 < cfg.sweepPeriod.millis) (hstop : stop < .last) (htime : s.OnTime)
    (hnow : s.now ≤ stop) (count : Nat) :
    s.Forward (List.replicate count (.turn stop)) ∧
      (s.obeyAll (List.replicate count (.turn stop))).now ≤ stop := by
  induction count generalizing s with
  | zero => exact ⟨trivial, hnow⟩
  | succ count ih =>
    obtain ⟨hmore, hend⟩ := ih (htime.turn hperiod hstop) (now_turn_le hstop htime hnow)
    exact ⟨⟨hnow, hmore⟩, hend⟩

/-- **The end of a run.** A run that ends at the present instant or later is a row of turns that ask
for nothing in the past. It ends at its end, and all that is left to happen is due later. -/
theorem runUntil_end (hperiod : 0 < cfg.sweepPeriod.millis) (hstop : stop < .last) (htime : s.OnTime)
    (hpaced : s.Paced) (hnow : s.now ≤ stop) :
    ∃ turns, s.runUntil stop = s.obeyAll (List.replicate turns (.turn stop)) ∧
      s.Forward (List.replicate turns (.turn stop)) ∧ (s.runUntil stop).now = stop ∧
      ∀ e ∈ (s.runUntil stop).agenda.entries, stop < e.time := by
  obtain ⟨turns, hturns, hnone⟩ := runUntil_eq_turns hperiod hstop htime hpaced
  have hbefore := (htime.turns hperiod hstop hpaced turns).1
  have hearlier := (forward_turns hperiod hstop htime hnow turns).2
  have hlast : s.runUntil stop =
      ((s.obeyAll (List.replicate turns (.turn stop))).advance stop).takeSnapshot := by
    rw [hturns, obeyAll_append]
    show turn _ stop = _
    rw [turn, hnone]
  refine ⟨turns + 1, ?_, (forward_turns hperiod hstop htime hnow (turns + 1)).1, ?_, ?_⟩
  · rw [hturns, List.replicate_succ']
  · rw [hlast]
    apply Instant.ext_millis
    exact (advance_millis _ stop).trans (Nat.max_eq_right hearlier)
  · rw [hlast, advance_frame]
    exact fun e he => lt_of_due?_eq_none hbefore.sorted hnone he

/-! ### Whole lives -/

/-- A simulation before it runs: nothing has happened, and nothing lies in the past. -/
theorem build_inSequence (c : Scenario) (cfg : Settings) : (c.build cfg).InSequence [] := by
  have hstart : (c.start cfg).InSequence [] ∧ (c.start cfg).now = .boot := by
    have hseed : (ofSeed cfg c.seed).InSequence [] :=
      rescheduleTimer_inSequence ⟨List.Pairwise.nil, List.Perm.refl _, nofun, nofun, rfl⟩
    have hnow : (ofSeed cfg c.seed).now = .boot := rescheduleTimer_now _
    rw [Scenario.start]
    cases c.snapshotInterval with
    | none => exact ⟨hseed.of_same rfl rfl rfl rfl, hnow⟩
    | some interval => exact ⟨hseed.of_same rfl rfl rfl rfl, hnow⟩
  have hstep : ∀ (s : Simulation cfg) (k : Command), s.InSequence [] ∧ s.now = .boot →
      k ∈ c.commands → (s.obey k).InSequence [] ∧ (s.obey k).now = .boot := by
    rintro s k ⟨h, hnow⟩ hk
    have hboot : ∀ time, s.now ≤ time := fun time => hnow ▸ Nat.zero_le time.millis
    rcases Scenario.mem_commands hk with rfl | ⟨blockSize, rfl⟩ | ⟨a, -, rfl⟩
    · exact ⟨h.schedule (hboot _) _, hnow⟩
    · exact ⟨h.of_same rfl rfl rfl rfl, hnow⟩
    · exact ⟨h.schedule (hboot _) _, hnow⟩
  rw [Scenario.build_eq]
  exact (obeyAll_induction hstep hstart fun _ hk => hk).1

/-- An event that has been on the agenda was scheduled before others exactly if its number is lower.
-/
theorem InSequence.booked_front_iff {front : List Scheduled} {s₀ : Simulation cfg} {e : Scheduled}
    (h : s.InSequence past) (h₀ : s₀.InSequence front)
    (hmem : ∀ d ∈ front ++ s₀.agenda.entries, d ∈ past ++ s.agenda.entries)
    (he : e ∈ past ++ s.agenda.entries) :
    e ∈ front ++ s₀.agenda.entries ↔ e.number < s₀.nextNumber := by
  refine ⟨fun hfront => h₀.number_lt hfront, fun hlt => ?_⟩
  obtain ⟨d, hd, hnumber⟩ := List.mem_map.mp (h₀.numbers.mem_iff.mpr (List.mem_range.mpr hlt))
  have hdistinct : ((past ++ s.agenda.entries).map Scheduled.number).Nodup :=
    h.numbers.nodup_iff.mpr List.nodup_range
  rw [← List.inj_on_of_nodup_map hdistinct (hmem d hd) he hnumber]
  exact hd

/-- **Where a run ends**, all that is due has happened once, and nothing else. -/
theorem InSequence.count_of_settled (h : s.InSequence past) (hnow : s.now = stop)
    (hlater : ∀ e ∈ s.agenda.entries, stop < e.time) {e : Scheduled}
    (he : e ∈ past ++ s.agenda.entries) : past.count e = if e.time ≤ stop then 1 else 0 := by
  have hnodup : past.Nodup := (List.pairwise_append.mp h.ordered).1.imp Scheduled.Before.ne
  have hiff : e ∈ past ↔ e.time ≤ stop := by
    refine ⟨fun hpast => hnow ▸ h.reached e hpast, fun hdue => ?_⟩
    refine (List.mem_append.mp he).resolve_right fun hagenda => ?_
    exact Nat.not_le.mpr (hlater e hagenda) hdue
  rw [hnodup.count]
  simp only [hiff]

/-- **One sequence.** A simulation is set up by a scenario, and commands are given to it in any
order, among them turns of runs, none of which asks for something that lies in the past. Over its
whole life the events happen in the order of their instants and running numbers, each of them while
the simulation and the node's clock show the instant at which it is due; time never goes back; and
the numbers tell in which order the events were scheduled, so that this is also the order in which
those of one instant happen. When it then runs up to an instant, and so by any number of turns, all
events that have ever been scheduled up to that instant have happened exactly once, and none that is
due later has. -/
theorem obeyAll_sequential (cfg : Settings) (hperiod : 0 < cfg.sweepPeriod.millis) (c : Scenario)
    (cs : List Command) (hcs : ∀ k ∈ cs, k.InTime) (hforward : (c.build cfg).Forward cs) :
    let start := c.build cfg
    let s := start.obeyAll cs
    (start.happened cs).Pairwise Scheduled.Before ∧
    (∀ x ∈ start.occurrences cs, x.now = x.entry.time ∧ x.clock = x.entry.time) ∧
    (∀ front back, cs = front ++ back →
      (start.obeyAll front).now ≤ s.now ∧
      ∀ e, start.Booked cs e → (start.Booked front e ↔ e.number < (start.obeyAll front).nextNumber)) ∧
    (c.IsPaced → (∀ k ∈ cs, k.IsPaced) → ∀ stop < .last, s.now ≤ stop → ∃ turns,
      let all := cs ++ List.replicate turns (.turn stop)
      s.runUntil stop = start.obeyAll all ∧ (s.runUntil stop).now = stop ∧ start.Forward all ∧
      (∀ e ∈ start.happened all, e.time ≤ stop) ∧
      ∀ e, start.Booked all e → (start.happened all).count e = if e.time ≤ stop then 1 else 0) := by
  intro start s
  have hbuilt : start.OnTime := build_onTime hperiod c
  have hfirst : start.InSequence [] := build_inSequence c cfg
  have htime : s.OnTime := obeyAll_onTime hperiod hbuilt hcs
  -- the sequence after any row of such commands
  have hsequence : ∀ ds : List Command, (∀ k ∈ ds, k.InTime) → start.Forward ds →
      (start.obeyAll ds).InSequence (start.happened ds) := by
    intro ds hds hdsForward
    exact (hfirst.obeyAll hperiod hbuilt hds hdsForward).1
  have hlife := hsequence cs hcs hforward
  refine ⟨(List.pairwise_append.mp hlife.ordered).1,
    (hfirst.obeyAll hperiod hbuilt hcs hforward).2, ?_, ?_⟩
  · rintro front back rfl
    have hfront : ∀ k ∈ front, k.InTime := fun k hk => hcs k (List.mem_append_left back hk)
    have hback : ∀ k ∈ back, k.InTime := fun k hk => hcs k (List.mem_append_right front hk)
    have hfrontTime := obeyAll_onTime hperiod hbuilt hfront
    refine ⟨?_, fun e he => ?_⟩
    · have hlater := le_now_obeyAll hperiod hfrontTime hback
      rw [← obeyAll_append] at hlater
      exact hlater
    · have hmem : ∀ d, start.Booked front d → start.Booked (front ++ back) d := by
        rintro d ⟨before, after, rfl, hd⟩
        exact ⟨before, after ++ back, List.append_assoc _ _ _, hd⟩
      rw [booked_iff hperiod hbuilt hfront]
      refine hlife.booked_front_iff (hsequence front hfront (forward_append.mp hforward).1) ?_
        ((booked_iff hperiod hbuilt hcs).mp he)
      intro d hd
      exact (booked_iff hperiod hbuilt hcs).mp (hmem d ((booked_iff hperiod hbuilt hfront).mpr hd))
  · intro hc hcsPaced stop hstop hnow
    obtain ⟨-, hpaced⟩ := build_obeyAll_paced hperiod hc fun k hk => ⟨hcs k hk, hcsPaced k hk⟩
    obtain ⟨turns, hturns, hrunForward, hstopped, hlater⟩ :=
      runUntil_end hperiod hstop htime hpaced hnow
    have hall : ∀ k ∈ cs ++ List.replicate turns (.turn stop), k.InTime := by
      intro k hk
      rcases List.mem_append.mp hk with hk | hk
      · exact hcs k hk
      · exact (Command.of_mem_turns hstop hk).1
    have hallForward : start.Forward (cs ++ List.replicate turns (.turn stop)) :=
      forward_append.mpr ⟨hforward, hrunForward⟩
    have hend := hsequence _ hall hallForward
    rw [obeyAll_append, ← hturns] at hend
    refine ⟨turns, by rw [obeyAll_append, hturns], hstopped, hallForward,
      fun e he => hstopped ▸ hend.reached e he, fun e he => ?_⟩
    have hmem := (booked_iff hperiod hbuilt hall).mp he
    rw [obeyAll_append, ← hturns] at hmem
    exact hend.count_of_settled hstopped hlater hmem

/-- A neighbor sends all five milliseconds and a route behind it comes in. In the middle of a run an
action is asked for at the present instant and a retrieval later; the run goes on to its end. -/
theorem obeyAll_sequential_of_traffic :
    let cfg : Settings := ⟨2, .ofMillis 2, .ofMillis 9, .ofMillis 3⟩
    let neighbor : Address := .ofGroups 65152 0 0 0 0 0 0 1
    let route : Route := ⟨.ofGroups 43690 0 0 0 0 0 0 1, neighbor⟩
    let c : Scenario :=
      { Scenario.stock with
          fetchDelay := .ofMillis 1
          observers := [64]
          actions := [(.boot, .startTraffic neighbor (.ofMillis 5)), (.ofMillis 1, .addRoute route)] }
    let cs : List Command := List.replicate 3 (.turn (.ofMillis 9)) ++
      [.action (.ofMillis 1) .takeSnapshot, .fetch (.ofMillis 7) 0]
    let stop : Instant := .ofMillis 9
    0 < cfg.sweepPeriod.millis ∧ c.IsPaced ∧ (∀ k ∈ cs, k.InTime ∧ k.IsPaced) ∧
      (c.build cfg).Forward cs ∧ stop < .last ∧ ((c.build cfg).obeyAll cs).now ≤ stop ∧
      ((c.build cfg).happened cs).map Scheduled.number = [1, 3, 2] ∧
      ((c.build cfg).happened cs).Pairwise Scheduled.Before ∧
      ∃ turns,
        let all := cs ++ List.replicate turns (.turn stop)
        ((c.build cfg).obeyAll cs).runUntil stop = (c.build cfg).obeyAll all ∧
        (((c.build cfg).obeyAll cs).runUntil stop).now = stop ∧ (c.build cfg).Forward all ∧
        (∀ e ∈ (c.build cfg).happened all, e.time ≤ stop) ∧
        ∀ e, (c.build cfg).Booked all e →
          ((c.build cfg).happened all).count e = if e.time ≤ stop then 1 else 0 := by
  intro cfg neighbor route c cs stop
  have hperiod : 0 < cfg.sweepPeriod.millis := by decide
  have hc : c.IsPaced := by
    intro a ha
    rw [List.mem_cons, List.mem_singleton] at ha
    rcases ha with rfl | rfl
    · show 0 < (Span.ofMillis 5).millis
      decide
    · trivial
  have hstop : stop < .last := by decide
  have hcs : ∀ k ∈ cs, k.InTime ∧ k.IsPaced := by
    intro k hk
    rcases List.mem_append.mp hk with hk | hk
    · exact Command.of_mem_turns hstop hk
    · rw [List.mem_cons, List.mem_singleton] at hk
      rcases hk with rfl | rfl
      · exact ⟨trivial, trivial⟩
      · exact ⟨trivial, trivial⟩
  have hforward : (c.build cfg).Forward cs := by decide +kernel
  have hnow : ((c.build cfg).obeyAll cs).now ≤ stop := by decide +kernel
  have hnumbers : ((c.build cfg).happened cs).map Scheduled.number = [1, 3, 2] := by decide +kernel
  obtain ⟨hordered, -, -, hrun⟩ :=
    obeyAll_sequential cfg hperiod c cs (fun k hk => (hcs k hk).1) hforward
  exact ⟨hperiod, hc, hcs, hforward, hstop, hnow, hnumbers, hordered,
    hrun hc (fun k hk => (hcs k hk).2) stop hstop hnow⟩

end Simulation

end ObservableTree
