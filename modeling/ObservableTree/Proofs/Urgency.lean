import Mathlib.Data.List.Induction
import Mathlib.Data.List.ReduceOption
import Mathlib.Data.Multiset.MapFold
import Mathlib.Data.Prod.Lex
import ObservableTree.Proofs.Agenda

/-!
# The most urgent first

Urgency is a lawful comparison, so a queue may keep its events in whatever way the comparison leads
it to, as long as one of the greatest comes off. It is compared with the agenda, request by request:

* `Scheduled.due` — instant and number in lexicographic order; `urgency_compares` — urgency is this
  order, reversed, and `atMost_iff` — so is what is decided by it;
* `QueueRequest` — an event to take in, or the wish for one;
* `GreatestFirst` — what a queue may answer in which the greatest comes off, and what is left in it;
  `conserved` — nothing is lost, `dues_eq`, `eq_of_distinct` — two such queues answer alike;
* `Agenda.answers`, `Agenda.drain` — what comes off the agenda, in between and in the end;
  `greatestFirst_answers` — the agenda is such a queue;
* `most_urgent_first` — whatever it is asked for, the event that is due first comes off.
-/

namespace ObservableTree

/-! ### The comparison -/

namespace Scheduled

/-- When an event is due: the milliseconds, and among those of one instant the running number. -/
def due (e : Scheduled) : ℕ ×ₗ ℕ := toLex (e.time.millis, e.number)

theorem due_le_iff {a b : Scheduled} : a.due ≤ b.due ↔ a.Precedes b := Prod.Lex.toLex_le_toLex

theorem due_lt_iff {a b : Scheduled} : a.due < b.due ↔ a.urgency b = .gt := by
  rw [urgency_eq_gt_iff]
  exact Prod.Lex.toLex_lt_toLex

theorem due_eq_iff {a b : Scheduled} : a.due = b.due ↔ a.sameDue b = true := by
  have hsame : a.time = b.time ↔ a.time.millis = b.time.millis :=
    ⟨congrArg Instant.millis, Instant.ext_millis⟩
  rw [sameDue, Bool.and_eq_true, beq_iff_eq, beq_iff_eq, hsame, due, due, toLex_inj, Prod.mk.injEq]

theorem urgency_swap (a b : Scheduled) : (a.urgency b).swap = b.urgency a := by
  rw [urgency, Ordering.swap_then, Nat.compare_swap, Nat.compare_swap]
  rfl

/-- **Urgency is the order of the dues, reversed.** -/
theorem urgency_compares (a b : Scheduled) : (a.urgency b).Compares b.due a.due := by
  cases h : a.urgency b with
  | lt =>
    refine due_lt_iff.mpr ?_
    rw [← urgency_swap, h]
    rfl
  | eq =>
    refine le_antisymm ?_ ?_
    · refine not_lt.mp fun hlt => ?_
      rw [due_lt_iff, h] at hlt
      cases hlt
    · refine not_lt.mp fun hlt => ?_
      rw [due_lt_iff, ← urgency_swap, h] at hlt
      cases hlt
  | gt => exact due_lt_iff.mpr h

theorem atMost_iff {a b : Scheduled} : a.atMost b = true ↔ b.due ≤ a.due := by
  rw [← (urgency_compares a b).ne_gt]
  exact Ordering.isLE_iff_ne_gt

theorem atMost_total (a b : Scheduled) : a.atMost b = true ∨ b.atMost a = true := by
  rw [atMost_iff, atMost_iff]
  exact le_total _ _

theorem sameDue_of_atMost {a b : Scheduled} (hab : a.atMost b = true) (hba : b.atMost a = true) :
    a.sameDue b = true :=
  due_eq_iff.mp (le_antisymm (atMost_iff.mp hba) (atMost_iff.mp hab))

theorem sameDue_iff {a b : Scheduled} : a.sameDue b = true ↔ a.urgency b = .eq := by
  rw [← due_eq_iff, (urgency_compares a b).eq_eq]
  exact eq_comm

instance : Std.TransCmp urgency where
  eq_swap := (urgency_swap _ _).symm
  isLE_trans hab hbc := atMost_iff.mpr (le_trans (atMost_iff.mp hbc) (atMost_iff.mp hab))

end Scheduled

/-! ### Queues that hand out the greatest event -/

/-- What a queue of scheduled events is asked for: to take one in, or to hand one out. -/
inductive QueueRequest where
  | insert (e : Scheduled)
  | next
deriving DecidableEq

namespace QueueRequest

/-- The event that a request brings. -/
def brings? : QueueRequest → Option Scheduled
  | insert e => some e
  | next => none

/-- The events that some requests bring, in order. -/
def brought (rs : List QueueRequest) : List Scheduled := rs.filterMap brings?

theorem brought_insert (e : Scheduled) (rs : List QueueRequest) :
    brought (insert e :: rs) = e :: brought rs := rfl

theorem brought_next (rs : List QueueRequest) : brought (next :: rs) = brought rs := rfl

end QueueRequest

open QueueRequest (brought brought_insert brought_next)

/-- What a queue answers that hands out one of the greatest events in it, whichever of several. It
starts with some events, is asked for something, answers whenever it is asked for an event, and ends
with some events. -/
inductive GreatestFirst : Multiset Scheduled → List QueueRequest → List (Option Scheduled) →
    Multiset Scheduled → Prop where
  | done (present : Multiset Scheduled) : GreatestFirst present [] [] present
  | insert {e : Scheduled} {present final : Multiset Scheduled} {rs : List QueueRequest}
      {answers : List (Option Scheduled)} (hrest : GreatestFirst (e ::ₘ present) rs answers final) :
      GreatestFirst present (.insert e :: rs) answers final
  | nothing {final : Multiset Scheduled} {rs : List QueueRequest}
      {answers : List (Option Scheduled)} (hrest : GreatestFirst 0 rs answers final) :
      GreatestFirst 0 (.next :: rs) (none :: answers) final
  | next {e : Scheduled} {present final : Multiset Scheduled} {rs : List QueueRequest}
      {answers : List (Option Scheduled)} (hgreatest : ∀ d ∈ present, d.atMost e = true)
      (hrest : GreatestFirst present rs answers final) :
      GreatestFirst (e ::ₘ present) (.next :: rs) (some e :: answers) final

namespace GreatestFirst

variable {present present' final final' : Multiset Scheduled} {rs : List QueueRequest}
  {answers answers' : List (Option Scheduled)}

/-- What was there and what was brought has come off or is still there. -/
theorem conserved (h : GreatestFirst present rs answers final) :
    present + brought rs = answers.reduceOption + final := by
  induction h with
  | done present => exact Multiset.add_comm _ _
  | insert hrest ih =>
    rw [brought_insert, ← ih, ← Multiset.cons_coe, Multiset.add_cons, Multiset.cons_add]
  | nothing hrest ih => exact ih
  | next hgreatest hrest ih =>
    rw [brought_next, List.reduceOption_cons_of_some, ← Multiset.cons_coe, Multiset.cons_add,
      Multiset.cons_add, ih]

/-- A greatest event is due no later than any of those that are there. -/
theorem due_le_of_greatest {e : Scheduled} (h : ∀ d ∈ present, d.atMost e = true) {x : ℕ ×ₗ ℕ}
    (hx : x ∈ (e ::ₘ present).map Scheduled.due) : e.due ≤ x := by
  obtain ⟨d, hd, rfl⟩ := Multiset.mem_map.mp hx
  rcases Multiset.mem_cons.mp hd with rfl | hd
  · exact le_refl _
  · exact Scheduled.atMost_iff.mp (h d hd)

theorem due_eq_of_greatest {e e' : Scheduled} (h : ∀ d ∈ present, d.atMost e = true)
    (h' : ∀ d ∈ present', d.atMost e' = true)
    (hdues : (e ::ₘ present).map Scheduled.due = (e' ::ₘ present').map Scheduled.due) :
    e.due = e'.due := by
  have hmem : e.due ∈ (e ::ₘ present).map Scheduled.due :=
    Multiset.mem_map_of_mem _ (Multiset.mem_cons_self _ _)
  have hmem' : e'.due ∈ (e' ::ₘ present').map Scheduled.due :=
    Multiset.mem_map_of_mem _ (Multiset.mem_cons_self _ _)
  rw [hdues] at hmem
  rw [← hdues] at hmem'
  exact le_antisymm (due_le_of_greatest h hmem') (due_le_of_greatest h' hmem)

/-- **Two such queues answer alike**, but for events of one instant and one number. -/
theorem dues_eq (h : GreatestFirst present rs answers final)
    (h' : GreatestFirst present' rs answers' final')
    (hdues : present.map Scheduled.due = present'.map Scheduled.due) :
    answers.map (Option.map Scheduled.due) = answers'.map (Option.map Scheduled.due) := by
  -- the two may hold other events by now, but those are due alike
  induction h generalizing present' answers' with
  | done present =>
    cases h'
    rfl
  | insert hrest ih =>
    cases h' with
    | insert hrest' => exact ih hrest' (by rw [Multiset.map_cons, hdues, Multiset.map_cons])
  | nothing hrest ih =>
    cases h' with
    | nothing hrest' => exact congrArg (none :: ·) (ih hrest' rfl)
    | next => exact absurd hdues.symm (by rw [Multiset.map_cons]; exact Multiset.cons_ne_zero)
  | next hgreatest hrest ih =>
    cases h' with
    | nothing => exact absurd hdues (by rw [Multiset.map_cons]; exact Multiset.cons_ne_zero)
    | next hgreatest' hrest' =>
      have hdue := due_eq_of_greatest hgreatest hgreatest' hdues
      rw [Multiset.map_cons, Multiset.map_cons, hdue, Multiset.cons_inj_right] at hdues
      rw [List.map_cons, List.map_cons, Option.map_some, Option.map_some, hdue, ih hrest' hdues]

/-- **They answer the same** where no two events have one instant and one number. -/
theorem eq_of_distinct (h : GreatestFirst present rs answers final)
    (h' : GreatestFirst present' rs answers' final') (hsame : present = present')
    (hdistinct : ((present + brought rs).map Scheduled.due).Nodup) : answers = answers' := by
  -- of all events in the run, only one is due as the greatest, so both hold the same throughout
  induction h generalizing present' answers' with
  | done present =>
    cases h'
    rfl
  | insert hrest ih =>
    cases h' with
    | insert hrest' =>
      refine ih hrest' (congrArg _ hsame) ?_
      rwa [brought_insert, ← Multiset.cons_coe, Multiset.add_cons, ← Multiset.cons_add] at hdistinct
  | nothing hrest ih =>
    cases h' with
    | nothing hrest' => exact congrArg (none :: ·) (ih hrest' rfl hdistinct)
    | next => exact absurd hsame.symm Multiset.cons_ne_zero
  | next hgreatest hrest ih =>
    cases h' with
    | nothing => exact absurd hsame Multiset.cons_ne_zero
    | @next e' present' _ _ _ hgreatest' hrest' =>
      have hdue := due_eq_of_greatest hgreatest hgreatest' (congrArg _ hsame)
      have hmem : e' ∈ e' ::ₘ present' := Multiset.mem_cons_self e' present'
      rw [← hsame] at hmem
      have hevent := Multiset.inj_on_of_nodup_map hdistinct _
        (Multiset.mem_add.mpr (.inl (Multiset.mem_cons_self _ _))) e'
        (Multiset.mem_add.mpr (.inl hmem)) hdue
      rw [hevent, Multiset.cons_inj_right] at hsame
      rw [brought_next, Multiset.cons_add, Multiset.map_cons, Multiset.nodup_cons] at hdistinct
      rw [hevent, ih hrest' hsame hdistinct.2]

end GreatestFirst

/-! ### The agenda -/

namespace Agenda

/-- The agenda after a request. Where nothing is scheduled, nothing comes off. -/
def serve (q : Agenda) : QueueRequest → Agenda
  | .insert e => q.insert e
  | .next => (q.next?.map Prod.snd).getD q

/-- The agenda after some requests. -/
def serveAll (q : Agenda) (rs : List QueueRequest) : Agenda := rs.foldl serve q

/-- What the agenda answers when it is asked for an event. -/
def answers (q : Agenda) : List QueueRequest → List (Option Scheduled)
  | [] => []
  | .insert e :: rs => (q.insert e).answers rs
  | .next :: rs => q.next?.map Prod.fst :: (q.serve .next).answers rs

/-- Takes one event off after another until none is left. -/
def drain (q : Agenda) : List Scheduled :=
  match hnext : q.next? with
  | none => []
  | some (e, rest) =>
    have : rest.entries.length < q.entries.length := by
      rw [next?_eq_some_iff.mp hnext]
      exact Nat.lt_succ_self _
    e :: rest.drain
termination_by q.entries.length

theorem drain_eq (q : Agenda) : q.drain = q.entries := by
  fun_induction drain q with
  | case1 q hnone => rw [next?_eq_none_iff.mp hnone]
  | case2 q e rest hnext _ ih => rw [ih, next?_eq_some_iff.mp hnext]

/-! ### What comes off it -/

theorem due_le_of_next? {q rest : Agenda} {e d : Scheduled} (h : q.Sorted)
    (hnext : q.next? = some (e, rest)) (hd : d ∈ q.entries) : e.due ≤ d.due :=
  Scheduled.due_le_iff.mpr (precedes_of_sorted h (next?_eq_some_iff.mp hnext) hd)

theorem serve_sorted {q : Agenda} (h : q.Sorted) (r : QueueRequest) : (q.serve r).Sorted := by
  cases r with
  | insert e => exact insert_sorted h e
  | next =>
    cases hnext : q.next? with
    | none => rwa [serve, hnext]
    | some p =>
      rw [serve, hnext]
      exact rest_sorted h (next?_eq_some_iff.mp hnext)

theorem serveAll_sorted {q : Agenda} (h : q.Sorted) (rs : List QueueRequest) :
    (q.serveAll rs).Sorted := by
  induction rs generalizing q with
  | nil => exact h
  | cons r rs ih => exact ih (serve_sorted h r)

theorem serveAll_cons (q : Agenda) (r : QueueRequest) (rs : List QueueRequest) :
    q.serveAll (r :: rs) = (q.serve r).serveAll rs := rfl

/-- **The agenda hands out a greatest event**, whatever it is asked for. -/
theorem greatestFirst_answers {q : Agenda} (h : q.Sorted) (rs : List QueueRequest) :
    GreatestFirst q.entries rs (q.answers rs) (q.serveAll rs).entries := by
  induction rs generalizing q with
  | nil => exact .done _
  | cons r rs ih =>
    have hrest := ih (serve_sorted h r)
    rw [serveAll_cons]
    cases r with
    | insert e =>
      have hperm : ((q.insert e).entries : Multiset Scheduled) = e ::ₘ q.entries :=
        Multiset.coe_eq_coe.mpr (insertIn_perm e q.entries)
      refine .insert ?_
      rw [← hperm]
      exact hrest
    | next =>
      cases hnext : q.next? with
      | none =>
        have hserve : q.serve .next = q := by
          rw [serve, hnext]
          rfl
        have hempty : (q.entries : Multiset Scheduled) = 0 := by
          rw [next?_eq_none_iff.mp hnext, Multiset.coe_nil]
        rw [hserve, hempty] at hrest
        rw [answers, hnext, hserve, hempty]
        exact .nothing hrest
      | some p =>
        have hserve : q.serve .next = p.2 := by
          rw [serve, hnext]
          rfl
        have hentries := next?_eq_some_iff.mp hnext
        have hperm : (q.entries : Multiset Scheduled) = p.1 ::ₘ p.2.entries := by
          rw [hentries, Multiset.cons_coe]
        rw [hserve] at hrest
        rw [answers, hnext, hserve, hperm]
        refine .next (fun d hd => ?_) hrest
        refine Scheduled.atMost_iff.mpr (due_le_of_next? h hnext ?_)
        rw [hentries]
        exact List.mem_cons_of_mem p.1 hd

theorem ofList_perm (es : List Scheduled) : (ofList es).entries.Perm es := by
  induction es using List.reverseRecOn with
  | nil => exact List.Perm.refl _
  | append_singleton es e ih =>
    rw [ofList, List.foldl_append]
    exact (insertIn_perm e _).trans ((ih.cons e).trans (List.perm_append_singleton e es).symm)

theorem ofList_sorted (es : List Scheduled) : (ofList es).Sorted := by
  have hserved : ofList es = empty.serveAll (es.map .insert) := by
    rw [serveAll, List.foldl_map]
    rfl
  rw [hserved]
  exact serveAll_sorted empty_sorted _

theorem drain_pairwise {q : Agenda} (h : q.Sorted) :
    q.drain.Pairwise fun a b => a.due ≤ b.due := by
  rw [drain_eq]
  exact h.imp Scheduled.due_le_iff.mpr

/-- Agendas of the same events are the same, unless two of them have one instant and one number. -/
theorem drain_eq_of_perm {q q' : Agenda} (h : q.Sorted) (h' : q'.Sorted)
    (hperm : q.entries.Perm q'.entries) (hdistinct : (q.entries.map Scheduled.due).Nodup) :
    q.drain = q'.drain := by
  rw [drain_eq, drain_eq]
  refine List.Perm.eq_of_pairwise (fun a b ha hb hab hba => ?_) h h' hperm
  exact List.inj_on_of_nodup_map hdistinct ha (hperm.mem_iff.mpr hb)
    (le_antisymm (Scheduled.due_le_iff.mpr hab) (Scheduled.due_le_iff.mpr hba))

/-- **The most urgent first.** Urgency is a total order of scheduled events. It is the order of
their dues, the later the less urgent, and does not look at what happens. So whatever is asked of an
agenda, each event that comes off is due before all that are there, and what is left comes off in
the order of the dues. A queue that hands out any of the greatest events answers the same, but for
events of one instant and one number. -/
theorem most_urgent_first :
    (Std.TransCmp Scheduled.urgency ∧
      ∀ a b : Scheduled,
        (a.urgency b).Compares b.due a.due ∧
        a.urgency? b = some (a.urgency b) ∧
        (a.atMost b = true ∨ b.atMost a = true) ∧
        (a.atMost b = true → b.atMost a = true → a.sameDue b = true) ∧
        (a.sameDue b = true ↔ a.urgency b = .eq) ∧
        ∀ x y : Event, { a with event := x }.urgency { b with event := y } = a.urgency b) ∧
    (∀ rs : List QueueRequest,
      let q := empty.serveAll rs
      (brought rs).Perm ((empty.answers rs).reduceOption ++ q.entries) ∧
      (q.next? = none ↔ q.entries = []) ∧
      (∀ e rest, q.next? = some (e, rest) →
        q.entries.Perm (e :: rest.entries) ∧ ∀ d ∈ q.entries, e.due ≤ d.due) ∧
      (q.drain.Perm q.entries ∧ q.drain.Pairwise fun a b => a.due ≤ b.due) ∧
      GreatestFirst 0 rs (empty.answers rs) q.entries ∧
      ∀ answers final, GreatestFirst 0 rs answers final →
        answers.map (Option.map Scheduled.due) =
          (empty.answers rs).map (Option.map Scheduled.due) ∧
        (((brought rs).map Scheduled.due).Nodup → answers = empty.answers rs)) ∧
    ∀ es : List Scheduled,
      ((ofList es).drain.Perm es ∧ (ofList es).drain.Pairwise fun a b => a.due ≤ b.due) ∧
      ∀ es', es.Perm es' → (es.map Scheduled.due).Nodup →
        (ofList es').drain = (ofList es).drain := by
  refine ⟨⟨inferInstance, fun a b => ⟨Scheduled.urgency_compares a b, rfl,
    Scheduled.atMost_total a b, Scheduled.sameDue_of_atMost, Scheduled.sameDue_iff,
    fun _ _ => rfl⟩⟩, fun rs => ?_, fun es => ?_⟩
  · have hsorted := serveAll_sorted empty_sorted rs
    have hrun := greatestFirst_answers empty_sorted rs
    refine ⟨?_, next?_eq_none_iff, fun e rest hnext => ⟨?_, fun d => due_le_of_next? hsorted hnext⟩,
      ⟨?_, drain_pairwise hsorted⟩, hrun,
      fun answers final h => ⟨h.dues_eq hrun rfl, fun hdistinct => ?_⟩⟩
    · exact Multiset.coe_eq_coe.mp ((Multiset.zero_add _).symm.trans hrun.conserved)
    · rw [next?_eq_some_iff.mp hnext]
    · rw [drain_eq]
    · refine h.eq_of_distinct hrun rfl ?_
      rwa [Multiset.zero_add, Multiset.map_coe, Multiset.coe_nodup]
  · have hsorted := ofList_sorted es
    refine ⟨⟨?_, drain_pairwise hsorted⟩, fun es' hperm hdistinct => ?_⟩
    · rw [drain_eq]
      exact ofList_perm es
    · have hentries : (ofList es').entries.Perm (ofList es).entries :=
        (ofList_perm es').trans (hperm.symm.trans (ofList_perm es).symm)
      refine drain_eq_of_perm (ofList_sorted es') hsorted hentries ?_
      exact (((ofList_perm es').trans hperm.symm).map _).nodup_iff.mpr hdistinct

/-- Four events in two orders, and a queue that is asked for one in between. -/
theorem most_urgent_first_of_four :
    let e : Nat → Nat → Scheduled := fun secs number => ⟨.ofSecs secs, number, .timer 0⟩
    let es := [e 7 0, e 3 2, e 3 1, e 0 3]
    let rs : List QueueRequest :=
      [.insert (e 7 0), .insert (e 3 2), .next, .insert (e 3 1), .next, .next, .next]
    (es.Perm es.reverse ∧ (es.map Scheduled.due).Nodup ∧ ((brought rs).map Scheduled.due).Nodup) ∧
    (ofList es.reverse).drain = (ofList es).drain ∧
    (ofList es).drain = [e 0 3, e 3 1, e 3 2, e 7 0] ∧
    ∀ answers final, GreatestFirst 0 rs answers final →
      answers = [some (e 3 2), some (e 3 1), some (e 7 0), none] := by
  intro e es rs
  obtain ⟨-, hruns, horders⟩ := most_urgent_first
  have hes : (es.map Scheduled.due).Nodup := by decide
  have hrs : ((brought rs).map Scheduled.due).Nodup := by decide
  have hperm : es.Perm es.reverse := es.reverse_perm.symm
  refine ⟨⟨hperm, hes, hrs⟩, (horders es).2 _ hperm hes, ?_, fun answers final h => ?_⟩
  · rw [drain_eq]
    decide
  · have hanswers := ((hruns rs).2.2.2.2.2 answers final h).2 hrs
    rw [hanswers]
    decide

end Agenda

end ObservableTree
