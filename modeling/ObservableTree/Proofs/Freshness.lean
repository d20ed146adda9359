import ObservableTree.Proofs.Reading
import ObservableTree.Proofs.Runs

/-!
# Which notifications are still unseen

A read learns of a notification by a flag, which it reads when it copies the state and lowers when
its answer is settled. Between the two the document is written, and another notification may be
raised. Only the number of notifications tells the read whether one was:

* `Mark`, `Resource.history` — when subscribers were told, and when a read that succeeds copied the
  state;
* `Unseen` — a notification that no later read has copied;
* `reactAll_fresh`, `reactAll_noticeNumber` — the flag and the number after any inputs;
* `fresh_call` — one call keeps the flag in step with the history;
* `run_fresh_iff` — so does a run, and reads start and fail accordingly.
-/

namespace ObservableTree

/-! ### Histories -/

/-- What counts for a notification: subscribers are told, or a read that succeeds copies the
state. -/
inductive Mark where
  | told
  | copied
deriving DecidableEq

/-- Subscribers were told, and no read that succeeded has copied the state since. -/
def Unseen (history : List Mark) : Prop :=
  ∃ front back, history = front ++ .told :: back ∧ .copied ∉ back

theorem not_unseen_nil : ¬Unseen [] := by
  rintro ⟨front, back, hsplit, -⟩
  cases front <;> cases hsplit

theorem unseen_append_iff {history marks : List Mark} (h : .copied ∉ marks) :
    Unseen (history ++ marks) ↔ Unseen history ∨ .told ∈ marks := by
  constructor
  · rintro ⟨front, back, hsplit, hback⟩
    rcases List.append_eq_append_iff.mp hsplit with ⟨middle, -, hmarks⟩ | ⟨middle, hhistory, hmarks⟩
    · exact .inr (hmarks ▸ List.mem_append_right _ List.mem_cons_self)
    · cases middle with
      | nil =>
        rw [List.nil_append] at hmarks
        exact .inr (hmarks ▸ List.mem_cons_self)
      | cons m middle =>
        obtain ⟨rfl, rfl⟩ := List.cons.inj hmarks
        exact .inl ⟨front, middle, hhistory, fun hm => hback (List.mem_append_left _ hm)⟩
  · rintro (⟨front, back, rfl, hback⟩ | htold)
    · refine ⟨front, back ++ marks, by rw [List.append_assoc, List.cons_append], ?_⟩
      rw [List.mem_append]
      exact fun hm => hm.elim hback h
    · obtain ⟨before, after, rfl⟩ := List.append_of_mem htold
      refine ⟨history ++ before, after, by rw [List.append_assoc], fun hm => h ?_⟩
      exact List.mem_append_right _ (List.mem_cons_of_mem _ hm)

/-- A copy leaves nothing of what was before it. -/
theorem unseen_copied_iff {history marks : List Mark} (h : .copied ∉ marks) :
    Unseen (history ++ .copied :: marks) ↔ .told ∈ marks := by
  rw [List.append_cons, unseen_append_iff h]
  refine ⟨fun hall => hall.resolve_left ?_, .inr⟩
  rintro ⟨front, back, hsplit, hback⟩
  have hlast := congrArg List.getLast? hsplit
  rw [List.getLast?_concat, List.getLast?_append, List.getLast?_cons, Option.some_or,
    Option.some.injEq] at hlast
  cases hend : back.getLast? with
  | none =>
    rw [hend] at hlast
    cases hlast
  | some m =>
    rw [hend, Option.getD_some] at hlast
    exact hback (hlast ▸ List.mem_of_getLast? hend)

theorem told_mem_replicate_iff {n : Nat} : Mark.told ∈ List.replicate n .told ↔ 0 < n := by
  rw [List.mem_replicate, Nat.pos_iff_ne_zero]
  exact and_iff_left rfl

theorem copied_not_mem_replicate (n : Nat) : Mark.copied ∉ List.replicate n .told := fun h =>
  Mark.noConfusion (List.eq_of_mem_replicate h)

namespace Resource

variable {cfg : Settings}

/-- What a call adds to the history. All that is told in the course of a read comes after its
copy. -/
def marks (r : Resource cfg) : Call → List Mark
  | .input i => List.replicate (r.react i).notices .told
  | .read _ g q buffer offset meanwhile =>
    let x := r.read g q buffer offset meanwhile
    (if x.value.result.isOk then [.copied] else []) ++ List.replicate x.notices .told

/-- The history of a run of calls. -/
def history (r : Resource cfg) : List Call → List Mark
  | [] => []
  | c :: cs => r.marks c ++ (r.call c).history cs

/-- Fewer notifications are raised in the course of each read than the number of notifications
can tell apart. An input that is not part of a read raises at most one. -/
def BriefReads (r : Resource cfg) : List Call → Prop
  | [] => True
  | c :: cs => (r.marks c).count .told < 4294967296 ∧ (r.call c).BriefReads cs

instance decidableBriefReads (r : Resource cfg) : (cs : List Call) → Decidable (r.BriefReads cs)
  | [] => inferInstanceAs (Decidable True)
  | c :: cs =>
    have := decidableBriefReads (r.call c) cs
    inferInstanceAs (Decidable (_ ∧ (r.call c).BriefReads cs))

/-! ### Inputs -/

theorem onEvent_fresh (r : Resource cfg) (event : TopologyEvent) (now : Instant) :
    (r.onEvent event now).state.fresh = r.fresh := by
  cases event with
  | packet => rfl
  | routeChanged change route => unfold onEvent onChange; dsimp only; split <;> rfl

theorem onEvent_noticeNumber (r : Resource cfg) (event : TopologyEvent) (now : Instant) :
    (r.onEvent event now).state.noticeNumber = r.noticeNumber := by
  cases event with
  | packet => rfl
  | routeChanged change route => unfold onEvent onChange; dsimp only; split <;> rfl

theorem onEvent_notices (r : Resource cfg) (event : TopologyEvent) (now : Instant) :
    (r.onEvent event now).notices = 0 := by
  cases event with
  | packet => rfl
  | routeChanged change route => unfold onEvent onChange; dsimp only; split <;> rfl

theorem react_fresh (r : Resource cfg) (i : Input) :
    (r.react i).state.fresh = (r.fresh || decide (0 < (r.react i).notices)) := by
  cases i with
  | event event now =>
    show (r.onEvent event now).state.fresh = (r.fresh || decide (0 < (r.onEvent event now).notices))
    rw [onEvent_fresh, onEvent_notices]
    exact (Bool.or_false _).symm
  | timer now =>
    show (r.onTimer now).state.fresh = (r.fresh || decide (0 < (r.onTimer now).notices))
    rcases onTimer_notice r now with ⟨hnotices, -, hfresh, -⟩ | ⟨hnotices, -, -, hfresh, -⟩
    · rw [hnotices, hfresh]
      exact (Bool.or_false _).symm
    · rw [hnotices, hfresh]
      exact (Bool.or_true _).symm

theorem react_noticeNumber (r : Resource cfg) (i : Input) :
    (r.react i).state.noticeNumber = r.noticeNumber + UInt32.ofNat (r.react i).notices := by
  cases i with
  | event event now =>
    show (r.onEvent event now).state.noticeNumber =
      r.noticeNumber + UInt32.ofNat (r.onEvent event now).notices
    rw [onEvent_noticeNumber, onEvent_notices]
    exact (UInt32.add_zero _).symm
  | timer now =>
    show (r.onTimer now).state.noticeNumber =
      r.noticeNumber + UInt32.ofNat (r.onTimer now).notices
    rcases onTimer_notice r now with ⟨hnotices, -, -, hnumber⟩ | ⟨hnotices, -, -, -, hnumber⟩
    · rw [hnotices, hnumber]
      exact (UInt32.add_zero _).symm
    · rw [hnotices, hnumber]
      rfl

/-- After any inputs the flag is up if it was up before or if one of them raised it. -/
theorem reactAll_fresh (r : Resource cfg) (is : List Input) :
    (r.reactAll is).state.fresh = (r.fresh || decide (0 < (r.reactAll is).notices)) := by
  induction is generalizing r with
  | nil => exact (Bool.or_false _).symm
  | cons i is ih =>
    have hsum : 0 < (r.reactAll (i :: is)).notices ↔
        0 < (r.react i).notices ∨ 0 < ((r.react i).state.reactAll is).notices := by
      rw [show (r.reactAll (i :: is)).notices =
        (r.react i).notices + ((r.react i).state.reactAll is).notices from rfl]
      omega
    rw [show (r.reactAll (i :: is)).state = ((r.react i).state.reactAll is).state from rfl, ih,
      react_fresh, Bool.or_assoc, ← Bool.decide_or, decide_eq_decide.mpr hsum]

theorem reactAll_noticeNumber (r : Resource cfg) (is : List Input) :
    (r.reactAll is).state.noticeNumber =
      r.noticeNumber + UInt32.ofNat (r.reactAll is).notices := by
  induction is generalizing r with
  | nil => exact (UInt32.add_zero _).symm
  | cons i is ih =>
    rw [show (r.reactAll (i :: is)).state = ((r.react i).state.reactAll is).state from rfl, ih,
      react_noticeNumber, UInt32.add_assoc, ← UInt32.ofNat_add]
    rfl

/-- The number tells whether fewer notifications than it has values were raised, or none. -/
theorem reactAll_noticeNumber_eq_iff (r : Resource cfg) {is : List Input}
    (h : (r.reactAll is).notices < 4294967296) :
    (r.reactAll is).state.noticeNumber = r.noticeNumber ↔ (r.reactAll is).notices = 0 := by
  rw [reactAll_noticeNumber, UInt32.add_eq_left, ← UInt32.toNat_inj, UInt32.toNat_ofNat_of_lt' h]
  exact Iff.rfl

/-! ### Reads -/

section

variable (r : Resource cfg) (g : Routing) {q : Request} {buffer : List UInt8} (offset : Offset)
  (meanwhile : List Input)

/-- A read that is not refused at once lets its inputs in and is answered in the state after
them. -/
theorem read_of_walk (hq : q.acceptsJson = true) (hroom : buffer ≠ []) :
    r.read g q buffer offset meanwhile =
      (r.reactAll meanwhile).andThen fun _ later => answer r later (r.chunk g buffer offset) := by
  rw [read, if_neg (by rw [hq]; decide), if_neg hroom]

/-- A read that is refused at once lets no input in. -/
theorem read_of_refusal (h : q.acceptsJson = false ∨ buffer = []) :
    ∃ cause, r.read g q buffer offset meanwhile = r.refuse cause buffer offset := by
  cases hq : q.acceptsJson with
  | false => exact ⟨_, read_of_unacceptable hq meanwhile⟩
  | true =>
    have hempty := h.resolve_left (by rw [hq]; decide)
    subst hempty
    exact ⟨_, read_of_empty hq meanwhile⟩

end

/-- The flag after a read that succeeds: it is up exactly if a notification was raised in the course
of the read. -/
theorem settle_fresh (r : Resource cfg) {is : List Input} {written : Nat} (hwritten : 0 < written)
    (hfew : (r.reactAll is).notices < 4294967296) :
    (settle (r.reactAll is).state r written).fresh = true ↔ 0 < (r.reactAll is).notices := by
  have hflag := reactAll_fresh r is
  have hnumber := reactAll_noticeNumber_eq_iff r hfew
  rcases Nat.eq_zero_or_pos (r.reactAll is).notices with hnone | hsome
  · -- no other notification: the one that the read has seen is settled
    have hdown : (settle (r.reactAll is).state r written).fresh = false := by
      unfold settle
      by_cases hfresh : r.fresh = true
      · rw [if_pos ⟨hfresh, hwritten, hnumber.mpr hnone⟩]
      · rw [if_neg fun h => hfresh h.1, hflag, hnone]
        exact (Bool.or_false _).trans (Bool.not_eq_true _ ▸ hfresh)
    rw [hdown, hnone]
    exact iff_of_false Bool.false_ne_true (Nat.lt_irrefl 0)
  · -- the number has moved on, so the flag is left alone
    have hup : (settle (r.reactAll is).state r written).fresh = true := by
      unfold settle
      rw [if_neg fun h => Nat.ne_of_gt hsome (hnumber.mp h.2.2), hflag, decide_eq_true hsome]
      exact Bool.or_true _
    exact iff_of_true hup hsome

/-- What a read comes to: refused at once, which changes nothing; out of scope, which leaves the
resource to the inputs; or answered, with the flag settled against the state it has copied. -/
theorem read_cases (r : Resource cfg) (now : Instant) (g : Routing) (q : Request)
    (buffer : List UInt8) (offset : Offset) (meanwhile : List Input) :
    let x := r.read g q buffer offset meanwhile
    let later := r.reactAll (Call.read now g q buffer offset meanwhile).inputs
    let w := r.chunk g buffer offset
    x.notices = later.notices ∧
      ((x.value.result.isOk = false ∧ x.state = later.state) ∨
        (0 < w.written ∧ x.value = ⟨w.buffer, w.finish.next, .ok (.document w.written)⟩ ∧
          x.state = settle later.state r w.written ∧
          x.traces = later.traces ++
            [.chunkServed w.resumeFrom w.written w.finish.total w.finish.next r.fresh])) := by
  intro x later w
  by_cases hrefused : q.acceptsJson = false ∨ buffer = []
  · have hinputs : (Call.read now g q buffer offset meanwhile).inputs = [] := by
      show (if q.acceptsJson = false then [] else if buffer = [] then [] else meanwhile) = []
      split
      · rfl
      · next hq => exact if_pos (hrefused.resolve_left hq)
    obtain ⟨cause, hread⟩ := read_of_refusal r g offset meanwhile hrefused
    have hlater : later = .still r () := congrArg r.reactAll hinputs
    rw [show x = _ from hread, hlater]
    exact ⟨rfl, .inl ⟨rfl, rfl⟩⟩
  · rw [not_or, Bool.not_eq_false] at hrefused
    have hinputs : (Call.read now g q buffer offset meanwhile).inputs = meanwhile := by
      show (if q.acceptsJson = false then [] else if buffer = [] then [] else meanwhile) = _
      rw [if_neg (by rw [hrefused.1]; decide), if_neg hrefused.2]
    have hlater : later = r.reactAll meanwhile := congrArg r.reactAll hinputs
    have hread : x = later.andThen fun _ later => answer r later w := by
      rw [hlater]
      exact read_of_walk r g offset meanwhile hrefused.1 hrefused.2
    rw [hread, Reaction.andThen_notices, Reaction.andThen_state, Reaction.andThen_traces,
      answer_notices, answer_state]
    refine ⟨rfl, ?_⟩
    rcases Nat.eq_zero_or_pos w.written with hnone | hsome
    · refine .inl ⟨?_, by rw [hnone, settle_zero]⟩
      show (answer r later.state w).value.result.isOk = false
      unfold answer
      exact congrArg (fun y : Reaction cfg Exchange => y.value.result.isOk) (if_pos hnone)
    · refine .inr ⟨hsome, ?_, rfl, ?_⟩
      · show (answer r later.state w).value = _
        unfold answer
        exact congrArg Reaction.value (if_neg (Nat.ne_of_gt hsome))
      · unfold answer
        exact congrArg (fun y : Reaction cfg Exchange => later.traces ++ y.traces)
          (if_neg (Nat.ne_of_gt hsome))

/-! ### Runs -/

/-- **One call.** It keeps the flag in step with the history. -/
theorem fresh_call {r : Resource cfg} {seen : List Mark} (h : r.fresh = true ↔ Unseen seen)
    (c : Call) (hfew : (r.marks c).count .told < 4294967296) :
    (r.call c).fresh = true ↔ Unseen (seen ++ r.marks c) := by
  cases c with
  | input i =>
    show (r.react i).state.fresh = true ↔ Unseen (seen ++ List.replicate (r.react i).notices .told)
    rw [unseen_append_iff (copied_not_mem_replicate _), told_mem_replicate_iff, ← h, react_fresh,
      Bool.or_eq_true, decide_eq_true_iff]
  | read now g q buffer offset meanwhile =>
    obtain ⟨hnotices, hcases⟩ := read_cases r now g q buffer offset meanwhile
    rw [marks, hnotices] at hfew ⊢
    rw [call]
    rcases hcases with ⟨hfailed, hstate⟩ | ⟨hwritten, hvalue, hstate, -⟩
    · rw [hfailed, hstate, if_neg Bool.false_ne_true, List.nil_append,
        unseen_append_iff (copied_not_mem_replicate _), told_mem_replicate_iff, ← h,
        reactAll_fresh, Bool.or_eq_true, decide_eq_true_iff]
    · have hmarks : ∀ marks : List Mark, (if (r.read g q buffer offset meanwhile).value.result.isOk
          then [.copied] else []) ++ marks = .copied :: marks := by
        intro marks
        rw [hvalue]
        rfl
      rw [hmarks] at hfew ⊢
      rw [List.count_cons_of_ne (by decide), List.count_replicate_self] at hfew
      rw [unseen_copied_iff (copied_not_mem_replicate _), told_mem_replicate_iff, hstate]
      exact settle_fresh r hwritten hfew

theorem fresh_calls {r : Resource cfg} {seen : List Mark} (h : r.fresh = true ↔ Unseen seen)
    (cs : List Call) (hbrief : r.BriefReads cs) :
    (r.calls cs).fresh = true ↔ Unseen (seen ++ r.history cs) := by
  induction cs generalizing r seen with
  | nil =>
    rw [history, List.append_nil]
    exact h
  | cons c cs ih =>
    rw [history, ← List.append_assoc]
    exact ih (fresh_call h c hbrief.1) hbrief.2

theorem chunk_resumeFrom (r : Resource cfg) (g : Routing) (buffer : List UInt8) (offset : Offset) :
    (r.chunk g buffer offset).resumeFrom = r.readStart offset := by
  rw [chunk_eq, View.writeTo_resumeFrom]
  rfl

/-- The bytes that a read brings, however long the document is. -/
theorem chunk_payload {r : Resource cfg} {g : Routing} {buffer : List UInt8} {offset : Offset}
    (h : (r.document g).length ≤ lastPosition) :
    (r.chunk g buffer offset).buffer.take (r.chunk g buffer offset).written =
      ((r.document g).drop (r.readStart offset)).take buffer.length := by
  obtain ⟨n, hwalk, -, -⟩ := View.writeTo_ofBuffer (View.shown g r.table) buffer
    (r.readStart offset) (.inl h)
  rw [chunk_eq, hwalk]
  exact List.take_left

/-- **No notification is lost, and no read starts over without one.** After any run of events, timer
calls and reads, with other events and timer calls in the course of the reads, the flag is up
exactly if subscribers were told since the last read that succeeded copied the state. In that case
the next read that succeeds starts at the front of the document, whatever offset it comes with, and
otherwise it starts where its offset says. A read that fails leaves the resource as its inputs have
made it, and the notification with it. -/
theorem run_fresh_iff (cfg : Settings) (t : Instant) (cs : List Call)
    (hbrief : (startingAt cfg t).BriefReads cs) :
    let r := (startingAt cfg t).calls cs
    let seen := (startingAt cfg t).history cs
    (r.fresh = true ↔ Unseen seen) ∧
    ∀ (now : Instant) (g : Routing) (q : Request) (buffer : List UInt8) (offset : Offset)
      (meanwhile : List Input),
      let x := r.read g q buffer offset meanwhile
      (∀ reply, x.value.result = .ok reply →
        ∃ start total next,
          .chunkServed start reply.payloadLength total next r.fresh ∈ x.traces ∧
          (Unseen seen → start = 0) ∧
          (¬Unseen seen → start = offset.position?.getD 0) ∧
          ((r.document g).length ≤ lastPosition →
            x.value.buffer.take reply.payloadLength =
              ((r.document g).drop start).take buffer.length)) ∧
      (∀ cause, x.value.result = .error cause →
        x.state = (r.reactAll (Call.read now g q buffer offset meanwhile).inputs).state ∧
          (Unseen seen → x.state.fresh = true)) := by
  intro r seen
  have hfresh : r.fresh = true ↔ Unseen seen :=
    fresh_calls (iff_of_false Bool.false_ne_true not_unseen_nil) cs hbrief
  refine ⟨hfresh, ?_⟩
  intro now g q buffer offset meanwhile x
  obtain ⟨-, hcases⟩ := read_cases r now g q buffer offset meanwhile
  rcases hcases with ⟨hfailed, hstate⟩ | ⟨hwritten, hvalue, -, htraces⟩
  · refine ⟨?_, ?_⟩
    · intro reply hreply
      rw [show (r.read g q buffer offset meanwhile).value.result = _ from hreply] at hfailed
      cases hfailed
    · intro cause _
      refine ⟨hstate, fun hunseen => ?_⟩
      rw [show x.state = _ from hstate, reactAll_fresh, hfresh.mpr hunseen]
      exact Bool.true_or _
  · refine ⟨?_, ?_⟩
    · intro reply hreply
      rw [show x.value = _ from hvalue] at hreply ⊢
      cases hreply
      have hserved : .chunkServed (r.readStart offset) (r.chunk g buffer offset).written
          (r.chunk g buffer offset).finish.total (r.chunk g buffer offset).finish.next r.fresh ∈
            x.traces := by
        rw [← chunk_resumeFrom r g buffer offset, show x.traces = _ from htraces]
        exact List.mem_append_right _ (List.mem_singleton.mpr rfl)
      refine ⟨r.readStart offset, _, _, hserved, ?_, ?_, chunk_payload⟩
      · exact fun hunseen => readStart_of_fresh (hfresh.mpr hunseen) offset
      · intro hseen
        rw [← hfresh, Bool.not_eq_true] at hseen
        exact readStart_of_settled hseen offset
    · intro cause hcause
      rw [show x.value = _ from hvalue] at hcause
      cases hcause

/-- A read sees one notification while another one is raised, and the read after it is refused: the
second notification is still unseen and sends the next read back to the front. -/
theorem run_fresh_iff_of_overlap :
    let cfg : Settings := ⟨2, .ofMillis 1, .ofMillis 9, .ofMillis 9⟩
    let route : Route := ⟨.ofGroups 8193 0 0 0 0 0 0 1, .ofGroups 65152 0 0 0 0 0 0 1⟩
    let change : Nat → Input := fun n => .event (.routeChanged .routeAdded route 1) (.ofMillis n)
    let cs : List Call :=
      [.input (change 0), .input (.timer (.ofMillis 1)),
        .read (.ofMillis 2) .empty .any [7, 7] (.resume 5)
          [change 2, .timer (.ofMillis 3)],
        .read (.ofMillis 4) .empty .any [] (.resume 2) []]
    let x := ((startingAt cfg .boot).calls cs).read .empty .any [7, 7, 7] (.resume 9) []
    (startingAt cfg .boot).BriefReads cs ∧ Unseen ((startingAt cfg .boot).history cs) ∧
      ∃ reply, x.value.result = .ok reply ∧
        x.value.buffer.take reply.payloadLength = utf8 "\x7b\"p" := by
  intro cfg route change cs x
  have hbrief : (startingAt cfg .boot).BriefReads cs := by decide +kernel
  obtain ⟨hfresh, hreads⟩ := run_fresh_iff cfg .boot cs hbrief
  have hunseen := hfresh.mp (by decide +kernel)
  have hok : x.value.result.isOk = true := by decide +kernel
  cases hresult : x.value.result with
  | error cause =>
    rw [hresult] at hok
    cases hok
  | ok reply =>
    obtain ⟨start, total, next, -, hstart, -, hpayload⟩ :=
      (hreads .boot .empty .any [7, 7, 7] (.resume 9) []).1 reply hresult
    rw [hstart hunseen] at hpayload
    exact ⟨hbrief, hunseen, reply, rfl, hpayload (by decide +kernel)⟩

end Resource

end ObservableTree
