import ObservableTree.Resource.Read

/-!
# Runs of a resource

A resource is driven by events, timer calls and reads, in any order, and a read lets inputs in while
its document is written.

* `Call` — one of them, with the instant at which it is made; `Call.inputs` — the inputs that it
  lets in;
* `Resource.call`, `Resource.calls` — the resource after one, and after a run of them;
* `call_state` — a call does to the resource what its inputs do, and may settle the notification;
* `Resource.traced`, `Resource.trail` — the traces of one, and of a run of them;
* `traced_eq` — a call traces what its inputs trace, and a read what it came to.
-/

namespace ObservableTree

/-- The instant of an input. -/
def Input.now : Input → Instant
  | .event _ now => now
  | .timer now => now

/-- An event or a timer call, or a read that is asked for at an instant, with the inputs that arrive
while its document is written. -/
inductive Call where
  | input (i : Input)
  | read (now : Instant) (g : Routing) (q : Request) (buffer : List UInt8) (offset : Offset)
      (meanwhile : List Input)

namespace Call

/-- The instant at which a call is made. -/
def now : Call → Instant
  | input i => i.now
  | read now _ _ _ _ _ => now

/-- The inputs that a call lets in. A read that is refused at once lets in none. -/
def inputs : Call → List Input
  | input i => [i]
  | read _ _ q buffer _ meanwhile =>
    if q.acceptsJson = false then [] else if buffer = [] then [] else meanwhile

end Call

namespace Resource

variable {cfg : Settings}

/-- The resource after a call. -/
def call (r : Resource cfg) : Call → Resource cfg
  | .input i => (r.react i).state
  | .read _ g q buffer offset meanwhile => (r.read g q buffer offset meanwhile).state

/-- The resource after a run of calls. -/
def calls (r : Resource cfg) (cs : List Call) : Resource cfg := cs.foldl call r

/-- A call does to the resource what its inputs do, and may settle the notification. -/
theorem call_state (r : Resource cfg) (c : Call) :
    r.call c = (r.reactAll c.inputs).state ∨
      r.call c = { (r.reactAll c.inputs).state with fresh := false } := by
  cases c with
  | input i => exact .inl rfl
  | read now g q buffer offset meanwhile =>
    unfold call read Call.inputs
    dsimp only
    split
    · exact .inl rfl
    · split
      · exact .inl rfl
      · rw [Reaction.andThen_state, answer_state, settle]
        split
        · exact .inr rfl
        · exact .inl rfl

theorem call_table (r : Resource cfg) (c : Call) :
    (r.call c).table = (r.reactAll c.inputs).state.table := by
  rcases call_state r c with h | h <;> rw [h]

theorem call_nextSweep (r : Resource cfg) (c : Call) :
    (r.call c).nextSweep = (r.reactAll c.inputs).state.nextSweep := by
  rcases call_state r c with h | h <;> rw [h]

theorem call_debounce (r : Resource cfg) (c : Call) :
    (r.call c).debounce = (r.reactAll c.inputs).state.debounce := by
  rcases call_state r c with h | h <;> rw [h]

/-! ### Traces -/

/-- The traces of a call. -/
def traced (r : Resource cfg) : Call → List Trace
  | .input i => (r.react i).traces
  | .read _ g q buffer offset meanwhile => (r.read g q buffer offset meanwhile).traces

/-- The traces of a run of calls. -/
def trail (r : Resource cfg) : List Call → List Trace
  | [] => []
  | c :: cs => r.traced c ++ (r.call c).trail cs

theorem reactAll_singleton_traces (r : Resource cfg) (i : Input) :
    (r.reactAll [i]).traces = (r.react i).traces := List.append_nil _

end Resource

/-- Whether a trace tells what a read came to. -/
def Trace.IsAnswer : Trace → Prop
  | .chunkServed .. | .queryRejected _ => True
  | _ => False

namespace Resource

variable {cfg : Settings}

theorem answer_traces (r later : Resource cfg) (w : Window) :
    ∃ t : Trace, t.IsAnswer ∧ (answer r later w).traces = [t] := by
  unfold answer
  dsimp only
  split
  · exact ⟨.queryRejected .blockOutOfScope, trivial, rfl⟩
  · exact ⟨.chunkServed _ _ _ _ _, trivial, rfl⟩

/-- A call traces what its inputs trace, and a read then tells what it came to. -/
theorem traced_eq (r : Resource cfg) (c : Call) :
    ∃ answers, (∀ t ∈ answers, t.IsAnswer) ∧
      r.traced c = (r.reactAll c.inputs).traces ++ answers := by
  cases c with
  | input i => exact ⟨[], by simp, by simp [traced, Call.inputs, reactAll_singleton_traces]⟩
  | read now g q buffer offset meanwhile =>
    unfold traced read Call.inputs
    dsimp only
    split
    · exact ⟨[.queryRejected .notAcceptable], by simp [Trace.IsAnswer], rfl⟩
    · split
      · exact ⟨[.queryRejected .noProgress], by simp [Trace.IsAnswer], rfl⟩
      · obtain ⟨t, ht, htraces⟩ := answer_traces r (r.reactAll meanwhile).state
          (r.chunk g buffer offset)
        exact ⟨[t], by simp [ht], by rw [Reaction.andThen_traces, htraces]⟩

end Resource

end ObservableTree
