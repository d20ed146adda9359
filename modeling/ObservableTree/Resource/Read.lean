import ObservableTree.Resource.Handlers
import ObservableTree.View.Body

/-!
# Reading the resource

A read copies the part of the document that an offset selects into the requester's buffer. The
document is written anew for every read, from a copy of the table; meanwhile packets, changes and
timers may go on.

* `Exchange` — the buffer, the offset and the answer after a read;
* `Resource.read` — one read, with the inputs that arrive while the document is written.

The first read after a notification starts at the front of the document, whatever offset it comes
with, and settles the notification unless another one was raised meanwhile.
-/

namespace ObservableTree

/-- The requester's side after a read. -/
structure Exchange where
  buffer : List UInt8
  offset : Offset
  result : Except Refusal Reply

namespace Resource

variable {cfg : Settings}

/-- The offset that a read starts from. -/
def startOf (r : Resource cfg) (offset : Offset) : Offset := if r.fresh then .done else offset

/-- The window after the document was written through it. -/
def chunk (r : Resource cfg) (g : Routing) (buffer : List UInt8) (offset : Offset) : Window :=
  (View.shown g r.table).writeTo (.resuming buffer (r.startOf offset))

/-- A read that is refused before the document is written. -/
def refuse (r : Resource cfg) (cause : Refusal) (buffer : List UInt8) (offset : Offset) :
    Reaction cfg Exchange :=
  ⟨⟨buffer, offset, .error cause⟩, r, 0, [.queryRejected cause]⟩

/-- Settles the notification that a read has seen, if the read got something and no other
notification was raised since. -/
def settle (later : Resource cfg) (r : Resource cfg) (written : Nat) : Resource cfg :=
  if r.fresh ∧ 0 < written ∧ later.noticeNumber = r.noticeNumber then { later with fresh := false }
  else later

/-- The answer of a read whose document was written. -/
def answer (r later : Resource cfg) (w : Window) : Reaction cfg Exchange :=
  let pass := w.finish
  if pass.written = 0 then
    { value := ⟨w.buffer, .done, .error .blockOutOfScope⟩
      state := settle later r pass.written
      notices := 0
      traces := [.queryRejected .blockOutOfScope] }
  else
    { value := ⟨w.buffer, pass.next, .ok (.document pass.written)⟩
      state := settle later r pass.written
      notices := 0
      traces := [.chunkServed w.resumeFrom pass.written pass.total pass.next r.fresh] }

/-- One read: the document is written from the state before the inputs that arrive meanwhile, and
the answer is settled in the state after them. -/
def read (r : Resource cfg) (g : Routing) (q : Request) (buffer : List UInt8) (offset : Offset)
    (meanwhile : List Input) : Reaction cfg Exchange :=
  if q.acceptsJson = false then r.refuse .notAcceptable buffer offset
  else if buffer = [] then r.refuse .noProgress buffer offset
  else (r.reactAll meanwhile).andThen fun _ later => answer r later (r.chunk g buffer offset)

theorem answer_state (r later : Resource cfg) (w : Window) :
    (answer r later w).state = settle later r w.written := by
  unfold answer; dsimp only; split <;> rfl

end Resource

end ObservableTree
