import ObservableTree.Exchange.Offset
import ObservableTree.Address.Buffer
import ObservableTree.Text

/-!
# A window on a stream of bytes

A body is written from its start on every exchange, and a window decides which of its bytes land in
the requester's buffer: those from `resumeFrom` on, as many as the buffer holds. The position counts
every byte of the stream, so after a whole body it is the body's length.

* `Window.ofBuffer`, `Window.resuming` — an empty window on a buffer;
* `Window.write` — one item of the stream, `Window.writeAll` — several;
* `Window.exceeded` — the buffer is full and the stream has run past it;
* `Window.finish` — what was copied and where the next exchange resumes;
* `write_resumeFrom`, `write_position` — what an item does to both counts.
-/

namespace ObservableTree

/-- The largest position in a stream; counting stops there. -/
def lastPosition : Nat := 18446744073709551615

/-- What became of one item. -/
inductive Emission where
  | skipped
  | copied (count : Nat)
  | truncated (count : Nat)
  | dropped
deriving DecidableEq

/-- The name of an outcome, with the count of bytes copied. -/
def Emission.name : Emission → String
  | skipped => "Skipped"
  | copied n => "Copied(" ++ toString n ++ ")"
  | truncated n => "Truncated(" ++ toString n ++ ")"
  | dropped => "Dropped"

/-- The bytes copied so far, what is left of the buffer, and the place in the stream. -/
structure Window where
  copied : List UInt8
  free : List UInt8
  position : Nat
  resumeFrom : Nat
deriving DecidableEq

/-- The outcome of a whole pass. -/
structure Passage where
  written : Nat
  total : Nat
  next : Offset
deriving DecidableEq

namespace Window

/-- The window on a buffer from a position on. -/
def ofBuffer (buffer : List UInt8) (resumeFrom : Nat) : Window := ⟨[], buffer, 0, resumeFrom⟩

/-- The window on a buffer from an offset on. -/
def resuming (buffer : List UInt8) (offset : Offset) : Window :=
  ofBuffer buffer (offset.position?.getD 0)

/-- The number of bytes copied. -/
def written (w : Window) : Nat := w.copied.length

/-- The free space. -/
def remaining (w : Window) : Nat := w.free.length

/-- The size of the buffer. -/
def capacity (w : Window) : Nat := w.written + w.remaining

/-- The whole buffer: the bytes copied and those untouched. -/
def buffer (w : Window) : List UInt8 := w.copied ++ w.free

/-- Whether no space is left. -/
def isFull (w : Window) : Bool := w.free.isEmpty

/-- The position behind the last byte that the buffer can hold. -/
def stop (w : Window) : Nat := min (w.resumeFrom + w.capacity) lastPosition

/-- Whether the buffer is full and the stream has run past it, so that another exchange is
certain. -/
def exceeded (w : Window) : Bool := w.isFull && decide (w.stop < w.position)

/-! ### Writing -/

/-- The next item of the stream. An item may lie across the resume position, and then only its
tail is copied. -/
def write (w : Window) (item : List UInt8) : Window × Emission :=
  let position := min (w.position + item.length) lastPosition
  if position ≤ w.resumeFrom then ({ w with position := position }, .skipped)
  else if w.isFull then ({ w with position := position }, .dropped)
  else
    let visible := item.drop (w.resumeFrom - w.position)
    let count := min visible.length w.remaining
    ({ w with
        copied := w.copied ++ visible.take count
        free := w.free.drop count
        position := position },
      if count < visible.length then .truncated count else .copied count)

/-- The window after an item. -/
def push (w : Window) (item : List UInt8) : Window := (w.write item).1

/-- The window after several items. -/
def writeAll (w : Window) (items : List (List UInt8)) : Window := items.foldl push w

/-- A string as one item. -/
def writeText (w : Window) (s : String) : Window × Emission := w.write (utf8 s)

/-- The text of an address as one item. -/
def writeAddress (w : Window) (a : Address) : Window × Emission := w.write a.toText.octets

/-! ### The outcome -/

/-- Closes the pass. The offset is `done` exactly if the stream did not run past the window. -/
def finish (w : Window) : Passage where
  written := w.written
  total := w.position
  next := if w.position ≤ w.stop then .done else .clamped w.stop

/-! ### Small facts -/

theorem write_resumeFrom (w : Window) (item : List UInt8) :
    (w.write item).1.resumeFrom = w.resumeFrom := by
  unfold write; dsimp only
  split
  · rfl
  · split <;> rfl

theorem write_position (w : Window) (item : List UInt8) :
    (w.write item).1.position = min (w.position + item.length) lastPosition := by
  unfold write; dsimp only
  split
  · rfl
  · split <;> rfl

end Window

end ObservableTree
