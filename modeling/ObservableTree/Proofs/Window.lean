import ObservableTree.Exchange.Window

/-!
# What a window shows

A window keeps two counts, the bytes it has copied and the place in the stream, and an item may lie
across either end of it. Still, all that it holds is a function of the bytes that have gone by:

* `Window.passed` — the window on a buffer, from a position on, once a stream has gone by;
* `passed_push` — an item adds its bytes to the stream that has gone by;
* `writeAll_ofBuffer` — hence only the concatenation of the items matters;
* `passed_exceeded` — the window is left behind exactly if the stream is longer than its end.
-/

namespace ObservableTree

namespace Window

/-- The window on a buffer, from a position on, once a stream has gone by. -/
def passed (buffer : List UInt8) (resumeFrom : Nat) (stream : List UInt8) : Window where
  copied := (stream.drop resumeFrom).take buffer.length
  free := buffer.drop (min buffer.length (stream.length - resumeFrom))
  position := stream.length
  resumeFrom := resumeFrom

variable {buffer stream : List UInt8} {r : Nat}

theorem passed_nil (buffer : List UInt8) (r : Nat) : passed buffer r [] = ofBuffer buffer r := by
  simp [passed, ofBuffer]

theorem passed_written (buffer : List UInt8) (r : Nat) (stream : List UInt8) :
    (passed buffer r stream).written = min buffer.length (stream.length - r) := by
  simp only [written, passed, List.length_take, List.length_drop]

theorem passed_remaining (buffer : List UInt8) (r : Nat) (stream : List UInt8) :
    (passed buffer r stream).remaining = buffer.length - (stream.length - r) := by
  simp only [remaining, passed, List.length_drop]
  omega

theorem passed_capacity (buffer : List UInt8) (r : Nat) (stream : List UInt8) :
    (passed buffer r stream).capacity = buffer.length := by
  rw [capacity, passed_written, passed_remaining]
  omega

theorem passed_stop (buffer : List UInt8) (r : Nat) (stream : List UInt8) :
    (passed buffer r stream).stop = min (r + buffer.length) lastPosition := by
  rw [stop, passed_capacity]
  rfl

theorem isFull_iff_remaining {w : Window} : w.isFull = true ↔ w.remaining = 0 := by
  rw [isFull, remaining, List.isEmpty_iff, List.length_eq_zero_iff]

theorem passed_isFull_iff :
    (passed buffer r stream).isFull = true ↔ buffer.length ≤ stream.length - r := by
  rw [isFull_iff_remaining, passed_remaining]
  omega

/-- A stream that is longer than the end of the window has also filled the buffer. -/
theorem passed_exceeded (h : stream.length ≤ lastPosition) :
    (passed buffer r stream).exceeded = true ↔ r + buffer.length < stream.length := by
  have hposition : (passed buffer r stream).position = stream.length := rfl
  rw [exceeded, Bool.and_eq_true, passed_isFull_iff, decide_eq_true_iff, passed_stop, hposition]
  omega

/-! ### Items -/

/-- Bytes that end in front of the window only move the position. -/
theorem passed_append_of_before {item : List UInt8} (h : (stream ++ item).length ≤ r) :
    passed buffer r (stream ++ item) =
      { passed buffer r stream with position := (stream ++ item).length } := by
  have hshort : stream.length ≤ r := by
    rw [List.length_append] at h
    omega
  simp only [passed, List.drop_eq_nil_of_le h, List.drop_eq_nil_of_le hshort,
    Nat.sub_eq_zero_of_le h, Nat.sub_eq_zero_of_le hshort]

/-- Bytes that come when the buffer is full only move the position. -/
theorem passed_append_of_full {item : List UInt8} (h : buffer.length ≤ stream.length - r) :
    passed buffer r (stream ++ item) =
      { passed buffer r stream with position := (stream ++ item).length } := by
  have htake : ((stream ++ item).drop r).take buffer.length =
      (stream.drop r).take buffer.length := by
    by_cases hr : r ≤ stream.length
    · rw [List.drop_append_of_le_length hr, List.take_append_of_le_length]
      rw [List.length_drop]
      exact h
    · have hzero : buffer.length = 0 := by omega
      rw [hzero, List.take_zero, List.take_zero]
  have hmin : min buffer.length ((stream ++ item).length - r) =
      min buffer.length (stream.length - r) := by
    rw [List.length_append]
    omega
  simp only [passed, htake, hmin]

/-- While there is room, the bytes behind the resume position land behind those copied so far. -/
theorem passed_append_of_room {item : List UInt8} (h : stream.length - r < buffer.length) :
    let visible := item.drop (r - stream.length)
    let count := min visible.length (passed buffer r stream).remaining
    passed buffer r (stream ++ item) =
      { copied := (passed buffer r stream).copied ++ visible.take count
        free := (passed buffer r stream).free.drop count
        position := (stream ++ item).length
        resumeFrom := r } := by
  intro visible count
  have hlength : (stream ++ item).length = stream.length + item.length := List.length_append
  have hvisible : visible.length = item.length - (r - stream.length) := List.length_drop
  have hcount : count = min visible.length (buffer.length - (stream.length - r)) := by
    show min _ _ = _
    rw [passed_remaining]
  have hall : (stream.drop r).take buffer.length = stream.drop r :=
    List.take_of_length_le (by rw [List.length_drop]; omega)
  have hdrop : (stream.drop r).length = stream.length - r := List.length_drop
  have htaken : visible.take count = visible.take (buffer.length - (stream.drop r).length) := by
    rw [List.take_eq_take_iff, hcount, hdrop]
    omega
  have hcopied : ((stream ++ item).drop r).take buffer.length =
      (passed buffer r stream).copied ++ visible.take count := by
    rw [htaken, List.drop_append, List.take_append, hall]
    rw [show (passed buffer r stream).copied = stream.drop r from hall]
  have hfree : buffer.drop (min buffer.length ((stream ++ item).length - r)) =
      (passed buffer r stream).free.drop count := by
    show _ = (buffer.drop (min buffer.length (stream.length - r))).drop count
    rw [List.drop_drop]
    congr 1
    omega
  rw [← hcopied, ← hfree]
  rfl

/-- **The step.** Whether an item is skipped, copied, cut or dropped, afterwards the window is the
one on the stream with the item's bytes behind it. -/
theorem passed_push {item : List UInt8} (h : (stream ++ item).length ≤ lastPosition) :
    (passed buffer r stream).push item = passed buffer r (stream ++ item) := by
  have hposition : min (stream.length + item.length) lastPosition = (stream ++ item).length := by
    rw [← List.length_append, Nat.min_eq_left h]
  have hplace : (passed buffer r stream).position = stream.length := rfl
  have hresume : (passed buffer r stream).resumeFrom = r := rfl
  unfold push write
  dsimp only
  rw [hplace, hresume, hposition]
  by_cases hbefore : (stream ++ item).length ≤ r
  · rw [if_pos hbefore]
    exact (passed_append_of_before hbefore).symm
  · rw [if_neg hbefore]
    by_cases hfull : (passed buffer r stream).isFull = true
    · rw [if_pos hfull]
      exact (passed_append_of_full (passed_isFull_iff.mp hfull)).symm
    · rw [if_neg hfull]
      rw [passed_isFull_iff, Nat.not_le] at hfull
      exact (passed_append_of_room hfull).symm

/-- Several items act like the bytes of all of them. -/
theorem passed_writeAll (buffer : List UInt8) (r : Nat) (stream : List UInt8)
    (items : List (List UInt8)) (h : (stream ++ items.flatten).length ≤ lastPosition) :
    (passed buffer r stream).writeAll items = passed buffer r (stream ++ items.flatten) := by
  induction items generalizing stream with
  | nil => rw [List.flatten_nil, List.append_nil]; rfl
  | cons item items ih =>
    rw [List.flatten_cons, ← List.append_assoc] at h
    have hfirst : (stream ++ item).length ≤ lastPosition := by
      rw [List.length_append] at h
      omega
    show ((passed buffer r stream).push item).writeAll items = _
    rw [passed_push hfirst, ih _ h, List.flatten_cons, List.append_assoc]

/-- Only the bytes of a row of items matter, not how they are divided. -/
theorem writeAll_ofBuffer (buffer : List UInt8) (r : Nat) (items : List (List UInt8))
    (h : items.flatten.length ≤ lastPosition) :
    (ofBuffer buffer r).writeAll items = passed buffer r items.flatten := by
  have hall := passed_writeAll buffer r [] items h
  rwa [passed_nil, List.nil_append] at hall

end Window

end ObservableTree
