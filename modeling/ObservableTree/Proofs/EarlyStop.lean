import ObservableTree.Proofs.Chunk

/-!
# A walk that never stops

Once the window is left behind, the walk over the children stops, and then it still closes the
document. The stop saves work and is not to be noticed. So it is compared with a walk over all the
children, which asks for the window nowhere:

* `View.listChildren`, `View.writeWhole` — this walk;
* `writeWhole_eq` — it writes the pieces of the document one behind the other;
* `Window.stop_of_last`, `writeTo_of_last` — a window that starts at the last position is never left
  behind, so that there both walks are the same;
* `walks_agree` — in any window both leave the same buffer and the same offset, and the position of
  the walk that may stop tells whether it has gone on to the end.
-/

namespace ObservableTree

namespace View

/-! ### The walk over all the children -/

/-- Lists all children through a window. -/
def listChildren (w : Window) : (isFirst : Bool) → List Address → Window
  | _, [] => w
  | isFirst, a :: rest => listChildren ((if isFirst then w else w.push comma).push (quoted a)) false rest

/-- Writes the document through a window, with all of its children. -/
def writeWhole (v : View) (w : Window) : Window :=
  (listChildren (w.writeAll v.opening) true v.children).push closing

theorem listChildren_eq (w : Window) (isFirst : Bool) (children : List Address) :
    listChildren w isFirst children = w.writeAll (childItems isFirst children) := by
  induction children generalizing w isFirst with
  | nil => cases isFirst <;> rfl
  | cons a rest ih =>
    rw [listChildren, ih, childItems_cons]
    cases isFirst <;> simp only [Window.writeAll, ↓reduceIte, Bool.false_eq_true, List.nil_append,
      List.cons_append, List.foldl_cons]

/-- It writes the pieces of the document one behind the other. -/
theorem writeWhole_eq (v : View) (w : Window) : v.writeWhole w = w.writeAll v.items := by
  simp only [writeWhole, listChildren_eq, items, Window.writeAll, List.foldl_append, List.foldl_cons,
    List.foldl_nil]

theorem writeWhole_ofBuffer (v : View) (buffer : List UInt8) (r : Nat)
    (h : v.body.length ≤ lastPosition) :
    v.writeWhole (Window.ofBuffer buffer r) = Window.passed buffer r v.body := by
  rw [writeWhole_eq]
  exact Window.writeAll_ofBuffer buffer r v.items h

end View

/-! ### A window at the last position -/

namespace Window

/-- A window that starts at the last position also ends there. -/
theorem stop_of_last {w : Window} (h : w.resumeFrom = lastPosition) : w.stop = lastPosition := by
  rw [stop, h]
  exact Nat.min_eq_right (Nat.le_add_right _ _)

/-- Positions are counted up to the last one. -/
theorem exceeded_of_last {w : Window} (hresume : w.resumeFrom = lastPosition)
    (hposition : w.position ≤ lastPosition) : w.exceeded = false := by
  rw [exceeded, stop_of_last hresume, decide_eq_false (Nat.not_lt.mpr hposition), Bool.and_false]

theorem push_position_le (w : Window) (item : List UInt8) : (w.push item).position ≤ lastPosition := by
  rw [push, write_position]
  exact Nat.min_le_right _ _

theorem push_resumeFrom (w : Window) (item : List UInt8) :
    (w.push item).resumeFrom = w.resumeFrom := write_resumeFrom w item

/-- Where a row of items may leave a window. -/
theorem writeAll_bounds {w : Window} (h : w.position ≤ lastPosition) (items : List (List UInt8)) :
    (w.writeAll items).position ≤ lastPosition ∧ (w.writeAll items).resumeFrom = w.resumeFrom := by
  induction items generalizing w with
  | nil => exact ⟨h, rfl⟩
  | cons item items ih =>
    obtain ⟨hposition, hresume⟩ := ih (push_position_le w item)
    exact ⟨hposition, hresume.trans (push_resumeFrom w item)⟩

end Window

namespace View

variable {buffer : List UInt8} {r : Nat} {v : View} {w : Window}

/-- A walk that does not find the window left behind, whatever front of the children it has listed,
lists all of them. -/
theorem writeChildren_of_within {isFirst : Bool} {children : List Address}
    (h : ∀ front rest, children = front ++ rest → (listChildren w isFirst front).exceeded = false) :
    writeChildren w isFirst children = listChildren w isFirst children := by
  induction children generalizing w isFirst with
  | nil => cases isFirst <;> rfl
  | cons a rest ih =>
    have hhere : w.exceeded = false := by
      have hnone := h [] (a :: rest) rfl
      cases isFirst <;> exact hnone
    rw [writeChildren, hhere, if_neg Bool.false_ne_true, listChildren]
    refine ih fun front more hsplit => ?_
    have hnext := h (a :: front) more (by rw [hsplit]; rfl)
    rwa [listChildren] at hnext

/-- At the last position no front of the children leaves the window behind. -/
theorem listChildren_of_last (v : View) (buffer : List UInt8) (front : List Address) :
    (listChildren ((Window.ofBuffer buffer lastPosition).writeAll v.opening) true front).exceeded =
      false := by
  have hstart : (Window.ofBuffer buffer lastPosition).position ≤ lastPosition := Nat.zero_le _
  obtain ⟨hopened, hkept⟩ := Window.writeAll_bounds hstart v.opening
  obtain ⟨hlisted, hstill⟩ := Window.writeAll_bounds hopened (childItems true front)
  rw [listChildren_eq]
  exact Window.exceeded_of_last (hstill.trans hkept) hlisted

theorem writeTo_of_last (v : View) (buffer : List UInt8) :
    v.writeTo (Window.ofBuffer buffer lastPosition) =
      v.writeWhole (Window.ofBuffer buffer lastPosition) := by
  rw [writeTo, writeWhole, writeChildren_of_within fun front _ _ => listChildren_of_last v buffer front]

/-- The length of the document is counted to the end. -/
theorem bodyLength_eq (v : View) (h : v.body.length ≤ lastPosition) :
    v.bodyLength = v.body.length := by
  rw [bodyLength, writeTo_of_last, writeWhole_ofBuffer v [] lastPosition h]
  rfl

/-! ### Both walks -/

/-- The offset after a stream that has gone by a window up to some place: behind the window it makes
no difference how far the stream has come. -/
theorem finish_next_of_behind {stream : List UInt8} {n : Nat} (hn : n ≤ stream.length)
    (hlast : stream.length ≤ lastPosition) (h : n = stream.length ∨ r + buffer.length < n) :
    ({ Window.passed buffer r stream with position := n } : Window).finish.next =
      (Window.passed buffer r stream).finish.next := by
  have hstop : ({ Window.passed buffer r stream with position := n } : Window).stop =
      min (r + buffer.length) lastPosition := Window.passed_stop buffer r stream
  have hsame : n ≤ min (r + buffer.length) lastPosition ↔
      stream.length ≤ min (r + buffer.length) lastPosition := by omega
  show (if n ≤ _ then _ else _) = if stream.length ≤ _ then _ else _
  rw [hstop, Window.passed_stop]
  simp only [hsame]

/-- How far the walk has come that may stop: never beyond the end of the document, to its end if the
offset tells that the document ends, and else beyond the window. -/
theorem finish_total (v : View) (buffer : List UInt8) (r : Nat) (h : v.body.length ≤ lastPosition) :
    let pass := (v.writeTo (Window.ofBuffer buffer r)).finish
    pass.total ≤ v.body.length ∧ (pass.next = .done → pass.total = v.body.length) ∧
      (pass.next ≠ .done → r + buffer.length < pass.total) := by
  intro pass
  obtain ⟨n, hwalk, hle, hn⟩ := writeTo_ofBuffer v buffer r (.inl h)
  have htotal : pass.total = n := congrArg Window.position hwalk
  have hnext : pass.next = if v.body.length ≤ r + buffer.length then .done
      else .clamped (r + buffer.length) := (finish_writeTo v buffer r (.inl h)).2
  rw [htotal, hnext]
  refine ⟨hle, fun hdone => ?_, fun hmore => ?_⟩
  · by_cases hend : v.body.length ≤ r + buffer.length
    · omega
    · rw [if_neg hend] at hdone
      cases hdone
  · have hend : ¬v.body.length ≤ r + buffer.length := fun hend => hmore (if_pos hend)
    omega

/-- **The stop is not to be noticed.** In any window, of any size and from any position on, the walk
that may stop leaves the buffer, the number of bytes copied and the offset that the walk over all the
children leaves. Its position never exceeds the length of the document; it is this length if the
offset tells that the document ends, and lies beyond the window if not. The length of the document is
counted by a walk that finds its window left behind in front of no child, and so it is this length. -/
theorem walks_agree (g : Routing) (t : NeighborTable) (buffer : List UInt8) (r : Nat)
    (h : (View.shown g t).body.length < lastPosition) :
    let v := View.shown g t
    let stopped := v.writeTo (Window.ofBuffer buffer r)
    let whole := v.writeWhole (Window.ofBuffer buffer r)
    (stopped.buffer = whole.buffer ∧ stopped.finish.written = whole.finish.written ∧
      stopped.finish.next = whole.finish.next) ∧
    (stopped.finish.total ≤ v.body.length ∧
      (stopped.finish.next = .done → stopped.finish.total = v.body.length) ∧
      (stopped.finish.next ≠ .done → r + buffer.length < stopped.finish.total)) ∧
    (∀ front rest, v.children = front ++ rest →
      (listChildren ((Window.ofBuffer [] lastPosition).writeAll v.opening) true front).exceeded =
        false) ∧
    v.writeTo (Window.ofBuffer [] lastPosition) = v.writeWhole (Window.ofBuffer [] lastPosition) ∧
    v.bodyLength = v.body.length := by
  intro v stopped whole
  have hlast : v.body.length ≤ lastPosition := Nat.le_of_lt h
  obtain ⟨n, hwalk, hle, hn⟩ := writeTo_ofBuffer v buffer r (.inl hlast)
  have hstopped : stopped = { Window.passed buffer r v.body with position := n } := hwalk
  have hwhole : whole = Window.passed buffer r v.body := writeWhole_ofBuffer v buffer r hlast
  refine ⟨?_, finish_total v buffer r hlast, fun front _ _ => listChildren_of_last v [] front,
    writeTo_of_last v [], bodyLength_eq v hlast⟩
  rw [hstopped, hwhole]
  exact ⟨rfl, rfl, finish_next_of_behind hle hlast hn⟩

/-- Four bytes of a document with two children: the walk stops in front of the first child, and the
length of the document still counts both. -/
theorem walks_agree_of_two :
    let near : Address := .ofGroups 65152 0 0 0 0 0 0 1
    let g : Routing := ⟨none, none, [⟨.ofGroups 8193 0 0 0 0 0 0 1, near⟩,
      ⟨.ofGroups 8193 0 0 0 0 0 0 2, near⟩]⟩
    let v := View.shown g ⟨[some ⟨near, .boot⟩]⟩
    let stopped := v.writeTo (Window.ofBuffer [7, 7, 7, 7] 0)
    v.body.length < lastPosition ∧ stopped.finish.total < v.body.length ∧
      stopped.finish.next = (v.writeWhole (Window.ofBuffer [7, 7, 7, 7] 0)).finish.next ∧
      v.bodyLength = v.body.length := by
  intro near g v stopped
  have hsize : v.body.length = 43 := by decide +kernel
  have hlast : v.body.length < lastPosition := by
    rw [hsize]
    decide
  have hearly : stopped.finish.total < v.body.length := by decide +kernel
  obtain ⟨⟨-, -, hnext⟩, -, -, -, hlength⟩ := walks_agree g ⟨[some ⟨near, .boot⟩]⟩ [7, 7, 7, 7] 0 hlast
  exact ⟨hlast, hearly, hnext, hlength⟩

end View

end ObservableTree
