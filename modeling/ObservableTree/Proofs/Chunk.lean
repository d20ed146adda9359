import ObservableTree.Proofs.Window
import ObservableTree.View.Body

/-!
# The document through a window

The walk over the children stops once the window is left behind, and still closes the document. A
reader cannot tell: what was copied, and where the next exchange resumes, are those of the whole
document.

* `writeChildren_passed` — the walk has written a front of the children, and all of them unless the
  window is left behind;
* `writeTo_ofBuffer` — the window after the walk is the one that the whole document has passed, but
  for the position;
* `finish_writeTo` — the outcome of the pass.
-/

namespace ObservableTree

namespace View

variable {buffer : List UInt8} {r : Nat}

theorem body_eq (v : View) :
    v.body = v.opening.flatten ++ (childItems true v.children).flatten ++ closing := by
  simp only [body, items, List.flatten_append, List.flatten_cons, List.flatten_nil,
    List.append_nil]

theorem childItems_cons (isFirst : Bool) (a : Address) (rest : List Address) :
    childItems isFirst (a :: rest) =
      (if isFirst then [] else [comma]) ++ quoted a :: childItems false rest := rfl

/-- One child, with the comma in front of it. -/
def childPiece (isFirst : Bool) (a : Address) : List UInt8 :=
  (if isFirst then [] else comma) ++ quoted a

theorem flatten_childItems_cons (isFirst : Bool) (a : Address) (rest : List Address) :
    (childItems isFirst (a :: rest)).flatten =
      childPiece isFirst a ++ (childItems false rest).flatten := by
  rw [childItems_cons, childPiece]
  cases isFirst <;> simp

/-- A child is written like one item made of its pieces. -/
theorem push_childPiece {stream : List UInt8} (isFirst : Bool) (a : Address)
    (h : (stream ++ childPiece isFirst a).length ≤ lastPosition) :
    (if isFirst then Window.passed buffer r stream
      else (Window.passed buffer r stream).push comma).push (quoted a) =
      Window.passed buffer r (stream ++ childPiece isFirst a) := by
  cases isFirst with
  | true => exact Window.passed_push h
  | false =>
    have hall : stream ++ childPiece false a = stream ++ comma ++ quoted a := by
      rw [childPiece, List.append_assoc]
      rfl
    rw [hall] at h ⊢
    have hcomma : (stream ++ comma).length ≤ lastPosition := by
      rw [List.length_append] at h
      omega
    show ((Window.passed buffer r stream).push comma).push (quoted a) = _
    rw [Window.passed_push hcomma, Window.passed_push h]

theorem closing_length : closing.length = 2 := by
  rw [closing, utf8_length]
  rfl

theorem comma_length : comma.length = 1 := by
  rw [comma, utf8_length]
  rfl

/-- An address takes two bytes more than its text. -/
theorem quoted_length (a : Address) : (quoted a).length = a.toText.octets.length + 2 := by
  have hquote : quote.length = 1 := by
    rw [quote, utf8_length]
    rfl
  rw [quoted, List.length_append, List.length_append, hquote]
  omega

/-- The text of an address, in quotes, takes no more than the space for it and two bytes. -/
theorem quoted_length_le (a : Address) : (quoted a).length ≤ 47 := by
  have htext : a.toText.octets.length ≤ 45 := a.toText.length_le
  rw [quoted_length]
  omega

theorem childPiece_length_le (isFirst : Bool) (a : Address) : (childPiece isFirst a).length ≤ 48 := by
  have hquoted := quoted_length_le a
  have hcomma := comma_length
  rw [childPiece, List.length_append]
  cases isFirst with
  | true => exact Nat.le_trans (Nat.le_of_eq (Nat.zero_add _)) (Nat.le_succ_of_le hquoted)
  | false =>
    show comma.length + _ ≤ 48
    omega

theorem opening_length_le (v : View) : v.opening.flatten.length ≤ 100 := by
  have hfront : (utf8 ("\x7b\"" ++ parentLabel ++ "\":[")).length = 11 := by
    rw [utf8_length]
    rfl
  have hback : (utf8 ("],\"" ++ childLabel ++ "\":[")).length = 11 := by
    rw [utf8_length]
    rfl
  rw [opening]
  cases v.parent with
  | none =>
    simp only [Option.map_none, Option.toList_none, List.append_nil, List.flatten_append,
      List.flatten_singleton, List.length_append]
    omega
  | some a =>
    have hparent := quoted_length_le a
    simp only [Option.map_some, Option.toList_some, List.flatten_append, List.flatten_singleton,
      List.length_append]
    omega

/-- **The walk.** It has written a front of the children, which is all of them unless the window is
left behind. Positions count all that it has written if they have room for all that there is, or
else for the piece in which the window ends. -/
theorem writeChildren_passed (buffer : List UInt8) (r : Nat) (isFirst : Bool)
    (children : List Address) (stream : List UInt8)
    (h : (stream ++ (childItems isFirst children).flatten ++ closing).length ≤ lastPosition ∨
      r + buffer.length + 64 ≤ lastPosition ∧ (stream ++ closing).length ≤ lastPosition) :
    ∃ front left, (childItems isFirst children).flatten = front ++ left ∧
      writeChildren (Window.passed buffer r stream) isFirst children =
        Window.passed buffer r (stream ++ front) ∧
      (stream ++ front ++ closing).length ≤ lastPosition ∧
      (left = [] ∨ r + buffer.length < (stream ++ front).length) := by
  have hclosing := closing_length
  induction children generalizing isFirst stream with
  | nil =>
    refine ⟨[], [], by cases isFirst <;> rfl, by rw [List.append_nil]; rfl, ?_, .inl rfl⟩
    rw [childItems_nil] at h
    simp only [List.flatten_nil, List.append_nil] at h ⊢
    exact h.elim id And.right
  | cons a rest ih =>
    rw [flatten_childItems_cons, ← List.append_assoc] at h
    have hpiece := childPiece_length_le isFirst a
    have hstream : (stream ++ closing).length ≤ lastPosition := by
      simp only [List.length_append] at h ⊢
      omega
    by_cases hexceeded : (Window.passed buffer r stream).exceeded = true
    · refine ⟨[], _, (List.nil_append _).symm, ?_, ?_, .inr ?_⟩
      · rw [writeChildren_of_exceeded hexceeded, List.append_nil]
      · rwa [List.append_nil]
      · rw [List.append_nil]
        refine (Window.passed_exceeded ?_).mp hexceeded
        rw [List.length_append] at hstream
        omega
    · have hwithin : stream.length ≤ r + buffer.length := by
        refine Nat.le_of_not_lt fun hpast => hexceeded ((Window.passed_exceeded ?_).mpr hpast)
        rw [List.length_append] at hstream
        omega
      have hone : (stream ++ childPiece isFirst a).length ≤ lastPosition := by
        simp only [List.length_append] at h ⊢
        omega
      have hnext : (stream ++ childPiece isFirst a ++ (childItems false rest).flatten ++
            closing).length ≤ lastPosition ∨
          r + buffer.length + 64 ≤ lastPosition ∧
            (stream ++ childPiece isFirst a ++ closing).length ≤ lastPosition := by
        refine h.imp_right fun hroom => ⟨hroom.1, ?_⟩
        simp only [List.length_append]
        omega
      obtain ⟨front, left, hsplit, hwritten, hfront, hleft⟩ := ih false _ hnext
      refine ⟨childPiece isFirst a ++ front, left, ?_, ?_, ?_, ?_⟩
      · rw [flatten_childItems_cons, hsplit, List.append_assoc]
      · rw [writeChildren, if_neg hexceeded, push_childPiece isFirst a hone, hwritten,
          List.append_assoc]
      · rw [← List.append_assoc]
        exact hfront
      · rw [← List.append_assoc]
        exact hleft

/-- The window after the walk is the one that the whole document has passed, but for the position,
which stays short of the document's end only behind the window. -/
theorem writeTo_ofBuffer (v : View) (buffer : List UInt8) (r : Nat)
    (h : v.body.length ≤ lastPosition ∨ r + buffer.length + 64 ≤ lastPosition) :
    ∃ n, v.writeTo (Window.ofBuffer buffer r) =
        { Window.passed buffer r v.body with position := n } ∧
      n ≤ v.body.length ∧ (n = v.body.length ∨ r + buffer.length < n) := by
  have hclosing := closing_length
  have hopening := opening_length_le v
  have hlast : 102 ≤ lastPosition := by decide
  have hbody : v.body.length = v.opening.flatten.length +
      (childItems true v.children).flatten.length + closing.length := by
    rw [body_eq, List.length_append, List.length_append]
  have hfits : (v.opening.flatten ++ (childItems true v.children).flatten ++ closing).length ≤
        lastPosition ∨
      r + buffer.length + 64 ≤ lastPosition ∧
        (v.opening.flatten ++ closing).length ≤ lastPosition := by
    simp only [List.length_append]
    omega
  obtain ⟨front, left, hsplit, hwritten, hend, hleft⟩ :=
    writeChildren_passed buffer r true v.children v.opening.flatten hfits
  have hlength : (childItems true v.children).flatten.length = front.length + left.length := by
    rw [hsplit, List.length_append]
  have hfront : (v.opening.flatten ++ front ++ closing).length =
      v.opening.flatten.length + front.length + closing.length := by
    rw [List.length_append, List.length_append]
  have hwalk : v.writeTo (Window.ofBuffer buffer r) =
      Window.passed buffer r (v.opening.flatten ++ front ++ closing) := by
    rw [writeTo, Window.writeAll_ofBuffer buffer r v.opening (by omega), hwritten]
    exact Window.passed_push hend
  rw [hwalk]
  rcases hleft with hnil | hbehind
  · refine ⟨v.body.length, ?_, Nat.le_refl _, .inl rfl⟩
    rw [body_eq, hsplit, hnil, List.append_nil]
    rfl
  · -- the buffer was full before the closing, so neither it nor what was left out is copied
    have hpast : r + buffer.length < v.opening.flatten.length + front.length := by
      rwa [List.length_append] at hbehind
    have hfull : buffer.length ≤ (v.opening.flatten ++ front).length - r := by
      rw [List.length_append]
      omega
    have hrest : v.body = (v.opening.flatten ++ front) ++ (left ++ closing) := by
      rw [body_eq, hsplit]
      simp only [List.append_assoc]
    refine ⟨(v.opening.flatten ++ front ++ closing).length, ?_, by omega, .inr (by omega)⟩
    rw [hrest, Window.passed_append_of_full hfull, Window.passed_append_of_full hfull]

/-- The outcome of the pass: as many bytes as the buffer and the document have from the resume
position on, and an end exactly if the document does not reach past the window. -/
theorem finish_writeTo (v : View) (buffer : List UInt8) (r : Nat)
    (h : v.body.length ≤ lastPosition ∨ r + buffer.length + 64 ≤ lastPosition) :
    (v.writeTo (Window.ofBuffer buffer r)).finish.written =
        min buffer.length (v.body.length - r) ∧
      (v.writeTo (Window.ofBuffer buffer r)).finish.next =
        if v.body.length ≤ r + buffer.length then .done else .clamped (r + buffer.length) := by
  obtain ⟨n, hwalk, hle, hn⟩ := writeTo_ofBuffer v buffer r h
  rw [hwalk]
  refine ⟨Window.passed_written buffer r v.body, ?_⟩
  have hstop : ({ Window.passed buffer r v.body with position := n } : Window).stop =
      min (r + buffer.length) lastPosition := Window.passed_stop buffer r v.body
  show (if n ≤ _ then _ else _) = _
  rw [hstop]
  by_cases hend : v.body.length ≤ r + buffer.length
  · rw [if_pos hend, if_pos (by omega)]
  · rw [if_neg hend, if_neg (by omega), Nat.min_eq_left (by omega)]

theorem writeChildren_resumeFrom (w : Window) (isFirst : Bool) (children : List Address) :
    (writeChildren w isFirst children).resumeFrom = w.resumeFrom := by
  induction children generalizing w isFirst with
  | nil => cases isFirst <;> rfl
  | cons a rest ih =>
    rw [writeChildren]
    split
    · rfl
    · rw [ih, Window.push, Window.write_resumeFrom]
      cases isFirst with
      | true => rfl
      | false => exact Window.write_resumeFrom w comma

/-- The walk does not move the start of the window. -/
theorem writeTo_resumeFrom (v : View) (w : Window) : (v.writeTo w).resumeFrom = w.resumeFrom := by
  have hall : ∀ items : List (List UInt8), (w.writeAll items).resumeFrom = w.resumeFrom := by
    intro items
    induction items generalizing w with
    | nil => rfl
    | cons item items ih => exact (ih (w.push item)).trans (Window.write_resumeFrom w item)
  rw [writeTo, Window.push, Window.write_resumeFrom, writeChildren_resumeFrom, hall]

theorem buffer_writeTo (v : View) (buffer : List UInt8) (r : Nat)
    (h : v.body.length ≤ lastPosition ∨ r + buffer.length + 64 ≤ lastPosition) :
    (v.writeTo (Window.ofBuffer buffer r)).buffer =
      (v.body.drop r).take (min buffer.length (v.body.length - r)) ++
        buffer.drop (min buffer.length (v.body.length - r)) := by
  obtain ⟨n, hwalk, -, -⟩ := writeTo_ofBuffer v buffer r h
  rw [hwalk]
  show (v.body.drop r).take buffer.length ++ _ = _
  congr 1
  rw [List.take_eq_take_iff, List.length_drop]
  omega

end View

end ObservableTree
