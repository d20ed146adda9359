import ObservableTree.Proofs.AddressBuffer
import ObservableTree.Proofs.Window

/-!
# Filling a buffer in place

A window keeps the bytes that it has copied apart from those that are untouched. The buffer itself is
one row of bytes, in which a stretch is overwritten with a stretch of the item, and the ends of both
are computed from two counts. So each of them, and each difference on the way, might leave its range:

* `Item`, `Window.writeItems` — bytes, texts, characters and addresses, and what became of each;
* `slice?`, `paste?`, `difference?` — stretches and differences that are none out of range;
* `Filler.write?` — an item in place, with all of these checked; `Filler.fill?` — a row of items;
* `write?_filler`, `fill?_filler` — no check fails, and the buffer is the one that the window holds;
* `writeItems_written`, `writeItems_skipped_iff` — the counts and the items that are reported;
* `writeItems_outcome` — the window after any row of items, from their bytes alone.
-/

namespace ObservableTree

/-! ### Items -/

/-- An item of a stream, in one of the forms in which it is written. -/
inductive Item where
  | bytes (row : List UInt8)
  | text (s : String)
  | char (c : Char)
  | address (a : Address)

/-- The bytes of an item. -/
def Item.octets : Item → List UInt8
  | bytes row => row
  | text s => utf8 s
  | char c => String.utf8EncodeChar c
  | address a => utf8 a.text

/-- The number of bytes that an outcome reports as copied. -/
def Emission.count : Emission → Nat
  | copied n => n
  | truncated n => n
  | skipped => 0
  | dropped => 0

theorem utf8_singleton (c : Char) : utf8 (String.singleton c) = String.utf8EncodeChar c := by
  rw [utf8, String.toUTF8_eq_toByteArray, String.toByteArray_singleton, List.utf8Encode_singleton]
  exact List.toList_data_toByteArray

namespace Window

variable {buffer : List UInt8} {r : Nat} {w : Window}

/-- Writes an item in its form. -/
def writeItem (w : Window) : Item → Window × Emission
  | .bytes row => w.write row
  | .text s => w.writeText s
  | .char c => w.writeText (String.singleton c)
  | .address a => w.writeAddress a

/-- The window after a row of items, and what became of each. -/
def writeItems (w : Window) : List Item → Window × List Emission
  | [] => (w, [])
  | item :: rest =>
    let first := w.writeItem item
    let others := first.1.writeItems rest
    (others.1, first.2 :: others.2)

/-- In whatever form an item comes, its bytes are written. -/
theorem writeItem_eq (w : Window) (item : Item) : w.writeItem item = w.write item.octets := by
  cases item with
  | bytes row => rfl
  | text s => rfl
  | char c =>
    show w.write (utf8 (String.singleton c)) = _
    rw [utf8_singleton]
    rfl
  | address a =>
    show w.write a.toText.octets = _
    rw [Address.octets_toText]
    rfl

theorem writeItems_window (w : Window) (items : List Item) :
    (w.writeItems items).1 = w.writeAll (items.map Item.octets) := by
  induction items generalizing w with
  | nil => rfl
  | cons item rest ih =>
    show ((w.writeItem item).1.writeItems rest).1 = _
    rw [ih, writeItem_eq]
    rfl

end Window

/-! ### Stretches and differences -/

/-- The bytes between two indices, if these are in order and in the row. -/
def slice? (row : List UInt8) (start stop : Nat) : Option (List UInt8) :=
  if start ≤ stop ∧ stop ≤ row.length then some ((row.drop start).take (stop - start)) else none

/-- The row with the bytes between two indices replaced, if these are in order and in the row and the
new bytes fill the place exactly. -/
def paste? (row : List UInt8) (start stop : Nat) (new : List UInt8) : Option (List UInt8) :=
  if start ≤ stop ∧ stop ≤ row.length ∧ new.length = stop - start then
    some (row.take start ++ new ++ row.drop stop)
  else none

/-- What is left of a count, if it is not less than what is taken away. -/
def difference? (whole part : Nat) : Option Nat :=
  if part ≤ whole then some (whole - part) else none

theorem slice?_rest {row : List UInt8} {start : Nat} (h : start ≤ row.length) :
    slice? row start row.length = some (row.drop start) := by
  have hall : (row.drop start).take (row.length - start) = row.drop start := by
    rw [← List.length_drop, List.take_length]
  rw [slice?, if_pos ⟨h, Nat.le_refl _⟩, hall]

theorem slice?_front {row : List UInt8} {stop : Nat} (h : stop ≤ row.length) :
    slice? row 0 stop = some (row.take stop) := by
  rw [slice?, if_pos ⟨Nat.zero_le _, h⟩]
  rfl

/-- New bytes behind a front overwrite as many of those that follow it. -/
theorem paste?_behind (front : List UInt8) {rest new : List UInt8} (h : new.length ≤ rest.length) :
    paste? (front ++ rest) front.length (front.length + new.length) new =
      some (front ++ new ++ rest.drop new.length) := by
  have hplace : front.length ≤ front.length + new.length ∧
      front.length + new.length ≤ (front ++ rest).length ∧
      new.length = front.length + new.length - front.length := by
    rw [List.length_append]
    omega
  rw [paste?, if_pos hplace, List.take_left, List.drop_length_add_append]

theorem difference?_of_le {whole part : Nat} (h : part ≤ whole) :
    difference? whole part = some (whole - part) := if_pos h

/-! ### In place -/

/-- A buffer that is filled in place, with the number of bytes copied and the place in the stream. -/
structure Filler where
  buffer : List UInt8
  written : Nat
  position : Nat
  resumeFrom : Nat
deriving DecidableEq

namespace Filler

/-- A buffer into which nothing has been copied. -/
def ofBuffer (buffer : List UInt8) (resumeFrom : Nat) : Filler := ⟨buffer, 0, 0, resumeFrom⟩

/-- The next item of the stream: none if an index or a difference leaves its range. -/
def write? (f : Filler) (item : List UInt8) : Option (Filler × Emission) :=
  let position := min (f.position + item.length) lastPosition
  if position ≤ f.resumeFrom then some ({ f with position := position }, .skipped)
  else if f.written = f.buffer.length then some ({ f with position := position }, .dropped)
  else do
    let visible ← slice? item (f.resumeFrom - f.position) item.length
    let remaining ← difference? f.buffer.length f.written
    let count := min visible.length remaining
    let source ← slice? visible 0 count
    let buffer ← paste? f.buffer f.written (f.written + count) source
    some (⟨buffer, f.written + count, position, f.resumeFrom⟩,
      if count < visible.length then .truncated count else .copied count)

/-- A row of items, and what became of each. -/
def fill? (f : Filler) : List Item → Option (Filler × List Emission)
  | [] => some (f, [])
  | item :: rest => do
    let first ← f.write? item.octets
    let others ← first.1.fill? rest
    some (others.1, first.2 :: others.2)

end Filler

namespace Window

variable {buffer : List UInt8} {r : Nat} {w : Window}

/-- The buffer of a window, with its counts. -/
def filler (w : Window) : Filler := ⟨w.buffer, w.written, w.position, w.resumeFrom⟩

theorem filler_ofBuffer (buffer : List UInt8) (r : Nat) :
    (ofBuffer buffer r).filler = Filler.ofBuffer buffer r := rfl

theorem buffer_length (w : Window) : w.buffer.length = w.written + w.remaining := List.length_append

theorem isFull_iff_written : w.isFull = true ↔ w.written = w.buffer.length := by
  rw [isFull_iff_remaining, buffer_length]
  omega

/-- **One item.** No index and no difference leaves its range, whatever the counts of the window are,
and the buffer is filled like the window. -/
theorem write?_filler (w : Window) (item : List UInt8) :
    w.filler.write? item = some ((w.write item).1.filler, (w.write item).2) := by
  unfold Filler.write? write filler
  dsimp only
  by_cases hbefore : min (w.position + item.length) lastPosition ≤ w.resumeFrom
  · rw [if_pos hbefore, if_pos hbefore]
    rfl
  rw [if_neg hbefore, if_neg hbefore]
  by_cases hfull : w.written = w.buffer.length
  · rw [if_pos hfull, if_pos (isFull_iff_written.mpr hfull)]
    rfl
  rw [if_neg hfull, if_neg fun h => hfull (isFull_iff_written.mp h)]
  -- the item reaches behind the resume position, and so its visible part starts inside it
  have hstart : w.resumeFrom - w.position ≤ item.length := by omega
  have hwritten : w.written ≤ w.buffer.length := by
    rw [buffer_length]
    omega
  have hroom : w.buffer.length - w.written = w.remaining := by
    rw [buffer_length]
    omega
  generalize hvisible : item.drop (w.resumeFrom - w.position) = visible
  generalize hcount : min visible.length w.remaining = count
  have htaken : (visible.take count).length = count := by
    rw [List.length_take]
    omega
  have hfits : (visible.take count).length ≤ w.free.length := by
    rw [htaken, ← hcount]
    exact Nat.min_le_right _ _
  have hpasted := paste?_behind w.copied hfits
  rw [htaken] at hpasted
  have hplace : paste? w.buffer w.written (w.written + count) (visible.take count) =
      some (w.copied ++ visible.take count ++ w.free.drop count) := hpasted
  have hmore : w.written + count = (w.copied ++ visible.take count).length := by
    rw [List.length_append, htaken]
    rfl
  have hsource : slice? visible 0 count = some (visible.take count) := slice?_front (by omega)
  simp only [slice?_rest hstart, difference?_of_le hwritten, hroom, hvisible, hcount, hsource, hplace,
    Option.bind_eq_bind, Option.bind_some]
  rw [hmore]
  rfl

/-- **A row of items.** -/
theorem fill?_filler (w : Window) (items : List Item) :
    w.filler.fill? items = some ((w.writeItems items).1.filler, (w.writeItems items).2) := by
  induction items generalizing w with
  | nil => rfl
  | cons item rest ih =>
    rw [Filler.fill?, write?_filler, ← writeItem_eq]
    simp only [Option.bind_eq_bind, Option.bind_some, ih]
    rfl

/-! ### What is reported -/

theorem write_written (w : Window) (item : List UInt8) :
    (w.write item).1.written = w.written + (w.write item).2.count := by
  unfold write
  dsimp only
  split
  · rfl
  · split
    · rfl
    · simp only [written, List.length_append, List.length_take]
      split <;> simp [Emission.count]

/-- The counts that are reported add up to the bytes copied. -/
theorem writeItems_written (w : Window) (items : List Item) :
    (w.writeItems items).1.written =
      w.written + ((w.writeItems items).2.map Emission.count).sum := by
  induction items generalizing w with
  | nil => rfl
  | cons item rest ih =>
    have hfirst := write_written w item.octets
    show ((w.writeItem item).1.writeItems rest).1.written = w.written +
      (((w.writeItem item).2 :: ((w.writeItem item).1.writeItems rest).2).map Emission.count).sum
    rw [ih, writeItem_eq, List.map_cons, List.sum_cons]
    omega

theorem write_skipped_iff (w : Window) (item : List UInt8) :
    (w.write item).2 = .skipped ↔ min (w.position + item.length) lastPosition ≤ w.resumeFrom := by
  unfold write
  dsimp only
  split
  · next h => exact iff_of_true rfl h
  · next h =>
    refine iff_of_false ?_ h
    split
    · exact nofun
    · split <;> exact nofun

/-- An item is skipped exactly if it ends in front of the window. -/
theorem writeItems_skipped_iff (w : Window) {items : List Item} {i : Nat} (h : i < items.length) :
    (w.writeItems items).2[i]? = some .skipped ↔
      min (w.position + ((items.take (i + 1)).flatMap Item.octets).length) lastPosition ≤
        w.resumeFrom := by
  induction items generalizing w i with
  | nil => exact absurd h (Nat.not_lt_zero i)
  | cons item rest ih =>
    have hoctets : (((item :: rest).take (i + 1)).flatMap Item.octets).length =
        item.octets.length + ((rest.take i).flatMap Item.octets).length := by
      rw [List.take_succ_cons, List.flatMap_cons, List.length_append]
    rw [hoctets]
    cases i with
    | zero =>
      show some (w.writeItem item).2 = some .skipped ↔ _
      rw [writeItem_eq, Option.some_inj, write_skipped_iff]
      rfl
    | succ i =>
      show ((w.writeItem item).1.writeItems rest).2[i]? = some .skipped ↔ _
      rw [ih _ (Nat.lt_of_succ_lt_succ h), writeItem_eq, write_position, write_resumeFrom]
      omega

theorem writeItems_length (w : Window) (items : List Item) :
    (w.writeItems items).2.length = items.length := by
  induction items generalizing w with
  | nil => rfl
  | cons item rest ih => exact congrArg Nat.succ (ih (w.writeItem item).1)

/-! ### The whole row -/

theorem finish_done_iff : w.finish.next = .done ↔ w.position ≤ w.stop := by
  show (if w.position ≤ w.stop then Offset.done else .clamped w.stop) = .done ↔ _
  split
  · next h => exact iff_of_true rfl h
  · next h => exact iff_of_false nofun h

theorem writeItems_ofBuffer (buffer : List UInt8) (r : Nat) {items : List Item}
    (h : (items.flatMap Item.octets).length ≤ lastPosition) :
    ((ofBuffer buffer r).writeItems items).1 = passed buffer r (items.flatMap Item.octets) := by
  rw [List.flatMap_def] at h ⊢
  rw [writeItems_window, writeAll_ofBuffer buffer r _ h]

/-- The buffer holds a stretch of the stream and, behind it, what it held before. -/
theorem passed_buffer (buffer : List UInt8) (r : Nat) (stream : List UInt8) :
    let count := min buffer.length (stream.length - r)
    (passed buffer r stream).buffer = (stream.drop r).take count ++ buffer.drop count := by
  intro count
  have hsame : (stream.drop r).take buffer.length = (stream.drop r).take count := by
    rw [List.take_eq_take_iff, List.length_drop]
    omega
  show (stream.drop r).take buffer.length ++ buffer.drop count = _
  rw [hsame]

theorem front_length_le (items : List Item) (n : Nat) :
    ((items.take n).flatMap Item.octets).length ≤ (items.flatMap Item.octets).length := by
  have hsplit : items.flatMap Item.octets =
      (items.take n).flatMap Item.octets ++ (items.drop n).flatMap Item.octets := by
    rw [← List.flatMap_append, List.take_append_drop]
  rw [hsplit, List.length_append]
  omega

/-- **Any row of items.** Bytes, texts, characters and addresses go through a window of any size, from
any position on, and positions have room for all of their bytes. Then the position is the number of
these bytes, and the buffer holds those from the resume position on, as many as it has room for, and
behind them what it held before. Filled in place, with a check of every index and every difference,
it comes to the same and no check fails. The counts that are reported add up to the bytes copied; an
item is reported as skipped exactly if it ends at or in front of the resume position; and the offset
tells that the stream ends exactly if it does not reach behind the window. Another division of the
same bytes into items leaves the same window. -/
theorem writeItems_outcome (buffer : List UInt8) (r : Nat) (items : List Item)
    (h : (items.flatMap Item.octets).length < lastPosition) :
    let stream := items.flatMap Item.octets
    let outcome := (ofBuffer buffer r).writeItems items
    let w := outcome.1
    let count := min buffer.length (stream.length - r)
    (w.position = stream.length ∧ w.written = count) ∧
    (w.buffer.length = buffer.length ∧ w.buffer.take count = (stream.drop r).take count ∧
      w.buffer.drop count = buffer.drop count) ∧
    (Filler.ofBuffer buffer r).fill? items = some (w.filler, outcome.2) ∧
    (outcome.2.map Emission.count).sum = w.written ∧
    (outcome.2.length = items.length ∧ ∀ i < items.length,
      (outcome.2[i]? = some .skipped ↔ ((items.take (i + 1)).flatMap Item.octets).length ≤ r)) ∧
    (w.finish.written = w.written ∧ w.finish.total = stream.length ∧
      (w.finish.next = .done ↔ stream.length ≤ r + buffer.length)) ∧
    ∀ others : List Item, others.flatMap Item.octets = stream →
      ((ofBuffer buffer r).writeItems others).1 = w := by
  intro stream outcome w count
  have hlast : stream.length ≤ lastPosition := Nat.le_of_lt h
  have hw : w = passed buffer r stream := writeItems_ofBuffer buffer r hlast
  have hposition : w.position = stream.length := congrArg Window.position hw
  have hwritten : w.written = count := by rw [hw, passed_written]
  have hbuffer : w.buffer = (stream.drop r).take count ++ buffer.drop count := by
    rw [hw, passed_buffer]
  have hcount : ((stream.drop r).take count).length = count := by
    rw [List.length_take, List.length_drop]
    omega
  refine ⟨⟨hposition, hwritten⟩, ⟨?_, ?_, ?_⟩, ?_, ?_, ⟨writeItems_length _ items, ?_⟩,
    ⟨rfl, hposition, ?_⟩, ?_⟩
  · rw [hbuffer, List.length_append, hcount, List.length_drop]
    omega
  · rw [hbuffer, List.take_left' hcount]
  · rw [hbuffer, List.drop_left' hcount]
  · rw [← filler_ofBuffer]
    exact fill?_filler (ofBuffer buffer r) items
  · exact ((writeItems_written _ items).trans (Nat.zero_add _)).symm
  · intro i hi
    have hfront : ((items.take (i + 1)).flatMap Item.octets).length ≤ stream.length :=
      front_length_le items (i + 1)
    have hskipped := writeItems_skipped_iff (ofBuffer buffer r) hi
    rw [hskipped]
    show min (0 + _) lastPosition ≤ r ↔ _
    omega
  · rw [finish_done_iff, hposition, hw, passed_stop]
    omega
  · intro others hothers
    rw [hw, ← hothers]
    apply writeItems_ofBuffer
    rw [hothers]
    exact hlast

/-- Five bytes of a stream, from the fourth on: the first item ends in front of them and a character of
two bytes lies across their start; an empty text and an address follow, another text is cut, and the
last byte comes too late. -/
theorem writeItems_outcome_of_six :
    let items : List Item := [.bytes [1, 2], .char 'é', .text "", .address (.ofGroups 0 0 0 0 0 0 0 1),
      .text "abc", .bytes [9]]
    let outcome := (ofBuffer [7, 7, 7, 7, 7] 3).writeItems items
    (items.flatMap Item.octets).length < lastPosition ∧
      outcome.2 = [.skipped, .copied 1, .copied 0, .copied 3, .truncated 1, .dropped] ∧
      (Filler.ofBuffer [7, 7, 7, 7, 7] 3).fill? items = some (outcome.1.filler, outcome.2) ∧
      (outcome.2.map Emission.count).sum = outcome.1.written := by
  intro items outcome
  have hlast : (items.flatMap Item.octets).length < lastPosition := by decide +kernel
  have houtcome : outcome.2 = [.skipped, .copied 1, .copied 0, .copied 3, .truncated 1, .dropped] := by
    decide +kernel
  obtain ⟨-, -, hfilled, hsum, -⟩ := writeItems_outcome [7, 7, 7, 7, 7] 3 items hlast
  exact ⟨hlast, houtcome, hfilled, hsum⟩

end Window

end ObservableTree
