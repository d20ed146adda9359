import ObservableTree.Proofs.Chunk
import ObservableTree.Resource.Read

/-!
# What a read does

A read answers with the part of the document that starts at a position and fits the buffer, and
touches nothing else:

* `Resource.document` — the whole document, `Resource.readStart` — where a read starts in it, and
  `Resource.readCount` — how many bytes it copies;
* `answer_of_before`, `answer_of_behind` — the answer when there are bytes to copy, and when there
  are none;
* `read_outcome` — a read with no input meanwhile, in all of its cases.
-/

namespace ObservableTree

namespace Resource

variable {cfg : Settings} {r later : Resource cfg} {g : Routing} {buffer : List UInt8}
  {offset : Offset}

/-- The whole document that a resource shows under a routing state. -/
def document (r : Resource cfg) (g : Routing) : List UInt8 := (View.shown g r.table).body

/-- Where in the document a read starts: a notification that nobody has seen sends it back to the
front. -/
def readStart (r : Resource cfg) (offset : Offset) : Nat :=
  if r.fresh then 0 else offset.position?.getD 0

/-- How many bytes a read copies. -/
def readCount (r : Resource cfg) (g : Routing) (buffer : List UInt8) (offset : Offset) : Nat :=
  min buffer.length ((r.document g).length - r.readStart offset)

/-- The buffer after a read. -/
def readBuffer (r : Resource cfg) (g : Routing) (buffer : List UInt8) (offset : Offset) :
    List UInt8 :=
  ((r.document g).drop (r.readStart offset)).take (r.readCount g buffer offset) ++
    buffer.drop (r.readCount g buffer offset)

/-- Where the next exchange resumes. -/
def readNext (r : Resource cfg) (g : Routing) (buffer : List UInt8) (offset : Offset) : Offset :=
  if (r.document g).length ≤ r.readStart offset + buffer.length then .done
  else .resume (UInt32.ofNat (r.readStart offset + buffer.length))

/-- A resource as if its last notification had been settled. -/
def settled (r : Resource cfg) : Resource cfg := { r with fresh := false }

theorem document_pos (r : Resource cfg) (g : Routing) : 0 < (r.document g).length := by
  rw [document, View.body_eq, List.length_append, View.closing_length]
  omega

theorem readStart_of_fresh (h : r.fresh = true) (offset : Offset) : r.readStart offset = 0 :=
  if_pos h

theorem readStart_of_settled (h : r.fresh = false) (offset : Offset) :
    r.readStart offset = offset.position?.getD 0 := by
  rw [readStart, h]
  rfl

theorem readStart_done (r : Resource cfg) : r.readStart .done = 0 := by
  unfold readStart
  split <;> rfl

theorem chunk_eq (r : Resource cfg) (g : Routing) (buffer : List UInt8) (offset : Offset) :
    r.chunk g buffer offset =
      (View.shown g r.table).writeTo (Window.ofBuffer buffer (r.readStart offset)) := by
  unfold chunk startOf readStart Window.resuming
  split <;> rfl

/-- An offset has room for the end of every window on a document of this length. -/
theorem clamped_of_lt {position : Nat} (h : position < 4294967296) :
    Offset.clamped position = .resume (UInt32.ofNat position) := by
  have hmin : min position lastOffset = position := Nat.min_eq_left (Nat.le_of_lt_succ h)
  rw [Offset.clamped, hmin]

theorem chunk_written (h : (r.document g).length ≤ 4294967296) :
    (r.chunk g buffer offset).finish.written = r.readCount g buffer offset := by
  have hlast : (View.shown g r.table).body.length ≤ lastPosition := Nat.le_trans h (by decide)
  rw [chunk_eq]
  exact (View.finish_writeTo _ buffer _ (.inl hlast)).1

theorem chunk_next (h : (r.document g).length ≤ 4294967296) :
    (r.chunk g buffer offset).finish.next = r.readNext g buffer offset := by
  have hlast : (View.shown g r.table).body.length ≤ lastPosition := Nat.le_trans h (by decide)
  rw [chunk_eq, (View.finish_writeTo _ buffer _ (.inl hlast)).2, readNext]
  by_cases hend : (r.document g).length ≤ r.readStart offset + buffer.length
  · rw [if_pos hend]
    exact if_pos hend
  · rw [if_neg hend, ← clamped_of_lt (by omega)]
    exact if_neg hend

theorem chunk_buffer (h : (r.document g).length ≤ 4294967296) :
    (r.chunk g buffer offset).buffer = r.readBuffer g buffer offset := by
  have hlast : (View.shown g r.table).body.length ≤ lastPosition := Nat.le_trans h (by decide)
  rw [chunk_eq]
  exact View.buffer_writeTo _ buffer _ (.inl hlast)

/-! ### Answers -/

theorem settle_zero (later r : Resource cfg) : settle later r 0 = later :=
  if_neg fun h => Nat.lt_irrefl 0 h.2.1

/-- A read that settles against its own state leaves no notification to see. -/
theorem settle_self {written : Nat} (h : 0 < written) (r : Resource cfg) :
    settle r r written = { r with fresh := false } := by
  unfold settle
  by_cases hfresh : r.fresh = true
  · rw [if_pos ⟨hfresh, h, rfl⟩]
  · rw [if_neg fun hall => hfresh hall.1]
    rw [Bool.not_eq_true] at hfresh
    cases r
    exact congrArg (fun b => Resource.mk _ _ b _ _) hfresh

/-- The answer when there are bytes to copy. -/
theorem answer_of_before (later : Resource cfg) (hsize : (r.document g).length ≤ 4294967296)
    (hroom : buffer ≠ []) (hstart : r.readStart offset < (r.document g).length) :
    (answer r later (r.chunk g buffer offset)).value =
        ⟨r.readBuffer g buffer offset, r.readNext g buffer offset,
          .ok (.document (r.readCount g buffer offset))⟩ ∧
      (answer r later (r.chunk g buffer offset)).state =
        settle later r (r.readCount g buffer offset) := by
  have hbuffer : 0 < buffer.length := List.length_pos_iff.mpr hroom
  have hcount : r.readCount g buffer offset ≠ 0 := by
    unfold readCount
    omega
  rw [answer_state]
  unfold answer
  dsimp only
  rw [chunk_written hsize, chunk_next hsize, chunk_buffer hsize, if_neg hcount]
  exact ⟨rfl, congrArg (settle later r) (chunk_written hsize)⟩

/-- The answer when the document ends at the start or in front of it. -/
theorem answer_of_behind (later : Resource cfg) (buffer : List UInt8)
    (hsize : (r.document g).length ≤ 4294967296)
    (hstart : (r.document g).length ≤ r.readStart offset) :
    (answer r later (r.chunk g buffer offset)).value =
        ⟨buffer, .done, .error .blockOutOfScope⟩ ∧
      (answer r later (r.chunk g buffer offset)).state = later := by
  have hcount : r.readCount g buffer offset = 0 := by
    unfold readCount
    omega
  have hbuffer : r.readBuffer g buffer offset = buffer := by
    rw [readBuffer, hcount]
    rfl
  have hwritten : (r.chunk g buffer offset).written = 0 := (chunk_written hsize).trans hcount
  rw [answer_state, hwritten, settle_zero]
  unfold answer
  dsimp only
  rw [chunk_written hsize, chunk_buffer hsize, hcount, hbuffer, if_pos rfl]
  exact ⟨rfl, rfl⟩

theorem answer_notices (r later : Resource cfg) (w : Window) : (answer r later w).notices = 0 := by
  unfold answer
  dsimp only
  split <;> rfl

/-! ### Whole reads -/

theorem acceptsJson_eq_false_iff {q : Request} :
    q.acceptsJson = false ↔ ∃ f, q.accept = some f ∧ f ≠ .json := by
  cases q with
  | mk accept => cases accept <;> simp [Request.acceptsJson]

theorem read_of_unacceptable {q : Request} (hq : q.acceptsJson = false) (meanwhile : List Input) :
    r.read g q buffer offset meanwhile = r.refuse .notAcceptable buffer offset := if_pos hq

theorem read_of_empty {q : Request} (hq : q.acceptsJson = true) (meanwhile : List Input) :
    r.read g q [] offset meanwhile = r.refuse .noProgress [] offset := by
  rw [read, if_neg (by rw [hq]; decide), if_pos rfl]

/-- A read that is not refused at once, with no input meanwhile. -/
theorem read_of_room {q : Request} (hq : q.acceptsJson = true) (hroom : buffer ≠ []) :
    r.read g q buffer offset [] = answer r r (r.chunk g buffer offset) := by
  rw [read, if_neg (by rw [hq]; decide), if_neg hroom, reactAll, Reaction.still_andThen]

theorem readNext_of_past (h : (r.document g).length ≤ r.readStart offset + buffer.length) :
    r.readNext g buffer offset = .done := if_pos h

theorem readNext_of_short (hsize : (r.document g).length ≤ 4294967296)
    (h : r.readStart offset + buffer.length < (r.document g).length) :
    ∃ p : UInt32, p.toNat = r.readStart offset + buffer.length ∧
      r.readNext g buffer offset = .resume p := by
  refine ⟨UInt32.ofNat (r.readStart offset + buffer.length), ?_, if_neg (by omega)⟩
  exact UInt32.toNat_ofNat_of_lt' (Nat.lt_of_lt_of_le h hsize)

/-- **One read.** A format other than the document's is refused, and so is a buffer with no room;
neither changes anything. Else the read starts at the front or where the offset says. Behind the
end it is out of scope, which only resets the offset. In front of the end it answers with the bytes
that the document and the buffer have from there on, moves the offset on, and settles the
notification that it has seen. -/
theorem read_outcome (r : Resource cfg) (g : Routing) (q : Request) (buffer : List UInt8)
    (offset : Offset) (hsize : (r.document g).length ≤ 4294967296) :
    let x := r.read g q buffer offset []
    let body := r.document g
    let start := r.readStart offset
    let count := min buffer.length (body.length - start)
    x.notices = 0 ∧
    ((∃ f, q.accept = some f ∧ f ≠ .json) →
      x.value = ⟨buffer, offset, .error .notAcceptable⟩ ∧ x.state = r) ∧
    (¬(∃ f, q.accept = some f ∧ f ≠ .json) → buffer = [] →
      x.value = ⟨buffer, offset, .error .noProgress⟩ ∧ x.state = r) ∧
    (¬(∃ f, q.accept = some f ∧ f ≠ .json) → buffer ≠ [] → body.length ≤ start →
      r.fresh = false ∧ x.value = ⟨buffer, .done, .error .blockOutOfScope⟩ ∧ x.state = r) ∧
    (¬(∃ f, q.accept = some f ∧ f ≠ .json) → buffer ≠ [] → start < body.length →
      x.value.result = .ok ⟨.content, .json, count⟩ ∧
      x.value.buffer = (body.drop start).take count ++ buffer.drop count ∧
      (body.length ≤ start + buffer.length → x.value.offset = .done) ∧
      (start + buffer.length < body.length →
        ∃ p : UInt32, p.toNat = start + buffer.length ∧ x.value.offset = .resume p) ∧
      x.state = { r with fresh := false }) := by
  intro x body start count
  rw [← acceptsJson_eq_false_iff, Bool.not_eq_false]
  refine ⟨?_, ?_, ?_, ?_, ?_⟩
  · -- no case raises a notification
    cases hq : q.acceptsJson with
    | false => exact congrArg Reaction.notices (read_of_unacceptable hq [])
    | true =>
      by_cases hroom : buffer = []
      · subst hroom
        exact congrArg Reaction.notices (read_of_empty hq [])
      · exact (congrArg Reaction.notices (read_of_room hq hroom)).trans (answer_notices _ _ _)
  · intro hq
    rw [show x = _ from read_of_unacceptable hq []]
    exact ⟨rfl, rfl⟩
  · intro hq hempty
    subst hempty
    rw [show x = _ from read_of_empty hq []]
    exact ⟨rfl, rfl⟩
  · intro hq hroom hbehind
    obtain ⟨hvalue, hstate⟩ := answer_of_behind r buffer hsize hbehind
    have hsettled : r.fresh = false := by
      cases hfresh : r.fresh with
      | false => rfl
      | true =>
        -- the front of a document is never behind its end
        have hzero : start = 0 := readStart_of_fresh hfresh offset
        have hpos : 0 < body.length := document_pos r g
        omega
    rw [show x = _ from read_of_room hq hroom]
    exact ⟨hsettled, hvalue, hstate⟩
  · intro hq hroom hbefore
    obtain ⟨hvalue, hstate⟩ := answer_of_before r hsize hroom hbefore
    have hbuffer : 0 < buffer.length := List.length_pos_iff.mpr hroom
    have hcount : 0 < r.readCount g buffer offset := by
      show 0 < min buffer.length (body.length - start)
      omega
    rw [show x = _ from read_of_room hq hroom, hvalue, hstate, settle_self hcount]
    exact ⟨rfl, rfl, readNext_of_past, readNext_of_short hsize, rfl⟩

/-- A notification that nobody has seen sends a read from position twenty back to the front. -/
theorem read_outcome_of_fresh :
    let r : Resource .small := { Resource.startingAt .small .boot with fresh := true }
    (r.document .empty).length ≤ 4294967296 ∧
      (r.read .empty .any [7, 7, 7, 7] (.resume 20) []).value.buffer = utf8 "\x7b\"pa" ∧
      (r.read .empty .any [7, 7, 7, 7] (.resume 20) []).state = .startingAt .small .boot := by
  intro r
  have hsize : (r.document .empty).length ≤ 4294967296 := by decide
  have hcase := (read_outcome r .empty .any [7, 7, 7, 7] (.resume 20) hsize).2.2.2.2
    (by rintro ⟨f, hf, -⟩; cases hf) (by decide) (by decide)
  exact ⟨hsize, hcase.2.1, hcase.2.2.2.2⟩

end Resource

end ObservableTree
