import ObservableTree.Observer
import ObservableTree.Proofs.Document
import ObservableTree.Proofs.Reading

/-!
# Undisturbed retrievals

An observer of a simulation reads the document in a row, with nothing in between. Block by block it
collects the document, as long as the offsets can tell how far it has come. They have 32 bits, and
further on they stay where they are, so that bytes are received twice:

* `Resource.read_block` — one read on the way;
* `Resource.readOn_steady` — a row of reads that does not leave the range of the offsets: what it
  collects, in how many reads, or that there are not enough of them;
* `Resource.readWhole_of_empty`, `readWhole_steady` — what all the reads of a retrieval amount to,
  without and with room in a block, `readWhole_received` — hence what they collect is the document;
* `Resource.readWhole_twice` — two reads, the first of which leaves the range of the offsets;
* `Observer.fetch_view` — an observer that has the document has the view that it was written from.
-/

namespace ObservableTree

namespace Resource

variable {cfg : Settings} {r : Resource cfg} {g : Routing} {block left count : Nat}
  {offset : Offset} {front : List UInt8}

theorem settled_document (r : Resource cfg) (g : Routing) : r.settled.document g = r.document g := rfl

/-! ### One read -/

/-- A read with a buffer in front of the end brings the next block, and the offset moves on. -/
theorem read_block (hblock : 0 < block) (hstart : r.readStart offset < (r.document g).length)
    (hroom : (r.document g).length ≤ lastPosition ∨
      r.readStart offset + block + 64 ≤ lastPosition) :
    let x := r.read g .any (List.replicate block 0) offset []
    ∃ n, x.value.result = .ok (.document n) ∧
      x.value.buffer.take n = ((r.document g).drop (r.readStart offset)).take block ∧
      x.value.offset = (if (r.document g).length ≤ r.readStart offset + block then .done
        else .clamped (r.readStart offset + block)) ∧
      x.state = r.settled := by
  intro x
  have hlength : (List.replicate block (0 : UInt8)).length = block := List.length_replicate
  have hfits : (View.shown g r.table).body.length ≤ lastPosition ∨
      r.readStart offset + (List.replicate block (0 : UInt8)).length + 64 ≤ lastPosition := by
    rw [hlength]
    exact hroom
  have hbuffer : List.replicate block (0 : UInt8) ≠ [] := by
    rw [← List.length_pos_iff, hlength]
    exact hblock
  obtain ⟨hwritten, hnext⟩ := View.finish_writeTo (View.shown g r.table) _ _ hfits
  obtain ⟨n, hwalk, -, -⟩ := View.writeTo_ofBuffer (View.shown g r.table) _ _ hfits
  rw [← chunk_eq, hlength] at hwritten hnext
  rw [← chunk_eq] at hwalk
  have hpayload : (r.chunk g (List.replicate block 0) offset).buffer.take
      (r.chunk g (List.replicate block 0) offset).finish.written =
        ((r.document g).drop (r.readStart offset)).take block := by
    rw [hwalk]
    refine (@List.take_left _ (((r.document g).drop (r.readStart offset)).take
      (List.replicate block (0 : UInt8)).length) _).trans ?_
    rw [hlength]
  have hpos : 0 < (r.chunk g (List.replicate block 0) offset).finish.written := by
    rw [hwritten]
    have hleft : 0 < (r.document g).length - r.readStart offset := Nat.sub_pos_of_lt hstart
    exact Nat.lt_min.mpr ⟨hblock, hleft⟩
  have hread : x = answer r r (r.chunk g (List.replicate block 0) offset) := read_of_room rfl hbuffer
  refine ⟨(r.chunk g (List.replicate block 0) offset).finish.written, ?_⟩
  rw [hread, answer_state]
  unfold answer
  dsimp only
  rw [if_neg (Nat.ne_of_gt hpos)]
  exact ⟨rfl, hpayload, hnext, settle_self hpos r⟩

/-- The offset that a read gives back leads to where it has ended, within the range of the offsets.
-/
theorem readStart_clamped (r : Resource cfg) (position : Nat) :
    r.settled.readStart (.clamped position) = min position lastOffset := by
  have hbound : min position lastOffset < 4294967296 := Nat.lt_succ_of_le (Nat.min_le_right _ _)
  rw [readStart_of_settled rfl]
  exact UInt32.toNat_ofNat_of_lt' hbound

/-! ### Rows of reads -/

/-- **One step** of a row of reads. -/
theorem readOn_succ (hblock : 0 < block) (hstart : r.readStart offset < (r.document g).length)
    (hroom : (r.document g).length ≤ lastPosition ∨
      r.readStart offset + block + 64 ≤ lastPosition) :
    (readOn (.steady g) block (left + 1) count front offset r).value =
      if (r.document g).length ≤ r.readStart offset + block then
        .ok (count + 1, front ++ (r.document g).drop (r.readStart offset))
      else
        (readOn (.steady g) block left (count + 1)
          (front ++ ((r.document g).drop (r.readStart offset)).take block)
          (.clamped (r.readStart offset + block)) r.settled).value := by
  obtain ⟨n, hresult, hpayload, hnext, hstate⟩ := read_block hblock hstart hroom
  rw [readOn]
  dsimp only [Surroundings.steady]
  generalize r.read g .any (List.replicate block 0) offset [] = x at hresult hpayload hnext hstate ⊢
  obtain ⟨⟨buffer, next, result⟩, later, notices, traces⟩ := x
  dsimp only at hresult hpayload hnext hstate
  subst hresult hnext hstate
  rw [Reaction.andThen]
  dsimp only
  rw [show (Reply.document n).payloadLength = n from rfl, hpayload]
  by_cases hend : (r.document g).length ≤ r.readStart offset + block
  · have hall : ((r.document g).drop (r.readStart offset)).take block =
        (r.document g).drop (r.readStart offset) := by
      apply List.take_of_length_le
      rw [List.length_drop]
      omega
    simp only [if_pos hend, hall]
    rfl
  · simp only [if_neg hend]
    rfl

/-- The reads that are left for so many bytes: one for the last block, and one for each block more.
-/
theorem blocks_of_last (length : Nat) (hpos : 0 < length) (h : length ≤ block) :
    (length + block - 1) / block = 1 := by
  have hsplit : length + block - 1 = (length - 1) + block := by omega
  have hless : length - 1 < block := by omega
  rw [hsplit, Nat.add_div_right _ (by omega), Nat.div_eq_of_lt hless]

theorem blocks_of_more (length : Nat) (hblock : 0 < block) (h : block < length) :
    (length + block - 1) / block = 1 + (length - block + block - 1) / block := by
  have hsplit : length + block - 1 = (length - block + block - 1) + block := by omega
  rw [hsplit, Nat.add_div_right _ hblock]
  exact Nat.add_comm _ _

/-- **A row of reads within the range of the offsets.** From a place in the document on it collects
the rest, one block with each read, or it breaks off when there are not enough reads left. -/
theorem readOn_steady (hblock : 0 < block) (hstart : r.readStart offset < (r.document g).length)
    (hroom : (r.document g).length ≤ lastPosition ∨ block ≤ lastOffset)
    (hrange : ∀ j < left, r.readStart offset + j * block < (r.document g).length →
      r.readStart offset + j * block ≤ lastOffset) :
    (readOn (.steady g) block left count front offset r).value =
      if (r.document g).length ≤ r.readStart offset + left * block then
        .ok (count + ((r.document g).length - r.readStart offset + block - 1) / block,
          front ++ (r.document g).drop (r.readStart offset))
      else .error .tooManyExchanges := by
  induction left generalizing count front offset r with
  | zero =>
    rw [readOn_zero, if_neg (by omega)]
    rfl
  | succ left ih =>
    have hmul : (left + 1) * block = left * block + block := Nat.succ_mul left block
    have hhere := hrange 0 (Nat.succ_pos left)
    rw [Nat.zero_mul, Nat.add_zero] at hhere
    have hfits : (r.document g).length ≤ lastPosition ∨
        r.readStart offset + block + 64 ≤ lastPosition := by
      refine hroom.imp_right fun hsmall => ?_
      have hlimit : lastOffset + lastOffset + 64 ≤ lastPosition := by decide
      have hplace := hhere hstart
      omega
    rw [readOn_succ hblock hstart hfits]
    by_cases hend : (r.document g).length ≤ r.readStart offset + block
    · rw [if_pos hend, if_pos (by omega), blocks_of_last _ (by omega) (by omega)]
    · rw [if_neg hend]
      cases left with
      | zero =>
        rw [readOn_zero, if_neg (by omega)]
        rfl
      | succ left =>
        -- the next read starts where this one has ended, which the offset has room for
        have hnext := hrange 1 (Nat.succ_lt_succ (Nat.succ_pos left))
        rw [Nat.one_mul] at hnext
        have hthere := readStart_clamped r (r.readStart offset + block)
        rw [Nat.min_eq_left (hnext (by omega))] at hthere
        have hlater : ∀ j < left + 1,
            r.settled.readStart (.clamped (r.readStart offset + block)) + j * block <
              (r.settled.document g).length →
            r.settled.readStart (.clamped (r.readStart offset + block)) + j * block ≤
              lastOffset := by
          intro j hj hless
          have hplace : r.readStart offset + block + j * block =
              r.readStart offset + (j + 1) * block := by
            rw [Nat.succ_mul, Nat.add_comm (j * block), Nat.add_assoc]
          rw [hthere, hplace] at hless ⊢
          exact hrange (j + 1) (Nat.succ_lt_succ hj) hless
        rw [ih (r := r.settled) (by rw [hthere, settled_document]; omega) hroom hlater, hthere,
          settled_document]
        have hcount := blocks_of_more ((r.document g).length - r.readStart offset) hblock (by omega)
        rw [Nat.sub_sub] at hcount
        rw [hcount, ← Nat.add_assoc, List.append_assoc, Nat.add_assoc (r.readStart offset),
          Nat.add_comm block, ← hmul, ← List.drop_drop, List.take_append_drop]

/-! ### Whole retrievals -/

/-- Without room for a single byte the first read is refused, and nothing is collected. -/
theorem readWhole_of_empty (r : Resource cfg) (around : Surroundings) {limit : Nat}
    (hlimit : 0 < limit) :
    r.readWhole around 0 limit =
      (r.refuse .noProgress [] .done).map fun _ => .error (.refused .noProgress) := by
  obtain ⟨left, rfl⟩ := Nat.exists_eq_succ_of_ne_zero (Nat.ne_of_gt hlimit)
  rw [readWhole, readOn, List.replicate_zero, read_of_empty rfl]
  rfl

/-- With room in a block, the document is collected with one read for each block, as far as the
reads go, if all of them start within the range of the offsets. -/
theorem readWhole_steady {limit : Nat} (hblock : 0 < block)
    (hroom : (r.document g).length ≤ lastPosition ∨ block ≤ lastOffset)
    (hrange : ∀ j < limit, j * block < (r.document g).length → j * block ≤ lastOffset) :
    (r.readWhole (.steady g) block limit).value =
      if (r.document g).length ≤ limit * block then
        .ok (((r.document g).length + block - 1) / block, r.document g)
      else .error .tooManyExchanges := by
  have hdone : r.readStart .done = 0 := readStart_done r
  have hstart : r.readStart .done < (r.document g).length := by
    rw [hdone]
    exact document_pos r g
  have hwithin : ∀ j < limit, r.readStart .done + j * block < (r.document g).length →
      r.readStart .done + j * block ≤ lastOffset := by
    intro j hj
    rw [hdone, Nat.zero_add]
    exact hrange j hj
  rw [readWhole, readOn_steady hblock hstart hroom hwithin, hdone, Nat.zero_add, Nat.zero_add,
    Nat.sub_zero, List.drop_zero, List.nil_append]

/-- **What has been collected in the end** is the document. -/
theorem readWhole_received {limit n : Nat} {received : List UInt8}
    (h : (r.readWhole (.steady g) block limit).value = .ok (n, received))
    (hroom : (r.document g).length ≤ lastPosition ∨ block ≤ lastOffset)
    (hrange : ∀ j < limit, j * block < (r.document g).length → j * block ≤ lastOffset) :
    received = r.document g := by
  have hlimit : 0 < limit := by
    refine Nat.pos_of_ne_zero fun hzero => ?_
    rw [readWhole, hzero] at h
    cases h
  have hblock : 0 < block := by
    refine Nat.pos_of_ne_zero fun hzero => ?_
    rw [hzero, readWhole_of_empty r _ hlimit] at h
    cases h
  rw [readWhole_steady hblock hroom hrange] at h
  split at h
  · cases h
    rfl
  · cases h

/-- **Bytes that are received twice.** A block may end beyond the range of the offsets. The next read
starts where the range ends, and brings again what lies between. -/
theorem readWhole_twice {limit : Nat} (hblock : lastOffset < block)
    (hmore : block < (r.document g).length) (hless : (r.document g).length ≤ lastOffset + block)
    (hlast : (r.document g).length ≤ lastPosition) (hlimit : 2 ≤ limit) :
    (r.readWhole (.steady g) block limit).value =
      .ok (2, (r.document g).take block ++ (r.document g).drop lastOffset) := by
  obtain ⟨left, rfl⟩ := Nat.exists_eq_add_of_le' hlimit
  have hdone : r.readStart .done = 0 := readStart_done r
  have hthere := readStart_clamped r (r.readStart .done + block)
  rw [hdone, Nat.zero_add, Nat.min_eq_right (Nat.le_of_lt hblock)] at hthere
  have hpos : 0 < block := Nat.zero_lt_of_lt hblock
  rw [readWhole, readOn_succ hpos (by omega) (.inl hlast), hdone, Nat.zero_add, List.drop_zero,
    if_neg (Nat.not_le.mpr hmore),
    readOn_succ (r := r.settled) hpos (by rw [hthere, settled_document]; omega) (.inl hlast),
    hthere, settled_document, if_pos hless]
  rfl

end Resource

/-! ### Observers -/

namespace Observer

variable {cfg : Settings} {o : Observer} {r : Resource cfg} {g : Routing} {now : Instant}
  {x : Retrieval}

theorem fetch_value (o : Observer) (r : Resource cfg) (around : Surroundings) (now : Instant) :
    (o.fetch r around now).value =
      (o.note (retrievalOf now (r.readWhole around o.blockSize maxExchanges).value),
        retrievalOf now (r.readWhole around o.blockSize maxExchanges).value) := rfl

/-- **What an observer has got.** An observer has the view from which the document was written, if
all of its reads have started within the range of the offsets. -/
theorem fetch_view (h : (o.fetch r (.steady g) now).value.2 = .ok x)
    (hblock : o.blockSize ≤ lastPosition)
    (hrange : ∀ j < maxExchanges, j * o.blockSize < (r.document g).length →
      j * o.blockSize ≤ lastOffset) :
    x.view = View.shown g r.table := by
  have hroom : (r.document g).length ≤ lastPosition ∨ o.blockSize ≤ lastOffset := by
    by_cases hlong : (r.document g).length ≤ lastPosition
    · exact .inl hlong
    · -- a block is shorter than such a document, so the second read starts inside it
      have hsecond := hrange 1 (by decide)
      rw [Nat.one_mul] at hsecond
      exact .inr (hsecond (by omega))
  rw [fetch_value] at h
  dsimp only at h
  cases hread : (r.readWhole (.steady g) o.blockSize maxExchanges).value with
  | error cause =>
    rw [hread] at h
    cases h
  | ok collected =>
    obtain ⟨n, received⟩ := collected
    rw [hread, retrievalOf] at h
    cases hparse : View.parse received with
    | error cause =>
      rw [hparse] at h
      cases h
    | ok view =>
      rw [hparse] at h
      cases h
      rw [Resource.readWhole_received hread hroom hrange, Resource.document, View.parse_body] at hparse
      cases hparse
      rfl

end Observer

end ObservableTree
