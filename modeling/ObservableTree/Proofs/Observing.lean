import ObservableTree.Proofs.Events
import ObservableTree.Proofs.Fetching

/-!
# What comes of a retrieval

An observer gets the document if a block has room for anything at all, and if the reads of one
retrieval have room for the whole document. If not, it notes a failure: either way of falling short
has its own.

* `Resource.readOn_settled`, `readWhole_settled` — a row of reads leaves the notification settled,
  however it ends;
* `Resource.readWhole_of_small` — what the reads of a document that is not too long amount to;
* `Observer.retrievalOf_document` — the document is read back as the view it was written from;
* `Observer.fetch_outcome` — a retrieval in all of its cases.
-/

namespace ObservableTree

namespace Resource

variable {cfg : Settings} {r : Resource cfg} {g : Routing} {block left limit count : Nat}
  {offset : Offset} {front : List UInt8}

/-- Where no notification is left to see, nothing is settled any more. -/
theorem SettledAtMost.of_settled {q : Resource cfg} (h : SettledAtMost r.settled q) :
    q = r.settled := by
  rcases h with hsame | hagain
  · exact hsame
  · exact hagain

/-- **The state after a row of reads.** The first read settles the notification, and neither the
others nor their failure touch anything else. -/
theorem readOn_settled (hblock : 0 < block) (hstart : r.readStart offset < (r.document g).length)
    (hlast : (r.document g).length ≤ lastPosition) :
    (readOn (.steady g) block (left + 1) count front offset r).state = r.settled := by
  obtain ⟨n, hresult, -, -, hstate⟩ := read_block hblock hstart (.inl hlast)
  rw [readOn]
  dsimp only [Surroundings.steady]
  rw [Reaction.andThen_state, hstate, hresult]
  dsimp only
  split
  · rfl
  · exact (readOn_quiet g block left _ _ _ r.settled).2.of_settled

/-! ### Whole retrievals -/

/-- A whole row of reads settles the notification as well. -/
theorem readWhole_settled (hblock : 0 < block) (hlimit : 0 < limit)
    (hlast : (r.document g).length ≤ lastPosition) :
    (r.readWhole (.steady g) block limit).state = r.settled := by
  obtain ⟨left, rfl⟩ := Nat.exists_eq_succ_of_ne_zero (Nat.ne_of_gt hlimit)
  have hstart : r.readStart .done < (r.document g).length := by
    rw [readStart_done]
    exact document_pos r g
  exact readOn_settled hblock hstart hlast

/-- In a document that is not too long, every read starts within the range of the offsets. -/
theorem readWhole_of_small (hblock : 0 < block) (hsize : (r.document g).length ≤ 4294967296) :
    (r.readWhole (.steady g) block limit).value =
      if (r.document g).length ≤ limit * block then
        .ok (((r.document g).length + block - 1) / block, r.document g)
      else .error .tooManyExchanges :=
  readWhole_steady hblock (.inl (Nat.le_trans hsize (by decide))) fun _ _ hless =>
    Nat.le_of_lt_succ (Nat.lt_of_lt_of_le hless hsize)

end Resource

namespace Observer

variable {cfg : Settings} {o : Observer} {r : Resource cfg} {g : Routing} {now : Instant}

/-! ### What is made of the bytes -/

/-- The document is read back as the view that it was written from. -/
theorem retrievalOf_document (r : Resource cfg) (g : Routing) (now : Instant) (n : Nat) :
    retrievalOf now (.ok (n, r.document g)) =
      .ok ⟨now, n, (r.document g).length, View.shown g r.table⟩ := by
  have hparse : View.parse (r.document g) = .ok (View.shown g r.table) := View.parse_body _
  rw [retrievalOf, hparse]

/-- With room in a block and enough reads, a retrieval is noted. -/
theorem fetch_of_within (hblock : 1 ≤ o.blockSize) (hsize : (r.document g).length ≤ 4294967296)
    (hfits : (r.document g).length ≤ maxExchanges * o.blockSize) :
    let got : Retrieval := ⟨now, ((r.document g).length + o.blockSize - 1) / o.blockSize,
      (r.document g).length, View.shown g r.table⟩
    (o.fetch r (.steady g) now).value = ({ o with history := o.history ++ [got] }, .ok got) := by
  rw [fetch_value, Resource.readWhole_of_small hblock hsize, if_pos hfits, retrievalOf_document]
  rfl

/-- With room in a block, but not enough reads, a failure is noted. -/
theorem fetch_of_beyond (hblock : 1 ≤ o.blockSize) (hsize : (r.document g).length ≤ 4294967296)
    (hmore : maxExchanges * o.blockSize < (r.document g).length) :
    (o.fetch r (.steady g) now).value =
      ({ o with errors := o.errors + 1 }, .error .tooManyExchanges) := by
  rw [fetch_value, Resource.readWhole_of_small hblock hsize, if_neg (Nat.not_le.mpr hmore)]
  rfl

/-- Without room in a block, the refusal of the first read is noted, and nothing else is done. -/
theorem fetch_of_empty (hblock : o.blockSize = 0) (around : Surroundings) :
    o.fetch r around now =
      (r.refuse .noProgress [] .done).map fun _ =>
        ({ o with errors := o.errors + 1 }, .error (.refused .noProgress)) := by
  have hrefused : r.readWhole around o.blockSize maxExchanges =
      (r.refuse .noProgress [] .done).map fun _ => .error (.refused .noProgress) := by
    rw [hblock]
    exact Resource.readWhole_of_empty r around (by decide)
  rw [fetch, hrefused]
  rfl

/-- A retrieval at most settles the notification, and does so if a block has room. -/
theorem fetch_state (o : Observer) (r : Resource cfg) (g : Routing) (now : Instant)
    (hlast : (r.document g).length ≤ lastPosition) :
    (o.fetch r (.steady g) now).state = if 1 ≤ o.blockSize then { r with fresh := false } else r := by
  by_cases hblock : 1 ≤ o.blockSize
  · rw [if_pos hblock]
    exact Resource.readWhole_settled hblock (by decide) hlast
  · rw [if_neg hblock, fetch_of_empty (Nat.lt_one_iff.mp (Nat.not_le.mp hblock))]
    rfl

/-- Whoever gets the document has blocks and reads enough, and so has got all of it. -/
theorem eq_of_fetch_ok (hsize : (r.document g).length ≤ 4294967296) {got : Retrieval}
    (h : (o.fetch r (.steady g) now).value.2 = .ok got) :
    (1 ≤ o.blockSize ∧ (r.document g).length ≤ maxExchanges * o.blockSize) ∧
      got = ⟨now, ((r.document g).length + o.blockSize - 1) / o.blockSize, (r.document g).length,
        View.shown g r.table⟩ := by
  rcases Nat.eq_zero_or_pos o.blockSize with hempty | hblock
  · rw [fetch_of_empty hempty] at h
    cases h
  · rcases Nat.lt_or_ge (maxExchanges * o.blockSize) (r.document g).length with hmore | hfits
    · rw [fetch_of_beyond hblock hsize hmore] at h
      cases h
    · rw [fetch_of_within hblock hsize hfits] at h
      exact ⟨⟨hblock, hfits⟩, (Except.ok.inj h).symm⟩

/-! ### All cases -/

/-- **One retrieval.** An observer gets the document exactly if its blocks have room and its reads
have room for the whole document. Then it has made one read for each block that was begun, has as
many bytes as the document, and reads the document's view out of them; this goes to its history. If
a block has no room, its first read is refused, and if the document is longer than all of its blocks,
it breaks off; either way it counts one failure more. The resource is left as it is, but for the
notification, which is settled if there is room in a block. So observers with blocks of other sizes
have the same view and the same number of bytes, if they get the document at all. -/
theorem fetch_outcome (o : Observer) (r : Resource cfg) (g : Routing) (now : Instant)
    (hsize : (r.document g).length ≤ 4294967296) :
    let x := o.fetch r (.steady g) now
    let body := r.document g
    ((∃ got, x.value.2 = .ok got) ↔ 1 ≤ o.blockSize ∧ body.length ≤ maxExchanges * o.blockSize) ∧
    (∀ got, x.value.2 = .ok got →
      got.time = now ∧ got.exchanges = (body.length + o.blockSize - 1) / o.blockSize ∧
      got.bodyLength = body.length ∧ View.parse body = .ok got.view ∧
      x.value.1 = { o with history := o.history ++ [got] }) ∧
    (o.blockSize = 0 →
      x.value = ({ o with errors := o.errors + 1 }, .error (.refused .noProgress))) ∧
    (1 ≤ o.blockSize → maxExchanges * o.blockSize < body.length →
      x.value = ({ o with errors := o.errors + 1 }, .error .tooManyExchanges)) ∧
    x.state = (if 1 ≤ o.blockSize then { r with fresh := false } else r) ∧ x.notices = 0 ∧
    (∀ (other : Observer) (later : Instant) (got got' : Retrieval),
      x.value.2 = .ok got → (other.fetch r (.steady g) later).value.2 = .ok got' →
      got'.view = got.view ∧ got'.bodyLength = got.bodyLength) := by
  intro x body
  have hlast : (r.document g).length ≤ lastPosition := Nat.le_trans hsize (by decide)
  have hquiet : x.notices = 0 :=
    (Resource.readOn_quiet g o.blockSize maxExchanges 0 [] .done r).1
  refine ⟨⟨?_, ?_⟩, ?_, fun hempty => congrArg Reaction.value (fetch_of_empty hempty _),
    fun hblock hmore => fetch_of_beyond hblock hsize hmore, fetch_state o r g now hlast, hquiet, ?_⟩
  · rintro ⟨got, h⟩
    exact (eq_of_fetch_ok hsize h).1
  · rintro ⟨hblock, hfits⟩
    exact ⟨_, congrArg Prod.snd (fetch_of_within hblock hsize hfits)⟩
  · intro got h
    obtain ⟨⟨hblock, hfits⟩, rfl⟩ := eq_of_fetch_ok hsize h
    exact ⟨rfl, rfl, rfl, View.parse_body _,
      congrArg Prod.fst (fetch_of_within hblock hsize hfits)⟩
  · intro other later got got' h h'
    obtain ⟨-, rfl⟩ := eq_of_fetch_ok hsize h
    obtain ⟨-, rfl⟩ := eq_of_fetch_ok hsize h'
    exact ⟨rfl, rfl⟩

/-- A document of twenty-four bytes is an exact multiple of eight: three reads bring it, and the
notification that nobody had seen is settled. -/
theorem fetch_outcome_of_multiple :
    let r : Resource .small := { Resource.startingAt .small .boot with fresh := true }
    let o : Observer := ⟨8, [], 2⟩
    (r.document .empty).length ≤ 4294967296 ∧ (r.document .empty).length = 24 ∧
      (∃ got, (o.fetch r (.steady .empty) .boot).value.2 = .ok got ∧ got.exchanges = 3 ∧
        (o.fetch r (.steady .empty) .boot).value.1 = ⟨8, [got], 2⟩) ∧
      (o.fetch r (.steady .empty) .boot).state = .startingAt .small .boot := by
  intro r o
  have hlength : (r.document .empty).length = 24 := by decide +kernel
  have hsize : (r.document .empty).length ≤ 4294967296 := by
    rw [hlength]
    decide
  obtain ⟨hiff, hgot, -, -, hstate, -⟩ := fetch_outcome o r .empty .boot hsize
  rw [hlength] at hiff hgot
  obtain ⟨got, h⟩ := hiff.mpr (by decide)
  obtain ⟨-, hexchanges, -, -, hnoted⟩ := hgot got h
  have hthree : (24 + o.blockSize - 1) / o.blockSize = 3 := by decide
  exact ⟨hsize, hlength, ⟨got, h, hexchanges.trans hthree, hnoted⟩, hstate⟩

end Observer

end ObservableTree
