import ObservableTree.Proofs.Freshness

/-!
# Offsets in the transport's signed form

Between two exchanges the transport keeps a signed number, not an offset. The number has no room for
the upper half of the positions, so the two agree only as long as no offset lies that far behind the
front:

* `Offset.ofRaw?_isSome_iff`, `Offset.toRaw_of_ofRaw?` — which numbers are offsets, and that each of
  them is recovered;
* `Offset.ofRaw?_toRaw_iff` — which offsets are recovered from their number;
* `Resource.read_offset_fits` — what a read of a short document leaves in the offset is one of them;
* `Keeping` — what a transport keeps, `Session.run` — a row of exchanges under it;
* `Session.StandsFor`, `standsFor_run` — a number stands for an offset, and goes on doing so;
* `retrieval_of_raw` — keeping the number alone changes no exchange.
-/

namespace ObservableTree

/-! ### Numbers and offsets -/

namespace Offset

/-- The number of an offset is exact: the position is not cut down. -/
def FitsRaw : Offset → Prop
  | done => True
  | resume p => p.toNat ≤ lastRaw

theorem ofRaw?_of_nonneg {raw : Int32} (h : 0 ≤ raw) :
    ofRaw? raw = some (resume raw.toUInt32) := by
  have hint : 0 ≤ raw.toInt := Int32.le_iff_toInt_le.mp h
  have hneg : ¬raw < 0 := fun hlt => absurd (Int32.lt_iff_toInt_lt.mp hlt) (Int.not_lt.mpr hint)
  have hminus : raw ≠ -1 := by
    rintro rfl
    exact absurd hint (by decide)
  rw [ofRaw?, if_neg hminus, if_neg hneg]

/-- The numbers from minus one on are offsets, and no other number is. -/
theorem ofRaw?_isSome_iff (raw : Int32) : (ofRaw? raw).isSome ↔ -1 ≤ raw := by
  rw [Int32.le_iff_toInt_le]
  have hminus : (-1 : Int32).toInt = -1 := by decide
  have hzero : (0 : Int32).toInt = 0 := by decide
  by_cases hdone : raw = -1
  · subst hdone
    exact iff_of_true rfl (Int.le_refl _)
  · by_cases hneg : raw < 0
    · -- a negative number other than minus one
      rw [ofRaw?, if_neg hdone, if_pos hneg]
      have hlt := Int32.lt_iff_toInt_lt.mp hneg
      have hne : raw.toInt ≠ (-1 : Int32).toInt := fun h => hdone (Int32.toInt_inj.mp h)
      refine iff_of_false (by simp) ?_
      omega
    · rw [ofRaw?, if_neg hdone, if_neg hneg]
      have hle : ¬raw.toInt < (0 : Int32).toInt := fun h => hneg (Int32.lt_iff_toInt_lt.mpr h)
      refine iff_of_true rfl ?_
      omega

/-- A number is recovered from the offset that it stands for. -/
theorem toRaw_of_ofRaw? {raw : Int32} {o : Offset} (h : ofRaw? raw = some o) : o.toRaw = raw := by
  by_cases hdone : raw = -1
  · rw [ofRaw?, if_pos hdone, Option.some.injEq] at h
    rw [← h, hdone]
    rfl
  · by_cases hneg : raw < 0
    · rw [ofRaw?, if_neg hdone, if_pos hneg] at h
      cases h
    · have hle : 0 ≤ raw := Int32.not_lt.mp hneg
      rw [ofRaw?_of_nonneg hle, Option.some.injEq] at h
      have hroom : raw.toNatClampNeg ≤ lastRaw := by
        have hlast := raw.toInt_lt
        have hdef : raw.toNatClampNeg = raw.toInt.toNat := rfl
        unfold lastRaw
        omega
      rw [← h, toRaw, Int32.toNat_toUInt32_of_le hle, Nat.min_eq_left hroom,
        Int32.ofNat_toNatClampNeg _ hle]

/-- An offset is recovered from its number exactly if the number did not cut it down. -/
theorem ofRaw?_toRaw_iff (o : Offset) : ofRaw? o.toRaw = some o ↔ o.FitsRaw := by
  cases o with
  | done => exact iff_of_true rfl trivial
  | resume p =>
    have hlast : min p.toNat lastRaw < 2 ^ 31 := Nat.lt_of_le_of_lt (Nat.min_le_right _ _) (by decide)
    have hclamp := Int32.toNatClampNeg_ofNat_of_lt hlast
    have hnonneg : (0 : Int32) ≤ Int32.ofNat (min p.toNat lastRaw) := by
      rw [Int32.le_iff_toInt_le, Int32.toInt_ofNat_of_lt hlast]
      exact Int.natCast_nonneg _
    rw [toRaw, ofRaw?_of_nonneg hnonneg, Option.some.injEq, resume.injEq, ← UInt32.toNat_inj,
      Int32.toNat_toUInt32_of_le hnonneg, hclamp]
    show min p.toNat lastRaw = p.toNat ↔ p.toNat ≤ lastRaw
    omega

/-- The offsets that numbers stand for. -/
theorem fitsRaw_of_ofRaw? {raw : Int32} {o : Offset} (h : ofRaw? raw = some o) : o.FitsRaw := by
  rw [← ofRaw?_toRaw_iff, toRaw_of_ofRaw? h]
  exact h

end Offset

/-! ### The offset after a read -/

namespace Resource

variable {cfg : Settings}

/-- What a read that got something stores is in front of the document's end. -/
theorem readNext_fitsRaw {r : Resource cfg} {g : Routing} (hsize : (r.document g).length ≤ 2147483648)
    (buffer : List UInt8) (offset : Offset) : (r.readNext g buffer offset).FitsRaw := by
  have hwide : (r.document g).length ≤ 4294967296 := Nat.le_trans hsize (by decide)
  by_cases hpast : (r.document g).length ≤ r.readStart offset + buffer.length
  · rw [readNext_of_past hpast]
    trivial
  · obtain ⟨p, hp, hnext⟩ := readNext_of_short hwide (Nat.lt_of_not_le hpast)
    rw [hnext]
    show p.toNat ≤ 2147483647
    omega

/-- **The offset after a read.** A read of a document with at most two to the thirty-first bytes
either is refused at once and leaves the offset as it was, or stores one that its number
recovers. -/
theorem read_offset_fits (r : Resource cfg) (g : Routing)
    (hsize : (r.document g).length ≤ 2147483648) (q : Request) (buffer : List UInt8)
    (offset : Offset) (meanwhile : List Input) :
    let x := (r.read g q buffer offset meanwhile).value
    ((∃ n, x.result = .ok (.document n)) ∨ x.result = .error .blockOutOfScope) ∧
        x.offset.FitsRaw ∨
      (x.result = .error .notAcceptable ∨ x.result = .error .noProgress) ∧ x.offset = offset := by
  intro x
  have hwide : (r.document g).length ≤ 4294967296 := Nat.le_trans hsize (by decide)
  cases hq : q.acceptsJson with
  | false =>
    right
    rw [show x = _ from congrArg Reaction.value (read_of_unacceptable hq meanwhile)]
    exact ⟨.inl rfl, rfl⟩
  | true =>
    by_cases hroom : buffer = []
    · right
      subst hroom
      rw [show x = _ from congrArg Reaction.value (read_of_empty hq meanwhile)]
      exact ⟨.inr rfl, rfl⟩
    · left
      have hx : x = (answer r (r.reactAll meanwhile).state (r.chunk g buffer offset)).value :=
        (congrArg Reaction.value (read_of_walk r g offset meanwhile hq hroom)).trans rfl
      by_cases hstart : r.readStart offset < (r.document g).length
      · rw [hx, (answer_of_before _ hwide hroom hstart).1]
        exact ⟨.inl ⟨_, rfl⟩, readNext_fitsRaw hsize buffer offset⟩
      · rw [hx, (answer_of_behind _ buffer hwide (Nat.le_of_not_lt hstart)).1]
        exact ⟨.inr rfl, trivial⟩

end Resource

/-! ### What a transport keeps -/

/-- How a transport keeps an offset from one exchange to the next. What it keeps may turn out to be
no offset. -/
structure Keeping (κ : Type) where
  encode : Offset → κ
  decode? : κ → Option Offset

/-- Keeps the offset itself. -/
def Keeping.whole : Keeping Offset := ⟨id, some⟩

/-- Keeps the signed number alone. -/
def Keeping.raw : Keeping Int32 := ⟨Offset.toRaw, Offset.ofRaw?⟩

/-- One exchange of a retrieval: what is done to the resource before it, reads of other clients
included, the routing state that it meets, what is asked, and the inputs that arrive while the
document is written. -/
structure Turn where
  before : List Call
  routing : Routing
  request : Request
  buffer : List UInt8
  meanwhile : List Input

/-- A resource, and what the transport has kept of the retrieval's offset. -/
structure Session (cfg : Settings) (κ : Type) where
  resource : Resource cfg
  kept : κ

namespace Session

variable {cfg : Settings} {κ : Type}

/-- The resource that the read of a turn meets. -/
def met (s : Session cfg κ) (t : Turn) : Resource cfg := s.resource.calls t.before

/-- The read of a turn at an offset. -/
def served (s : Session cfg κ) (t : Turn) (offset : Offset) : Reaction cfg Exchange :=
  (s.met t).read t.routing t.request t.buffer offset t.meanwhile

/-- A row of exchanges, with what the last one leaves. A transport that finds no offset in what it
has kept cannot go on. -/
def run (k : Keeping κ) (s : Session cfg κ) : List Turn → List Exchange × Session cfg κ
  | [] => ([], s)
  | t :: ts =>
    match k.decode? s.kept with
    | none => ([], s)
    | some offset =>
      let x := s.served t offset
      let rest := run k ⟨x.state, k.encode x.value.offset⟩ ts
      (x.value :: rest.1, rest.2)

/-- Every document of a row of exchanges has at most so many bytes. -/
def Within (limit : Nat) (s : Session cfg Offset) : List Turn → Prop
  | [] => True
  | t :: ts =>
    ((s.met t).document t.routing).length ≤ limit ∧
      Within limit ⟨(s.served t s.kept).state, (s.served t s.kept).value.offset⟩ ts

theorem run_cons {k : Keeping κ} {s : Session cfg κ} {offset : Offset}
    (h : k.decode? s.kept = some offset) (t : Turn) (ts : List Turn) :
    s.run k (t :: ts) =
      ((s.served t offset).value ::
          (run k ⟨(s.served t offset).state, k.encode (s.served t offset).value.offset⟩ ts).1,
        (run k ⟨(s.served t offset).state, k.encode (s.served t offset).value.offset⟩ ts).2) := by
  rw [run, h]

theorem whole_decode? (u : Session cfg Offset) : Keeping.whole.decode? u.kept = some u.kept := rfl

/-- A transport that keeps the number stands for one that keeps the offset. -/
structure StandsFor (s : Session cfg Int32) (u : Session cfg Offset) : Prop where
  resource : s.resource = u.resource
  kept : Offset.ofRaw? s.kept = some u.kept

/-- One exchange: the number after it still stands for the offset. -/
theorem standsFor_served {s : Session cfg Int32} {u : Session cfg Offset} (h : s.StandsFor u)
    {t : Turn} (hsize : ((u.met t).document t.routing).length ≤ 2147483648) :
    let x := u.served t u.kept
    s.served t u.kept = x ∧
      StandsFor ⟨x.state, x.value.offset.toRaw⟩ ⟨x.state, x.value.offset⟩ := by
  intro x
  have hserved : s.served t u.kept = x := by
    simp only [x, served, met, h.resource]
  refine ⟨hserved, rfl, (Offset.ofRaw?_toRaw_iff _).mpr ?_⟩
  rcases Resource.read_offset_fits (u.met t) t.routing hsize t.request t.buffer u.kept t.meanwhile
    with ⟨-, hfits⟩ | ⟨-, hsame⟩
  · exact hfits
  · -- refused at once: the offset is the one that came with the number
    have hkept : x.value.offset = u.kept := hsame
    rw [hkept]
    exact Offset.fitsRaw_of_ofRaw? h.kept

/-- A row of exchanges under the number is the row under the offset. -/
theorem standsFor_run (ts : List Turn) {s : Session cfg Int32} {u : Session cfg Offset}
    (h : s.StandsFor u) (hsize : u.Within 2147483648 ts) :
    (s.run .raw ts).1 = (u.run .whole ts).1 ∧ (s.run .raw ts).2.StandsFor (u.run .whole ts).2 := by
  induction ts generalizing s u with
  | nil => exact ⟨rfl, h⟩
  | cons t ts ih =>
    obtain ⟨hserved, hnext⟩ := standsFor_served h hsize.1
    obtain ⟨hexchanges, hend⟩ := ih hnext hsize.2
    have hraw := run_cons (k := .raw) h.kept t ts
    have hwhole := run_cons (k := .whole) (whole_decode? u) t ts
    rw [hserved] at hraw
    rw [hraw, hwhole]
    exact ⟨congrArg (List.cons _) hexchanges, hend⟩

/-- A transport that keeps the offset can always go on. -/
theorem run_whole_length (u : Session cfg Offset) (ts : List Turn) :
    (u.run .whole ts).1.length = ts.length := by
  induction ts generalizing u with
  | nil => rfl
  | cons t ts ih =>
    rw [run_cons (whole_decode? u)]
    exact congrArg (· + 1) (ih _)

/-- **Offsets in the signed form.** The numbers from minus one on are offsets and are recovered from
them. A read of a document with at most two to the thirty-first bytes that succeeds or is out of
scope leaves an offset that is recovered from its number, so a transport that keeps the number alone
makes the same exchanges, over any row of them, as one that keeps the offset. -/
theorem retrieval_of_raw (cfg : Settings) :
    (∀ raw : Int32, ((Offset.ofRaw? raw).isSome ↔ -1 ≤ raw) ∧
      ∀ o, Offset.ofRaw? raw = some o → o.toRaw = raw) ∧
    (∀ (r : Resource cfg) (g : Routing) (q : Request) (buffer : List UInt8) (offset : Offset)
        (meanwhile : List Input), (r.document g).length ≤ 2147483648 → buffer ≠ [] →
      let x := (r.read g q buffer offset meanwhile).value
      (∃ reply, x.result = .ok reply) ∨ x.result = .error .blockOutOfScope →
        Offset.ofRaw? x.offset.toRaw = some x.offset) ∧
    ∀ (r : Resource cfg) (raw : Int32) (o : Offset) (ts : List Turn),
      Offset.ofRaw? raw = some o → Within 2147483648 ⟨r, o⟩ ts →
      let number := run .raw ⟨r, raw⟩ ts
      let offset := run .whole ⟨r, o⟩ ts
      number.1 = offset.1 ∧ number.2.resource = offset.2.resource ∧
        number.1.length = ts.length ∧ Offset.ofRaw? number.2.kept = some offset.2.kept := by
  refine ⟨fun raw => ⟨Offset.ofRaw?_isSome_iff raw, fun o => Offset.toRaw_of_ofRaw?⟩, ?_, ?_⟩
  · intro r g q buffer offset meanwhile hsize _ x hresult
    rw [Offset.ofRaw?_toRaw_iff]
    rcases Resource.read_offset_fits r g hsize q buffer offset meanwhile
      with ⟨-, hfits⟩ | ⟨hrefused, -⟩
    · exact hfits
    · -- neither of the two refusals is a success or out of scope
      rcases hresult with ⟨reply, hok⟩ | hscope
      · rcases hrefused with h | h <;> cases hok.symm.trans h
      · rcases hrefused with h | h <;> cases hscope.symm.trans h
  · intro r raw o ts hraw hsize number offset
    have hstart : StandsFor (⟨r, raw⟩ : Session cfg Int32) ⟨r, o⟩ := ⟨rfl, hraw⟩
    obtain ⟨hexchanges, hend⟩ := standsFor_run ts hstart hsize
    have hlength : number.1.length = ts.length :=
      (congrArg List.length hexchanges).trans (run_whole_length _ ts)
    exact ⟨hexchanges, hend.resource, hlength, hend.kept⟩

/-- A retrieval in buffers of twenty bytes, with a refused exchange in between: kept as a number, it
ends with minus one and the whole document. -/
theorem retrieval_of_raw_of_refusal :
    let r : Resource .small := .startingAt .small .boot
    let buffer : List UInt8 := List.replicate 20 0
    let ts : List Turn :=
      [⟨[], .empty, .any, buffer, []⟩, ⟨[], .empty, .accepting .cbor, buffer, []⟩,
        ⟨[], .empty, .any, buffer, []⟩]
    let x := (r.read .empty .any buffer .done []).value
    (r.document .empty).length ≤ 2147483648 ∧ Offset.ofRaw? x.offset.toRaw = some x.offset ∧
      Offset.ofRaw? (-1) = some .done ∧ Within 2147483648 ⟨r, .done⟩ ts ∧
      (run .raw ⟨r, -1⟩ ts).2.kept = -1 ∧ (run .raw ⟨r, -1⟩ ts).1.length = 3 := by
  intro r buffer ts x
  have hshort : (r.document .empty).length ≤ 2147483648 := by decide
  have hraw : Offset.ofRaw? (-1) = some .done := by decide
  have hsize : Within 2147483648 ⟨r, .done⟩ ts :=
    ⟨by decide +kernel, by decide +kernel, by decide +kernel, trivial⟩
  have hroom : buffer ≠ [] := by decide
  have hanswer := (Resource.read_outcome r .empty .any buffer .done
    (Nat.le_trans hshort (by decide))).2.2.2.2 (by rintro ⟨f, hf, -⟩; cases hf) hroom (by decide)
  have hread := (retrieval_of_raw .small).2.1 r .empty .any buffer .done [] hshort hroom
    (.inl ⟨_, hanswer.1⟩)
  have hrun := (retrieval_of_raw .small).2.2 r (-1) .done ts hraw hsize
  exact ⟨hshort, hread, hraw, hsize, by decide +kernel, hrun.2.2.1⟩

end Session

end ObservableTree
