import ObservableTree.Observer
import ObservableTree.Proofs.Freshness
import ObservableTree.Proofs.Restart

/-!
# Retrievals that are sent back

A client reads on from the offset that the last read gave back and appends what it receives. When a
notification sends one of its reads back to the front, what it has received so far is the front of a
document that it will not complete:

* `Encounter`, `Resource.encounters` — what the reads of a row meet when they start;
* `Encounter.isRestart` — whether a read is sent back in the middle of a document;
* `SteadyAfter` — the document changes only where a read is sent back;
* `readOn_collects` — what has been received is a front for each read that was sent back, and then a
  document;
* `restarted_not_accepted` — such a retrieval never gives an observer a view.
-/

namespace ObservableTree

/-! ### Rows of reads -/

/-- What a read meets when it starts: the state that it copies, the routes, and its offset. -/
structure Encounter (cfg : Settings) where
  state : Resource cfg
  routing : Routing
  offset : Offset

namespace Encounter

variable {cfg : Settings}

/-- The document that the read copies a part of. -/
def document (e : Encounter cfg) : List UInt8 := e.state.document e.routing

/-- Whether a notification sends the read back to the front. -/
def isRestart (e : Encounter cfg) : Bool := e.state.fresh && !e.offset.isDone

end Encounter

/-- From a document on, the document changes only where a read is sent back to the front. -/
def SteadyAfter {cfg : Settings} (last : List UInt8) : List (Encounter cfg) → Prop
  | [] => True
  | e :: es => (e.isRestart = false → e.document = last) ∧ SteadyAfter e.document es

instance decidableSteadyAfter {cfg : Settings} (last : List UInt8) :
    (es : List (Encounter cfg)) → Decidable (SteadyAfter last es)
  | [] => inferInstanceAs (Decidable True)
  | e :: es =>
    have := decidableSteadyAfter e.document es
    inferInstanceAs (Decidable ((e.isRestart = false → e.document = last) ∧
      SteadyAfter e.document es))

namespace Resource

variable {cfg : Settings}

/-- What the reads of a row meet, in order, up to the end of the document or a refusal. -/
def encounters (around : Surroundings) (block : Nat) :
    (left count : Nat) → Offset → Resource cfg → List (Encounter cfg)
  | 0, _, _, _ => []
  | left + 1, count, offset, r =>
    let x := r.read (around.routing count) .any (List.replicate block 0) offset
      (around.meanwhile count)
    ⟨r, around.routing count, offset⟩ ::
      if x.value.result.isOk ∧ x.value.offset.isDone = false then
        encounters around block left (count + 1) x.value.offset x.state
      else []

/-! ### One read of a row -/

variable {r : Resource cfg} {g : Routing} {block : Nat} {offset : Offset} {meanwhile : List Input}

/-- A read that gets something gets the document from its start on, as far as the block goes. -/
theorem read_ok (hsize : (r.document g).length ≤ 4294967296) {reply : Reply}
    (h : (r.read g .any (List.replicate block 0) offset meanwhile).value.result = .ok reply) :
    let x := r.read g .any (List.replicate block 0) offset meanwhile
    0 < block ∧
      x.value.buffer.take reply.payloadLength =
        ((r.document g).drop (r.readStart offset)).take block ∧
      x.value.offset = r.readNext g (List.replicate block 0) offset := by
  intro x
  have hlast : (r.document g).length ≤ lastPosition := Nat.le_trans hsize (by decide)
  have hblock : 0 < block := by
    refine Nat.pos_of_ne_zero fun hzero => ?_
    subst hzero
    rw [List.replicate_zero, read_of_empty rfl] at h
    cases h
  obtain ⟨-, ⟨hfailed, -⟩ | ⟨-, hvalue, -, -⟩⟩ :=
    read_cases r .boot g .any (List.replicate block 0) offset meanwhile
  · rw [h] at hfailed
    cases hfailed
  · rw [hvalue] at h
    cases h
    have hpayload := @chunk_payload _ r g (List.replicate block 0) offset hlast
    rw [List.length_replicate] at hpayload
    rw [show x.value = _ from hvalue]
    exact ⟨hblock, hpayload, chunk_next hsize⟩

/-! ### What has been received -/

/-- In the middle of a document, or in front of one: what has been received of it, and the offset to
read on from. -/
def Partway (last cur : List UInt8) (offset : Offset) : Prop :=
  offset = .done ∧ cur = [] ∨
    ∃ p : UInt32, offset = .resume p ∧ 0 < p.toNat ∧ p.toNat < last.length ∧ cur = last.take p.toNat

theorem isFront_take {n : Nat} (hpos : 0 < n) (hlt : n < (r.document g).length) :
    View.IsFront ((r.document g).take n) := by
  have hlength : ((r.document g).take n).length = n := List.length_take_of_le (Nat.le_of_lt hlt)
  refine ⟨?_, g, r.table, List.take_prefix _ _, fun hsame => ?_⟩
  · intro hempty
    rw [hempty] at hlength
    exact Nat.ne_of_gt hpos hlength.symm
  · have hall := congrArg List.length hsame
    rw [hlength] at hall
    exact Nat.ne_of_lt hlt hall

/-- **Where a read starts**, the client has received the front of the document up to there, and
before that the front of another document if the read is sent back. -/
theorem Partway.start {e : Encounter cfg} {q : Resource cfg} {cur : List UInt8}
    (h : Partway (q.document g) cur e.offset)
    (hsteady : e.isRestart = false → e.document = q.document g) :
    ∃ pieces : List (List UInt8), (∀ p ∈ pieces, View.IsFront p) ∧
      pieces.length = [e].countP Encounter.isRestart ∧
      cur = pieces.flatten ++ e.document.take (e.state.readStart e.offset) := by
  obtain ⟨r, g', offset⟩ := e
  rcases h with ⟨rfl, rfl⟩ | ⟨p, rfl, hpos, hlt, rfl⟩
  · have hrestart : Encounter.isRestart ⟨r, g', .done⟩ = false := Bool.and_false _
    refine ⟨[], nofun, ?_, ?_⟩
    · rw [List.countP_cons_of_neg (by rw [hrestart]; exact Bool.false_ne_true)]
      rfl
    · rw [readStart_done, List.take_zero]
      rfl
  · have hrestart : Encounter.isRestart ⟨r, g', .resume p⟩ = r.fresh := Bool.and_true _
    cases hfresh : r.fresh with
    | true =>
      rw [hfresh] at hrestart
      refine ⟨[(q.document g).take p.toNat], ?_, ?_, ?_⟩
      · intro piece hpiece
        rw [List.mem_singleton.mp hpiece]
        exact isFront_take hpos hlt
      · rw [List.countP_cons_of_pos hrestart]
        rfl
      · rw [readStart_of_fresh hfresh, List.take_zero, List.append_nil, List.flatten_singleton]
    | false =>
      rw [hfresh] at hrestart
      refine ⟨[], nofun, ?_, ?_⟩
      · rw [List.countP_cons_of_neg (by rw [hrestart]; exact Bool.false_ne_true)]
        rfl
      · rw [hsteady hrestart, readStart_of_settled hfresh]
        rfl

/-- **A row of reads.** What a client has received when it ends is a front of a document for each
read that was sent back, and then a document. -/
theorem readOn_collects {around : Surroundings} {left count : Nat} {front cur : List UInt8}
    {q r : Resource cfg} {n : Nat} {received : List UInt8}
    (hpartway : Partway (q.document g) cur offset)
    (hsteady : SteadyAfter (q.document g) (encounters around block left count offset r))
    (hsize : ∀ e ∈ encounters around block left count offset r, e.document.length ≤ 4294967296)
    (h : (readOn around block left count (front ++ cur) offset r).value = .ok (n, received)) :
    ∃ (pieces : List (List UInt8)) (e : Encounter cfg), (∀ p ∈ pieces, View.IsFront p) ∧
      pieces.length = (encounters around block left count offset r).countP Encounter.isRestart ∧
      received = front ++ pieces.flatten ++ e.document := by
  induction left generalizing count front cur offset q g r with
  | zero => cases h
  | succ left ih =>
    rw [encounters] at hsteady hsize ⊢
    obtain ⟨pieces, hpieces, hcount, hcur⟩ := hpartway.start hsteady.1
    dsimp only [Encounter.document] at hcur
    have hfirst : (r.document (around.routing count)).length ≤ 4294967296 :=
      hsize ⟨r, around.routing count, offset⟩ List.mem_cons_self
    have hread := @read_ok _ r (around.routing count) block offset (around.meanwhile count) hfirst
    rw [readOn] at h
    generalize r.read (around.routing count) .any (List.replicate block 0) offset
      (around.meanwhile count) = x at h hread hsteady hsize ⊢
    obtain ⟨⟨buffer, next, result⟩, r', notices, traces⟩ := x
    cases result with
    | error cause => cases h
    | ok reply =>
      obtain ⟨hblock, hpayload, hnext⟩ := hread rfl
      dsimp only at hpayload hnext
      -- what has been received after this read
      have hcur' : cur ++ buffer.take reply.payloadLength = pieces.flatten ++
          (r.document (around.routing count)).take (r.readStart offset + block) := by
        rw [hpayload, hcur, List.append_assoc, List.take_add]
      by_cases hend : (r.document (around.routing count)).length ≤ r.readStart offset + block
      · rw [readNext_of_past (by rw [List.length_replicate]; exact hend)] at hnext
        subst hnext
        rw [List.take_of_length_le hend] at hcur'
        cases h
        refine ⟨pieces, ⟨r, around.routing count, offset⟩, hpieces, hcount, ?_⟩
        rw [List.append_assoc, hcur', List.append_assoc]
        rfl
      · obtain ⟨p, hp, hresume⟩ := @readNext_of_short _ r (around.routing count)
          (List.replicate block 0) offset hfirst (by rw [List.length_replicate]; omega)
        rw [List.length_replicate] at hp
        rw [hresume] at hnext
        subst hnext
        have hnextway : Partway (r.document (around.routing count))
            ((r.document (around.routing count)).take (r.readStart offset + block)) (.resume p) :=
          .inr ⟨p, rfl, by omega, by omega, by rw [hp]⟩
        have hrest : (readOn around block left (count + 1) (front ++ pieces.flatten ++
            (r.document (around.routing count)).take (r.readStart offset + block))
              (.resume p) r').value = .ok (n, received) := by
          rw [List.append_assoc, ← hcur', ← List.append_assoc]
          exact h
        obtain ⟨more, e, hmore, hmoreCount, hreceived⟩ := ih hnextway hsteady.2
          (fun e he => hsize e (List.mem_cons_of_mem _ he)) hrest
        refine ⟨pieces ++ more, e, ?_, ?_, ?_⟩
        · intro piece hpiece
          exact (List.mem_append.mp hpiece).elim (hpieces piece) (hmore piece)
        · rw [List.length_append, hcount, hmoreCount, ← List.countP_append]
          rfl
        · rw [hreceived, List.flatten_append, List.append_assoc front]

end Resource

namespace Observer

/-- **A retrieval that was sent back to the front is not accepted.** Fronts of documents, at least one
and each without the end of its document, with a whole document behind them are not JSON, whatever
routes and neighbors each of the documents was written from. This is what an observer collects when
the document changes only where a notification sends a read back to the front, with a front for each
of these reads; hence it gets no view from such a retrieval if there is one of them. -/
theorem restarted_not_accepted :
    (∀ pieces : List (List UInt8), pieces ≠ [] →
      (∀ p ∈ pieces, View.IsFront p) → ∀ g t,
        View.parse (pieces.flatten ++ (View.shown g t).body) = .error .notJson) ∧
    (∀ (cfg : Settings) (o : Observer) (r : Resource cfg) (around : Surroundings) (now : Instant),
      let row := Resource.encounters around o.blockSize maxExchanges 0 .done r
      SteadyAfter (r.document (around.routing 0)) row →
      (∀ e ∈ row, e.document.length ≤ 4294967296) →
      (∀ n received, (r.readWhole around o.blockSize maxExchanges).value = .ok (n, received) →
        ∃ (pieces : List (List UInt8)) (e : Encounter cfg), (∀ p ∈ pieces, View.IsFront p) ∧
          pieces.length = row.countP Encounter.isRestart ∧
          received = pieces.flatten ++ e.document) ∧
      (0 < row.countP Encounter.isRestart →
        ∀ x, (o.fetch r around now).value.2 ≠ .ok x)) := by
  refine ⟨fun pieces hsome hpieces g t => View.parse_fronts hsome hpieces g t, ?_⟩
  intro cfg o r around now row hsteady hsize
  have hcollects : ∀ n received,
      (r.readWhole around o.blockSize maxExchanges).value = .ok (n, received) →
        ∃ (pieces : List (List UInt8)) (e : Encounter cfg), (∀ p ∈ pieces, View.IsFront p) ∧
          pieces.length = row.countP Encounter.isRestart ∧
          received = pieces.flatten ++ e.document := by
    intro n received hread
    have hfront : Resource.Partway (r.document (around.routing 0)) [] .done := .inl ⟨rfl, rfl⟩
    have hread' : (Resource.readOn around o.blockSize maxExchanges 0 ([] ++ []) .done r).value =
        .ok (n, received) := hread
    exact Resource.readOn_collects hfront hsteady hsize hread'
  refine ⟨hcollects, fun hrestart x hx => ?_⟩
  have hvalue : (o.fetch r around now).value.2 =
      retrievalOf now (r.readWhole around o.blockSize maxExchanges).value := rfl
  rw [hvalue] at hx
  cases hread : (r.readWhole around o.blockSize maxExchanges).value with
  | error cause =>
    rw [hread] at hx
    cases hx
  | ok collected =>
    obtain ⟨n, received⟩ := collected
    obtain ⟨pieces, e, hpieces, hcount, rfl⟩ := hcollects n received hread
    have hsome : pieces ≠ [] := by
      rintro rfl
      rw [← hcount] at hrestart
      exact Nat.lt_irrefl 0 hrestart
    have hparse : View.parse (pieces.flatten ++ e.document) = .error .notJson :=
      View.parse_fronts hsome hpieces e.routing e.state.table
    rw [hread, retrievalOf, hparse] at hx
    cases hx

/-- A document breaks off in an address and another one behind its opening brace. And an observer reads
sixteen bytes at a time while subscribers are told in the course of its first read, so that its second
read is sent back. -/
theorem restarted_not_accepted_of_one :
    let pieces := [utf8 "\x7b\"parent\":[\"fe80:", utf8 "\x7b"]
    let cfg : Settings := ⟨1, .ofMillis 1, .ofMillis 9, .ofMillis 9⟩
    let route : Route := ⟨.ofGroups 8193 0 0 0 0 0 0 1, .ofGroups 65152 0 0 0 0 0 0 1⟩
    let told : List Input :=
      [.event (.routeChanged .routeAdded route 1) .boot, .timer (.ofMillis 1)]
    let around : Surroundings := ⟨fun _ => .empty, fun n => if n = 0 then told else []⟩
    let r : Resource cfg := .startingAt cfg .boot
    let row := Resource.encounters around 16 maxExchanges 0 .done r
    (∀ p ∈ pieces, View.IsFront p) ∧
      View.parse (pieces.flatten ++ (View.shown .empty ⟨[none]⟩).body) = .error .notJson ∧
      SteadyAfter (r.document (around.routing 0)) row ∧
      (∀ e ∈ row, e.document.length ≤ 4294967296) ∧ row.countP Encounter.isRestart = 1 ∧
      ∀ x, ((ofBlockSize 16).fetch r around .boot).value.2 ≠ .ok x := by
  intro pieces cfg route told around r row
  have hpieces : ∀ p ∈ pieces, View.IsFront p := by
    intro p hp
    let g : Routing := ⟨some (.ofGroups 65152 0 0 0 0 0 0 1), none, []⟩
    rw [List.mem_cons, List.mem_singleton] at hp
    rcases hp with rfl | rfl
    · exact ⟨by decide +kernel, g, ⟨[none]⟩, by decide +kernel, by decide +kernel⟩
    · exact ⟨by decide +kernel, g, ⟨[none]⟩, by decide +kernel, by decide +kernel⟩
  have hsteady : SteadyAfter (r.document (around.routing 0)) row := by decide +kernel
  have hsize : ∀ e ∈ row, e.document.length ≤ 4294967296 := by
    have hall : (row.all fun e => decide (e.document.length ≤ 4294967296)) = true := by
      decide +kernel
    intro e he
    exact of_decide_eq_true (List.all_eq_true.mp hall e he)
  have hrestart : row.countP Encounter.isRestart = 1 := by decide +kernel
  obtain ⟨hfronts, hfetch⟩ := restarted_not_accepted
  refine ⟨hpieces, hfronts pieces (List.cons_ne_nil _ _) hpieces _ _, hsteady, hsize, hrestart, ?_⟩
  refine (hfetch cfg (ofBlockSize 16) r around .boot hsteady hsize).2 ?_
  rw [show ((Resource.encounters around (ofBlockSize 16).blockSize maxExchanges 0 .done r).countP
    Encounter.isRestart) = 1 from hrestart]
  exact Nat.zero_lt_one

end Observer

end ObservableTree
